import Mathlib.Data.List.Perm.Basic
import LiveTemplate.Proofs.Render.Inspection
import LiveTemplate.Render.Output

/-!
The end of output. What goes away while a transaction is open tells each component and modifier that
it owns of its end, those of inner regions first, and releases all of its scopes. Destroying a page
does so for all that is shown, or else finds that the nodes of the page are no range of siblings, and
then does nothing of it. While somebody else's transaction is open every operation on the page is
refused; all but the destruction then leave everything as it was.
-/

namespace LiveTemplate

open Effects

/-! Scopes in use -/

namespace Scopes

/-- The scopes in use are these, each of them once. -/
structure InUse (scopes : Scopes) (ids : List ScopeId) : Prop where
  /-- A number is free or in use. -/
  all : (scopes.free ++ ids).Perm (List.range scopes.scopes.size)
  used : ∀ id ∈ ids, ∃ scope, scopes.get id = .ok scope

namespace InUse

variable {scopes : Scopes} {ids more : List ScopeId} {id : ScopeId}

theorem live_eq (inUse : scopes.InUse ids) : scopes.live = ids.length := by
  have size := inUse.all.length_eq
  rw [List.length_append, List.length_range] at size
  unfold Scopes.live
  omega

theorem perm (inUse : scopes.InUse ids) (same : ids.Perm more) : scopes.InUse more where
  all := (same.symm.append_left _).trans inUse.all
  used id member := inUse.used id (same.mem_iff.mpr member)

theorem nodup (inUse : scopes.InUse ids) : ids.Nodup :=
  (List.nodup_append.mp (inUse.all.nodup_iff.mpr List.nodup_range)).2.1

theorem release (inUse : scopes.InUse (id :: ids)) : (scopes.release id).InUse ids := by
  obtain ⟨scope, there⟩ := inUse.used id List.mem_cons_self
  have done : scopes.release id = ⟨scopes.scopes.setIfInBounds id none, id :: scopes.free⟩ := by
    unfold Scopes.release
    rw [get_ok.mp there]
  rw [done]
  refine ⟨?_, fun other member => ?_⟩
  · change (id :: scopes.free ++ ids).Perm (List.range (scopes.scopes.setIfInBounds id none).size)
    rw [Array.size_setIfInBounds]
    exact List.perm_middle.symm.trans inUse.all
  · have apart : id ≠ other := fun equal => (List.nodup_cons.mp inUse.nodup).1 (equal ▸ member)
    obtain ⟨found, here⟩ := inUse.used other (List.mem_cons_of_mem _ member)
    refine ⟨found, get_ok.mpr ?_⟩
    rw [Array.getElem?_setIfInBounds_ne apart]
    exact get_ok.mp here

theorem releaseAll (inUse : scopes.InUse (ids ++ more)) :
    (ids.foldl Scopes.release scopes).InUse more := by
  induction ids generalizing scopes with
  | nil => exact inUse
  | cons id ids ih => exact ih inUse.release

end InUse

end Scopes

/-! All that is nested in content -/

mutual

/-- The content of all regions within some content and then that itself, the innermost first. -/
def Content.parts : Content → List Content
  | ⟨updates, scopes, owned⟩ => Update.allParts updates ++ [⟨updates, scopes, owned⟩]

def Update.parts : Update → List Content
  | .group _ members => Update.allParts members
  | .region ⟨_, _, _, content⟩ => content.parts
  | .list ⟨_, _, _, _, _, items⟩ => Update.itemParts items
  | _ => []

def Update.allParts : List Update → List Content
  | [] => []
  | update :: rest => update.parts ++ Update.allParts rest

def Update.itemParts : List (Key × Region) → List Content
  | [] => []
  | (_, ⟨_, _, _, content⟩) :: rest => content.parts ++ Update.itemParts rest

end

/-- The scopes of content with all that is nested in it. -/
def Content.allScopes (content : Content) : List ScopeId := content.parts.flatMap Content.scopes

/-- The components and modifiers of content with all that is nested in it. -/
def Content.allOwned (content : Content) : List Owned := content.parts.flatMap Content.owned

/-! Teardown -/

namespace World

/-- The world when some content has gone away. -/
def dropping (world : World) (contents : List Content) : World :=
  { world with
    scopes := (contents.flatMap Content.scopes).foldl Scopes.release world.scopes
    transaction := world.transaction.map fun transaction =>
      { transaction with
        destructors := transaction.destructors ++ contents.flatMap Content.owned } }

variable {world : World} {contents more : List Content}

theorem dropping_nil : world.dropping [] = world := by
  simp only [dropping, List.flatMap_nil, List.foldl_nil, List.append_nil, Option.map_id']

theorem dropping_append :
    world.dropping (contents ++ more) = (world.dropping contents).dropping more := by
  unfold dropping
  simp only [List.flatMap_append, List.foldl_append, Option.map_map, Function.comp_def,
    List.append_assoc]

theorem dropping_isSome (begun : world.transaction.isSome) (contents : List Content) :
    (world.dropping contents).transaction.isSome := by
  rwa [dropping, Option.isSome_map]

end World

namespace Render

variable {world : World}

theorem tellAll {transaction : Transaction} (begun : world.transaction = some transaction)
    (items : List Owned) :
    items.forM (fun owned => queue (Transaction.didDestroy owned)) world = .ok () { world with
      transaction := some { transaction with destructors := transaction.destructors ++ items } } := by
  induction items generalizing world transaction with
  | nil =>
    rw [List.append_nil, ← begun]
    rfl
  | cons item rest ih =>
    have queued : queue (Transaction.didDestroy item) world = .ok () { world with
        transaction := some (transaction.didDestroy item) } := by
      refine (bind_of_ok rfl).trans ?_
      rw [begun]
      rfl
    refine (bind_of_ok queued).trans ((ih rfl).trans ?_)
    simp only [Transaction.didDestroy, List.append_assoc, List.singleton_append]

theorem releaseAll (ids : List ScopeId) :
    ids.forM release world =
      .ok () { world with scopes := ids.foldl Scopes.release world.scopes } := by
  induction ids generalizing world with
  | nil => rfl
  | cons id rest ih => exact (bind_of_ok rfl).trans ih

end Render

mutual

/-- Content that goes away while a transaction is open queues the end of all that it owns and releases
all of its scopes. -/
theorem Content.teardown_eq : ∀ (content : Content) (world : World), world.transaction.isSome →
    content.teardown world = .ok () (world.dropping content.parts)
  | ⟨updates, scopes, owned⟩, world, begun => by
    rw [Content.teardown, Content.parts, World.dropping_append]
    refine (bind_of_ok (Update.teardownAll_eq updates world begun)).trans ?_
    obtain ⟨transaction, same⟩ := Option.isSome_iff_exists.mp
      (World.dropping_isSome begun (Update.allParts updates))
    refine (bind_of_ok (Render.tellAll same owned)).trans ((Render.releaseAll scopes).trans ?_)
    simp only [World.dropping, List.flatMap_cons, List.flatMap_nil, List.append_nil] at same ⊢
    rw [same]
    rfl

theorem Update.teardown_eq : ∀ (update : Update) (world : World), world.transaction.isSome →
    update.teardown world = .ok () (world.dropping update.parts)
  | .group _ members, world, begun => by
    rw [Update.teardown, Update.parts]
    exact Update.teardownAll_eq members world begun
  | .region ⟨_, _, _, content⟩, world, begun => by
    rw [Update.teardown, Update.parts]
    exact Content.teardown_eq content world begun
  | .list ⟨_, _, _, _, _, items⟩, world, begun => by
    rw [Update.teardown, Update.parts]
    exact Update.teardownItems_eq items world begun
  | .text .., world, begun | .raw .., world, begun | .attr .., world, begun
  | .assert .., world, begun | .component .., world, begun | .layout .., world, begun
  | .modifier .., world, begun => by
    simp only [Update.teardown, Update.parts, World.dropping_nil]
    rfl

theorem Update.teardownAll_eq : ∀ (updates : List Update) (world : World),
    world.transaction.isSome →
      Update.teardownAll updates world = .ok () (world.dropping (Update.allParts updates))
  | [], world, _ => by
    rw [Update.allParts, World.dropping_nil]
    rfl
  | update :: rest, world, begun => by
    rw [Update.teardownAll, Update.allParts, World.dropping_append]
    exact (bind_of_ok (Update.teardown_eq update world begun)).trans
      (Update.teardownAll_eq rest _ (World.dropping_isSome begun _))

theorem Update.teardownItems_eq : ∀ (items : List (Key × Region)) (world : World),
    world.transaction.isSome →
      Update.teardownItems items world = .ok () (world.dropping (Update.itemParts items))
  | [], world, _ => by
    rw [Update.itemParts, World.dropping_nil]
    rfl
  | (_, ⟨_, _, _, content⟩) :: rest, world, begun => by
    rw [Update.teardownItems, Update.itemParts, World.dropping_append]
    exact (bind_of_ok (Content.teardown_eq content world begun)).trans
      (Update.teardownItems_eq rest _ (World.dropping_isSome begun _))

end

/-! Destroying a page -/

/-- Taking the nodes of an extent off the page changes nothing else, and nothing at all if they are no
range of siblings. -/
theorem Render.clear_cases (extent : ExtentId) (world : World) :
    (∃ dom, clear extent world = .ok () { world with page := { world.page with dom } }) ∨
      ∃ defect, clear extent world = .error (.broken defect) world := by
  cases found : world.extents.ends? extent with
  | none =>
    refine .inl ⟨world.page.dom, (bind_of_ok rfl).trans ?_⟩
    rw [found]
    rfl
  | some ends =>
    obtain ⟨first, last⟩ := ends
    cases under : world.extents.parent extent with
    | error defect =>
      refine .inr ⟨defect, (bind_of_ok rfl).trans ?_⟩
      rw [found]
      refine (bind_of_ok rfl).trans ((bind_of_ok rfl).trans ?_)
      rw [under]
      rfl
    | ok parent =>
      cases cleared : world.page.dom.clear parent first last with
      | error defect =>
        refine .inr ⟨defect, (bind_of_ok rfl).trans ?_⟩
        rw [found]
        refine (bind_of_ok rfl).trans ((bind_of_ok rfl).trans ?_)
        rw [under]
        refine (bind_of_ok rfl).trans ?_
        rw [cleared]
        rfl
      | ok result =>
        refine .inl ⟨result.1, (bind_of_ok rfl).trans ?_⟩
        rw [found]
        refine (bind_of_ok rfl).trans ((bind_of_ok rfl).trans ?_)
        rw [under]
        refine (bind_of_ok rfl).trans ?_
        rw [cleared]
        rfl

namespace Render

variable {world : World}

theorem begin_of_closed (closed : world.transaction = none) :
    begin world = .ok () { world with transaction := some {} } := by
  refine (bind_of_ok rfl).trans ?_
  rw [closed]
  rfl

theorem commit_eq {hooks : Hooks} {transaction : Transaction}
    (begun : world.transaction = some transaction) :
    commit hooks world = .ok () { world with
      transaction := none
      page := ((transaction.run hooks).run world.page).2 } := by
  refine (bind_of_ok rfl).trans ?_
  rw [begun]
  rfl

end Render

namespace Output

variable {scene : Scene} {output : Output} {root : Region} {world : World}

/-- An action in a transaction of its own. -/
theorem within_of_ok {action : Region → Render (Option Region × Option RenderError)}
    {left : Option Region} {failure : Option RenderError} {after : World} {transaction : Transaction}
    (shown : output.root = some root) (closed : world.transaction = none)
    (done : action root { world with transaction := some {} } = .ok (left, failure) after)
    (queued : after.transaction = some transaction) :
    output.within scene action world = .ok (⟨left⟩, failure.elim (.ok ()) .error) { after with
      transaction := none
      page := ((transaction.run scene.host.registry.hooks).run after.page).2 } := by
  unfold within
  rw [shown]
  refine (bind_of_ok (Render.attempt_of_ok (Render.begin_of_closed closed))).trans ?_
  refine (bind_of_ok done).trans ?_
  refine (bind_of_ok (Render.attempt_of_ok (Render.commit_eq queued))).trans ?_
  cases failure <;> rfl

/-- An action that breaks down leaves its transaction open. -/
theorem within_of_broken {action : Region → Render (Option Region × Option RenderError)}
    {after : World} {defect : Defect} (shown : output.root = some root)
    (closed : world.transaction = none)
    (failed : action root { world with transaction := some {} } = .error (.broken defect) after) :
    output.within scene action world = .error (.broken defect) after := by
  unfold within
  rw [shown]
  exact (bind_of_ok (Render.attempt_of_ok (Render.begin_of_closed closed))).trans
    (bind_of_error failed)

/-- Unless another transaction is open, destroying a page tells every component and modifier on it of
its end, each of them once, and releases every scope; or the nodes of the page are no range of siblings
any more, and then a transaction stays open in which nothing was done. -/
theorem destroy_cases (scene : Scene) (shown : output.root = some root) (closed : world.transaction = none) :
    (∃ dom, output.destroy scene world = .ok (⟨none⟩, .ok ()) { world with
        page := ((Transaction.run scene.host.registry.hooks
          { destructors := root.content.allOwned }).run { world.page with dom }).2
        scopes := (root.content.allScopes.foldl Scopes.release world.scopes).release
          root.captured.scope }) ∨
      ∃ defect, output.destroy scene world = .error (.broken defect)
        { world with transaction := some {} } := by
  rcases Render.clear_cases root.extent { world with transaction := some {} } with
    ⟨dom, cleared⟩ | ⟨defect, broken⟩
  · have removed : root.remove { world with transaction := some {} } = .ok () _ :=
      (bind_of_ok cleared).trans (root.content.teardown_eq _ rfl)
    refine .inl ⟨dom, ?_⟩
    refine (bind_of_ok (within_of_ok shown closed ((bind_of_ok
      (Render.attempt_of_ok removed)).trans (bind_of_ok rfl)) rfl)).trans ?_
    rw [closed]
    rfl
  · have removed : root.remove { world with transaction := some {} } = .error (.broken defect) _ :=
      bind_of_error broken
    exact .inr ⟨defect, bind_of_error (within_of_broken shown closed
      (bind_of_error (Render.attempt_of_broken removed)))⟩

/-- When a page whose scopes are all its own is destroyed, none is left in use. -/
theorem destroy_empties {left : Output} {result : Except RenderError Unit} {after : World}
    (shown : output.root = some root) (closed : world.transaction = none)
    (inUse : world.scopes.InUse (root.captured.scope :: root.content.allScopes))
    (destroyed : output.destroy scene world = .ok (left, result) after) :
    left.root = none ∧ result = .ok () ∧ after.transaction = none ∧ after.scopes.live = 0 := by
  rcases destroy_cases scene shown closed with ⟨dom, done⟩ | ⟨defect, failed⟩
  · cases done.symm.trans destroyed
    have inner : world.scopes.InUse (root.content.allScopes ++ [root.captured.scope]) :=
      inUse.perm (List.perm_append_singleton _ _).symm
    exact ⟨rfl, rfl, closed, inner.releaseAll.release.live_eq⟩
  · cases failed.symm.trans destroyed

/-! Refused operations -/

/-- An action on a page is refused while a transaction is open, and nothing is done of it: page and
world, with the queues of the open transaction, are as they were. -/
theorem within_refused (scene : Scene)
    (action : Region → Render (Option Region × Option RenderError)) (shown : output.root = some root)
    (opened : world.transaction.isSome) :
    output.within scene action world = .ok (output, .error .transactionInProgress) world := by
  have refused : Render.attempt Render.begin world = .ok (.error .transactionInProgress) world := by
    have failed : Render.begin world = .error (.failed .transactionInProgress) world := by
      refine (bind_of_ok rfl).trans ?_
      rw [if_pos opened]
      rfl
    unfold Render.attempt
    rw [failed]
  unfold within
  rw [shown]
  exact bind_of_ok refused

/-- On a page that was destroyed there is nothing to act on. -/
theorem within_destroyed (scene : Scene)
    (action : Region → Render (Option Region × Option RenderError)) (world : World) :
    within scene ⟨none⟩ action world = .ok (⟨none⟩, .error .destroyed) world := rfl

/-- Whatever is done after a rerendering or a handling of an exception that was refused, be it the same
operation when the transaction is closed, is done as if nobody had asked before. -/
theorem refused_leaves_no_trace {α : Type} (scene : Scene) (always : Bool)
    (rest : Output → Render α) (shown : output.root = some root)
    (opened : world.transaction.isSome) :
    (do let (left, _) ← output.rerender scene always; rest left) world = rest output world ∧
      (do let (left, _) ← output.handleException scene; rest left) world = rest output world :=
  ⟨bind_of_ok (within_refused scene _ shown opened), bind_of_ok (within_refused scene _ shown opened)⟩

/-- A destruction that is refused leaves the world alone, but gives up the page all the same. What the
page still shows, and the scopes in use for it, are beyond every later operation. -/
theorem destroy_refused (scene : Scene) (shown : output.root = some root)
    (opened : world.transaction.isSome) :
    output.destroy scene world = .ok (⟨none⟩, .error .transactionInProgress) world ∧
      ∀ (always : Bool) (later : World),
        rerender scene always ⟨none⟩ later = .ok (⟨none⟩, .error .destroyed) later ∧
        handleException scene ⟨none⟩ later = .ok (⟨none⟩, .error .destroyed) later ∧
        destroy scene ⟨none⟩ later = .ok (⟨none⟩, .error .destroyed) later := by
  refine ⟨bind_of_ok (within_refused scene _ shown opened), fun always later => ⟨?_, ?_, ?_⟩⟩
  · exact within_destroyed scene _ later
  · exact within_destroyed scene _ later
  · exact bind_of_ok (within_destroyed scene _ later)

end Output

end LiveTemplate
