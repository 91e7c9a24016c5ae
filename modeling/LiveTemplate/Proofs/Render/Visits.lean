import LiveTemplate.Proofs.Reactive.Reliable
import LiveTemplate.Proofs.Render.Idling
import LiveTemplate.Proofs.Render.Walking
import LiveTemplate.Render.Output

/-!
Pages over time. Templates are rendered, and what they show is changed, brought up to date, rendered
anew and destroyed in any order. Whatever has been done and whatever of it has failed, passing over a
group that validates cannot be told from going through it.
-/

namespace LiveTemplate

open Effects

/-- All that an output holds stands. -/
def Output.Stands (scene : Scene) (known : Reference → Prop) (store : Store) (output : Output) :
    Prop :=
  ∀ root ∈ output.root, Update.Stand scene known store [.region root]

theorem Output.Stands.lead {scene : Scene} {known : Reference → Prop} {before after : Store}
    {output : Output} (stands : output.Stands scene known before) (leads : before.Leads after) :
    output.Stands scene known after :=
  fun root there => (stands root there).lead leads

namespace Scene.Orderly

variable {scene : Scene} {known : Reference → Prop} {world : World} (orderly : scene.Orderly known)

include orderly

theorem commit (bound : world.Known scene known) :
    (scene.passing known world.page.store).Goes world (Render.commit scene.host.registry.hooks)
      fun _ _ => True := by
  have holds : (scene.passing known world.page.store).holds world := ⟨.refl _, bound⟩
  refine .get_bind ?_
  split
  · exact holds
  · rename_i transaction _
    have leads := orderly.committed transaction world.page
    exact .modify_bind (.refl _) ⟨⟨leads, bound.last leads.lasts.toGives⟩, leads, trivial⟩

/-- Whatever is done with an output in a transaction of its own, it stands in the end. -/
theorem within {output : Output} {action : Region → Render (Option Region × Option RenderError)}
    (bound : world.Known scene known) (stands : output.Stands scene known world.page.store)
    (each : ∀ (between : World) (root : Region), between.Known scene known →
      Update.Stand scene known between.page.store [.region root] →
      (scene.passing known between.page.store).Goes between (action root) fun result after =>
        Output.Stands scene known after.page.store ⟨result.1⟩) :
    (scene.passing known world.page.store).Goes world (output.within scene action)
      fun result after => result.1.Stands scene known after.page.store := by
  have holds : (scene.passing known world.page.store).holds world := ⟨.refl _, bound⟩
  unfold Output.within
  split
  · exact .pure holds stands
  · rename_i root there
    have began := Stock.renders_attempt (Stock.renders_sheds World.Sheds.begin bound)
    refine .bind began fun outcome first holds leads _ => ?_
    split
    · exact .pure holds (stands.lead leads)
    · have root := (stands root there).lead leads
      refine .bind (Stock.renders_since (each first _ holds.2 root) holds.1)
        fun result second holds _ stands => ?_
      refine .bind (Stock.renders_since (Stock.renders_attempt (orderly.commit holds.2)) holds.1)
        fun outcome third holds leads _ => ?_
      split
      · exact .pure holds (stands.lead leads)
      · exact .pure holds (stands.lead leads)

/-- Bringing an output up to date, in whatever way it is done. -/
theorem rerender (always : Bool) {output : Output} (bound : world.Known scene known)
    (stands : output.Stands scene known world.page.store) :
    (scene.passing known world.page.store).Goes world (output.rerender scene always)
      fun result after => result.1.Stands scene known after.page.store := by
  refine orderly.within bound stands fun between root bound stand => ?_
  refine .bind ((orderly.passesOver always stepLimit).refresh_region orderly bound stand)
    fun result after holds _ passed => .pure holds ?_
  rintro _ ⟨⟩
  exact passed.stand

theorem handleException {output : Output} (bound : world.Known scene known)
    (stands : output.Stands scene known world.page.store) :
    (scene.passing known world.page.store).Goes world (output.handleException scene)
      fun result after => result.1.Stands scene known after.page.store := by
  refine orderly.within bound stands fun between root bound stand => ?_
  refine .bind (orderly.renderAgain bound stand) fun result after holds _ passed => .pure holds ?_
  rintro _ ⟨⟩
  exact passed.stand

theorem destroy {output : Output} (bound : world.Known scene known)
    (stands : output.Stands scene known world.page.store) :
    (scene.passing known world.page.store).Goes world (output.destroy scene)
      fun result after => result.1.Stands scene known after.page.store := by
  refine .bind (orderly.within bound stands fun between root bound stand => ?_)
    fun _ after holds _ _ => .pure holds nofun
  have removed := Stock.renders_attempt (Stock.renders_sheds root.remove_sheds bound)
  refine .bind removed fun outcome after holds _ _ => ?_
  refine .bind (sheds (World.Sheds.release _) holds) fun _ _ holds _ _ => ?_
  exact .pure holds nofun

theorem render (entry : Handle) {this : Reference} (parent : NodeId) (before : Option NodeId)
    (bound : world.Known scene known) (good : known this) (rests : this.Over world.page.store) :
    (scene.passing known world.page.store).Goes world
      (Output.render scene entry this parent before)
      fun output after => output.Stands scene known after.page.store := by
  have holds : (scene.passing known world.page.store).holds world := ⟨.refl _, bound⟩
  refine .orElse (fun _ _ => holds) fun block _ => .orElse (fun _ _ => holds) fun names _ => ?_
  -- the scope of the page itself
  have own : (scene.passing known world.page.store).Goes world (Render.newScope names.size this)
      fun _ after => after.page.store = world.page.store := by
    refine ⟨⟨.refl _, ?_⟩, .refl _, rfl⟩
    refine Stock.Sound.add_held bound ⟨fun slot member => ?_, good, rests⟩
    rw [List.eq_of_mem_replicate member]
    trivial
  refine .bind own fun scope first holds _ same => ?_
  refine .bind (sheds World.Sheds.begin holds) fun _ second holds _ same' => ?_
  have captured : Captured.Held (.kept scene known) second.page.store { scope } := by
    refine ⟨⟨nofun, ⟨nofun, nofun, nofun⟩, nofun⟩, nofun, nofun⟩
  have resumed := passes (orderly.sound.resume supplies block.slice parent before
    ⟨.refl _, holds.2.last (Stock.kept_gives _)⟩ (captured.last (Stock.kept_gives _)))
  refine .bind (Stock.renders_since (Stock.renders_attempt resumed) holds.1)
    fun outcome third holds leads rendered => ?_
  split
  · rename_i extent content
    obtain ⟨-, held⟩ := rendered (extent, content) rfl
    refine .bind (Stock.renders_since (orderly.commit holds.2) holds.1)
      fun _ last holds leads' _ => .pure holds ?_
    rintro _ ⟨⟩
    have made := (Update.Stand.of_rendered held).1
    exact (Update.Stand.region_iff.mpr ⟨captured.last leads.lasts.toGives, made⟩).lead leads'
  · refine .bind (sheds (World.Sheds.modify (fun _ => rfl) fun _ => rfl) holds)
      fun _ _ holds _ _ => ?_
    exact .bind (sheds (World.Sheds.release scope) holds) fun _ _ holds _ _ => .throw holds

end Scene.Orderly

/-- Pages that can come about, with all that was rendered to them. Between renders the host may do
to the page whatever it likes, as long as a change of a cell is stamped. -/
inductive Scene.Visited (scene : Scene) (known : Reference → Prop) : List Output → World → Prop
  | start {world : World} : world.scopes = {} → Visited scene known [] world
  | change {outputs : List Output} {world : World} {page : Page} : Visited scene known outputs world →
      world.page.store.Leads page.store → Visited scene known outputs { world with page }
  | render {outputs : List Output} {world after : World} {entry : Handle} {this : Reference}
      {parent : NodeId} {before : Option NodeId} {output : Output} :
      Visited scene known outputs world → known this → this.Over world.page.store →
      Output.render scene entry this parent before world = .ok output after →
      Visited scene known (output :: outputs) after
  | failure {outputs : List Output} {world after : World} {entry : Handle} {this : Reference}
      {parent : NodeId} {before : Option NodeId} {error : RenderError} :
      Visited scene known outputs world → known this → this.Over world.page.store →
      Output.render scene entry this parent before world = .error (.failed error) after →
      Visited scene known outputs after
  | rerender {older newer : List Output} {output output' : Output} {world after : World}
      {always : Bool} {result : Except RenderError Unit} :
      Visited scene known (newer ++ output :: older) world →
      output.rerender scene always world = .ok (output', result) after →
      Visited scene known (newer ++ output' :: older) after
  | handleException {older newer : List Output} {output output' : Output} {world after : World}
      {result : Except RenderError Unit} :
      Visited scene known (newer ++ output :: older) world →
      output.handleException scene world = .ok (output', result) after →
      Visited scene known (newer ++ output' :: older) after
  | destroy {older newer : List Output} {output output' : Output} {world after : World}
      {result : Except RenderError Unit} :
      Visited scene known (newer ++ output :: older) world →
      output.destroy scene world = .ok (output', result) after →
      Visited scene known (newer ++ output' :: older) after

namespace Scene.Visited

variable {scene : Scene} {known : Reference → Prop} {outputs : List Output} {world : World}

/-- On every page all outputs stand. -/
theorem stands (orderly : scene.Orderly known) (visited : scene.Visited known outputs world) :
    world.Known scene known ∧ ∀ output ∈ outputs, output.Stands scene known world.page.store := by
  -- one output among others has changed
  have among : ∀ {older newer : List Output} {output output' : Output} {before after : World}
      {result : Except RenderError Unit} (action : Output → Render (Output × Except RenderError Unit)),
      action output before = .ok (output', result) after →
      (∀ other ∈ newer ++ output :: older, other.Stands scene known before.page.store) →
      (scene.passing known before.page.store).Goes before (action output)
        (fun result after => result.1.Stands scene known after.page.store) →
      after.Known scene known ∧
        ∀ other ∈ newer ++ output' :: older, other.Stands scene known after.page.store := by
    intro older newer output output' before after result action done stands goes
    obtain ⟨⟨leads, bound⟩, -, fresh⟩ := goes.of_ok done
    refine ⟨bound, fun other member => ?_⟩
    rcases List.mem_append.mp member with member | member
    · exact (stands other (List.mem_append_left _ member)).lead leads
    · rcases List.mem_cons.mp member with rfl | member
      · exact fresh
      · exact (stands other (List.mem_append_right _ (List.mem_cons_of_mem _ member))).lead leads
  induction visited with
  | @start world empty =>
    refine ⟨fun id scope there => ?_, nofun⟩
    rw [Scopes.get_ok, empty] at there
    simp at there
  | change _ leads ih =>
    exact ⟨ih.1.last leads.lasts.toGives, fun output member => (ih.2 output member).lead leads⟩
  | render _ good rests done ih =>
    obtain ⟨⟨leads, bound⟩, -, fresh⟩ := (orderly.render _ _ _ ih.1 good rests).of_ok done
    exact ⟨bound, List.forall_mem_cons.mpr
      ⟨fresh, fun output member => (ih.2 output member).lead leads⟩⟩
  | failure _ good rests failed ih =>
    obtain ⟨leads, bound⟩ := (orderly.render _ _ _ ih.1 good rests).of_error failed
    exact ⟨bound, fun output member => (ih.2 output member).lead leads⟩
  | @rerender _ _ _ _ _ _ always _ _ done ih =>
    exact among (Output.rerender scene always) done ih.2
      (orderly.rerender always ih.1 (ih.2 _ (by simp)))
  | handleException _ done ih =>
    exact among (Output.handleException scene) done ih.2
      (orderly.handleException ih.1 (ih.2 _ (by simp)))
  | destroy _ done ih =>
    exact among (Output.destroy scene) done ih.2 (orderly.destroy ih.1 (ih.2 _ (by simp)))

/-- Passing over a group cannot be told from going through it. If the tag of a group validates, then
going through its members finds all of them current, draws nothing, runs nothing, and leaves them as
they are, but for the times of the groups among them. -/
theorem group_passed_over (orderly : scene.Orderly known)
    (visited : scene.Visited known outputs world) {output : Output} (shown : output ∈ outputs)
    {root : Region} (living : output.root = some root) {last : Revision} {members : List Update}
    (group : (last, members) ∈ root.content.groups) {tag : Tag} {store : Store}
    (told : Tag.combineM (Update.tags scene.helpers members) world.page.store = .ok tag store)
    (valid : store.validates tag last = true) (transaction : Transaction) {depth : Nat}
    (deep : Update.allHeight members ≤ depth) :
    ∃ members' after, Region.goThrough (Refresh.update scene false depth) members
        { world with transaction := some transaction } = .ok (members', .current) after ∧
      Update.allUndated members' = Update.allUndated members ∧
      World.Quiet { world with transaction := some transaction } after := by
  have stand := (visited.stands orderly).2 output shown root living
  have calm := stand.settled (last, members)
    (by rwa [Update.allGroups_region, ← Content.groups_eq])
  obtain ⟨-, updates⟩ := root.held_iff.mp (stand.held _ List.mem_cons_self)
  obtain ⟨-, held⟩ := (Content.held_iff.mpr updates).grouped (last, members) group
  have fresh : Reading.Fresh world.page.store _ last := ⟨tag, store, told, valid⟩
  have idle : Update.Idle scene known last world.page.store members :=
    ⟨Update.allHeld_iff.mp held, fresh.member held.tell, Update.AllCalm.fresh calm held fresh⟩
  have goes := (orderly.passesBy last depth).goThrough deep
    (show Update.Idle scene known last
      ({ world with transaction := some transaction } : World).page.store members from idle) rfl
  unfold Law.Goes at goes
  revert goes
  cases Region.goThrough (Refresh.update scene false depth) members
    { world with transaction := some transaction } with
  | ok result after =>
    obtain ⟨members', outcome⟩ := result
    rintro ⟨-, quiet, rfl, undated⟩
    exact ⟨members', after, rfl, undated, quiet⟩
  | error fault after => exact False.elim

end Scene.Visited

/-- When a transaction is committed nothing happens. -/
structure Hooks.Idle (hooks : Hooks) : Prop where
  created : ∀ component, (hooks.component component.name).didCreate component = pure ()
  updated : ∀ component, (hooks.component component.name).didUpdate component = pure ()
  installed : ∀ modifier, (hooks.modifier modifier.name).install modifier = pure ()
  modified : ∀ modifier, (hooks.modifier modifier.name).update modifier = pure ()
  destroyed : ∀ owned, Transaction.destroy hooks owned = pure ()

theorem Hooks.Idle.run {hooks : Hooks} (idle : hooks.Idle) (transaction : Transaction) (page : Page) :
    (transaction.run hooks).run page = ((), page) := by
  have still : ∀ {α : Type} (items : List α),
      items.forM (fun _ => (pure () : StateM Page Unit)) = pure () := by
    intro α items
    induction items with
    | nil => rfl
    | cons item rest ih => exact ih
  unfold Transaction.run
  rw [funext idle.created, funext idle.updated, funext idle.installed, funext idle.modified,
    funext idle.destroyed]
  simp only [still]
  rfl

/-- A host whose helpers, truth and iterations go by what values hold. -/
structure Host.Honest (host : Host) : Prop where
  helpers : host.helpers.Honest
  decides : ∀ value other, Likeness.contents.Alike value other → host.holds value = host.holds other
  iterable : ∀ source key iterable, host.iterable source key = .ok iterable → iterable.source = source

/-- All references that are built in are known on a page of such a host. -/
theorem Host.Honest.obedient {scene : Scene} (host : scene.host.Honest) :
    scene.Obedient (Reference.Reliable scene.helpers) := by
  have honest : Helpers.Honest scene.helpers := host.helpers
  exact {
    obeys := fun _ reliable => reliable.obeys
    names := fun _ reliable => reliable.names
    const := .const
    cell := .cell
    property := fun _ key reliable => .property honest key reliable
    concat := fun _ reliable => .concat honest reliable
    condition := fun _ holds which reliable => .condition honest
      (by rcases which with rfl | rfl
          · exact fun _ _ alike => alike.truthy
          · exact host.decides) reliable
    presence := fun list _ keyFor reliable => .presence honest list keyFor reliable
    helper := fun name _ _ places names => .helper honest name places names
    dynamicVar := fun _ _ visible reliable => .dynamicVar honest visible reliable
    iterable := fun source key iterable reliable found => by
      rw [host.iterable source key iterable found]
      exact ⟨reliable, fun _ => id⟩ }

/-- The `this` of a basic component is the map of its named arguments. -/
theorem Host.Honest.creates {scene : Scene} (host : scene.host.Honest) {page : Page}
    {invocation : Invocation}
    (held : invocation.Held (.watching scene (Reference.Reliable scene.helpers)) page.store)
    (name : String) (ambient : Variables) :
    page.Outcome Store.Leaves (ComponentManager.basic.create name invocation ambient)
      fun made after => (Reference.Reliable scene.helpers made.1 ∧ made.1.Over after.store) ∧
        ∀ id ∈ made.2.cells, id < after.store.cells.size := by
  refine ⟨.refl _, ⟨.namedArgs host.helpers fun entry member => (held.named entry member).1, ?_⟩,
    nofun⟩
  exact Reference.over_named fun entry member => (held.named entry member).2

/-- An honest host whose components and modifiers have no hooks. -/
structure Host.Plain (host : Host) : Prop extends host.Honest where
  components : ∀ name manager, host.registry.component? name = some manager → manager = .basic
  modifiers : ∀ name manager, host.registry.modifier? name = some manager → manager = {}

namespace Host.Plain

variable {host : Host}

theorem hooks (plain : host.Plain) : host.registry.hooks = ⟨fun _ => .basic, fun _ => {}⟩ := by
  have components : ∀ name, (host.registry.component? name).getD .basic = .basic := fun name => by
    cases found : host.registry.component? name with
    | none => rfl
    | some manager => exact plain.components name manager found
  have modifiers : ∀ name, (host.registry.modifier? name).getD {} = {} := fun name => by
    cases found : host.registry.modifier? name with
    | none => rfl
    | some manager => exact plain.modifiers name manager found
  simp only [Registry.hooks, components, modifiers]

theorem idle (plain : host.Plain) : host.registry.hooks.Idle := by
  rw [plain.hooks]
  exact ⟨fun _ => rfl, fun _ => rfl, fun _ => rfl, fun _ => rfl, fun owned => by cases owned <;> rfl⟩

theorem orderly {scene : Scene} (plain : scene.host.Plain) :
    scene.Orderly (Reference.Reliable scene.helpers) := by
  have managers : ∀ component, Running.managerOf scene component = .basic := fun component => by
    rw [Running.managerOf, plain.hooks]
  exact {
    plain.toHonest.obedient with
    create := fun name manager found page invocation ambient held _ => by
      obtain rfl := plain.components name manager found
      exact (plain.creates held name ambient).mono .of_leaves fun _ _ => id
    create_leaves := fun name manager found page invocation ambient held _ => by
      obtain rfl := plain.components name manager found
      exact (plain.creates held name ambient).mono id fun _ _ _ => trivial
    modifier := fun name manager found modifier page => by
      obtain rfl := plain.modifiers name manager found
      exact ⟨.refl _, trivial⟩
    modifier_leaves := fun name manager found modifier page => by
      obtain rfl := plain.modifiers name manager found
      exact ⟨.refl _, trivial⟩
    didCreateElement := fun component element page => by
      rw [managers]
      exact .refl _
    didCreateElement_leaves := fun component element page => by
      rw [managers]
      exact .refl _
    didRenderLayout := fun component first last page => by
      rw [managers]
      exact .refl _
    didRenderLayout_leaves := fun component first last page => by
      rw [managers]
      exact .refl _
    update := fun component invocation page => by
      rw [managers]
      exact ⟨.refl _, trivial⟩
    didUpdateLayout := fun component first last page => by
      rw [managers]
      exact .refl _
    didUpdateLayout_dom := fun component first last page => by
      rw [managers]
      rfl
    committed := fun transaction page => by
      rw [plain.idle.run]
      exact .refl _ }

end Host.Plain

/-- A page with a card that shows a name. -/
def cardPage : Template where
  block := .of [.append (.helper ⟨"card", []⟩ [] [("name", .unknown ⟨"who", []⟩)]) false] []
  prelude := none
  named := []
  yields := []
  hasPartials := false
  blocks := []
  description := .null

def cardLayout : Template where
  block := .of [.append (.argument ⟨"name", []⟩) false] []
  prelude := none
  named := ["name"]
  yields := []
  hasPartials := false
  blocks := []
  description := .null

def cardHost : Host where
  registry := { components := [("card", .basic, cardLayout)] }

def cardScene : Scene where
  host := cardHost
  program := match compile cardHost.registry.resolver [cardPage] with
    | .ok compiled => compiled
    | .error _ => default

/-- An empty page, and a cell that holds what the card is about. -/
def cardStart : World where
  page := {
    store := { cells := #[⟨.map 0 [("who", .text "Ann")], 1⟩], storage := 1 }
    dom := (({} : Dom).create (.element "main" [])).2 }

theorem cardHost_plain : cardHost.Plain where
  helpers := ⟨nofun, nofun⟩
  decides := fun _ _ alike => alike.truthy
  iterable := fun source key iterable found => by
    obtain rfl := Except.ok.inj found
    rfl
  components := fun name manager found => by
    by_cases same : "card" = name <;>
      simp [Registry.component?, cardHost, Entries.get?, same] at found
    exact found.symm
  modifiers := nofun

/-- The card is shown by a group of three updates, whose tag validates. -/
def cardShown : EStateM.Result Fault World Output → Bool
  | .ok ⟨some root⟩ world => match root.content.groups with
    | [(last, members)] =>
      match Tag.combineM (Update.tags cardScene.helpers members) world.page.store with
      | .ok tag store => store.validates tag last && members.length == 3 &&
        decide (Update.allHeight members ≤ 1)
      | .error _ _ => false
    | _ => false
  | _ => false

/-- Whatever the card is made of was as it should be when it was shown, so it can be passed over. -/
theorem card_passed_over :
    ∃ output world root last members tag store,
      cardScene.Visited (Reference.Reliable cardScene.helpers) [output] world ∧
      output.root = some root ∧ (last, members) ∈ root.content.groups ∧ members.length = 3 ∧
      Tag.combineM (Update.tags cardScene.helpers members) world.page.store = .ok tag store ∧
      store.validates tag last = true ∧
      ∃ members' after,
        Region.goThrough (Refresh.update cardScene false 1) members
            { world with transaction := some {} } = .ok (members', .current) after ∧
          Update.allUndated members' = Update.allUndated members ∧
          World.Quiet { world with transaction := some {} } after := by
  have shows : cardShown (Output.render cardScene 1 (.cell 0) 0 none cardStart) = true := by
    decide +kernel
  unfold cardShown at shows
  split at shows
  case h_2 => cases shows
  rename_i root world rendered
  split at shows
  case h_2 => cases shows
  rename_i last members groups
  split at shows
  case h_2 => cases shows
  rename_i tag store told
  simp only [Bool.and_eq_true, beq_iff_eq, decide_eq_true_eq] at shows
  obtain ⟨⟨valid, three⟩, deep⟩ := shows
  have rests : (Reference.cell 0).Over cardStart.page.store := by
    simp [Reference.Over, Reference.sources, cardStart]
  have visited : cardScene.Visited (Reference.Reliable cardScene.helpers) [⟨some root⟩] world :=
    .render (.start rfl) (.cell 0) rests rendered
  have group : (last, members) ∈ root.content.groups := by simp [groups]
  have scene : cardScene.Orderly (Reference.Reliable cardScene.helpers) :=
    Host.Plain.orderly cardHost_plain
  exact ⟨⟨some root⟩, world, root, last, members, tag, store, visited, rfl, group, three, told, valid,
    Scene.Visited.group_passed_over scene visited List.mem_cons_self rfl group told valid {} deep⟩

/-! Hosts that do more while a page is rendered -/

/-- Going through a group of a page draws, although its tag validates. The host is faithful. -/
def Scene.Overlooks (scene : Scene) : Prop :=
  scene.Faithful (Reference.Reliable scene.helpers) ∧
    ∃ output world root last members tag store depth members' after,
      scene.Visited (Reference.Reliable scene.helpers) [output] world ∧
      output.root = some root ∧ (last, members) ∈ root.content.groups ∧
      Tag.combineM (Update.tags scene.helpers members) world.page.store = .ok tag store ∧
      store.validates tag last = true ∧ Update.allHeight members ≤ depth ∧
      Region.goThrough (Refresh.update scene false depth) members
          { world with transaction := some {} } = .ok (members', .current) after ∧
        after.page.dom.mutations ≠ world.page.dom.mutations

/-- The same of the first group, worked out. -/
def Scene.overlooks (scene : Scene) (depth : Nat) : EStateM.Result Fault World Output → Bool
  | .ok ⟨some root⟩ world => match root.content.groups with
    | (last, members) :: _ =>
      match Tag.combineM (Update.tags scene.helpers members) world.page.store with
      | .ok tag store => match Region.goThrough (Refresh.update scene false depth) members
          { world with transaction := some {} } with
        | .ok (_, .current) after => store.validates tag last &&
            decide (Update.allHeight members ≤ depth) &&
            decide (after.page.dom.mutations ≠ world.page.dom.mutations)
        | _ => false
      | .error _ _ => false
    | [] => false
  | _ => false

theorem Scene.Overlooks.of_seen {scene : Scene} {depth : Nat} {start : World}
    (faithful : scene.Faithful (Reference.Reliable scene.helpers)) (empty : start.scopes = {})
    (rests : (Reference.cell 0).Over start.page.store)
    (seen : scene.overlooks depth (Output.render scene 1 (.cell 0) 0 none start) = true) :
    scene.Overlooks := by
  unfold Scene.overlooks at seen
  split at seen
  case h_2 => cases seen
  rename_i root world rendered
  split at seen
  case h_2 => cases seen
  rename_i last members others groups
  split at seen
  case h_2 => cases seen
  rename_i tag store told
  split at seen
  case h_2 => cases seen
  rename_i members' after gone
  simp only [Bool.and_eq_true, decide_eq_true_eq] at seen
  obtain ⟨⟨valid, deep⟩, drawn⟩ := seen
  exact ⟨faithful, ⟨some root⟩, world, root, last, members, tag, store, depth, members', after,
    .render (.start empty) (.cell 0) rests rendered, rfl, by simp [groups], told, valid, deep, gone,
    drawn⟩

/-- When a host does something of its own. -/
inductive Moment where
  | create | modify | didCreateElement | didRenderLayout | didUpdateLayout
  deriving DecidableEq

namespace Moment

/-- Changes what the card is about, if it is time. -/
def meddle (moment now : Moment) : StateM Page Unit := fun page =>
  if moment = now then
    match Reading.updateCell 0 (.map 1 [("who", .text "Bea")]) page.store with
    | .ok _ store | .error _ store => ((), { page with store })
  else ((), page)

/-- A component in the card that meddles while it is rendered. -/
def leaf (moment : Moment) : ComponentManager where
  create _ _ _ page := .ok (.const .undefined, .constant) ((moment.meddle .create).run page).2
  didCreateElement _ _ := moment.meddle .didCreateElement
  didRenderLayout _ _ _ := moment.meddle .didRenderLayout

/-- A modifier of its element that meddles when it is made. -/
def mark (moment : Moment) : ModifierManager where
  create _ page := .ok () ((moment.meddle .modify).run page).2

/-- A card that marks its last element when its output was brought up to date. -/
def card (moment : Moment) : ComponentManager where
  create := ComponentManager.basic.create
  didUpdateLayout _ _ last page :=
    match moment, last.map (page.dom.setAttribute · ⟨"class", "fresh", none⟩) with
    | .didUpdateLayout, some (.ok dom) => ((), { page with dom })
    | _, _ => ((), page)

def leafLayout : Template where
  block := .of [.text "leaf"] []
  prelude := some [.openElement "i" [], .modifier ⟨"mark", []⟩ [] []]
  named := []
  yields := []
  hasPartials := false
  blocks := []
  description := .null

def layout : Template where
  block := .of [.append (.argument ⟨"name", []⟩) false, .append (.helper ⟨"leaf", []⟩ [] []) false] []
  prelude := none
  named := ["name"]
  yields := []
  hasPartials := false
  blocks := []
  description := .null

def host (moment : Moment) : Host where
  registry := {
    components := [("card", moment.card, layout), ("leaf", moment.leaf, leafLayout)]
    modifiers := [("mark", moment.mark)] }

def scene (moment : Moment) : Scene where
  host := moment.host
  program := match compile moment.host.registry.resolver [cardPage] with
    | .ok compiled => compiled
    | .error _ => default

/-- An empty page, with what the card is going to be about kept besides. -/
def start : World :=
  { cardStart with page := { cardStart.page with store := { cardStart.page.store with storage := 2 } } }

variable (moment : Moment)

theorem meddle_leads (now : Moment) (page : Page) :
    page.store.Leads ((moment.meddle now).run page).2.store := by
  have goes := Store.updateCell_leads (.refl page.store) 0 (.map 1 [("who", .text "Bea")])
  change page.store.Leads (moment.meddle now page).2.store
  unfold meddle
  split
  · split
    · rename_i done
      exact (goes.of_ok done).1
    · rename_i failed
      exact goes.of_error failed
  · exact .refl _

theorem card_leaves (component : Component) (first last : Option NodeId) (page : Page) :
    page.store.Leaves ((moment.card.didUpdateLayout component first last).run page).2.store := by
  change page.store.Leaves (moment.card.didUpdateLayout component first last page).2.store
  unfold card
  dsimp only
  split <;> exact .refl _

theorem component_found {name : String} {manager : ComponentManager}
    (found : moment.host.registry.component? name = some manager) :
    manager = moment.card ∨ manager = moment.leaf := by
  simp only [Registry.component?, host, Entries.get?, Option.map_eq_some_iff] at found
  obtain ⟨entry, found, rfl⟩ := found
  split at found
  · cases found
    exact .inl rfl
  · split at found
    · cases found
      exact .inr rfl
    · cases found

theorem modifier_found {name : String} {manager : ModifierManager}
    (found : moment.host.registry.modifier? name = some manager) : manager = moment.mark := by
  simp only [Registry.modifier?, host, Entries.get?] at found
  split at found
  · cases found
    rfl
  · cases found

/-- What holds of all managers there are holds of the one of any component. -/
theorem each_component (good : ComponentManager → Prop) (basic : good .basic)
    (card : good moment.card) (leaf : good moment.leaf) (name : String) :
    good (moment.host.registry.hooks.component name) := by
  unfold Registry.hooks
  dsimp only
  cases found : moment.host.registry.component? name with
  | none => exact basic
  | some manager => rcases moment.component_found found with rfl | rfl <;> assumption

theorem each_modifier (good : ModifierManager → Prop) (plain : good {}) (mark : good moment.mark)
    (name : String) : good (moment.host.registry.hooks.modifier name) := by
  unfold Registry.hooks
  dsimp only
  cases found : moment.host.registry.modifier? name with
  | none => exact plain
  | some manager => exact moment.modifier_found found ▸ mark

theorem idle : moment.host.registry.hooks.Idle where
  created component := moment.each_component (fun manager => manager.didCreate component = pure ())
    rfl rfl rfl component.name
  updated component := moment.each_component (fun manager => manager.didUpdate component = pure ())
    rfl rfl rfl component.name
  installed modifier := moment.each_modifier (fun manager => manager.install modifier = pure ())
    rfl rfl modifier.name
  modified modifier := moment.each_modifier (fun manager => manager.update modifier = pure ())
    rfl rfl modifier.name
  destroyed owned := by
    cases owned with
    | component component =>
      exact moment.each_component (fun manager => manager.destroy component = pure ()) rfl rfl rfl
        component.name
    | modifier modifier =>
      exact moment.each_modifier (fun manager => manager.destroy modifier = pure ()) rfl rfl
        modifier.name

theorem honest : moment.host.Honest where
  helpers := ⟨nofun, nofun⟩
  decides := fun _ _ alike => alike.truthy
  iterable := fun source key iterable found => by
    obtain rfl := Except.ok.inj found
    rfl

/-- Whatever is changed is stamped, and nothing is when a component is brought up to date. -/
theorem faithful : moment.scene.Faithful (Reference.Reliable moment.scene.helpers) := by
  have leads := moment.meddle_leads
  have honest : moment.scene.host.Honest := moment.honest
  exact {
    honest.obedient with
    create := fun name manager found page invocation ambient held _ => by
      rcases moment.component_found found with rfl | rfl
      · exact (honest.creates held name ambient).mono .of_leaves fun _ _ => id
      · exact ⟨leads _ _, ⟨.const _, by simp [Reference.Over, Reference.sources]⟩, nofun⟩
    modifier := fun name manager found modifier page => by
      obtain rfl := moment.modifier_found found
      exact ⟨leads _ _, trivial⟩
    didCreateElement := fun component element page => moment.each_component
      (fun manager => page.store.Leads ((manager.didCreateElement component element).run page).2.store)
      (.refl _) (.refl _) (leads _ _) component.name
    didRenderLayout := fun component first last page => moment.each_component
      (fun manager => page.store.Leads
        ((manager.didRenderLayout component first last).run page).2.store)
      (.refl _) (.refl _) (leads _ _) component.name
    update := fun component invocation page => moment.each_component
      (fun manager => page.Outcome Store.Leaves (manager.update component invocation) fun _ _ => True)
      ⟨.refl _, trivial⟩ ⟨.refl _, trivial⟩ ⟨.refl _, trivial⟩ component.name
    didUpdateLayout := fun component first last page => moment.each_component
      (fun manager => page.store.Leaves
        ((manager.didUpdateLayout component first last).run page).2.store)
      (.refl _) (moment.card_leaves component first last page) (.refl _) component.name
    committed := fun transaction page => by
      rw [show moment.scene.host = moment.host from rfl, moment.idle.run]
      exact .refl _ }

end Moment

/-- A group does not tell what the host does of its own while it is rendered: what a component or a
modifier changes while it is made, or a component when it is told of its element and of its output.
Nor does it tell what a component draws when it was gone through. -/
theorem groups_overlook_hooks : Moment.create.scene.Overlooks ∧ Moment.modify.scene.Overlooks ∧
    Moment.didCreateElement.scene.Overlooks ∧ Moment.didRenderLayout.scene.Overlooks ∧
    Moment.didUpdateLayout.scene.Overlooks := by
  have rests : (Reference.cell 0).Over Moment.start.page.store := by
    simp [Reference.Over, Reference.sources, Moment.start, cardStart]
  have seen : ∀ moment : Moment, moment.scene.overlooks 2
      (Output.render moment.scene 1 (.cell 0) 0 none Moment.start) = true := by
    rintro (_ | _ | _ | _ | _) <;> decide +kernel
  have overlooks := fun moment : Moment =>
    Scene.Overlooks.of_seen moment.faithful rfl rests (seen moment)
  exact ⟨overlooks _, overlooks _, overlooks _, overlooks _, overlooks _⟩

end LiveTemplate
