import LiveTemplate.Proofs.Meaning.Programs
import LiveTemplate.Proofs.Render.Inspection
import LiveTemplate.Render.Output

/-!
Rendering a template shows what its phrases say. The run of the entry's code is one stage, which
begins with an empty output under the given node and ends with one that is never empty.
-/

namespace LiveTemplate

open Effects

/-! The beginning and the end of a run -/

section Whole

variable {world : World} {captured : Captured} {slice : Slice} {parent : NodeId}
  {before : Option NodeId}

/-- Where the output of a whole run goes to. -/
def World.spot (world : World) (parent : NodeId) (before : Option NodeId) : Spot where
  parent := parent
  next := before
  extent := world.extents.extents.size
  nesting := 0

theorem Machine.opening_offers (inside : parent < world.page.dom.nodes.size)
    (sound : world.scopes.Sound) :
    (Machine.opening world captured slice parent before).Offers (world.spot parent before) :=
  ⟨⟨[], rfl⟩, ⟨[], rfl⟩, inside, world.extents.newBlock_block parent, sound⟩

/-- What the run starts with is as good as nothing, even if a scope has been added for it. -/
theorem Machine.opening_shows {scopes : Scopes} (inside : parent < world.page.dom.nodes.size)
    (keeps : world.scopes.Keeps scopes) :
    (Machine.opening world captured slice parent before).Shows (world.spot parent before) []
      (Machine.opening { world with scopes } captured slice parent before) where
  world := ⟨.refl inside, (Extents.Fills.refl (world.extents.newBlock_block parent)).congr (by simp),
    keeps, rfl⟩
  elements := rfl
  trackers := rfl
  openings := rfl

namespace Running

theorem rootContent_ok {builders : List Builder} {extent : ExtentId} {machine after : Machine}
    {output : ExtentId × Content}
    (ended : (match builders with
      | [.root content] => return (extent, content)
      | _ => broken .rootRegionLost : Running (ExtentId × Content)) machine = .ok output after) :
    machine = after := by
  revert ended
  split
  · exact fun ended => (pure_ok.mp ended).2
  · exact fun ended => absurd ended throw_ok

/-- A run in which nothing was shown leaves a comment. -/
theorem finish_ok {trees : List Tree} {machine after : Machine} {output : ExtentId × Content}
    (offers : (Machine.opening world captured slice parent before).Offers (world.spot parent before))
    (shows : (Machine.opening world captured slice parent before).Shows (world.spot parent before)
      trees machine) (ended : finish machine = .ok output after) :
    (Machine.opening world captured slice parent before).Shows (world.spot parent before)
      (Tree.filled trees) after ∧ after.store = machine.store := by
  obtain ⟨_, _, got, ended⟩ := bind_ok.mp ended
  obtain ⟨rfl, rfl⟩ := get_ok.mp got
  dsimp only at ended
  split at ended
  case isFalse => exact absurd ended throw_ok
  split at ended
  case isFalse => exact absurd ended throw_ok
  split at ended
  case isFalse => exact absurd ended throw_ok
  have outermost : rootExtent machine = .ok (world.spot parent before).extent machine := by
    refine (bind_of_ok rfl).trans ?_
    rw [shows.trackers]
    rfl
  obtain ⟨extent, _, asked, ended⟩ := bind_ok.mp ended
  cases outermost.symm.trans asked
  obtain ⟨extents, _, asked, ended⟩ := bind_ok.mp ended
  cases asked
  obtain ⟨empty, _, asked, ended⟩ := bind_ok.mp ended
  obtain ⟨found, rfl⟩ := lookUp_ok.mp asked
  obtain ⟨_, _, later, blank, there, still⟩ := shows.world.extents.own
  cases (world.extents.add_there (.block parent none)).symm.trans blank
  rw [Extents.isEmpty_block there] at found
  cases found
  cases later with
  | none =>
    have nothing : trees = [] := by simpa [World.spot] using still
    rw [Option.isNone_none, if_pos rfl] at ended
    obtain ⟨node, shown, put, ended⟩ := bind_ok.mp ended
    have leaf : ∀ (dom : Dom) (id : Nat) (node : Node), dom.nodes[id]? = some node →
        node.data = .comment "" → (Tree.comment "").ShownAt dom id :=
      fun dom id node there data => ⟨node, there, data⟩
    obtain ⟨more, -, store⟩ := appendNode_shows (shows.offers offers) leaf put
    have whole := shows.trans offers more
    rw [nothing] at whole ⊢
    obtain rfl := rootContent_ok ended
    exact ⟨whole, store⟩
  | some pieces =>
    have some : trees ≠ [] := by simpa [World.spot] using still
    have same : Tree.filled trees = trees := by simp [Tree.filled, some]
    rw [Option.isNone_some, if_neg Bool.false_ne_true] at ended
    rw [same]
    obtain rfl := rootContent_ok ended
    exact ⟨shows, rfl⟩

end Running

/-- Where the only frame of a run comes to its end, the run does. -/
theorem Stage.Reaches.over {stage : Stage} {place : Nat} (reaches : stage.Reaches place [])
    (alone : stage.outer = []) (past : stage.frame.slice.stop ≤ place) :
    ∃ stats, stage.machine.having [] [] stats = stage.last := by
  obtain ⟨stats, ends⟩ := reaches
  obtain ⟨stats, ends⟩ := Running.Ends.pop ends past
  exact ⟨stats, alone ▸ ends.over alone⟩

/-- A run that completes its output has come to its end. -/
theorem Running.attempt_ok {scene : Scene} {machine after : Machine} {output : ExtentId × Content}
    (ended : attempt scene machine = .ok output after) :
    ∃ last, run scene stepLimit machine = .ok () last ∧ finish last = .ok output after := by
  unfold attempt at ended
  cases ran : run scene stepLimit machine with
  | ok result last =>
    rw [ran] at ended
    exact ⟨last, rfl, ended⟩
  | error fault last =>
    rw [ran] at ended
    cases fault with
    | broken defect => cases ended
    | failed error =>
      dsimp only at ended
      cases taken : unwind last with
      | ok result final =>
        rw [taken] at ended
        cases ended
      | error fault final =>
        rw [taken] at ended
        cases ended

/-- The code of an entry shows what is told of it, in a scope that was added for it. -/
theorem Scene.Says.attempt {scene : Scene} {resolver : Resolver} {names : SymbolView}
    {code : List Resolved} {telling : Surroundings → Telling (List Tree)} {entry : Handle}
    {block : CompiledBlock} {scopes : Scopes} {id : ScopeId} {scope : Scope}
    {output : ExtentId × Content} {after : Machine}
    (spoken : scene.Says ⟨resolver, names⟩ code telling)
    (inlines : scene.program.Inlines resolver entry names code)
    (found : scene.program.blocks.block entry = .ok block)
    (inside : parent < world.page.dom.nodes.size) (sound : world.scopes.Sound)
    (added : world.scopes.Added id scope scopes)
    (ended : Running.attempt scene
      (.opening { world with scopes } { scope := id } block.slice parent before) =
        .ok output after) :
    Telling.Yields (Telling.filled
        (telling (Code.Place.surroundings ⟨resolver, names⟩ (scope.bindAll names.params []))))
      world.page.store fun trees store => after.store = store ∧
        (Machine.opening world { scope := id } block.slice parent before).Shows
          (world.spot parent before) trees after := by
  obtain ⟨last, ran, finished⟩ := Running.attempt_ok ended
  obtain ⟨written, draft, drafted, there, params, wrote, within⟩ := inlines.written
  cases found.symm.trans there
  let base := Machine.opening world { scope := id } block.slice parent before
  let stage : Stage := {
    scene
    machine := .opening { world with scopes } { scope := id } block.slice parent before
    frame := Running.blockFrame block.slice id {}
    outer := []
    last }
  have reaches : stage.Reaches block.slice.start [] := ⟨_, stepLimit, ran⟩
  have offers : base.Offers (world.spot parent before) := Machine.opening_offers inside sound
  have begins : base.Shows (world.spot parent before) [] stage.machine :=
    Machine.opening_shows inside added.keeps
  have leads : stage.Leads
      (telling (Code.Place.surroundings ⟨resolver, names⟩ (scope.bindAll names.params [])))
      (fun trees machine _ => base.Shows (world.spot parent before) trees machine)
      block.slice.stop [] :=
    Code.inline_leads wrote within inlines.adds offers begins added.there rfl rfl
      (fun _ => added) (fun machine frame draft sees offered =>
        spoken machine frame [] last _ _ draft sees offered) reaches
  refine Telling.Yields.bind leads fun trees store reached => .pure ?_
  obtain ⟨machine, frame, shown, alike, same, reached⟩ := reached
  obtain ⟨stats, final⟩ := reached.over rfl (Nat.le_of_eq (congrArg Slice.stop alike.slice))
  have final : machine.having [] [] stats = last := final
  have shown : base.Shows (world.spot parent before) trees last := final ▸ shown.having
  have store : last.store = machine.store := final ▸ rfl
  obtain ⟨whole, kept⟩ := Running.finish_ok offers shown finished
  exact ⟨(kept.trans store).trans same, whole⟩

end Whole

/-! Rendering -/

theorem SymbolView.Heads.surroundings {names : SymbolView} {params : List String}
    (heads : names.Heads params) (resolver : Resolver) (scope : Scope) (given : List Reference) :
    Code.Place.surroundings ⟨resolver, names⟩ (scope.bindAll names.params given) =
      Surroundings.bind { hasHelper := resolver.hasHelper, this := scope.this } params given := by
  unfold Code.Place.surroundings Surroundings.bind
  rw [heads.bindings, scope.this_bindAll, List.append_nil]

/-- What is on the shelf. -/
def shelf : Reference :=
  .const (.map 0 [("items", .list 1 [
    .map 2 [("name", .text "oak"), ("tags", .list 3 [.text "old", .text "dark"])],
    .map 4 [("name", .text "elm"), ("tags", .list 5 []), ("sold", .bool true)]])])

end LiveTemplate
