import LiveTemplate.Proofs.Meaning.Content
import LiveTemplate.Proofs.Meaning.Preparation

/-!
Elements. The attributes of an element are given to it one after the other, before it is put into
its place and what is in it is shown.
-/

namespace LiveTemplate

open Effects

/-! Names that may be missing -/

/-- The handle is that of the string, or zero if there is none. -/
def Pool.Names (pool : Pool) (content : Option String) (handle : Handle) : Prop :=
  match content with
  | some content => pool.string handle = .ok content
  | none => handle = 0

theorem Pool.Names.grow {before after : Pool} {content : Option String} {handle : Handle}
    (names : before.Names content handle) (grows : before.Grows after) :
    after.Names content handle := by
  cases content with
  | some content => exact grows.string names
  | none => exact names

theorem Running.string?_eq {scene : Scene} {content : Option String} {handle : Handle}
    (names : scene.program.pool.Names content handle) (machine : Machine) :
    Running.string? scene handle machine = .ok content machine := by
  unfold Running.string?
  cases content with
  | none =>
    cases names
    rfl
  | some content =>
    have nonzero : handle ≠ 0 := by
      rintro rfl
      cases names
    rw [if_neg nonzero]
    exact bind_of_ok (lookUp_eq names machine)

theorem Stage.Acts.optionalString {stage : Stage} {before : Draft} {α : Type}
    {taken : List Operand} {telling : Telling α} {outcome : α → Machine → Frame → Prop}
    {content : Option String} {next : Handle → Writing Unit}
    (acts : ∀ handle middle, before.Grows middle → middle.pool.Names content handle →
      stage.Acts middle (next handle) taken telling outcome) :
    stage.Acts before (Code.optionalString content >>= next) taken telling outcome := by
  cases content with
  | some content => exact .string fun handle middle grown there => acts handle middle grown there
  | none => exact acts 0 before (.refl _) rfl

/-! Attributes -/

namespace Running

variable {scene : Scene} {base machine after : Machine} {tag : String} {attributes : List Attribute}

theorem recordIf_shapes {dynamic : Bool} {update : Update}
    (shapes : base.Shapes tag attributes machine)
    (ended : (if dynamic = true then record update else pure ()) machine = .ok () after) :
    base.Shapes tag attributes after ∧ machine.Stays after ∧ after.store = machine.store := by
  split at ended
  · obtain ⟨builders, rfl, same⟩ := modifyContent_openings ended
    exact ⟨⟨shapes.constructing, shapes.dom, shapes.extents, shapes.scopes, shapes.transaction,
      shapes.elements, shapes.trackers, same.trans shapes.openings⟩, ⟨rfl, rfl⟩, rfl⟩
  · obtain ⟨-, rfl⟩ := pure_ok.mp ended
    exact ⟨shapes, .refl _, rfl⟩

theorem dynamicAttr_ok {name : String} {space : Option String} {reference : Reference}
    {rest : List Operand} (shapes : base.Shapes tag attributes machine)
    (top : machine.operands = .reference reference :: rest)
    (ended : dynamicAttr scene name space machine = .ok () after) :
    ∃ value, reference.sample scene.helpers machine.store = .ok value after.store ∧
      base.Shapes tag (Attribute.decorate name space value attributes) after ∧
      after.frames = machine.frames ∧ after.operands = rest := by
  obtain ⟨popped, _, taken, ended⟩ := bind_ok.mp ended
  obtain ⟨rfl, rfl⟩ := popReference_ok top taken
  obtain ⟨cache, _, made, ended⟩ := bind_ok.mp ended
  obtain ⟨store, rfl⟩ := newCache_ok made
  obtain ⟨element, _, found, ended⟩ := bind_ok.mp ended
  have started : base.Shapes tag attributes { machine with
      operands := rest, world.page.store := store } :=
    ⟨shapes.constructing, shapes.dom, shapes.extents, shapes.scopes, shapes.transaction,
      shapes.elements, shapes.trackers, shapes.openings⟩
  obtain ⟨rfl, rfl⟩ := constructing_ok started found
  obtain ⟨_, applied, apply, ended⟩ := bind_ok.mp ended
  obtain ⟨shaped, stays, same⟩ := applyAttribute_ok started apply
  obtain ⟨dynamic, sampled, asked, ended⟩ := bind_ok.mp ended
  have told := sample_ok made asked same
  obtain ⟨later, rfl⟩ := isDynamic_ok asked
  have shaped : base.Shapes tag (Attribute.decorate name space cache.last attributes)
      { applied with world.page.store := later } :=
    ⟨shaped.constructing, shaped.dom, shaped.extents, shaped.scopes, shaped.transaction,
      shaped.elements, shaped.trackers, shaped.openings⟩
  obtain ⟨result, staysToo, kept⟩ := recordIf_shapes shaped ended
  exact ⟨cache.last, kept ▸ told, result, staysToo.frames.trans stays.frames,
    staysToo.operands.trans stays.operands⟩

end Running

namespace Code

open Stage

theorem statements_adds {place : Place} {code : List Resolved}
    (adds : ∀ statement ∈ code, (Code.statement place statement).Adds) :
    (statements place code).Adds := by
  induction code with
  | nil =>
    intro before after ended
    obtain ⟨-, rfl⟩ := pure_ok.mp ended
    exact .refl _
  | cons first rest ih =>
    have others := ih fun statement member => adds statement (List.mem_cons_of_mem _ member)
    intro before after ended
    obtain ⟨_, middle, one, two⟩ := bind_ok.mp ended
    exact (adds first List.mem_cons_self before middle one).trans (others middle after two)

variable {stage : Stage} {place : Place} {scope : Scope} {before : Draft} {spot : Spot}
  {base : Machine} {tag : String} {attributes : List Attribute}

/-- The page is as what was said of the attributes so far. -/
abbrev Decorated (base : Machine) (tag : String) (said : List Attribution) (machine : Machine)
    (_ : Frame) : Prop := base.Shapes tag (Attribution.attributes said) machine

theorem staticAttr_acts {said : List Attribution}
    (shapes : base.Shapes tag (Attribution.attributes said) stage.machine) (name value : String)
    (space : Option String) :
    stage.Acts before (statement place (.staticAttr name value space)) [] (pure ())
      fun _ => Decorated base tag (said ++ [⟨name, space, some value⟩]) := by
  refine Acts.string fun nameHandle _ _ hasName => ?_
  refine Acts.string fun valueHandle _ one hasValue => ?_
  refine Acts.optionalString fun spaceHandle last two hasSpace => ?_
  refine Acts.emit (by decide) fun within position operands stats after stepped => ?_
  have hasName := within.pool.string (two.pool.string (one.pool.string hasName))
  have hasValue := within.pool.string (two.pool.string hasValue)
  obtain ⟨_, _, asked, stepped⟩ := bind_ok.mp stepped
  cases (Running.lookUp_eq hasName _).symm.trans asked
  obtain ⟨_, _, asked, stepped⟩ := bind_ok.mp stepped
  cases (Running.lookUp_eq hasValue _).symm.trans asked
  obtain ⟨_, _, asked, stepped⟩ := bind_ok.mp stepped
  cases (Running.string?_eq (hasSpace.grow within.pool) _).symm.trans asked
  obtain ⟨shaped, stays, store⟩ := Running.setAttribute_ok shapes.having stepped
  refine .pure ⟨stage.frame, ?_, .refl _, store, stays.frames, stays.operands⟩
  unfold Decorated
  rw [Attribution.attributes_concat]
  exact shaped

theorem dynamicAttr_acts {said : List Attribution} (small : stage.scene.program.pool.Small)
    (entry : place.names.OfEntry) (sees : stage.Sees scope)
    (shapes : base.Shapes tag (Attribution.attributes said) stage.machine) (name : String)
    (value : Expression) (space : Option String) (trusting : Bool) :
    stage.Acts before (statement place (.dynamicAttr name value space trusting)) []
      (Telling.reading ((value.reference (place.surroundings scope)).sample stage.scene.helpers))
      fun value => Decorated base tag (said ++ [⟨name, space, value.attribute?⟩]) := by
  have emits : Writing.Adds (do
      let name ← Writing.string name
      Writing.emit .dynamicAttr name (← optionalString space) trusting.toNat) := by
    refine .string fun handle => ?_
    cases space with
    | some content => exact .string fun _ => .emit _ _ _ _
    | none => exact .emit _ _ _ _
  refine Acts.turns (expression_turns small entry sees value) emits fun middle => ?_
  refine Acts.string fun nameHandle _ one hasName => ?_
  refine Acts.optionalString fun spaceHandle last two hasSpace => ?_
  refine Acts.emit (by decide) fun within position operands stats after stepped => ?_
  obtain ⟨_, _, asked, stepped⟩ := bind_ok.mp stepped
  cases (Running.lookUp_eq (within.pool.string (two.pool.string hasName)) _).symm.trans asked
  obtain ⟨_, _, asked, stepped⟩ := bind_ok.mp stepped
  cases (Running.string?_eq (hasSpace.grow within.pool) _).symm.trans asked
  obtain ⟨shown, sampled, shaped, frames, left⟩ :=
    Running.dynamicAttr_ok shapes.having rfl stepped
  refine .reading sampled ⟨stage.frame, ?_, .refl _, rfl, frames, left⟩
  unfold Decorated
  rw [Attribution.attributes_concat, ← Attribution.decorate_eq]
  exact shaped

/-- The attributes are given to the element in their order. -/
theorem decorations_acts (small : stage.scene.program.pool.Small) (entry : place.names.OfEntry) :
    ∀ (decorations : List Decoration) {code : List Resolved},
      Decoration.Resolves decorations code →
      (∀ statement ∈ code, (Code.statement place statement).Adds) →
      ∀ (machine : Machine) (frame : Frame) (said : List Attribution) (before : Draft),
        (stage.on machine frame).Sees scope →
        base.Shapes tag (Attribution.attributes said) machine →
        (stage.on machine frame).Acts before (statements place code) []
          (Decoration.attributions stage.scene.host (place.surroundings scope) decorations)
          fun more => Decorated base tag (said ++ more)
  | [], _, rfl, _ => fun _ _ said _ _ shapes after ended _ _ operands reaches => by
    obtain ⟨-, rfl⟩ := pure_ok.mp ended
    exact Leads.stay ((List.append_nil said).symm ▸ shapes) reaches
  | .static name value space :: rest, _, ⟨tail, resolves, rfl⟩, adds => by
    intro machine frame said before sees shapes
    have others := fun statement member => adds statement (List.mem_cons_of_mem _ member)
    refine Acts.silent (staticAttr_acts shapes name value space) (statements_adds others) ?_
    intro later other middle shaped alike
    have keeps : machine.world.scopes.Keeps later.world.scopes := by
      rw [shaped.scopes, ← shapes.scopes]
      exact .refl _
    refine Acts.map (decorations_acts small entry rest resolves others _ _ _ _
      (sees.on keeps alike) shaped) fun more final _ done => ?_
    rwa [Decorated, List.append_assoc] at done
  | .dynamic name value space :: rest, _, ⟨trusting, tail, resolves, rfl⟩, adds => by
    intro machine frame said before sees shapes
    have few : (stage.on machine frame).scene.program.pool.Small := small
    have others := fun statement member => adds statement (List.mem_cons_of_mem _ member)
    refine Acts.seq (dynamicAttr_acts few entry sees shapes name value space trusting)
      (statements_adds others) ?_
    intro result later other middle shaped alike
    have keeps : machine.world.scopes.Keeps later.world.scopes := by
      rw [shaped.scopes, ← shapes.scopes]
      exact .refl _
    refine Acts.map (decorations_acts small entry rest resolves others _ _ _ _
      (sees.on keeps alike) shaped) fun more final _ done => ?_
    rwa [Decorated, List.append_assoc] at done

theorem openElement_acts (tag : String) :
    stage.Acts before (statement place (.openElement tag)) [] (pure ())
      fun _ => Decorated stage.machine tag [] := by
  refine Acts.string fun handle _ _ there => ?_
  refine Acts.emit (by decide) fun within position operands stats after stepped => ?_
  obtain ⟨_, _, asked, stepped⟩ := bind_ok.mp stepped
  cases (Running.lookUp_eq (within.pool.string there) _).symm.trans asked
  obtain ⟨shaped, stays, store⟩ := Running.openElement_ok stepped
  exact .pure ⟨stage.frame, shaped.of_having, .refl _, store, stays.frames, stays.operands⟩

theorem flushElement_acts (offers : base.Offers spot)
    (shapes : base.Shapes tag attributes stage.machine) :
    stage.Acts before (statement place .flushElement) [] (pure ())
      fun _ machine _ => base.Opens spot tag attributes machine := by
  refine Acts.emit (by decide) fun within position operands stats after stepped => ?_
  obtain ⟨opens, stays, store⟩ := Running.flushElement_ok offers shapes.having stepped
  exact .pure ⟨stage.frame, opens, .refl _, store, stays.frames, stays.operands⟩

theorem closeElement_acts {first : Machine} {children : List Tree} (offers : base.Offers spot)
    (opens : base.Opens spot tag attributes first)
    (shows : first.Shows (spot.inside base.world.page.dom.nodes.size) children stage.machine) :
    stage.Acts before (statement place .closeElement) [] (pure [.element tag attributes children])
      fun trees machine _ => base.Shows spot trees machine := by
  refine Acts.emit (by decide) fun within position operands stats after stepped => ?_
  obtain ⟨shown, stays, store⟩ := Running.closeElement_ok offers opens shows.having stepped
  exact .pure ⟨stage.frame, shown, .refl _, store, stays.frames, stays.operands⟩

theorem statements_append (place : Place) (first last : List Resolved) :
    statements place (first ++ last) =
      statements place first >>= fun _ => statements place last :=
  List.forM_append

theorem statements_single (place : Place) (only : Resolved) :
    statements place [only] = Code.statement place only := by
  change (Code.statement place only >>= fun _ => pure ()) = _
  exact bind_pure_unit

/-- An element is shown with its attributes and what is in it. -/
theorem element_spoken (small : stage.scene.program.pool.Small) (entry : place.names.OfEntry)
    (sees : stage.Sees scope) (offers : stage.machine.Offers spot) (tag : String)
    {decorations : List Decoration} {written inside : List Resolved} {children : Telling (List Tree)}
    (resolves : Decoration.Resolves decorations written)
    (adds : ∀ statement ∈ written, (Code.statement place statement).Adds)
    (inner : (statements place inside).Adds)
    (spoken : ∀ machine frame before spot, (stage.on machine frame).Sees scope →
      machine.Offers spot → (stage.on machine frame).Says before (statements place inside) [] spot
        children) :
    stage.Says before (do
        Code.statement place (.openElement tag)
        statements place written
        Code.statement place .flushElement
        statements place inside
        Code.statement place .closeElement) [] spot (do
      let said ← Decoration.attributions stage.scene.host (place.surroundings scope) decorations
      let children ← children
      return [.element tag (Attribution.attributes said) children]) := by
  have closes : Writing.Adds (Code.statement place .closeElement) := .emit _ _ _ _
  have goesOn := inner.seq closes
  have flushes : Writing.Adds (Code.statement place .flushElement) := .emit _ _ _ _
  have begins := (statements_adds adds).seq (flushes.seq goesOn)
  refine Acts.silent (openElement_acts tag) begins ?_
  intro begun frame _ shaped alike
  have keeps : stage.machine.world.scopes.Keeps begun.world.scopes := by
    rw [shaped.scopes]
    exact .refl _
  refine Acts.seq (decorations_acts small entry decorations resolves adds begun frame [] _
    (sees.on keeps alike) shaped) (flushes.seq goesOn) ?_
  intro said decorated _ _ shaped alikeToo
  refine Acts.silent (flushElement_acts offers shaped) goesOn ?_
  intro opened _ _ opens alikeLast
  have keeps : stage.machine.world.scopes.Keeps opened.world.scopes := by
    rw [opens.scopes]
    exact .refl _
  refine Acts.seq (spoken opened _ _ _ (sees.on keeps ((alike.trans alikeToo).trans alikeLast))
    (Running.Opens.offers offers opens)) closes ?_
  intro children filled _ _ shows _
  exact closeElement_acts offers opens shows

end Code

end LiveTemplate
