import LiveTemplate.Proofs.Compile.Expressions

/-!
The code of statements and of whole blocks. Statements may open and close elements, and the regions
in them refer to the blocks that they show by handles that are registered.
-/

namespace LiveTemplate

open Effects

/-- The handle is one of that many registered blocks. -/
def Registered (blocks : Nat) (handle : Handle) : Prop := 0 < handle ∧ handle ≤ blocks

/-- Every block that the statement refers to is registered. -/
def Resolved.Known (blocks : Nat) : Resolved → Prop
  | .block _ _ _ template inverse =>
    (∀ handle ∈ template, Registered blocks handle) ∧
      ∀ handle ∈ inverse, Registered blocks handle
  | .component _ layout _ _ attrs template inverse =>
    Registered blocks layout ∧ (∀ handle ∈ attrs, Registered blocks handle) ∧
      (∀ handle ∈ template, Registered blocks handle) ∧
      ∀ handle ∈ inverse, Registered blocks handle
  | .partialBlock handle => Registered blocks handle
  | .dynamicPartial _ _ handles => ∀ handle ∈ handles, Registered blocks handle
  | _ => True

namespace Setting

variable {setting : Setting} {before : Draft}

/-- The local of the body is below the number that its block reserves. -/
theorem Emits.withLocal {body : Nat → Writing Unit}
    (writes : ∀ slot inside, before.Grows inside → slot < inside.reserved →
      setting.Writes inside (body slot)) :
    setting.Writes before (Writing.withLocal body) := by
  intro result after ended
  obtain ⟨state, d0, got, ended⟩ := bind_ok.mp ended
  obtain ⟨rfl, rfl⟩ := get_ok.mp got
  obtain ⟨_, d1, taken, ended⟩ := bind_ok.mp ended
  have taken := modify_ok.mp taken
  have grows : before.Grows d1 := by
    rw [← taken]
    exact ⟨fun _ _ here _ => here, Nat.le_refl _, .refl _, Nat.le_max_left _ _⟩
  have free : before.inUse < d1.reserved := by
    rw [← taken]
    exact Nat.le_max_right _ _
  obtain ⟨_, d2, inside, ended⟩ := bind_ok.mp ended
  obtain ⟨⟨code, written⟩, -⟩ := writes before.inUse d1 grows free _ _ inside
  have released := modify_ok.mp ended
  have first : setting.Emitted .nil before d1 := by
    refine .nil grows ?_ ?_
    · rw [← taken]
    · rw [← taken]
  have last : setting.Emitted .nil d2 after := by
    rw [← released]
    exact .nil (.of_eq rfl rfl rfl) rfl rfl
  exact ⟨⟨_, (first.append written).append last⟩, trivial⟩

end Setting

namespace Code

open Setting

section Statements

variable {setting : Setting} {place : Place} {before : Draft}

theorem arguments_writes (fits : place.Fits setting) {op : Op}
    (takes : op = .pushArgs ∨ op = .putArgs) (params : List Expression) (named : Named) :
    setting.Writes before (arguments place op params named) :=
  Emits.bind (expressions_writes fits params) fun _ _ _ _ =>
    Emits.bind (namedExpressions_writes fits named) fun _ _ _ _ => argumentList_writes takes _ _

theorem evaluated_writes {block : Handle} (known : Registered setting.blocks block) :
    setting.Writes before (Writing.emit .evaluate block) :=
  Emits.emit rfl (fun _ => rfl) fun _ => known

theorem evaluate_writes {block : Option Handle}
    (known : ∀ handle ∈ block, Registered setting.blocks handle) :
    setting.Writes before (evaluate block) := by
  cases block with
  | some block => exact evaluated_writes (known block rfl)
  | none => exact Emits.pure trivial

/-- The body of a loop does nothing but start a block. -/
theorem evaluate_calls {block : Option Handle} {after : Draft}
    (known : ∀ handle ∈ block, Registered setting.blocks handle)
    (ended : evaluate block before = .ok () after) :
    ∃ code : Shape, setting.Emitted code before after ∧ code.Calls := by
  cases block with
  | some block =>
    have written : setting.Emitted (.op ⟨.evaluate, block, 0, 0⟩ .nil) before after :=
      .emit rfl (fun _ => rfl) (fun _ => known block rfl) ended
    exact ⟨_, written, rfl, trivial⟩
  | none =>
    obtain ⟨-, rfl⟩ := pure_ok.mp ended
    exact ⟨.nil, .nil (.refl _) rfl rfl, trivial⟩

theorem conditional_writes (fits : place.Fits setting) (name : String)
    (params : List Expression) (named : Named) {truthy falsy : Option Handle}
    (holds : ∀ handle ∈ truthy, Registered setting.blocks handle)
    (fails : ∀ handle ∈ falsy, Registered setting.blocks handle) :
    setting.Writes before (conditional place name params named truthy falsy) := by
  unfold conditional
  refine Emits.bind (onlyParam_emits name params) fun param _ _ _ => ?_
  refine Emits.bind (arguments_writes fits (.inr rfl) params named) fun _ draft _ _ => ?_
  have added : ∀ kind : TestKind, setting.Emits draft (Writing.pooled (Pool.addFunction · kind))
      fun handle draft => draft.pool.function handle = .ok kind := fun kind =>
    Emits.pooled (fun pool => pool.addFunction_grows kind) (draft.pool.addFunction_function kind)
  refine Emits.bind (added _) fun handle _ _ found => ?_
  refine Emits.bind (Emits.emit rfl (fun _ => rfl) fun _ => ⟨_, found⟩) fun _ _ _ _ => ?_
  refine Emits.region fun inside _ => ?_
  cases truthy with
  | some truthy =>
    cases falsy with
    | some falsy =>
      exact Opens.choice (fun _ _ => evaluated_writes (holds _ rfl))
        fun _ _ => evaluated_writes (fails _ rfl)
    | none => exact Opens.skip (.inr rfl) fun _ _ => evaluated_writes (holds _ rfl)
  | none =>
    cases falsy with
    | some falsy => exact Opens.skip (.inl rfl) fun _ _ => evaluated_writes (fails _ rfl)
    | none => exact Opens.of_writes (Emits.pure trivial)

theorem each_writes (fits : place.Fits setting) (params : List Expression) (named : Named)
    {item empty : Option Handle} (holds : ∀ handle ∈ item, Registered setting.blocks handle)
    (fails : ∀ handle ∈ empty, Registered setting.blocks handle) :
    setting.Writes before (each place params named item empty) := by
  have looped : ∀ {draft : Draft}, setting.inner.Writes draft (Writing.loop (evaluate item)) :=
    Emits.loop fun _ _ _ ended => evaluate_calls holds ended
  unfold each
  refine Emits.bind (onlyParam_emits _ params) fun _ _ _ _ => ?_
  refine Emits.region fun inside _ => ?_
  refine Opens.bind (arguments_writes fits.inner (.inr rfl) params named) fun _ _ _ _ => ?_
  refine Opens.bind (Emits.emit rfl (fun _ => rfl) fun _ => trivial) fun _ _ _ _ => ?_
  cases empty with
  | some empty =>
    exact Opens.choice (fun _ _ => looped) fun _ _ => evaluated_writes (fails _ rfl)
  | none =>
    exact Opens.skip (.inr rfl) fun _ _ => Emits.bind looped fun _ _ _ _ => Emits.pure trivial

theorem withDynamicVars_writes (fits : place.Fits setting) (named : Named) {body : Option Handle}
    (known : ∀ handle ∈ body, Registered setting.blocks handle) :
    setting.Writes before (withDynamicVars place named body) := by
  unfold withDynamicVars
  refine Emits.bind (arguments_writes fits (.inr rfl) [] named) fun _ _ _ _ => ?_
  refine Emits.bind (Emits.emit rfl (fun _ => rfl) fun _ => trivial) fun _ _ _ _ => ?_
  refine Emits.bind (Emits.strings _) fun handle _ _ has => ?_
  refine Emits.bind (Emits.emit rfl (fun _ => rfl) fun _ => has) fun _ _ _ _ => ?_
  refine Emits.bind (evaluate_writes known) fun _ _ _ _ => ?_
  exact Emits.emit rfl (fun _ => rfl) fun _ => trivial

theorem builtin_writes (fits : place.Fits setting) (name : String) (params : List Expression)
    (named : Named) {template inverse : Option Handle}
    (holds : ∀ handle ∈ template, Registered setting.blocks handle)
    (fails : ∀ handle ∈ inverse, Registered setting.blocks handle) :
    setting.Writes before (builtin place name params named template inverse) := by
  unfold builtin
  split
  · exact conditional_writes fits _ params named holds fails
  · exact conditional_writes fits _ params named holds fails
  · exact conditional_writes fits _ params named fails holds
  · exact each_writes fits params named holds fails
  · exact withDynamicVars_writes fits named holds
  · exact Emits.reject

theorem yieldTo_writes (fits : place.Fits setting) (name : String) (params : List Expression) :
    setting.Writes before (yieldTo place name params) := by
  have shown : ∀ {draft : Draft}, setting.Writes draft (do
      Writing.emit .openBlock params.length
      Writing.emit .closeBlock) :=
    Emits.bind (Emits.emit rfl (fun _ => rfl) fun _ => trivial) fun _ _ _ _ =>
      Emits.emit rfl (fun _ => rfl) fun _ => trivial
  unfold yieldTo
  refine Emits.bind (expressions_writes fits params) fun _ _ _ _ => ?_
  cases found : place.names.yield? name with
  | some symbol =>
    exact Emits.bind (Emits.emit rfl (fun _ => rfl) fun _ => fits.lt (fits.names.yield_lt found))
      fun _ _ _ _ => shown
  | none =>
    cases bag : place.names.partialArgs with
    | some bag' =>
      refine Emits.bind (Emits.string name) fun handle draft _ has => ?_
      exact Emits.bind (Emits.emit rfl (fun _ => rfl) fun _ =>
        ⟨fits.lt (fits.names.partialArgs _ bag), has⟩) fun _ _ _ _ => shown
    | none => exact fun _ _ ended => absurd ended throw_ok

theorem optionalString_emits (content : Option String) :
    setting.Emits before (optionalString content)
      fun handle draft => handle = 0 ∨ (setting.referents draft).HasString handle := by
  cases content with
  | some content =>
    intro handle after ended
    obtain ⟨written, has⟩ := Emits.string content handle after ended
    exact ⟨written, .inr has⟩
  | none => exact Emits.pure (.inl rfl)

theorem dynamicPartial_writes (fits : place.Fits setting) (name : Expression)
    (names : List String) {blocks : List Handle}
    (known : ∀ handle ∈ blocks, Registered setting.blocks handle) :
    setting.Writes before (statement place (.dynamicPartial name names blocks)) := by
  refine Emits.bind (expression_writes fits name) fun _ _ _ _ => ?_
  refine Emits.withLocal fun slot _ _ free => ?_
  refine Emits.bind (Emits.emit rfl (fun _ => rfl) fun _ => free) fun _ _ put _ => ?_
  refine Emits.bind (Emits.strings names) fun names named one has => ?_
  refine Emits.bind (Emits.array blocks) fun blocks _ two found => ?_
  refine Emits.region fun inside three => Opens.of_writes ?_
  have kept := (put.trans one).trans (two.trans three)
  have local_lt := Nat.lt_of_lt_of_le free kept.reserved
  refine Emits.bind (Emits.emit rfl (fun _ => rfl) fun _ => local_lt) fun _ _ four _ => ?_
  refine Emits.bind (Emits.emit rfl (fun _ => rfl) fun _ => ⟨?_, ?_⟩) fun _ _ _ _ => ?_
  · exact has.grow (setting.within ((two.trans three).trans four))
  · exact ⟨_, (three.trans four).pool.array found, known⟩
  · exact Emits.emit rfl (fun _ => rfl) fun _ => trivial

/-- The code of a statement whose blocks are registered. -/
theorem statement_writes (fits : place.Fits setting) (loose : setting.level = false)
    (code : Resolved) (known : code.Known setting.blocks) :
    setting.Writes before (statement place code) := by
  have level : ∀ op : Op, setting.level = true → op.isLevel = true := by
    intro op closed
    rw [loose] at closed
    cases closed
  cases code with
  | text content =>
    exact Emits.bind (Emits.string content) fun _ _ _ has => Emits.emit rfl (fun _ => rfl) fun _ => has
  | comment content =>
    exact Emits.bind (Emits.string content) fun _ _ _ has => Emits.emit rfl (fun _ => rfl) fun _ => has
  | append value trusted =>
    exact Emits.bind (expression_writes fits value) fun _ _ _ _ =>
      Emits.emit rfl (fun _ => rfl) fun _ => trivial
  | modifier name params named =>
    unfold statement
    refine guarded_writes ?_
    refine Emits.bind (arguments_writes fits (.inl rfl) params named) fun _ _ _ _ => ?_
    exact Emits.bind (Emits.string name) fun _ _ _ has => Emits.emit rfl (fun _ => rfl) fun _ => has
  | block name params named template inverse =>
    exact builtin_writes fits name params named known.1 known.2
  | component name layout params named attrs template inverse =>
    obtain ⟨layout, attrs, template, inverse⟩ := known
    have optional : ∀ {block : Option Handle}, (∀ handle ∈ block, Registered setting.blocks handle) →
        block.getD 0 = 0 ∨ Registered setting.blocks (block.getD 0) := by
      intro block registered
      cases block with
      | some block => exact .inr (registered block rfl)
      | none => exact .inl rfl
    refine Emits.bind (Emits.string name) fun _ _ _ has => ?_
    refine Emits.bind (Emits.emit rfl (fun _ => rfl) fun _ => ⟨has, layout⟩) fun _ _ _ _ => ?_
    refine Emits.bind (arguments_writes fits (.inl rfl) params named) fun _ _ _ _ => ?_
    exact Emits.component ⟨optional attrs, optional template, optional inverse⟩
  | openElement tag =>
    exact Emits.bind (Emits.string tag) fun _ _ _ has => Emits.emit rfl (fun _ => rfl) fun _ => has
  | flushElement => exact Emits.emit rfl (level _) fun _ => trivial
  | closeElement => exact Emits.emit rfl (level _) fun _ => trivial
  | staticAttr name value space =>
    refine Emits.bind (Emits.string name) fun _ _ _ hasName => ?_
    refine Emits.bind (Emits.string value) fun _ _ one hasValue => ?_
    refine Emits.bind (optionalString_emits space) fun _ _ two hasSpace => ?_
    refine Emits.emit rfl (fun _ => rfl) fun _ => ⟨?_, ?_, hasSpace⟩
    · exact hasName.grow (setting.within (one.trans two))
    · exact hasValue.grow (setting.within two)
  | dynamicAttr name value space trusting =>
    refine Emits.bind (expression_writes fits value) fun _ _ _ _ => ?_
    refine Emits.bind (Emits.string name) fun _ _ _ hasName => ?_
    refine Emits.bind (optionalString_emits space) fun _ _ one hasSpace => ?_
    exact Emits.emit rfl (fun _ => rfl) fun _ => ⟨hasName.grow (setting.within one), hasSpace⟩
  | yield name params => exact yieldTo_writes fits name params
  | partialBlock handle =>
    exact Emits.bind (Emits.emit rfl (fun _ => rfl) fun _ => known) fun _ _ _ _ =>
      Emits.emit rfl (fun _ => rfl) fun _ => trivial
  | dynamicPartial name names blocks => exact dynamicPartial_writes fits name names known

theorem statements_writes (fits : place.Fits setting) (loose : setting.level = false)
    (code : List Resolved) (known : ∀ statement ∈ code, statement.Known setting.blocks) :
    setting.Writes before (statements place code) := by
  induction code generalizing before with
  | nil => exact Emits.pure trivial
  | cons first rest ih =>
    refine Emits.bind (statement_writes fits loose first (known _ List.mem_cons_self)) ?_
    exact fun _ _ _ _ => ih fun statement member => known statement (List.mem_cons_of_mem _ member)

end Statements

/-! Blocks -/

section Blocks

variable {setting : Setting} {place : Place} {before : Draft}

theorem bindParams_writes (fits : place.Fits setting) :
    setting.Writes before (bindParams place.names) := by
  have bound : ∀ symbol ∈ place.names.params, symbol < setting.symbols := by
    intro symbol member
    obtain ⟨entry, listed, rfl⟩ := List.mem_map.mp member
    exact fits.lt (fits.names.locals entry listed)
  unfold bindParams
  split
  · exact Emits.pure trivial
  · refine Emits.bind (Emits.array _) fun handle _ _ found => ?_
    exact Emits.emit rfl (fun _ => rfl) fun _ => ⟨_, found, bound⟩

theorem inline_writes (fits : place.Fits setting) (loose : setting.level = false)
    {body : List Resolved} (known : ∀ statement ∈ body, statement.Known setting.blocks) :
    setting.Writes before (inline place body) :=
  Emits.bind (bindParams_writes fits) fun _ _ _ _ => statements_writes fits loose body known

theorem element_writes {op : Op} (either : op = .flushElement ∨ op = .closeElement)
    (loose : setting.level = false) : setting.Writes before (Writing.emit op) := by
  have level : setting.level = true → op.isLevel = true := by
    intro closed
    rw [loose] at closed
    cases closed
  rcases either with rfl | rfl
  · exact Emits.emit rfl level fun _ => trivial
  · exact Emits.emit rfl level fun _ => trivial

theorem entry_writes (fits : place.Fits setting) (loose : setting.level = false)
    {prelude : Option (List Resolved)} {body : List Resolved}
    (first : ∀ code ∈ prelude, ∀ statement ∈ code, statement.Known setting.blocks)
    (known : ∀ statement ∈ body, statement.Known setting.blocks) :
    setting.Writes before (entry place prelude body) := by
  have finished : ∀ {draft : Draft}, setting.Writes draft (do
      statements place body
      if prelude.isSome then Writing.emit .closeElement) := by
    intro draft
    refine Emits.bind (statements_writes fits loose body known) fun _ _ _ _ => ?_
    cases prelude with
    | none => exact Emits.pure trivial
    | some code => exact element_writes (.inr rfl) loose
  unfold entry
  refine Emits.bind (bindParams_writes fits) fun _ _ _ _ => ?_
  cases prelude with
  | none => exact finished
  | some code =>
    refine Emits.bind (statements_writes fits loose code (first _ rfl)) fun _ _ _ _ => ?_
    exact Emits.bind (element_writes (.inl rfl) loose) fun _ _ _ _ => finished

theorem slots_writes {op : Op} (either : op = .bindNamedArgs ∨ op = .bindBlocks)
    (slots : List (String × Symbol)) (bound : ∀ entry ∈ slots, entry.2 < setting.symbols) :
    setting.Writes before (do
      let names ← Writing.strings (slots.map Prod.fst)
      Writing.emit op names (← Writing.array (slots.map Prod.snd))) := by
  refine Emits.bind (Emits.strings _) fun names _ _ has => ?_
  refine Emits.bind (Emits.array _) fun symbols _ one found => ?_
  have refers : ∀ symbol ∈ slots.map Prod.snd, symbol < setting.symbols := by
    intro symbol member
    obtain ⟨entry, listed, rfl⟩ := List.mem_map.mp member
    exact bound entry listed
  have written := has.grow (setting.within one)
  have bound : (setting.referents _).HasSymbols symbols := ⟨_, found, refers⟩
  rcases either with rfl | rfl
  · exact Emits.emit rfl (fun _ => rfl) fun _ => ⟨written, bound⟩
  · exact Emits.emit rfl (fun _ => rfl) fun _ => ⟨written, bound⟩

theorem layoutEnd_writes (fits : place.Fits setting) (loose : setting.level = false)
    (prelude : Option (List Resolved)) {body : List Resolved}
    (known : ∀ statement ∈ body, statement.Known setting.blocks) :
    setting.Writes before (do
      statements place body
      if prelude.isSome then Writing.emit .closeElement
      Writing.emit .didRenderLayout) := by
  refine Emits.bind (statements_writes fits loose body known) fun _ _ _ _ => ?_
  cases prelude with
  | none => exact Emits.emit rfl (fun _ => rfl) fun _ => trivial
  | some code =>
    exact Emits.bind (element_writes (.inr rfl) loose) fun _ _ _ _ =>
      Emits.emit rfl (fun _ => rfl) fun _ => trivial

theorem layoutBody_writes (fits : place.Fits setting) (loose : setting.level = false)
    {prelude : Option (List Resolved)} {body : List Resolved}
    (first : ∀ code ∈ prelude, ∀ statement ∈ code, statement.Known setting.blocks)
    (known : ∀ statement ∈ body, statement.Known setting.blocks) :
    setting.Writes before (do
      if let some prelude := prelude then
        statements place prelude
        Writing.emit .didCreateElement
        yieldTo place attrsBlock []
        Writing.emit .flushElement
      statements place body
      if prelude.isSome then Writing.emit .closeElement
      Writing.emit .didRenderLayout) := by
  cases prelude with
  | none => exact layoutEnd_writes fits loose none known
  | some code =>
    refine Emits.bind (statements_writes fits loose code (first _ rfl)) fun _ _ _ _ => ?_
    refine Emits.bind (Emits.emit rfl (fun _ => rfl) fun _ => trivial) fun _ _ _ _ => ?_
    refine Emits.bind (yieldTo_writes fits _ _) fun _ _ _ _ => ?_
    exact Emits.bind (element_writes (.inl rfl) loose) fun _ _ _ _ =>
      layoutEnd_writes fits loose (some code) known

theorem layout_writes (fits : place.Fits setting) (loose : setting.level = false)
    {prelude : Option (List Resolved)} {body : List Resolved}
    (first : ∀ code ∈ prelude, ∀ statement ∈ code, statement.Known setting.blocks)
    (known : ∀ statement ∈ body, statement.Known setting.blocks) :
    setting.Writes before (layout place prelude body) := by
  unfold layout
  refine Emits.bind (slots_writes (.inl rfl) _ ?_) fun _ _ _ _ => ?_
  · intro entry member
    obtain ⟨named, listed, rfl⟩ := List.mem_map.mp member
    exact fits.lt (fits.names.named named listed)
  refine Emits.bind (Emits.emit rfl (fun _ => rfl) fun _ => trivial) fun _ _ _ _ => ?_
  refine Emits.bind (slots_writes (.inr rfl) _ fun entry listed =>
    fits.lt (fits.names.yields entry listed)) fun _ _ _ _ => ?_
  cases bag : place.names.partialArgs with
  | none => exact layoutBody_writes fits loose first known
  | some symbol =>
    exact Emits.bind (Emits.emit rfl (fun _ => rfl) fun _ => fits.lt (fits.names.partialArgs _ bag))
      fun _ _ _ _ => layoutBody_writes fits loose first known

end Blocks

end Code

end LiveTemplate
