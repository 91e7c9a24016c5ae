import LiveTemplate.Proofs.Meaning.Expressions

/-!
What names are bound to in a run. A scope that is added takes nobody else's place, and binding the
parameters of a block leaves what the names around it stand for, since each name of a program has a
slot to itself.
-/

namespace LiveTemplate

namespace Scopes

variable {first second third scopes after : Scopes}

/-- The numbers to be used again are those of released scopes, each of them once. -/
structure Sound (scopes : Scopes) : Prop where
  released : ∀ id ∈ scopes.free, scopes.scopes[id]? = some none
  once : scopes.free.Nodup

/-- No scope that was there changes. -/
structure Keeps (before after : Scopes) : Prop where
  kept : ∀ id scope, before.get id = .ok scope → after.get id = .ok scope
  sound : before.Sound → after.Sound

theorem Sound.empty : ({} : Scopes).Sound :=
  ⟨by simp, List.nodup_nil⟩

theorem Keeps.refl (scopes : Scopes) : scopes.Keeps scopes := ⟨fun _ _ there => there, id⟩

theorem Keeps.trans (early : first.Keeps second) (late : second.Keeps third) :
    first.Keeps third :=
  ⟨fun id scope there => late.kept id scope (early.kept id scope there),
    fun sound => late.sound (early.sound sound)⟩

/-- The scope has a number that none had. -/
structure Added (before : Scopes) (id : ScopeId) (scope : Scope) (after : Scopes) : Prop where
  fresh : ∀ other, before.get id ≠ .ok other
  there : after.get id = .ok scope
  keeps : before.Keeps after

theorem add_ok (sound : scopes.Sound) (scope : Scope) :
    Added scopes (scopes.add scope).1 scope (scopes.add scope).2 := by
  unfold Scopes.add
  cases shape : scopes.free with
  | nil =>
    refine ⟨fun other there => ?_, Scopes.get_ok.mpr Array.getElem?_push_size,
      fun id other there => ?_, fun _ => ⟨?_, List.nodup_nil⟩⟩
    · exact absurd (Array.getElem?_eq_some_iff.mp (Scopes.get_ok.mp there)).1 (Nat.lt_irrefl _)
    · have bound := (Array.getElem?_eq_some_iff.mp (Scopes.get_ok.mp there)).1
      rw [Scopes.get_ok] at there ⊢
      rw [Array.getElem?_push, if_neg (Nat.ne_of_lt bound)]
      exact there
    · simp
  | cons id rest =>
    have blank := sound.released id (by simp [shape])
    have bound := (Array.getElem?_eq_some_iff.mp blank).1
    have distinct := sound.once
    rw [shape, List.nodup_cons] at distinct
    refine ⟨fun other there => ?_, ?_, fun other found there => ?_, fun _ => ⟨?_, distinct.2⟩⟩
    · cases blank.symm.trans (Scopes.get_ok.mp there)
    · rw [Scopes.get_ok, Array.getElem?_setIfInBounds, if_pos rfl, if_pos bound]
    · have apart : id ≠ other := by
        rintro rfl
        cases blank.symm.trans (Scopes.get_ok.mp there)
      rw [Scopes.get_ok] at there ⊢
      rw [Array.getElem?_setIfInBounds, if_neg apart]
      exact there
    · intro other member
      have apart : id ≠ other := fun same => distinct.1 (same ▸ member)
      rw [Array.getElem?_setIfInBounds, if_neg apart]
      exact sound.released other (by simp [shape, member])

/-- A change to a scope that is newer than all that count. -/
theorem Added.change {id : ScopeId} {scope : Scope} (added : Added first id scope second)
    (change : Scope → Scope) :
    Added first id (change scope)
      { second with scopes := second.scopes.setIfInBounds id (some (change scope)) } := by
  have there := Scopes.get_ok.mp added.there
  have bound := (Array.getElem?_eq_some_iff.mp there).1
  refine ⟨added.fresh, ?_, fun other found old => ?_, fun sound => ?_⟩
  · rw [Scopes.get_ok, Array.getElem?_setIfInBounds, if_pos rfl, if_pos bound]
  · have apart : id ≠ other := by
      rintro rfl
      exact added.fresh found old
    have kept := Scopes.get_ok.mp (added.keeps.kept other found old)
    rw [Scopes.get_ok, Array.getElem?_setIfInBounds, if_neg apart]
    exact kept
  · have before := added.keeps.sound sound
    refine ⟨fun other member => ?_, before.once⟩
    have blank := before.released other member
    have apart : id ≠ other := by
      rintro rfl
      cases blank.symm.trans there
    rw [Array.getElem?_setIfInBounds, if_neg apart]
    exact blank

end Scopes

/-! Binding -/

namespace Scope

variable {other : Symbol}

theorem slot_bind (scope : Scope) (symbol other : Nat) (slot : Slot) :
    (scope.bind symbol slot).slot other = if other = symbol then slot else scope.slot other := by
  unfold Scope.bind Scope.slot
  dsimp only
  rw [List.getElem?_set]
  by_cases same : symbol = other
  · subst same
    have enough : symbol < (scope.slots ++
        List.replicate (symbol + 1 - scope.slots.length) Slot.unbound).length := by
      rw [List.length_append, List.length_replicate]
      omega
    rw [if_pos rfl, if_pos enough, if_pos rfl]
    rfl
  · rw [if_neg same, if_neg (Ne.symm same)]
    by_cases inside : other < scope.slots.length
    · rw [List.getElem?_append_left inside]
    · rw [List.getElem?_append_right (by omega), List.getElem?_eq_none (l := scope.slots) (by omega),
        List.getElem?_replicate]
      split <;> rfl

/-- Each symbol is bound to the argument at its position. -/
def bindAll : List Symbol → List Reference → Scope → Scope
  | [], _, scope => scope
  | symbol :: rest, given, scope =>
    bindAll rest given.tail (scope.bind symbol (.reference (given.headD (.const .undefined))))

theorem this_bindAll (symbols : List Symbol) :
    ∀ (given : List Reference) (scope : Scope), (bindAll symbols given scope).this = scope.this := by
  induction symbols with
  | nil => exact fun _ _ => rfl
  | cons symbol rest ih => exact fun given scope => ih _ _

theorem reference_bindAll {symbols : List Symbol} (absent : other ∉ symbols) :
    ∀ (given : List Reference) (scope : Scope),
      (bindAll symbols given scope).reference other = scope.reference other := by
  induction symbols with
  | nil => exact fun _ _ => rfl
  | cons symbol rest ih =>
    intro given scope
    simp only [List.mem_cons, not_or] at absent
    rw [bindAll, ih absent.2, Scope.reference, slot_bind, if_neg absent.1]
    rfl

/-- Fresh symbols stand for the arguments. -/
theorem bindAll_zipIdx (params : List String) :
    ∀ (first : Nat) (given : List Reference) (scope : Scope),
      (params.zipIdx first).map (fun entry => (entry.1,
        (bindAll ((params.zipIdx first).map Prod.snd) given scope).reference entry.2)) =
      bindNames params given := by
  induction params with
  | nil => exact fun _ _ _ => rfl
  | cons name rest ih =>
    intro first given scope
    have later : first ∉ (rest.zipIdx (first + 1)).map Prod.snd := by
      intro member
      obtain ⟨entry, listed, same⟩ := List.mem_map.mp member
      have bound := List.le_snd_of_mem_zipIdx listed
      omega
    rw [List.zipIdx_cons, List.map_cons, List.map_cons, bindAll, bindNames]
    refine congrArg₂ List.cons ?_ (ih _ _ _)
    rw [reference_bindAll later, Scope.reference, slot_bind, if_pos rfl]

end Scope

/-- A block nested in another one: its parameters have fresh slots of their program. -/
structure SymbolView.Nests (inner outer : SymbolView) (params : List String) : Prop where
  program : inner.program = outer.program
  enclosing : inner.table.enclosing = outer.table.locals ++ outer.table.enclosing
  fresh : ∃ first, inner.table.locals = params.zipIdx first ∧
    ∀ entry ∈ outer.table.locals ++ outer.table.enclosing, entry.2 < first

theorem SymbolView.Nests.entry {inner outer : SymbolView} {params : List String}
    (nests : inner.Nests outer params) (entry : outer.OfEntry) : inner.OfEntry := by
  have same := nests.program
  exact ⟨same ▸ entry.kind, same ▸ entry.yields, same ▸ entry.partialArgs⟩

theorem SymbolView.Nests.params {inner outer : SymbolView} {params : List String}
    (nests : inner.Nests outer params) : inner.params.isEmpty = params.isEmpty := by
  obtain ⟨first, locals, -⟩ := nests.fresh
  rw [SymbolView.params, locals]
  cases params <;> rfl

/-- The parameters of a block shadow the names around it. -/
theorem SymbolView.Nests.bindings {inner outer : SymbolView} {params : List String}
    (nests : inner.Nests outer params) (given : List Reference) (scope : Scope) :
    inner.bindings (scope.bindAll inner.params given) =
      bindNames params given ++ outer.bindings scope := by
  obtain ⟨first, locals, older⟩ := nests.fresh
  unfold SymbolView.bindings SymbolView.params
  rw [nests.enclosing, locals, List.map_append, Scope.bindAll_zipIdx]
  refine congrArg₂ _ rfl (List.map_congr_left fun entry member => ?_)
  rw [Scope.reference_bindAll]
  intro listed
  obtain ⟨own, there, same⟩ := List.mem_map.mp listed
  have early := older entry member
  have late := List.le_snd_of_mem_zipIdx there
  rw [same] at late
  exact absurd early (Nat.not_lt_of_le late)

/-- The names of a template that is rendered on its own: there are none but its parameters. -/
structure SymbolView.Heads (names : SymbolView) (params : List String) : Prop where
  entry : names.OfEntry
  enclosing : names.table.enclosing = []
  locals : ∃ first, names.table.locals = params.zipIdx first

theorem SymbolView.Heads.bindings {names : SymbolView} {params : List String}
    (heads : names.Heads params) (given : List Reference) (scope : Scope) :
    names.bindings (scope.bindAll names.params given) = bindNames params given := by
  obtain ⟨first, locals⟩ := heads.locals
  unfold SymbolView.bindings SymbolView.params
  rw [heads.enclosing, locals, List.append_nil, Scope.bindAll_zipIdx]

end LiveTemplate
