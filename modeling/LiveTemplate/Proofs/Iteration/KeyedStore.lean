import LiveTemplate.Proofs.Iteration.Reconciliation

/-!
The list of keys beside a store, as a target. It carries out every edit that it is not told to
refuse, and looks at the store only to remember what the cells of an item held.
-/

namespace LiveTemplate

open Effects

namespace KeyedStore

/-- The edits that are to be refused are insertions. -/
def RefusesInsertions (state : KeyedStore) : Prop :=
  ∀ edit : Edit, ∀ label ∈ edit.label?, label ∈ state.refused →
    ∃ item before, edit = .insert item before

theorem onStore_ok {α : Type} {reading : Reading α} {before after : KeyedStore} {result : α}
    (ended : onStore reading before = .ok result after) :
    reading before.store = .ok result after.store ∧
      after = { before with store := after.store } := by
  unfold onStore at ended
  cases outcome : reading before.store with
  | ok value store =>
    rw [outcome] at ended
    cases ended
    exact ⟨rfl, rfl⟩
  | error fault store =>
    rw [outcome] at ended
    cases ended

theorem onStore_error {α : Type} {reading : Reading α} {before after : KeyedStore} {fault : Fault}
    (ended : onStore reading before = .error fault after) :
    reading before.store = .error fault after.store ∧
      after = { before with store := after.store } := by
  unfold onStore at ended
  cases outcome : reading before.store with
  | ok value store =>
    rw [outcome] at ended
    cases ended
  | error fault store =>
    rw [outcome] at ended
    cases ended
    exact ⟨rfl, rfl⟩

theorem readCell_still (id : CellId) :
    Sustains (fun before after => before = after) (Reading.readCell id) := by
  refine .bind (fun first second => first.trans second) (.get fun _ => rfl) fun store => ?_
  cases store.cells[id]? with
  | none => exact .throw (fun _ => rfl) _
  | some cell => exact .pure (fun _ => rfl) _

/-- What the cells of an item hold is only looked at. -/
theorem valuesOf_still (edit : Edit) :
    Sustains (fun before after => before = after) (valuesOf edit) ∧ Unfailing (valuesOf edit) := by
  have both : ∀ item : ItemRefs,
      Sustains (fun before after : Store => before = after)
        (do return some (← Reading.readCell item.value, ← Reading.readCell item.memo)) ∧
      Unfailing (do
        return some (← Reading.readCell item.value, ← Reading.readCell item.memo) :
          Reading (Option (Value × Value))) := by
    intro item
    constructor
    · refine .bind (fun first second => first.trans second) (readCell_still _) fun value => ?_
      refine .bind (fun first second => first.trans second) (readCell_still _) fun memo => ?_
      exact .pure (fun _ => rfl) _
    · refine .bind (Reading.readCell_unfailing _) fun value => ?_
      exact .bind (Reading.readCell_unfailing _) fun memo => .pure _
  cases edit with
  | retain item => exact both item
  | insert item before => exact both item
  | move item before => exact both item
  | delete key => exact ⟨.pure (fun _ => rfl) _, .pure _⟩
  | done => exact ⟨.pure (fun _ => rfl) _, .pure _⟩

theorem apply_eq (edit : Edit) (before : KeyedStore) :
    apply edit before = match edit.label?.filter (· ∈ before.refused) with
      | some label => .error (.failed (.helperFailed "sync" label))
          { before with refused := before.refused.erase label }
      | none => (do
          let values ← onStore (valuesOf edit)
          modify fun state =>
            { state with
              keys := KeyList.edit state.keys edit, edits := ⟨edit, values⟩ :: state.edits } :
          EStateM Fault KeyedStore Unit) before := by
  unfold apply
  refine (bind_of_ok rfl).trans ?_
  cases edit.label?.filter (· ∈ before.refused) <;> rfl

/-- Carrying out an edit changes the list of keys and nothing in the store, and refusing one changes
neither. -/
theorem apply_cases {edit : Edit} {before after : KeyedStore} (fault : Option RenderError)
    (ended : apply edit before =
      match fault with
      | none => .ok () after
      | some error => .error (.failed error) after) :
    (fault = none ∧ ∃ values, after =
        { before with
          keys := KeyList.edit before.keys edit, edits := ⟨edit, values⟩ :: before.edits }) ∨
      (fault.isSome ∧ ∃ label ∈ edit.label?, label ∈ before.refused ∧
        after = { before with refused := before.refused.erase label }) := by
  rw [apply_eq] at ended
  cases refusal : edit.label?.filter (· ∈ before.refused) with
  | none =>
    rw [refusal] at ended
    cases fault with
    | none =>
      obtain ⟨values, between, looked, changed⟩ := bind_ok.mp ended
      obtain ⟨read, same⟩ := onStore_ok looked
      have still := (valuesOf_still edit).1.of_ok read
      rw [← still] at same
      rw [same] at changed
      exact .inl ⟨rfl, values, (modify_ok.mp changed).symm⟩
    | some error =>
      rcases bind_error.mp ended with failed | ⟨_, _, -, failed⟩
      · exact absurd (onStore_error failed).1 (valuesOf_still edit).2.not_failed
      · exact absurd failed modify_error
  | some label =>
    rw [refusal] at ended
    obtain ⟨named, listed⟩ := Option.filter_eq_some_iff.mp refusal
    cases fault with
    | none => cases ended
    | some error =>
      cases ended
      exact .inr ⟨rfl, label, named, by simpa using listed, rfl⟩

/-- The list of keys is a plain target as long as it is told to refuse only insertions. -/
def plain : PlainTarget KeyedStore where
  target := target
  store := store
  keys := keys
  script := fun state => (state.edits.map EditRecord.edit).reverse
  steady := RefusesInsertions
  onStore_ok := by
    intro α reading before after result ended
    obtain ⟨read, same⟩ := onStore_ok ended
    refine ⟨read, ?_, ?_, fun steady => ?_⟩ <;> rw [same]
    exact steady
  onStore_error := by
    intro α reading before after fault ended
    obtain ⟨read, same⟩ := onStore_error ended
    refine ⟨read, ?_, ?_, fun steady => ?_⟩ <;> rw [same]
    exact steady
  apply_ok := by
    intro edit before after steady ended
    rcases apply_cases none ended with ⟨-, values, rfl⟩ | ⟨impossible, -⟩
    · exact ⟨rfl, by simp, .refl _, steady⟩
    · cases impossible
  apply_failed := by
    intro edit before after error steady ended
    rcases apply_cases (some error) ended with ⟨impossible, -⟩ | ⟨-, label, named, listed, rfl⟩
    · cases impossible
    · refine ⟨steady edit label named listed, rfl, rfl, .refl _, ?_⟩
      exact fun other label named listed => steady other label named (List.mem_of_mem_erase listed)

end KeyedStore

end LiveTemplate
