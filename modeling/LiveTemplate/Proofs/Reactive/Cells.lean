import LiveTemplate.Iteration.Sync
import LiveTemplate.Proofs.Effects
import LiveTemplate.Proofs.Reactive.Readings
import LiveTemplate.Proofs.Value.Equality

/-!
What is left alone while values are read. Reading may call helpers, make new lists and maps and
begin passes, but it never touches the items of a list that is kept. The cells of items are changed
by the synchronisation alone, and hold afterwards what they were given.
-/

namespace LiveTemplate

open Effects

/-- Artifacts apart from a pass that was only begun. -/
def Artifacts.settled (artifacts : Artifacts) : Artifacts := { artifacts with pending := none }

namespace Store

/-- No cell and no list is lost, and no list has other items or another index. -/
structure Spares (before after : Store) : Prop where
  lists : ∀ {id : ListId} {artifacts : Artifacts}, before.lists[id]? = some artifacts →
    ∃ later : Artifacts, after.lists[id]? = some later ∧ later.settled = artifacts.settled
  cells : before.cells.size ≤ after.cells.size

namespace Spares

theorem refl (store : Store) : store.Spares store where
  lists := fun found => ⟨_, found, rfl⟩
  cells := Nat.le_refl _

theorem trans {first second third : Store} (early : first.Spares second)
    (late : second.Spares third) : first.Spares third where
  lists := fun found => by
    obtain ⟨between, there, same⟩ := early.lists found
    obtain ⟨later, here, again⟩ := late.lists there
    exact ⟨later, here, again.trans same⟩
  cells := Nat.le_trans early.cells late.cells

theorem of_eq {before after : Store} (lists : after.lists = before.lists)
    (cells : before.cells.size ≤ after.cells.size) : before.Spares after where
  lists := fun found => ⟨_, lists ▸ found, rfl⟩
  cells := cells

end Spares

/-- What a cell holds. -/
def value? (store : Store) (id : CellId) : Option Value := (store.cells[id]?).map Cell.value

/-- The cell holds a value that change detection takes for this one. -/
def Holds (store : Store) (id : CellId) (value : Value) : Prop :=
  ∃ held, store.value? id = some held ∧ (held == value) = true

theorem lt_of_value? {store : Store} {id : CellId} {value : Value}
    (holding : store.value? id = some value) : id < store.cells.size := by
  unfold value? at holding
  cases found : store.cells[id]? with
  | none => simp [found] at holding
  | some cell => exact (Array.getElem?_eq_some_iff.mp found).1

/-- Besides, every cell still holds what it held. -/
structure Keeps (before after : Store) : Prop extends before.Spares after where
  values : ∀ id, id < before.cells.size → after.value? id = before.value? id

namespace Keeps

theorem refl (store : Store) : store.Keeps store where
  toSpares := .refl store
  values := fun _ _ => rfl

theorem trans {first second third : Store} (early : first.Keeps second)
    (late : second.Keeps third) : first.Keeps third where
  toSpares := early.toSpares.trans late.toSpares
  values := fun id bound =>
    (late.values id (Nat.lt_of_lt_of_le bound early.cells)).trans (early.values id bound)

end Keeps

end Store

/-! Readings that are quiet -/

/-- A reading that spares the lists, however it ends. -/
abbrev Reading.Quiet {α : Type} (reading : Reading α) : Prop := Sustains Store.Spares reading

/-- Helpers that do nothing to lists but what reading their arguments does. The items of a list and
its index are not within the reach of a host. -/
def Helpers.Quiet (helpers : Helpers) : Prop :=
  ∀ name call, helpers name = some call → ∀ arguments : Arguments,
    (∀ reading ∈ arguments.positional, Reading.Quiet reading) →
    (∀ entry ∈ arguments.named, Reading.Quiet entry.2) → Reading.Quiet (call arguments)

namespace Reading.Quiet

variable {α β : Type}

theorem pure (value : α) : Quiet (Pure.pure value : Reading α) :=
  Sustains.pure Store.Spares.refl value

theorem fail (error : RenderError) : Quiet (Reading.fail error : Reading α) :=
  Sustains.throw Store.Spares.refl _

theorem broken (defect : Defect) : Quiet (Reading.broken defect : Reading α) :=
  Sustains.throw Store.Spares.refl _

theorem bind {first : Reading α} {next : α → Reading β} (head : Quiet first)
    (tail : ∀ value, Quiet (next value)) : Quiet (first >>= next) :=
  Sustains.bind (fun early late => early.trans late) head tail

theorem lift (outcome : Except RenderError α) : Quiet (Reading.lift outcome) := by
  cases outcome with
  | ok value => exact pure value
  | error error => exact fail error

theorem readCell (id : CellId) : Quiet (Reading.readCell id) := by
  refine bind (Sustains.get Store.Spares.refl) fun store => ?_
  cases store.cells[id]? with
  | none => exact broken _
  | some cell => exact pure _

theorem newMap (entries : List (String × Value)) : Quiet (Reading.newMap entries) := by
  refine bind (Sustains.modifyGet fun store => ?_) fun storage => pure _
  exact .of_eq rfl (Nat.le_refl _)

theorem artifacts (id : ListId) : Quiet (Reading.artifacts id) := by
  refine bind (Sustains.get Store.Spares.refl) fun store => ?_
  cases store.lists[id]? with
  | none => exact broken _
  | some artifacts => exact pure _

end Reading.Quiet

namespace Reading

theorem newCell_ok {value : Value} {id : CellId} {before after : Store} :
    newCell value before = .ok id after ↔
      before.cells.size = id ∧
        { before with cells := before.cells.push ⟨value, before.clock⟩ } = after := by
  change EStateM.Result.ok before.cells.size _ = _ ↔ _
  rw [EStateM.Result.ok.injEq]

theorem readCell_eq (id : CellId) (before : Store) :
    readCell id before = match before.cells[id]? with
      | some cell => .ok cell.value before
      | none => .error (.broken .outOfRange) before := by
  unfold readCell
  refine (bind_of_ok rfl).trans ?_
  cases before.cells[id]? <;> rfl

theorem readCell_ok {id : CellId} {value : Value} {before after : Store} :
    readCell id before = .ok value after ↔ before.value? id = some value ∧ before = after := by
  rw [readCell_eq, Store.value?]
  cases before.cells[id]? <;> simp

theorem artifacts_eq (id : ListId) (before : Store) :
    artifacts id before = match before.lists[id]? with
      | some artifacts => .ok artifacts before
      | none => .error (.broken .outOfRange) before := by
  unfold artifacts
  refine (bind_of_ok rfl).trans ?_
  cases before.lists[id]? <;> rfl

theorem artifacts_ok {id : ListId} {before after : Store} {found : Artifacts} :
    artifacts id before = .ok found after ↔ before.lists[id]? = some found ∧ before = after := by
  rw [artifacts_eq]
  cases before.lists[id]? <;> simp

theorem setArtifacts_ok {id : ListId} {artifacts : Artifacts} {before after : Store} :
    setArtifacts id artifacts before = .ok () after ↔
      { before with lists := before.lists.setIfInBounds id artifacts } = after :=
  modify_ok

/-- Another pass may wait at a list at any time. -/
theorem setPending_spares {id : ListId} {artifacts : Artifacts} {store : Store}
    (found : store.lists[id]? = some artifacts) {fresh : Artifacts}
    (same : fresh.settled = artifacts.settled) :
    store.Spares { store with lists := store.lists.setIfInBounds id fresh } where
  lists := by
    intro other held there
    by_cases equal : id = other
    · subst equal
      have bound := (Array.getElem?_eq_some_iff.mp found).1
      rw [found] at there
      cases there
      exact ⟨fresh, by simp [bound], same⟩
    · exact ⟨held, by simp [equal, there], rfl⟩
  cells := Nat.le_refl _

end Reading

/-! Reading a reference -/

namespace Reference

variable {helpers : Helpers}

theorem beginPass_quiet (list : ListId) (keyFor : KeyFor) (value : Value) :
    (beginPass list keyFor value).Quiet := by
  refine .bind (.lift _) fun pass => ?_
  intro before
  constructor
  · intro result after ended
    obtain ⟨artifacts, between, read, written⟩ := bind_ok.mp ended
    obtain ⟨found, rfl⟩ := Reading.artifacts_ok.mp read
    obtain ⟨_, last, put, done⟩ := bind_ok.mp written
    obtain ⟨-, rfl⟩ := pure_ok.mp done
    rw [← Reading.setArtifacts_ok.mp put]
    exact Reading.setPending_spares found rfl
  · intro fault after ended
    rcases bind_error.mp ended with failed | ⟨artifacts, between, read, failed⟩
    · exact (Reading.Quiet.artifacts list).of_error failed
    · rcases bind_error.mp failed with failed | ⟨_, last, put, failed⟩
      · exact absurd failed modify_error
      · exact absurd failed pure_error

theorem quiet_closed : Reading.Closed Reading.Quiet where
  pure := .pure
  fail := .fail
  bind := .bind
  readCell := .readCell
  newMap := .newMap
  beginPass := beginPass_quiet

/-- Reading a reference is quiet if the helpers are. -/
theorem read_quiet (quiet : helpers.Quiet) (reference : Reference) :
    (reference.read helpers).Quiet :=
  quiet_closed.read quiet reference

end Reference

theorem KeyedList.takePass_quiet {helpers : Helpers} (quiet : helpers.Quiet) (keyed : KeyedList) :
    (keyed.takePass helpers).Quiet := by
  intro before
  have iterated : (keyed.iterable.iterate helpers).Quiet :=
    .bind (Reference.read_quiet quiet keyed.iterable.source) fun value => .lift _
  constructor
  · intro pass after ended
    obtain ⟨artifacts, between, read, taken⟩ := bind_ok.mp ended
    obtain ⟨found, rfl⟩ := Reading.artifacts_ok.mp read
    cases waiting : artifacts.pending with
    | none =>
      simp only [waiting] at taken
      exact iterated.of_ok taken
    | some pass =>
      simp only [waiting] at taken
      obtain ⟨_, last, put, done⟩ := bind_ok.mp taken
      obtain ⟨-, rfl⟩ := pure_ok.mp done
      rw [← Reading.setArtifacts_ok.mp put]
      exact Reading.setPending_spares found rfl
  · intro fault after ended
    rcases bind_error.mp ended with failed | ⟨artifacts, between, read, failed⟩
    · exact (Reading.Quiet.artifacts keyed.list).of_error failed
    · obtain ⟨found, rfl⟩ := Reading.artifacts_ok.mp read
      cases waiting : artifacts.pending with
      | none =>
        simp only [waiting] at failed
        exact iterated.of_error failed
      | some pass =>
        simp only [waiting] at failed
        rcases bind_error.mp failed with failed | ⟨_, last, put, failed⟩
        · exact absurd failed modify_error
        · exact absurd failed pure_error

end LiveTemplate
