import LiveTemplate.Proofs.Laws
import LiveTemplate.Proofs.Reactive.Invalidation
import LiveTemplate.Proofs.Value.Renewal

/-!
References put together without helpers. Reading one changes nothing in the store but gives out storage
for the maps of arguments it makes, and from two stores with the same values in the cells it reads the
same, apart from that storage.
-/

namespace LiveTemplate

open Effects

/-- Only storage was given out. -/
structure Store.Spends (before after : Store) : Prop where
  only : after = { before with storage := after.storage }
  storage : before.storage ≤ after.storage

namespace Store

/-- No cell holds a NaN, and the storage in the cells was given out before `floor`. -/
structure Settled (floor : Storage) (store : Store) : Prop where
  given : ∀ id value, store.value? id = some value → value.Given floor
  storage : floor ≤ store.storage

namespace Spends

variable {before after : Store}

theorem refl (store : Store) : store.Spends store := ⟨rfl, Nat.le_refl _⟩

theorem trans {first second third : Store} (early : first.Spends second)
    (late : second.Spends third) : first.Spends third where
  only := by rw [late.only, early.only]
  storage := Nat.le_trans early.storage late.storage

theorem value? (spends : before.Spends after) (id : CellId) :
    after.value? id = before.value? id := by
  rw [spends.only]
  rfl

theorem changed (spends : before.Spends after) : after.changed = before.changed := by
  rw [spends.only]
  rfl

theorem aside (spends : before.Spends after) : before.Aside after := by
  rw [spends.only]
  exact ⟨rfl, rfl, Nat.le_refl _⟩

theorem settled {floor : Storage} (spends : before.Spends after) (settled : before.Settled floor) :
    after.Settled floor where
  given := fun id value found => settled.given id value (spends.value? id ▸ found)
  storage := Nat.le_trans settled.storage spends.storage

theorem grounded {reference : Reference} (spends : before.Spends after)
    (grounded : reference.Over before) : reference.Over after := by
  rw [spends.only]
  exact grounded

theorem timely (spends : before.Spends after) (timely : before.Timely) : after.Timely := by
  rw [spends.only]
  exact timely

end Spends

/-- A reading gives out storage at most, and fails at worst. -/
def spending (start : Store) : Law Store where
  holds := start.Spends
  moves := Spends
  ends fault after := (∃ error, fault = .failed error) ∧ start.Spends after
  refl := Spends.refl
  trans := Spends.trans

/-- The cells hold the same in both stores, and neither will give out storage from before `floor`. -/
structure Level (floor : Storage) (known : CellId → Prop) (store other : Store) : Prop where
  values : ∀ id, known id → store.value? id = other.value? id
  fresh : floor ≤ store.storage
  fresh' : floor ≤ other.storage

theorem Level.symm {floor : Storage} {known : CellId → Prop} {store other : Store}
    (level : store.Level floor known other) : other.Level floor known store :=
  ⟨fun id member => (level.values id member).symm, level.fresh', level.fresh⟩

theorem Level.trans {floor : Storage} {known : CellId → Prop} {first second third : Store}
    (early : first.Level floor known second) (late : second.Level floor known third) :
    first.Level floor known third :=
  ⟨fun id member => (early.values id member).trans (late.values id member), early.fresh, late.fresh'⟩

theorem Spends.level {floor : Storage} {store after : Store} (spends : store.Spends after)
    (fresh : floor ≤ store.storage) (known : CellId → Prop) : Level floor known store after :=
  ⟨fun id _ => (spends.value? id).symm, fresh, Nat.le_trans fresh spends.storage⟩

/-- Cells that were not dirtied on the way. -/
theorem Run.level {floor : Storage} {early late : Store} {dirtied : List CellId}
    {known : CellId → Prop} (run : Run early dirtied late)
    (clean : ∀ id, known id → id < early.cells.size ∧ id ∉ dirtied) (fresh : floor ≤ early.storage)
    (fresh' : floor ≤ late.storage) : Level floor known early late := by
  refine ⟨fun id member => ?_, fresh, fresh'⟩
  obtain ⟨bound, clean⟩ := clean id member
  rcases run.follows.fate id bound with ⟨same, -⟩ | ⟨-, dirty⟩
  · rw [value?, value?, same]
  · exact absurd dirty clean

end Store

/-! References without helpers -/

namespace Reference

mutual

/-- A reference put together from constants, cells, properties, texts, named arguments, conditions and
a host's own wrappers. Its constants have no NaN and their storage is from before `floor`; what decides
over a value does not go by the identity of its storage. -/
def Composed (floor : Storage) : Reference → Prop
  | const value => value.Given floor
  | cell _ => True
  | property parent _ => parent.Composed floor
  | concat parts => AllComposed floor parts
  | namedArgs named => NamedComposed floor named
  | condition inner holds => inner.Composed floor ∧
      ∀ value other, Likeness.contents.Alike value other → holds value = holds other
  | guarded inner refuses => inner.Composed floor ∧
      ∀ value other, Likeness.contents.Alike value other → refuses value = refuses other
  | volatile inner => inner.Composed floor
  | presence .. | helper .. | dynamicVar .. => False

def AllComposed (floor : Storage) : List Reference → Prop
  | [] => True
  | reference :: references => reference.Composed floor ∧ AllComposed floor references

def NamedComposed (floor : Storage) : List (String × Reference) → Prop
  | [] => True
  | (_, reference) :: rest => reference.Composed floor ∧ NamedComposed floor rest

end

variable {helpers : Helpers} {floor : Storage}

mutual

theorem tracked_of_composed : ∀ reference : Reference, reference.Composed floor →
    reference.Tracked helpers .contents
  | const _, _ | cell _, _ | volatile _, _ => trivial
  | property parent _, composed => tracked_of_composed parent composed
  | concat parts, composed => allTracked_of_composed parts composed
  | namedArgs named, composed => ⟨rfl, namedTracked_of_composed named composed⟩
  | condition inner _, composed => ⟨.contents, tracked_of_composed inner composed.1, composed.2⟩
  | guarded inner _, composed => ⟨.contents, tracked_of_composed inner composed.1,
      fun value other alike => ⟨composed.2 value other alike, fun _ => alike⟩⟩

theorem allTracked_of_composed : ∀ references : List Reference, AllComposed floor references →
    AllTracked helpers .contents references
  | [], _ => trivial
  | reference :: references, composed =>
    ⟨tracked_of_composed reference composed.1, allTracked_of_composed references composed.2⟩

theorem namedTracked_of_composed : ∀ named : List (String × Reference), NamedComposed floor named →
    NamedTracked helpers .contents named
  | [], _ => trivial
  | (_, reference) :: rest, composed =>
    ⟨tracked_of_composed reference composed.1, namedTracked_of_composed rest composed.2⟩

end

/-! Reading twice -/

section Renewed

variable {known : CellId → Prop}

theorem newMap_renews {pairs pairs' : List (String × Value)} (renewed : List.Forall₂
    (fun left right => left.1 = right.1 ∧ left.2.Renewed floor right.2) pairs pairs') :
    Agree (Store.Level floor known) (Value.Renewed floor) (Reading.newMap pairs)
      (Reading.newMap pairs') := by
  have given : Agree (Store.Level floor known) (fun storage storage' => floor ≤ storage ∧ floor ≤ storage')
      Reading.newStorage Reading.newStorage := fun store other level =>
    ⟨⟨level.fresh, level.fresh'⟩, level.values, Nat.le_succ_of_le level.fresh,
      Nat.le_succ_of_le level.fresh'⟩
  exact .bind given fun storage storage' fresh => .pure (.ofPairs renewed fresh.1 fresh.2)

mutual

/-- From stores with the same values in the cells a reference reads the same, but for the maps it makes. -/
theorem read_renews : ∀ reference : Reference, reference.Composed floor →
    (∀ id, .cell id ∈ reference.sources → known id) →
      Agree (Store.Level floor known) (Value.Renewed floor) (reference.read helpers)
        (reference.read helpers)
  | const value, _, _ => .pure (.refl floor value)
  | cell id, _, inside =>
    (readCell_agrees .same fun _ _ level => level.values id (inside id List.mem_cons_self)).mono
      fun _ _ same => congrArg (Value.relocate _) same
  | volatile inner, composed, inside =>
    read_renews inner composed fun id member => inside id (List.mem_cons_of_mem _ member)
  | property parent key, composed, inside =>
    .bind (read_renews parent composed inside) fun _ _ renewed => .pure (renewed.get key)
  | concat parts, composed, inside =>
    (readConcat_agrees .same fun reading member =>
      (readers_renew parts composed inside reading member).mono fun _ _ renewed => renewed.alike).mono
        fun _ _ same => congrArg (Value.relocate _) same
  | namedArgs named, composed, inside =>
    .bind (readPairs_agree (namedReaders_renew named composed inside)) fun _ _ renewed =>
      newMap_renews renewed
  | condition inner holds, composed, inside =>
    .bind (read_renews inner composed.1 inside) fun value value' renewed =>
      .pure (congrArg (fun holds => Value.relocate _ (.bool holds))
        (composed.2 value value' renewed.alike))
  | guarded inner refuses, composed, inside => by
    refine .bind (read_renews inner composed.1 inside) fun value value' renewed => ?_
    rw [← composed.2 value value' renewed.alike]
    cases refuses value with
    | some error => exact .throw _
    | none => exact .pure renewed

theorem readers_renew : ∀ references : List Reference, AllComposed floor references →
    (∀ id, .cell id ∈ allSources references → known id) →
      ∀ reading ∈ readers helpers references,
        Agree (Store.Level floor known) (Value.Renewed floor) reading reading
  | [], _, _ => nofun
  | reference :: references, composed, inside => List.forall_mem_cons.mpr
    ⟨read_renews reference composed.1 fun id member => inside id (List.mem_append_left _ member),
      readers_renew references composed.2 fun id member => inside id (List.mem_append_right _ member)⟩

theorem namedReaders_renew : ∀ named : List (String × Reference), NamedComposed floor named →
    (∀ id, .cell id ∈ namedSources named → known id) →
      ∀ entry ∈ namedReaders helpers named,
        Agree (Store.Level floor known) (Value.Renewed floor) entry.2 entry.2
  | [], _, _ => nofun
  | (_, reference) :: rest, composed, inside => List.forall_mem_cons.mpr
    ⟨read_renews reference composed.1 fun id member => inside id (List.mem_append_left _ member),
      namedReaders_renew rest composed.2 fun id member => inside id (List.mem_append_right _ member)⟩

end

theorem reads_level {reference : Reference} {store other last : Store} {value : Value}
    (composed : reference.Composed floor)
    (level : store.Level floor (fun id => .cell id ∈ reference.sources) other)
    (read : reference.read helpers store = .ok value last) :
    ∃ again later, reference.read helpers other = .ok again later ∧ again.Renewed floor value := by
  obtain ⟨again, later, ended, renewed, -⟩ :=
    (@read_renews helpers floor _ reference composed fun _ => id).of_ok level read
  exact ⟨again, later, ended, renewed.symm⟩

end Renewed

/-! What is read -/

section Made

variable {start : Store}

/-- Whenever the reading comes to a value, it was made of what was there and of storage given out since
`start`. -/
def Makes (floor : Storage) (start : Store) (reading : Reading Value) : Prop :=
  ∀ before, start.Spends before → start.spending.Goes before reading fun value after =>
    value.Made floor start.storage after.storage

theorem readConcat_makes {parts : List (Reading Value)}
    (each : ∀ part ∈ parts, Makes floor start part) : Makes floor start (readConcat parts) := by
  have folded : ∀ text before, start.Spends before → start.spending.Goes before
      (parts.foldlM (fun text part => do return text ++ (← part).content) text : Reading String)
      fun _ _ => True := by
    induction parts with
    | nil => exact fun text before spends => .pure spends trivial
    | cons part parts ih =>
      intro text before spends
      rw [List.foldlM_cons]
      have head : start.spending.Goes before (do return text ++ (← part).content : Reading String)
          fun _ _ => True :=
        .bind (each part List.mem_cons_self before spends) fun _ _ held _ _ => .pure held trivial
      refine .bind head fun text between held _ _ => ?_
      exact ih (fun later member => each later (List.mem_cons_of_mem _ member)) text between held
  intro before spends
  exact .bind (folded "" before spends) fun text after held _ _ => .pure held (by simp [Value.Made])

theorem readPairs_makes {named : List (String × Reading Value)}
    (each : ∀ entry ∈ named, Makes floor start entry.2) {before : Store} (spends : start.Spends before) :
    start.spending.Goes before (readPairs named) fun pairs after =>
      ∀ pair ∈ pairs, pair.2.Made floor start.storage after.storage := by
  induction named generalizing before with
  | nil => exact .pure spends (by simp)
  | cons entry rest ih =>
    obtain ⟨name, reading⟩ := entry
    refine .bind (each (name, reading) List.mem_cons_self before spends)
      fun value between held _ made => ?_
    refine .bind (ih (fun later member => each later (List.mem_cons_of_mem _ member)) held)
      fun pairs after held moved others => .pure held ?_
    exact List.forall_mem_cons.mpr ⟨made.widen (Nat.le_refl _) moved.storage, others⟩

theorem newMap_makes {pairs : List (String × Value)} {before : Store} (spends : start.Spends before)
    (made : ∀ pair ∈ pairs, pair.2.Made floor start.storage before.storage) :
    start.spending.Goes before (Reading.newMap pairs) fun value after =>
      value.Made floor start.storage after.storage := by
  have next : before.Spends { before with storage := before.storage + 1 } := ⟨rfl, Nat.le_succ _⟩
  exact ⟨spends.trans next, next, .ofPairs spends.storage made⟩

mutual

/-- Reading gives out storage for the maps it makes, and changes nothing else. -/
theorem read_makes : ∀ reference : Reference, reference.Composed floor → start.Settled floor →
    (∀ id, .cell id ∈ reference.sources → id < start.cells.size) →
      Makes floor start (reference.read helpers)
  | const value, composed, _, _ => fun _ spends => .pure spends (Value.Given.made composed)
  | cell id, _, settled, grounded => by
    intro before spends
    have bound : id < before.cells.size := by
      rw [spends.only]
      exact grounded id List.mem_cons_self
    refine .get_bind ?_
    rw [Array.getElem?_eq_getElem bound]
    refine .pure spends (Value.Given.made (settled.given id _ ?_))
    rw [← spends.value?, Store.value?, Array.getElem?_eq_getElem bound]
    rfl
  | volatile inner, composed, settled, grounded =>
    read_makes inner composed settled fun id member => grounded id (List.mem_cons_of_mem _ member)
  | property parent key, composed, settled, grounded => fun before spends =>
    .bind (read_makes parent composed settled grounded before spends) fun _ _ held _ made =>
      .pure held (made.get key)
  | concat parts, composed, settled, grounded =>
    readConcat_makes (readers_make parts composed settled grounded)
  | namedArgs named, composed, settled, grounded => fun _ spends =>
    .bind (readPairs_makes (namedReaders_make named composed settled grounded) spends)
      fun _ _ held _ made => newMap_makes held made
  | condition inner holds, composed, settled, grounded => fun before spends =>
    .bind (read_makes inner composed.1 settled grounded before spends) fun _ _ held _ _ =>
      .pure held (by simp [Value.Made])
  | guarded inner refuses, composed, settled, grounded => by
    intro before spends
    refine .bind (read_makes inner composed.1 settled grounded before spends)
      fun value between held _ made => ?_
    cases refuses value with
    | some error => exact ⟨⟨error, rfl⟩, held⟩
    | none => exact .pure held made

theorem readers_make : ∀ references : List Reference, AllComposed floor references →
    start.Settled floor → (∀ id, .cell id ∈ allSources references → id < start.cells.size) →
      ∀ reading ∈ readers helpers references, Makes floor start reading
  | [], _, _, _ => nofun
  | reference :: references, composed, settled, grounded => List.forall_mem_cons.mpr
    ⟨read_makes reference composed.1 settled fun id member =>
      grounded id (List.mem_append_left _ member),
      readers_make references composed.2 settled fun id member =>
        grounded id (List.mem_append_right _ member)⟩

theorem namedReaders_make : ∀ named : List (String × Reference), NamedComposed floor named →
    start.Settled floor → (∀ id, .cell id ∈ namedSources named → id < start.cells.size) →
      ∀ entry ∈ namedReaders helpers named, Makes floor start entry.2
  | [], _, _, _ => nofun
  | (_, reference) :: rest, composed, settled, grounded => List.forall_mem_cons.mpr
    ⟨read_makes reference composed.1 settled fun id member =>
      grounded id (List.mem_append_left _ member),
      namedReaders_make rest composed.2 settled fun id member =>
        grounded id (List.mem_append_right _ member)⟩

end

end Made

end Reference

end LiveTemplate
