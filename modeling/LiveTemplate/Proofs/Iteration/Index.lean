import LiveTemplate.Iteration.Artifacts
import Mathlib.Data.List.Nodup

/-!
The index of the items of a list. As long as the items have different keys, the index finds exactly
the living items, and the numbers given back are none of theirs. What matters for this is only which
items there are and what they refer to, not their order and not their marks.
-/

namespace LiveTemplate

namespace Entries

variable {κ α : Type} [DecidableEq κ]

theorem keys_put_nodup {entries : List (κ × α)} (distinct : (entries.map Prod.fst).Nodup)
    (key : κ) (value : α) : ((put key value entries).map Prod.fst).Nodup := by
  rw [keys_put]
  split
  · exact distinct
  · rename_i fresh
    exact List.nodup_append.mpr ⟨distinct, by simp, by
      intro first member second last equal
      simp only [List.mem_singleton] at last
      exact fresh (by rwa [← last, ← equal])⟩

end Entries

/-- What an item is apart from its place and its marks. -/
abbrev Face := ItemId × ItemRefs

namespace Face

def key (face : Face) : Key := face.2.key

end Face

def Item.face (item : Item) : Face := (item.id, item.refs)

@[simp] theorem Item.face_key (item : Item) : item.face.key = item.key := rfl

@[simp] theorem Item.face_clearMarks (item : Item) : item.clearMarks.face = item.face := rfl

@[simp] theorem Item.key_clearMarks (item : Item) : item.clearMarks.key = item.key := rfl

namespace Artifacts

/-- The index and the free numbers fit a list of items with these faces. -/
structure Indexes (artifacts : Artifacts) (faces : List Face) : Prop where
  keys : (faces.map Face.key).Nodup
  ids : (faces.map Prod.fst).Nodup
  entries : (artifacts.index.map Prod.fst).Nodup
  found : ∀ key id, artifacts.get? key = some id ↔ ∃ face ∈ faces, face.key = key ∧ face.1 = id
  below : ∀ face ∈ faces, face.1 < artifacts.slots
  freeBelow : ∀ id ∈ artifacts.free, id < artifacts.slots
  freeUnused : ∀ id ∈ artifacts.free, ∀ face ∈ faces, face.1 ≠ id
  freeDistinct : artifacts.free.Nodup

namespace Indexes

variable {artifacts : Artifacts} {faces others : List Face}

theorem empty (pending : Option Pass) : Indexes { pending } [] where
  keys := List.nodup_nil
  ids := List.nodup_nil
  entries := List.nodup_nil
  found := by simp [get?, Entries.get?]
  below := by simp
  freeBelow := by simp
  freeUnused := by simp
  freeDistinct := List.nodup_nil

/-- The order of the items does not count. -/
theorem perm (indexed : artifacts.Indexes faces) (reordered : faces.Perm others) :
    artifacts.Indexes others where
  keys := (reordered.map Face.key).nodup_iff.mp indexed.keys
  ids := (reordered.map Prod.fst).nodup_iff.mp indexed.ids
  entries := indexed.entries
  found := fun key id => by simp only [indexed.found, reordered.mem_iff]
  below := fun face member => indexed.below face (reordered.mem_iff.mpr member)
  freeBelow := indexed.freeBelow
  freeUnused := fun id free face member =>
    indexed.freeUnused id free face (reordered.mem_iff.mpr member)
  freeDistinct := indexed.freeDistinct

/-- Only the index and the numbers count. -/
theorem congr (indexed : artifacts.Indexes faces) {other : Artifacts}
    (index : other.index = artifacts.index) (slots : other.slots = artifacts.slots)
    (free : other.free = artifacts.free) : other.Indexes faces where
  keys := indexed.keys
  ids := indexed.ids
  entries := by rw [index]; exact indexed.entries
  found := by
    intro key id
    rw [← indexed.found, get?, get?, index]
  below := by rw [slots]; exact indexed.below
  freeBelow := by rw [slots, free]; exact indexed.freeBelow
  freeUnused := by rw [free]; exact indexed.freeUnused
  freeDistinct := by rw [free]; exact indexed.freeDistinct

theorem get?_of_mem (indexed : artifacts.Indexes faces) {face : Face} (member : face ∈ faces) :
    artifacts.get? face.key = some face.1 :=
  (indexed.found _ _).mpr ⟨face, member, rfl, rfl⟩

theorem get?_eq_none (indexed : artifacts.Indexes faces) {key : Key}
    (absent : key ∉ faces.map Face.key) : artifacts.get? key = none := by
  cases outcome : artifacts.get? key with
  | none => rfl
  | some id =>
    obtain ⟨face, member, same, -⟩ := (indexed.found key id).mp outcome
    exact absurd (same ▸ List.mem_map_of_mem member) absent

/-- Two items with one number are the same item. -/
theorem eq_of_id (indexed : artifacts.Indexes faces) {first second : Face} (left : first ∈ faces)
    (right : second ∈ faces) (same : first.1 = second.1) : first = second :=
  List.inj_on_of_nodup_map indexed.ids left right same

theorem eq_of_key (indexed : artifacts.Indexes faces) {first second : Face} (left : first ∈ faces)
    (right : second ∈ faces) (same : first.key = second.key) : first = second :=
  List.inj_on_of_nodup_map indexed.keys left right same

/-- A new item of a new key. -/
theorem allocate (indexed : artifacts.Indexes faces) (refs : ItemRefs)
    (fresh : refs.key ∉ faces.map Face.key) :
    (artifacts.allocate refs.key).2.Indexes (((artifacts.allocate refs.key).1, refs) :: faces) := by
  -- The number is either one given back or the next one; in both cases no item has it.
  obtain ⟨id, unused, slots, free, equal⟩ :
      ∃ id, (∀ face ∈ faces, face.1 ≠ id) ∧ ∃ slots free,
        artifacts.allocate refs.key =
          (id, { artifacts with slots, free, index := Entries.put refs.key id artifacts.index }) ∧
        artifacts.slots ≤ slots ∧ id < slots ∧ (∀ other ∈ free, other ∈ artifacts.free) ∧
        (∀ other ∈ free, other ≠ id) ∧ free.Nodup := by
    cases shape : artifacts.free with
    | nil =>
      exact ⟨artifacts.slots, fun face member => Nat.ne_of_lt (indexed.below face member),
        artifacts.slots + 1, [], by simp [Artifacts.allocate, shape], Nat.le_succ _,
        Nat.lt_succ_self _, by simp, by simp, by simp⟩
    | cons id free =>
      have distinct := indexed.freeDistinct
      rw [shape, List.nodup_cons] at distinct
      have given : id ∈ artifacts.free := by simp [shape]
      exact ⟨id, indexed.freeUnused id given, artifacts.slots, free,
        by simp [Artifacts.allocate, shape], Nat.le_refl _, indexed.freeBelow id given,
        fun other member => by simp [member],
        fun other member equal => distinct.1 (equal ▸ member), distinct.2⟩
  obtain ⟨allocated, grown, taken, kept, other, distinct⟩ := equal
  rw [allocated]
  refine ⟨?_, ?_, Entries.keys_put_nodup indexed.entries _ _, ?_, ?_, ?_, ?_, distinct⟩
  · exact List.nodup_cons.mpr ⟨fresh, indexed.keys⟩
  · refine List.nodup_cons.mpr ⟨?_, indexed.ids⟩
    intro member
    obtain ⟨face, inside, same⟩ := List.mem_map.mp member
    exact unused face inside same
  · intro key number
    by_cases same : key = refs.key
    · subst same
      simp only [get?, Entries.get?_put_self, Option.some.injEq, List.mem_cons,
        exists_eq_or_imp, Face.key, true_and]
      constructor
      · exact .inl
      · rintro (equal | ⟨face, member, equal, -⟩)
        · exact equal
        · exact absurd (equal ▸ List.mem_map_of_mem (f := Face.key) member) fresh
    · rw [get?, Entries.get?_put_of_ne same]
      have unequal : ¬refs.key = key := fun equal => same equal.symm
      have earlier := indexed.found key number
      rw [get?] at earlier
      rw [earlier]
      simp [Face.key, unequal]
  · intro face member
    rcases List.mem_cons.mp member with rfl | member
    · exact taken
    · exact Nat.lt_of_lt_of_le (indexed.below face member) grown
  · intro id member
    exact Nat.lt_of_lt_of_le (indexed.freeBelow id (kept id member)) grown
  · intro id member face inside
    rcases List.mem_cons.mp inside with rfl | inside
    · exact (other id member).symm
    · exact indexed.freeUnused id (kept id member) face inside

/-- A removed item leaves no trace in the index. -/
theorem release {item : Item} (indexed : artifacts.Indexes (item.face :: faces)) :
    (artifacts.release item).Indexes faces := by
  have keys := indexed.keys
  have ids := indexed.ids
  simp only [List.map_cons, List.nodup_cons] at keys ids
  have entries : ((artifacts.release item).index.map Prod.fst).Nodup :=
    indexed.entries.sublist (List.filter_sublist.map Prod.fst)
  refine ⟨keys.2, ids.2, entries, ?_, ?_, ?_, ?_, ?_⟩
  · intro key id
    have earlier := indexed.found key id
    rw [get?, Entries.get?_eq_some_iff indexed.entries] at earlier
    rw [get?, Entries.get?_eq_some_iff entries]
    simp only [Artifacts.release, List.mem_filter, earlier, List.mem_cons, decide_eq_true_eq]
    constructor
    · rintro ⟨⟨face, rfl | member, sameKey, sameId⟩, other⟩
      · exact absurd (Prod.ext sameKey.symm sameId.symm) other
      · exact ⟨face, member, sameKey, sameId⟩
    · rintro ⟨face, member, sameKey, sameId⟩
      refine ⟨⟨face, .inr member, sameKey, sameId⟩, fun equal => keys.1 ?_⟩
      have itemKey : face.key = item.face.key := sameKey.trans (Prod.ext_iff.mp equal).1
      exact itemKey ▸ List.mem_map_of_mem member
  · exact fun face member => indexed.below face (by simp [member])
  · intro id member
    rcases List.mem_cons.mp member with rfl | member
    · exact indexed.below item.face (by simp)
    · exact indexed.freeBelow id member
  · intro id member face inside
    rcases List.mem_cons.mp member with rfl | member
    · intro same
      exact ids.1 (List.mem_map.mpr ⟨face, inside, same⟩)
    · exact indexed.freeUnused id member face (by simp [inside])
  · refine List.nodup_cons.mpr ⟨fun member => ?_, indexed.freeDistinct⟩
    exact indexed.freeUnused item.id member item.face (by simp) rfl

end Indexes

end Artifacts

end LiveTemplate
