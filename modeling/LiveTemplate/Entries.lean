/-!
Lists of key and value pairs in the order in which the keys first came. `put` keeps the place of a
key it already holds, so reading a list of pairs one by one gives each key the place of its first
and the value of its last occurrence.
-/

namespace LiveTemplate.Entries

variable {κ α : Type} [DecidableEq κ]

/-- Binds `key`, at its old place if it has one and else at the end. -/
def put (key : κ) (value : α) : List (κ × α) → List (κ × α)
  | [] => [(key, value)]
  | (other, old) :: rest =>
    if other = key then (key, value) :: rest else (other, old) :: put key value rest

def get? (key : κ) : List (κ × α) → Option α
  | [] => none
  | (other, value) :: rest => if other = key then some value else get? key rest

def ofPairs (pairs : List (κ × α)) : List (κ × α) :=
  pairs.foldl (fun entries (key, value) => put key value entries) []

@[simp] theorem get?_put_self (key : κ) (value : α) (entries : List (κ × α)) :
    get? key (put key value entries) = some value := by
  induction entries with
  | nil => simp [put, get?]
  | cons entry rest ih =>
    obtain ⟨other, old⟩ := entry
    by_cases same : other = key <;> simp [put, get?, same, ih]

theorem get?_put_of_ne {key other : κ} (distinct : other ≠ key) (value : α)
    (entries : List (κ × α)) : get? other (put key value entries) = get? other entries := by
  induction entries with
  | nil => simp [put, get?, Ne.symm distinct]
  | cons entry rest ih =>
    obtain ⟨first, old⟩ := entry
    by_cases same : first = key
    · subst same
      simp [put, get?, Ne.symm distinct]
    · simp [put, get?, same, ih]

theorem mem_of_get? {key : κ} {value : α} {entries : List (κ × α)}
    (found : get? key entries = some value) : (key, value) ∈ entries := by
  induction entries with
  | nil => cases found
  | cons entry rest ih =>
    obtain ⟨other, first⟩ := entry
    unfold get? at found
    split at found
    · rename_i same
      cases found
      exact same ▸ List.mem_cons_self
    · exact List.mem_cons_of_mem _ (ih found)

theorem get?_eq_none {key : κ} {entries : List (κ × α)} :
    get? key entries = none ↔ key ∉ entries.map Prod.fst := by
  induction entries with
  | nil => simp [get?]
  | cons entry rest ih =>
    obtain ⟨other, first⟩ := entry
    unfold get?
    split
    · rename_i same
      simp [same]
    · rename_i apart
      rw [ih]
      simp [Ne.symm apart]

theorem get?_eq_some_iff {entries : List (κ × α)} (distinct : (entries.map Prod.fst).Nodup)
    (key : κ) (value : α) : get? key entries = some value ↔ (key, value) ∈ entries := by
  induction entries with
  | nil => simp [get?]
  | cons entry rest ih =>
    obtain ⟨other, first⟩ := entry
    simp only [List.map_cons, List.nodup_cons] at distinct
    by_cases same : other = key
    · subst same
      have absent : (other, value) ∉ rest := fun member =>
        distinct.1 (List.mem_map_of_mem (f := Prod.fst) member)
      simp [get?, absent, eq_comm]
    · have unequal : ¬key = other := fun equal => same equal.symm
      simp [get?, same, unequal, ih distinct.2]

theorem mem_put {key : κ} {value : α} {entries : List (κ × α)} {entry : κ × α}
    (member : entry ∈ put key value entries) : entry = (key, value) ∨ entry ∈ entries := by
  induction entries with
  | nil => exact .inl (List.mem_singleton.mp member)
  | cons first rest ih =>
    obtain ⟨other, old⟩ := first
    unfold put at member
    split at member
    · rcases List.mem_cons.mp member with rfl | member
      · exact .inl rfl
      · exact .inr (List.mem_cons_of_mem _ member)
    · rcases List.mem_cons.mp member with rfl | member
      · exact .inr List.mem_cons_self
      · exact (ih member).imp_right (List.mem_cons_of_mem _)

/-- The keys keep their order; a new one comes last. -/
theorem keys_put (key : κ) (value : α) (entries : List (κ × α)) :
    (put key value entries).map Prod.fst =
      if key ∈ entries.map Prod.fst then entries.map Prod.fst
      else entries.map Prod.fst ++ [key] := by
  induction entries with
  | nil => simp [put]
  | cons entry rest ih =>
    obtain ⟨other, old⟩ := entry
    by_cases same : other = key
    · simp [put, same]
    · have unequal : ¬key = other := fun equal => same equal.symm
      simp only [put, same, if_false, List.map_cons, ih, List.mem_cons, unequal, false_or]
      split <;> simp

end LiveTemplate.Entries
