import Mathlib.Data.List.Forall2
import LiveTemplate.Iteration.Pass

/-!
Values apart from the identity of their storage. A map of arguments is new at every reading, so two
readings can give maps that differ in nothing but their storage. No text, no property and no pass
over such a value shows the difference.
-/

namespace LiveTemplate

namespace Entries

variable {κ α β : Type} [DecidableEq κ]

theorem put_map (change : α → β) (key : κ) (value : α) (entries : List (κ × α)) :
    (put key value entries).map (Prod.map id change) =
      put key (change value) (entries.map (Prod.map id change)) := by
  induction entries with
  | nil => rfl
  | cons entry rest ih =>
    obtain ⟨other, old⟩ := entry
    by_cases same : other = key <;> simp [put, same, ih]

theorem get?_map (change : α → β) (key : κ) (entries : List (κ × α)) :
    get? key (entries.map (Prod.map id change)) = (get? key entries).map change := by
  induction entries with
  | nil => rfl
  | cons entry rest ih =>
    obtain ⟨other, old⟩ := entry
    by_cases same : other = key <;> simp [get?, same, ih]

theorem ofPairs_map (change : α → β) (pairs : List (κ × α)) :
    (ofPairs pairs).map (Prod.map id change) = ofPairs (pairs.map (Prod.map id change)) := by
  suffices general : ∀ entries : List (κ × α),
      (pairs.foldl (fun entries pair => put pair.1 pair.2 entries) entries).map
          (Prod.map id change) =
        (pairs.map (Prod.map id change)).foldl (fun entries pair => put pair.1 pair.2 entries)
          (entries.map (Prod.map id change)) from general []
  induction pairs with
  | nil => exact fun entries => rfl
  | cons pair rest ih =>
    intro entries
    simp only [List.foldl_cons, List.map_cons, ih, put_map]
    rfl

end Entries

namespace Value

mutual

/-- The value with all its storage made one. -/
def bare : Value → Value
  | list _ items => list 0 (bareItems items)
  | map _ entries => map 0 (bareEntries entries)
  | value => value

def bareItems : List Value → List Value
  | [] => []
  | item :: items => item.bare :: bareItems items

def bareEntries : List (String × Value) → List (String × Value)
  | [] => []
  | (key, value) :: entries => (key, value.bare) :: bareEntries entries

end

theorem bareItems_eq_map (items : List Value) : bareItems items = items.map bare := by
  induction items with
  | nil => rfl
  | cons item items ih => rw [bareItems, ih, List.map_cons]

theorem bareEntries_eq_map (entries : List (String × Value)) :
    bareEntries entries = entries.map (Prod.map id bare) := by
  induction entries with
  | nil => rfl
  | cons entry entries ih =>
    rw [bareEntries, ih]
    rfl

mutual

theorem content_bare : ∀ value : Value, value.bare.content = value.content
  | undefined | null | bool _ | int _ | float _ | text _ => rfl
  | list _ items => by rw [bare, content, content, contents_bare items]
  | map _ _ => rfl

theorem contents_bare : ∀ items : List Value, contents (bareItems items) = contents items
  | [] => rfl
  | item :: items => by rw [bareItems, contents, contents, content_bare item, contents_bare items]

end

theorem get_bare (value : Value) (key : String) : value.bare.get key = (value.get key).bare := by
  cases value with
  | map storage entries =>
    simp only [bare, get, bareEntries_eq_map, Entries.get?_map]
    cases Entries.get? key entries <;> rfl
  | list storage items =>
    simp only [bare, get, bareItems_eq_map, List.length_map, List.getElem?_map]
    split
    · rfl
    · cases position? key with
      | none => rfl
      | some position =>
        simp only [Option.bind_some]
        cases items[position]? <;> rfl
  | text value =>
    simp only [bare, get]
    split <;> rfl
  | _ => rfl

theorem truthy_bare (value : Value) : value.bare.truthy = value.truthy := by
  cases value <;> rfl

end Value

namespace Pass

theorem isEmpty_ofElements (keyFor : KeyFor) (elements : List (Value × Value)) :
    (ofElements keyFor elements).isEmpty = elements.isEmpty := by
  cases elements <;> simp [ofElements]

/-- Whether a value can be passed, and whether it has elements, is not a matter of its storage. -/
theorem isEmpty_ofValue_bare (keyFor : KeyFor) (value : Value) :
    (ofValue keyFor value.bare).map List.isEmpty = (ofValue keyFor value).map List.isEmpty := by
  cases value with
  | list storage items =>
    cases items <;> simp [Value.bare, Value.bareItems, ofValue, Except.map, isEmpty_ofElements]
  | map storage entries =>
    cases entries <;> simp [Value.bare, Value.bareEntries, ofValue, Except.map, isEmpty_ofElements]
  | _ => rfl

end Pass

/-- How alike two readings of a value are. -/
inductive Likeness where
  /-- They are the same value. -/
  | same
  /-- They differ in the identity of their storage at most. -/
  | contents
  deriving Repr, DecidableEq

namespace Likeness

def Alike : Likeness → Value → Value → Prop
  | same, left, right => left = right
  | contents, left, right => left.bare = right.bare

theorem refl (likeness : Likeness) (value : Value) : likeness.Alike value value := by
  cases likeness <;> rfl

namespace Alike

variable {likeness : Likeness} {left right : Value}

theorem of_eq (equal : left = right) : likeness.Alike left right := equal ▸ likeness.refl left

theorem bare (alike : likeness.Alike left right) : left.bare = right.bare := by
  cases likeness with
  | same => exact congrArg Value.bare alike
  | contents => exact alike

theorem content (alike : likeness.Alike left right) : left.content = right.content := by
  rw [← Value.content_bare left, alike.bare, Value.content_bare]

theorem get (alike : likeness.Alike left right) (key : String) :
    likeness.Alike (left.get key) (right.get key) := by
  cases likeness with
  | same => exact congrArg (Value.get · key) alike
  | contents =>
    change (left.get key).bare = (right.get key).bare
    rw [← Value.get_bare, ← Value.get_bare]
    exact congrArg (Value.get · key) alike

theorem truthy (alike : likeness.Alike left right) : left.truthy = right.truthy := by
  rw [← Value.truthy_bare left, alike.bare, Value.truthy_bare]

theorem isEmpty (alike : likeness.Alike left right) (keyFor : KeyFor) :
    (Pass.ofValue keyFor left).map List.isEmpty = (Pass.ofValue keyFor right).map List.isEmpty := by
  rw [← Pass.isEmpty_ofValue_bare, alike.bare, Pass.isEmpty_ofValue_bare]

/-- Maps of alike arguments are alike, each with a storage of its own. -/
theorem ofPairs {lefts rights : List (String × Value)}
    (alike : List.Forall₂ (fun left right => left.1 = right.1 ∧ likeness.Alike left.2 right.2)
      lefts rights) (storage other : Storage) :
    Likeness.contents.Alike (.map storage (Entries.ofPairs lefts)) (.map other (Entries.ofPairs rights)) := by
  have entries : lefts.map (Prod.map id Value.bare) = rights.map (Prod.map id Value.bare) := by
    induction alike with
    | nil => rfl
    | cons head tail ih =>
      rw [List.map_cons, List.map_cons, ih]
      exact congrArg (· :: _) (Prod.ext head.1 head.2.bare)
  change Value.map 0 _ = Value.map 0 _
  rw [Value.bareEntries_eq_map, Value.bareEntries_eq_map, Entries.ofPairs_map, entries,
    Entries.ofPairs_map]

end Alike

end Likeness

end LiveTemplate
