import LiveTemplate.Proofs.Text.Doubles

/-!
What the items of a list are told apart by, if the template names no key. Values that change detection takes
for unequal have keys that differ, with two exceptions: the NaN is unequal to itself but has one text, and
a text may spell the key of a value that is no text.
-/

namespace LiveTemplate

open Decimal

namespace Value

/-- The word that is the key of a value which shows nothing, or of a boolean. -/
def word? : Value → Option String
  | undefined => some "undefined"
  | null => some "null"
  | bool value => some (toString value)
  | int _ | float _ | text _ | list .. | map .. => none

/-- Values whose key is a text that they do not hold. -/
inductive Scalar : Value → Prop
  | word {value : Value} {word : String} (found : value.word? = some word) : Scalar value
  | int (value : Int64) : Scalar (int value)
  | float (value : Float) : Scalar (float value)

/-- One key for two values that are not equal. -/
inductive Clashes : Value → Value → Prop
  | nan {left right : Float} (one : left.isNaN = true) (two : right.isNaN = true) :
      Clashes (float left) (float right)
  | spells {content : String} {value : Value} (scalar : value.Scalar)
      (spelled : value.identity = .text content) : Clashes (text content) value
  | spelt {content : String} {value : Value} (scalar : value.Scalar)
      (spelled : value.identity = .text content) : Clashes value (text content)

variable {left right : Value} {word : String}

theorem identity_of_word? (found : left.word? = some word) : left.identity = .text word := by
  cases left <;> cases found <;> rfl

theorem word?_cases (found : left.word? = some word) :
    left = undefined ∧ word = "undefined" ∨ left = null ∧ word = "null" ∨
      left = bool true ∧ word = "true" ∨ left = bool false ∧ word = "false" := by
  cases left with
  | undefined => exact .inl ⟨rfl, (Option.some.inj found).symm⟩
  | null => exact .inr (.inl ⟨rfl, (Option.some.inj found).symm⟩)
  | bool value =>
    cases value with
    | true => exact .inr (.inr (.inl ⟨rfl, (Option.some.inj found).symm⟩))
    | false => exact .inr (.inr (.inr ⟨rfl, (Option.some.inj found).symm⟩))
  | _ => cases found

theorem word?_same (found : left.word? = some word) (found' : right.word? = some word) :
    left.same right = true := by
  rcases word?_cases found with ⟨rfl, rfl⟩ | ⟨rfl, rfl⟩ | ⟨rfl, rfl⟩ | ⟨rfl, rfl⟩ <;>
    rcases word?_cases found' with ⟨rfl, shared⟩ | ⟨rfl, shared⟩ | ⟨rfl, shared⟩ | ⟨rfl, shared⟩ <;>
    first | rfl | exact absurd shared (by decide)

/-- The words are no numerals, and not what the NaN and the infinities are written as. -/
theorem word?_odd (found : left.word? = some word) :
    ¬IsNumeral word.toList ∧ word ≠ "NaN" ∧
      ∀ sign : Bool, word ≠ if sign then "-Infinity" else "Infinity" := by
  rcases word?_cases found with ⟨-, rfl⟩ | ⟨-, rfl⟩ | ⟨-, rfl⟩ | ⟨-, rfl⟩
  · exact ⟨not_isNumeral_of_mem (by decide : 'u' ∈ _) (by decide), by decide, by decide⟩
  · exact ⟨not_isNumeral_of_mem (by decide : 'u' ∈ _) (by decide), by decide, by decide⟩
  · exact ⟨not_isNumeral_of_mem (by decide : 'u' ∈ _) (by decide), by decide, by decide⟩
  · exact ⟨not_isNumeral_of_mem (by decide : 'f' ∈ _) (by decide), by decide, by decide⟩

theorem word?_ne_float (found : left.word? = some word) (number : Float) :
    write contentFormat number ≠ word := by
  obtain ⟨odd, nan, infinity⟩ := word?_odd found
  intro text
  rcases write_cases number with ⟨-, text'⟩ | ⟨-, -, text'⟩ | ⟨numeral, -⟩
  · exact nan (text.symm.trans text')
  · exact infinity _ (text.symm.trans text')
  · exact odd (text ▸ numeral)

theorem word?_ne_int (found : left.word? = some word) (value : Int) : toString value ≠ word :=
  fun text => (word?_odd found).1 (text ▸ (reading_toString value).1)

/-- Scalars with one key are equal, unless they are the NaN. -/
theorem Scalar.same_or_clash (one : left.Scalar) (two : right.Scalar)
    (shared : left.identity = right.identity) : left.same right = true ∨ left.Clashes right := by
  cases one with
  | word found =>
    rw [identity_of_word? found] at shared
    cases two with
    | word found' =>
      rw [identity_of_word? found'] at shared
      cases shared
      exact .inl (word?_same found found')
    | int value => exact absurd (Key.text.inj shared).symm (word?_ne_int found _)
    | float number => exact absurd (Key.text.inj shared).symm (word?_ne_float found _)
  | int value =>
    cases two with
    | word found =>
      rw [identity_of_word? found] at shared
      exact absurd (Key.text.inj shared) (word?_ne_int found _)
    | int value' =>
      have integers : (value.toInt : ℚ) = value'.toInt := by
        rw [← (reading_toString value.toInt).2, ← (reading_toString value'.toInt).2]
        exact congrArg (fun text : String => reading text.toList) (Key.text.inj shared)
      obtain rfl := Int64.toInt_inj.mp (by exact_mod_cast integers)
      exact .inl (beq_self_eq_true value)
    | float number => exact .inl (isNearest_of_text (Key.text.inj shared))
  | float number =>
    cases two with
    | word found =>
      rw [identity_of_word? found] at shared
      exact absurd (Key.text.inj shared) (word?_ne_float found _)
    | int value => exact .inl (isNearest_of_text (Key.text.inj shared).symm)
    | float number' =>
      rcases write_injective (Key.text.inj shared) with ⟨nan, nan'⟩ | equal
      · exact .inr (.nan nan nan')
      · exact .inl equal

/-- Every value is a text, a list, a map or a scalar. -/
theorem scalar_cases (value : Value) : (∃ content, value = text content) ∨
    (∃ storage items, value = list storage items) ∨ (∃ storage entries, value = map storage entries) ∨
      value.Scalar := by
  cases value with
  | undefined => exact .inr (.inr (.inr (.word rfl)))
  | null => exact .inr (.inr (.inr (.word rfl)))
  | bool value => exact .inr (.inr (.inr (.word rfl)))
  | int value => exact .inr (.inr (.inr (.int value)))
  | float value => exact .inr (.inr (.inr (.float value)))
  | text content => exact .inl ⟨content, rfl⟩
  | list storage items => exact .inr (.inl ⟨storage, items, rfl⟩)
  | map storage entries => exact .inr (.inr (.inl ⟨storage, entries, rfl⟩))

theorem Scalar.identity_text (scalar : left.Scalar) : ∃ content, left.identity = .text content := by
  cases scalar with
  | word found => exact ⟨_, identity_of_word? found⟩
  | int value => exact ⟨_, rfl⟩
  | float value => exact ⟨_, rfl⟩

/-- Values with one key are equal, or they clash. -/
theorem same_or_clash (shared : left.identity = right.identity) :
    left.same right = true ∨ left.Clashes right := by
  rcases scalar_cases left with ⟨content, rfl⟩ | ⟨storage, items, rfl⟩ | ⟨storage, entries, rfl⟩ | one <;>
    rcases scalar_cases right with ⟨content', rfl⟩ | ⟨storage', items', rfl⟩ |
      ⟨storage', entries', rfl⟩ | two
  · cases shared
    exact .inl (beq_self_eq_true content)
  · cases shared
  · cases shared
  · exact .inr (.spells two shared.symm)
  · cases shared
  · cases shared
    exact .inl (by simp [same])
  · cases shared
  · obtain ⟨content', spelled⟩ := two.identity_text
    cases shared.trans spelled
  · cases shared
  · cases shared
  · cases shared
    exact .inl (by simp [same])
  · obtain ⟨content', spelled⟩ := two.identity_text
    cases shared.trans spelled
  · exact .inr (.spelt one shared)
  · obtain ⟨content, spelled⟩ := one.identity_text
    cases spelled.symm.trans shared
  · obtain ⟨content, spelled⟩ := one.identity_text
    cases spelled.symm.trans shared
  · exact one.same_or_clash two shared

/-- Unequal values have one key exactly if they clash. -/
theorem identity_eq_iff (unequal : left.same right = false) :
    left.identity = right.identity ↔ left.Clashes right := by
  constructor
  · intro shared
    refine (same_or_clash shared).resolve_left fun equal => ?_
    rw [unequal] at equal
    cases equal
  · intro clash
    cases clash with
    | nan one two =>
      have text : ∀ {number : Float}, number.isNaN = true → write contentFormat number = "NaN" := by
        intro number nan
        unfold write
        rw [nan, if_pos rfl]
        rfl
      exact congrArg Key.text ((text one).trans (text two).symm)
    | spells scalar spelled => exact spelled.symm
    | spelt scalar spelled => exact spelled

end Value

end LiveTemplate
