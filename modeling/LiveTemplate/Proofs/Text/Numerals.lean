import Mathlib.Data.List.TakeWhile
import LiveTemplate.Proofs.Text.Rounding

/-!
What the texts of numbers stand for. A numeral is read as a sign, digits, and places after a point. Wherever
the point of a row of digits stands, its text stands for the same number, and a candidate on a grid is written
as the number that it is.
-/

namespace LiveTemplate.Decimal

/-! Reading -/

/-- What digits with at most one point among them stand for. -/
def unsigned (text : List Char) : ℚ :=
  let places := (text.dropWhile (· ≠ '.')).drop 1
  (Nat.ofDigitChars 10 (text.takeWhile (· ≠ '.') ++ places) 0 : ℚ) / 10 ^ places.length

def reading : List Char → ℚ
  | '-' :: text => -unsigned text
  | text => unsigned text

/-- A text of nothing but digits, points and signs. -/
def IsNumeral (text : List Char) : Prop :=
  ∀ char ∈ text, char.isDigit = true ∨ char = '.' ∨ char = '-'

theorem unsigned_whole {text : List Char} (whole : '.' ∉ text) :
    unsigned text = (Nat.ofDigitChars 10 text 0 : ℚ) := by
  have all : ∀ char ∈ text, decide (char ≠ '.') = true := by
    intro char member
    exact decide_eq_true fun same => whole (same ▸ member)
  unfold unsigned
  dsimp only
  rw [List.takeWhile_eq_self_iff.mpr all, List.dropWhile_eq_nil_iff.mpr all]
  simp

theorem unsigned_places {whole : List Char} (point : '.' ∉ whole) (places : List Char) :
    unsigned (whole ++ '.' :: places) =
      (Nat.ofDigitChars 10 (whole ++ places) 0 : ℚ) / 10 ^ places.length := by
  have all : ∀ char ∈ whole, decide (char ≠ '.') = true := by
    intro char member
    exact decide_eq_true fun same => point (same ▸ member)
  unfold unsigned
  rw [List.takeWhile_append_of_pos all, List.dropWhile_append_of_pos all]
  simp

theorem reading_of_head {text : List Char} (unsigned' : '-' ∉ text) : reading text = unsigned text := by
  unfold reading
  split
  · exact absurd List.mem_cons_self unsigned'
  · rfl

/-! Writing -/

/-- The value of a row of digits whose point is given. -/
def Digits.value (d : Digits) : ℚ :=
  (Nat.ofDigitChars 10 d.digits 0 : ℚ) * 10 ^ (d.point - d.digits.length)

theorem zeros_digits (count : Int) : ∀ char ∈ zeros count, char.isDigit = true := by
  intro char member
  rw [List.eq_of_mem_replicate member]
  rfl

theorem not_point_of_digit {text : List Char} (digits : ∀ char ∈ text, char.isDigit = true) :
    '.' ∉ text := fun member => Bool.false_ne_true (digits '.' member)

/-- Wherever the point stands, the text stands for the value. -/
theorem positional_value {d : Digits} (digits : ∀ char ∈ d.digits, char.isDigit = true) :
    unsigned (d.positional "").toList = d.value := by
  have point := not_point_of_digit digits
  unfold Digits.positional Digits.value
  split
  · rename_i before
    have exponent : d.point - d.digits.length =
        -(((zeros (-d.point) ++ d.digits).length : Nat) : Int) := by
      rw [List.length_append, zeros, List.length_replicate]
      omega
    have text : '0' :: '.' :: zeros (-d.point) ++ d.digits =
        ['0'] ++ '.' :: (zeros (-d.point) ++ d.digits) := rfl
    rw [String.toList_ofList, text, unsigned_places (by simp), exponent, zpow_neg, zpow_natCast,
      div_eq_mul_inv, ← List.append_assoc, Nat.ofDigitChars_append, Nat.ofDigitChars_append, zeros,
      show Nat.ofDigitChars 10 ['0'] 0 = 0 from rfl, Nat.ofDigitChars_replicate_zero, Nat.mul_zero]
  · split
    · rename_i whole
      have exponent : d.point - d.digits.length = ((d.point - d.digits.length).toNat : Int) := by omega
      have plain : '.' ∉ d.digits ++ zeros (d.point - d.digits.length) := by
        rw [List.mem_append, not_or]
        exact ⟨point, not_point_of_digit (zeros_digits _)⟩
      rw [String.append_empty, String.toList_ofList, unsigned_whole plain, Nat.ofDigitChars_append,
        zeros, Nat.ofDigitChars_replicate_zero, exponent, zpow_natCast, Int.toNat_natCast]
      push_cast
      ring
    · rename_i inside
      have exponent : d.point - d.digits.length =
          -(((d.digits.drop d.point.toNat).length : Nat) : Int) := by
        rw [List.length_drop]
        omega
      rw [String.toList_ofList, unsigned_places (fun member => point (List.mem_of_mem_take member)),
        List.take_append_drop, exponent, zpow_neg, zpow_natCast, div_eq_mul_inv]

theorem positional_digits {d : Digits} (digits : ∀ char ∈ d.digits, char.isDigit = true) :
    ∀ char ∈ (d.positional "").toList, char.isDigit = true ∨ char = '.' := by
  intro char member
  unfold Digits.positional at member
  split at member
  · rw [String.toList_ofList] at member
    simp only [List.cons_append, List.mem_cons, List.mem_append] at member
    rcases member with rfl | rfl | zero | digit
    · exact .inl rfl
    · exact .inr rfl
    · exact .inl (zeros_digits _ char zero)
    · exact .inl (digits char digit)
  · split at member
    · rw [String.append_empty, String.toList_ofList, List.mem_append] at member
      exact .inl (member.elim (digits char) (zeros_digits _ char))
    · rw [String.toList_ofList, List.mem_append, List.mem_cons] at member
      rcases member with before | rfl | after
      · exact .inl (digits char (List.mem_of_mem_take before))
      · exact .inr rfl
      · exact .inl (digits char (List.mem_of_mem_drop after))

/-- The digits are those of the candidate without the zeros at its end. -/
theorem ofGrid_eq (candidate : Nat) (grid : Int) : ∃ count,
    Nat.toDigits 10 candidate =
      (Digits.ofGrid candidate grid).digits ++ List.replicate count '0' ∧
    (Digits.ofGrid candidate grid).point =
      grid + ((Digits.ofGrid candidate grid).digits.length + count : Nat) := by
  have written : (toString candidate).toList = Nat.toDigits 10 candidate := Nat.toList_repr
  unfold Digits.ofGrid
  dsimp only
  rw [written]
  generalize Nat.toDigits 10 candidate = digits
  have zeros : digits.reverse.takeWhile (· = '0') =
      List.replicate (digits.reverse.takeWhile (· = '0')).length '0' :=
    List.eq_replicate_iff.mpr ⟨rfl, fun char member => by simpa using List.mem_takeWhile_imp member⟩
  have parts : digits = (digits.reverse.dropWhile (· = '0')).reverse ++
      List.replicate (digits.reverse.takeWhile (· = '0')).length '0' := by
    rw [← List.reverse_replicate, ← zeros, ← List.reverse_append, List.takeWhile_append_dropWhile,
      List.reverse_reverse]
  refine ⟨_, parts, ?_⟩
  have length := congrArg List.length parts
  rw [List.length_append, List.length_replicate] at length
  rw [← length]

theorem ofGrid_digits (candidate : Nat) (grid : Int) :
    ∀ char ∈ (Digits.ofGrid candidate grid).digits, char.isDigit = true := by
  obtain ⟨count, digits, -⟩ := ofGrid_eq candidate grid
  intro char member
  refine Nat.isDigit_of_mem_toDigits (b := 10) (n := candidate) (by decide) (by decide) ?_
  rw [digits]
  exact List.mem_append_left _ member

theorem ofGrid_value (candidate : Nat) (grid : Int) :
    (Digits.ofGrid candidate grid).value = candidate * 10 ^ grid := by
  obtain ⟨count, digits, point⟩ := ofGrid_eq candidate grid
  have number : candidate = 10 ^ count * Nat.ofDigitChars 10 (Digits.ofGrid candidate grid).digits 0 := by
    rw [← Nat.ofDigitChars_replicate_zero, ← Nat.ofDigitChars_append, ← digits,
      Nat.ofDigitChars_ten_toDigits]
  have exponent : (Digits.ofGrid candidate grid).point - (Digits.ofGrid candidate grid).digits.length =
      grid + count := by
    rw [point]
    push_cast
    ring
  unfold Digits.value
  rw [exponent, zpow_add₀ (by norm_num), zpow_natCast]
  nth_rewrite 2 [number]
  push_cast
  ring

end LiveTemplate.Decimal
