import LiveTemplate.Proofs.Text.Numerals
import LiveTemplate.Proofs.Value.Equality
import LiveTemplate.Value.Text

/-!
The text of a double tells which double it is. Written without an exponent it stands for a number that
rounding takes to the double, and rounding takes no number to two doubles that differ. So doubles with
one text are equal, unless they are the NaN, and an integer equals the doubles that have its text.
-/

namespace LiveTemplate.Decimal

/-- The low bits of a double count the magnitudes. -/
def index (number : Float) : Nat := number.toBits.toNat % 2 ^ 63

def negative (number : Float) : Bool := number.toBits >>> 63 != 0

/-- Rounding takes the number to the double. -/
def RoundsTo (exact : ℚ) (number : Float) : Prop :=
  if exact = 0 then index number = 0
  else number.isFinite = true ∧ (negative number = true ↔ exact < 0) ∧
    (Binary.ofIndex (index number)).Takes |exact|

variable {number other : Float}

theorem float_ext (same : number.toBits = other.toBits) : number = other := by
  obtain ⟨model⟩ := number
  obtain ⟨model'⟩ := other
  obtain ⟨bits, valid⟩ := model
  obtain ⟨bits', valid'⟩ := model'
  change bits = bits' at same
  subst same
  rfl

theorem negative_iff : negative number = true ↔ 2 ^ 63 ≤ number.toBits.toNat := by
  have shifted : (number.toBits >>> 63).toNat = number.toBits.toNat / 2 ^ 63 := by
    rw [UInt64.toNat_shiftRight]
    exact Nat.shiftRight_eq_div_pow _ _
  unfold negative
  rw [bne_iff_ne, ne_eq, ← UInt64.toNat_inj, shifted, UInt64.toNat_zero]
  omega

theorem index_eq_zero : (number.toBits <<< 1 == 0) = true ↔ index number = 0 := by
  have shifted : (number.toBits <<< 1).toNat = number.toBits.toNat * 2 % 2 ^ 64 := by
    rw [UInt64.toNat_shiftLeft]
    exact congrArg (· % 2 ^ 64) (Nat.shiftLeft_eq _ 1)
  unfold index
  rw [beq_iff_eq, ← UInt64.toNat_inj, shifted, UInt64.toNat_zero]
  omega

/-- Sign and magnitude are all of a double. -/
theorem eq_of_index (magnitude : index number = index other)
    (sign : negative number = true ↔ negative other = true) : number = other := by
  refine float_ext (UInt64.toNat_inj.mp ?_)
  rw [negative_iff, negative_iff] at sign
  have bound := number.toBits.toNat_lt
  have bound' := other.toBits.toNat_lt
  unfold index at magnitude
  omega

theorem zeros_beq (zero : index number = 0) (zero' : index other = 0) : (number == other) = true := by
  have either : ∀ {number : Float}, index number = 0 →
      number = Float.ofBits 0 ∨ number = Float.ofBits 0x8000000000000000 := by
    intro number zero
    by_cases sign : negative number = true
    · exact .inr (eq_of_index zero (iff_of_true sign (by decide)))
    · exact .inl (eq_of_index zero (iff_of_false sign (by decide)))
  rcases either zero with rfl | rfl <;> rcases either zero' with rfl | rfl <;> decide

theorem isNaN_of_isFinite (finite : number.isFinite = true) : number.isNaN = false := by
  change number.toModel.unpack.isFinite = true at finite
  change number.toModel.unpack.isNaN = false
  cases shape : number.toModel.unpack with
  | notANumber =>
    rw [shape] at finite
    cases finite
  | infinity sign => rfl
  | zero sign => rfl
  | finite sign mantissa exponent positive => rfl

theorem isFinite_of_not (nan : number.isNaN = false) (infinite : number.isInf = false) :
    number.isFinite = true := by
  change number.toModel.unpack.isNaN = false at nan
  change number.toModel.unpack.isInf = false at infinite
  change number.toModel.unpack.isFinite = true
  cases shape : number.toModel.unpack with
  | notANumber =>
    rw [shape] at nan
    cases nan
  | infinity sign =>
    rw [shape] at infinite
    cases infinite
  | zero sign => rfl
  | finite sign mantissa exponent positive => rfl

/-- Doubles that one number is rounded to are equal. -/
theorem RoundsTo.beq {exact : ℚ} (one : RoundsTo exact number) (two : RoundsTo exact other) :
    (number == other) = true := by
  unfold RoundsTo at one two
  split at one
  · rw [if_pos (by assumption)] at two
    exact zeros_beq one two
  · rw [if_neg (by assumption)] at two
    obtain ⟨finite, sign, takes⟩ := one
    obtain ⟨-, sign', takes'⟩ := two
    obtain rfl := eq_of_index (takes.unique takes') (sign.trans sign'.symm)
    exact float_beq_self number (isNaN_of_isFinite finite)

theorem isNearest_iff (value : Int) : isNearest number value = true ↔ RoundsTo value number := by
  unfold isNearest RoundsTo
  dsimp only
  by_cases zero : value = 0
  · rw [if_pos zero, if_pos (by exact_mod_cast zero), index_eq_zero]
  · have magnitude : |(value : ℚ)| = (value.natAbs : ℚ) * 10 ^ (0 : Int) := by
      rw [zpow_zero, mul_one, Nat.cast_natAbs, Int.cast_abs]
    have sign : (negative number == decide (value < 0)) = true ↔
        (negative number = true ↔ (value : ℚ) < 0) := by
      rw [beq_iff_eq, Bool.eq_iff_iff, decide_eq_true_iff, Int.cast_lt_zero]
    rw [if_neg zero, if_neg (by exact_mod_cast zero), Bool.and_eq_true, Bool.and_eq_true, ← negative,
      sign, Binary.readsBack_iff, Binary.ofBits_eq, magnitude, ← index, and_assoc]

/-! The text of a double -/

theorem takes_pos {magnitude : Nat} (nonzero : magnitude ≠ 0) {exact : ℚ}
    (takes : (Binary.ofIndex magnitude).Takes exact) : 0 < exact := by
  have positive := (Binary.isDouble_ofIndex nonzero).positive
  have least : 0 < 4 * (Binary.ofIndex magnitude).mantissa -
      (if (Binary.ofIndex magnitude).lowerEnd then 1 else 2) := by
    split <;> omega
  refine lt_of_lt_of_le ?_ takes.above
  unfold Binary.lower
  have least' : (0 : ℚ) < (4 * (Binary.ofIndex magnitude).mantissa -
      (if (Binary.ofIndex magnitude).lowerEnd then 1 else 2) : Nat) := by exact_mod_cast least
  positivity

/-- The text of a magnitude, behind a minus if the double is negative, stands for a number that
rounding takes to the double. -/
theorem signed_roundsTo {text : List Char} {exact : ℚ}
    (chars : ∀ char ∈ text, char.isDigit = true ∨ char = '.') (value : unsigned text = exact)
    (finite : number.isFinite = true) (positive : 0 < exact)
    (back : (Binary.ofIndex (index number)).Takes exact) :
    IsNumeral (if negative number = true then '-' :: text else text) ∧
      RoundsTo (reading (if negative number = true then '-' :: text else text)) number := by
  by_cases sign : negative number = true
  · have negated : reading ('-' :: text) = -exact := congrArg Neg.neg value
    rw [if_pos sign, negated, RoundsTo, if_neg (neg_ne_zero.mpr positive.ne'), abs_neg,
      abs_of_pos positive]
    refine ⟨?_, finite, iff_of_true sign (neg_neg_of_pos positive), back⟩
    intro char member
    rcases List.mem_cons.mp member with rfl | member
    · exact .inr (.inr rfl)
    · exact (chars char member).imp_right .inl
  · have minus : '-' ∉ text := fun member => by
      rcases chars '-' member with digit | point
      · cases digit
      · cases point
    rw [if_neg sign, reading_of_head minus, value, RoundsTo, if_neg positive.ne',
      abs_of_pos positive]
    exact ⟨fun char member => (chars char member).imp_right .inl, finite,
      iff_of_false sign positive.not_gt, back⟩

/-- The texts of doubles but the NaN and the infinities are numerals, and stand for numbers that
rounding takes to the doubles. -/
theorem write_finite (nan : number.isNaN = false) (infinite : number.isInf = false) :
    IsNumeral (write Value.contentFormat number).toList ∧
      RoundsTo (reading (write Value.contentFormat number).toList) number := by
  unfold write
  dsimp only
  rw [nan, infinite, ← negative, if_neg Bool.false_ne_true, if_neg Bool.false_ne_true]
  split
  · rename_i zero
    have text : (if negative number = true then Value.contentFormat.negativeZero
        else "0" ++ Value.contentFormat.wholeMark) = "0" := by split <;> rfl
    have value : reading ['0'] = 0 := by
      rw [reading_of_head (by decide), unsigned_whole (by decide)]
      rfl
    rw [text]
    refine ⟨?_, ?_⟩
    · intro char member
      obtain rfl := List.mem_singleton.mp member
      exact .inl rfl
    · change RoundsTo (reading ['0']) number
      rw [value, RoundsTo, if_pos rfl]
      exact index_eq_zero.mp zero
  · rename_i nonzero
    rw [index_eq_zero] at nonzero
    obtain ⟨candidate, grid, digits, back⟩ :=
      Binary.shortest_readsBack nonzero Value.contentFormat.tie
    rw [Binary.readsBack_iff] at back
    have plain := ofGrid_digits candidate grid
    have value : unsigned ((Digits.ofGrid candidate grid).positional "").toList =
        candidate * 10 ^ grid := (positional_value plain).trans (ofGrid_value candidate grid)
    have shown := signed_roundsTo (positional_digits plain) value (isFinite_of_not nan infinite)
      (takes_pos nonzero back) back
    have layOut : (Digits.ofGrid candidate grid).layOut Value.contentFormat =
        (Digits.ofGrid candidate grid).positional "" := rfl
    rw [Binary.ofBits_eq, ← index, digits, layOut, String.toList_append]
    by_cases sign : negative number = true
    · rw [if_pos sign] at shown ⊢
      exact shown
    · rw [if_neg sign] at shown ⊢
      exact shown

/-! Infinities -/

section

open Float.Model UnpackedFloat

theorem index_of_isInf (infinite : number.isInf = true) : index number = 0x7ff * 2 ^ 52 := by
  let bits := number.toBits.toBitVec
  have parts : @unpackExponent Format.binary64 bits = -1#_ ∧
      @unpackMantissa Format.binary64 bits = 0#_ := by
    change (UnpackedFloat.unpack Format.binary64 bits).isInf = true at infinite
    unfold UnpackedFloat.unpack at infinite
    dsimp only at infinite
    by_cases full : @unpackExponent Format.binary64 bits = -1#_
    · rw [if_pos full] at infinite
      by_cases blank : @unpackMantissa Format.binary64 bits = 0#_
      · exact ⟨full, blank⟩
      · rw [if_neg blank] at infinite
        cases infinite
    · rw [if_neg full] at infinite
      by_cases low : @unpackExponent Format.binary64 bits = 0#_
      · rw [if_pos low] at infinite
        by_cases blank : @unpackMantissa Format.binary64 bits = 0#_
        · rw [dif_pos blank] at infinite
          cases infinite
        · rw [dif_neg blank] at infinite
          cases infinite
      · rw [if_neg low] at infinite
        cases infinite
  have exponent := congrArg BitVec.toNat parts.1
  have mantissa := congrArg BitVec.toNat parts.2
  simp [unpackExponent, unpackMantissa, bits] at exponent mantissa
  rw [Nat.shiftRight_eq_div_pow] at exponent
  unfold index
  omega

end

/-- What the text of a double says: a word for the NaN and the infinities, and a numeral for all others. -/
theorem write_cases (number : Float) :
    (number.isNaN = true ∧ write Value.contentFormat number = "NaN") ∨
    (number.isNaN = false ∧ number.isInf = true ∧ write Value.contentFormat number =
      if negative number then "-Infinity" else "Infinity") ∨
    (IsNumeral (write Value.contentFormat number).toList ∧
      RoundsTo (reading (write Value.contentFormat number).toList) number) := by
  cases nan : number.isNaN with
  | true =>
    refine .inl ⟨rfl, ?_⟩
    unfold write
    rw [nan, if_pos rfl]
    rfl
  | false =>
    cases infinite : number.isInf with
    | true =>
      refine .inr (.inl ⟨rfl, rfl, ?_⟩)
      unfold write
      rw [nan, infinite, if_neg Bool.false_ne_true, if_pos rfl]
      rfl
    | false => exact .inr (.inr (write_finite nan infinite))

theorem not_isNumeral_of_mem {text : String} {char : Char} (member : char ∈ text.toList)
    (odd : char.isDigit = false ∧ char ≠ '.' ∧ char ≠ '-') : ¬IsNumeral text.toList := by
  intro numeral
  rcases numeral char member with digit | point | minus
  · rw [odd.1] at digit
    cases digit
  · exact odd.2.1 point
  · exact odd.2.2 minus

theorem not_isNumeral_nan : ¬IsNumeral "NaN".toList :=
  not_isNumeral_of_mem (by decide : 'N' ∈ _) (by decide)

theorem not_isNumeral_infinity (sign : Bool) :
    ¬IsNumeral (if sign then "-Infinity" else "Infinity").toList := by
  cases sign
  · exact not_isNumeral_of_mem (by decide : 'I' ∈ _) (by decide)
  · exact not_isNumeral_of_mem (by decide : 'I' ∈ _) (by decide)

theorem roundsTo_of_isNumeral (numeral : IsNumeral (write Value.contentFormat number).toList) :
    RoundsTo (reading (write Value.contentFormat number).toList) number := by
  rcases write_cases number with ⟨-, text⟩ | ⟨-, -, text⟩ | ⟨-, rounds⟩
  · rw [text] at numeral
    exact absurd numeral not_isNumeral_nan
  · rw [text] at numeral
    exact absurd numeral (not_isNumeral_infinity _)
  · exact rounds

/-- Doubles with one text are equal, unless they are the NaN. -/
theorem write_injective (same : write Value.contentFormat number = write Value.contentFormat other) :
    (number.isNaN = true ∧ other.isNaN = true) ∨ (number == other) = true := by
  by_cases numeral : IsNumeral (write Value.contentFormat number).toList
  · have rounds := roundsTo_of_isNumeral numeral
    rw [same] at numeral rounds
    exact .inr (rounds.beq (roundsTo_of_isNumeral numeral))
  · have numeral' := same ▸ numeral
    have apart : ∀ sign : Bool, (if sign then "-Infinity" else "Infinity") ≠ "NaN" := by decide
    have words : ∀ sign sign' : Bool, (if sign then "-Infinity" else "Infinity") =
        (if sign' then "-Infinity" else "Infinity") → sign = sign' := by decide
    rcases write_cases number with ⟨nan, text⟩ | ⟨known, infinite, text⟩ | ⟨number, -⟩
    · rcases write_cases other with ⟨nan', -⟩ | ⟨-, -, text'⟩ | ⟨number', -⟩
      · exact .inl ⟨nan, nan'⟩
      · exact absurd (text'.symm.trans (same.symm.trans text)) (apart _)
      · exact absurd number' numeral'
    · rcases write_cases other with ⟨-, text'⟩ | ⟨-, infinite', text'⟩ | ⟨number', -⟩
      · exact absurd (text.symm.trans (same.trans text')) (apart _)
      · have sign := words _ _ (text.symm.trans (same.trans text'))
        obtain rfl := eq_of_index ((index_of_isInf infinite).trans (index_of_isInf infinite').symm)
          (iff_of_eq (congrArg (· = true) sign))
        exact .inr (float_beq_self _ known)
      · exact absurd number' numeral'
    · exact absurd number numeral

/-! The text of an integer -/

theorem reading_toString (value : Int) :
    IsNumeral (toString value).toList ∧ reading (toString value).toList = value := by
  have digits : ∀ natural : Nat, ∀ char ∈ natural.repr.toList, char.isDigit = true := by
    intro natural char member
    rw [Nat.toList_repr] at member
    exact Nat.isDigit_of_mem_toDigits (by decide) (by decide) member
  have value' : ∀ natural : Nat, unsigned natural.repr.toList = natural := by
    intro natural
    rw [unsigned_whole (not_point_of_digit (digits natural)), Nat.toList_repr,
      Nat.ofDigitChars_ten_toDigits]
  cases value with
  | ofNat natural =>
    change IsNumeral natural.repr.toList ∧ reading natural.repr.toList = _
    refine ⟨fun char member => .inl (digits natural char member), ?_⟩
    rw [reading_of_head fun member => Bool.false_ne_true (digits natural '-' member), value']
    rfl
  | negSucc natural =>
    change IsNumeral ("-" ++ (natural + 1).repr).toList ∧ reading ("-" ++ (natural + 1).repr).toList = _
    rw [String.toList_append]
    refine ⟨?_, ?_⟩
    · intro char member
      rcases List.mem_cons.mp member with rfl | member
      · exact .inr (.inr rfl)
      · exact .inl (digits _ char member)
    · change -unsigned (natural + 1).repr.toList = _
      rw [value', Int.cast_negSucc]

/-- An integer and a double with one text are equal. -/
theorem isNearest_of_text {value : Int} (same : toString value = write Value.contentFormat number) :
    isNearest number value = true := by
  obtain ⟨numeral, stands⟩ := reading_toString value
  rw [same] at numeral stands
  have rounds := roundsTo_of_isNumeral numeral
  rw [stands] at rounds
  exact (isNearest_iff value).mpr rounds

end LiveTemplate.Decimal
