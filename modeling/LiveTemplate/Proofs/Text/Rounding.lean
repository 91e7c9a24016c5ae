import Mathlib.Algebra.Order.Field.Power
import Mathlib.Algebra.Order.Ring.Cast
import Mathlib.Data.Nat.Cast.Order.Field
import Mathlib.Data.Rat.Cast.Order
import Mathlib.Order.Compare
import Mathlib.Tactic.FieldSimp
import Mathlib.Tactic.Linarith
import Mathlib.Tactic.NormNum
import Mathlib.Tactic.Positivity
import Mathlib.Tactic.Ring
import LiveTemplate.Text.Decimal

/-!
Which decimals read back as which double. The magnitudes of doubles are counted by their low 63 bits, and
the decimals that read back as one of them fill the space between two bounds. The upper bound of each is
the lower bound of the next, and of two neighbours only the one with the even mantissa takes in the bound
between them; so no decimal reads back as two. Any grid that is fine enough for seventeen digits has a point
that reads back.
-/

namespace LiveTemplate.Decimal

/-! Exact comparison -/

theorem scale_value (numerator : Nat) (exponent : Int) :
    0 < (scale numerator exponent).2 ∧
      ((scale numerator exponent).1 : ℚ) / (scale numerator exponent).2 = numerator * 2 ^ exponent := by
  have parts : (exponent.toNat : Int) - (-exponent).toNat = exponent := by omega
  refine ⟨by simp [scale, Nat.shiftLeft_eq], ?_⟩
  have powers : (2 : ℚ) ^ exponent = 2 ^ exponent.toNat / 2 ^ (-exponent).toNat := by
    rw [← zpow_natCast, ← zpow_natCast, ← zpow_sub₀ two_ne_zero, parts]
  simp [scale, Nat.shiftLeft_eq, powers, mul_div_assoc]

/-- Candidates are compared as rationals. -/
theorem compareGrid_eq (candidate : Nat) (grid : Int) {bound : Nat × Nat} (positive : 0 < bound.2) :
    compareGrid candidate grid bound =
      cmp ((candidate : ℚ) * 10 ^ grid) ((bound.1 : ℚ) / bound.2) := by
  have parts : (grid.toNat : Int) - (-grid).toNat = grid := by omega
  have denominator : (0 : ℚ) < bound.2 := by exact_mod_cast positive
  have common : (0 : ℚ) < bound.2 * 10 ^ (-grid).toNat := by positivity
  have powers : (10 : ℚ) ^ grid = 10 ^ grid.toNat / 10 ^ (-grid).toNat := by
    rw [← zpow_natCast, ← zpow_natCast, ← zpow_sub₀ (by norm_num), parts]
  have left : (candidate : ℚ) * 10 ^ grid * (bound.2 * 10 ^ (-grid).toNat) =
      (candidate * Nat.pow 10 grid.toNat * bound.2 : Nat) := by
    rw [powers, Nat.pow_eq]
    push_cast
    field_simp
  have right : (bound.1 : ℚ) / bound.2 * (bound.2 * 10 ^ (-grid).toNat) =
      (bound.1 * Nat.pow 10 (-grid).toNat : Nat) := by
    rw [Nat.pow_eq]
    push_cast
    field_simp
  rw [← cmp_mul_pos_right common, left, right, Nat.strictMono_cast.cmp_map_eq, cmp_eq_compare]
  rfl

namespace Binary

def value (b : Binary) : ℚ := b.mantissa * 2 ^ b.exponent

/-- The lower end of what reads back as `b`. -/
def lower (b : Binary) : ℚ := (4 * b.mantissa - (if b.lowerEnd then 1 else 2) : Nat) * 2 ^ (b.exponent - 2)

def upper (b : Binary) : ℚ := (4 * b.mantissa + 2 : Nat) * 2 ^ (b.exponent - 2)

/-- Rounding takes the number to `b`. -/
structure Takes (b : Binary) (number : ℚ) : Prop where
  above : b.lower ≤ number
  below : number ≤ b.upper
  bounds : number = b.lower ∨ number = b.upper → b.mantissa % 2 = 0

theorem lower_lt_upper (b : Binary) : b.lower < b.upper := by
  have apart : 4 * b.mantissa - (if b.lowerEnd then 1 else 2) < 4 * b.mantissa + 2 := by omega
  unfold lower upper
  gcongr

theorem readsBack_iff (b : Binary) (candidate : Nat) (grid : Int) :
    b.readsBack candidate grid = true ↔ b.Takes (candidate * 10 ^ grid) := by
  obtain ⟨lowerPositive, lowerValue⟩ :=
    scale_value (4 * b.mantissa - (if b.lowerEnd then 1 else 2)) (b.exponent - 2)
  obtain ⟨upperPositive, upperValue⟩ := scale_value (4 * b.mantissa + 2) (b.exponent - 2)
  have order := b.lower_lt_upper
  unfold readsBack
  dsimp only
  rw [compareGrid_eq _ _ lowerPositive, compareGrid_eq _ _ upperPositive, lowerValue, upperValue,
    ← lower, ← upper]
  generalize (candidate : ℚ) * 10 ^ grid = number
  rcases lt_trichotomy number b.lower with under | same | above
  · rw [(cmp_eq_lt_iff _ _).mpr under, (cmp_eq_lt_iff _ _).mpr (under.trans order)]
    exact iff_of_false Bool.false_ne_true fun takes => absurd takes.above (not_le.mpr under)
  · subst same
    rw [(cmp_eq_eq_iff _ _).mpr rfl, (cmp_eq_lt_iff _ _).mpr order, decide_eq_true_iff]
    exact ⟨fun even => ⟨le_refl _, order.le, fun _ => even⟩, fun takes => takes.bounds (.inl rfl)⟩
  · rw [(cmp_eq_gt_iff _ _).mpr above]
    rcases lt_trichotomy number b.upper with inside | same | beyond
    · rw [(cmp_eq_lt_iff _ _).mpr inside]
      exact iff_of_true rfl ⟨above.le, inside.le,
        fun ends => ends.elim (fun same => absurd same above.ne') fun same => absurd same inside.ne⟩
    · subst same
      rw [(cmp_eq_eq_iff _ _).mpr rfl, decide_eq_true_iff]
      exact ⟨fun even => ⟨order.le, le_refl _, fun _ => even⟩, fun takes => takes.bounds (.inr rfl)⟩
    · rw [(cmp_eq_gt_iff _ _).mpr beyond]
      exact iff_of_false Bool.false_ne_true fun takes => absurd takes.below (not_le.mpr beyond)

/-! Neighbours -/

/-- The magnitude of the double with these low bits. -/
def ofIndex (index : Nat) : Binary :=
  if index / 2 ^ 52 = 0 then ⟨index % 2 ^ 52, -1074, false⟩
  else ⟨index % 2 ^ 52 + 2 ^ 52, Int.ofNat (index / 2 ^ 52) - 1075,
    index % 2 ^ 52 = 0 && index / 2 ^ 52 ≠ 1⟩

theorem ofBits_eq (bits : UInt64) : ofBits bits = ofIndex (bits.toNat % 2 ^ 63) := by
  have biased : ((bits >>> 52) &&& 0x7ff).toNat = bits.toNat % 2 ^ 63 / 2 ^ 52 := by
    rw [UInt64.toNat_and, UInt64.toNat_shiftRight]
    change bits.toNat >>> 52 &&& (2 ^ 11 - 1) = _
    rw [Nat.and_two_pow_sub_one_eq_mod, Nat.shiftRight_eq_div_pow]
    omega
  have fraction : (bits &&& 0xfffffffffffff).toNat = bits.toNat % 2 ^ 63 % 2 ^ 52 := by
    rw [UInt64.toNat_and]
    change bits.toNat &&& (2 ^ 52 - 1) = _
    rw [Nat.and_two_pow_sub_one_eq_mod]
    omega
  unfold ofBits ofIndex
  dsimp only
  rw [biased, fraction]
  rfl

/-- The space of one magnitude ends where that of the next begins. -/
theorem upper_ofIndex (index : Nat) : (ofIndex index).upper = (ofIndex (index + 1)).lower := by
  by_cases last : index % 2 ^ 52 + 1 = 2 ^ 52
  · have fraction : (index + 1) % 2 ^ 52 = 0 := by omega
    have biased : (index + 1) / 2 ^ 52 = index / 2 ^ 52 + 1 := by omega
    have full : index % 2 ^ 52 = 2 ^ 52 - 1 := by omega
    unfold ofIndex
    rw [fraction, biased, full, if_neg (Nat.succ_ne_zero _)]
    by_cases subnormal : index / 2 ^ 52 = 0
    · have exponent : Int.ofNat (0 + 1) - 1075 = -1074 := rfl
      rw [subnormal, if_pos rfl, exponent]
      simp only [upper, lower]
      generalize (2 : ℚ) ^ ((-1074 : Int) - 2) = power
      norm_num
    · -- A new binade: the distance to the neighbour below is half the one above.
      rw [if_neg subnormal]
      generalize index / 2 ^ 52 = biased at subnormal
      have exponent : Int.ofNat (biased + 1) - 1075 - 2 = Int.ofNat biased - 1075 - 2 + 1 := by
        simp only [Int.ofNat_eq_natCast]
        omega
      simp only [upper, lower, exponent, zpow_add_one₀ (two_ne_zero : (2 : ℚ) ≠ 0)]
      generalize (2 : ℚ) ^ (Int.ofNat biased - 1075 - 2) = power
      norm_num [subnormal]
      ring
  · have fraction : (index + 1) % 2 ^ 52 = index % 2 ^ 52 + 1 := by omega
    have biased : (index + 1) / 2 ^ 52 = index / 2 ^ 52 := by omega
    have step : ∀ mantissa : Nat, 4 * mantissa + 2 = 4 * (mantissa + 1) - 2 := by omega
    unfold ofIndex
    rw [fraction, biased]
    split
    · simp only [upper, lower, step, Bool.false_eq_true, if_false]
    · have inside : (decide (index % 2 ^ 52 + 1 = 0) && decide (index / 2 ^ 52 ≠ 1)) = false := by
        simp
      simp only [upper, lower, inside, Bool.false_eq_true, if_false, step, Nat.add_right_comm]

theorem parity_ofIndex (index : Nat) : (ofIndex index).mantissa % 2 = index % 2 := by
  unfold ofIndex
  split <;> dsimp only <;> omega

theorem upper_le_lower {index other : Nat} (before : index < other) :
    (ofIndex index).upper ≤ (ofIndex other).lower := by
  induction other, before using Nat.le_induction with
  | base => exact (upper_ofIndex index).le
  | succ other _ ih =>
    rw [← upper_ofIndex other]
    exact ih.trans (ofIndex other).lower_lt_upper.le

/-- No number is rounded to two magnitudes. -/
theorem Takes.unique {index other : Nat} {number : ℚ} (one : (ofIndex index).Takes number)
    (two : (ofIndex other).Takes number) : index = other := by
  -- Of two, the number would have to be the bound between them, and both mantissas even.
  have apart : ∀ {first second : Nat}, first < second → (ofIndex first).Takes number →
      ¬(ofIndex second).Takes number := by
    intro first second before early late
    have between := upper_le_lower before
    have atUpper : number = (ofIndex first).upper :=
      le_antisymm early.below (between.trans late.above)
    have atLower : number = (ofIndex second).lower :=
      le_antisymm (early.below.trans between) late.above
    have adjacent : second = first + 1 := by
      by_contra further
      have inner : first + 1 < second := by omega
      have passed := (ofIndex (first + 1)).lower_lt_upper.trans_le (upper_le_lower inner)
      rw [← upper_ofIndex, ← atUpper, ← atLower] at passed
      exact lt_irrefl _ passed
    have firstEven := early.bounds (.inr atUpper)
    have secondEven := late.bounds (.inl atLower)
    rw [parity_ofIndex] at firstEven secondEven
    omega
  rcases Nat.lt_trichotomy index other with before | same | after
  · exact absurd two (apart before one)
  · exact same
  · exact absurd one (apart after two)

/-! Points of a grid -/

variable {b : Binary} {tie : Tie} {grid : Int} {candidate : Nat}

theorem Tie.choose_eq (tie : Tie) (below : Nat) :
    tie.choose below = below ∨ tie.choose below = below + 1 := by
  cases tie
  · exact .inr rfl
  · unfold Tie.choose
    dsimp only
    split
    · exact .inl rfl
    · exact .inr rfl

/-- What is found on a grid reads back. -/
theorem readsBack_of_onGrid? (found : b.onGrid? tie grid = some candidate) :
    b.readsBack candidate grid = true := by
  unfold onGrid? at found
  dsimp only at found
  generalize (scale b.mantissa b.exponent).1 * Nat.pow 10 (-grid).toNat /
    ((scale b.mantissa b.exponent).2 * Nat.pow 10 grid.toNat) = below at found
  cases here : b.readsBack below grid <;> cases next : b.readsBack (below + 1) grid <;>
    rw [here, next] at found
  · cases found
  · cases found
    exact next
  · cases found
    exact here
  · dsimp only at found
    split at found <;> cases found
    · exact here
    · rcases Tie.choose_eq tie below with same | same <;> rw [same] <;> assumption
    · exact next

theorem value_eq (b : Binary) : b.value = (4 * b.mantissa : Nat) * 2 ^ (b.exponent - 2) := by
  unfold value
  rw [zpow_sub₀ two_ne_zero]
  push_cast
  ring

theorem lower_lt_value (positive : 0 < b.mantissa) : b.lower < b.value := by
  have less : 4 * b.mantissa - (if b.lowerEnd then 1 else 2) < 4 * b.mantissa := by
    split <;> omega
  rw [value_eq]
  unfold lower
  gcongr

theorem value_lt_upper (b : Binary) : b.value < b.upper := by
  rw [value_eq]
  unfold upper
  gcongr
  omega

theorem takes_of_inside {number : ℚ} (above : b.lower < number) (below : number < b.upper) :
    b.Takes number :=
  ⟨above.le, below.le, fun ends => ends.elim (fun same => absurd same above.ne') fun same =>
    absurd same below.ne⟩

/-- The point that is looked for on a grid is next to the number. -/
theorem floor_between (b : Binary) (grid : Int) :
    let below := (scale b.mantissa b.exponent).1 * Nat.pow 10 (-grid).toNat /
      ((scale b.mantissa b.exponent).2 * Nat.pow 10 grid.toNat)
    (below : ℚ) * 10 ^ grid ≤ b.value ∧ b.value < (below + 1 : Nat) * 10 ^ grid := by
  obtain ⟨positive, value⟩ := scale_value b.mantissa b.exponent
  have parts : (grid.toNat : Int) - (-grid).toNat = grid := by omega
  have powers : (10 : ℚ) ^ grid = 10 ^ grid.toNat / 10 ^ (-grid).toNat := by
    rw [← zpow_natCast, ← zpow_natCast, ← zpow_sub₀ (by norm_num), parts]
  generalize (scale b.mantissa b.exponent).1 = numerator at value ⊢
  generalize (scale b.mantissa b.exponent).2 = denominator at positive value ⊢
  intro below
  have positive' : (0 : ℚ) < denominator := by exact_mod_cast positive
  have divisor : 0 < denominator * Nat.pow 10 grid.toNat := by
    rw [Nat.pow_eq]
    positivity
  have least : below * (denominator * Nat.pow 10 grid.toNat) ≤ numerator * Nat.pow 10 (-grid).toNat :=
    Nat.div_mul_le_self _ _
  have most : numerator * Nat.pow 10 (-grid).toNat < denominator * Nat.pow 10 grid.toNat * (below + 1) :=
    Nat.lt_mul_div_succ _ divisor
  rw [Nat.pow_eq, Nat.pow_eq] at least most
  have leastRat : (below : ℚ) * (denominator * 10 ^ grid.toNat) ≤ numerator * 10 ^ (-grid).toNat := by
    exact_mod_cast least
  have mostRat : (numerator : ℚ) * 10 ^ (-grid).toNat <
      denominator * 10 ^ grid.toNat * (below + 1 : Nat) := by exact_mod_cast most
  rw [Binary.value, ← value, powers, mul_div_assoc', mul_div_assoc', div_le_div_iff₀ (by positivity)
    positive', div_lt_div_iff₀ positive' (by positivity)]
  constructor
  · linarith
  · linarith

/-- A grid that is finer than the space of a number has a point in it. -/
theorem onGrid?_isSome (positive : 0 < b.mantissa) (fine : (10 : ℚ) ^ grid < b.upper - b.lower) :
    (b.onGrid? tie grid).isSome = true := by
  obtain ⟨least, most⟩ := b.floor_between grid
  unfold onGrid?
  dsimp only
  generalize (scale b.mantissa b.exponent).1 * Nat.pow 10 (-grid).toNat /
    ((scale b.mantissa b.exponent).2 * Nat.pow 10 grid.toNat) = below at least most ⊢
  cases here : b.readsBack below grid <;> cases next : b.readsBack (below + 1) grid
  · -- Neither neighbour is inside, so the step between them spans the whole space.
    have under : (below : ℚ) * 10 ^ grid ≤ b.lower := by
      by_contra above
      have inside := takes_of_inside (not_le.mp above) (least.trans_lt b.value_lt_upper)
      rw [← readsBack_iff, here] at inside
      cases inside
    have beyond : b.upper ≤ (below + 1 : Nat) * 10 ^ grid := by
      by_contra above
      have inside := takes_of_inside ((lower_lt_value positive).trans most) (not_le.mp above)
      rw [← readsBack_iff, next] at inside
      cases inside
    push_cast at beyond
    linarith
  · rfl
  · rfl
  · dsimp only
    split <;> rfl

/-! The fewest digits -/

theorem ten_pow_length_le {number : Nat} (positive : 0 < number) :
    10 ^ ((toString number).length - 1) ≤ number := by
  change 10 ^ (number.repr.length - 1) ≤ number
  rcases Nat.eq_zero_or_pos (number.repr.length - 1) with short | long
  · rw [short]
    exact positive
  · by_contra less
    have bound := (Nat.length_repr_le_iff long).mpr (Nat.lt_of_not_le less)
    omega

theorem one_le_scaled {places digits : Nat} (large : 2 ^ places ≤ 10 ^ digits)
    (positive : 0 < b.mantissa) (least : -(places : Int) ≤ b.exponent) :
    1 ≤ b.value * 10 ^ digits := by
  have one : (1 : ℚ) ≤ b.mantissa := by exact_mod_cast positive
  have large' : (2 : ℚ) ^ places ≤ 10 ^ digits := by exact_mod_cast large
  have tiny : (2 : ℚ) ^ (-(places : Int)) ≤ b.value :=
    calc (2 : ℚ) ^ (-(places : Int)) ≤ 2 ^ b.exponent := zpow_le_zpow_right₀ one_le_two least
      _ ≤ b.mantissa * 2 ^ b.exponent := le_mul_of_one_le_left (by positivity) one
  calc (1 : ℚ) = 2 ^ (-(places : Int)) * 2 ^ places := by
        rw [zpow_neg, zpow_natCast, inv_mul_cancel₀ (by positivity)]
    _ ≤ b.value * 10 ^ digits := mul_le_mul tiny large' (by positivity) (by
        exact (by positivity : (0 : ℚ) ≤ 2 ^ (-(places : Int))).trans tiny)

theorem two_pow_le_ten_pow : 2 ^ 1074 ≤ 10 ^ (399 + 1) := by decide +kernel

/-- The magnitude counts no more digits than the number has before the point. -/
theorem ten_zpow_magnitude_le (positive : 0 < b.mantissa) (least : -1074 ≤ b.exponent) :
    (10 : ℚ) ^ (b.magnitude - 1) ≤ b.value := by
  obtain ⟨denominator, value⟩ := scale_value b.mantissa b.exponent
  have large := one_le_scaled two_pow_le_ten_pow positive least
  unfold magnitude
  dsimp only
  rw [← Binary.value] at value
  generalize (scale b.mantissa b.exponent).1 = top at value ⊢
  generalize (scale b.mantissa b.exponent).2 = bottom at denominator value ⊢
  have denominator' : (0 : ℚ) < bottom := by exact_mod_cast denominator
  rw [div_eq_iff denominator'.ne'] at value
  have scaled : ∀ digits : Nat, bottom ≤ top * 10 ^ digits ↔ 1 ≤ b.value * 10 ^ digits := by
    intro digits
    have cast : bottom ≤ top * 10 ^ digits ↔ (bottom : ℚ) ≤ top * 10 ^ digits := by norm_cast
    rw [cast, value, mul_right_comm, le_mul_iff_one_le_left denominator']
  split
  · rename_i whole
    have quotient : 0 < top / bottom := Nat.div_pos whole denominator
    have length : ((toString (top / bottom)).length : Int) - 1 =
        ((toString (top / bottom)).length - 1 : Nat) := by
      have some : 0 < (toString (top / bottom)).length := Nat.length_repr_pos
      omega
    have digits : (10 : ℚ) ^ ((toString (top / bottom)).length - 1) ≤ (top / bottom : Nat) := by
      exact_mod_cast ten_pow_length_le quotient
    rw [length, zpow_natCast]
    refine digits.trans (Nat.cast_div_le.trans ?_)
    rw [value, mul_div_cancel_right₀ _ denominator'.ne']
  · cases found : (List.range 400).find? fun zeros => decide (bottom ≤ top * Nat.pow 10 (zeros + 1)) with
    | some zeros =>
      have enough := List.find?_some found
      rw [decide_eq_true_iff, Nat.pow_eq, scaled] at enough
      have exponent : -Int.ofNat zeros - 1 = -((zeros + 1 : Nat) : Int) := by
        simp only [Int.ofNat_eq_natCast]
        omega
      dsimp only
      rwa [exponent, zpow_neg, zpow_natCast, inv_le_iff_one_le_mul₀ (by positivity)]
    | none =>
      have less : ∀ zeros < 400, ¬1 ≤ b.value * 10 ^ (zeros + 1) := by
        intro zeros bound
        have less := List.find?_eq_none.mp found zeros (List.mem_range.mpr bound)
        rwa [decide_eq_true_iff, Nat.pow_eq, scaled] at less
      exact absurd large (less 399 (by decide))

/-- What the magnitudes of doubles have in common, but for the smallest one. -/
structure IsDouble (b : Binary) : Prop where
  positive : 0 < b.mantissa
  bound : b.mantissa < 2 ^ 53
  least : -1074 ≤ b.exponent
  ends : b.lowerEnd = true → b.mantissa = 2 ^ 52

theorem isDouble_ofIndex {index : Nat} (nonzero : index ≠ 0) : (ofIndex index).IsDouble where
  positive := by
    unfold ofIndex
    split <;> dsimp only <;> omega
  bound := by
    unfold ofIndex
    split <;> dsimp only <;> omega
  least := by
    unfold ofIndex
    split
    · exact le_refl _
    · rename_i normal
      dsimp only
      have one : (1 : Int) ≤ Int.ofNat (index / 2 ^ 52) := by
        simp only [Int.ofNat_eq_natCast]
        omega
      omega
  ends := by
    unfold ofIndex
    split <;> simp +contextual

/-- How much reads back as `b`, in quarters of the distance to the neighbour above. -/
theorem width_eq (positive : 0 < b.mantissa) :
    b.upper - b.lower = (if b.lowerEnd then 3 else 4) * 2 ^ (b.exponent - 2) := by
  have under : (if b.lowerEnd then 1 else 2) ≤ 4 * b.mantissa := by split <;> omega
  unfold upper lower
  rw [Nat.cast_sub under]
  split <;> push_cast <;> ring

/-- The step of a grid with seventeen digits is narrower than the space of the number. -/
theorem ten_zpow_lt_width (double : b.IsDouble) :
    (10 : ℚ) ^ (b.magnitude - 17) < b.upper - b.lower := by
  have magnitude := ten_zpow_magnitude_le double.positive double.least
  have step : (10 : ℚ) ^ (b.magnitude - 17) = 10 ^ (b.magnitude - 1) / 10 ^ 16 := by
    have exponent : b.magnitude - 17 = b.magnitude - 1 - (16 : Nat) := by omega
    rw [exponent, zpow_sub₀ (by norm_num), zpow_natCast]
  have power : (0 : ℚ) < 2 ^ (b.exponent - 2) := by positivity
  have mantissa : (4 * b.mantissa : ℚ) < (if b.lowerEnd then 3 else 4) * 10 ^ 16 := by
    split
    · rename_i lowerEnd
      rw [double.ends lowerEnd]
      norm_num
    · have bound : (b.mantissa : ℚ) < 2 ^ 53 := by exact_mod_cast double.bound
      linarith
  rw [step, width_eq double.positive, div_lt_iff₀ (by positivity)]
  calc (10 : ℚ) ^ (b.magnitude - 1) ≤ b.value := magnitude
    _ = 4 * b.mantissa * 2 ^ (b.exponent - 2) := by
      rw [value_eq]
      push_cast
      rfl
    _ < (if b.lowerEnd then 3 else 4) * 10 ^ 16 * 2 ^ (b.exponent - 2) := by gcongr
    _ = (if b.lowerEnd then 3 else 4) * 2 ^ (b.exponent - 2) * 10 ^ 16 := by ring

/-- A number is written with digits that read back as it. -/
theorem shortest_readsBack {index : Nat} (nonzero : index ≠ 0) (tie : Tie) :
    ∃ candidate grid, (ofIndex index).shortest tie = Digits.ofGrid candidate grid ∧
      (ofIndex index).readsBack candidate grid = true := by
  have seventeen : (((ofIndex index).onGrid? tie ((ofIndex index).magnitude - (16 + 1 : Nat))).map
      (Digits.ofGrid · ((ofIndex index).magnitude - (16 + 1 : Nat)))).isSome = true := by
    rw [Option.isSome_map]
    have double := isDouble_ofIndex nonzero
    exact onGrid?_isSome double.positive (ten_zpow_lt_width double)
  unfold shortest
  dsimp only
  cases found : (List.range 17).findSome? fun fewer =>
      ((ofIndex index).onGrid? tie ((ofIndex index).magnitude - (fewer + 1 : Nat))).map
        (Digits.ofGrid · ((ofIndex index).magnitude - (fewer + 1 : Nat))) with
  | none =>
    have absent := List.findSome?_eq_none_iff.mp found 16 (List.mem_range.mpr (by decide))
    rw [absent] at seventeen
    cases seventeen
  | some digits =>
    obtain ⟨fewer, -, fits⟩ := List.exists_of_findSome?_eq_some found
    obtain ⟨candidate, onGrid, rfl⟩ := Option.map_eq_some_iff.mp fits
    exact ⟨candidate, _, rfl, readsBack_of_onGrid? onGrid⟩

end Binary

end LiveTemplate.Decimal
