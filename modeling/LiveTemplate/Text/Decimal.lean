/-!
Decimal text of double-precision numbers. A finite number is written with the fewest digits that
read back as the same number; among the decimals of that length the nearest is taken. Which of two
equally near ones it is, where the point stands and when an exponent is written is decided by a
`Format`.
-/

namespace LiveTemplate.Decimal

/-- The positive number `mantissa · 2 ^ exponent`, as a double stores it. At the lower end of a
binade the neighbour below is only half as far away as the one above. -/
structure Binary where
  mantissa : Nat
  exponent : Int
  lowerEnd : Bool
  deriving Repr, DecidableEq

/-- The positive number `0.d₁d₂… · 10 ^ point`. -/
structure Digits where
  digits : List Char
  point : Int
  deriving Repr, DecidableEq

/-- The magnitude stored in the bits of a finite double. -/
def Binary.ofBits (bits : UInt64) : Binary :=
  let biased := ((bits >>> 52) &&& 0x7ff).toNat
  let fraction := (bits &&& 0xfffffffffffff).toNat
  if biased = 0 then ⟨fraction, -1074, false⟩
  else ⟨fraction + (1 <<< 52), Int.ofNat biased - 1075, fraction = 0 && biased ≠ 1⟩

/-- The rational `numerator · 2 ^ exponent` as a numerator over a denominator. -/
def scale (numerator : Nat) (exponent : Int) : Nat × Nat :=
  (numerator <<< exponent.toNat, 1 <<< (-exponent).toNat)

/-- Compares `candidate · 10 ^ grid` with `numerator / denominator`. -/
def compareGrid (candidate : Nat) (grid : Int) (bound : Nat × Nat) : Ordering :=
  compare (candidate * Nat.pow 10 grid.toNat * bound.2) (bound.1 * Nat.pow 10 (-grid).toNat)

/-- The decimals that read back as `b`: everything nearer to it than to its neighbours, the two
middles included when the mantissa is even. -/
def Binary.readsBack (b : Binary) (candidate : Nat) (grid : Int) : Bool :=
  let below := if b.lowerEnd then 1 else 2
  let lower := scale (4 * b.mantissa - below) (b.exponent - 2)
  let upper := scale (4 * b.mantissa + 2) (b.exponent - 2)
  match compareGrid candidate grid lower, compareGrid candidate grid upper with
  | .gt, .lt => true
  | .eq, _ | _, .eq => b.mantissa % 2 = 0
  | _, _ => false

/-- Whether `number` is the double nearest to the integer. Of two equally near ones that is the one with
the even mantissa. -/
def isNearest (number : Float) (value : Int) : Bool :=
  let bits := number.toBits
  if value = 0 then bits <<< 1 == 0
  else number.isFinite && (bits >>> 63 != 0) == decide (value < 0) &&
    (Binary.ofBits bits).readsBack value.natAbs 0

/-- The number of digits before the point, negative when zeros follow the point. -/
def Binary.magnitude (b : Binary) : Int :=
  let (numerator, denominator) := scale b.mantissa b.exponent
  if denominator ≤ numerator then (toString (numerator / denominator)).length
  else
    match (List.range 400).find? fun zeros => denominator ≤ numerator * Nat.pow 10 (zeros + 1) with
    | some zeros => -Int.ofNat zeros
    | none => 0

/-- Which of two equally near decimals is taken: the larger, or the one whose last digit is even. -/
inductive Tie where
  | up
  | even
  deriving Repr, DecidableEq

/-- The one of `below` and `below + 1` that a tie between them goes to. -/
def Tie.choose (tie : Tie) (below : Nat) : Nat :=
  match tie with
  | .up => below + 1
  | .even => if below % 2 = 0 then below else below + 1

/-- The neighbour of `b` on the grid of multiples of `10 ^ grid` that reads back as `b`, the nearer
one if both do. -/
def Binary.onGrid? (b : Binary) (tie : Tie) (grid : Int) : Option Nat :=
  let (numerator, denominator) := scale b.mantissa b.exponent
  let below := numerator * Nat.pow 10 (-grid).toNat / (denominator * Nat.pow 10 grid.toNat)
  match b.readsBack below grid, b.readsBack (below + 1) grid with
  | true, true =>
    match compareGrid (2 * below + 1) grid (scale (2 * b.mantissa) b.exponent) with
    | .gt => some below
    | .eq => some (tie.choose below)
    | .lt => some (below + 1)
  | true, false => some below
  | false, true => some (below + 1)
  | false, false => none

def Digits.ofGrid (candidate : Nat) (grid : Int) : Digits :=
  let digits := (toString candidate).toList
  ⟨(digits.reverse.dropWhile (· = '0')).reverse, grid + digits.length⟩

/-- The fewest digits that read back as `b`. Seventeen always do. -/
def Binary.shortest (b : Binary) (tie : Tie) : Digits :=
  let magnitude := b.magnitude
  let fits (count : Nat) : Option Digits :=
    (b.onGrid? tie (magnitude - count)).map (Digits.ofGrid · (magnitude - count))
  ((List.range 17).findSome? fun fewer => fits (fewer + 1)).getD ⟨['0'], 1⟩

/-- How numbers are laid out. -/
structure Format where
  /-- Written after a whole number in positional notation. -/
  wholeMark : String
  /-- The magnitudes written in positional notation; every magnitude if absent. -/
  positional : Option (Int × Int)
  /-- Written in front of an exponent that is not negative. -/
  exponentSign : String
  tie : Tie
  nan : String
  infinity : String
  negativeInfinity : String
  negativeZero : String

def zeros (count : Int) : List Char := List.replicate count.toNat '0'

def Digits.positional (d : Digits) (wholeMark : String) : String :=
  if d.point ≤ 0 then String.ofList ('0' :: '.' :: zeros (-d.point) ++ d.digits)
  else if d.digits.length ≤ d.point then
    String.ofList (d.digits ++ zeros (d.point - d.digits.length)) ++ wholeMark
  else
    String.ofList (d.digits.take d.point.toNat ++ '.' :: d.digits.drop d.point.toNat)

def Digits.scientific (d : Digits) (exponentSign : String) : String :=
  let tail := "e" ++ (if 1 ≤ d.point then exponentSign else "") ++ toString (d.point - 1)
  match d.digits with
  | [] => tail
  | [digit] => String.ofList [digit] ++ tail
  | digit :: digits => String.ofList (digit :: '.' :: digits) ++ tail

def Digits.layOut (d : Digits) (format : Format) : String :=
  match format.positional with
  | none => d.positional format.wholeMark
  | some (least, most) =>
    if least ≤ d.point && d.point ≤ most then d.positional format.wholeMark
    else d.scientific format.exponentSign

/-- The text of a double. -/
def write (format : Format) (f : Float) : String :=
  let bits := f.toBits
  let negative := bits >>> 63 != 0
  if f.isNaN then format.nan
  else if f.isInf then if negative then format.negativeInfinity else format.infinity
  else if bits <<< 1 == 0 then
    if negative then format.negativeZero else "0" ++ format.wholeMark
  else
    (if negative then "-" else "") ++ ((Binary.ofBits bits).shortest format.tie).layOut format

/-- Takes digits into a number as long as it fits 64 bits. Returns the number, and how many digits
were left. -/
def leading (number : Nat) : List Char → Nat × Nat
  | [] => (number, 0)
  | digit :: digits =>
    let next := 10 * number + (digit.toNat - '0'.toNat)
    if next < UInt64.size then leading next digits else (number, digits.length + 1)

/-- Divides by powers of ten that are themselves doubles. -/
def divide : (rounds : Nat) → Float → (exponent : Nat) → Float
  | 0, _, _ => 0.0
  | rounds + 1, value, exponent =>
    if exponent ≤ 308 then value / Float.ofScientific 1 false exponent
    else divide rounds (value / 1e308) (exponent - 308)

/-- The double `number · 10 ^ exponent`, reckoned in doubles from the two factors; `none` if it is
too large. After three divisions by `1e308` nothing is left of any number. -/
def scaled? (number : Nat) (exponent : Int) : Option Float :=
  let value := number.toUInt64.toFloat
  if number = 0 then some 0.0
  else if exponent < 0 then some (divide 4 value exponent.natAbs)
  else if 308 < exponent then none
  else
    let product := value * Float.ofScientific 1 false exponent.toNat
    if product.isInf then none else some product

/-- Reads the decimal with the given digits before and after the point, times a power of ten. Of
the digits only those are used that fit 64 bits, so that the last bit of the result may be off. -/
def read? (negative : Bool) (whole places : List Char) (exponent : Int) : Option Float :=
  let (number, unread) := leading 0 whole
  let (number, unused) := leading number places
  let taken := places.length - unused
  (scaled? number (unread - taken + exponent)).map fun value => if negative then -value else value

end LiveTemplate.Decimal
