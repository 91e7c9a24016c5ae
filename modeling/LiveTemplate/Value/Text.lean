import LiveTemplate.Text.Decimal
import LiveTemplate.Text.Quoted
import LiveTemplate.Value.Basic

/-!
The texts of a value: its content, which is what a template writes into the page, the notation in
which diagnostics show it, and the key by which it is recognised in a list.
-/

namespace LiveTemplate.Value

/-- In content a number has no exponent, a whole number no point, and zero no sign. -/
def contentFormat : Decimal.Format where
  wholeMark := ""
  positional := none
  exponentSign := ""
  tie := .up
  nan := "NaN"
  infinity := "Infinity"
  negativeInfinity := "-Infinity"
  negativeZero := "0"

/-- Diagnostics mark every float as one, and write 10 ^ 16 and more, and less than 10 ^ -4, with an
exponent. -/
def notationFormat : Decimal.Format where
  wholeMark := ".0"
  positional := some (-3, 16)
  exponentSign := ""
  tie := .up
  nan := "NaN"
  infinity := "inf"
  negativeInfinity := "-inf"
  negativeZero := "-0.0"

mutual

/-- The text a value is rendered as. -/
def content : Value → String
  | undefined | null => ""
  | bool value => toString value
  | int value => toString value.toInt
  | float value => Decimal.write contentFormat value
  | text value => value
  | list _ items => ",".intercalate (contents items)
  | map .. => "[object Object]"

def contents : List Value → List String
  | [] => []
  | item :: items => item.content :: contents items

end

mutual

/-- The text a value is shown as in diagnostics. -/
def shown : Value → String
  | undefined => "undefined"
  | null => "null"
  | bool value => toString value
  | int value => toString value.toInt
  | float value => Decimal.write notationFormat value
  | text value => Quoted.quote value
  | list _ items => "[" ++ ", ".intercalate (shownItems items) ++ "]"
  | map _ entries => "\x7b" ++ ", ".intercalate (shownEntries entries) ++ "\x7d"

def shownItems : List Value → List String
  | [] => []
  | item :: items => item.shown :: shownItems items

def shownEntries : List (String × Value) → List String
  | [] => []
  | (key, value) :: entries => (Quoted.quote key ++ ": " ++ value.shown) :: shownEntries entries

end

/-- Lists and maps are recognised by their storage, everything else by its text. -/
def identity : Value → Key
  | undefined => .text "undefined"
  | null => .text "null"
  | list storage _ => .list storage
  | map storage _ => .map storage
  | value => .text value.content

end LiveTemplate.Value
