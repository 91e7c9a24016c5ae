import LiveTemplate.Text.Decimal
import LiveTemplate.Text.Quoted

/-!
JSON values and their compact text. Whole numbers that fit 64 bits, signed or unsigned, stay apart
from floats. The members of an object are in ascending order of their names, each once.
-/

namespace LiveTemplate

inductive Json where
  | null
  | bool (value : Bool)
  | int (value : Int)
  | float (value : Float)
  | text (value : String)
  | array (items : List Json)
  | object (members : List (String × Json))
  deriving Repr, Inhabited

namespace Json

/-- Adds a member to an object, in place of an earlier one of its name. -/
def insertMember (name : String) (value : Json) : List (String × Json) → List (String × Json)
  | [] => [(name, value)]
  | (other, old) :: rest =>
    if name = other then (name, value) :: rest
    else if name < other then (name, value) :: (other, old) :: rest
    else (other, old) :: insertMember name value rest

/-- The object of some members in any order; the last of several with one name counts. -/
def ofMembers (members : List (String × Json)) : Json :=
  object (members.foldl (fun sorted (name, value) => insertMember name value sorted) [])

/-- The member `name` of an object. -/
def member? : Json → String → Option Json
  | object members, name => members.lookup name
  | _, _ => none

def natural? : Json → Option Nat
  | int value => if 0 ≤ value then some value.toNat else none
  | _ => none

/-- Floats keep a mark that they are floats; an exponent is written below 10 ^ -5 and from
10 ^ 16 on, always with its sign. -/
def numberFormat : Decimal.Format where
  wholeMark := ".0"
  positional := some (-4, 16)
  exponentSign := "+"
  tie := .even
  nan := "null"
  infinity := "null"
  negativeInfinity := "null"
  negativeZero := "-0.0"

def escape (c : Char) : String :=
  match c with
  | '"' => "\\\""
  | '\\' => "\\\\"
  | '\n' => "\\n"
  | '\r' => "\\r"
  | '\t' => "\\t"
  | '\x08' => "\\b"
  | '\x0c' => "\\f"
  | _ =>
    if c.toNat < 0x10 then "\\u000" ++ Quoted.hexadecimal c.toNat
    else if c.toNat < 0x20 then "\\u00" ++ Quoted.hexadecimal c.toNat
    else c.toString

def quote (text : String) : String :=
  "\"" ++ String.join (text.toList.map escape) ++ "\""

mutual

/-- The text of a value, without blanks. -/
def compact : Json → String
  | null => "null"
  | bool value => toString value
  | int value => toString value
  | float value => Decimal.write numberFormat value
  | text value => quote value
  | array items => "[" ++ ",".intercalate (compactItems items) ++ "]"
  | object members => "\x7b" ++ ",".intercalate (compactMembers members) ++ "\x7d"

def compactItems : List Json → List String
  | [] => []
  | item :: items => item.compact :: compactItems items

def compactMembers : List (String × Json) → List String
  | [] => []
  | (name, value) :: members => (quote name ++ ":" ++ value.compact) :: compactMembers members

end

end Json

end LiveTemplate
