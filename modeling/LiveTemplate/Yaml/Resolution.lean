import LiveTemplate.Yaml.Node

/-!
What the scalars of YAML stand for. A plain scalar without a tag may be empty, a truth value or a
number; a tag of the core schema asks for one of these, and a scalar that is none is an error. Tags
of an application's own have no meaning.
-/

namespace LiveTemplate.Yaml

def isNull (text : String) : Bool := text ∈ ["~", "null", "Null", "NULL"]

def flag? (text : String) : Option Bool :=
  if text ∈ ["true", "True", "TRUE"] then some true
  else if text ∈ ["false", "False", "FALSE"] then some false
  else none

/-- The digits of a number behind its sign, and whether it is negative. -/
def unsigned (cs : List Char) : Bool × List Char :=
  match cs with
  | '+' :: rest => (false, rest)
  | '-' :: rest => (true, rest)
  | cs => (false, cs)

/-- A number without leading zeros, or one with a mark of its base. It fits 128 bits. -/
def integer? (text : String) : Option Int := do
  let (negative, digits) := unsigned text.toList
  let size ← match digits with
    | '0' :: 'x' :: rest => digits? 16 rest
    | '0' :: 'o' :: rest => digits? 8 rest
    | '0' :: 'b' :: rest => digits? 2 rest
    | '0' :: _ :: _ => none
    | digits => digits? 10 digits
  if negative then if size ≤ 1 <<< 127 then some (-Int.ofNat size) else none
  else if size < 1 <<< 128 then some size
  else none

/-- Whether the characters are a power of ten behind a mantissa, or nothing. -/
def isExponent (cs : List Char) : Bool :=
  match cs with
  | [] => true
  | c :: rest =>
    let digits := (unsigned rest).2
    (c = 'e' || c = 'E') && !digits.isEmpty && digits.all Char.isDigit

def isFloat (text : String) : Bool :=
  let digits := (unsigned text.toList).2
  let (whole, rest) := digits.span Char.isDigit
  let (places, rest) := match rest with
    | '.' :: rest => rest.span Char.isDigit
    | rest => ([], rest)
  String.ofList digits ∈ [".inf", ".Inf", ".INF"] || text ∈ [".nan", ".NaN", ".NAN"] ||
    (!(whole.isEmpty && places.isEmpty) && isExponent rest)

def isOwnTag (tag : Option String) : Bool := tag.any (·.startsWith "!")

/-- Whether a scalar is what its tag asks for. -/
def suitsTag (tag : Option String) (text : String) : Bool :=
  match tag with
  | some "tag:yaml.org,2002:null" => isNull text
  | some "tag:yaml.org,2002:bool" => (flag? text).isSome
  | some "tag:yaml.org,2002:int" => (integer? text).isSome
  | some "tag:yaml.org,2002:float" => isFloat text
  | tag => !isOwnTag tag

/-- Whether truth values are looked for in a scalar, rather than text. -/
def holdsFlag (tag : Option String) (plain : Bool) : Bool :=
  match tag with
  | none => plain
  | some tag => tag = "tag:yaml.org,2002:bool"

/-- Whether numbers are looked for in a scalar, rather than text. -/
def holdsInteger (tag : Option String) (plain : Bool) : Bool :=
  match tag with
  | none => plain
  | some tag => tag = "tag:yaml.org,2002:int"

def Node.isScalar : Node → Bool
  | .scalar .. => true
  | _ => false

mutual

/-- Whether a node stands for something: every scalar suits its tag, every key is a scalar, and
collections are not nested deeper than there is room for. -/
def Node.isSound (room : Nat) : Node → Bool
  | .scalar tag _ text => suitsTag tag text
  | .sequence tag items => !isOwnTag tag && room ≠ 0 && itemsSound (room - 1) items
  | .mapping tag entries => !isOwnTag tag && room ≠ 0 && entriesSound (room - 1) entries

def itemsSound (room : Nat) : List Node → Bool
  | [] => true
  | item :: items => item.isSound room && itemsSound room items

def entriesSound (room : Nat) : List (Node × Node) → Bool
  | [] => true
  | (key, value) :: entries => key.isScalar && value.isSound room && entriesSound room entries

end

end LiveTemplate.Yaml
