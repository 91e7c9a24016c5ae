import LiveTemplate.Json.Basic

/-!
Reading JSON text. A reader takes the characters before it and returns what it read and the
characters that follow. It refuses what the grammar refuses, half surrogates, numbers too large for
a double, and containers nested deeper than `nestingLimit`.
-/

namespace LiveTemplate.Json

/-- The nesting of containers up to which a text is read. -/
def nestingLimit : Nat := 127

def isBlank (c : Char) : Bool := c = ' ' || c = '\n' || c = '\t' || c = '\r'

def skipBlank (cs : List Char) : List Char := cs.dropWhile isBlank

def number (digits : List Char) : Nat :=
  digits.foldl (fun total digit => 10 * total + (digit.toNat - '0'.toNat)) 0

/-- A whole number, which is a float if it does not fit 64 bits, or is a negative zero. -/
def whole? (negative : Bool) (digits : List Char) : Option Json :=
  let value := number digits
  if negative then
    if value = 0 || 1 <<< 63 < value then (Decimal.read? true digits [] 0).map float
    else some (int (-Int.ofNat value))
  else if value < UInt64.size then some (int value)
  else (Decimal.read? false digits [] 0).map float

/-- The digits after a point, and the characters after them. No digit is an error. -/
def fraction? (cs : List Char) : Option (List Char × List Char) :=
  match cs with
  | '.' :: rest =>
    let digits := rest.takeWhile Char.isDigit
    if digits.isEmpty then none else some (digits, rest.dropWhile Char.isDigit)
  | _ => some ([], cs)

/-- The exponent after an `e`, `none` if there is no `e`, and the characters after it. -/
def exponent? (cs : List Char) : Option (Option Int × List Char) :=
  match cs with
  | 'e' :: rest | 'E' :: rest =>
    let (negative, rest) := match rest with
      | '-' :: rest => (true, rest)
      | '+' :: rest => (false, rest)
      | rest => (false, rest)
    let digits := rest.takeWhile Char.isDigit
    if digits.isEmpty then none
    else
      let size := Int.ofNat (number digits)
      some (some (if negative then -size else size), rest.dropWhile Char.isDigit)
  | _ => some (none, cs)

def number? (negative : Bool) (cs : List Char) : Option (Json × List Char) := do
  let digits := cs.takeWhile Char.isDigit
  let cs := cs.dropWhile Char.isDigit
  if digits.isEmpty || (digits.head? = some '0' && 1 < digits.length) then none
  else
    let (places, cs) ← fraction? cs
    let (exponent, cs) ← exponent? cs
    if places.isEmpty && exponent.isNone then
      return (← whole? negative digits, cs)
    else
      return (float (← Decimal.read? negative digits places (exponent.getD 0)), cs)

def hexadecimal? (cs : List Char) : Option (Nat × List Char) :=
  let digits := cs.take 4
  if digits.length < 4 then none
  else
    let value := digits.foldlM (fun total digit =>
      if digit.isDigit then some (16 * total + (digit.toNat - '0'.toNat))
      else if 'a' ≤ digit && digit ≤ 'f' then some (16 * total + (digit.toNat - 'a'.toNat + 10))
      else if 'A' ≤ digit && digit ≤ 'F' then some (16 * total + (digit.toNat - 'A'.toNat + 10))
      else none) 0
    value.map fun value => (value, cs.drop 4)

/-- The character written by the escape after a backslash. Two surrogates make one character. -/
def escaped? (cs : List Char) : Option (Char × List Char) :=
  match cs with
  | '"' :: rest => some ('"', rest)
  | '\\' :: rest => some ('\\', rest)
  | '/' :: rest => some ('/', rest)
  | 'b' :: rest => some ('\x08', rest)
  | 'f' :: rest => some ('\x0c', rest)
  | 'n' :: rest => some ('\n', rest)
  | 'r' :: rest => some ('\r', rest)
  | 't' :: rest => some ('\t', rest)
  | 'u' :: rest => do
    let (unit, rest) ← hexadecimal? rest
    if unit < 0xd800 || 0xdfff < unit then return (Char.ofNat unit, rest)
    else if 0xdbff < unit then none
    else
      match rest with
      | '\\' :: 'u' :: rest =>
        let (low, rest) ← hexadecimal? rest
        if low < 0xdc00 || 0xdfff < low then none
        else return (Char.ofNat (0x10000 + (unit - 0xd800) * 0x400 + (low - 0xdc00)), rest)
      | _ => none
  | _ => none

/-- The rest of a text, up to its closing quote. -/
def text? : Nat → List Char → List Char → Option (String × List Char)
  | 0, _, _ => none
  | fuel + 1, cs, reversed =>
    match cs with
    | [] => none
    | '"' :: rest => some (String.ofList reversed.reverse, rest)
    | '\\' :: rest => do
      let (c, rest) ← escaped? rest
      text? fuel rest (c :: reversed)
    | c :: rest => if c.toNat < 0x20 then none else text? fuel rest (c :: reversed)

mutual

/-- Reads a value. `room` is the number of containers that may still be opened. -/
def value? : (fuel room : Nat) → List Char → Option (Json × List Char)
  | 0, _, _ => none
  | fuel + 1, room, cs =>
    match skipBlank cs with
    | 'n' :: 'u' :: 'l' :: 'l' :: rest => some (null, rest)
    | 't' :: 'r' :: 'u' :: 'e' :: rest => some (bool true, rest)
    | 'f' :: 'a' :: 'l' :: 's' :: 'e' :: rest => some (bool false, rest)
    | '"' :: rest => (text? (rest.length + 1) rest []).map fun (value, rest) => (text value, rest)
    | '-' :: rest => number? true rest
    | '[' :: rest =>
      if room = 0 then none
      else
        match skipBlank rest with
        | ']' :: rest => some (array [], rest)
        | rest => items? fuel (room - 1) rest []
    | '{' :: rest =>
      if room = 0 then none
      else
        match skipBlank rest with
        | '}' :: rest => some (object [], rest)
        | rest => members? fuel (room - 1) rest []
    | rest => number? false rest

/-- Reads the items of an array, of which there is at least one more. -/
def items? : (fuel room : Nat) → List Char → List Json → Option (Json × List Char)
  | 0, _, _, _ => none
  | fuel + 1, room, cs, reversed => do
    let (item, rest) ← value? fuel room cs
    match skipBlank rest with
    | ',' :: rest => items? fuel room rest (item :: reversed)
    | ']' :: rest => some (array (item :: reversed).reverse, rest)
    | _ => none

/-- Reads the members of an object, of which there is at least one more. -/
def members? :
    (fuel room : Nat) → List Char → List (String × Json) → Option (Json × List Char)
  | 0, _, _, _ => none
  | fuel + 1, room, cs, sorted =>
    match skipBlank cs with
    | '"' :: rest => do
      let (name, rest) ← text? (rest.length + 1) rest []
      match skipBlank rest with
      | ':' :: rest =>
        let (value, rest) ← value? fuel room rest
        let sorted := insertMember name value sorted
        match skipBlank rest with
        | ',' :: rest => members? fuel room rest sorted
        | '}' :: rest => some (object sorted, rest)
        | _ => none
      | _ => none
    | _ => none

end

/-- The value that a text holds, with nothing but blanks around it. -/
def parse? (source : String) : Option Json :=
  let cs := source.toList
  match value? (2 * cs.length + 2) nestingLimit cs with
  | some (value, rest) => if (skipBlank rest).isEmpty then some value else none
  | none => none

end LiveTemplate.Json
