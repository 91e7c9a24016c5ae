import LiveTemplate.Json.Basic
import LiveTemplate.Value.Basic

/-!
The values that JSON data stands for. Every array and object gets storage of its own.
-/

namespace LiveTemplate.Value

/-- A number is an integer if it fits 64 bits with a sign, and a float otherwise. -/
def ofInt (n : Int) : Value :=
  if Int64.minValue.toInt ≤ n && n ≤ Int64.maxValue.toInt then int (Int64.ofInt n)
  else float (Float.ofInt n)

mutual

/-- Reads a value, taking storage from a counter. -/
def ofJson : Json → StateM Storage Value
  | .null => pure null
  | .bool value => pure (bool value)
  | .int value => pure (ofInt value)
  | .float value => pure (float value)
  | .text value => pure (text value)
  | .array items => do
    let items ← ofItems items
    let storage ← getModify (· + 1)
    return list storage items
  | .object members => do
    let entries ← ofMembers members
    let storage ← getModify (· + 1)
    return map storage entries

def ofItems : List Json → StateM Storage (List Value)
  | [] => pure []
  | item :: items => return (← ofJson item) :: (← ofItems items)

def ofMembers : List (String × Json) → StateM Storage (List (String × Value))
  | [] => pure []
  | (name, value) :: members => return (name, ← ofJson value) :: (← ofMembers members)

end

end LiveTemplate.Value
