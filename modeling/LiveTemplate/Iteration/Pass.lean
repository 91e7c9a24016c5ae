import LiveTemplate.Fault
import LiveTemplate.Value.Text

/-!
Passes over the elements of a value. A list is passed in its order with the positions as memos, a
map with its keys as memos, and a missing or false value has no elements. Each element gets a key
by which it is recognised in a later pass.
-/

namespace LiveTemplate

/-- How the key of an element is found. -/
inductive KeyFor where
  | index
  | identity
  | property (name : String)
  deriving Repr, DecidableEq, Inhabited

namespace KeyFor

def parse (name : String) : KeyFor :=
  if name = "@index" then index
  else if name = "" || name = "@identity" || name = "@primitive" then identity
  else property name

def key (keyFor : KeyFor) (position : Nat) (value : Value) : Key :=
  match keyFor with
  | index => .text (toString position)
  | identity => value.identity
  | property name => (value.get name).identity

end KeyFor

/-- An element met in a pass. -/
structure PassItem where
  key : Key
  value : Value
  memo : Value
  deriving Repr, Inhabited

/-- What is still to come in a pass. -/
abbrev Pass := List PassItem

namespace Pass

def ofElements (keyFor : KeyFor) (elements : List (Value × Value)) : Pass :=
  elements.mapIdx fun position (value, memo) => ⟨keyFor.key position value, value, memo⟩

/-- The pass over a value. Only lists, maps and the absence of a value can be passed. -/
def ofValue (keyFor : KeyFor) (value : Value) : Except RenderError Pass :=
  match value with
  | .list _ items =>
    .ok (ofElements keyFor (items.mapIdx fun position item => (item, .int (Int64.ofNat position))))
  | .map _ entries => .ok (ofElements keyFor (entries.map fun (name, value) => (value, .text name)))
  | .undefined | .null | .bool false => .ok []
  | _ => .error (.notIterable value.shown)

end Pass

end LiveTemplate
