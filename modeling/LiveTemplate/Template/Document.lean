import LiveTemplate.Json.Reader
import LiveTemplate.Template.Reader

/-!
Reading whole templates. The parts of a template are the members of an object or, in a fixed order,
the items of an array that may stop early. A part that is left out has its default; one that is
there must be of its type. All that is checked before any statement is read.
-/

namespace LiveTemplate.Template

/-- The parts of a template or block by name. -/
def partsOf (names : List String) : Json → Compiling (List (String × Json))
  | .object members => .ok members
  | .array items => if items.length ≤ names.length then .ok (names.zip items) else .error .json
  | _ => .error .json

def part {α : Type} (parts : List (String × Json)) (name : String) (default : α)
    (read : Json → Compiling α) : Compiling α :=
  match parts.lookup name with
  | some value => read value
  | none => .ok default

def listPart : Json → Compiling (List Json)
  | .array items => .ok items
  | _ => .error .json

def textsPart (value : Json) : Compiling (List String) := do
  (← listPart value).mapM fun
    | .text text => .ok text
    | _ => .error .json

def flagPart : Json → Compiling Bool
  | .bool value => .ok value
  | _ => .error .json

def preludePart : Json → Compiling (Option (List Json))
  | .null => .ok none
  | value => some <$> listPart value

/-- A block whose statements have not been read yet. -/
structure RawBlock where
  statements : List Json
  locals : List String

def rawBlock (value : Json) : Compiling RawBlock := do
  let parts ← partsOf ["statements", "locals"] value
  let statements ← part parts "statements" [] listPart
  return ⟨statements, ← part parts "locals" [] textsPart⟩

def RawBlock.read (raw : RawBlock) : Compiling Block :=
  return .of (← Template.statements raw.statements) raw.locals

/-- The template that JSON data describes. -/
def ofJson (value : Json) : Compiling Template := do
  let parts ← partsOf
    ["statements", "locals", "named", "yields", "hasPartials", "blocks", "prelude", "meta"] value
  let statements ← part parts "statements" [] listPart
  let locals ← part parts "locals" [] textsPart
  let named ← part parts "named" [] textsPart
  let yields ← part parts "yields" [] textsPart
  let hasPartials ← part parts "hasPartials" false flagPart
  let blocks ← part parts "blocks" [] fun value => do (← listPart value).mapM rawBlock
  let prelude ← part parts "prelude" none preludePart
  let description ← part parts "meta" .null .ok
  let prelude ← prelude.mapM Template.statements
  let statements ← Template.statements statements
  let blocks ← blocks.mapM RawBlock.read
  return { block := .of statements locals, prelude, named, yields, hasPartials, blocks,
           description }

/-- The template that a JSON text describes. -/
def ofText (source : String) : Compiling Template :=
  match Json.parse? source with
  | some value => ofJson value
  | none => .error .json

/-- Reads a template that is given as JSON data, or as the text of it. -/
def ofSource : Json → Compiling Template
  | .text source => ofText source
  | value => ofJson value

end LiveTemplate.Template
