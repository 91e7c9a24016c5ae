import LiveTemplate.Fault
import LiveTemplate.Template.Syntax
import LiveTemplate.Value.OfJson

/-!
Reading statements and expressions. Both are written as arrays that begin with a tag, and parts at
their end may be left out. The functions that read such parts therefore take the rest of an array,
from the part in question on, and treat an empty rest as they treat null.
-/

namespace LiveTemplate

abbrev Compiling := Except CompileError

namespace Template

def refuse {α : Type} (context message : String) : Compiling α :=
  .error (.malformed context message)

def missing {α : Type} (context : String) (position : Nat) : Compiling α :=
  refuse context s!"missing element {position}"

def textAt (context : String) (position : Nat) : List Json → Compiling String
  | [] => missing context position
  | .text value :: _ => .ok value
  | other :: _ => refuse context s!"expected a string at {position}, got {other.compact}"

def textAt? (context : String) (position : Nat) : List Json → Compiling (Option String)
  | [] | .null :: _ => .ok none
  | .text value :: _ => .ok (some value)
  | other :: _ => refuse context s!"expected a string or null at {position}, got {other.compact}"

def textsIn (context : String) : List Json → Compiling (List String)
  | [] => .ok []
  | .text value :: rest => return value :: (← textsIn context rest)
  | other :: _ => refuse context s!"expected a string, got {other.compact}"

/-- A list of texts. Null is the empty list. -/
def texts (context : String) : Json → Compiling (List String)
  | .null => .ok []
  | .array items => textsIn context items
  | other => refuse context s!"expected a list of strings, got {other.compact}"

def pathAt (context : String) (position : Nat) : List Json → Compiling Path
  | [] => missing context position
  | value :: _ => do
    match ← texts context value with
    | [] => refuse context "empty path"
    | head :: tail => return ⟨head, tail⟩

def flag : List Json → Bool
  | .bool value :: _ => value
  | _ => false

def pairUp (context : String) (names : List String) (values : List Expression) :
    Compiling Named :=
  if names.length = values.length then .ok (names.zip values)
  else refuse context "hash names and values differ in length"

mutual

def expression : Json → Compiling Expression
  | .object members => .error (.malformedPrimitive (Json.object members).compact)
  | .array [] => refuse "expression" "expected a tagged tuple, got []"
  | .array (head :: rest) => do
    let tag ← textAt "expression" 0 [head]
    match tag with
    | "unknown" => return .unknown (← pathAt tag 1 rest)
    | "arg" => return .argument (← pathAt tag 1 rest)
    | "get" => return .get (← pathAt tag 1 rest)
    | "self-get" => return .selfGet (← pathAt tag 1 rest)
    | "concat" => return .concat (← params tag rest)
    | "has-block" => return .hasBlock (← textAt tag 1 rest)
    | "has-block-params" => return .hasBlockParams (← textAt tag 1 rest)
    | "helper" =>
      match rest with
      | [] => missing tag 1
      | path :: rest =>
        let path ← pathAt tag 1 [path]
        let (params, named) ← call tag rest
        return .helper path params named
    | "undefined" => return .undefined
    | other => refuse "expression" s!"unknown expression {other}"
  | .null => .ok (.literal .null)
  | .bool value => .ok (.literal (.bool value))
  | .int value => .ok (.literal (Value.ofInt value))
  | .float value => .ok (.literal (.float value))
  | .text value => .ok (.literal (.text value))

def expressions : List Json → Compiling (List Expression)
  | [] => .ok []
  | value :: rest => return (← expression value) :: (← expressions rest)

def paramList (context : String) : Json → Compiling (List Expression)
  | .null => .ok []
  | .array items => expressions items
  | other => refuse context s!"expected params, got {other.compact}"

/-- The parameters at the front of the rest of an array. -/
def params (context : String) : List Json → Compiling (List Expression)
  | [] => .ok []
  | value :: _ => paramList context value

/-- The hash at the front of the rest of an array: a list of names and one of values. -/
def hash (context : String) : List Json → Compiling Named
  | [] => .ok []
  | value :: _ => hashOf context value

def hashOf (context : String) : Json → Compiling Named
  | .null => .ok []
  | .array [names, values] => do
    let names ← texts context names
    let values ← paramList context values
    pairUp context names values
  | other => refuse context s!"expected a [names, values] hash, got {other.compact}"

/-- Parameters followed by a hash. -/
def call (context : String) : List Json → Compiling (List Expression × Named)
  | [] => .ok ([], [])
  | value :: rest => return (← paramList context value, ← hash context rest)

end

/-- The hash among the members of an object, under `name`. -/
def memberHash (context name : String) (members : List (String × Json)) : Compiling Named :=
  match members.lookup name with
  | some value => hashOf context value
  | none => .ok []

def memberTexts (context name : String) (members : List (String × Json)) :
    Compiling (List String) :=
  match members.lookup name with
  | some value => texts context value
  | none => .ok []

def argumentValue (context : String) : List Json → Compiling Expression
  | _ :: value :: _ => expression value
  | _ => missing context 2

mutual

def statement : Json → Compiling Statement
  | .array [] => refuse "statement" "expected a tagged tuple, got []"
  | .array (head :: rest) => do
    let tag ← textAt "statement" 0 [head]
    match tag with
    | "text" => return .text (← textAt tag 1 rest)
    | "comment" => return .comment (← textAt tag 1 rest)
    | "append" =>
      match rest with
      | [] => missing tag 1
      | value :: rest => return .append (← expression value) (flag rest)
    | "modifier" =>
      match rest with
      | [] => missing tag 1
      | path :: rest =>
        let path ← pathAt tag 1 [path]
        let (params, named) ← call tag rest
        return .modifier path params named
    | "block" =>
      match rest with
      | [] => missing tag 1
      | path :: rest =>
        let path ← pathAt tag 1 [path]
        let (params, named) ← call tag rest
        match rest with
        | _ :: _ :: rest =>
          let (template, inverse) ← branches rest
          return .block path params named template inverse
        | _ => return .block path params named none none
    | "component" =>
      match rest with
      | [] | [_] => missing tag 2
      | name :: .object members :: _ =>
        let attrs ← memberStatements "attrs" members
        let name ← textAt tag 1 [name]
        let args ← memberHash tag "args" members
        let body ← memberStatements "statements" members
        return .component name attrs args (.of body (← memberTexts "locals" "locals" members))
      | _ => refuse tag "expected a component body"
    | "open-element" =>
      let name ← textAt tag 1 rest
      match rest with
      | _ :: locals :: _ => return .openElement name (← texts tag locals)
      | _ => return .openElement name []
    | "flush-element" => return .flushElement
    | "close-element" => return .closeElement
    | "static-attr" =>
      match rest with
      | [] | [_] => missing tag 2
      | name :: value :: rest =>
        match ← expression value with
        | .literal value =>
          return .staticAttr (← textAt tag 1 [name]) value.content (← textAt? tag 3 rest)
        | other => refuse tag s!"static attribute value must be a literal, got {other.shown}"
    | "dynamic-attr" | "trusting-attr" =>
      let name ← textAt tag 1 rest
      match rest with
      | _ :: value :: rest =>
        return .dynamicAttr name (← expression value) (← textAt? tag 3 rest) (tag = "trusting-attr")
      | _ => missing tag 2
    | "static-arg" => return .staticArg (← textAt tag 1 rest) (← argumentValue tag rest)
    | "dynamic-arg" => return .dynamicArg (← textAt tag 1 rest) (← argumentValue tag rest)
    | "yield" => return .yield (← textAt tag 1 rest) (← params tag (rest.drop 1))
    | other => refuse "statement" s!"unknown statement {other}"
  | other => refuse "statement" s!"expected a tagged tuple, got {other.compact}"

def statements : List Json → Compiling (List Statement)
  | [] => .ok []
  | value :: rest => return (← statement value) :: (← statements rest)

/-- The block of a block statement, and its inverse. -/
def branches : List Json → Compiling (Option BlockRef × Option BlockRef)
  | [] => .ok (none, none)
  | [template] => return (← blockRef template, none)
  | template :: inverse :: _ => return (← blockRef template, ← blockRef inverse)

def blockRef : Json → Compiling (Option BlockRef)
  | .null => .ok none
  | .int position =>
    if 0 ≤ position then .ok (some (.index position.toNat))
    else refuse "block" s!"bad block index {position}"
  | .float position => refuse "block" s!"bad block index {(Json.float position).compact}"
  | .object members => do
    let body ← memberStatements "statements" members
    return some (.inline (.of body (← memberTexts "locals" "locals" members)))
  | other => refuse "block" s!"expected a block reference, got {other.compact}"

/-- The statements among the members of an object, under `name`. Anything but an array has none. -/
def memberStatements (name : String) : List (String × Json) → Compiling (List Statement)
  | [] => .ok []
  | (other, .array items) :: rest =>
    if other = name then statements items else memberStatements name rest
  | (other, _) :: rest => if other = name then .ok [] else memberStatements name rest

end

end Template

end LiveTemplate
