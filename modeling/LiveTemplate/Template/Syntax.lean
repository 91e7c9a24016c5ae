import LiveTemplate.Fault
import LiveTemplate.Json.Basic
import LiveTemplate.Value.Text

/-!
Templates. A template is a list of statements, most of which hold expressions. A nested block is
written where it is used, or is referred to by its position among the blocks of its template.
-/

namespace LiveTemplate

/-- A name, and the properties looked up from it in turn. -/
structure Path where
  head : String
  tail : List String := []
  deriving Repr, DecidableEq, Inhabited

def Path.toList (path : Path) : List String := path.head :: path.tail

inductive Expression where
  /-- A helper if there is one of that name, a property of `this` otherwise. -/
  | unknown (path : Path)
  | argument (path : Path)
  /-- A block parameter. -/
  | get (path : Path)
  | selfGet (path : Path)
  | concat (parts : List Expression)
  | hasBlock (name : String)
  | hasBlockParams (name : String)
  | helper (path : Path) (params : List Expression) (named : List (String × Expression))
  | undefined
  /-- A text, a number, a boolean or null. -/
  | literal (value : Value)
  deriving Repr, Inhabited

/-- Expressions by name. A name may occur more than once. -/
abbrev Named := List (String × Expression)

mutual

inductive Statement where
  | text (content : String)
  | comment (content : String)
  | append (value : Expression) (trusted : Bool)
  | modifier (path : Path) (params : List Expression) (named : Named)
  | block (path : Path) (params : List Expression) (named : Named)
      (template inverse : Option BlockRef)
  /-- An element that is a component if there is one of that name. -/
  | component (tag : String) (attrs : List Statement) (args : Named) (body : Block)
  | openElement (tag : String) (params : List String)
  | flushElement
  | closeElement
  | staticAttr (name value : String) (space : Option String)
  | dynamicAttr (name : String) (value : Expression) (space : Option String) (trusting : Bool)
  | staticArg (name : String) (value : Expression)
  | dynamicArg (name : String) (value : Expression)
  | yield (name : String) (params : List Expression)

inductive BlockRef where
  | index (position : Nat)
  | inline (block : Block)

inductive Block where
  | of (statements : List Statement) (locals : List String)

end

deriving instance Repr, Inhabited for Statement, BlockRef, Block

namespace Block

def statements : Block → List Statement
  | of statements _ => statements

/-- The names of the block parameters. -/
def locals : Block → List String
  | of _ locals => locals

end Block

structure Template where
  block : Block
  /-- The root element of a layout: its opening and its attributes. -/
  prelude : Option (List Statement)
  named : List String
  yields : List String
  hasPartials : Bool
  blocks : List Block
  description : Json
  deriving Repr, Inhabited

namespace Template

/-- The nested block that a reference stands for. -/
def block? (template : Template) : BlockRef → Except CompileError Block
  | .inline block => .ok block
  | .index position =>
    match template.blocks[position]? with
    | some block => .ok block
    | none => .error (.malformed "block" s!"no block at index {position}")

def moduleName? (template : Template) : Option String :=
  match template.description.member? "moduleName" with
  | some (.text name) => some name
  | _ => none

end Template

namespace Expression

def quoteAll (names : List String) : String :=
  "[" ++ ", ".intercalate (names.map Quoted.quote) ++ "]"

mutual

/-- An expression as diagnostics show it. -/
def shown : Expression → String
  | unknown path => s!"Unknown({quoteAll path.toList})"
  | argument path => s!"Arg({quoteAll path.toList})"
  | get path => s!"Get({quoteAll path.toList})"
  | selfGet path => s!"SelfGet({quoteAll path.toList})"
  | concat parts => "Concat(" ++ "[" ++ ", ".intercalate (shownAll parts) ++ "])"
  | hasBlock name => s!"HasBlock({Quoted.quote name})"
  | hasBlockParams name => s!"HasBlockParams({Quoted.quote name})"
  | helper path params named =>
    s!"Helper \x7b path: {quoteAll path.toList}, params: " ++
      "[" ++ ", ".intercalate (shownAll params) ++ "], hash: Hash \x7b names: " ++
      quoteAll (named.map Prod.fst) ++ ", values: [" ++
      ", ".intercalate (shownNamed named) ++ "] \x7d \x7d"
  | undefined => "Undefined"
  | literal value => s!"Value({value.shown})"

def shownAll : List Expression → List String
  | [] => []
  | expression :: rest => expression.shown :: shownAll rest

def shownNamed : List (String × Expression) → List String
  | [] => []
  | (_, expression) :: rest => expression.shown :: shownNamed rest

end

end Expression

end LiveTemplate
