import LiveTemplate.Program.Draft
import LiveTemplate.Template.Syntax

/-!
Statements whose names are resolved. What a template calls by name is here either a component with
the handle of its layout, a partial with the handle of its code, or something built in; and nested
blocks have become handles.
-/

namespace LiveTemplate

inductive Resolved where
  | text (content : String)
  | comment (content : String)
  | append (value : Expression) (trusted : Bool)
  | modifier (name : String) (params : List Expression) (named : Named)
  | block (name : String) (params : List Expression) (named : Named)
      (template inverse : Option Handle)
  /-- An invocation of a component. The block `attrs` writes the attributes it is given. -/
  | component (name : String) (layout : Handle) (params : List Expression) (named : Named)
      (attrs template inverse : Option Handle)
  | openElement (tag : String)
  | flushElement
  | closeElement
  | staticAttr (name value : String) (space : Option String)
  | dynamicAttr (name : String) (value : Expression) (space : Option String) (trusting : Bool)
  | yield (name : String) (params : List Expression)
  | partialBlock (block : Handle)
  /-- The partial that `name` selects while rendering, among the given names and their code. -/
  | dynamicPartial (name : Expression) (names : List String) (blocks : List Handle)
  deriving Repr, Inhabited

/-- What a block is compiled from. -/
inductive Source where
  | entry (template : Template)
  | inline (table : TableId) (statements : List Resolved)
  | layout (template : Template)
  /-- A partial shares the names of the block that calls it. -/
  | includedIn (table : TableId) (template : Template)
  deriving Repr, Inhabited

/-- What a compilation asks about the names in a template. -/
structure Resolver where
  hasHelper : String → Bool
  hasModifier : String → Bool
  /-- The layout of the component of that name. -/
  layout? : String → Option Template
  partial? : String → Option Template
  /-- Every partial, for calls whose name is known only while rendering. -/
  partialNames : List String

end LiveTemplate
