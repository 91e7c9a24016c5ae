import LiveTemplate.Compile.Compilation

/-!
Resolving the statements of a template: which names are components, where the layouts and partials
are that they call, and which handles nested blocks have. Every block is registered before its code
is written, so that templates may call each other in circles.
-/

namespace LiveTemplate

/-- Argument names may be written with a sigil, which is no part of them. -/
def bareArgument (name : String) : String :=
  if name.startsWith "@" then (name.drop 1).toString else name

namespace Resolved

open Resolving

def partialCall (resolver : Resolver) (table : TableId) :
    List Expression → Resolving Resolved
  | [] => reject (.malformed "partial" "missing partial name")
  | .literal (.text name) :: _ => return .partialBlock (← partialFor resolver table name)
  | name :: _ => do
    let blocks ← resolver.partialNames.mapM (partialFor resolver table)
    return .dynamicPartial name resolver.partialNames blocks

/-- Appended names that no expression stands for: `partial`, `debugger` and components. -/
def appended (resolver : Resolver) (table : TableId) (value : Expression)
    (trusted : Bool) : Resolving (List Resolved) := do
  match value with
  | .helper ⟨"partial", []⟩ params _ => return [← partialCall resolver table params]
  | .helper ⟨"debugger", []⟩ .. | .unknown ⟨"debugger", []⟩ => return []
  | .helper ⟨name, []⟩ params named =>
    if let some layout ← layoutFor resolver name then
      return [component name layout params named none none none]
    return [append value trusted]
  | .unknown ⟨name, []⟩ =>
    unless resolver.hasHelper name do
      if let some layout ← layoutFor resolver name then
        return [component name layout [] [] none none none]
    return [append value trusted]
  | _ => return [append value trusted]

/-- A literal that is not trusted is the same every time. -/
def attributeOf (name : String) (value : Expression) (space : Option String)
    (trusting : Bool) : Resolved :=
  match value, trusting with
  | .literal constant, false => staticAttr name constant.content space
  | _, _ => dynamicAttr name value space trusting

/-- The arguments among the attributes of an invocation. -/
def arguments : List Statement → Named
  | [] => []
  | .staticArg name value :: rest | .dynamicArg name value :: rest =>
    (bareArgument name, value) :: arguments rest
  | _ :: rest => arguments rest

def isArgument : Statement → Bool
  | .staticArg .. | .dynamicArg .. => true
  | _ => false

mutual

/-- The statements that a statement stands for. Blocks that are written elsewhere in the template
are found by `elsewhere`. -/
def ofStatement (resolver : Resolver) (elsewhere : Nat → TableId → Resolving Handle)
    (table : TableId) : Statement → Resolving (List Resolved)
  | .text content => return [text content]
  | .comment content => return [comment content]
  | .append value trusted => appended resolver table value trusted
  | .modifier path params named =>
    match path with
    | ⟨name, []⟩ => return [modifier name params named]
    | path => reject (.unknownModifier (".".intercalate path.toList))
  | .block path params named template inverse => do
    match path with
    | ⟨name, []⟩ =>
      let template ← ofBlockRef? resolver elsewhere table template
      let inverse ← ofBlockRef? resolver elsewhere table inverse
      match ← layoutFor resolver name with
      | some layout => return [component name layout params named none template inverse]
      | none => return [block name params named template inverse]
    | path => reject (.invalidBlockName (".".intercalate path.toList))
  | .component tag attrs args body => do
    match ← layoutFor resolver tag with
    | none =>
      let attrs ← ofAttributes resolver elsewhere table attrs
      let content ← ofBody resolver elsewhere table body
      return [openElement tag] ++ attrs ++ [flushElement] ++ content ++ [closeElement]
    | some layout =>
      let named := args.map (fun (name, value) => (bareArgument name, value)) ++ arguments attrs
      let shadow ←
        if attrs.all isArgument then pure none
        else do
          let inner ← newTable table []
          let statements ← ofAttributes resolver elsewhere inner attrs
          pure (some (← enqueue (.inline inner statements)))
      let template ←
        if body.statements.isEmpty then pure none
        else do
          let handle ← ofBlock resolver elsewhere table body
          pure (some handle)
      return [component tag layout [] named shadow template none]
  | .openElement tag _ => return [openElement tag]
  | .flushElement => return [flushElement]
  | .closeElement => return [closeElement]
  | .staticAttr name value space => return [staticAttr name value space]
  | .dynamicAttr name value space trusting => return [attributeOf name value space trusting]
  | .staticArg name _ | .dynamicArg name _ =>
    reject (.malformed "arg" s!"{name} outside of a component invocation")
  | .yield name params => return [.yield name params]

def ofStatements (resolver : Resolver) (elsewhere : Nat → TableId → Resolving Handle)
    (table : TableId) : List Statement → Resolving (List Resolved)
  | [] => return []
  | statement :: rest => do
    let first ← ofStatement resolver elsewhere table statement
    return first ++ (← ofStatements resolver elsewhere table rest)

/-- The attributes of an invocation without its arguments. -/
def ofAttributes (resolver : Resolver) (elsewhere : Nat → TableId → Resolving Handle)
    (table : TableId) : List Statement → Resolving (List Resolved)
  | [] => return []
  | statement :: rest => do
    if isArgument statement then ofAttributes resolver elsewhere table rest
    else
      let first ← ofStatement resolver elsewhere table statement
      return first ++ (← ofAttributes resolver elsewhere table rest)

/-- The statements of a block that stays where it is. -/
def ofBody (resolver : Resolver) (elsewhere : Nat → TableId → Resolving Handle)
    (table : TableId) : Block → Resolving (List Resolved)
  | .of statements _ => ofStatements resolver elsewhere table statements

/-- Registers a block that is nested in the one of `table`. -/
def ofBlock (resolver : Resolver) (elsewhere : Nat → TableId → Resolving Handle)
    (table : TableId) : Block → Resolving Handle
  | .of statements locals => do
    let inner ← newTable table locals
    let statements ← ofStatements resolver elsewhere inner statements
    enqueue (.inline inner statements)

def ofBlockRef (resolver : Resolver) (elsewhere : Nat → TableId → Resolving Handle)
    (table : TableId) : BlockRef → Resolving Handle
  | .index position => elsewhere position table
  | .inline written => ofBlock resolver elsewhere table written

def ofBlockRef? (resolver : Resolver) (elsewhere : Nat → TableId → Resolving Handle)
    (table : TableId) : Option BlockRef → Resolving (Option Handle)
  | none => return none
  | some ref => return some (← ofBlockRef resolver elsewhere table ref)

end

/-- The block at a position of the template, seen from the block of `table`. Among `depth` blocks
no longer chain of references is without a cycle. -/
def blockAt (resolver : Resolver) (template : Template) :
    Nat → Nat → TableId → Resolving Handle
  | depth, position, table => do
    let found ← rejectBy (template.block? (.index position))
    match depth with
    | 0 => throw (.broken .endless)
    | depth + 1 => ofBlock resolver (blockAt resolver template depth) table found

/-- The statements of a template that belong to the block of `table`. -/
def within (resolver : Resolver) (template : Template) (table : TableId)
    (statements : List Statement) : Resolving (List Resolved) :=
  ofStatements resolver (blockAt resolver template template.blocks.length) table statements

end Resolved

end LiveTemplate
