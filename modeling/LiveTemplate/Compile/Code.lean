import LiveTemplate.Compile.Resolution

/-!
The code of expressions and statements. The code of an expression leaves one reference on the
operand stack. The code of a statement leaves the stack as it was.
-/

namespace LiveTemplate.Code

open Writing

/-- Where code is written: the block whose names it may use. -/
structure Place where
  resolver : Resolver
  names : SymbolView

def primitive (literal : Primitive) : Writing Unit := do
  emit .pushPrimitive (← sound literal.encode)

def literal : Value → Writing Unit
  | .undefined => primitive .undefined
  | .null => primitive .null
  | .bool value => primitive (.bool value)
  | .text content => do primitive (.text (← string content))
  | .int value =>
    if 0 ≤ value.toInt ∧ value.toInt ≤ Primitive.maxNumber then
      primitive (.number value.toInt.toNat)
    else do emit .pushImmediate (← pooled (Pool.addValue · (.int value)))
  | value => do emit .pushImmediate (← pooled (Pool.addValue · value))

/-- The properties that are looked up one after the other. -/
def keys : List String → Writing Unit
  | [] => pure ()
  | key :: rest => do
    emit .getKey (← string key)
    keys rest

def selfPath (path : List String) : Writing Unit := do
  emit .pushSelf
  keys path

def symbolPath (symbol : Symbol) (path : List String) : Writing Unit := do
  emit .pushSymbol symbol
  keys path

/-- A block that the invocation of the layout may have. A partial asks for it by name, since it
may be part of another layout. -/
def hasBlock (place : Place) (op : Op) (name : String) : Writing Unit := do
  match place.names.yield? name, place.names.partialArgs with
  | some symbol, _ => emit op symbol
  | none, some bag => emit op bag (← string name)
  | none, none => primitive (.bool false)

def onlyParam {α : Type} (name : String) : List α → Writing α
  | [param] => pure param
  | params => reject (.malformed name
    s!"expected exactly one positional parameter, got {params.length}")

/-- An instruction about the arguments on the stack: how many are positional, and the names of
the others. -/
def argumentList (op : Op) (positional : Nat) (names : List String) : Writing Unit := do
  emit op positional (← if names.isEmpty then pure 0 else strings names)

def call (name : String) : Writing Unit := do
  emit .helper (← string name)

mutual

def expression (place : Place) : Expression → Writing Unit
  | .literal value => literal value
  | .undefined => primitive .undefined
  | .get path =>
    match place.names.local? path.head with
    | some symbol => symbolPath symbol path.tail
    | none => reject (.unresolvedSymbol path.head)
  | .selfGet path => selfPath path.toList
  | .unknown path =>
    if path.tail.isEmpty && place.resolver.hasHelper path.head then do
      argumentList .pushArgs 0 []
      call path.head
    else match place.names.local? path.head with
      | some symbol => symbolPath symbol path.tail
      | none => selfPath path.toList
  | .argument path => do
    unless place.names.programKind = .layout do reject (.argumentOutsideComponent path.head)
    match place.names.named? path.head <|> place.names.named? ("@" ++ bareArgument path.head) with
    | some symbol => emit .pushSymbol symbol
    | none => primitive .undefined
    keys path.tail
  | .concat parts => do
    expressions place parts
    emit .concat parts.length
  | .hasBlock name => hasBlock place .hasBlock name
  | .hasBlockParams name => hasBlock place .hasBlockParams name
  | .helper path params named => do
    match path with
    | ⟨"-get-dynamic-var", []⟩ =>
      let _ ← onlyParam "-get-dynamic-var" params
      expressions place params
      emit .getDynamicVar
    | ⟨name, []⟩ =>
      unless place.resolver.hasHelper name do reject (.unknownHelper name)
      expressions place params
      namedExpressions place named
      argumentList .pushArgs params.length (named.map Prod.fst)
      call name
    | path => reject (.unknownHelper (".".intercalate path.toList))

def expressions (place : Place) : List Expression → Writing Unit
  | [] => pure ()
  | first :: rest => do
    expression place first
    expressions place rest

def namedExpressions (place : Place) : List (String × Expression) → Writing Unit
  | [] => pure ()
  | (_, first) :: rest => do
    expression place first
    namedExpressions place rest

end

/-- The arguments of an invocation, the positional ones first. -/
def arguments (place : Place) (op : Op) (params : List Expression) (named : Named) :
    Writing Unit := do
  expressions place params
  namedExpressions place named
  argumentList op params.length (named.map Prod.fst)

def evaluate (block : Option Handle) : Writing Unit :=
  match block with
  | some block => emit .evaluate block
  | none => pure ()

/-- Shows one block or the other, as the host takes the parameter for true or false. -/
def conditional (place : Place) (name : String) (params : List Expression) (named : Named)
    (truthy falsy : Option Handle) : Writing Unit := do
  let param ← onlyParam name params
  arguments place .putArgs params named
  let kind : TestKind := if param matches .literal _ then .const else .environment
  emit .test (← pooled (Pool.addFunction · kind))
  region do
    match truthy, falsy with
    | some truthy, some falsy =>
      let _ ← jump .jumpUnless "ELSE"
      emit .evaluate truthy
      let _ ← jump .jump "END"
      label "ELSE"
      emit .evaluate falsy
    | some truthy, none =>
      let _ ← jump .jumpUnless "END"
      emit .evaluate truthy
    | none, some falsy =>
      let _ ← jump .jumpIf "END"
      emit .evaluate falsy
    | none, none => pure ()

/-- Shows a block for each item, or the other one if there are none. -/
def each (place : Place) (params : List Expression) (named : Named)
    (item empty : Option Handle) : Writing Unit := do
  let _ ← onlyParam "each" params
  region do
    arguments place .putArgs params named
    emit .putIterator
    let _ ← jump .jumpUnless (if empty.isSome then "ELSE" else "END")
    loop (evaluate item)
    if let some empty := empty then
      let _ ← jump .jump "END"
      label "ELSE"
      emit .evaluate empty

def withDynamicVars (place : Place) (named : Named) (body : Option Handle) : Writing Unit := do
  arguments place .putArgs [] named
  emit .pushDynamicScope
  emit .bindDynamicScope (← strings (named.map Prod.fst))
  evaluate body
  emit .popDynamicScope

def builtin (place : Place) (name : String) (params : List Expression) (named : Named)
    (template inverse : Option Handle) : Writing Unit :=
  match name with
  | "if" | "with" => conditional place name params named template inverse
  | "unless" => conditional place name params named inverse template
  | "each" => each place params named template inverse
  | "-with-dynamic-vars" => withDynamicVars place named template
  | _ => reject (.unknownBlock name)

/-- Shows a block that was given to the layout. -/
def yieldTo (place : Place) (name : String) (params : List Expression) : Writing Unit := do
  expressions place params
  match place.names.yield? name, place.names.partialArgs with
  | some symbol, _ => emit .getBlock symbol
  | none, some bag => emit .getEvalBlock bag (← string name)
  | none, none => reject (.unknownBlock name)
  emit .openBlock params.length
  emit .closeBlock

def optionalString : Option String → Writing Handle
  | some content => string content
  | none => pure 0

def statement (place : Place) : Resolved → Writing Unit
  | .text content => do emit .text (← string content)
  | .comment content => do emit .comment (← string content)
  | .append value trusted => do
    expression place value
    emit .dynamicContent trusted.toNat
  | .modifier name params named => do
    unless place.resolver.hasModifier name do reject (.unknownModifier name)
    arguments place .pushArgs params named
    emit .modifier (← string name)
  | .block name params named template inverse =>
    builtin place name params named template inverse
  | .component name layout params named attrs template inverse => do
    emit .putComponent (← string name) layout
    arguments place .pushArgs params named
    emit .openComponent (attrs.getD 0) (template.getD 0) (inverse.getD 0)
    emit .closeComponent
  | .openElement tag => do emit .openElement (← string tag)
  | .flushElement => emit .flushElement
  | .closeElement => emit .closeElement
  | .staticAttr name value space => do
    let name ← string name
    let value ← string value
    emit .staticAttr name value (← optionalString space)
  | .dynamicAttr name value space trusting => do
    expression place value
    let name ← string name
    emit .dynamicAttr name (← optionalString space) trusting.toNat
  | .yield name params => yieldTo place name params
  | .partialBlock block => do
    emit .putPartial block
    emit .evaluatePartial
  | .dynamicPartial name names blocks => do
    expression place name
    withLocal fun slot => do
      emit .putLocal slot
      let names ← strings names
      let blocks ← array blocks
      region do
        emit .pushLocal slot
        emit .putDynamicPartial names blocks
        emit .evaluatePartial

def statements (place : Place) (code : List Resolved) : Writing Unit :=
  code.forM (statement place)

/-! Blocks -/

def bindParams (names : SymbolView) : Writing Unit := do
  unless names.params.isEmpty do
    emit .bindPositionalArgs (← array names.params)

/-- A template that is rendered on its own. -/
def entry (place : Place) (prelude : Option (List Resolved)) (body : List Resolved) :
    Writing Unit := do
  bindParams place.names
  if let some prelude := prelude then
    statements place prelude
    emit .flushElement
  statements place body
  if prelude.isSome then emit .closeElement

/-- A layout first binds what its invocation gave it. Its root element takes the attributes of the
invocation after its own. -/
def layout (place : Place) (prelude : Option (List Resolved)) (body : List Resolved) :
    Writing Unit := do
  let bind (op : Op) (slots : List (String × Symbol)) : Writing Unit := do
    let names ← strings (slots.map Prod.fst)
    emit op names (← array (slots.map Prod.snd))
  bind .bindNamedArgs <| place.names.program.named.map fun (name, symbol) =>
    (bareArgument name, symbol)
  emit .bindCallerScope
  bind .bindBlocks place.names.program.yields
  if let some bag := place.names.partialArgs then emit .bindPartialArgs bag
  if let some prelude := prelude then
    statements place prelude
    emit .didCreateElement
    yieldTo place attrsBlock []
    emit .flushElement
  statements place body
  if prelude.isSome then emit .closeElement
  emit .didRenderLayout

/-- A block written inside another. -/
def inline (place : Place) (body : List Resolved) : Writing Unit := do
  bindParams place.names
  statements place body

end LiveTemplate.Code
