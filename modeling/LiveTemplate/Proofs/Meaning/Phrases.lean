import LiveTemplate.Compile.Resolution
import LiveTemplate.Dom.Markup
import LiveTemplate.Proofs.Effects
import LiveTemplate.Render.Host

/-!
What the statements of a template say, told by recursion over them. Statements come in a row, in
which elements are opened and closed; `Phrase` is the tree that they spell. Its meaning is a list of
trees, told by reading references in the order of the statements. A block parameter stands for a
reference, since its value may change while the page lives.
-/

namespace LiveTemplate

/-- An attribute as a template writes it. -/
inductive Decoration where
  | static (name value : String) (space : Option String)
  | dynamic (name : String) (value : Expression) (space : Option String)

mutual

/-- A statement, or all of those that make an element. -/
inductive Phrase where
  | text (content : String)
  | comment (content : String)
  | append (value : Expression) (trusted : Bool)
  | element (tag : String) (attributes : List Decoration) (children : List Phrase)
  | conditional (param : Expression) (named : Named) (truthy falsy : Option Passage)
  | each (source : Expression) (named : Named) (item empty : Option Passage)

/-- A nested block with its parameters. -/
inductive Passage where
  | of (params : List String) (body : List Phrase)

end

/-! How phrases are spelled -/

/-- No component, partial or debugger is invoked by appending the expression. -/
def Expression.IsContent (resolver : Resolver) : Expression → Prop
  | .helper ⟨"partial", []⟩ .. | .helper ⟨"debugger", []⟩ .. | .unknown ⟨"debugger", []⟩ => False
  | .helper ⟨name, []⟩ .. => resolver.layout? name = none
  | .unknown ⟨name, []⟩ => resolver.hasHelper name = true ∨ resolver.layout? name = none
  | _ => True

def Expression.isLiteral : Expression → Bool
  | .literal _ => true
  | _ => false

def Decoration.Spelled : Decoration → Statement → Prop
  | .static name value space, statement => statement = .staticAttr name value space
  | .dynamic name value space, statement =>
    value.isLiteral = false ∧ ∃ trusting, statement = .dynamicAttr name value space trusting

def Decoration.AllSpelled : List Decoration → List Statement → Prop
  | [], statements => statements = []
  | first :: rest, statements => ∃ head tail, first.Spelled head ∧
      Decoration.AllSpelled rest tail ∧ statements = head :: tail

mutual

/-- An element is either opened and closed by statements of its own, or invoked as if it were a
component, which its name is not. -/
def Phrase.Spelled (template : Template) (resolver : Resolver) : Phrase → List Statement → Prop
  | .text content, statements => statements = [.text content]
  | .comment content, statements => statements = [.comment content]
  | .append value trusted, statements =>
    value.IsContent resolver ∧ statements = [.append value trusted]
  | .element tag attributes children, statements =>
    ∃ written inside, Phrase.AllSpelled template resolver children inside ∧
      ((∃ params, Decoration.AllSpelled attributes written ∧
        statements = .openElement tag params :: written ++ .flushElement :: inside ++
          [.closeElement]) ∨
      resolver.layout? tag = none ∧
        Decoration.AllSpelled attributes
          (written.filter fun statement => !Resolved.isArgument statement) ∧
        ∃ args locals, statements = [.component tag written args (.of inside locals)])
  | .conditional param named truthy falsy, statements =>
    ∃ name block inverse, resolver.layout? name = none ∧
      statements = [.block ⟨name, []⟩ [param] named block inverse] ∧
      ((name = "if" ∨ name = "with") ∧ Passage.Spelled template resolver truthy block ∧
          Passage.Spelled template resolver falsy inverse ∨
        name = "unless" ∧ Passage.Spelled template resolver falsy block ∧
          Passage.Spelled template resolver truthy inverse)
  | .each source named item empty, statements =>
    ∃ block inverse, resolver.layout? "each" = none ∧
      statements = [.block ⟨"each", []⟩ [source] named block inverse] ∧
      Passage.Spelled template resolver item block ∧
      Passage.Spelled template resolver empty inverse

def Phrase.AllSpelled (template : Template) (resolver : Resolver) :
    List Phrase → List Statement → Prop
  | [], statements => statements = []
  | first :: rest, statements => ∃ head tail, first.Spelled template resolver head ∧
      Phrase.AllSpelled template resolver rest tail ∧ statements = head ++ tail

/-- A block is written where it is used or elsewhere in the template. -/
def Passage.Spelled (template : Template) (resolver : Resolver) :
    Option Passage → Option BlockRef → Prop
  | none, ref => ref = none
  | some (.of params body), ref => ∃ written statements, ref = some written ∧
      template.block? written = .ok (.of statements params) ∧
      Phrase.AllSpelled template resolver body statements

end

/-- A prelude is an element around all the rest. -/
def Template.Spelled (template : Template) (resolver : Resolver) (phrases : List Phrase) : Prop :=
  match template.prelude with
  | none => Phrase.AllSpelled template resolver phrases template.block.statements
  | some prelude => ∃ tag params attributes written children,
      prelude = .openElement tag params :: written ∧
      Decoration.AllSpelled attributes written ∧
      Phrase.AllSpelled template resolver children template.block.statements ∧
      phrases = [.element tag attributes children]

/-! What expressions stand for -/

/-- What the names in a template stand for at some place. -/
structure Surroundings where
  hasHelper : String → Bool
  this : Reference
  /-- The parameters of the blocks around the place, the innermost first. -/
  bindings : List (String × Reference) := []

/-- Each name with the argument at its position. -/
def bindNames : List String → List Reference → List (String × Reference)
  | [], _ => []
  | name :: names, given => (name, given.headD (.const .undefined)) :: bindNames names given.tail

/-- Inside a block with these parameters. -/
def Surroundings.bind (around : Surroundings) (params : List String) (given : List Reference) :
    Surroundings :=
  { around with bindings := bindNames params given ++ around.bindings }

/-- The properties that are looked up one after the other. -/
def Reference.along (reference : Reference) (path : List String) : Reference :=
  path.foldl .property reference

mutual

/-- Outside of layouts there are neither arguments nor blocks to ask for. -/
def Expression.reference (around : Surroundings) : Expression → Reference
  | .literal value => .const value
  | .undefined | .argument _ => .const .undefined
  | .get path => ((around.bindings.lookup path.head).getD (.const .undefined)).along path.tail
  | .selfGet path => around.this.along path.toList
  | .unknown path =>
    if path.tail.isEmpty && around.hasHelper path.head then .helper path.head [] []
    else match around.bindings.lookup path.head with
      | some reference => reference.along path.tail
      | none => around.this.along path.toList
  | .concat parts => .concat (references around parts)
  | .hasBlock _ | .hasBlockParams _ => .const (.bool false)
  | .helper path params named =>
    match path with
    | ⟨"-get-dynamic-var", []⟩ =>
      .dynamicVar [] ((references around params).headD (.const .undefined))
    | ⟨name, _⟩ => .helper name (references around params) (namedReferences around named)

def Expression.references (around : Surroundings) : List Expression → List Reference
  | [] => []
  | first :: rest => first.reference around :: references around rest

def Expression.namedReferences (around : Surroundings) :
    List (String × Expression) → List (String × Reference)
  | [] => []
  | (name, first) :: rest => (name, first.reference around) :: namedReferences around rest

end

/-! What phrases say -/

/-- Why nothing is told. -/
inductive Mishap where
  | fault (fault : Fault)
  /-- Two elements of one list have this key. -/
  | repeated (key : Key)

abbrev Telling := EStateM Mishap Store

def Telling.reading {α : Type} (reading : Reading α) : Telling α := fun store =>
  match reading store with
  | .ok value store => .ok value store
  | .error fault store => .error (.fault fault) store

/-- The value that a reference has when it is shown. To notice when it changes, its tag is asked for
before and after. -/
def Reference.sample (helpers : Helpers) (reference : Reference) : Reading Value := do
  let cache ← Cache.ofReference helpers reference
  let _ ← cache.tag helpers
  return cache.last

/-- The attribute that a value gives. A missing or false value gives none, and true an empty one. -/
def Value.attribute? : Value → Option String
  | undefined | null | bool false => none
  | bool true => some ""
  | value => some value.content

/-- What is said of an attribute of an element, which is left out if it has no content. -/
structure Attribution where
  name : String
  space : Option String
  content : Option String

namespace Attribution

/-- The other one is about the same attribute. -/
abbrev Matches (word other : Attribution) : Prop :=
  other.name = word.name ∧ other.space = word.space

/-- What was said last of the attribute. -/
def lastWord (word : Attribution) (said : List Attribution) : Option String :=
  (said.filter fun other => word.Matches other).getLast?.bind content

/-- This begins an attribute that the element keeps: it gives one where there was none, and nothing
that is said later leaves it out. -/
abbrev Begins (word : Attribution) (earlier later : List Attribution) : Prop :=
  word.content.isSome ∧ word.lastWord earlier = none ∧
    ∀ other ∈ later, word.Matches other → other.content.isSome

/-- The attribute that is begun, with the content that it has in the end. -/
def attribute? (word : Attribution) (earlier later : List Attribution) : Option Attribute :=
  if word.Begins earlier later then
    (word.lastWord (word :: later)).map fun content => ⟨word.name, content, word.space⟩
  else none

/-- The attributes that are begun after what was said earlier. -/
def attributesAfter (earlier : List Attribution) : List Attribution → List Attribute
  | [] => []
  | first :: later =>
    (first.attribute? earlier later).toList ++ attributesAfter (earlier ++ [first]) later

/-- The attributes of an element of which this was said in turn. The last word on an attribute
counts, and the attribute stands where it was first given since it was last left out. -/
def attributes (said : List Attribution) : List Attribute := attributesAfter [] said

end Attribution

/-- What is said of the attributes of an element in turn. -/
def Decoration.attributions (host : Host) (around : Surroundings) :
    List Decoration → Telling (List Attribution)
  | [] => return []
  | .static name value space :: rest => do
    return ⟨name, space, some value⟩ :: (← Decoration.attributions host around rest)
  | .dynamic name value space :: rest => do
    let value ← Telling.reading ((value.reference around).sample host.helpers)
    return ⟨name, space, value.attribute?⟩ :: (← Decoration.attributions host around rest)

/-- An output that can be rendered again keeps its place by an empty comment. -/
def Tree.filled (trees : List Tree) : List Tree := if trees.isEmpty then [.comment ""] else trees

/-- The cells of an element that is shown for the first time. -/
def KeyedList.meet (keyed : KeyedList) (item : PassItem) : Reading ItemRefs := do
  let refs ← item.newRefs
  let artifacts ← Reading.artifacts keyed.list
  Reading.setArtifacts keyed.list (artifacts.append refs)
  return refs

/-- What is said of each element in turn, which no two of the same key may be. -/
def KeyedList.trees (keyed : KeyedList) (body : List Reference → Telling (List Tree)) :
    Pass → List Key → Telling (List Tree)
  | [], _ => return []
  | item :: rest, met =>
    if item.key ∈ met then throw (.repeated item.key)
    else do
      let refs ← Telling.reading (keyed.meet item)
      let first ← body [.cell refs.value, .cell refs.memo]
      return Tree.filled first ++ (← KeyedList.trees keyed body rest (item.key :: met))

/-- How the elements of what an `each` goes through get their keys. -/
def Reference.keyName (helpers : Helpers) (named : List (String × Reference)) : Reading String :=
  match Entries.get? "key" named with
  | some key => return (← key.read helpers).content
  | none => return ""

/-- The elements of a reference, with one cell for the value and one for the position of each. -/
def Host.keyed (host : Host) (source : Reference) (named : List (String × Reference)) :
    Reading KeyedList := do
  let key ← Reference.keyName host.helpers named
  KeyedList.ofIterable (← Reading.lift (host.iterable source key))

/-- What is told, or an empty comment. -/
def Telling.filled (telling : Telling (List Tree)) : Telling (List Tree) :=
  return Tree.filled (← telling)

/-- One or the other, as the host takes the value for true or false. -/
def Host.choose (host : Host) (given : Reference) (truthy falsy : Telling (List Tree)) :
    Telling (List Tree) := do
  let value ← Telling.reading (given.sample host.helpers)
  if host.holds value then truthy else falsy

/-- What is said of each element of a reference, or else of the whole if there are none. -/
def Host.forEach (host : Host) (source : Reference) (named : List (String × Reference))
    (body : List Reference → Telling (List Tree)) (empty : Telling (List Tree)) :
    Telling (List Tree) := do
  let keyed ← Telling.reading (host.keyed source named)
  let present ← Telling.reading (keyed.presence.sample host.helpers)
  if present.truthy then
    let pass ← Telling.reading (keyed.takePass host.helpers)
    keyed.trees body pass []
  else empty

mutual

def Phrase.trees (host : Host) (around : Surroundings) : Phrase → Telling (List Tree)
  | .text content => return [.text content]
  | .comment content => return [.comment content]
  | .append value trusted => do
    let value ← Telling.reading ((value.reference around).sample host.helpers)
    return [if trusted then .raw value.content else .text value.content]
  | .element tag attributes children => do
    let said ← Decoration.attributions host around attributes
    return [.element tag (Attribution.attributes said) (← Phrase.allTrees host around children)]
  | .conditional param _ truthy falsy =>
    let given := param.reference around
    Telling.filled <|
      if truthy.isNone && falsy.isNone then return []
      else host.choose given (Passage.trees host around [given] truthy)
        (Passage.trees host around [given] falsy)
  | .each source named item empty =>
    let given := source.reference around
    Telling.filled <|
      host.forEach given (Expression.namedReferences around named)
        (fun refs => Passage.trees host around refs item) (Passage.trees host around [given] empty)

def Phrase.allTrees (host : Host) (around : Surroundings) : List Phrase → Telling (List Tree)
  | [] => return []
  | first :: rest => do
    let trees ← first.trees host around
    return trees ++ (← Phrase.allTrees host around rest)

/-- What a block says whose parameters are given these references. -/
def Passage.trees (host : Host) (around : Surroundings) (given : List Reference) :
    Option Passage → Telling (List Tree)
  | none => return []
  | some (.of params body) => Phrase.allTrees host (around.bind params given) body

end

/-- What a whole template says about `this`. Its own parameters stand for nothing. -/
def Template.trees (template : Template) (host : Host) (hasHelper : String → Bool)
    (this : Reference) (phrases : List Phrase) : Telling (List Tree) := do
  let around : Surroundings := { hasHelper, this }
  return Tree.filled
    (← Phrase.allTrees host (around.bind template.block.locals []) phrases)

end LiveTemplate
