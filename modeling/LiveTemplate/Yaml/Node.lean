import LiveTemplate.Yaml.Lexer

/-!
The document that the tokens of a YAML text make up: scalars, sequences and mappings, each with its
tag. A reference to an anchor stands for a copy of what has been anchored.
-/

namespace LiveTemplate.Yaml

inductive Node where
  | scalar (tag : Option String) (plain : Bool) (text : String)
  | sequence (tag : Option String) (items : List Node)
  | mapping (tag : Option String) (entries : List (Node × Node))
  deriving Repr, Inhabited

/-- What stands where nothing is written. -/
def Node.blank : Node := .scalar none true ""

/-- What has been read so far. An anchor on a collection names nothing until that is complete. -/
structure Stream where
  tokens : List Token
  anchors : List (String × Option Node) := []
  handles : List (String × String) := []

abbrev Reader := StateT Stream Option

namespace Reader

def peek : Reader (Option Token) := do return (← get).tokens.head?

def skip : Reader Unit := modify fun stream => { stream with tokens := stream.tokens.tail }

/-- Takes a token if it is the next one. -/
def take (token : Token) : Reader Bool := do
  if (← peek) = some token then
    skip
    return true
  else return false

/-- Takes the separator in front of every element but the first. -/
def takeSeparator (first : Bool) : Reader Bool :=
  if first then return true else take .separator

def bindAnchor (anchor : Option String) (node : Option Node) : Reader Unit :=
  match anchor with
  | some name => modify fun stream => { stream with anchors := (name, node) :: stream.anchors }
  | none => return

def anchor? : Reader (Option String) := do
  match ← peek with
  | some (.anchor name) =>
    skip
    return some name
  | _ => return none

/-- The meaning of a tag. A handle that was not declared is an error, but for the usual two. -/
def tag? : Reader (Option String) := do
  match ← peek with
  | some (.tag handle suffix) =>
    skip
    if handle.isEmpty then return some suffix
    else match (← get).handles.lookup handle with
      | some meaning => return some (meaning ++ suffix)
      | none => failure
  | _ => return none

/-- An anchor and a tag in either order. -/
def properties : Reader (Option String × Option String) := do
  match ← anchor? with
  | some anchor => return (some anchor, ← tag?)
  | none =>
    let tag ← tag?
    return (← anchor?, tag)

mutual

/-- Reads a node. Outside of flow collections it may be a block, and after a key also a sequence
that is not indented. -/
def node : (fuel : Nat) → (inBlock afterKey : Bool) → Reader Node
  | 0, _, _ => failure
  | fuel + 1, inBlock, afterKey => do
    if let some (.reference name) ← peek then
      skip
      match (← get).anchors.lookup name with
      | some (some node) => return node
      | _ => failure
    else
      let (anchor, tag) ← properties
      bindAnchor anchor none
      let node ← content fuel inBlock afterKey anchor tag
      bindAnchor anchor (some node)
      return node

def content : (fuel : Nat) → (inBlock afterKey : Bool) → (anchor tag : Option String) →
    Reader Node
  | 0, _, _, _, _ => failure
  | fuel + 1, inBlock, afterKey, anchor, tag => do
    match ← peek with
    | some (.scalar plain text) =>
      skip
      return .scalar (tag.filter (· ≠ "!")) plain text
    | some .flowSequence =>
      skip
      return .sequence tag (← flowItems fuel true)
    | some .flowMapping =>
      skip
      return .mapping tag (← flowEntries fuel true)
    | some .item =>
      if afterKey then return .sequence tag (← openItems fuel)
      else vacant anchor tag
    | some .blockSequence =>
      if inBlock then
        skip
        return .sequence tag (← blockItems fuel)
      else vacant anchor tag
    | some .blockMapping =>
      if inBlock then
        skip
        return .mapping tag (← blockEntries fuel)
      else vacant anchor tag
    | _ => vacant anchor tag

/-- A place with properties but without content. -/
def vacant (anchor tag : Option String) : Reader Node :=
  if anchor.isSome || tag.isSome then return .scalar tag true "" else failure

/-- A node, or nothing in front of one of the given tokens. -/
def nodeUnless : (fuel : Nat) → (inBlock afterKey : Bool) → List Token → Reader Node
  | 0, _, _, _ => failure
  | fuel + 1, inBlock, afterKey, stops => do
    if (← peek).any (· ∈ stops) then return .blank else node fuel inBlock afterKey

/-- The value after a key, if there is one. -/
def valueUnless : (fuel : Nat) → (inBlock : Bool) → List Token → Reader Node
  | 0, _, _ => failure
  | fuel + 1, inBlock, stops => do
    if ← take .value then nodeUnless fuel inBlock inBlock stops else return .blank

def blockItems : Nat → Reader (List Node)
  | 0 => failure
  | fuel + 1 => do
    if ← take .blockEnd then return []
    else if ← take .item then
      let node ← nodeUnless fuel true false [.item, .blockEnd]
      return node :: (← blockItems fuel)
    else failure

/-- The items of a sequence that stands no deeper than the key in front of it. -/
def openItems : Nat → Reader (List Node)
  | 0 => failure
  | fuel + 1 => do
    if ← take .item then
      let node ← nodeUnless fuel true false [.item, .key, .value, .blockEnd]
      return node :: (← openItems fuel)
    else return []

def blockEntries : Nat → Reader (List (Node × Node))
  | 0 => failure
  | fuel + 1 => do
    if ← take .blockEnd then return []
    else if ← take .key then
      let key ← nodeUnless fuel true true [.key, .value, .blockEnd]
      let value ← valueUnless fuel true [.key, .value, .blockEnd]
      return (key, value) :: (← blockEntries fuel)
    else failure

/-- The items of a sequence in brackets. One with a colon is a mapping of one entry. -/
def flowItems : (fuel : Nat) → (first : Bool) → Reader (List Node)
  | 0, _ => failure
  | fuel + 1, first => do
    if ← take .flowSequenceEnd then return []
    else if !(← takeSeparator first) then failure
    else if ← take .flowSequenceEnd then return []
    else if ← take .key then
      let key ← node fuel false false
      let value ← valueUnless fuel false [.separator, .flowSequenceEnd]
      return .mapping none [(key, value)] :: (← flowItems fuel false)
    else
      let item ← node fuel false false
      return item :: (← flowItems fuel false)

/-- The entries of a mapping in braces. One may be a key alone. -/
def flowEntries : (fuel : Nat) → (first : Bool) → Reader (List (Node × Node))
  | 0, _ => failure
  | fuel + 1, first => do
    if ← take .flowMappingEnd then return []
    else if !(← takeSeparator first) then failure
    else if ← take .flowMappingEnd then return []
    else if ← take .key then
      let key ← nodeUnless fuel false false [.value, .separator, .flowMappingEnd]
      let value ← valueUnless fuel false [.separator, .flowMappingEnd]
      return (key, value) :: (← flowEntries fuel false)
    else
      let key ← node fuel false false
      return (key, .blank) :: (← flowEntries fuel false)

end

/-- Directives, each at most once for a version or a handle. -/
def directives : (tokens : List Token) → (versioned : Bool) → (handles : List (String × String)) →
    Option (List Token × List (String × String))
  | .version major minor :: rest, versioned, handles =>
    if versioned || major ≠ 1 || (minor ≠ 1 && minor ≠ 2) then none
    else directives rest true handles
  | .tagHandle handle meaning :: rest, versioned, handles =>
    if (handles.lookup handle).isSome then none
    else directives rest versioned ((handle, meaning) :: handles)
  | tokens, _, handles => some (tokens, handles)

def usualHandles : List (String × String) := [("!", "!"), ("!!", "tag:yaml.org,2002:")]

/-- The one document of a text, if that has any. -/
def document? (tokens : List Token) : Option (Option Node) := do
  let fuel := 4 * tokens.length + 4
  let (rest, declared) ← directives tokens false []
  let marked := rest.head? = some .documentStart
  if tokens.isEmpty then return none
  else if rest.length < tokens.length && !marked then none
  else
    let rest := if marked then rest.drop 1 else rest
    let stream : Stream := { tokens := rest, handles := declared ++ usualHandles }
    let isVacant := marked && match rest with
      | [] | .documentStart :: _ | .documentEnd :: _ | .version .. :: _ | .tagHandle .. :: _ => true
      | _ => false
    let (node, stream) ←
      if isVacant then some (Node.blank, stream) else node fuel true false stream
    if (stream.tokens.dropWhile (· = .documentEnd)).isEmpty then return some node else none

end Reader

/-- Reads a text. It may hold no document, but not more than one. -/
def read? (source : String) : Option (Option Node) := (tokens? source).bind Reader.document?

end LiveTemplate.Yaml
