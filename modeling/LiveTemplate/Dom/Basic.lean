import LiveTemplate.Fault

/-!
The tree that is rendered into: nodes with numbers that stay theirs, and a count of the changes made
where they can be seen. Node zero is the document. A node that is in no child list is detached, and
what happens to it is not counted.
-/

namespace LiveTemplate

abbrev NodeId := Nat

structure Attribute where
  name : String
  value : String
  space : Option String
  deriving Repr, DecidableEq, Inhabited

inductive NodeData where
  | document
  | element (tag : String) (attributes : List Attribute)
  | text (content : String)
  | comment (content : String)
  /-- Markup that is written as it is. -/
  | raw (markup : String)
  deriving Repr, DecidableEq, Inhabited

structure Node where
  data : NodeData
  parent : Option NodeId := none
  children : List NodeId := []
  deriving Repr, DecidableEq, Inhabited

structure Dom where
  nodes : Array Node := #[{ data := .document }]
  mutations : Nat := 0
  deriving Repr, DecidableEq, Inhabited

/-- A list with `node` in front of `before`, or at the end if that is not in it. -/
def insertNode (node : NodeId) (before : Option NodeId) : List NodeId → List NodeId
  | [] => [node]
  | other :: rest =>
    if some other = before then node :: other :: rest else other :: insertNode node before rest

namespace Dom

def document : NodeId := 0

def node (dom : Dom) (id : NodeId) : Except Defect Node :=
  match dom.nodes[id]? with
  | some node => .ok node
  | none => .error .outOfRange

def create (dom : Dom) (data : NodeData) : NodeId × Dom :=
  (dom.nodes.size, { dom with nodes := dom.nodes.push { data } })

def parent (dom : Dom) (id : NodeId) : Except Defect (Option NodeId) :=
  return (← dom.node id).parent

def children (dom : Dom) (id : NodeId) : Except Defect (List NodeId) :=
  return (← dom.node id).children

def tag (dom : Dom) (id : NodeId) : Except Defect (Option String) := do
  match (← dom.node id).data with
  | .element tag _ => return some tag
  | _ => return none

/-- The content of a text, a comment or raw markup. -/
def content (dom : Dom) (id : NodeId) : Except Defect (Option String) := do
  match (← dom.node id).data with
  | .text content | .comment content | .raw content => return some content
  | _ => return none

/-- The value of the first attribute of that name, in any namespace. -/
def attributeValue (dom : Dom) (id : NodeId) (name : String) : Except Defect (Option String) := do
  match (← dom.node id).data with
  | .element _ attributes => return (attributes.find? (·.name = name)).map Attribute.value
  | _ => return none

def nextSibling (dom : Dom) (id : NodeId) : Except Defect (Option NodeId) := do
  match (← dom.node id).parent with
  | none => return none
  | some parent => return (((← dom.children parent).dropWhile (· ≠ id)).drop 1).head?

/-! Changes -/

def replace (dom : Dom) (id : NodeId) (node : Node) : Dom :=
  { dom with nodes := dom.nodes.setIfInBounds id node }

def count (dom : Dom) : Dom := { dom with mutations := dom.mutations + 1 }

def resetMutations (dom : Dom) : Dom := { dom with mutations := 0 }

def setData (dom : Dom) (id : NodeId) (node : Node) (data : NodeData) : Dom :=
  let dom := dom.replace id { node with data }
  if node.parent.isSome then dom.count else dom

def putAttribute (fresh : Attribute) : List Attribute → List Attribute
  | [] => [fresh]
  | old :: rest =>
    if old.name = fresh.name ∧ old.space = fresh.space then fresh :: rest
    else old :: putAttribute fresh rest

/-- Gives an element an attribute, in place of the one of that name and namespace. -/
def setAttribute (dom : Dom) (id : NodeId) (fresh : Attribute) : Except Defect Dom := do
  let node ← dom.node id
  match node.data with
  | .element tag attributes =>
    return dom.setData id node (.element tag (putAttribute fresh attributes))
  | _ => throw (.attributeOnNonElement fresh.name id)

def removeAttribute (dom : Dom) (id : NodeId) (name : String) (space : Option String) :
    Except Defect Dom := do
  let node ← dom.node id
  match node.data with
  | .element tag attributes =>
    let others := attributes.filter fun other => ¬(other.name = name ∧ other.space = space)
    return dom.setData id node (.element tag others)
  | data => return dom.setData id node data

/-- Takes a node out of the child list it is in. -/
def detach (dom : Dom) (id : NodeId) : Except Defect Dom := do
  let node ← dom.node id
  match node.parent with
  | none => return dom
  | some parent =>
    let dom := dom.replace id { node with parent := none }
    let around ← dom.node parent
    return dom.replace parent { around with children := around.children.filter (· ≠ id) }

/-- Puts a node under `parent` in front of `before`, or last. It leaves the place it had. -/
def insert (dom : Dom) (parent id : NodeId) (before : Option NodeId) : Except Defect Dom := do
  let dom ← dom.detach id
  let around ← dom.node parent
  let dom := dom.replace parent { around with children := insertNode id before around.children }
  let node ← dom.node id
  return (dom.replace id { node with parent := some parent }).count

def setContent (dom : Dom) (id : NodeId) (content : String) : Except Defect Dom := do
  let node ← dom.node id
  let put (data : NodeData) : Dom := (dom.replace id { node with data }).count
  match node.data with
  | .text _ => return put (.text content)
  | .comment _ => return put (.comment content)
  | .raw _ => return put (.raw content)
  | _ => throw (.textOnElement id)

/-- Detaches a node that is under `parent`. -/
def remove (dom : Dom) (parent id : NodeId) : Except Defect Dom := do
  if (← dom.parent id) = some parent then return (← dom.detach id).count
  else throw .outOfRange

/-! Ranges of siblings -/

/-- The nodes from `first` to `last`, which must be siblings in that order. -/
def span (dom : Dom) (first last : NodeId) : Except Defect (List NodeId) := do
  if first = last then return [first]
  else
    let siblings ← match ← dom.parent first with
      | some parent => dom.children parent
      | none => pure []
    let following := siblings.dropWhile (· ≠ first)
    if last ∈ following then return following.takeWhile (· ≠ last) ++ [last]
    else throw (.notSiblings first last)

/-- Detaches the nodes from `first` to `last`, and tells which one followed them. -/
def clear (dom : Dom) (parent first last : NodeId) : Except Defect (Dom × Option NodeId) := do
  let next ← dom.nextSibling last
  let nodes ← dom.span first last
  return (← nodes.foldlM (fun dom id => dom.remove parent id) dom, next)

/-- Moves the nodes from `first` to `last` in front of `before`, or to the end. -/
def moveBefore (dom : Dom) (parent first last : NodeId) (before : Option NodeId) :
    Except Defect Dom := do
  (← dom.span first last).foldlM (fun dom id => dom.insert parent id before) dom

end Dom

end LiveTemplate
