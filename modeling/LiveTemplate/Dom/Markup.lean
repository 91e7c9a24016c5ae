import LiveTemplate.Dom.Basic

/-!
Trees without the identity of their nodes, and the markup that shows them.
-/

namespace LiveTemplate

inductive Tree where
  | element (tag : String) (attributes : List Attribute) (children : List Tree)
  | text (content : String)
  | comment (content : String)
  | raw (markup : String)
  /-- The trees of a document. -/
  | all (children : List Tree)
  deriving Repr, Inhabited

namespace Tree

def escape (character : Char) : String :=
  match character with
  | '&' => "&amp;"
  | '<' => "&lt;"
  | '>' => "&gt;"
  | other => other.toString

def escapeQuoted (character : Char) : String :=
  if character = '"' then "&quot;" else escape character

def escapeAll (escape : Char → String) (content : String) : String :=
  String.join (content.toList.map escape)

def attributeMarkup (written : Attribute) : String :=
  let space := match written.space with
    | some space => space ++ ":"
    | none => ""
  " " ++ space ++ written.name ++ "=\"" ++ escapeAll escapeQuoted written.value ++ "\""

mutual

def markup : Tree → String
  | element tag attributes children =>
    s!"<{tag}" ++ String.join (attributes.map attributeMarkup) ++ ">" ++ markupAll children ++
      s!"</{tag}>"
  | text content => escapeAll escape content
  | comment content => s!"<!--{content}-->"
  | raw markup => markup
  | all children => markupAll children

def markupAll : List Tree → String
  | [] => ""
  | tree :: rest => tree.markup ++ markupAll rest

end

end Tree

namespace Dom

/-- The tree under a node, to a depth that no tree of so many nodes exceeds. -/
def treeTo (dom : Dom) : Nat → NodeId → Tree
  | 0, _ => .all []
  | depth + 1, id =>
    match dom.nodes[id]? with
    | none => .all []
    | some node =>
      match node.data with
      | .document => .all (node.children.map (treeTo dom depth))
      | .element tag attributes => .element tag attributes (node.children.map (treeTo dom depth))
      | .text content => .text content
      | .comment content => .comment content
      | .raw markup => .raw markup

def tree (dom : Dom) (id : NodeId) : Tree := dom.treeTo dom.nodes.size id

def descendantsTo (dom : Dom) : Nat → NodeId → List NodeId
  | 0, _ => []
  | depth + 1, id =>
    match dom.nodes[id]? with
    | none => []
    | some node => node.children.flatMap fun child => child :: descendantsTo dom depth child

/-- The nodes below a node in the order of the document. -/
def descendants (dom : Dom) (id : NodeId) : List NodeId := dom.descendantsTo dom.nodes.size id

/-- The node and those below it that are elements with that tag, in the order of the document. -/
def findAll (dom : Dom) (id : NodeId) (tag : String) : Except Defect (List NodeId) := do
  let _ ← dom.node id
  (id :: dom.descendants id).filterM fun id => return (← dom.tag id) = some tag

def outerMarkup (dom : Dom) (id : NodeId) : Except Defect String := do
  let _ ← dom.node id
  return (dom.tree id).markup

/-- The markup of the children of a node. -/
def innerMarkup (dom : Dom) (id : NodeId) : Except Defect String := do
  return Tree.markupAll ((← dom.children id).map dom.tree)

end Dom

end LiveTemplate
