import LiveTemplate.Dom.Markup
import LiveTemplate.Render.Output
import LiveTemplate.Template.Document
import LiveTemplate.Workbench.Hooks

/-!
A place to try out templates: hosts that differ in what they decide, and sessions, in which a
template is rendered into a page of its own and its context replaced.
-/

namespace LiveTemplate.Workbench

/-- A registry of helpers, modifiers and components of the given kinds. -/
def registry (helpers modifiers : List (String × String))
    (components : List (String × String × Template)) (partials : List (String × Template)) :
    Registry :=
  let helpers := helpers.map fun (name, kind) => (name, helper kind)
  let find : Helpers := fun name => Entries.get? name helpers
  { helpers
    modifiers := modifiers.map fun (name, kind) => (name, modifierManager find kind)
    components := components.map fun (name, kind, layout) =>
      (name, componentManager find kind, layout)
    partials }

def isNonempty : Value → Bool
  | .list _ items => !items.isEmpty
  | .map _ entries => !entries.isEmpty
  | value => value.truthy

def positionKeys (source : Reference) (key : String) : Except RenderError Iterable :=
  match key with
  | "@bad" => .error (.host "bad key")
  | "@position" => .ok ⟨source, .index⟩
  | key => .ok ⟨source, KeyFor.parse key⟩

/-- A host of some kind: one for which only `true` is true, one for which empty lists and maps are
false, or one that decides nothing in particular. -/
def host (kind : String) (registry : Registry) : Host :=
  match kind with
  | "strict" => { registry, holds := fun value => value matches .bool true }
  | "nonempty" => { registry, holds := isNonempty, iterable := positionKeys }
  | _ => { registry }

/-- A page under way, with the cell that holds its context and the element it was rendered into. -/
structure Session where
  scene : Scene
  context : CellId
  root : NodeId
  output : Output

namespace Session

/-- Puts a new node under another. -/
def addNode (parent : NodeId) (data : NodeData) : Render NodeId := do
  let node ← Render.createNode data
  Render.setDom (← (← Render.dom).insert parent node none)
  return node

/-- An element to render into, and the node to render in front of. With `tail` the element has a
text at its start and one at its end. -/
def newRoot (tail : Bool) : Render (NodeId × Option NodeId) := do
  if tail then
    let root ← addNode Dom.document (.element "main" [])
    let _ ← addNode root (.text "head|")
    return (root, some (← addNode root (.text "|tail")))
  else return (← addNode Dom.document (.element "div" []), none)

/-- Renders the first entry of a program. -/
def start (scene : Scene) (context : CellId) (root : NodeId) (before : Option NodeId) :
    Render Session := do
  let entry ← scene.program.entry
  let output ← Output.render scene entry (.cell context) root before
  return { scene, context, root, output }

/-- Renders a program on a page that is set up for it, with a context that is made when the page is
ready. -/
def ofProgram (host : Host) (config : Config) (tail : Bool) (context : Reading Value)
    (program : CompiledProgram) : Render Session := do
  let (root, before) ← newRoot tail
  start ⟨host, program, config⟩ (← Reading.newCell (← context)) root before

/-- Replaces the context. The page is not changed by that. -/
def replaceContext (session : Session) (value : Value) : Render Unit := do
  let _ ← Reading.updateCell session.context value

def resetMutations : Render Unit := do
  Render.setDom (← Render.dom).resetMutations

def setFailures (count : Nat) : Render Unit := do
  Reading.modifyHost fun host => { host with failures := count }

/-- What was written into the log since it was last taken, the oldest line first. -/
def takeLog : Render (List String) := do
  let log := (← get).page.store.host.log
  Reading.modifyHost fun host => { host with log := [] }
  return log.reverse

end Session

end LiveTemplate.Workbench
