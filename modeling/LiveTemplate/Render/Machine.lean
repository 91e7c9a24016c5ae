import LiveTemplate.Render.Region

/-!
The machine that runs a program and appends to the page. It keeps a stack of frames, one for each
block that is running; a stack of operands; the elements that are open and the extents that are
being appended to; and the regions whose output is not complete.
-/

namespace LiveTemplate

structure Frame where
  /-- The position of the next instruction. -/
  next : Nat
  slice : Slice
  scope : ScopeId
  /-- The dynamic variables, those of the innermost scope first. -/
  ambient : List Variables
  registers : Registers := {}
  locals : List (Option Reference) := []
  /-- The rest is only for the instructions that follow, and is not captured. -/
  iterator : Option FirstPass := none
  key : Option Key := none
  /-- In a layout, the component that it belongs to and the extent of its output. -/
  component : Option (Component × ExtentId) := none
  /-- The component that is invoked next, with the handle of its layout. -/
  definition : Option (String × ComponentManager × Handle) := none
  partialBlock : Option Handle := none
  caller : Option ScopeId := none
  deriving Inhabited

inductive Operand where
  | reference (reference : Reference)
  | arguments (invocation : Invocation)
  | block (block : Option Handle)
  deriving Inhabited

/-- An extent that is being appended to. -/
inductive Tracker where
  /-- `nesting` counts the elements that were opened in the block. Only what is appended outside of
  them extends it. -/
  | block (extent : ExtentId) (nesting : Nat)
  | list (extent : ExtentId)
  deriving Repr, Inhabited

/-- A region whose output is not complete. -/
inductive Builder where
  | root (content : Content)
  /-- An item of a list has a key. -/
  | region (slice : Slice) (captured : Captured) (extent : ExtentId) (key : Option Key)
      (content : Content)
  | list (list : ListRegion)
  deriving Inhabited

structure Machine where
  world : World
  frames : List Frame := []
  operands : List Operand := []
  /-- The open elements, each with the node in front of which its children go. -/
  elements : List (NodeId × Option NodeId)
  /-- The element that gets its attributes. -/
  constructing : Option NodeId := none
  trackers : List Tracker
  builders : List Builder := [.root {}]
  /-- The components whose layout is not complete: how many regions were open, and how many updates
  the innermost one of them had. -/
  groups : List (Nat × Nat) := []
  deriving Inhabited

abbrev Running := EStateM Fault Machine

namespace Running

def onWorld {α : Type} (action : Render α) : Running α := fun machine =>
  match action machine.world with
  | .ok value world => .ok value { machine with world }
  | .error fault world => .error fault { machine with world }

instance : MonadLift (EStateM Fault World) (EStateM Fault Machine) := ⟨onWorld⟩

def broken {α : Type} (defect : Defect) : Running α := throw (.broken defect)

def fail {α : Type} (error : RenderError) : Running α := throw (.failed error)

/-! Frames -/

def frame : Running Frame := do
  match (← get).frames with
  | frame :: _ => return frame
  | [] => broken .noFrame

def modifyFrame (change : Frame → Frame) : Running Unit := do
  match (← get).frames with
  | frame :: outer => modify fun machine => { machine with frames := change frame :: outer }
  | [] => broken .noFrame

def modifyRegisters (change : Registers → Registers) : Running Unit :=
  modifyFrame fun frame => { frame with registers := change frame.registers }

def countStats (change : Stats → Stats) : Render Unit :=
  modify fun world => { world with stats := change world.stats }

def pushFrame (scene : Scene) (frame : Frame) : Running Unit := do
  let depth := (← get).frames.length
  if depth ≥ scene.config.maxFrameDepth then fail (.stackOverflow depth)
  modify fun machine => { machine with frames := frame :: machine.frames }
  countStats fun stats => { stats with framePushes := stats.framePushes + 1 }

def popFrame : Running Unit := do
  modify fun machine => { machine with frames := machine.frames.drop 1 }
  countStats fun stats => { stats with framePops := stats.framePops + 1 }

/-- The dynamic variables that can be seen now. -/
def ambient : Running Variables := do
  match (← frame).ambient with
  | visible :: _ => return visible
  | [] => broken .noDynamicScope

/-- Starts the code of a block. -/
def call (scene : Scene) (slice : Slice) (invocation : Invocation) (scope : ScopeId)
    (change : Frame → Frame := id) : Running Unit := do
  pushFrame scene (change {
    next := slice.start
    slice
    scope
    ambient := [← ambient]
    registers := { invocation } })

/-- Goes on at a position of the slice, or at its end. -/
def goto (target : Nat) : Running Unit := do
  let slice := (← frame).slice
  if target < slice.start ∨ slice.stop < target then
    broken (.jumpOutside target slice.start slice.stop)
  modifyFrame fun frame => { frame with next := target }

/-- What a region that begins now keeps. -/
def capture : Running Captured := do
  let frame ← frame
  return { registers := frame.registers, locals := frame.locals, scope := frame.scope,
           ambient := ← ambient }

/-! Scopes -/

def scope : Running Scope := do
  (← get).world.scopes.get (← frame).scope

def modifyScope (change : Scope → Scope) : Running Unit := do
  let scopes ← (← get).world.scopes.modify (← frame).scope change
  Render.setScopes scopes

def bind (symbol : Symbol) (slot : Slot) : Running Unit :=
  modifyScope fun scope => scope.bind symbol slot

/-! Regions -/

def modifyContent (change : Content → Content) : Running Unit := do
  let put (builder : Builder) (outer : List Builder) : Running Unit :=
    modify fun machine => { machine with builders := builder :: outer }
  match (← get).builders with
  | .root content :: outer => put (.root (change content)) outer
  | .region slice captured extent key content :: outer =>
    put (.region slice captured extent key (change content)) outer
  | .list _ :: _ => broken .recordedInList
  | [] => broken .noOpenRegion

def content : Running Content := do
  match (← get).builders with
  | .root content :: _ | .region _ _ _ _ content :: _ => return content
  | .list _ :: _ => broken .recordedInList
  | [] => broken .noOpenRegion

def record (update : Update) : Running Unit :=
  modifyContent fun content => { content with updates := content.updates ++ [update] }

def own (owned : Owned) : Running Unit :=
  modifyContent fun content => { content with owned := content.owned ++ [owned] }

def ownScope (scope : ScopeId) : Running Unit :=
  modifyContent fun content => { content with scopes := content.scopes ++ [scope] }

/-- A scope for a block in `parent`. A block without parameters needs none of its own. -/
def blockScope (block : CompiledBlock) (parent : ScopeId) : Running ScopeId := do
  if block.params.isEmpty then return parent
  else
    let (scope, scopes) ← (← get).world.scopes.child parent
    Render.setScopes scopes
    ownScope scope
    return scope

/-! Operands -/

def push (operand : Operand) : Running Unit :=
  modify fun machine => { machine with operands := operand :: machine.operands }

def pushReference (reference : Reference) : Running Unit := push (.reference reference)

def pushConst (value : Value) : Running Unit := pushReference (.const value)

def pop : Running (Option Operand) :=
  modifyGet fun machine => match machine.operands with
    | operand :: rest => (some operand, { machine with operands := rest })
    | [] => (none, machine)

def popReference : Running Reference := do
  match ← pop with
  | some (.reference reference) => return reference
  | _ => broken .expectedReference

def popArguments : Running Invocation := do
  match ← pop with
  | some (.arguments invocation) => return invocation
  | _ => broken .expectedArguments

def popBlock : Running (Option Handle) := do
  match ← pop with
  | some (.block block) => return block
  | _ => broken .expectedBlock

def popMany : Nat → List Reference → Running (List Reference)
  | 0, references => return references
  | count + 1, references => do popMany count ((← popReference) :: references)

/-- The last references, in the order in which they were pushed. -/
def popReferences (count : Nat) : Running (List Reference) := do
  if (← get).operands.length < count then broken (.stackUnderflow count)
  popMany count []

/-! Elements -/

/-- The element that is appended to, and the node in front of which new nodes go. -/
def place : Running (NodeId × Option NodeId) := do
  match (← get).elements with
  | place :: _ => return place
  | [] => broken .noElement

def constructing : Running NodeId := do
  match (← get).constructing with
  | some element => return element
  | none => broken .noElementUnderConstruction

/-- Extends the innermost extent. -/
def didAppend (piece : Piece) : Running Unit := do
  match (← get).trackers with
  | .block extent 0 :: _ => do Render.setExtents (← (← Render.extents).append extent piece)
  | .block _ _ :: _ => return
  | .list _ :: _ => broken .contentInList
  | [] => broken .noOpenBlock

def insert (node : NodeId) : Running Unit := do
  let (element, before) ← place
  Render.setDom (← (← Render.dom).insert element node before)
  didAppend (.node node)

def appendNode (data : NodeData) : Running NodeId := do
  let node ← Render.createNode data
  insert node
  return node

def openElement (tag : String) : Running Unit := do
  if (← get).constructing.isSome then broken .nestedOpenElement
  let element ← Render.createNode (.element tag [])
  modify fun machine => { machine with constructing := some element }

def setAttribute (name value : String) (space : Option String) : Running Unit := do
  Render.setDom (← (← Render.dom).setAttribute (← constructing) ⟨name, value, space⟩)

/-- Puts the element into its place and goes on inside of it. -/
def flushElement : Running Unit := do
  let element ← constructing
  modify fun machine => { machine with constructing := none }
  insert element
  modify fun machine =>
    let trackers := match machine.trackers with
      | .block extent nesting :: outer => .block extent (nesting + 1) :: outer
      | trackers => trackers
    { machine with elements := (element, none) :: machine.elements, trackers }

def closeElement : Running Unit := do
  match (← get).elements with
  | _ :: outer :: rest =>
    modify fun machine => { machine with elements := outer :: rest }
    match (← get).trackers with
    | .block _ 0 :: _ => broken .outOfRange
    | .block extent (nesting + 1) :: trackers =>
      modify fun machine => { machine with trackers := .block extent nesting :: trackers }
    | _ => return
  | _ => broken .closedRootElement

def track (tracker : Tracker) : Running Unit :=
  modify fun machine => { machine with trackers := tracker :: machine.trackers }

def pushBlock : Running ExtentId := do
  let extent ← Render.newBlock (← place).1
  track (.block extent 0)
  return extent

def pushList : Running ExtentId := do
  let extent ← Render.newList (← place).1
  track (.list extent)
  return extent

/-- Ends the innermost extent and makes it a piece of the one around it. -/
def popTracker : Running Unit := do
  match (← get).trackers with
  | tracker :: outer :: rest =>
    modify fun machine => { machine with trackers := outer :: rest }
    match tracker, outer with
    | .block extent _, .list around => do
      Render.setExtents (← (← Render.extents).addItem around extent)
    | .block extent _, _ | .list extent, _ => do
      unless ← (← Render.extents).isEmpty extent do didAppend (.extent extent)
  | _ => broken .poppedRootBlock

/-- Ends a block or list. An empty block gets a comment, so that it has a place to be rendered at
again. -/
def popExtent : Running Unit := do
  if let .block extent _ :: _ := (← get).trackers then
    if ← (← Render.extents).isEmpty extent then
      let _ ← appendNode (.comment "")
  popTracker

end Running

end LiveTemplate
