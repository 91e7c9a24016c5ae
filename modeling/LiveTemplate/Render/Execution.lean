import LiveTemplate.Render.Instructions

/-!
How a slice is run from its start to its end. A run that fails takes back what it appended and
releases the scopes it allocated.
-/

namespace LiveTemplate

namespace Running

variable (scene : Scene)

/-- Carries out one instruction. -/
def step (instruction : Instruction) : Running Unit := do
  let ⟨op, first, second, third⟩ := instruction
  match op with
  | .text => do let _ ← appendNode (.text (← string scene first))
  | .comment => do let _ ← appendNode (.comment (← string scene first))
  | .openElement => do openElement (← string scene first)
  | .flushElement => flushElement
  | .closeElement => closeElement
  | .staticAttr => do
    setAttribute (← string scene first) (← string scene second) (← string? scene third)
  | .dynamicAttr => do
    let name ← string scene first
    dynamicAttr scene name (← string? scene second)
  | .modifier => do modifier scene (← string scene first)
  | .dynamicContent => dynamicContent scene (first ≠ 0)
  | .pushSelf => do pushReference (← scope).this
  | .pushSymbol => do pushReference ((← scope).reference first)
  | .getKey => do
    let parent ← popReference
    pushReference (.property parent (← string scene first))
  | .pushPrimitive => do pushConst (← literalOf scene (← Primitive.decode first))
  | .pushImmediate => do pushConst (← scene.program.pool.value first)
  | .concat => do pushReference (.concat (← popReferences first))
  | .helper => do pushHelper scene (← string scene first)
  | .pushArgs => do push (.arguments (← collectArguments scene first second))
  | .hasBlock => do pushConst (.bool (← lookupBlock scene first second).isSome)
  | .hasBlockParams => do
    let found ← lookupBlock scene first second
    pushConst (.bool (← hasBlockParams scene found))
  | .getBlock => do push (.block ((← scope).block? first))
  | .getEvalBlock => do push (.block (← lookupBlock scene first second))
  | .getDynamicVar => do
    let name ← popReference
    pushReference (.dynamicVar (← ambient) name)
  | .pushDynamicScope => pushVariables
  | .popDynamicScope => popVariables
  | .bindDynamicScope => do bindVariables (← scene.program.pool.stringArray first)
  | .reserveLocals =>
    modifyFrame fun frame => { frame with locals := List.replicate first none }
  | .releaseLocals => modifyFrame fun frame => { frame with locals := [] }
  | .putLocal => putLocal first
  | .pushLocal => pushLocal first
  | .bindPositionalArgs => do
    let invocation := (← frame).registers.invocation
    bindPositional (← scene.program.pool.array first) invocation.positional
  | .bindNamedArgs => do
    let invocation := (← frame).registers.invocation
    bindSymbols scene first second fun name =>
      .reference ((invocation.get? name).getD (.const .undefined))
  | .bindBlocks => do
    let invocation := (← frame).registers.invocation
    bindSymbols scene first second fun name => .block (invocation.block? name)
  | .bindPartialArgs => do bind first (.passed (← frame).registers.invocation)
  | .bindCallerScope => do
    if let some caller := (← frame).caller then
      modifyScope fun scope => { scope with caller := some caller }
  | .enter => do enter (← scene.program.pool.slice first) none
  | .exit => exit
  | .evaluate => evaluate scene first
  | .jump => goto first
  | .jumpIf => jumpOn scene .jumpIf true first
  | .jumpUnless => jumpOn scene .jumpUnless false first
  | .test => do test scene (← scene.program.pool.function first)
  | .putArgs => putArguments scene first second
  | .openBlock => openBlock scene first
  | .closeBlock | .noop => return
  | .putIterator => putIterator scene
  | .enterList => do enterList (← scene.program.pool.slice first)
  | .exitList => exitList
  | .enterWithKey => do enterWithKey (← scene.program.pool.slice first)
  | .nextIter => nextIter scene first
  | .putPartial => modifyFrame fun frame => { frame with partialBlock := some first }
  | .putDynamicPartial => putDynamicPartial scene first second
  | .evaluatePartial => evaluatePartial scene
  | .putComponent => do putComponent scene (← string scene first) second
  | .openComponent => openComponent scene first second third
  | .didCreateElement => didCreateElement scene
  | .didRenderLayout => didRenderLayout scene
  | .closeComponent => closeComponent

def countInstruction : Render Unit :=
  modify fun world =>
    { world with stats := { world.stats with instructions := world.stats.instructions + 1 } }

/-- Runs until every frame has come to its end, for at most so many steps. -/
def run : Nat → Running Unit
  | 0 => broken .endless
  | limit + 1 => do
    match (← get).frames with
    | [] => return
    | frame :: _ =>
      if frame.slice.stop ≤ frame.next then popFrame
      else
        let instruction ← scene.program.program.fetch frame.next
        modifyFrame fun frame => { frame with next := frame.next + 1 }
        countInstruction
        step scene instruction
      run limit

/-! The end of a run -/

def discardBuilder : Builder → Scopes → Scopes
  | .root content, scopes | .region _ _ _ _ content, scopes => content.discard scopes
  | .list list, scopes => Update.discardItems list.items scopes

/-- Ends all extents but the outermost. -/
def popTrackers : Nat → Running Unit
  | 0 => return
  | count + 1 => do
    popTracker
    popTrackers count

def rootExtent : Running ExtentId := do
  match (← get).trackers.getLast? with
  | some (.block extent _) => return extent
  | _ => broken .rootNotBlock

/-- Takes back what a failed run did. -/
def unwind : Running Unit := do
  (← get).frames.forM fun _ => popFrame
  modify fun machine => { machine with constructing := none }
  popTrackers ((← get).trackers.length - 1)
  Render.clear (← rootExtent)
  let builders := (← get).builders
  Render.setScopes (builders.foldl (fun scopes builder => discardBuilder builder scopes)
    (← get).world.scopes)

/-- Completes the output of a run. -/
def finish : Running (ExtentId × Content) := do
  let machine ← get
  unless machine.builders.length = 1 do broken .unbalancedRegions
  unless machine.trackers.length = 1 do broken .unbalancedTrackers
  unless machine.elements.length = 1 do broken .unclosedElements
  let extent ← rootExtent
  if ← (← Render.extents).isEmpty extent then
    let _ ← appendNode (.comment "")
  match machine.builders with
  | [.root content] => return (extent, content)
  | _ => broken .rootRegionLost

def attempt : Running (ExtentId × Content) := fun machine =>
  match run scene stepLimit machine with
  | .ok () machine => finish machine
  | .error (.failed error) machine =>
    match unwind machine with
    | .ok () machine => .error (.failed error) machine
    | .error fault machine => .error fault machine
  | .error (.broken defect) machine => .error (.broken defect) machine

end Running

/-- Runs a slice from its start with what was captured for it, and appends its output to `parent` in
front of `before`. A run that fails leaves the page as it was. -/
def Render.resume (scene : Scene) (captured : Captured) (slice : Slice) (parent : NodeId)
    (before : Option NodeId) : Render (ExtentId × Content) := do
  if scene.config.maxFrameDepth = 0 then fail (.stackOverflow 0)
  let root ← newBlock parent
  let frame : Frame := {
    next := slice.start
    slice
    scope := captured.scope
    ambient := [captured.ambient]
    registers := captured.registers
    locals := captured.locals }
  fun world =>
    let machine : Machine := { world, elements := [(parent, before)], trackers := [.block root 0] }
    match (do Running.pushFrame scene frame; Running.attempt scene : Running _) machine with
    | .ok output machine => .ok output machine.world
    | .error fault machine => .error fault machine.world

end LiveTemplate
