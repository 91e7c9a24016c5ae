import LiveTemplate.Render.Machine

/-!
What the instructions do that need more than one step of the machine.
-/

namespace LiveTemplate

/-- Sets an attribute to a value. A missing or false value removes it, and true leaves it empty. -/
def applyAttribute (element : NodeId) (name : String) (space : Option String) (value : Value) :
    Render Unit := do
  let dom ← Render.dom
  match value with
  | .undefined | .null | .bool false => Render.setDom (← dom.removeAttribute element name space)
  | .bool true => Render.setDom (← dom.setAttribute element ⟨name, "", space⟩)
  | value => Render.setDom (← dom.setAttribute element ⟨name, value.content, space⟩)

/-- The cells of an item as the arguments of the block that shows it. -/
def ItemRefs.invocation (refs : ItemRefs) : Invocation where
  positional := [.cell refs.value, .cell refs.memo]

namespace Running

variable (scene : Scene)

def string (handle : Handle) : Running String := do scene.program.pool.string handle

def string? (handle : Handle) : Running (Option String) := do
  if handle = 0 then return none else return some (← string scene handle)

def block (handle : Handle) : Running CompiledBlock := do scene.program.blocks.block handle

def newCache (reference : Reference) : Running Cache :=
  Cache.ofReference scene.helpers reference

def isDynamic (cache : Cache) : Running Bool := do
  return !(← cache.tag scene.helpers).isConstant

/-! Content -/

def dynamicAttr (name : String) (space : Option String) : Running Unit := do
  let cache ← newCache scene (← popReference)
  let element ← constructing
  applyAttribute element name space cache.last
  if ← isDynamic scene cache then record (.attr element name space cache)

def dynamicContent (trusted : Bool) : Running Unit := do
  let cache ← newCache scene (← popReference)
  let content := cache.last.content
  let dynamic ← isDynamic scene cache
  if trusted then
    let extent ← pushBlock
    let _ ← appendNode (.raw content)
    popExtent
    if dynamic then record (.raw extent cache)
  else
    let node ← appendNode (.text content)
    if dynamic then record (.text node cache)

def modifier (name : String) : Running Unit := do
  let invocation ← popArguments
  match scene.host.registry.modifier? name with
  | none => fail (.unknownModifier name)
  | some manager =>
    let modifier := ⟨← Render.newInstance, name, ← constructing, invocation⟩
    manager.create modifier
    Render.queue (Transaction.install modifier)
    own (.modifier modifier)
    unless (← invocation.tag scene.helpers).isConstant do
      let tag ← invocation.tag scene.helpers
      record (.modifier modifier invocation (← Reading.revisionOf tag))

/-! References -/

def literalOf : Primitive → Running Value
  | .number value => return .int (Int64.ofNat value)
  | .text handle => return .text (← string scene handle)
  | .bool value => return .bool value
  | .null => return .null
  | .undefined => return .undefined

/-- The positional and the named arguments on the stack. -/
def collectArguments (positional : Nat) (names : Handle) : Running Invocation := do
  let names ← (scene.program.pool.stringArray names : Except Defect (List String))
  let named ← popReferences names.length
  let positional ← popReferences positional
  return { positional, named := names.zip named }

/-- The block bound to a symbol, or the one of that name among what the layout was given. -/
def lookupBlock (symbol : Symbol) (name : Handle) : Running (Option Handle) := do
  let scope ← scope
  if name = 0 then return scope.block? symbol
  else
    let name ← string scene name
    return (scope.passed? symbol).bind (Invocation.block? · name)

def hasBlockParams (found : Option Handle) : Running Bool := do
  match found with
  | some handle => return !(← block scene handle).params.isEmpty
  | none => return false

def pushHelper (name : String) : Running Unit := do
  let invocation ← popArguments
  match scene.host.registry.helper? name with
  | none => fail (.unknownHelper name)
  | some _ => pushReference (.helper name invocation.positional invocation.named)

/-! Variables and locals -/

def pushVariables : Running Unit := do
  let visible ← ambient
  modifyFrame fun frame => { frame with ambient := visible :: frame.ambient }

def popVariables : Running Unit :=
  modifyFrame fun frame => { frame with ambient := frame.ambient.drop 1 }

def bindVariable (invocation : Invocation) (ambient : Variables) (name : String) :
    Variables :=
  match invocation.get? name with
  | some reference => Entries.put name reference ambient
  | none => ambient

def bindVariables (names : List String) : Running Unit := do
  let frame ← frame
  let bound := names.foldl (bindVariable frame.registers.invocation) (← ambient)
  modifyFrame fun frame => { frame with ambient := bound :: frame.ambient.drop 1 }

def putLocal (index : Nat) : Running Unit := do
  let reference ← popReference
  modifyFrame fun frame =>
    let missing := List.replicate (index + 1 - frame.locals.length) none
    { frame with locals := (frame.locals ++ missing).set index (some reference) }

def pushLocal (index : Nat) : Running Unit := do
  match ((← frame).locals[index]?).join with
  | some reference => pushReference reference
  | none => broken (.unwrittenLocal index)

/-- Binds each symbol to the argument at its position. -/
def bindPositional : List Symbol → List Reference → Running Unit
  | [], _ => return
  | symbol :: symbols, references => do
    bind symbol (.reference (references.headD (.const .undefined)))
    bindPositional symbols references.tail

def bindSymbols (names symbols : Handle) (slot : String → Slot) : Running Unit := do
  let names ← (scene.program.pool.stringArray names : Except Defect (List String))
  let symbols ← (scene.program.pool.array symbols : Except Defect (List Nat))
  (names.zip symbols).forM fun (name, symbol) => bind symbol (slot name)

/-! Control -/

def jumpOn (op : Op) (wanted : Bool) (target : Nat) : Running Unit := do
  match (← frame).registers.condition with
  | none => broken (.noCondition op.name)
  | some condition =>
    let cache ← newCache scene condition
    if ← isDynamic scene cache then record (.assert cache)
    if cache.last.truthy = wanted then goto target

def test (kind : TestKind) : Running Unit := do
  let operand := ((← frame).registers.operand).getD (.const .undefined)
  let condition ← match kind with
    | .const => do
      let value ← operand.read scene.helpers
      pure (Reference.const (.bool (scene.host.holds value)))
    | .simple => pure (.condition operand Value.truthy)
    | .environment => pure (.condition operand scene.host.holds)
  modifyRegisters fun registers => { registers with condition := some condition }

def putArguments (positional : Nat) (names : Handle) : Running Unit := do
  let invocation ← collectArguments scene positional names
  modifyRegisters fun registers =>
    { registers with operand := invocation.nth? 0, invocation }

def evaluate (handle : Handle) : Running Unit := do
  let block ← block scene handle
  let frame ← frame
  call scene block.slice frame.registers.invocation (← blockScope block frame.scope)

/-- Runs a block where it was written: in the scope of the invocation. -/
def openBlock (params : Nat) : Running Unit := do
  let handle ← popBlock
  let positional ← popReferences params
  match handle with
  | none => return
  | some handle =>
    let block ← block scene handle
    let caller := (← scope).caller.getD (← frame).scope
    call scene block.slice { positional } (← blockScope block caller)

/-! Regions and lists -/

def enter (slice : Slice) (key : Option Key) : Running Unit := do
  let captured ← capture
  let extent ← pushBlock
  modify fun machine =>
    { machine with builders := .region slice captured extent key {} :: machine.builders }

/-- A region with the key of an earlier item takes its place at the end of the list. -/
def addItem (list : ListRegion) (key : Key) (region : Region) (outer : List Builder) :
    Running Unit := do
  let others := list.items.filter fun item => item.1 ≠ key
  modify fun machine =>
    { machine with builders := .list { list with items := others } :: outer }
  if let some earlier := Entries.get? key list.items then earlier.remove
  modify fun machine =>
    { machine with builders := .list { list with items := others ++ [(key, region)] } :: outer }

def exit : Running Unit := do
  match (← get).builders with
  | .region slice captured extent key content :: outer =>
    modify fun machine => { machine with builders := outer }
    popExtent
    let region := ⟨slice, captured, extent, content⟩
    match key, outer with
    | none, _ => record (.region region)
    | some key, .list list :: outer => addItem list key region outer
    | some _, _ => broken .itemOutsideList
  | _ => broken .exitOutsideRegion

def putIterator : Running Unit := do
  let invocation := (← frame).registers.invocation
  let source := (invocation.nth? 0).getD (.const .undefined)
  let key ← match invocation.get? "key" with
    | some key => do pure (← key.read scene.helpers).content
    | none => pure ""
  match scene.host.iterable source key with
  | .error error => fail error
  | .ok iterable =>
    let keyed ← KeyedList.ofIterable iterable
    modifyRegisters fun registers => { registers with condition := some keyed.presence }
    modifyFrame fun frame => { frame with iterator := some ⟨keyed, none⟩ }

def enterList (itemSlice : Slice) : Running Unit := do
  match (← frame).iterator with
  | none => broken .listWithoutIterator
  | some iterator =>
    let captured ← capture
    let extent ← pushList
    let list := ⟨itemSlice, captured, iterator.keyed, ← Reading.now, extent, []⟩
    modify fun machine => { machine with builders := .list list :: machine.builders }

def exitList : Running Unit := do
  match (← get).builders with
  | .list list :: outer =>
    modify fun machine => { machine with builders := outer }
    let items := list.items.map fun (_, region) => region.extent
    Render.setExtents (← (← Render.extents).setItems list.extent items)
    popExtent
    record (.list list)
  | _ => broken .exitOutsideList

def enterWithKey (slice : Slice) : Running Unit := do
  match (← frame).key with
  | none => broken .keyWithoutItem
  | some key =>
    modifyFrame fun frame => { frame with key := none }
    enter slice (some key)

def nextIter (target : Nat) : Running Unit := do
  match (← frame).iterator with
  | none => broken .advanceWithoutIterator
  | some iterator =>
    let (iterator, item) ← iterator.next scene.helpers
    modifyFrame fun frame => { frame with iterator := some iterator }
    match item with
    | none => goto target
    | some refs =>
      modifyRegisters fun registers => { registers with invocation := refs.invocation }
      modifyFrame fun frame => { frame with key := some refs.key }

/-! Partials and components -/

def putDynamicPartial (names blocks : Handle) : Running Unit := do
  let cache ← newCache scene (← popReference)
  let name := cache.last.content
  let names ← (scene.program.pool.stringArray names : Except Defect (List String))
  let blocks ← (scene.program.pool.array blocks : Except Defect (List Nat))
  match (names.idxOf? name).bind (blocks[·]?) with
  | none => fail (.unknownPartial name)
  | some block =>
    if ← isDynamic scene cache then record (.assert cache)
    modifyFrame fun frame => { frame with partialBlock := some block }

def evaluatePartial : Running Unit := do
  let frame ← frame
  match frame.partialBlock with
  | none => broken .noPartial
  | some handle =>
    modifyFrame fun frame => { frame with partialBlock := none }
    let block ← block scene handle
    call scene block.slice frame.registers.invocation frame.scope

def putComponent (name : String) (layout : Handle) : Running Unit := do
  match scene.host.registry.component? name with
  | none => fail (.unknownComponent name)
  | some manager =>
    modifyFrame fun frame => { frame with definition := some (name, manager, layout) }

def optional (handle : Handle) : Option Handle := if handle = 0 then none else some handle

/-- Creates a component and starts its layout. All that the layout records becomes one group. -/
def openComponent (attrs template inverse : Handle) : Running Unit := do
  match (← frame).definition with
  | none => broken .noDefinition
  | some (name, manager, layout) =>
    modifyFrame fun frame => { frame with definition := none }
    let invocation := { (← popArguments) with
      blocks := [("default", optional template), ("inverse", optional inverse),
                 ("else", optional inverse), (attrsBlock, optional attrs)] }
    let (this, tag) ← manager.create name invocation (← ambient)
    let component := ⟨← Render.newInstance, name, this, tag⟩
    let position := (← content).updates.length
    record (.group .constant [])
    modify fun machine =>
      { machine with groups := (machine.builders.length, position) :: machine.groups }
    let tag := Tag.combine [← invocation.tag scene.helpers, component.tag]
    record (.component component invocation (← Reading.revisionOf tag))
    own (.component component)
    let extent ← pushBlock
    let layout ← block scene layout
    let names ← scene.program.tables.view layout.table
    let scope ← Render.newScope names.size this
    ownScope scope
    let caller := (← frame).scope
    call scene layout.slice invocation scope fun frame =>
      { frame with component := some (component, extent), caller := some caller }

def managerOf (component : Component) : ComponentManager :=
  scene.host.registry.hooks.component component.name

def didCreateElement : Running Unit := do
  match (← frame).component with
  | none => broken .elementOutsideLayout
  | some (component, _) => do
    let element ← constructing
    Render.hook ((managerOf scene component).didCreateElement component element)

def didRenderLayout : Running Unit := do
  match (← frame).component with
  | none => broken .layoutOutsideLayout
  | some (component, extent) =>
    let extents ← Render.extents
    Render.hook ((managerOf scene component).didRenderLayout component
      (extents.first? extent) (extents.last? extent))
    Render.queue (Transaction.didCreate component)
    record (.layout component extent)

def closeComponent : Running Unit := do
  popExtent
  let machine ← get
  match machine.groups with
  | [] => broken .closedUnopenedComponent
  | (depth, position) :: groups =>
    modify fun machine => { machine with groups }
    unless depth = machine.builders.length do broken .componentInOtherRegion
    let now ← Reading.now
    modifyContent fun content =>
      let members := content.updates.drop (position + 1)
      { content with updates := content.updates.take position ++ [.group now members] }

end Running

end LiveTemplate
