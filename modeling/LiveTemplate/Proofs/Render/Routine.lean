import LiveTemplate.Proofs.Program.Shape
import LiveTemplate.Proofs.Render.Drawing
import LiveTemplate.Proofs.Render.Holdings

/-!
Routine instructions: those that neither start the code of a block nor begin or end a region, a list
or a component, and bind nothing. What they do to a machine comes down to a few kinds of steps. So a
law that admits these steps admits every routine instruction.
-/

namespace LiveTemplate

/-- The frames agree on where they run and on whose behalf. -/
structure Frame.Alike (before after : Frame) : Prop where
  next : after.next = before.next
  slice : after.slice = before.slice
  scope : after.scope = before.scope
  caller : after.caller = before.caller
  component : after.component = before.component

namespace Running

/-- What is shown for trusted content: a block with one node. -/
def showRaw (content : String) (dynamic : Bool) (cache : Cache) : Running Unit := do
  let extent ← pushBlock
  let _ ← appendNode (.raw content)
  popExtent
  if dynamic then record (.raw extent cache)

/-- Creates a modifier for the element under construction. -/
def attach (scene : Scene) (name : String) (manager : ModifierManager) (invocation : Invocation) :
    Running Unit := do
  let modifier := ⟨← Render.newInstance, name, ← constructing, invocation⟩
  manager.create modifier
  Render.queue (Transaction.install modifier)
  own (.modifier modifier)
  unless (← invocation.tag scene.helpers).isConstant do
    let tag ← invocation.tag scene.helpers
    record (.modifier modifier invocation (← Reading.revisionOf tag))

/-- What a law has to admit so that it admits all routine instructions. -/
structure Routine (scene : Scene) (law : Law Machine) (stock : Stock) where
  /-- A cache that was made a moment ago. -/
  cached : Store → Cache → Prop
  /-- An update that no region is nested in. -/
  leaf : Store → Update → Prop
  /-- Where the instruction may jump to. -/
  target : Nat → Prop
  closed : stock.Closed scene.host
  lasts : ∀ {machine after : Machine}, law.moves machine after →
    stock.Lasts machine.store after.store
  cacheLasts : ∀ {machine after : Machine}, law.moves machine after →
    ∀ cache, cached machine.store cache → cached after.store cache
  fails : ∀ {machine}, law.holds machine → ∀ error, law.ends (.failed error) machine
  stops : ∀ {machine}, law.holds machine → ∀ defect, defect.isPlain = true →
    law.ends (.broken defect) machine
  frames : ∀ {machine}, law.holds machine → ∀ frame ∈ machine.frames,
    frame.Held stock machine.store
  operands : ∀ {machine}, law.holds machine → ∀ operand ∈ machine.operands,
    operand.Held stock machine.store
  scope : ∀ {machine}, law.holds machine → law.Goes machine scope fun scope after =>
    after = machine ∧ scope.Held stock machine.store
  setOperands : ∀ {machine} operands, law.holds machine →
    (∀ operand ∈ operands, operand.Held stock machine.store) →
    law.holds { machine with operands } ∧ law.moves machine { machine with operands }
  setFrame : ∀ {machine frame outer fresh}, law.holds machine → machine.frames = frame :: outer →
    fresh.Held stock machine.store → frame.Alike fresh →
    law.holds { machine with frames := fresh :: outer } ∧
      law.moves machine { machine with frames := fresh :: outer }
  goto : ∀ {machine frame outer place}, law.holds machine → machine.frames = frame :: outer →
    target place →
    law.holds { machine with frames := { frame with next := place } :: outer } ∧
      law.moves machine { machine with frames := { frame with next := place } :: outer }
  cache : ∀ {machine reference}, law.holds machine → stock.reference machine.store reference →
    law.Goes machine (newCache scene reference) fun cache after => cached after.store cache
  dynamic : ∀ {machine cache}, law.holds machine → cached machine.store cache →
    law.Goes machine (isDynamic scene cache) fun _ _ => True
  read : ∀ {machine reference}, law.holds machine → stock.reference machine.store reference →
    law.Goes machine (liftM (reference.read scene.helpers)) fun _ _ => True
  next : ∀ {machine} {walk : FirstPass}, law.holds machine → walk.keyed.Held stock machine.store →
    law.Goes machine (liftM (walk.next scene.helpers)) fun result after =>
      result.1.keyed.Held stock after.store ∧
        ∀ refs ∈ result.2, refs.invocation.Held stock after.store
  iterable : ∀ {machine source key iterable}, law.holds machine →
    stock.reference machine.store source → scene.host.iterable source key = .ok iterable →
    law.Goes machine (liftM (KeyedList.ofIterable iterable)) fun keyed after =>
      keyed.Held stock after.store
  textLeaf : ∀ {store cache} node, cached store cache → leaf store (.text node cache)
  attrLeaf : ∀ {store cache} element name space, cached store cache →
    leaf store (.attr element name space cache)
  assertLeaf : ∀ {store cache}, cached store cache → leaf store (.assert cache)
  record : ∀ {machine update}, law.holds machine → leaf machine.store update →
    law.Goes machine (record update) fun _ _ => True
  showRaw : ∀ {machine cache} content dynamic, law.holds machine → cached machine.store cache →
    law.Goes machine (showRaw content dynamic cache) fun _ _ => True
  appendNode : ∀ {machine} data, law.holds machine →
    law.Goes machine (appendNode data) fun _ _ => True
  openElement : ∀ {machine} tag, law.holds machine →
    law.Goes machine (openElement tag) fun _ _ => True
  setAttribute : ∀ {machine} name value space, law.holds machine →
    law.Goes machine (setAttribute name value space) fun _ _ => True
  applyAttribute : ∀ {machine} element name space value, law.holds machine →
    law.Goes machine (liftM (LiveTemplate.applyAttribute element name space value)) fun _ _ => True
  flushElement : ∀ {machine}, law.holds machine → law.Goes machine flushElement fun _ _ => True
  closeElement : ∀ {machine}, law.holds machine → law.Goes machine closeElement fun _ _ => True
  attach : ∀ {machine name manager invocation}, law.holds machine →
    scene.host.registry.modifier? name = some manager → invocation.Held stock machine.store →
    law.Goes machine (attach scene name manager invocation) fun _ _ => True
  didCreateElement : ∀ {machine}, law.holds machine →
    law.Goes machine (didCreateElement scene) fun _ _ => True

namespace Routine

variable {scene : Scene} {law : Law Machine} {stock : Stock} (routine : Routine scene law stock)
  {machine : Machine}

section Steps

variable {α β : Type} {post : α → Machine → Prop} {last : β → Machine → Prop}

include routine

theorem broken (holds : law.holds machine) {defect : Defect} (plain : defect.isPlain = true) :
    law.Goes machine (Running.broken defect : Running α) post :=
  .throw (routine.stops holds defect plain)

theorem fail (holds : law.holds machine) (error : RenderError) :
    law.Goes machine (Running.fail error : Running α) post :=
  .throw (routine.fails holds error)

theorem lookUp (holds : law.holds machine) {outcome : Except Defect α} {next : α → Running β}
    (plain : PlainlyEnds outcome)
    (rest : ∀ value, outcome = .ok value → law.Goes machine (next value) last) :
    law.Goes machine (liftM outcome >>= next) last :=
  .orElse (fun defect ended => routine.stops holds defect (plain defect ended)) rest

theorem frame_bind (holds : law.holds machine) {next : Frame → Running β}
    (rest : ∀ frame outer, machine.frames = frame :: outer → frame.Held stock machine.store →
      law.Goes machine (next frame) last) :
    law.Goes machine (Running.frame >>= next) last := by
  refine Running.frame_bind (routine.stops holds _ rfl) fun frame outer shape => ?_
  exact rest frame outer shape (routine.frames holds frame (by simp [shape]))

theorem modifyFrame (holds : law.holds machine) {change : Frame → Frame}
    (good : ∀ frame, frame.Held stock machine.store →
      (change frame).Held stock machine.store ∧ frame.Alike (change frame)) :
    law.Goes machine (Running.modifyFrame change) fun _ _ => True := by
  have held := routine.frames holds
  unfold Running.modifyFrame
  refine .get_bind ?_
  split
  · rename_i frame outer shape
    obtain ⟨fresh, alike⟩ := good frame (held frame (by simp [shape]))
    obtain ⟨still, moves⟩ := routine.setFrame holds shape fresh alike
    exact ⟨still, moves, trivial⟩
  · exact routine.broken holds rfl

theorem ambient_bind (holds : law.holds machine) {next : Variables → Running β}
    (rest : ∀ visible, Variables.Held stock machine.store visible →
      law.Goes machine (next visible) last) :
    law.Goes machine (Running.ambient >>= next) last := by
  refine .through (fun visible after =>
    after = machine ∧ Variables.Held stock machine.store visible) ?_ ?_
  · unfold Running.ambient
    refine routine.frame_bind holds fun frame outer shape held => ?_
    split
    · rename_i visible _ found
      exact .pure holds ⟨rfl, held.ambient visible (by simp [found])⟩
    · exact routine.broken holds rfl
  · rintro visible _ _ _ ⟨rfl, held⟩
    exact rest visible held

theorem push (holds : law.holds machine) {operand : Operand}
    (held : operand.Held stock machine.store) :
    law.Goes machine (Running.push operand) fun _ _ => True := by
  obtain ⟨still, moves⟩ := routine.setOperands (operand :: machine.operands) holds
    fun other member => by
      rcases List.mem_cons.mp member with rfl | member
      · exact held
      · exact routine.operands holds other member
  exact ⟨still, moves, trivial⟩

theorem pop (holds : law.holds machine) :
    law.Goes machine Running.pop fun popped after =>
      ∀ operand ∈ popped, operand.Held stock after.store := by
  have held := routine.operands holds
  unfold Law.Goes Running.pop
  cases shape : machine.operands with
  | nil =>
    simp only [Effects.modifyGet_eq, shape]
    exact ⟨holds, law.refl _, fun operand found => absurd found (by simp)⟩
  | cons operand rest =>
    obtain ⟨still, moves⟩ := routine.setOperands rest holds fun other member =>
      held other (by simp [shape, member])
    simp only [Effects.modifyGet_eq, shape]
    refine ⟨still, moves, ?_⟩
    rintro _ ⟨⟩
    exact held operand (by simp [shape])

theorem popReference (holds : law.holds machine) :
    law.Goes machine Running.popReference fun reference after =>
      stock.reference after.store reference := by
  refine .bind (routine.pop holds) fun popped after holds _ held => ?_
  split
  · exact .pure holds (held _ rfl)
  · exact routine.broken holds rfl

theorem popArguments (holds : law.holds machine) :
    law.Goes machine Running.popArguments fun invocation after =>
      invocation.Held stock after.store := by
  refine .bind (routine.pop holds) fun popped after holds _ held => ?_
  split
  · exact .pure holds (held _ rfl)
  · exact routine.broken holds rfl

theorem popBlock (holds : law.holds machine) :
    law.Goes machine Running.popBlock fun block _ => ∀ handle ∈ block, stock.block handle := by
  refine .bind (routine.pop holds) fun popped after holds _ held => ?_
  split
  · exact .pure holds (held _ rfl)
  · exact routine.broken holds rfl

theorem popMany (count : Nat) (holds : law.holds machine) {references : List Reference}
    (held : ∀ reference ∈ references, stock.reference machine.store reference) :
    law.Goes machine (Running.popMany count references) fun references after =>
      ∀ reference ∈ references, stock.reference after.store reference := by
  induction count generalizing machine references with
  | zero => exact .pure holds held
  | succ count ih =>
    refine .bind (routine.popReference holds) fun reference after holds moves first => ?_
    refine ih holds fun other member => ?_
    rcases List.mem_cons.mp member with rfl | member
    · exact first
    · exact (routine.lasts moves).reference _ (held other member)

theorem popReferences (count : Nat) (holds : law.holds machine) :
    law.Goes machine (Running.popReferences count) fun references after =>
      ∀ reference ∈ references, stock.reference after.store reference := by
  unfold Running.popReferences
  refine .get_bind ?_
  split
  · exact routine.broken holds rfl
  · exact routine.popMany count holds (by simp)

theorem collectArguments (positional : Nat) (names : Handle) (holds : law.holds machine) :
    law.Goes machine (Running.collectArguments scene positional names) fun invocation after =>
      invocation.Held stock after.store := by
  refine routine.lookUp holds .stringArray fun names _ => ?_
  refine .bind (routine.popReferences names.length holds) fun named _ holds _ namedHeld => ?_
  refine .bind (routine.popReferences positional holds) fun positional _ holds moves held => ?_
  refine .pure holds ⟨held, fun entry member => ?_, nofun⟩
  exact (routine.lasts moves).reference _ (namedHeld _ (List.of_mem_zip member).2)

theorem lookupBlock (symbol : Symbol) (name : Handle) (holds : law.holds machine) :
    law.Goes machine (Running.lookupBlock scene symbol name) fun block _ =>
      ∀ handle ∈ block, stock.block handle := by
  refine .bind (routine.scope holds) ?_
  rintro scope _ _ _ ⟨rfl, held⟩
  split
  · exact .pure holds (held.block symbol)
  · refine routine.lookUp holds .string fun name _ => .pure holds fun handle found => ?_
    obtain ⟨invocation, given, found⟩ := Option.bind_eq_some_iff.mp found
    exact (held.passed symbol invocation given).block name handle found

theorem literalOf (literal : Primitive) (holds : law.holds machine) :
    law.Goes machine (Running.literalOf scene literal) fun _ after => after = machine := by
  cases literal with
  | text handle => exact routine.lookUp holds .string fun _ _ => .pure holds rfl
  | _ => exact .pure holds rfl

theorem optionalString (handle : Handle) (holds : law.holds machine) :
    law.Goes machine (string? scene handle) fun _ after => after = machine := by
  unfold string?
  split
  · exact .pure holds rfl
  · exact routine.lookUp holds .string fun _ _ => .pure holds rfl

/-! Content -/

theorem dynamicAttr (name : String) (space : Option String) (holds : law.holds machine) :
    law.Goes machine (Running.dynamicAttr scene name space) fun _ _ => True := by
  refine .bind (routine.popReference holds) fun reference _ holds _ held => ?_
  refine .bind (routine.cache holds held) fun cache _ holds _ cached => ?_
  refine Running.constructing_bind (routine.stops holds _ rfl) fun element _ => ?_
  refine .bind (routine.applyAttribute element name space _ holds) fun _ _ holds moves _ => ?_
  have cached := routine.cacheLasts moves _ cached
  refine .bind (routine.dynamic holds cached) fun dynamic _ holds moves _ => ?_
  split
  · exact routine.record holds (routine.attrLeaf element name space
      (routine.cacheLasts moves _ cached))
  · exact .pure holds trivial

theorem dynamicContent (trusted : Bool) (holds : law.holds machine) :
    law.Goes machine (Running.dynamicContent scene trusted) fun _ _ => True := by
  refine .bind (routine.popReference holds) fun reference _ holds _ held => ?_
  refine .bind (routine.cache holds held) fun cache _ holds _ cached => ?_
  refine .bind (routine.dynamic holds cached) fun dynamic _ holds moves _ => ?_
  have cached := routine.cacheLasts moves _ cached
  split
  · exact routine.showRaw _ dynamic holds cached
  · refine .bind (routine.appendNode _ holds) fun node _ holds moves _ => ?_
    split
    · exact routine.record holds (routine.textLeaf node (routine.cacheLasts moves _ cached))
    · exact .pure holds trivial

theorem modifier (name : String) (holds : law.holds machine) :
    law.Goes machine (Running.modifier scene name) fun _ _ => True := by
  refine .bind (routine.popArguments holds) fun invocation _ holds _ held => ?_
  split
  · exact routine.fail holds _
  · rename_i manager found
    exact routine.attach holds found held

/-! References -/

theorem pushReference {reference : Reference} (holds : law.holds machine)
    (held : stock.reference machine.store reference) :
    law.Goes machine (Running.pushReference reference) fun _ _ => True :=
  routine.push holds held

theorem pushConst (value : Value) (holds : law.holds machine) :
    law.Goes machine (Running.pushConst value) fun _ _ => True :=
  routine.push holds (routine.closed.const value)

theorem getKey (handle : Handle) (holds : law.holds machine) :
    law.Goes machine (do
      let parent ← Running.popReference
      Running.pushReference (.property parent (← string scene handle))) fun _ _ => True := by
  refine .bind (routine.popReference holds) fun parent _ holds _ held => ?_
  exact routine.lookUp holds .string fun key _ =>
    routine.push holds (routine.closed.property key held)

theorem pushHelper (name : String) (holds : law.holds machine) :
    law.Goes machine (Running.pushHelper scene name) fun _ _ => True := by
  refine .bind (routine.popArguments holds) fun invocation _ holds _ held => ?_
  split
  · exact routine.fail holds _
  · exact routine.push holds (routine.closed.helper name held.positional held.named)

theorem hasBlockParams (found : Option Handle) (holds : law.holds machine) :
    law.Goes machine (Running.hasBlockParams scene found) fun _ after => after = machine := by
  cases found with
  | none => exact .pure holds rfl
  | some handle => exact routine.lookUp holds .block fun _ _ => .pure holds rfl

/-! Variables and locals -/

theorem pushVariables (holds : law.holds machine) :
    law.Goes machine Running.pushVariables fun _ _ => True := by
  refine routine.ambient_bind holds fun visible held => ?_
  refine routine.modifyFrame holds fun frame frameHeld => ⟨?_, rfl, rfl, rfl, rfl, rfl⟩
  refine { frameHeld with ambient := fun other member => ?_ }
  rcases List.mem_cons.mp member with rfl | member
  · exact held
  · exact frameHeld.ambient other member

theorem popVariables (holds : law.holds machine) :
    law.Goes machine Running.popVariables fun _ _ => True := by
  refine routine.modifyFrame holds fun frame held => ⟨?_, rfl, rfl, rfl, rfl, rfl⟩
  exact { held with ambient := fun other member => held.ambient other (List.mem_of_mem_drop member) }

theorem bindVariables (names : List String) (holds : law.holds machine) :
    law.Goes machine (Running.bindVariables names) fun _ _ => True := by
  refine routine.frame_bind holds fun frame _ _ frameHeld => ?_
  refine routine.ambient_bind holds fun visible held => ?_
  refine routine.modifyFrame holds fun other otherHeld => ⟨?_, rfl, rfl, rfl, rfl, rfl⟩
  refine { otherHeld with ambient := fun entries member => ?_ }
  rcases List.mem_cons.mp member with rfl | member
  · exact held.bind frameHeld.registers.invocation names
  · exact otherHeld.ambient entries (List.mem_of_mem_drop member)

theorem putLocal (index : Nat) (holds : law.holds machine) :
    law.Goes machine (Running.putLocal index) fun _ _ => True := by
  refine .bind (routine.popReference holds) fun reference after holds _ held => ?_
  refine routine.modifyFrame holds fun frame frameHeld => ⟨?_, rfl, rfl, rfl, rfl, rfl⟩
  refine { frameHeld with locals := fun other member => ?_ }
  rcases List.mem_or_eq_of_mem_set member with member | same
  · rcases List.mem_append.mp member with member | member
    · exact frameHeld.locals other member
    · exact absurd (List.eq_of_mem_replicate member) nofun
  · cases same
    exact held

theorem pushLocal (index : Nat) (holds : law.holds machine) :
    law.Goes machine (Running.pushLocal index) fun _ _ => True := by
  refine routine.frame_bind holds fun frame _ _ held => ?_
  split
  · rename_i reference found
    refine routine.push holds (held.locals reference ?_)
    exact List.mem_of_getElem? (Option.join_eq_some_iff.mp found)
  · exact routine.broken holds rfl

/-! Control -/

theorem jumpTo {place : Nat} (holds : law.holds machine) (allowed : routine.target place) :
    law.Goes machine (Running.goto place) fun _ _ => True := by
  refine routine.frame_bind holds fun frame outer shape _ => ?_
  dsimp only
  split
  · exact routine.broken holds rfl
  · obtain ⟨still, moves⟩ := routine.goto holds shape allowed
    unfold Running.modifyFrame
    refine .get_bind ?_
    rw [shape]
    exact ⟨still, moves, trivial⟩

/-- The step past an instruction. -/
theorem advance {frame : Frame} {outer : List Frame} (holds : law.holds machine)
    (shape : machine.frames = frame :: outer) (allowed : routine.target (frame.next + 1)) :
    law.Goes machine (Running.modifyFrame fun frame => { frame with next := frame.next + 1 })
      fun _ after =>
        after = { machine with frames := { frame with next := frame.next + 1 } :: outer } := by
  obtain ⟨still, moves⟩ := routine.goto holds shape allowed
  unfold Running.modifyFrame
  refine .get_bind ?_
  rw [shape]
  exact ⟨still, moves, rfl⟩

theorem jumpOn (op : Op) (wanted : Bool) {place : Nat} (holds : law.holds machine)
    (allowed : routine.target place) :
    law.Goes machine (Running.jumpOn scene op wanted place) fun _ _ => True := by
  refine routine.frame_bind holds fun frame _ _ held => ?_
  split
  · exact routine.broken holds rfl
  · rename_i condition found
    refine .bind (routine.cache holds (held.registers.condition condition found))
      fun cache _ holds _ cached => ?_
    refine .bind (routine.dynamic holds cached) fun dynamic _ holds moves _ => ?_
    have cached := routine.cacheLasts moves _ cached
    have rest : ∀ {machine : Machine}, law.holds machine →
        law.Goes machine (do if cache.last.truthy = wanted then Running.goto place)
          fun _ _ => True := by
      intro machine holds
      split
      · exact routine.jumpTo holds allowed
      · exact .pure holds trivial
    dsimp only
    split
    · exact .bind (routine.record holds (routine.assertLeaf cached)) fun _ _ holds _ _ => rest holds
    · exact rest holds

theorem setRegisters {change : Registers → Registers} (holds : law.holds machine)
    (good : ∀ registers, registers.Held stock machine.store →
      (change registers).Held stock machine.store) :
    law.Goes machine (modifyRegisters change) fun _ _ => True :=
  routine.modifyFrame holds fun _ held => ⟨{ held with registers := good _ held.registers },
    rfl, rfl, rfl, rfl, rfl⟩

theorem test (kind : TestKind) (holds : law.holds machine) :
    law.Goes machine (Running.test scene kind) fun _ _ => True := by
  refine routine.frame_bind holds fun frame _ _ held => ?_
  have operand : stock.reference machine.store
      (frame.registers.operand.getD (.const .undefined)) := by
    cases found : frame.registers.operand with
    | none => exact routine.closed.const _
    | some reference => exact held.registers.operand reference found
  have finish : ∀ {machine : Machine} {condition : Reference}, law.holds machine →
      stock.reference machine.store condition →
      law.Goes machine (modifyRegisters fun registers =>
        { registers with condition := some condition }) fun _ _ => True := by
    intro machine condition holds good
    refine routine.setRegisters holds fun registers held => { held with condition := ?_ }
    rintro _ ⟨⟩
    exact good
  cases kind with
  | const =>
    refine .bind (routine.read holds operand) fun value _ holds _ _ => ?_
    exact finish holds (routine.closed.const _)
  | simple | environment => exact finish holds (routine.closed.condition (by simp) operand)

theorem putArguments (positional : Nat) (names : Handle) (holds : law.holds machine) :
    law.Goes machine (Running.putArguments scene positional names) fun _ _ => True := by
  refine .bind (routine.collectArguments positional names holds) fun invocation _ holds _ given => ?_
  exact routine.setRegisters holds fun registers held =>
    { held with operand := given.nth 0, invocation := given }

/-! Lists -/

theorem iterate (holds : law.holds machine) {source : Reference} (key : String)
    (given : stock.reference machine.store source) :
    law.Goes machine (Running.iterate scene source key) fun _ _ => True := by
  unfold Running.iterate
  split
  · exact routine.fail holds _
  · rename_i iterable found
    refine .bind (routine.iterable holds given found) fun keyed between holds _ given => ?_
    refine .bind (routine.setRegisters holds fun registers held =>
      { held with condition := ?_ }) fun _ _ holds moves _ => ?_
    · rintro _ ⟨⟩
      exact given.2
    · refine routine.modifyFrame holds fun frame held => ⟨{ held with iterator := ?_ },
        rfl, rfl, rfl, rfl, rfl⟩
      rintro _ ⟨⟩
      exact given.last (routine.lasts moves).toGives

theorem putIterator (holds : law.holds machine) :
    law.Goes machine (Running.putIterator scene) fun _ _ => True := by
  rw [Running.putIterator_eq]
  refine routine.frame_bind holds fun frame _ _ held => ?_
  have source : stock.reference machine.store
      ((frame.registers.invocation.nth? 0).getD (.const .undefined)) := by
    cases found : frame.registers.invocation.nth? 0 with
    | none => exact routine.closed.const _
    | some reference => exact held.registers.invocation.nth 0 reference found
  dsimp only
  split
  · rename_i key found
    refine .bind (routine.read holds (held.registers.invocation.get "key" key found))
      fun value _ holds moves _ => ?_
    exact routine.iterate holds _ ((routine.lasts moves).reference _ source)
  · exact routine.iterate holds _ source

theorem nextIter {place : Nat} (holds : law.holds machine) (allowed : routine.target place) :
    law.Goes machine (Running.nextIter scene place) fun _ _ => True := by
  refine routine.frame_bind holds fun frame _ _ held => ?_
  split
  · exact routine.broken holds rfl
  · rename_i iterator found
    refine .bind (routine.next holds (held.iterator iterator found)) fun result _ holds _ right => ?_
    obtain ⟨walk, item⟩ := result
    obtain ⟨keyed, refs⟩ := right
    refine .bind (routine.modifyFrame holds fun frame held => ⟨{ held with iterator := ?_ },
      rfl, rfl, rfl, rfl, rfl⟩) fun _ _ holds moves _ => ?_
    · rintro _ ⟨⟩
      exact keyed
    · cases item with
      | none => exact routine.jumpTo holds allowed
      | some item =>
        have given := (refs item rfl).last (routine.lasts moves).toGives
        refine .bind (routine.setRegisters holds fun registers held =>
          { held with invocation := given }) fun _ _ holds _ _ => ?_
        exact routine.modifyFrame holds fun frame held => ⟨⟨held.registers, held.locals,
          held.ambient, held.iterator, held.partialBlock, held.definition⟩, rfl, rfl, rfl, rfl, rfl⟩

/-! Partials and components -/

theorem putPartial {block : Handle} (holds : law.holds machine) (stocked : stock.included block) :
    law.Goes machine (Running.modifyFrame fun frame => { frame with partialBlock := some block })
      fun _ _ => True := by
  refine routine.modifyFrame holds fun frame held => ⟨{ held with partialBlock := ?_ },
    rfl, rfl, rfl, rfl, rfl⟩
  rintro _ ⟨⟩
  exact stocked

theorem putDynamicPartial (names blocks : Handle) (holds : law.holds machine)
    (stocked : ∀ found, scene.program.pool.array blocks = .ok found →
      ∀ block ∈ found, stock.included block) :
    law.Goes machine (Running.putDynamicPartial scene names blocks) fun _ _ => True := by
  refine .bind (routine.popReference holds) fun reference _ holds _ held => ?_
  refine .bind (routine.cache holds held) fun cache _ holds _ cached => ?_
  refine routine.lookUp holds .stringArray fun names _ => ?_
  refine routine.lookUp holds .array fun blocks known => ?_
  split
  · exact routine.fail holds _
  · rename_i block found
    obtain ⟨position, -, there⟩ := Option.bind_eq_some_iff.mp found
    have member := stocked blocks known block (List.mem_of_getElem? there)
    refine .bind (routine.dynamic holds cached) fun dynamic _ holds moves _ => ?_
    have cached := routine.cacheLasts moves _ cached
    dsimp only
    split
    · exact .bind (routine.record holds (routine.assertLeaf cached)) fun _ _ holds _ _ =>
        routine.putPartial holds member
    · exact routine.putPartial holds member

theorem putComponent (name : String) (layout : Handle) (holds : law.holds machine)
    (stocked : stock.layout layout) :
    law.Goes machine (Running.putComponent scene name layout) fun _ _ => True := by
  unfold Running.putComponent
  split
  · exact routine.fail holds _
  · rename_i manager found
    refine routine.modifyFrame holds fun frame held => ⟨{ held with definition := ?_ },
      rfl, rfl, rfl, rfl, rfl⟩
    rintro _ ⟨⟩
    exact ⟨routine.closed.maker found, stocked⟩

end Steps

end Routine

end Running

/-- Neither starts a block, nor begins or ends a region, a list or a component, nor binds. -/
def Op.isRoutine : Op → Bool
  | .bindPositionalArgs | .bindNamedArgs | .bindBlocks | .bindPartialArgs | .bindCallerScope
  | .enter | .exit | .evaluate | .openBlock | .enterList | .exitList | .enterWithKey
  | .evaluatePartial | .openComponent | .didRenderLayout | .closeComponent => false
  | _ => true

/-- The blocks that the instruction hands to a later one are in stock. -/
def Instruction.Stocked (stock : Stock) (pool : Pool) (instruction : Instruction) : Prop :=
  match instruction.op with
  | .putPartial => stock.included instruction.first
  | .putDynamicPartial => ∀ blocks, pool.array instruction.second = .ok blocks →
      ∀ block ∈ blocks, stock.included block
  | .putComponent => stock.layout instruction.second
  | .openComponent => ∀ handle ∈ [instruction.first, instruction.second, instruction.third],
      handle ≠ 0 → stock.block handle
  | _ => True

/-- A law that admits the kinds of steps admits every routine instruction. -/
theorem Running.Routine.step {scene : Scene} {law : Law Machine} {stock : Stock}
    (routine : Running.Routine scene law stock) {machine : Machine} {instruction : Instruction}
    (usual : instruction.op.isRoutine = true)
    (stocked : instruction.Stocked stock scene.program.pool)
    (allowed : instruction.op.isJump = true → routine.target instruction.first)
    (holds : law.holds machine) :
    law.Goes machine (Running.step scene instruction) fun _ _ => True := by
  obtain ⟨op, first, second, third⟩ := instruction
  cases op with
  | text | comment =>
    refine routine.lookUp holds .string fun content _ => ?_
    exact .bind (routine.appendNode _ holds) fun _ _ holds _ _ => .pure holds trivial
  | openElement => exact routine.lookUp holds .string fun tag _ => routine.openElement tag holds
  | flushElement => exact routine.flushElement holds
  | closeElement => exact routine.closeElement holds
  | staticAttr =>
    refine routine.lookUp holds .string fun name _ => routine.lookUp holds .string fun value _ => ?_
    refine .bind (routine.optionalString third holds) ?_
    rintro space _ _ _ rfl
    exact routine.setAttribute name value space holds
  | dynamicAttr =>
    refine routine.lookUp holds .string fun name _ => ?_
    refine .bind (routine.optionalString second holds) ?_
    rintro space _ _ _ rfl
    exact routine.dynamicAttr name space holds
  | modifier => exact routine.lookUp holds .string fun name _ => routine.modifier name holds
  | dynamicContent => exact routine.dynamicContent _ holds
  | pushSelf =>
    refine .bind (routine.scope holds) ?_
    rintro scope _ _ _ ⟨rfl, held⟩
    exact routine.pushReference holds held.this
  | pushSymbol =>
    refine .bind (routine.scope holds) ?_
    rintro scope _ _ _ ⟨rfl, held⟩
    exact routine.pushReference holds (held.reference routine.closed first)
  | getKey => exact routine.getKey first holds
  | pushPrimitive =>
    refine routine.lookUp holds .decode fun literal _ => ?_
    refine .bind (routine.literalOf literal holds) ?_
    rintro value _ _ _ rfl
    exact routine.pushConst value holds
  | pushImmediate => exact routine.lookUp holds .find fun value _ => routine.pushConst value holds
  | concat =>
    refine .bind (routine.popReferences first holds) fun parts _ holds _ held => ?_
    exact routine.pushReference holds (routine.closed.concat held)
  | helper => exact routine.lookUp holds .string fun name _ => routine.pushHelper name holds
  | pushArgs =>
    refine .bind (routine.collectArguments first second holds) fun invocation _ holds _ held => ?_
    exact routine.push holds held
  | hasBlock =>
    refine .bind (routine.lookupBlock first second holds) fun found _ holds _ _ => ?_
    exact routine.pushConst _ holds
  | hasBlockParams =>
    refine .bind (routine.lookupBlock first second holds) fun found _ holds _ _ => ?_
    refine .bind (routine.hasBlockParams found holds) ?_
    rintro answer _ _ _ rfl
    exact routine.pushConst _ holds
  | getBlock =>
    refine .bind (routine.scope holds) ?_
    rintro scope _ _ _ ⟨rfl, held⟩
    exact routine.push holds (held.block first)
  | getEvalBlock =>
    refine .bind (routine.lookupBlock first second holds) fun found _ holds _ held => ?_
    exact routine.push holds held
  | getDynamicVar =>
    refine .bind (routine.popReference holds) fun name _ holds _ held => ?_
    refine routine.ambient_bind holds fun visible visibleHeld => ?_
    exact routine.pushReference holds (routine.closed.dynamicVar visibleHeld held)
  | pushDynamicScope => exact routine.pushVariables holds
  | popDynamicScope => exact routine.popVariables holds
  | bindDynamicScope =>
    exact routine.lookUp holds .stringArray fun names _ => routine.bindVariables names holds
  | reserveLocals =>
    refine routine.modifyFrame holds fun frame held => ⟨{ held with locals := ?_ },
      rfl, rfl, rfl, rfl, rfl⟩
    exact fun reference member => absurd (List.eq_of_mem_replicate member) nofun
  | releaseLocals =>
    exact routine.modifyFrame holds fun frame held => ⟨{ held with locals := nofun },
      rfl, rfl, rfl, rfl, rfl⟩
  | putLocal => exact routine.putLocal first holds
  | pushLocal => exact routine.pushLocal first holds
  | jump => exact routine.jumpTo holds (allowed rfl)
  | jumpIf | jumpUnless => exact routine.jumpOn _ _ holds (allowed rfl)
  | test => exact routine.lookUp holds .find fun kind _ => routine.test kind holds
  | putArgs => exact routine.putArguments first second holds
  | closeBlock | noop => exact .pure holds trivial
  | putIterator => exact routine.putIterator holds
  | nextIter => exact routine.nextIter holds (allowed rfl)
  | putPartial => exact routine.putPartial holds stocked
  | putDynamicPartial => exact routine.putDynamicPartial first second holds stocked
  | putComponent =>
    exact routine.lookUp holds .string fun name _ => routine.putComponent name second holds stocked
  | didCreateElement => exact routine.didCreateElement holds
  | _ => cases usual

end LiveTemplate
