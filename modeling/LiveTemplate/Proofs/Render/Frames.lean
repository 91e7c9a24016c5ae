import LiveTemplate.Proofs.Render.Drawing

/-!
Where a machine runs, and what is open. All that decides which instruction comes next are the
positions of the frames and the lists they go through. Most instructions leave them alone, and leave
the regions open that are open. Those that do not jump within the block of the innermost frame,
begin a pass or take the next element of it, start another block, or begin or end a region or a list.
-/

namespace LiveTemplate

open Effects

/-- Where a frame runs, and the list that it goes through. -/
structure Course where
  next : Nat
  slice : Slice
  iterator : Option FirstPass := none

def Frame.course (frame : Frame) : Course := ⟨frame.next, frame.slice, frame.iterator⟩

/-- The start of a slice. -/
def Slice.course (slice : Slice) : Course := { next := slice.start, slice }

/-- Where the frames run, the innermost first. -/
def Machine.courses (machine : Machine) : List Course := machine.frames.map Frame.course

/-- The content, with more updates. -/
def Content.recording (updates : List Update) (content : Content) : Content :=
  { content with updates := content.updates ++ updates }

namespace Builder

/-- A builder without what was recorded in it. -/
def bare : Builder → Builder
  | .root _ => .root {}
  | .region slice captured extent key _ => .region slice captured extent key {}
  | .list shown => .list shown

/-- A builder whose content was changed. A list has none of its own. -/
def alter (change : Content → Content) : Builder → Builder
  | .root content => .root (change content)
  | .region slice captured extent key content => .region slice captured extent key (change content)
  | .list shown => .list shown

@[simp] theorem bare_alter (change : Content → Content) (builder : Builder) :
    (builder.alter change).bare = builder.bare := by
  cases builder <;> rfl

theorem alter_alter (first second : Content → Content) (builder : Builder) :
    (builder.alter first).alter second = builder.alter (second ∘ first) := by
  cases builder <;> rfl

end Builder

/-- The open regions, of which the innermost one may have anything recorded. -/
def Machine.openings (machine : Machine) : List Builder := machine.builders.modifyHead Builder.bare

/-- The frames run there, and these regions are open. -/
structure Machine.At (machine : Machine) (courses : List Course) (openings : List Builder) :
    Prop where
  courses : machine.courses = courses
  openings : machine.openings = openings

/-- The frames run where they ran, and the regions are open that were open. -/
structure Machine.Rests (before after : Machine) : Prop where
  courses : after.courses = before.courses
  openings : after.openings = before.openings

namespace Machine.Rests

variable {first second third before after : Machine}

theorem refl (machine : Machine) : machine.Rests machine := ⟨rfl, rfl⟩

theorem trans (early : first.Rests second) (late : second.Rests third) : first.Rests third :=
  ⟨late.courses.trans early.courses, late.openings.trans early.openings⟩

theorem of_frames (frames : after.frames = before.frames)
    (builders : after.builders = before.builders) : before.Rests after :=
  ⟨congrArg (List.map Frame.course) frames, congrArg (List.modifyHead Builder.bare) builders⟩

theorem of_draws (draws : before.Draws after) : before.Rests after :=
  .of_frames draws.frames draws.builders

theorem here {courses : List Course} {openings : List Builder} (rests : before.Rests after)
    (here : before.At courses openings) : after.At courses openings :=
  ⟨rests.courses.trans here.courses, rests.openings.trans here.openings⟩

end Machine.Rests

namespace Running

theorem modifyFrame_eq (change : Frame → Frame) (machine : Machine) :
    modifyFrame change machine = match machine.frames with
      | frame :: outer => .ok () { machine with frames := change frame :: outer }
      | [] => .error (.broken .noFrame) machine := by
  unfold modifyFrame
  cases shape : machine.frames with
  | nil => exact (bind_of_ok rfl).trans (by rw [shape]; rfl)
  | cons frame outer => exact (bind_of_ok rfl).trans (by rw [shape]; rfl)

theorem modifyFrame_ok {change : Frame → Frame} {machine after : Machine} :
    modifyFrame change machine = .ok () after ↔ ∃ frame outer, machine.frames = frame :: outer ∧
      { machine with frames := change frame :: outer } = after := by
  rw [modifyFrame_eq]
  cases machine.frames with
  | nil => simp
  | cons frame outer => simp [and_assoc]

theorem modifyContent_ok {change : Content → Content} {machine after : Machine}
    (ended : modifyContent change machine = .ok () after) :
    after = { machine with builders := machine.builders.modifyHead (Builder.alter change) } := by
  obtain ⟨_, _, got, ended⟩ := bind_ok.mp ended
  obtain ⟨rfl, rfl⟩ := get_ok.mp got
  cases shape : machine.builders with
  | nil =>
    rw [shape] at ended
    exact absurd ended throw_ok
  | cons builder outer =>
    rw [shape] at ended
    cases builder with
    | list shown => exact absurd ended throw_ok
    | _ =>
      cases ended
      rfl

theorem modifyContent_error {change : Content → Content} {machine after : Machine} {fault : Fault}
    (failed : modifyContent change machine = .error fault after) : after = machine := by
  rcases bind_error.mp failed with failed | ⟨_, _, got, failed⟩
  · exact absurd failed get_error
  obtain ⟨rfl, rfl⟩ := get_ok.mp got
  cases shape : machine.builders with
  | nil =>
    rw [shape] at failed
    exact (throw_error.mp failed).2.symm
  | cons builder outer =>
    rw [shape] at failed
    cases builder with
    | list shown => exact (throw_error.mp failed).2.symm
    | _ => exact absurd failed modify_error

theorem modifyContent_openings {change : Content → Content} {machine after : Machine}
    (ended : modifyContent change machine = .ok () after) :
    ∃ builders, after = { machine with builders } ∧ after.openings = machine.openings := by
  refine ⟨_, modifyContent_ok ended, ?_⟩
  rw [modifyContent_ok ended]
  cases shape : machine.builders <;> simp [Machine.openings, shape]

/-- All frames run on where they ran, and no region begins or ends. -/
abbrev Quiet {α : Type} (action : Running α) : Prop := Sustains Machine.Rests action

namespace Quiet

variable {α β : Type}

theorem pure (value : α) : Quiet (Pure.pure value) :=
  Sustains.pure Machine.Rests.refl value

theorem throw (fault : Fault) : Quiet (MonadExcept.throw fault : Running α) :=
  Sustains.throw Machine.Rests.refl fault

theorem get : Quiet MonadState.get := Sustains.get Machine.Rests.refl

theorem bind {first : Running α} {next : α → Running β} (head : Quiet first)
    (tail : ∀ value, Quiet (next value)) : Quiet (first >>= next) :=
  Sustains.bind (fun early late => early.trans late) head tail

theorem modify {change : Machine → Machine}
    (frames : ∀ machine, (change machine).frames = machine.frames)
    (builders : ∀ machine, (change machine).builders = machine.builders) :
    Quiet (modify change : Running Unit) :=
  Sustains.modify fun machine => .of_frames (frames machine) (builders machine)

/-- Nothing is drawn in a frame or a region. -/
theorem of_draws {action : Running α} {post : α → Machine → Prop}
    (draws : ∀ machine : Machine, machine.drawing.Goes machine action post) : Quiet action :=
  fun machine =>
    ⟨fun _ _ ended => .of_draws ((draws machine).of_ok ended).1,
      fun _ _ failed => .of_draws ((draws machine).of_error failed).2⟩

theorem lift (action : Render α) : Quiet (liftM action : Running α) := by
  intro machine
  constructor
  · intro result after ended
    obtain ⟨world, -, rfl⟩ := lift_ok.mp ended
    exact .of_frames rfl rfl
  · intro fault after failed
    obtain ⟨world, -, rfl⟩ := lift_error.mp failed
    exact .of_frames rfl rfl

theorem onPage (action : EStateM Fault Page α) : Quiet (liftM action : Running α) := by
  intro machine
  constructor
  · intro result after ended
    obtain ⟨page, -, rfl⟩ := onPage_ok.mp ended
    exact .of_frames rfl rfl
  · intro fault after failed
    obtain ⟨page, -, rfl⟩ := onPage_error.mp failed
    exact .of_frames rfl rfl

theorem reading (action : Reading α) : Quiet (liftM action : Running α) := by
  intro machine
  constructor
  · intro result after ended
    obtain ⟨store, -, rfl⟩ := reading_ok.mp ended
    exact .of_frames rfl rfl
  · intro fault after failed
    obtain ⟨store, -, rfl⟩ := reading_error.mp failed
    exact .of_frames rfl rfl

theorem lookUp (outcome : Except Defect α) : Quiet (liftM outcome : Running α) := by
  cases outcome with
  | ok value => exact .pure value
  | error defect => exact .throw (.broken defect)

theorem ite {condition : Prop} [Decidable condition] {first second : Running α}
    (holds : Quiet first) (fails : Quiet second) :
    Quiet (if condition then first else second) := by
  split
  · exact holds
  · exact fails

theorem forM {action : α → Running Unit} (each : ∀ item, Quiet (action item)) (items : List α) :
    Quiet (items.forM action) := by
  induction items with
  | nil => exact .pure ()
  | cons item rest ih => exact .bind (each item) fun _ => ih

/-! Frames -/

theorem frame : Quiet Running.frame := .bind .get fun machine => by
  split
  · exact .pure _
  · exact .throw _

theorem modifyFrame {change : Frame → Frame}
    (same : ∀ frame, (change frame).course = frame.course) : Quiet (Running.modifyFrame change) := by
  intro machine
  constructor
  · intro result after ended
    obtain ⟨frame, outer, shape, rfl⟩ := modifyFrame_ok.mp ended
    refine ⟨?_, rfl⟩
    simp only [Machine.courses, shape, List.map_cons, same]
  · intro fault after failed
    rw [modifyFrame_eq] at failed
    split at failed
    · cases failed
    · obtain ⟨-, rfl⟩ := EStateM.Result.error.inj failed
      exact .refl _

theorem modifyRegisters (change : Registers → Registers) : Quiet (Running.modifyRegisters change) :=
  .modifyFrame fun _ => rfl

theorem ambient : Quiet Running.ambient := .bind .frame fun frame => by
  split
  · exact .pure _
  · exact .throw _

/-! Scopes and regions -/

theorem scope : Quiet Running.scope := .bind .get fun _ => .bind .frame fun _ => .lookUp _

theorem modifyScope (change : Scope → Scope) : Quiet (Running.modifyScope change) :=
  .bind .get fun _ => .bind .frame fun _ => .bind (.lookUp _) fun _ => .lift _

theorem modifyContent (change : Content → Content) : Quiet (Running.modifyContent change) := by
  intro machine
  constructor
  · intro result after ended
    obtain ⟨builders, rfl, openings⟩ := modifyContent_openings ended
    exact ⟨rfl, openings⟩
  · intro fault after failed
    rw [modifyContent_error failed]
    exact .refl _

theorem content : Quiet Running.content := .bind .get fun machine => by
  split
  · exact .pure _
  · exact .pure _
  · exact .throw _
  · exact .throw _

theorem record (update : Update) : Quiet (Running.record update) := .modifyContent _

theorem blockScope (block : CompiledBlock) (parent : ScopeId) :
    Quiet (Running.blockScope block parent) := by
  refine .ite (.pure _) ?_
  exact .bind .get fun _ => .bind (.lookUp _) fun _ => .bind (.lift _) fun _ =>
    .bind (.modifyContent _) fun _ => .pure _

/-! Operands -/

theorem push (operand : Operand) : Quiet (Running.push operand) := .modify (fun _ => rfl) fun _ => rfl

theorem pop : Quiet Running.pop := by
  refine Sustains.modifyGet fun machine => ?_
  split
  · exact .of_frames rfl rfl
  · exact .refl _

theorem popReference : Quiet Running.popReference := .bind .pop fun operand => by
  split
  · exact .pure _
  · exact .throw _

theorem popArguments : Quiet Running.popArguments := .bind .pop fun operand => by
  split
  · exact .pure _
  · exact .throw _

theorem popBlock : Quiet Running.popBlock := .bind .pop fun operand => by
  split
  · exact .pure _
  · exact .throw _

theorem popMany (count : Nat) (references : List Reference) :
    Quiet (Running.popMany count references) := by
  induction count generalizing references with
  | zero => exact .pure _
  | succ count ih => exact .bind .popReference fun reference => ih _

theorem popReferences (count : Nat) : Quiet (Running.popReferences count) :=
  .bind .get fun _ => .ite (.bind (.throw _) fun _ => .popMany _ _) (.popMany _ _)

theorem collectArguments (scene : Scene) (positional : Nat) (names : Handle) :
    Quiet (Running.collectArguments scene positional names) :=
  .bind (.lookUp _) fun _ => .bind (.popReferences _) fun _ => .bind (.popReferences _) fun _ =>
    .pure _

/-! Elements and extents -/

theorem constructing : Quiet Running.constructing := .bind .get fun machine => by
  split
  · exact .pure _
  · exact .throw _

theorem appendNode (data : NodeData) : Quiet (Running.appendNode data) :=
  .of_draws fun _ => appendNode_draws (.refl _) data

theorem openElement (tag : String) : Quiet (Running.openElement tag) :=
  .of_draws fun _ => openElement_draws (.refl _) tag

theorem setAttribute (name value : String) (space : Option String) :
    Quiet (Running.setAttribute name value space) :=
  .of_draws fun _ => setAttribute_draws (.refl _) name value space

theorem flushElement : Quiet Running.flushElement := .of_draws fun _ => flushElement_draws (.refl _)

theorem closeElement : Quiet Running.closeElement := .of_draws fun _ => closeElement_draws (.refl _)

theorem pushBlock : Quiet Running.pushBlock := .of_draws fun _ => pushBlock_draws (.refl _)

theorem popExtent : Quiet Running.popExtent := .of_draws fun _ => popExtent_draws (.refl _)

/-! Instructions -/

variable (scene : Scene)

theorem optionalString (handle : Handle) : Quiet (Running.string? scene handle) :=
  .ite (.pure _) (.bind (.lookUp _) fun _ => .pure _)

theorem newCache (reference : Reference) : Quiet (Running.newCache scene reference) := .reading _

theorem isDynamic (cache : Cache) : Quiet (Running.isDynamic scene cache) :=
  .bind (.reading _) fun _ => .pure _

theorem dynamicAttr (name : String) (space : Option String) :
    Quiet (Running.dynamicAttr scene name space) := by
  refine .bind .popReference fun _ => .bind (.newCache scene _) fun _ =>
    .bind .constructing fun _ => ?_
  exact .bind (.lift _) fun _ => .bind (.isDynamic scene _) fun _ => .ite (.record _) (.pure _)

theorem dynamicContent (trusted : Bool) : Quiet (Running.dynamicContent scene trusted) := by
  refine .bind .popReference fun _ => .bind (.newCache scene _) fun _ =>
    .bind (.isDynamic scene _) fun _ => ?_
  refine .ite ?_ (.bind (.appendNode _) fun _ => .ite (.record _) (.pure _))
  exact .bind .pushBlock fun _ => .bind (.appendNode _) fun _ => .bind .popExtent fun _ =>
    .ite (.record _) (.pure _)

theorem modifier (name : String) : Quiet (Running.modifier scene name) := by
  refine .bind .popArguments fun invocation => ?_
  split
  · exact .throw _
  · refine .bind (.lift _) fun _ => .bind .constructing fun _ => .bind (.onPage _) fun _ => ?_
    refine .bind (.lift _) fun _ => .bind (.modifyContent _) fun _ => .bind (.reading _) fun _ => ?_
    exact .ite (.pure _) (.bind (.reading _) fun _ => .bind (.reading _) fun _ => .record _)

theorem literalOf (literal : Primitive) : Quiet (Running.literalOf scene literal) := by
  cases literal with
  | text handle => exact .bind (.lookUp _) fun _ => .pure _
  | _ => exact .pure _

theorem lookupBlock (symbol : Symbol) (name : Handle) :
    Quiet (Running.lookupBlock scene symbol name) :=
  .bind .scope fun _ => .ite (.pure _) (.bind (.lookUp _) fun _ => .pure _)

theorem hasBlockParams (found : Option Handle) : Quiet (Running.hasBlockParams scene found) := by
  cases found with
  | some handle => exact .bind (.lookUp _) fun _ => .pure _
  | none => exact .pure _

theorem pushHelper (name : String) : Quiet (Running.pushHelper scene name) := by
  refine .bind .popArguments fun invocation => ?_
  split
  · exact .throw _
  · exact .push _

theorem putLocal (index : Nat) : Quiet (Running.putLocal index) :=
  .bind .popReference fun _ => .modifyFrame fun _ => rfl

theorem pushLocal (index : Nat) : Quiet (Running.pushLocal index) := .bind .frame fun frame => by
  split
  · exact .push _
  · exact .throw _

theorem bindPositional (symbols : List Symbol) (references : List Reference) :
    Quiet (Running.bindPositional symbols references) := by
  induction symbols generalizing references with
  | nil => exact .pure _
  | cons symbol symbols ih => exact .bind (.modifyScope _) fun _ => ih _

theorem bindSymbols (names symbols : Handle) (slot : String → Slot) :
    Quiet (Running.bindSymbols scene names symbols slot) :=
  .bind (.lookUp _) fun _ => .bind (.lookUp _) fun _ => .forM (fun _ => .modifyScope _) _

theorem test (kind : TestKind) : Quiet (Running.test scene kind) := by
  refine .bind .frame fun frame => ?_
  cases kind with
  | const => exact .bind (.reading _) fun _ => .bind (.pure _) fun _ => .modifyRegisters _
  | simple | environment => exact .bind (.pure _) fun _ => .modifyRegisters _

theorem putDynamicPartial (names blocks : Handle) :
    Quiet (Running.putDynamicPartial scene names blocks) := by
  refine .bind .popReference fun _ => .bind (.newCache scene _) fun _ => ?_
  refine .bind (.lookUp _) fun _ => .bind (.lookUp _) fun _ => ?_
  split
  · exact .throw _
  · refine .bind (.isDynamic scene _) fun _ => .ite (.bind (.record _) fun _ => ?_) ?_
    · exact .modifyFrame fun _ => rfl
    · exact .modifyFrame fun _ => rfl

theorem putComponent (name : String) (layout : Handle) :
    Quiet (Running.putComponent scene name layout) := by
  unfold Running.putComponent
  split
  · exact .throw _
  · exact .modifyFrame fun _ => rfl

theorem didCreateElement : Quiet (Running.didCreateElement scene) := .bind .frame fun frame => by
  split
  · exact .throw _
  · exact .bind .constructing fun _ => .lift _

theorem didRenderLayout : Quiet (Running.didRenderLayout scene) := .bind .frame fun frame => by
  split
  · exact .throw _
  · exact .bind (.lift _) fun _ => .bind (.lift _) fun _ => .bind (.lift _) fun _ => .record _

theorem closeComponent : Quiet Running.closeComponent :=
  .bind .popExtent fun _ => .bind .get fun machine => by
  split
  · exact .throw _
  · refine .bind (.modify (fun _ => rfl) fun _ => rfl) fun _ => .ite ?_ (.bind (.throw _) fun _ => ?_)
    · exact .bind (.reading _) fun _ => .modifyContent _
    · exact .bind (.reading _) fun _ => .modifyContent _

end Quiet

end Running

/-- Neither jumps, nor begins or goes on with a pass, nor starts a block, nor begins or ends a region
or a list. -/
def Op.isQuiet : Op → Bool
  | .jump | .jumpIf | .jumpUnless | .putIterator | .nextIter | .evaluate | .openBlock
  | .evaluatePartial | .openComponent | .enter | .exit | .enterList | .exitList
  | .enterWithKey => false
  | _ => true

namespace Running

/-- Such an instruction leaves all frames where they are, and all regions open. -/
theorem Quiet.step {scene : Scene} {instruction : Instruction}
    (quiet : instruction.op.isQuiet = true) : Quiet (Running.step scene instruction) := by
  obtain ⟨op, first, second, third⟩ := instruction
  cases op with
  | text | comment => exact .bind (.lookUp _) fun _ => .bind (.appendNode _) fun _ => .pure _
  | openElement => exact .bind (.lookUp _) fun _ => .openElement _
  | flushElement => exact .flushElement
  | closeElement => exact .closeElement
  | staticAttr =>
    exact .bind (.lookUp _) fun _ => .bind (.lookUp _) fun _ => .bind (.optionalString scene _)
      fun _ => .setAttribute _ _ _
  | dynamicAttr =>
    exact .bind (.lookUp _) fun _ => .bind (.optionalString scene _) fun _ => .dynamicAttr scene _ _
  | modifier => exact .bind (.lookUp _) fun _ => .modifier scene _
  | dynamicContent => exact .dynamicContent scene _
  | pushSelf | pushSymbol => exact .bind .scope fun _ => .push _
  | getKey => exact .bind .popReference fun _ => .bind (.lookUp _) fun _ => .push _
  | pushPrimitive => exact .bind (.lookUp _) fun _ => .bind (.literalOf scene _) fun _ => .push _
  | pushImmediate => exact .bind (.lookUp _) fun _ => .push _
  | concat => exact .bind (.popReferences _) fun _ => .push _
  | helper => exact .bind (.lookUp _) fun _ => .pushHelper scene _
  | pushArgs => exact .bind (.collectArguments scene _ _) fun _ => .push _
  | hasBlock => exact .bind (.lookupBlock scene _ _) fun _ => .push _
  | hasBlockParams =>
    exact .bind (.lookupBlock scene _ _) fun _ => .bind (.hasBlockParams scene _) fun _ => .push _
  | getBlock => exact .bind .scope fun _ => .push _
  | getEvalBlock => exact .bind (.lookupBlock scene _ _) fun _ => .push _
  | getDynamicVar => exact .bind .popReference fun _ => .bind .ambient fun _ => .push _
  | pushDynamicScope => exact .bind .ambient fun _ => .modifyFrame fun _ => rfl
  | popDynamicScope => exact .modifyFrame fun _ => rfl
  | bindDynamicScope =>
    exact .bind (.lookUp _) fun _ => .bind .frame fun _ => .bind .ambient fun _ =>
      .modifyFrame fun _ => rfl
  | reserveLocals | releaseLocals => exact .modifyFrame fun _ => rfl
  | putLocal => exact .putLocal _
  | pushLocal => exact .pushLocal _
  | bindPositionalArgs =>
    exact .bind .frame fun _ => .bind (.lookUp _) fun _ => .bindPositional _ _
  | bindNamedArgs | bindBlocks => exact .bind .frame fun _ => .bindSymbols scene _ _ _
  | bindPartialArgs => exact .bind .frame fun _ => .modifyScope _
  | bindCallerScope =>
    refine .bind .frame fun frame => ?_
    split
    · exact .modifyScope _
    · exact .pure _
  | test => exact .bind (.lookUp _) fun _ => .test scene _
  | putArgs => exact .bind (.collectArguments scene _ _) fun _ => .modifyRegisters _
  | closeBlock | noop => exact .pure _
  | putPartial => exact .modifyFrame fun _ => rfl
  | putDynamicPartial => exact .putDynamicPartial scene _ _
  | putComponent => exact .bind (.lookUp _) fun _ => .putComponent scene _ _
  | didCreateElement => exact .didCreateElement scene
  | didRenderLayout => exact .didRenderLayout scene
  | closeComponent => exact .closeComponent
  | _ => cases quiet

/-! Regions -/

section Regions

variable {machine after : Machine} {slice : Slice}

theorem record_ok {update : Update} (ended : record update machine = .ok () after) :
    after = { machine with
      builders := machine.builders.modifyHead (Builder.alter (Content.recording [update])) } :=
  modifyContent_ok ended

/-- Nothing more was recorded. -/
theorem alter_nothing (builders : List Builder) :
    builders.modifyHead (Builder.alter (Content.recording [])) = builders := by
  have nothing : Content.recording [] = id := by
    funext content
    obtain ⟨updates, scopes, owned⟩ := content
    simp [Content.recording]
  have same : ∀ builder : Builder, builder.alter (Content.recording []) = builder := by
    intro builder
    rw [nothing]
    cases builder <;> rfl
  cases builders with
  | nil => rfl
  | cons builder outer => exact congrArg (· :: outer) (same builder)

theorem alter_recording (first second : List Update) (builders : List Builder) :
    (builders.modifyHead (Builder.alter (Content.recording first))).modifyHead
        (Builder.alter (Content.recording second)) =
      builders.modifyHead (Builder.alter (Content.recording (first ++ second))) := by
  have both : Content.recording second ∘ Content.recording first =
      Content.recording (first ++ second) := by
    funext content
    simp [Content.recording]
  cases builders with
  | nil => rfl
  | cons builder outer =>
    exact congrArg (· :: outer) ((Builder.alter_alter _ _ builder).trans (by rw [both]))

theorem ambient_ok {visible : Variables} (ended : ambient machine = .ok visible after) :
    machine = after := by
  obtain ⟨here, _, asked, ended⟩ := bind_ok.mp ended
  obtain ⟨-, rfl⟩ := frame_ok.mp asked
  cases shape : here.ambient with
  | nil =>
    rw [shape] at ended
    exact absurd ended throw_ok
  | cons first rest =>
    rw [shape] at ended
    exact (pure_ok.mp ended).2

theorem capture_ok {captured : Captured} (ended : capture machine = .ok captured after) :
    machine = after := by
  obtain ⟨here, _, asked, ended⟩ := bind_ok.mp ended
  obtain ⟨-, rfl⟩ := frame_ok.mp asked
  obtain ⟨visible, _, asked, ended⟩ := bind_ok.mp ended
  obtain rfl := ambient_ok asked
  exact (pure_ok.mp ended).2

theorem popExtent_draws_ok (ended : popExtent machine = .ok () after) : machine.Draws after :=
  ((popExtent_draws (.refl machine)).of_ok ended).1

theorem enter_opens {key : Option Key} (ended : enter slice key machine = .ok () after) :
    after.frames = machine.frames ∧ ∃ captured extent,
      after.builders = .region slice captured extent key {} :: machine.builders := by
  obtain ⟨captured, _, asked, ended⟩ := bind_ok.mp ended
  obtain rfl := capture_ok asked
  obtain ⟨extent, begun, made, ended⟩ := bind_ok.mp ended
  have draws := ((pushBlock_draws (.refl machine)).of_ok made).1
  cases ended
  exact ⟨draws.frames, captured, extent, congrArg _ draws.builders⟩

theorem enterWithKey_opens (ended : enterWithKey slice machine = .ok () after) :
    after.courses = machine.courses ∧ ∃ key captured extent,
      after.builders = .region slice captured extent (some key) {} :: machine.builders := by
  obtain ⟨here, _, asked, ended⟩ := bind_ok.mp ended
  obtain ⟨-, rfl⟩ := frame_ok.mp asked
  cases waiting : here.key with
  | none =>
    rw [waiting] at ended
    exact absurd ended throw_ok
  | some key =>
    rw [waiting] at ended
    obtain ⟨_, between, changed, ended⟩ := bind_ok.mp ended
    have quiet : Quiet (modifyFrame fun frame => { frame with key := none }) :=
      .modifyFrame fun _ => rfl
    have same := quiet.of_ok changed
    obtain ⟨frame, outer, -, rfl⟩ := modifyFrame_ok.mp changed
    obtain ⟨frames, captured, extent, builders⟩ := enter_opens ended
    exact ⟨(congrArg (List.map Frame.course) frames).trans same.courses, key, captured, extent,
      builders⟩

theorem enterList_opens (ended : enterList slice machine = .ok () after) :
    after.frames = machine.frames ∧ after.store = machine.store ∧ ∃ list : ListRegion,
      list.items = [] ∧ after.builders = .list list :: machine.builders := by
  obtain ⟨here, _, asked, ended⟩ := bind_ok.mp ended
  obtain ⟨-, rfl⟩ := frame_ok.mp asked
  cases iterates : here.iterator with
  | none =>
    rw [iterates] at ended
    exact absurd ended throw_ok
  | some walk =>
    rw [iterates] at ended
    obtain ⟨captured, _, asked, ended⟩ := bind_ok.mp ended
    obtain rfl := capture_ok asked
    obtain ⟨extent, begun, made, ended⟩ := bind_ok.mp ended
    have draws := ((pushList_draws (.refl machine)).of_ok made).1
    obtain ⟨now, _, asked, ended⟩ := bind_ok.mp ended
    cases asked
    cases ended
    exact ⟨draws.frames, draws.world.store, _, rfl, congrArg _ draws.builders⟩

/-- A region with the key of an earlier item takes its place at the end of the list. -/
theorem addItem_builders {list : ListRegion} {key : Key} {region : Region} {outer : List Builder}
    (ended : addItem list key region outer machine = .ok () after) :
    after.frames = machine.frames ∧ after.builders = .list { list with
      items := (list.items.filter fun item => item.1 ≠ key) ++ [(key, region)] } :: outer := by
  obtain ⟨_, _, put, ended⟩ := bind_ok.mp ended
  cases put
  cases found : Entries.get? key list.items with
  | some earlier =>
    rw [found] at ended
    obtain ⟨_, _, removed, ended⟩ := bind_ok.mp ended
    obtain ⟨world, -, rfl⟩ := lift_ok.mp removed
    cases ended
    exact ⟨rfl, rfl⟩
  | none =>
    rw [found] at ended
    cases ended
    exact ⟨rfl, rfl⟩

variable {captured : Captured} {extent : ExtentId} {content : Content} {outer : List Builder}

/-- The innermost region is the one that was opened, whatever was recorded in it. -/
theorem openings_region {key : Option Key}
    (opened : machine.openings = .region slice captured extent key {} :: outer) :
    ∃ content, machine.builders = .region slice captured extent key content :: outer := by
  unfold Machine.openings at opened
  cases shape : machine.builders with
  | nil =>
    rw [shape] at opened
    cases opened
  | cons builder rest =>
    rw [shape] at opened
    cases builder with
    | region =>
      cases opened
      exact ⟨_, rfl⟩
    | root => cases opened
    | list => cases opened

theorem openings_list {list : ListRegion} (opened : machine.openings = .list list :: outer) :
    machine.builders = .list list :: outer := by
  unfold Machine.openings at opened
  cases shape : machine.builders with
  | nil =>
    rw [shape] at opened
    cases opened
  | cons builder rest =>
    rw [shape] at opened
    cases builder with
    | list =>
      cases opened
      rfl
    | root => cases opened
    | region => cases opened

theorem exit_closes
    (builders : machine.builders = .region slice captured extent none content :: outer)
    (ended : exit machine = .ok () after) :
    after.frames = machine.frames ∧ after.builders = outer.modifyHead
      (Builder.alter (Content.recording [.region ⟨slice, captured, extent, content⟩])) := by
  obtain ⟨_, _, got, ended⟩ := bind_ok.mp ended
  obtain ⟨rfl, rfl⟩ := get_ok.mp got
  rw [builders] at ended
  obtain ⟨_, _, left, ended⟩ := bind_ok.mp ended
  cases left
  obtain ⟨_, popped, closed, ended⟩ := bind_ok.mp ended
  have draws := popExtent_draws_ok closed
  rw [record_ok ended, draws.builders]
  exact ⟨draws.frames, rfl⟩

theorem exitItem_closes {key : Key} {list : ListRegion}
    (builders : machine.builders =
      .region slice captured extent (some key) content :: .list list :: outer)
    (ended : exit machine = .ok () after) :
    after.frames = machine.frames ∧ after.builders = .list { list with
      items := (list.items.filter fun item => item.1 ≠ key) ++
        [(key, ⟨slice, captured, extent, content⟩)] } :: outer := by
  obtain ⟨_, _, got, ended⟩ := bind_ok.mp ended
  obtain ⟨rfl, rfl⟩ := get_ok.mp got
  rw [builders] at ended
  obtain ⟨_, _, left, ended⟩ := bind_ok.mp ended
  cases left
  obtain ⟨_, popped, closed, ended⟩ := bind_ok.mp ended
  have draws := popExtent_draws_ok closed
  obtain ⟨frames, builders⟩ := addItem_builders ended
  exact ⟨frames.trans draws.frames, builders⟩

theorem exitList_closes {list : ListRegion} (builders : machine.builders = .list list :: outer)
    (ended : exitList machine = .ok () after) :
    after.frames = machine.frames ∧ after.builders =
      outer.modifyHead (Builder.alter (Content.recording [.list list])) := by
  obtain ⟨_, _, got, ended⟩ := bind_ok.mp ended
  obtain ⟨rfl, rfl⟩ := get_ok.mp got
  rw [builders] at ended
  obtain ⟨_, _, left, ended⟩ := bind_ok.mp ended
  cases left
  obtain ⟨extents, _, asked, ended⟩ := bind_ok.mp ended
  cases asked
  obtain ⟨grown, _, found, ended⟩ := bind_ok.mp ended
  obtain ⟨-, rfl⟩ := lookUp_ok.mp found
  obtain ⟨_, _, put, ended⟩ := bind_ok.mp ended
  cases put
  obtain ⟨_, popped, closed, ended⟩ := bind_ok.mp ended
  have draws := popExtent_draws_ok closed
  rw [record_ok ended, draws.builders]
  exact ⟨draws.frames, rfl⟩

/-! The same, as far as it shows in what is open -/

variable {courses : List Course} {openings : List Builder}

theorem bare_alter_head (change : Content → Content) (builders : List Builder) :
    (builders.modifyHead (Builder.alter change)).modifyHead Builder.bare =
      builders.modifyHead Builder.bare := by
  cases builders <;> simp

theorem enter_at {key : Option Key} (ended : enter slice key machine = .ok () after)
    (here : machine.At courses openings) : ∃ captured extent,
      after.At courses (.region slice captured extent key {} :: machine.builders) := by
  obtain ⟨frames, captured, extent, builders⟩ := enter_opens ended
  exact ⟨captured, extent, (congrArg (List.map Frame.course) frames).trans here.courses,
    congrArg (List.modifyHead Builder.bare) builders⟩

theorem enterWithKey_at (ended : enterWithKey slice machine = .ok () after)
    (here : machine.At courses openings) : ∃ key captured extent,
      after.At courses (.region slice captured extent (some key) {} :: machine.builders) := by
  obtain ⟨same, key, captured, extent, builders⟩ := enterWithKey_opens ended
  exact ⟨key, captured, extent, same.trans here.courses,
    congrArg (List.modifyHead Builder.bare) builders⟩

theorem enterList_at (ended : enterList slice machine = .ok () after)
    (here : machine.At courses openings) :
    ∃ list, after.At courses (.list list :: machine.builders) := by
  obtain ⟨frames, -, list, -, builders⟩ := enterList_opens ended
  exact ⟨list, (congrArg (List.map Frame.course) frames).trans here.courses,
    congrArg (List.modifyHead Builder.bare) builders⟩

theorem exit_at (ended : exit machine = .ok () after)
    (here : machine.At courses (.region slice captured extent none {} :: outer)) :
    after.At courses (outer.modifyHead Builder.bare) := by
  obtain ⟨content, builders⟩ := openings_region here.openings
  obtain ⟨frames, recorded⟩ := exit_closes builders ended
  refine ⟨(congrArg (List.map Frame.course) frames).trans here.courses, ?_⟩
  rw [Machine.openings, recorded, bare_alter_head]

theorem exitItem_at {key : Key} {list : ListRegion} (ended : exit machine = .ok () after)
    (here : machine.At courses
      (.region slice captured extent (some key) {} :: .list list :: outer)) :
    ∃ list, after.At courses (.list list :: outer) := by
  obtain ⟨content, builders⟩ := openings_region here.openings
  obtain ⟨frames, added⟩ := exitItem_closes builders ended
  exact ⟨_, (congrArg (List.map Frame.course) frames).trans here.courses,
    congrArg (List.modifyHead Builder.bare) added⟩

theorem exitList_at {list : ListRegion} (ended : exitList machine = .ok () after)
    (here : machine.At courses (.list list :: outer)) :
    after.At courses (outer.modifyHead Builder.bare) := by
  obtain ⟨frames, recorded⟩ := exitList_closes (openings_list here.openings) ended
  refine ⟨(congrArg (List.map Frame.course) frames).trans here.courses, ?_⟩
  rw [Machine.openings, recorded, bare_alter_head]

end Regions

/-! Jumps -/

variable {scene : Scene} {machine after : Machine} {course : Course} {outer : List Course}
  {openings : List Builder}

/-- A change of the innermost frame, as far as it shows in where the frames run. -/
theorem modifyFrame_at {change : Frame → Frame} {moved : Course}
    (ended : modifyFrame change machine = .ok () after)
    (here : machine.At (course :: outer) openings)
    (moves : ∀ frame : Frame, frame.course = course → (change frame).course = moved) :
    after.At (moved :: outer) openings := by
  obtain ⟨frame, rest, shape, rfl⟩ := modifyFrame_ok.mp ended
  obtain ⟨here, same⟩ := here
  refine ⟨?_, same⟩
  simp only [Machine.courses, shape, List.map_cons, List.cons.injEq] at here ⊢
  exact ⟨moves frame here.1, here.2⟩

theorem goto_at {target : Nat} (ended : goto target machine = .ok () after)
    (here : machine.At (course :: outer) openings) :
    after.At ({ course with next := target } :: outer) openings := by
  obtain ⟨frame, between, asked, ended⟩ := bind_ok.mp ended
  obtain ⟨-, rfl⟩ := frame_ok.mp asked
  dsimp only at ended
  split at ended
  · obtain ⟨_, _, failed, -⟩ := bind_ok.mp ended
    exact absurd failed throw_ok
  · refine modifyFrame_at ended here ?_
    rintro frame rfl
    rfl

theorem goto_builders {target : Nat} (ended : goto target machine = .ok () after) :
    after.builders = machine.builders := by
  obtain ⟨frame, between, asked, ended⟩ := bind_ok.mp ended
  obtain ⟨-, rfl⟩ := frame_ok.mp asked
  dsimp only at ended
  split at ended
  · obtain ⟨_, _, failed, -⟩ := bind_ok.mp ended
    exact absurd failed throw_ok
  · obtain ⟨_, _, -, rfl⟩ := modifyFrame_ok.mp ended
    rfl

theorem jumpOn_at {op : Op} {wanted : Bool} {target : Nat}
    (ended : jumpOn scene op wanted target machine = .ok () after)
    (here : machine.At (course :: outer) openings) :
    after.At (course :: outer) openings ∨
      after.At ({ course with next := target } :: outer) openings := by
  obtain ⟨frame, between, asked, ended⟩ := bind_ok.mp ended
  obtain ⟨-, rfl⟩ := frame_ok.mp asked
  cases given : frame.registers.condition with
  | none =>
    rw [given] at ended
    exact absurd ended throw_ok
  | some condition =>
    rw [given] at ended
    obtain ⟨cache, first, cached, ended⟩ := bind_ok.mp ended
    obtain ⟨dynamic, second, known, ended⟩ := bind_ok.mp ended
    have here := ((Quiet.isDynamic scene cache).of_ok known).here
      (((Quiet.newCache scene _).of_ok cached).here here)
    have jumps : ∀ {machine : Machine}, machine.At (course :: outer) openings →
        (if cache.last.truthy = wanted then goto target else Pure.pure () : Running Unit) machine =
          .ok () after →
        after.At (course :: outer) openings ∨
          after.At ({ course with next := target } :: outer) openings := by
      intro machine here ended
      split at ended
      · exact .inr (goto_at ended here)
      · obtain ⟨-, rfl⟩ := pure_ok.mp ended
        exact .inl here
    dsimp only at ended
    split at ended
    · obtain ⟨_, third, recorded, ended⟩ := bind_ok.mp ended
      exact jumps (((Quiet.record _).of_ok recorded).here here) ended
    · exact jumps here ended

/-! Passes -/

theorem putIterator_at (ended : putIterator scene machine = .ok () after)
    (here : machine.At (course :: outer) openings) :
    ∃ walk : FirstPass, after.At ({ course with iterator := some walk } :: outer) openings := by
  rw [putIterator_eq] at ended
  obtain ⟨frame, between, asked, ended⟩ := bind_ok.mp ended
  obtain ⟨-, rfl⟩ := frame_ok.mp asked
  have begins : ∀ {machine : Machine} (key : String), machine.At (course :: outer) openings →
      iterate scene ((frame.registers.invocation.nth? 0).getD (.const .undefined)) key machine =
        .ok () after →
      ∃ walk : FirstPass, after.At ({ course with iterator := some walk } :: outer) openings := by
    intro machine key here ended
    unfold iterate at ended
    cases found : scene.host.iterable
        ((frame.registers.invocation.nth? 0).getD (.const .undefined)) key with
    | error error =>
      rw [found] at ended
      exact absurd ended throw_ok
    | ok iterable =>
      rw [found] at ended
      obtain ⟨keyed, first, made, ended⟩ := bind_ok.mp ended
      obtain ⟨_, second, registered, ended⟩ := bind_ok.mp ended
      have here := ((Quiet.modifyRegisters _).of_ok registered).here
        (((Quiet.reading _).of_ok made).here here)
      refine ⟨⟨keyed, none⟩, modifyFrame_at ended here ?_⟩
      rintro frame rfl
      rfl
  cases given : frame.registers.invocation.get? "key" with
  | none =>
    simp only [given] at ended
    exact begins _ here ended
  | some key =>
    simp only [given] at ended
    obtain ⟨value, first, read, ended⟩ := bind_ok.mp ended
    exact begins _ (((Quiet.reading _).of_ok read).here here) ended

/-- The next element of a pass leaves one element less. -/
theorem next_shortens {walk fresh : FirstPass} {helpers : Helpers} {item : Option ItemRefs}
    {store last : Store} (ended : walk.next helpers store = .ok (fresh, item) last) :
    ∃ rest, fresh.rest = some rest ∧
      (item ≠ none → ∀ pass, walk.rest = some pass → rest.length < pass.length) := by
  have goes : ∀ {store : Store} (pass : Pass), walk.record pass store = .ok (fresh, item) last →
      ∃ rest, fresh.rest = some rest ∧ (item ≠ none → rest.length < pass.length) := by
    intro store pass ended
    cases pass with
    | nil =>
      obtain ⟨result, -⟩ := pure_ok.mp ended
      cases result
      exact ⟨[], rfl, fun another => absurd rfl another⟩
    | cons element rest =>
      obtain ⟨refs, first, made, ended⟩ := bind_ok.mp ended
      obtain ⟨artifacts, second, found, ended⟩ := bind_ok.mp ended
      obtain ⟨_, third, put, ended⟩ := bind_ok.mp ended
      obtain ⟨result, -⟩ := pure_ok.mp ended
      cases result
      exact ⟨rest, rfl, fun _ => Nat.lt_succ_self _⟩
  rw [FirstPass.next_eq] at ended
  cases waiting : walk.rest with
  | none =>
    rw [waiting] at ended
    obtain ⟨pass, between, taken, ended⟩ := bind_ok.mp ended
    obtain ⟨rest, left, -⟩ := goes pass ended
    exact ⟨rest, left, fun _ _ absent => by simp at absent⟩
  | some pass =>
    rw [waiting] at ended
    obtain ⟨rest, left, shorter⟩ := goes pass ended
    refine ⟨rest, left, fun another other same => ?_⟩
    cases same
    exact shorter another

theorem nextIter_at {target : Nat} (ended : nextIter scene target machine = .ok () after)
    (here : machine.At (course :: outer) openings) :
    ∃ walk fresh : FirstPass, ∃ rest, course.iterator = some walk ∧ fresh.rest = some rest ∧
      (after.At ({ course with next := target, iterator := some fresh } :: outer) openings ∨
        after.At ({ course with iterator := some fresh } :: outer) openings ∧
          ∀ pass, walk.rest = some pass → rest.length < pass.length) := by
  obtain ⟨frame, between, asked, ended⟩ := bind_ok.mp ended
  obtain ⟨⟨frames, shape⟩, rfl⟩ := frame_ok.mp asked
  have first : frame.course = course := by
    have running := here.courses
    simp only [Machine.courses, shape, List.map_cons, List.cons.injEq] at running
    exact running.1
  cases given : frame.iterator with
  | none =>
    simp only [given] at ended
    exact absurd ended throw_ok
  | some walk =>
    simp only [given] at ended
    obtain ⟨⟨fresh, item⟩, second, taken, ended⟩ := bind_ok.mp ended
    obtain ⟨store, next, rfl⟩ := reading_ok.mp taken
    obtain ⟨rest, left, shorter⟩ := next_shortens next
    obtain ⟨_, third, kept, ended⟩ := bind_ok.mp ended
    have here : third.At ({ course with iterator := some fresh } :: outer) openings := by
      refine modifyFrame_at kept ⟨here.courses, here.openings⟩ ?_
      rintro frame rfl
      rfl
    refine ⟨walk, fresh, rest, by rw [← first]; exact given, left, ?_⟩
    cases item with
    | none => exact .inl (goto_at ended here)
    | some refs =>
      obtain ⟨_, fourth, handed, ended⟩ := bind_ok.mp ended
      have here := ((Quiet.modifyRegisters _).of_ok handed).here here
      exact .inr ⟨modifyFrame_at ended here fun _ same => same, shorter nofun⟩

/-! Blocks -/

/-- The action leaves all frames where they are, or starts a block of the program if there is room
for another frame. No region begins or ends. -/
def Starts (scene : Scene) (action : Running Unit) : Prop :=
  ∀ (machine after : Machine) (courses : List Course) (openings : List Builder),
    machine.At courses openings → action machine = .ok () after →
    after.At courses openings ∨ courses.length < scene.config.maxFrameDepth ∧
      ∃ handle block, scene.program.blocks.block handle = .ok block ∧
        after.At (block.slice.course :: courses) openings

namespace Starts

theorem of_quiet {action : Running Unit} (quiet : Quiet action) : Starts scene action :=
  fun _ _ _ _ here ended => .inl ((quiet.of_ok ended).here here)

theorem bind {α : Type} {first : Running α} {next : α → Running Unit} (head : Quiet first)
    (tail : ∀ value, Starts scene (next value)) : Starts scene (first >>= next) := by
  intro machine after courses openings here ended
  obtain ⟨value, between, one, two⟩ := bind_ok.mp ended
  exact tail value between after courses openings ((head.of_ok one).here here) two

theorem block {handle : Handle} {next : CompiledBlock → Running Unit}
    (rest : ∀ block, scene.program.blocks.block handle = .ok block → Starts scene (next block)) :
    Starts scene (Running.block scene handle >>= next) := by
  intro machine after courses openings here ended
  obtain ⟨block, between, found, ended⟩ := bind_ok.mp ended
  unfold Running.block at found
  cases known : scene.program.blocks.block handle with
  | error defect =>
    rw [known] at found
    exact absurd found throw_ok
  | ok other =>
    rw [known] at found
    obtain ⟨rfl, rfl⟩ := pure_ok.mp found
    exact rest _ known _ _ _ _ here ended

theorem call {handle : Handle} {block : CompiledBlock} {invocation : Invocation} {scope : ScopeId}
    {change : Frame → Frame} (found : scene.program.blocks.block handle = .ok block)
    (same : ∀ frame, (change frame).course = frame.course) :
    Starts scene (Running.call scene block.slice invocation scope change) := by
  refine .bind .ambient fun visible => ?_
  intro machine after courses openings here ended
  obtain ⟨seen, between, got, ended⟩ := bind_ok.mp ended
  obtain ⟨rfl, rfl⟩ := get_ok.mp got
  dsimp only at ended
  split at ended
  · obtain ⟨_, _, failed, -⟩ := bind_ok.mp ended
    exact absurd failed throw_ok
  · rename_i room
    obtain ⟨_, pushed, put, ended⟩ := bind_ok.mp ended
    refine .inr ⟨?_, handle, block, found, ((Quiet.lift _).of_ok ended).here ?_⟩
    · rw [← here.courses, Machine.courses, List.length_map]
      exact Nat.lt_of_not_ge room
    · rw [← modify_ok.mp put]
      refine ⟨?_, here.openings⟩
      rw [← here.courses]
      simp only [Machine.courses, List.map_cons, same]
      rfl

theorem evaluate (handle : Handle) : Starts scene (Running.evaluate scene handle) :=
  .block fun _ found => .bind .frame fun _ => .bind (.blockScope _ _) fun _ => .call found fun _ => rfl

theorem openBlock (params : Nat) : Starts scene (Running.openBlock scene params) := by
  refine .bind .popBlock fun handle => .bind (.popReferences _) fun positional => ?_
  split
  · exact .of_quiet (.pure _)
  · exact .block fun _ found => .bind .scope fun _ => .bind .frame fun _ =>
      .bind (.blockScope _ _) fun _ => .call found fun _ => rfl

theorem evaluatePartial : Starts scene (Running.evaluatePartial scene) := by
  refine .bind .frame fun frame => ?_
  split
  · exact .of_quiet (.throw _)
  · exact .bind (.modifyFrame fun _ => rfl) fun _ => .block fun _ found => .call found fun _ => rfl

theorem openComponent (attrs template inverse : Handle) :
    Starts scene (Running.openComponent scene attrs template inverse) := by
  refine .bind .frame fun frame => ?_
  split
  · exact .of_quiet (.throw _)
  · refine .bind (.modifyFrame fun _ => rfl) fun _ => .bind .popArguments fun _ => ?_
    refine .bind .ambient fun _ => .bind (.onPage _) fun _ => .bind (.lift _) fun _ => ?_
    refine .bind .content fun _ => .bind (.record _) fun _ => ?_
    refine .bind (.modify (fun _ => rfl) fun _ => rfl) fun _ => ?_
    refine .bind (.reading _) fun _ => .bind (.reading _) fun _ => .bind (.record _) fun _ => ?_
    refine .bind (.modifyContent _) fun _ => .bind .pushBlock fun _ => .block fun _ found => ?_
    refine .bind (.lookUp _) fun _ => .bind (.lift _) fun _ => .bind (.modifyContent _) fun _ => ?_
    exact .bind .frame fun _ => .call found fun _ => rfl

/-- An instruction that starts a block. -/
theorem step {instruction : Instruction} (starts : instruction.op = .evaluate ∨
      instruction.op = .openBlock ∨ instruction.op = .evaluatePartial ∨
      instruction.op = .openComponent) : Starts scene (Running.step scene instruction) := by
  obtain ⟨op, first, second, third⟩ := instruction
  rcases starts with rfl | rfl | rfl | rfl
  · exact .evaluate first
  · exact .openBlock first
  · exact .evaluatePartial
  · exact .openComponent first second third

end Starts

end Running

end LiveTemplate
