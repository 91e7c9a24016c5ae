import LiveTemplate.Proofs.Meaning.Enclosures

/-!
Runs held against what is told. `Stage.Leads` says that a run gets from a stage to a place of the
code, and that what it has done by then is what was told; `Stage.Acts` says so of a run which gets
to the code that a piece of the code generator writes.
-/

namespace LiveTemplate

open Effects

theorem Telling.reading_of_ok {α : Type} {reading : Reading α} {result : α}
    {before after : Store} (ended : reading before = .ok result after) :
    Telling.reading reading before = .ok result after := by
  unfold Telling.reading
  rw [ended]

theorem Telling.reading_of_error {α : Type} {reading : Reading α} {fault : Fault}
    {before after : Store} (ended : reading before = .error fault after) :
    Telling.reading reading before = .error (.fault fault) after := by
  unfold Telling.reading
  rw [ended]

/-- What is told is right, unless there is nothing to tell because a list repeats a key. -/
def Telling.Yields {α : Type} (telling : Telling α) (store : Store) (post : α → Store → Prop) :
    Prop :=
  match telling store with
  | .ok result after => post result after
  | .error (.repeated _) _ => True
  | .error (.fault _) _ => False

namespace Telling.Yields

variable {α β : Type} {store : Store} {post : α → Store → Prop} {last : β → Store → Prop}

theorem pure {result : α} (right : post result store) :
    Telling.Yields (Pure.pure result) store post := right

theorem of_ok {telling : Telling α} {result : α} {after : Store}
    (yields : telling.Yields store post) (told : telling store = .ok result after) :
    post result after := by
  unfold Telling.Yields at yields
  rwa [told] at yields

theorem told {telling : Telling α} (yields : telling.Yields store post)
    (distinct : ∀ key after, telling store ≠ .error (.repeated key) after) :
    ∃ result after, telling store = .ok result after ∧ post result after := by
  unfold Telling.Yields at yields
  cases outcome : telling store with
  | ok result after =>
    rw [outcome] at yields
    exact ⟨result, after, rfl, yields⟩
  | error mishap after =>
    rw [outcome] at yields
    cases mishap with
    | repeated key => exact absurd outcome (distinct key after)
    | fault fault => exact yields.elim

theorem bind {first : Telling α} {next : α → Telling β} (early : first.Yields store post)
    (late : ∀ result between, post result between → (next result).Yields between last) :
    Telling.Yields (first >>= next) store last := by
  unfold Telling.Yields
  change match EStateM.bind first next store with
    | .ok result after => last result after
    | .error (.repeated _) _ => True
    | .error (.fault _) _ => False
  unfold EStateM.bind
  cases told : first store with
  | ok result between => exact late result between (early.of_ok told)
  | error mishap between =>
    unfold Telling.Yields at early
    rw [told] at early
    cases mishap with
    | repeated key => trivial
    | fault fault => exact early

theorem mono {telling : Telling α} {weaker : α → Store → Prop} (yields : telling.Yields store post)
    (right : ∀ result after, post result after → weaker result after) :
    telling.Yields store weaker := by
  unfold Telling.Yields at yields ⊢
  cases told : telling store with
  | ok result after =>
    rw [told] at yields
    exact right result after yields
  | error mishap after =>
    rw [told] at yields
    cases mishap with
    | repeated key => trivial
    | fault fault => exact yields

/-- A reading is told by its result. -/
theorem reading {reading : Reading α} {result : α} {after : Store}
    (ended : reading store = .ok result after) (right : post result after) :
    (Telling.reading reading).Yields store post := by
  unfold Telling.Yields
  rwa [Telling.reading_of_ok ended]

theorem read {reading : Reading α} {result : α} {after : Store} {next : α → Telling β}
    (ended : reading store = .ok result after) (rest : (next result).Yields after last) :
    Telling.Yields (Telling.reading reading >>= next) store last := by
  unfold Telling.Yields
  rwa [bind_of_ok (Telling.reading_of_ok ended)]

end Telling.Yields

/-- Nothing that was written is lost. -/
def Writing.Adds (action : Writing Unit) : Prop :=
  ∀ before after, action before = .ok () after → before.Grows after

theorem Writing.Adds.emit (op : Op) (first second third : Nat) :
    Writing.Adds (Writing.emit op first second third) :=
  fun _ _ ended => (Writing.emit_ok ended).1

theorem Writing.Adds.seq {first next : Writing Unit} (early : first.Adds) (late : next.Adds) :
    Writing.Adds (first >>= fun _ => next) := by
  intro before after ended
  obtain ⟨_, middle, one, two⟩ := bind_ok.mp ended
  exact (early before middle one).trans (late middle after two)

theorem Writing.Adds.string {content : String} {next : Handle → Writing Unit}
    (late : ∀ handle, (next handle).Adds) : Writing.Adds (Writing.string content >>= next) := by
  intro before after ended
  obtain ⟨handle, middle, one, two⟩ := bind_ok.mp ended
  exact (Writing.string_there one).1.trans (late handle middle after two)

/-! Stages -/

/-- The frame runs the same code at the same place. -/
structure Frame.Twin (before after : Frame) : Prop where
  slice : after.slice = before.slice
  scope : after.scope = before.scope
  ambient : after.ambient = before.ambient

theorem Frame.Twin.refl (frame : Frame) : frame.Twin frame := ⟨rfl, rfl, rfl⟩

theorem Frame.Twin.trans {first second third : Frame} (early : first.Twin second)
    (late : second.Twin third) : first.Twin third :=
  ⟨late.slice.trans early.slice, late.scope.trans early.scope, late.ambient.trans early.ambient⟩

namespace Stage

variable {stage : Stage} {α β : Type} {place target : Nat} {operands given rest : List Operand}

/-- The run at a later time. -/
def on (stage : Stage) (machine : Machine) (frame : Frame) : Stage := { stage with machine, frame }

/-- What lies between the machine at a place and the one that was run to there. -/
theorem eq_machineAt {frame : Frame} {after : Machine}
    (frames : after.frames = frame.go place :: stage.outer) (left : after.operands = rest) :
    after = (stage.on after frame).machineAt place rest after.world.stats := by
  subst left
  change after = { after with frames := frame.go place :: stage.outer }
  rw [← frames]

/-- The run gets to the place with these operands, and what was done by then is what is told. -/
def Leads (stage : Stage) (telling : Telling α) (outcome : α → Machine → Frame → Prop)
    (place : Nat) (operands : List Operand) : Prop :=
  telling.Yields stage.machine.store fun result store => ∃ machine frame,
    outcome result machine frame ∧ stage.frame.Twin frame ∧ machine.store = store ∧
      (stage.on machine frame).Reaches place operands

namespace Leads

variable {telling : Telling α} {outcome weaker : α → Machine → Frame → Prop}
  {late : β → Machine → Frame → Prop}

theorem stay {result : α} (right : outcome result stage.machine stage.frame)
    (reaches : stage.Reaches place operands) : stage.Leads (pure result) outcome place operands :=
  .pure ⟨_, _, right, .refl _, rfl, reaches⟩

theorem bind {next : α → Telling β} (leads : stage.Leads telling outcome place operands)
    (rest : ∀ result machine frame, outcome result machine frame → stage.frame.Twin frame →
      (stage.on machine frame).Reaches place operands →
      (stage.on machine frame).Leads (next result) late target given) :
    stage.Leads (telling >>= next) late target given := by
  refine Telling.Yields.bind leads fun result store reached => ?_
  obtain ⟨machine, frame, right, alike, rfl, reaches⟩ := reached
  refine (rest result machine frame right alike reaches).mono fun result store reached => ?_
  obtain ⟨later, other, right, alikeToo, same, reaches⟩ := reached
  exact ⟨later, other, right, alike.trans alikeToo, same, reaches⟩

/-- The run goes on without anything that is told of. -/
theorem next (leads : stage.Leads telling outcome place operands)
    (goesOn : ∀ result machine frame, outcome result machine frame → stage.frame.Twin frame →
      (stage.on machine frame).Reaches place operands →
      ∃ later other, weaker result later other ∧ frame.Twin other ∧
        later.store = machine.store ∧ (stage.on later other).Reaches target given) :
    stage.Leads telling weaker target given := by
  refine Telling.Yields.mono leads fun result store reached => ?_
  obtain ⟨machine, frame, right, alike, rfl, reaches⟩ := reached
  obtain ⟨later, other, right, alikeToo, same, reaches⟩ :=
    goesOn result machine frame right alike reaches
  exact ⟨later, other, right, alike.trans alikeToo, same, reaches⟩

theorem mono (leads : stage.Leads telling outcome place operands)
    (right : ∀ result machine frame, stage.frame.Twin frame → outcome result machine frame →
      weaker result machine frame) : stage.Leads telling weaker place operands := by
  refine Telling.Yields.mono leads fun result store reached => ?_
  obtain ⟨machine, frame, outcome, alike, same, reaches⟩ := reached
  exact ⟨machine, frame, right _ _ _ alike outcome, alike, same, reaches⟩

/-- What is led to from a later time is led to from this one. -/
theorem of_on {machine : Machine} {frame : Frame}
    (leads : (stage.on machine frame).Leads telling outcome place operands)
    (alike : stage.frame.Twin frame) (same : machine.store = stage.machine.store) :
    stage.Leads telling outcome place operands := by
  unfold Leads at leads ⊢
  rw [← same]
  refine Telling.Yields.mono leads fun result store reached => ?_
  obtain ⟨later, other, right, alikeToo, store, reaches⟩ := reached
  exact ⟨later, other, right, alike.trans alikeToo, store, reaches⟩

end Leads

/-- One instruction is carried out. -/
theorem Reaches.step {instruction : Instruction} (reaches : stage.Reaches place operands)
    (inside : place < stage.frame.slice.stop)
    (here : stage.scene.program.program.instructions[place]? = some instruction) :
    ∃ stats after, Running.step stage.scene instruction
        (stage.machineAt (place + 1) operands stats) = .ok () after ∧
      Running.Ends stage.scene after stage.last := by
  obtain ⟨stats, ends⟩ := reaches
  exact Running.Ends.step ends inside here

/-- One instruction is carried out, after which the run gets to wherever the frame points. -/
theorem Reaches.carry {instruction : Instruction} (reaches : stage.Reaches place operands)
    (inside : place < stage.frame.slice.stop)
    (here : stage.scene.program.program.instructions[place]? = some instruction) :
    ∃ stats after, Running.step stage.scene instruction
        (stage.machineAt (place + 1) operands stats) = .ok () after ∧
      ∀ frame target rest, after.frames = frame.go target :: stage.outer → after.operands = rest →
        (stage.on after frame).Reaches target rest := by
  obtain ⟨stats, after, stepped, ends⟩ := reaches.step inside here
  refine ⟨stats, after, stepped, fun frame target rest frames left => ⟨after.world.stats, ?_⟩⟩
  rwa [← eq_machineAt frames left]

/-- The instruction keeps to the frame, and takes what it takes from the stack. -/
theorem Reaches.leads {instruction : Instruction} {telling : Telling α}
    {outcome : α → Machine → Frame → Prop} (reaches : stage.Reaches place operands)
    (inside : place < stage.frame.slice.stop)
    (here : stage.scene.program.program.instructions[place]? = some instruction)
    (steps : ∀ stats after, Running.step stage.scene instruction
        (stage.machineAt (place + 1) operands stats) = .ok () after →
      telling.Yields stage.machine.store fun result store => ∃ frame,
        outcome result after frame ∧ stage.frame.Twin frame ∧ after.store = store ∧
          after.frames = frame.go target :: stage.outer ∧ after.operands = rest) :
    stage.Leads telling outcome target rest := by
  obtain ⟨stats, after, stepped, goes⟩ := reaches.carry inside here
  refine (steps stats after stepped).mono fun result store reached => ?_
  obtain ⟨frame, right, alike, same, frames, left⟩ := reached
  exact ⟨after, frame, right, alike, same, goes frame target rest frames left⟩

/-- A run that gets to the code gets past it, and does what is told. -/
def Acts (stage : Stage) (before : Draft) (action : Writing Unit) (taken : List Operand)
    (telling : Telling α) (outcome : α → Machine → Frame → Prop) : Prop :=
  ∀ after, action before = .ok () after → after.Within stage.scene.program →
    after.program.length ≤ stage.frame.slice.stop → ∀ operands,
      stage.Reaches before.program.length (taken ++ operands) →
        stage.Leads telling outcome after.program.length operands

namespace Acts

variable {before : Draft} {taken : List Operand} {telling : Telling α}
  {outcome weaker : α → Machine → Frame → Prop} {late : β → Machine → Frame → Prop}

theorem seq {first next : Writing Unit} {rest : α → Telling β}
    (early : stage.Acts before first taken telling outcome) (adds : next.Adds)
    (acts : ∀ result machine frame middle, outcome result machine frame → stage.frame.Twin frame →
      (stage.on machine frame).Acts middle next [] (rest result) late) :
    stage.Acts before (first >>= fun _ => next) taken (telling >>= rest) late := by
  intro after ended within bound operands reaches
  obtain ⟨_, middle, one, two⟩ := bind_ok.mp ended
  have grows := adds middle after two
  have leads := early middle one (within.of_grows grows) (Nat.le_trans grows.length bound) operands
    reaches
  refine leads.bind fun result machine frame right alike reached => ?_
  refine acts result machine frame middle right alike after two within ?_ operands reached
  exact alike.slice ▸ bound

/-- What is done first is not told of. -/
theorem silent {first next : Writing Unit} {telling : Telling β}
    {outcome : Unit → Machine → Frame → Prop}
    (early : stage.Acts before first taken (pure ()) outcome) (adds : next.Adds)
    (acts : ∀ machine frame middle, outcome () machine frame → stage.frame.Twin frame →
      (stage.on machine frame).Acts middle next [] telling late) :
    stage.Acts before (first >>= fun _ => next) taken telling late :=
  seq early adds fun _ => acts

theorem turns {first next : Writing Unit} {given : List Operand}
    (early : stage.Turns before first taken given) (adds : next.Adds)
    (acts : ∀ middle, stage.Acts middle next given telling outcome) :
    stage.Acts before (first >>= fun _ => next) taken telling outcome := by
  intro after ended within bound operands reaches
  obtain ⟨_, middle, one, two⟩ := bind_ok.mp ended
  have grows := adds middle after two
  obtain ⟨-, -, turned⟩ := early middle one
  exact acts middle after two within bound operands
    (turned (within.of_grows grows) (Nat.le_trans grows.length bound) operands reaches)

theorem pooled {γ : Type} {add : Pool → γ × Pool} {next : γ → Writing Unit}
    (grows : ∀ pool : Pool, pool.Grows (add pool).2)
    (acts : ∀ value middle, before.Grows middle → add before.pool = (value, middle.pool) →
      stage.Acts middle (next value) taken telling outcome) :
    stage.Acts before (Writing.pooled add >>= next) taken telling outcome := by
  intro after ended within bound operands reaches
  obtain ⟨value, middle, one, two⟩ := bind_ok.mp ended
  obtain ⟨grown, -, program, added⟩ := Writing.pooled_there one grows
  refine acts value middle grown added after two within bound operands ?_
  rwa [program]

theorem string {content : String} {next : Handle → Writing Unit}
    (acts : ∀ handle middle, before.Grows middle → middle.pool.string handle = .ok content →
      stage.Acts middle (next handle) taken telling outcome) :
    stage.Acts before (Writing.string content >>= next) taken telling outcome := by
  refine pooled (fun pool => pool.intern_grows content) fun handle middle grown added => ?_
  have there := before.pool.intern_string content
  rw [added] at there
  exact acts handle middle grown there

theorem emit {op : Op} {first second third : Nat} (real : op ≠ .noop)
    (steps : before.Within stage.scene.program → ∀ place operands stats after,
      Running.step stage.scene ⟨op, first, second, third⟩
        (stage.machineAt place (taken ++ operands) stats) = .ok () after →
      telling.Yields stage.machine.store fun result store => ∃ frame,
        outcome result after frame ∧ stage.frame.Twin frame ∧ after.store = store ∧
          after.frames = frame.go place :: stage.outer ∧ after.operands = operands) :
    stage.Acts before (Writing.emit op first second third) taken telling outcome := by
  intro after ended within bound operands reaches
  obtain ⟨grows, -, length, -, -, here⟩ := Writing.emit_ok ended
  have there := within.program _ _ here real
  rw [length] at bound ⊢
  exact reaches.leads bound there fun stats later stepped =>
    steps (within.of_grows grows) _ _ _ _ stepped

theorem mono {action : Writing Unit} (acts : stage.Acts before action taken telling outcome)
    (right : ∀ result machine frame, outcome result machine frame → weaker result machine frame) :
    stage.Acts before action taken telling weaker :=
  fun after ended within bound operands reaches =>
    (acts after ended within bound operands reaches).mono fun _ _ _ _ => right _ _ _

/-- Of what is shown, more is told. -/
theorem map {action : Writing Unit} {change : α → β}
    (acts : stage.Acts before action taken telling outcome)
    (right : ∀ result machine frame, outcome result machine frame →
      late (change result) machine frame) :
    stage.Acts before action taken (telling >>= fun result => pure (change result)) late := by
  intro after ended within bound operands reaches
  refine Telling.Yields.bind (acts after ended within bound operands reaches) ?_
  intro result store reached
  obtain ⟨machine, frame, outcome, alike, same, reached⟩ := reached
  exact .pure ⟨machine, frame, right _ _ _ outcome, alike, same, reached⟩

end Acts

/-- What is told of the code is shown at the spot. -/
abbrev Says (stage : Stage) (before : Draft) (action : Writing Unit) (taken : List Operand)
    (spot : Spot) (telling : Telling (List Tree)) : Prop :=
  stage.Acts before action taken telling fun trees machine _ =>
    stage.machine.Shows spot trees machine

end Stage

end LiveTemplate
