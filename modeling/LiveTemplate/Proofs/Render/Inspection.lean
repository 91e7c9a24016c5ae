import LiveTemplate.Proofs.Laws
import LiveTemplate.Proofs.Reactive.Readings
import LiveTemplate.Render.Refresh

/-!
How the parts of a machine take part in what it does: a computation on the world, the page or the
store leaves the rest of the machine as it is, and asking for the frame, the scope or the element
under construction changes nothing.
-/

namespace LiveTemplate

abbrev Machine.store (machine : Machine) : Store := machine.world.page.store

theorem Scopes.get_ok {scopes : Scopes} {id : ScopeId} {scope : Scope} :
    scopes.get id = .ok scope ↔ scopes.scopes[id]? = some (some scope) := by
  unfold Scopes.get
  split
  · rename_i found there
    simp [there]
  · rename_i missing
    simp only [reduceCtorEq, false_iff]
    exact fun there => missing _ there

theorem Scopes.eq_of_get_error {scopes : Scopes} {id : ScopeId} {defect : Defect}
    (failed : scopes.get id = .error defect) : defect = .scopeReleased id := by
  unfold Scopes.get at failed
  split at failed
  · cases failed
  · cases failed
    rfl

theorem Scopes.child_ok {scopes : Scopes} {parent : ScopeId} {made : ScopeId × Scopes} :
    scopes.child parent = .ok made ↔
      ∃ scope, scopes.get parent = .ok scope ∧ scopes.add scope = made := by
  have same : scopes.child parent = (scopes.get parent).map scopes.add := by
    unfold Scopes.child
    cases scopes.get parent <;> rfl
  rw [same]
  cases scopes.get parent with
  | ok scope => simp [Except.map]
  | error defect => simp [Except.map]

/-! Lifted computations -/

namespace Render

variable {world after : World} {α : Type} {result : α} {fault : Fault}

theorem onPage_ok {action : EStateM Fault Page α} :
    (liftM action : Render α) world = .ok result after ↔
      ∃ page, action world.page = .ok result page ∧ { world with page } = after := by
  change onPage action world = _ ↔ _
  unfold onPage
  cases action world.page with
  | ok value page => simp [and_assoc]
  | error fault page => simp

theorem onPage_error {action : EStateM Fault Page α} :
    (liftM action : Render α) world = .error fault after ↔
      ∃ page, action world.page = .error fault page ∧ { world with page } = after := by
  change onPage action world = _ ↔ _
  unfold onPage
  cases action world.page with
  | ok value page => simp
  | error fault page => simp [and_assoc]

theorem reading_ok {reading : Reading α} :
    (liftM reading : Render α) world = .ok result after ↔
      ∃ store, reading world.page.store = .ok result store ∧
        { world with page.store := store } = after := by
  change onPage (Page.reading reading) world = _ ↔ _
  unfold onPage Page.reading
  cases reading world.page.store with
  | ok value store => simp [and_assoc]
  | error fault store => simp

theorem reading_error {reading : Reading α} :
    (liftM reading : Render α) world = .error fault after ↔
      ∃ store, reading world.page.store = .error fault store ∧
        { world with page.store := store } = after := by
  change onPage (Page.reading reading) world = _ ↔ _
  unfold onPage Page.reading
  cases reading world.page.store with
  | ok value store => simp
  | error fault store => simp [and_assoc]

theorem attempt_ok {action : Render α} (ended : attempt action world = .ok (.ok result) after) :
    action world = .ok result after := by
  unfold attempt at ended
  cases ran : action world with
  | ok value between =>
    rw [ran] at ended
    cases ended
    rfl
  | error fault between =>
    rw [ran] at ended
    cases fault <;> cases ended

theorem attempt_of_ok {action : Render α} (ended : action world = .ok result after) :
    attempt action world = .ok (.ok result) after := by
  unfold attempt
  rw [ended]

theorem attempt_of_broken {action : Render α} {defect : Defect}
    (failed : action world = .error (.broken defect) after) :
    attempt action world = .error (.broken defect) after := by
  unfold attempt
  rw [failed]

end Render

namespace Running

variable {machine : Machine} {α β : Type} {last : β → Machine → Prop}

theorem lift_eq (action : Render α) (machine : Machine) :
    (liftM action : Running α) machine = match action machine.world with
      | .ok value world => .ok value { machine with world }
      | .error fault world => .error fault { machine with world } :=
  rfl

theorem lift_ok {action : Render α} {result : α} {after : Machine} :
    (liftM action : Running α) machine = .ok result after ↔
      ∃ world, action machine.world = .ok result world ∧ { machine with world } = after := by
  rw [lift_eq]
  cases action machine.world with
  | ok value world => simp [and_assoc]
  | error fault world => simp

theorem lift_error {action : Render α} {fault : Fault} {after : Machine} :
    (liftM action : Running α) machine = .error fault after ↔
      ∃ world, action machine.world = .error fault world ∧ { machine with world } = after := by
  rw [lift_eq]
  cases action machine.world with
  | ok value world => simp
  | error fault world => simp [and_assoc]

theorem onPage_ok {action : EStateM Fault Page α} {result : α} {after : Machine} :
    (liftM action : Running α) machine = .ok result after ↔
      ∃ page, action machine.world.page = .ok result page ∧
        { machine with world.page := page } = after := by
  change onWorld (Render.onPage action) machine = _ ↔ _
  unfold onWorld Render.onPage
  cases action machine.world.page with
  | ok value page => simp [and_assoc]
  | error fault page => simp

theorem onPage_error {action : EStateM Fault Page α} {fault : Fault} {after : Machine} :
    (liftM action : Running α) machine = .error fault after ↔
      ∃ page, action machine.world.page = .error fault page ∧
        { machine with world.page := page } = after := by
  change onWorld (Render.onPage action) machine = _ ↔ _
  unfold onWorld Render.onPage
  cases action machine.world.page with
  | ok value page => simp
  | error fault page => simp [and_assoc]

theorem reading_ok {action : Reading α} {result : α} {after : Machine} :
    (liftM action : Running α) machine = .ok result after ↔
      ∃ store, action machine.store = .ok result store ∧
        { machine with world.page.store := store } = after := by
  change onWorld (Render.onPage (Page.reading action)) machine = _ ↔ _
  unfold onWorld Render.onPage Page.reading
  cases action machine.world.page.store with
  | ok value store => simp [and_assoc]
  | error fault store => simp

theorem reading_error {action : Reading α} {fault : Fault} {after : Machine} :
    (liftM action : Running α) machine = .error fault after ↔
      ∃ store, action machine.store = .error fault store ∧
        { machine with world.page.store := store } = after := by
  change onWorld (Render.onPage (Page.reading action)) machine = _ ↔ _
  unfold onWorld Render.onPage Page.reading
  cases action machine.world.page.store with
  | ok value store => simp
  | error fault store => simp [and_assoc]

theorem lookUp_ok {σ α : Type} {found : Except Defect α} {value : α} {before after : σ} :
    (liftM found : EStateM Fault σ α) before = .ok value after ↔
      found = .ok value ∧ before = after := by
  cases found with
  | ok other =>
    change EStateM.Result.ok other before = .ok value after ↔ _
    simp
  | error defect => exact ⟨fun ended => absurd ended Effects.throw_ok, fun ended => by cases ended.1⟩

/-- Begins to go through what the host makes of a reference. -/
def iterate (scene : Scene) (source : Reference) (key : String) : Running Unit := do
  match scene.host.iterable source key with
  | .error error => fail error
  | .ok iterable =>
    let keyed ← KeyedList.ofIterable iterable
    modifyRegisters fun registers => { registers with condition := some keyed.presence }
    modifyFrame fun frame => { frame with iterator := some ⟨keyed, none⟩ }

theorem putIterator_eq (scene : Scene) :
    putIterator scene = (do
      let invocation := (← frame).registers.invocation
      let source := (invocation.nth? 0).getD (.const .undefined)
      match invocation.get? "key" with
      | some key =>
        let value ← key.read scene.helpers
        iterate scene source value.content
      | none => iterate scene source "") := by
  unfold putIterator
  congr 1

/-! What is asked of a machine -/

theorem frame_eq (machine : Machine) :
    frame machine = match machine.frames with
      | frame :: _ => .ok frame machine
      | [] => .error (.broken .noFrame) machine := by
  unfold frame
  refine (Effects.bind_of_ok rfl).trans ?_
  cases machine.frames <;> rfl

theorem frame_ok {asked : Frame} {after : Machine} :
    frame machine = .ok asked after ↔
      (∃ outer, machine.frames = asked :: outer) ∧ machine = after := by
  rw [frame_eq]
  cases machine.frames <;> simp

theorem frame_bind {law : Law Machine} {next : Frame → Running β}
    (missing : law.ends (.broken .noFrame) machine)
    (rest : ∀ frame outer, machine.frames = frame :: outer → law.Goes machine (next frame) last) :
    law.Goes machine (frame >>= next) last := by
  have asked := frame_eq machine
  cases shape : machine.frames with
  | nil => exact .refused (asked.trans (by rw [shape])) missing
  | cons frame outer => exact .asked (asked.trans (by rw [shape])) (rest frame outer shape)

theorem constructing_eq (machine : Machine) :
    constructing machine = match machine.constructing with
      | some element => .ok element machine
      | none => .error (.broken .noElementUnderConstruction) machine := by
  unfold constructing
  refine (Effects.bind_of_ok rfl).trans ?_
  cases machine.constructing <;> rfl

theorem constructing_bind {law : Law Machine} {next : NodeId → Running β}
    (missing : law.ends (.broken .noElementUnderConstruction) machine)
    (rest : ∀ element, machine.constructing = some element → law.Goes machine (next element) last) :
    law.Goes machine (constructing >>= next) last := by
  have asked := constructing_eq machine
  cases shape : machine.constructing with
  | none => exact .refused (asked.trans (by rw [shape])) missing
  | some element => exact .asked (asked.trans (by rw [shape])) (rest element shape)

theorem scope_goes {law : Law Machine} {post : Scope → Machine → Prop}
    (missing : law.ends (.broken .noFrame) machine)
    (released : ∀ frame outer, machine.frames = frame :: outer →
      (∀ scope, machine.world.scopes.get frame.scope ≠ .ok scope) →
      law.ends (.broken (.scopeReleased frame.scope)) machine)
    (rest : ∀ frame outer scope, machine.frames = frame :: outer →
      machine.world.scopes.get frame.scope = .ok scope →
      law.holds machine ∧ post scope machine) :
    law.Goes machine Running.scope post := by
  refine .get_bind (frame_bind missing fun frame outer shape => ?_)
  cases found : machine.world.scopes.get frame.scope with
  | error defect =>
    obtain rfl := Scopes.eq_of_get_error found
    exact released frame outer shape fun scope there => by simp [found] at there
  | ok scope =>
    obtain ⟨holds, right⟩ := rest frame outer scope shape found
    exact .pure holds right

theorem modifyScope_goes {law : Law Machine} {change : Scope → Scope}
    {post : Unit → Machine → Prop}
    (missing : law.ends (.broken .noFrame) machine)
    (released : ∀ frame outer, machine.frames = frame :: outer →
      (∀ scope, machine.world.scopes.get frame.scope ≠ .ok scope) →
      law.ends (.broken (.scopeReleased frame.scope)) machine)
    (rest : ∀ frame outer scope, machine.frames = frame :: outer →
      machine.world.scopes.get frame.scope = .ok scope →
      law.Goes machine (liftM (Render.setScopes { machine.world.scopes with
        scopes := machine.world.scopes.scopes.setIfInBounds frame.scope (some (change scope)) }))
        post) :
    law.Goes machine (Running.modifyScope change) post := by
  refine .get_bind (frame_bind missing fun frame outer shape => ?_)
  have modified : machine.world.scopes.modify frame.scope change =
      (machine.world.scopes.get frame.scope).map fun scope => { machine.world.scopes with
        scopes := machine.world.scopes.scopes.setIfInBounds frame.scope (some (change scope)) } := by
    unfold Scopes.modify
    cases machine.world.scopes.get frame.scope <;> rfl
  cases found : machine.world.scopes.get frame.scope with
  | error defect =>
    obtain rfl := Scopes.eq_of_get_error found
    refine .orElse (fun defect failed => ?_) fun scopes done => ?_
    · rw [modified, found] at failed
      cases failed
      exact released frame outer shape fun scope there => by simp [found] at there
    · rw [modified, found] at done
      cases done
  | ok scope =>
    refine .orElse (fun defect failed => ?_) fun scopes done => ?_
    · rw [modified, found] at failed
      cases failed
    · rw [modified, found] at done
      cases done
      exact rest frame outer scope shape found

end Running

/-! The beginning of a run -/

/-- The machine that is to run a slice. -/
def Machine.opening (world : World) (captured : Captured) (slice : Slice) (parent : NodeId)
    (before : Option NodeId) : Machine where
  world := { world with
    extents := (world.extents.newBlock parent).2
    stats := { world.stats with framePushes := world.stats.framePushes + 1 } }
  frames := [{
    next := slice.start
    slice
    scope := captured.scope
    ambient := [captured.ambient]
    registers := captured.registers
    locals := captured.locals }]
  elements := [(parent, before)]
  trackers := [.block (world.extents.newBlock parent).1 0]

/-- A slice is run unless no frame is allowed at all. -/
theorem Render.resume_eq (scene : Scene) (captured : Captured) (slice : Slice) (parent : NodeId)
    (before : Option NodeId) (world : World) :
    Render.resume scene captured slice parent before world =
      if scene.config.maxFrameDepth = 0 then .error (.failed (.stackOverflow 0)) world
      else match Running.attempt scene (.opening world captured slice parent before) with
        | .ok output machine => .ok output machine.world
        | .error fault machine => .error fault machine.world := by
  by_cases none : scene.config.maxFrameDepth = 0
  · rw [if_pos none]
    unfold Render.resume
    rw [if_pos none]
    rfl
  · rw [if_neg none]
    unfold Render.resume
    rw [if_neg none]
    have pushed : ∀ (machine : Machine) (frame : Frame), machine.frames = [] →
        Running.pushFrame scene frame machine = .ok () { machine with
          frames := frame :: machine.frames
          world := { machine.world with
            stats := { machine.world.stats with
              framePushes := machine.world.stats.framePushes + 1 } } } := by
      intro machine frame empty
      have allowed : ¬machine.frames.length ≥ scene.config.maxFrameDepth := by
        rw [empty, List.length_nil]
        omega
      change (if machine.frames.length ≥ scene.config.maxFrameDepth then _ else _ : Running Unit)
        machine = _
      rw [if_neg allowed]
      rfl
    change (match ((Running.pushFrame scene _ >>= fun _ => Running.attempt scene : Running _)
        (_ : Machine)) with
      | .ok output machine => EStateM.Result.ok output machine.world
      | .error fault machine => .error fault machine.world) = _
    rw [Effects.bind_of_ok (pushed _ _ rfl)]
    rfl

end LiveTemplate
