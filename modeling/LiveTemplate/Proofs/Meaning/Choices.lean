import LiveTemplate.Proofs.Meaning.Calls

/-!
Conditionals. What a condition is worth decides which way a jump goes, and the output of the branch
that is taken becomes a region, filled if it is empty.
-/

namespace LiveTemplate

open Effects

/-! Conditions -/

/-- The condition tells how the host takes the value of a reference. -/
def Host.Decides (host : Host) (condition given : Reference) : Prop :=
  condition.sample host.helpers = (do
    let value ← given.sample host.helpers
    return .bool (host.holds value))

theorem Host.decides_condition (host : Host) (given : Reference) :
    host.Decides (.condition given host.holds) given := by
  funext store
  unfold Reference.sample Cache.ofReference Cache.tag
  simp [Reference.tag, Reference.read]

theorem Host.decides_const (host : Host) (value : Value) :
    host.Decides (.const (.bool (host.holds value))) (.const value) := by
  funext store
  unfold Reference.sample Cache.ofReference Cache.tag
  simp [Reference.tag, Reference.read]

/-- What a test makes of the operand. -/
def Host.condition (host : Host) (literal : Bool) (given : Reference) : Reference :=
  match literal, given with
  | true, .const value => .const (.bool (host.holds value))
  | _, given => .condition given host.holds

theorem Host.decides (host : Host) (literal : Bool) (given : Reference) :
    host.Decides (host.condition literal given) given := by
  unfold Host.condition
  split
  · exact host.decides_const _
  · exact host.decides_condition _

/-- One or the other, as the condition is true or false. -/
def Reference.choose (condition : Reference) (helpers : Helpers)
    (truthy falsy : Telling (List Tree)) : Telling (List Tree) := do
  let value ← Telling.reading (condition.sample helpers)
  if value.truthy then truthy else falsy

theorem Host.Decides.choose_eq {host : Host} {condition given : Reference}
    (decides : host.Decides condition given) (truthy falsy : Telling (List Tree)) :
    host.choose given truthy falsy = condition.choose host.helpers truthy falsy := by
  funext store
  unfold Host.choose Reference.choose
  rw [decides]
  cases told : given.sample host.helpers store with
  | ok value after =>
    have decided : (do
        let value ← given.sample host.helpers
        return Value.bool (host.holds value)) store = .ok (.bool (host.holds value)) after :=
      bind_of_ok told
    refine (bind_of_ok (Telling.reading_of_ok told)).trans (.symm ?_)
    exact bind_of_ok (Telling.reading_of_ok decided)
  | error fault after =>
    refine (bind_of_error (Telling.reading_of_error told)).trans (.symm ?_)
    exact bind_of_error (Telling.reading_of_error (bind_of_error told))

/-! Arguments and tests -/

/-- The frame, with arguments in its registers. -/
def Frame.asking (frame : Frame) (positional : List Reference)
    (named : List (String × Reference)) : Frame :=
  { frame with registers := { frame.registers with
    operand := positional[0]?, invocation := { positional, named } } }

def Frame.testing (frame : Frame) (condition : Reference) : Frame :=
  { frame with registers := { frame.registers with condition := some condition } }

theorem Running.putArguments_eq {scene : Scene} {machine : Machine} {frame : Frame}
    {outer : List Frame} {operands : List Operand} {stats : Stats} {handle : Handle}
    (positional : List Reference) {names : List String} {references : List Reference}
    {named : List (String × Reference)}
    (written : scene.program.pool.stringArray handle = .ok names)
    (many : names.length = references.length) (zipped : names.zip references = named) :
    putArguments scene positional.length handle (machine.having (frame :: outer)
        (Operand.references references ++ (Operand.references positional ++ operands)) stats) =
      .ok () (machine.having (frame.asking positional named :: outer) operands stats) := by
  refine (bind_of_ok (collectArguments_eq written positional references many)).trans ?_
  rw [zipped]
  rfl

namespace Stage

variable {stage : Stage} {place : Nat} {operands : List Operand}

/-- The instruction changes the frame, and takes what it takes from the stack. -/
theorem Reaches.change {instruction : Instruction} {frame : Frame} {rest : List Operand}
    (reaches : stage.Reaches place operands) (inside : place < stage.frame.slice.stop)
    (here : stage.scene.program.program.instructions[place]? = some instruction)
    (steps : ∀ stats, Running.step stage.scene instruction
        (stage.machineAt (place + 1) operands stats) =
      .ok () ((stage.on stage.machine frame).machineAt (place + 1) rest stats)) :
    (stage.on stage.machine frame).Reaches (place + 1) rest := by
  obtain ⟨stats, after, stepped, ends⟩ := reaches.step inside here
  cases (steps stats).symm.trans stepped
  exact ⟨stats, ends⟩

theorem Reaches.test {literal : Bool} {handle : Handle} {given : Reference}
    (reaches : stage.Reaches place operands) (inside : place < stage.frame.slice.stop)
    (here : stage.scene.program.program.instructions[place]? =
      some { op := .test, first := handle })
    (found : stage.scene.program.pool.function handle =
      .ok (if literal = true then .const else .environment))
    (operand : stage.frame.registers.operand = some given)
    (same : literal = true → ∃ value, given = .const value) :
    (stage.on stage.machine
      (stage.frame.testing (stage.scene.host.condition literal given))).Reaches
        (place + 1) operands := by
  refine reaches.change inside here fun stats => ?_
  refine (bind_of_ok (Running.lookUp_eq found _)).trans ?_
  refine (bind_of_ok rfl).trans ?_
  dsimp only [Frame.go]
  rw [operand]
  cases literal with
  | true =>
    obtain ⟨value, rfl⟩ := same rfl
    rfl
  | false => rfl

end Stage

namespace Code

open Stage

variable {stage : Stage} {place : Place} {scope : Scope} {before : Draft}

/-- The arguments are put in the registers. -/
theorem arguments_reaches (sees : stage.Sees scope) (small : stage.scene.program.pool.Small)
    (entry : place.names.OfEntry) (params : List Expression) (named : Named) {after : Draft}
    (ended : arguments place .putArgs params named before = .ok () after) :
    before.Grows after ∧ after.scopes = before.scopes ∧
      (after.Within stage.scene.program → after.program.length ≤ stage.frame.slice.stop →
        ∀ operands, stage.Reaches before.program.length operands →
          (stage.on stage.machine (stage.frame.asking
            (Expression.references (place.surroundings scope) params)
            (Expression.namedReferences (place.surroundings scope) named))).Reaches
              after.program.length operands) := by
  obtain ⟨_, first, one, ended⟩ := bind_ok.mp ended
  obtain ⟨_, second, two, ended⟩ := bind_ok.mp ended
  obtain ⟨g1, s1, turns⟩ := expressions_turns small entry sees params first one
  obtain ⟨g2, s2, turnsToo⟩ :=
    ((namedExpressions_turns small entry sees named).frame _) second two
  obtain ⟨handle, third, g3, s3, program, there, emitted⟩ := argumentList_ok ended
  obtain ⟨g4, s4, length, -, -, here⟩ := Writing.emit_ok emitted
  refine ⟨((g1.trans g2).trans g3).trans g4, s4.trans (s3.trans (s2.trans s1)),
    fun within bound operands reaches => ?_⟩
  have inner := within.of_grows (g3.trans g4)
  have shorter : second.program.length < stage.frame.slice.stop := by
    rw [← program]
    omega
  have got := turnsToo inner (Nat.le_of_lt shorter) operands
    (turns (inner.of_grows g2) (Nat.le_trans g2.length (Nat.le_of_lt shorter)) operands reaches)
  rw [List.append_assoc] at got
  rw [length, program]
  have putHere := within.program _ _ here nofun
  rw [program] at putHere
  refine got.change shorter putHere fun stats => ?_
  have names := (within.of_grows g4).pool.stringArray there
  have many : (named.map Prod.fst).length = ((Expression.namedReferences
      (place.surroundings scope) named).map Prod.snd).length := by
    rw [List.length_map, List.length_map, Expression.namedReferences_length]
  rw [← Expression.references_length (place.surroundings scope)]
  exact Running.putArguments_eq _ names many (Expression.zip_namedReferences _ _)

end Code

/-! Jumps -/

namespace Running

variable {scene : Scene} {machine after : Machine} {spot : Spot} {frame : Frame}
  {outer : List Frame}

theorem goto_ok {target : Nat} (ended : goto target machine = .ok () after)
    (running : machine.frames = frame :: outer) :
    after = { machine with frames := frame.go target :: outer } := by
  obtain ⟨here, _, asked, ended⟩ := bind_ok.mp ended
  obtain ⟨⟨_, shape⟩, rfl⟩ := frame_ok.mp asked
  cases running.symm.trans shape
  dsimp only at ended
  split at ended
  · exact absurd ended throw_ok
  · obtain ⟨other, rest, shape, rfl⟩ := modifyFrame_ok.mp ended
    cases running.symm.trans shape
    rfl

/-- A jump is taken if the condition is what is wanted. That the condition still holds may have to be
asserted later. -/
theorem jumpOn_samples {op : Op} {wanted : Bool} {target : Nat} {condition : Reference}
    (running : machine.frames = frame :: outer)
    (tested : frame.registers.condition = some condition)
    (ended : jumpOn scene op wanted target machine = .ok () after) :
    ∃ value store asserted, condition.sample scene.helpers machine.store = .ok value store ∧
      (∀ update ∈ asserted, ∃ cache, update = Update.assert cache) ∧
      after = { machine with
        world.page.store := store
        frames := (if value.truthy = wanted then frame.go target else frame) :: outer
        builders := machine.builders.modifyHead (Builder.alter (Content.recording asserted)) } := by
  obtain ⟨here, _, asked, ended⟩ := bind_ok.mp ended
  obtain ⟨⟨_, shape⟩, rfl⟩ := frame_ok.mp asked
  cases running.symm.trans shape
  rw [tested] at ended
  obtain ⟨cache, _, made, ended⟩ := bind_ok.mp ended
  obtain ⟨store, rfl⟩ := newCache_ok made
  obtain ⟨dynamic, sampled, asked, ended⟩ := bind_ok.mp ended
  have told := sample_ok made asked rfl
  obtain ⟨later, rfl⟩ := isDynamic_ok asked
  have jumps : ∀ {between : Machine},
      (if cache.last.truthy = wanted then goto target else pure () : Running Unit) between =
        .ok () after →
      between.frames = frame :: outer → after = { between with
        frames := (if cache.last.truthy = wanted then frame.go target else frame) :: outer } := by
    intro between ended same
    split at ended
    · rw [if_pos ‹_›]
      exact goto_ok ended same
    · obtain ⟨-, rfl⟩ := pure_ok.mp ended
      rw [if_neg ‹_›, ← same]
  cases dynamic with
  | true =>
    obtain ⟨_, recorded, noted, ended⟩ := bind_ok.mp ended
    obtain rfl := record_ok noted
    exact ⟨cache.last, later, [.assert cache], told, by simp, jumps ended running⟩
  | false =>
    refine ⟨cache.last, later, [], told, by simp, ?_⟩
    rw [alter_nothing]
    exact jumps ended running

theorem jumpOn_ok {op : Op} {wanted : Bool} {target : Nat} {condition : Reference}
    (offers : machine.Offers spot) (running : machine.frames = frame :: outer)
    (tested : frame.registers.condition = some condition)
    (ended : jumpOn scene op wanted target machine = .ok () after) :
    ∃ value, condition.sample scene.helpers machine.store = .ok value after.store ∧
      machine.Shows spot [] after ∧ after.operands = machine.operands ∧
      after.frames = (if value.truthy = wanted then frame.go target else frame) :: outer := by
  obtain ⟨value, store, asserted, told, -, rfl⟩ := jumpOn_samples running tested ended
  exact ⟨value, told, .nothing offers ⟨rfl, rfl, rfl, rfl⟩ rfl rfl (bare_alter_head _ _), rfl, rfl⟩

end Running

namespace Stage

variable {stage : Stage} {place target : Nat} {operands : List Operand}

theorem Reaches.jump (reaches : stage.Reaches place operands)
    (inside : place < stage.frame.slice.stop)
    (here : stage.scene.program.program.instructions[place]? =
      some { op := .jump, first := target }) :
    stage.Reaches target operands := by
  obtain ⟨stats, after, stepped, ends⟩ := reaches.step inside here
  have stepped : Running.goto target (stage.machineAt (place + 1) operands stats) =
    .ok () after := stepped
  cases Running.goto_ok stepped rfl
  exact ⟨stats, ends⟩

variable {spot : Spot} {telling truthy falsy : Telling (List Tree)}

/-- What comes after a jump depends on the condition. -/
theorem Reaches.choose {op : Op} {wanted : Bool} {leave : Nat} {condition : Reference}
    (reaches : stage.Reaches place operands) (inside : place < stage.frame.slice.stop)
    (here : stage.scene.program.program.instructions[place]? = some { op, first := target })
    (steps : Running.step stage.scene { op, first := target } =
      Running.jumpOn stage.scene op wanted target)
    (offers : stage.machine.Offers spot)
    (tested : stage.frame.registers.condition = some condition)
    (leads : ∀ holds machine, stage.machine.Shows spot [] machine →
      (stage.on machine stage.frame).Reaches (if holds = wanted then target else place + 1)
        operands →
      (stage.on machine stage.frame).Leads (if holds then truthy else falsy)
        (fun trees later _ => machine.Shows spot trees later) leave operands) :
    stage.Leads (condition.choose stage.scene.helpers truthy falsy)
      (fun trees machine _ => stage.machine.Shows spot trees machine) leave operands := by
  obtain ⟨stats, after, stepped, goes⟩ := reaches.carry inside here
  rw [steps] at stepped
  have tested : (stage.frame.go (place + 1)).registers.condition = some condition := tested
  obtain ⟨value, told, shows, left, frames⟩ :=
    Running.jumpOn_ok (offers.having _ _ _) rfl tested stepped
  have shows := shows.of_having
  have goesOn : after.frames =
      stage.frame.go (if value.truthy = wanted then target else place + 1) :: stage.outer := by
    rw [frames]
    split <;> rfl
  have reached := goes stage.frame _ _ goesOn left
  refine Telling.Yields.read told ?_
  refine Telling.Yields.mono (leads value.truthy after shows reached) fun trees store reached => ?_
  obtain ⟨machine, frame, shown, alike, same, reached⟩ := reached
  exact ⟨machine, frame, shows.trans offers shown, alike, same, reached⟩

/-- Where the block is called, it says what is told, and where there is none nothing is. -/
def Evaluates (stage : Stage) (spot : Spot) (block : Option Handle)
    (telling : Telling (List Tree)) : Prop :=
  match block with
  | none => telling = pure []
  | some handle => ∀ place operands, place < stage.frame.slice.stop →
      stage.scene.program.program.instructions[place]? =
        some { op := .evaluate, first := handle } →
      stage.Reaches place operands →
      stage.Leads telling
        (fun trees machine frame => stage.machine.Shows spot trees machine ∧ frame = stage.frame)
        (place + 1) operands

theorem Evaluates.branch {block : Option Handle} {leave : Nat}
    (evaluates : stage.Evaluates spot block telling) (offers : stage.machine.Offers spot)
    (branch : stage.scene.program.program.Branch block place leave)
    (inside : leave < stage.frame.slice.stop) (reaches : stage.Reaches place operands) :
    stage.Leads telling
      (fun trees machine frame => stage.machine.Shows spot trees machine ∧ frame = stage.frame)
      leave operands := by
  cases block with
  | none =>
    obtain rfl : place = leave := branch
    obtain rfl : telling = pure [] := evaluates
    exact Leads.stay ⟨.nothing offers ⟨rfl, rfl, rfl, rfl⟩ rfl rfl rfl, rfl⟩ reaches
  | some handle =>
    obtain ⟨bound, here, goesOn⟩ := branch
    have leads := evaluates place operands (by omega) here reaches
    rcases goesOn with rfl | jump
    · exact leads
    · refine leads.next fun trees machine frame shown alike reached => ?_
      obtain ⟨shown, rfl⟩ := shown
      have below : place + 1 < stage.frame.slice.stop := by omega
      exact ⟨machine, _, ⟨shown, rfl⟩, .refl _, rfl, Reaches.jump reached below jump⟩

/-- Inside of the spot, the block says what is told if it is given these references. -/
def Tells (stage : Stage) (scope : Scope) (spot : Spot) (block : Option Handle)
    (given : List Reference) (telling : Telling (List Tree)) : Prop :=
  ∀ machine frame extent, (stage.on machine frame).Sees scope →
    machine.Offers (spot.within extent) → frame.slice = stage.frame.slice →
    frame.registers.invocation.positional = given →
    (stage.on machine frame).Evaluates (spot.within extent) block telling

theorem Tells.on {scope : Scope} {block : Option Handle} {given : List Reference}
    (tells : stage.Tells scope spot block given telling) (machine : Machine) {frame : Frame}
    (alike : stage.frame.Twin frame) (extent : Nat) :
    (stage.on machine frame).Tells scope (spot.within extent) block given telling :=
  fun later other extent sees offers slice => tells later other extent sees offers
    (slice.trans alike.slice)

/-- What is shown in a region is shown where the region is, or else a comment is. -/
theorem Reaches.region {start leave : Nat} (reaches : stage.Reaches start operands)
    (region : stage.scene.program.program.Region start leave) (ordered : start < leave)
    (inside : leave < stage.frame.slice.stop) (offers : stage.machine.Offers spot)
    (leads : ∀ machine extent, stage.machine.world.scopes.Keeps machine.world.scopes →
      machine.Offers (spot.within extent) →
      (stage.on machine stage.frame).Reaches (start + 1) operands →
      (stage.on machine stage.frame).Leads telling
        (fun trees later _ => machine.Shows (spot.within extent) trees later) leave operands) :
    stage.Leads telling.filled (fun trees machine _ => stage.machine.Shows spot trees machine)
      (leave + 1) operands := by
  obtain ⟨⟨handle, enter⟩, exit⟩ := region
  obtain ⟨stats, entered, stepped, goes⟩ := reaches.carry (by omega) enter
  obtain ⟨slice, _, looked, stepped⟩ := bind_ok.mp stepped
  obtain ⟨-, rfl⟩ := Running.lookUp_ok.mp looked
  obtain ⟨captured, extent, encloses, stays, builders, store⟩ :=
    Running.enter_ok (offers.having _ _ _).under stepped
  have encloses := encloses.of_having
  have begun := goes stage.frame _ _ stays.frames stays.operands
  have shows := leads entered extent encloses.scopes (encloses.offers offers.under) begun
  refine Leads.of_on (Leads.bind shows fun trees machine frame shown alike reached => ?_) (.refl _)
    store
  have bound : leave < frame.slice.stop := by
    rw [alike.slice]
    exact inside
  have opened : machine.openings =
      .region slice captured extent none {} :: stage.machine.builders :=
    shown.openings.trans (congrArg (List.modifyHead Builder.bare) builders)
  obtain ⟨stats, after, stepped, goes⟩ := Reaches.carry reached bound exit
  have enclosed : stage.machine.Encloses spot extent trees
      (machine.having (frame.go (leave + 1) :: stage.outer) operands stats) :=
    (encloses.shows offers.under shown).having
  obtain ⟨result, stays, store⟩ := Running.exit_ok offers enclosed opened stepped
  exact Leads.of_on (Leads.stay result (goes frame _ _ stays.frames stays.operands)) (.refl _) store

/-- The block is shown that the condition selects. -/
theorem Reaches.choice {leave : Nat} {condition : Reference} {yes no : Option Handle}
    (reaches : stage.Reaches place operands)
    (choice : stage.scene.program.program.Choice yes no place leave)
    (inside : leave < stage.frame.slice.stop) (offers : stage.machine.Offers spot)
    (tested : stage.frame.registers.condition = some condition)
    (evaluates : ∀ machine, stage.machine.Shows spot [] machine →
      (stage.on machine stage.frame).Evaluates spot yes truthy ∧
      (stage.on machine stage.frame).Evaluates spot no falsy) :
    stage.Leads
      (if yes.isNone && no.isNone then pure [] else
        condition.choose stage.scene.helpers truthy falsy)
      (fun trees machine _ => stage.machine.Shows spot trees machine) leave operands := by
  rcases choice with ⟨none, rfl⟩ | ⟨some, ordered, other, choice⟩
  · rw [none]
    exact Leads.stay (.nothing offers ⟨rfl, rfl, rfl, rfl⟩ rfl rfl rfl) reaches
  rw [some]
  rcases choice with ⟨jump, onTrue, onFalse⟩ | ⟨jump, onFalse, onTrue⟩
  · refine reaches.choose (by omega) jump rfl offers tested fun holds machine shown reached => ?_
    obtain ⟨yields, fails⟩ := evaluates machine shown
    have offered := shown.offers offers
    cases holds with
    | true =>
      exact (yields.branch offered onTrue inside reached).mono fun _ _ _ _ shown => shown.1
    | false =>
      exact (fails.branch offered onFalse inside reached).mono fun _ _ _ _ shown => shown.1
  · refine reaches.choose (by omega) jump rfl offers tested fun holds machine shown reached => ?_
    obtain ⟨yields, fails⟩ := evaluates machine shown
    have offered := shown.offers offers
    cases holds with
    | true =>
      exact (yields.branch offered onTrue inside reached).mono fun _ _ _ _ shown => shown.1
    | false =>
      exact (fails.branch offered onFalse inside reached).mono fun _ _ _ _ shown => shown.1

end Stage

namespace Code

open Stage

variable {stage : Stage} {place : Place} {scope : Scope} {before : Draft} {spot : Spot}
  {truthy falsy : Telling (List Tree)}

theorem conditional_spoken (small : stage.scene.program.pool.Small) (entry : place.names.OfEntry)
    (sees : stage.Sees scope) (offers : stage.machine.Offers spot) {name : String}
    {param : Expression} {named : Named} {yes no : Option Handle}
    (yields : stage.Tells scope spot yes [param.reference (place.surroundings scope)] truthy)
    (fails : stage.Tells scope spot no [param.reference (place.surroundings scope)] falsy) :
    stage.Says before (conditional place name [param] named yes no) [] spot
      (Telling.filled <| if yes.isNone && no.isNone then pure [] else
        stage.scene.host.choose (param.reference (place.surroundings scope)) truthy falsy) := by
  intro after ended within bound operands reaches
  obtain ⟨other, handle, asked, pooled, tested, leave, only, given, grown, still, found, test, grows,
    length, region, choice⟩ := conditional_ok ended
  obtain rfl : param = other := List.head_eq_of_cons_eq only
  obtain ⟨-, -, goes⟩ := arguments_reaches sees small entry [param] named given
  obtain ⟨growsToo, -, next, -, -, here⟩ := Writing.emit_ok test
  have inner := within.of_grows (growsToo.trans grows)
  have ordered := choice.le
  have literal : param.isLiteral = true →
      ∃ value, param.reference (place.surroundings scope) = .const value := by
    intro literal
    cases param <;> first | exact ⟨_, rfl⟩ | cases literal
  have reached := goes (inner.of_grows grown) (by omega) operands reaches
  rw [← still] at reached
  have testHere := (within.of_grows grows).program _ _ here nofun
  have shorter : pooled.program.length < stage.frame.slice.stop := by omega
  have decided := Reaches.test reached shorter testHere (inner.pool.function found) rfl literal
  rw [← next] at decided
  obtain ⟨frame, alike, condition, positional, decided⟩ : ∃ frame, stage.frame.Twin frame ∧
      frame.registers.condition = some (stage.scene.host.condition param.isLiteral
        (param.reference (place.surroundings scope))) ∧
      frame.registers.invocation.positional = [param.reference (place.surroundings scope)] ∧
      (stage.on stage.machine frame).Reaches tested.program.length operands := by
    refine ⟨_, ?_, ?_, ?_, decided⟩
    · exact ⟨rfl, rfl, rfl⟩
    · rfl
    · rfl
  rw [length, (stage.scene.host.decides param.isLiteral _).choose_eq]
  have inside : leave < frame.slice.stop := by
    rw [alike.slice]
    omega
  refine Leads.of_on ?_ alike rfl
  refine decided.region (region.keep within.program) (by omega) inside offers ?_
  intro machine extent keeps offered entered
  refine Reaches.choice entered (choice.keep within.program) inside offered condition ?_
  intro later shown
  have seen := sees.on (keeps.trans shown.world.scopes) alike
  have offeredToo := shown.offers offered
  exact ⟨yields later frame extent seen offeredToo alike.slice positional,
    fails later frame extent seen offeredToo alike.slice positional⟩

end Code

end LiveTemplate
