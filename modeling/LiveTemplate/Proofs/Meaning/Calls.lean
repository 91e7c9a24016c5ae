import LiveTemplate.Proofs.Meaning.Regions

/-!
Blocks that are shown. The code of a block runs in a frame of its own, in which the parameters of the
block are bound, and comes back when it has reached its end.
-/

namespace LiveTemplate

open Effects

/-- The code of a nested block stands in the program. -/
structure CompiledProgram.Inlines (compiled : CompiledProgram) (resolver : Resolver)
    (handle : Handle) (names : SymbolView) (code : List Resolved) : Prop where
  written : ∃ block before after, compiled.blocks.block handle = .ok block ∧
    block.params = names.params ∧
    Writing.codeOf (Code.inline ⟨resolver, names⟩ code) before =
      .ok (block.slice, block.locals) after ∧
    after.Within compiled
  adds : ∀ statement ∈ code, (Code.statement ⟨resolver, names⟩ statement).Adds

theorem Writing.codeOf_there {body : Writing Unit} {before after : Draft} {slice : Slice}
    {locals : Nat} (ended : codeOf body before = .ok (slice, locals) after) :
    ∃ inside finished, inside.program.length = slice.start + 1 ∧
      body inside = .ok () finished ∧ finished.Grows after ∧
      slice.stop = finished.program.length + 1 ∧
      after.program.instructions[slice.start]? = some { op := .reserveLocals, first := locals } ∧
      after.program.instructions[finished.program.length]? = some { op := .releaseLocals } := by
  obtain ⟨_, d0, cleared, ended⟩ := bind_ok.mp ended
  have cleared := modify_ok.mp cleared
  obtain ⟨start, d1, pushed, ended⟩ := bind_ok.mp ended
  obtain ⟨rfl, rfl⟩ := push_ok.mp pushed
  obtain ⟨_, finished, inside, ended⟩ := bind_ok.mp ended
  obtain ⟨_, _, got, ended⟩ := bind_ok.mp ended
  obtain ⟨rfl, rfl⟩ := get_ok.mp got
  dsimp only at ended
  split at ended
  · obtain ⟨_, d3, patched, ended⟩ := bind_ok.mp ended
    obtain ⟨g3, -, -, n3, reserve⟩ := patch_ok patched
    obtain ⟨_, d4, released, ended⟩ := bind_ok.mp ended
    obtain ⟨g4, -, n4, -, -, release⟩ := emit_ok released
    obtain ⟨stop, _, asked, ended⟩ := bind_ok.mp ended
    cases asked
    cases ended
    rw [n3] at release
    exact ⟨_, finished, Program.length_push _ _, inside, g3.trans g4,
      n4.trans (congrArg (· + 1) n3), g4.program _ _ reserve nofun, release⟩
  · exact absurd ended throw_ok

/-! Starting a block -/

namespace Running

variable {scene : Scene} {machine after : Machine} {spot : Spot} {scope : Scope}

/-- A block without parameters runs in the scope it was written in, and another one in a copy. -/
theorem blockScope_ok {block : CompiledBlock} {parent child : ScopeId}
    (offers : machine.Offers spot) (there : machine.world.scopes.get parent = .ok scope)
    (ended : blockScope block parent machine = .ok child after) :
    machine.Shows spot [] after ∧ machine.Stays after ∧ after.store = machine.store ∧
      after.world.scopes.get child = .ok scope ∧
      (block.params.isEmpty = false →
        machine.world.scopes.Added child scope after.world.scopes) := by
  unfold blockScope at ended
  split at ended
  · rename_i empty
    obtain ⟨rfl, rfl⟩ := pure_ok.mp ended
    refine ⟨.nothing offers ⟨rfl, rfl, rfl, rfl⟩ rfl rfl rfl, .refl _, rfl, there, ?_⟩
    rw [empty]
    exact nofun
  · obtain ⟨_, _, got, ended⟩ := bind_ok.mp ended
    obtain ⟨rfl, rfl⟩ := get_ok.mp got
    obtain ⟨made, _, looked, ended⟩ := bind_ok.mp ended
    obtain ⟨found, rfl⟩ := lookUp_ok.mp looked
    obtain ⟨own, asked, rfl⟩ := Scopes.child_ok.mp found
    cases there.symm.trans asked
    have added := Scopes.add_ok offers.takes.scopes scope
    obtain ⟨_, _, set, ended⟩ := bind_ok.mp ended
    cases set
    obtain ⟨_, _, owned, ended⟩ := bind_ok.mp ended
    obtain ⟨builders, rfl, same⟩ := modifyContent_openings owned
    obtain ⟨rfl, rfl⟩ := pure_ok.mp ended
    refine ⟨⟨⟨.refl offers.takes.inside, ?_, added.keeps, rfl⟩, rfl, rfl, same⟩, ⟨rfl, rfl⟩, rfl,
      added.there, fun _ => added⟩
    exact (Extents.Fills.refl offers.takes.block).congr (by simp)

theorem pushFrame_ok {frame : Frame} (ended : pushFrame scene frame machine = .ok () after) :
    ∃ stats, after = machine.having (frame :: machine.frames) machine.operands stats := by
  obtain ⟨_, _, got, ended⟩ := bind_ok.mp ended
  obtain ⟨rfl, rfl⟩ := get_ok.mp got
  dsimp only at ended
  split at ended
  · exact absurd ended throw_ok
  · cases ended
    exact ⟨_, rfl⟩

/-- The frame in which a block starts. -/
def blockFrame (slice : Slice) (scope : ScopeId) (invocation : Invocation) : Frame where
  next := slice.start
  slice := slice
  scope := scope
  ambient := [[]]
  registers := { invocation }

theorem evaluate_ok {handle : Handle} {block : CompiledBlock} {frame : Frame} {outer : List Frame}
    {around : List Variables} (ended : evaluate scene handle machine = .ok () after)
    (offers : machine.Offers spot) (found : scene.program.blocks.block handle = .ok block)
    (running : machine.frames = frame :: outer)
    (there : machine.world.scopes.get frame.scope = .ok scope)
    (visible : frame.ambient = [] :: around) :
    ∃ child, machine.Shows spot [] after ∧ after.operands = machine.operands ∧
      after.store = machine.store ∧
      after.frames = blockFrame block.slice child frame.registers.invocation :: frame :: outer ∧
      after.world.scopes.get child = .ok scope ∧
      (block.params.isEmpty = false →
        machine.world.scopes.Added child scope after.world.scopes) := by
  obtain ⟨block, _, asked, ended⟩ := bind_ok.mp ended
  cases (lookUp_eq found machine).symm.trans asked
  obtain ⟨here, _, asked, ended⟩ := bind_ok.mp ended
  obtain ⟨⟨_, shape⟩, rfl⟩ := frame_ok.mp asked
  cases running.symm.trans shape
  obtain ⟨child, placed, opened, ended⟩ := bind_ok.mp ended
  obtain ⟨shows, stays, store, got, added⟩ := blockScope_ok offers there opened
  obtain ⟨seen, _, asked, ended⟩ := bind_ok.mp ended
  have seenHere : ambient placed = .ok [] placed := by
    refine (bind_of_ok (frame_ok.mpr ⟨⟨outer, stays.frames.trans running⟩, rfl⟩)).trans ?_
    rw [visible]
    rfl
  cases seenHere.symm.trans asked
  obtain ⟨stats, rfl⟩ := pushFrame_ok ended
  refine ⟨child, shows.having, stays.operands, store, ?_, got, added⟩
  change _ :: placed.frames = _
  rw [stays.frames, running]
  rfl

/-! Binding parameters -/

theorem modifyScope_ok {change : Scope → Scope} {frame : Frame} {outer : List Frame}
    (running : machine.frames = frame :: outer)
    (there : machine.world.scopes.get frame.scope = .ok scope)
    (ended : modifyScope change machine = .ok () after) :
    after = { machine with world := { machine.world with
      scopes := { machine.world.scopes with
        scopes := machine.world.scopes.scopes.setIfInBounds frame.scope (some (change scope)) } } } := by
  obtain ⟨_, _, got, ended⟩ := bind_ok.mp ended
  obtain ⟨rfl, rfl⟩ := get_ok.mp got
  obtain ⟨here, _, asked, ended⟩ := bind_ok.mp ended
  obtain ⟨⟨_, shape⟩, rfl⟩ := frame_ok.mp asked
  cases running.symm.trans shape
  obtain ⟨scopes, _, looked, ended⟩ := bind_ok.mp ended
  obtain ⟨found, rfl⟩ := lookUp_ok.mp looked
  unfold Scopes.modify at found
  rw [there] at found
  cases found
  cases ended
  rfl

/-- The parameters are bound in a scope that nobody else has. -/
theorem bindPositional_ok {frame : Frame} {outer : List Frame} {first : Scopes} :
    ∀ (symbols : List Symbol) (given : List Reference) (scope : Scope) {machine after : Machine},
      bindPositional symbols given machine = .ok () after →
      machine.frames = frame :: outer →
      first.Added frame.scope scope machine.world.scopes →
      ∃ scopes, after = { machine with world := { machine.world with scopes } } ∧
        first.Added frame.scope (scope.bindAll symbols given) scopes
  | [], _, _, machine, _, ended, _, added => by
    obtain ⟨-, rfl⟩ := pure_ok.mp ended
    exact ⟨_, rfl, added⟩
  | symbol :: symbols, given, scope, machine, after, ended, running, added => by
    obtain ⟨_, bound, put, ended⟩ := bind_ok.mp ended
    have same := modifyScope_ok running added.there put
    subst same
    have grown := added.change fun scope =>
      scope.bind symbol (.reference (given.headD (.const .undefined)))
    obtain ⟨scopes, rfl, result⟩ := bindPositional_ok symbols given.tail _ ended running grown
    exact ⟨scopes, rfl, result⟩

end Running

namespace Code

open Stage

variable {stage : Stage} {names : SymbolView} {scope : Scope} {before : Draft} {spot : Spot}
  {base : Machine} {given : List Reference}

theorem bindParams_acts (shows : base.Shows spot [] stage.machine)
    (there : stage.machine.world.scopes.get stage.frame.scope = .ok scope)
    (positional : stage.frame.registers.invocation.positional = given)
    (added : names.params.isEmpty = false →
      base.world.scopes.Added stage.frame.scope scope stage.machine.world.scopes) :
    stage.Acts before (bindParams names) [] (pure ()) fun _ machine _ =>
      base.Shows spot [] machine ∧
        machine.world.scopes.get stage.frame.scope = .ok (scope.bindAll names.params given) := by
  unfold bindParams
  split
  · rename_i empty
    have none : names.params = [] := List.isEmpty_iff.mp empty
    rw [none]
    intro after ended _ _ operands reaches
    obtain ⟨-, rfl⟩ := pure_ok.mp ended
    exact Leads.stay ⟨shows, there⟩ reaches
  · rename_i some
    refine Acts.pooled (fun pool => pool.addArray_grows _) fun handle middle _ stored => ?_
    refine Acts.emit (by decide) fun within place operands stats after stepped => ?_
    have found := before.pool.addArray_array names.params
    rw [stored] at found
    obtain ⟨frame, _, asked, stepped⟩ := bind_ok.mp stepped
    cases asked
    obtain ⟨symbols, _, asked, stepped⟩ := bind_ok.mp stepped
    cases (Running.lookUp_eq (within.pool.array found) _).symm.trans asked
    have own := added (by simpa using some)
    obtain ⟨scopes, rfl, bound⟩ := Running.bindPositional_ok names.params _ scope stepped rfl own
    refine .pure ⟨stage.frame, ⟨⟨⟨shows.world.dom, shows.world.extents, bound.keeps,
      shows.world.transaction⟩, shows.elements, shows.trackers, shows.openings⟩, ?_⟩, .refl _, rfl,
      rfl, rfl⟩
    rw [← positional]
    exact bound.there

end Code

namespace Stage

variable {stage : Stage} {place : Nat} {operands : List Operand}

/-- The instruction changes the frame only. -/
theorem Reaches.modify {instruction : Instruction} {change : Frame → Frame}
    (reaches : stage.Reaches place operands) (inside : place < stage.frame.slice.stop)
    (here : stage.scene.program.program.instructions[place]? = some instruction)
    (steps : Running.step stage.scene instruction = Running.modifyFrame change)
    (goes : change (stage.frame.go (place + 1)) = (change stage.frame).go (place + 1)) :
    (stage.on stage.machine (change stage.frame)).Reaches (place + 1) operands := by
  obtain ⟨stats, after, stepped, ends⟩ := reaches.step inside here
  rw [steps] at stepped
  obtain ⟨frame, outer, running, rfl⟩ := Running.modifyFrame_ok.mp stepped
  cases running
  rw [goes] at ends
  exact ⟨stats, ends⟩

/-- A frame at its end is left. -/
theorem Reaches.leave {frame : Frame} {outer : List Frame} {back : Nat}
    (reaches : stage.Reaches place operands) (past : stage.frame.slice.stop ≤ place)
    (around : stage.outer = frame.go back :: outer) :
    (Stage.mk stage.scene stage.machine frame outer stage.last).Reaches back operands := by
  obtain ⟨stats, ends⟩ := reaches
  obtain ⟨stats, ends⟩ := Running.Ends.pop ends past
  rw [around] at ends
  exact ⟨stats, ends⟩

end Stage

namespace Code

open Stage

section Calls

variable {resolver : Resolver} {inner : SymbolView} {code : List Resolved} {handle : Handle}
  {telling : Telling (List Tree)} {base : Machine} {spot : Spot} {scope : Scope}
  {given : List Reference} {operands : List Operand}

theorem inline_adds
    (adds : ∀ statement ∈ code, (Code.statement ⟨resolver, inner⟩ statement).Adds) :
    (inline ⟨resolver, inner⟩ code).Adds := by
  refine .seq ?_ (statements_adds adds)
  intro before after ended
  unfold bindParams at ended
  split at ended
  · obtain ⟨-, rfl⟩ := pure_ok.mp ended
    exact .refl _
  · obtain ⟨handle, middle, stored, emitted⟩ := bind_ok.mp ended
    exact (Writing.pooled_there stored fun pool => pool.addArray_grows _).1.trans
      (Writing.emit_ok emitted).1

/-- The code of a block, from its start to its end. -/
theorem inline_leads {stage : Stage} {before after : Draft} {locals : Nat}
    (written : Writing.codeOf (inline ⟨resolver, inner⟩ code) before =
      .ok (stage.frame.slice, locals) after) (within : after.Within stage.scene.program)
    (adds : ∀ statement ∈ code, (Code.statement ⟨resolver, inner⟩ statement).Adds)
    (offers : base.Offers spot) (shows : base.Shows spot [] stage.machine)
    (there : stage.machine.world.scopes.get stage.frame.scope = .ok scope)
    (ambient : stage.frame.ambient = [[]])
    (positional : stage.frame.registers.invocation.positional = given)
    (added : inner.params.isEmpty = false →
      base.world.scopes.Added stage.frame.scope scope stage.machine.world.scopes)
    (spoken : ∀ machine frame before,
      (stage.on machine frame).Sees (scope.bindAll inner.params given) → machine.Offers spot →
        (stage.on machine frame).Says before (statements ⟨resolver, inner⟩ code) [] spot telling)
    (reaches : stage.Reaches stage.frame.slice.start operands) :
    stage.Leads telling (fun trees machine _ => base.Shows spot trees machine)
      stage.frame.slice.stop operands := by
  obtain ⟨first, finished, length, ran, grows, stop, reserve, release⟩ :=
    Writing.codeOf_there written
  have reserveHere := within.program _ _ reserve nofun
  have releaseHere := within.program _ _ release nofun
  have length' := (inline_adds adds first finished ran).length
  have started : stage.frame.slice.start < stage.frame.slice.stop := by omega
  have begun := reaches.modify started reserveHere rfl rfl
  rw [← length] at begun
  have acts : Stage.Acts (stage.on stage.machine { stage.frame with
      locals := List.replicate locals none }) first (inline ⟨resolver, inner⟩ code) [] telling
      fun trees machine _ => base.Shows spot trees machine := by
    refine Acts.silent (bindParams_acts shows there positional added) (statements_adds adds) ?_
    intro machine frame middle bound alike
    obtain ⟨shown, bound⟩ := bound
    refine Acts.mono (spoken machine frame middle ⟨?_, ?_⟩ (shown.offers offers)) ?_
    · change machine.world.scopes.get frame.scope = _
      rw [alike.scope]
      exact bound
    · exact ⟨[], alike.ambient.trans ambient⟩
    · exact fun trees later _ more => shown.trans offers more
  have bound : finished.program.length ≤ stage.frame.slice.stop := by omega
  have leads := acts finished ran (within.of_grows grows) bound operands begun
  refine Telling.Yields.mono leads fun trees store reached => ?_
  obtain ⟨machine, frame, shown, alike, same, reached⟩ := reached
  have slice : frame.slice = stage.frame.slice := alike.slice
  have below : finished.program.length < frame.slice.stop := by
    rw [slice]
    omega
  have last := Reaches.modify reached below releaseHere rfl rfl
  rw [stop]
  exact ⟨machine, { frame with locals := [] }, shown, ⟨alike.slice, alike.scope, alike.ambient⟩,
    same, last⟩

/-- Inside of a block, names stand for what its parameters are given or for what they stand for
around it. -/
theorem surroundings_bind {names : SymbolView} {params : List String}
    (nests : inner.Nests names params) :
    Place.surroundings ⟨resolver, inner⟩ (scope.bindAll inner.params given) =
      (Place.surroundings ⟨resolver, names⟩ scope).bind params given := by
  unfold Place.surroundings Surroundings.bind
  rw [nests.bindings, scope.this_bindAll]

/-- A block is called, and comes back. -/
theorem evaluate_leads {stage : Stage} {place : Nat}
    (inlines : stage.scene.program.Inlines resolver handle inner code)
    (sees : stage.Sees scope) (offers : stage.machine.Offers spot)
    (positional : stage.frame.registers.invocation.positional = given)
    (spoken : ∀ (machine : Machine) (frame : Frame) (outer : List Frame) (before : Draft),
      (Stage.mk stage.scene machine frame outer stage.last).Sees
        (scope.bindAll inner.params given) → machine.Offers spot →
      (Stage.mk stage.scene machine frame outer stage.last).Says before
        (statements ⟨resolver, inner⟩ code) [] spot telling)
    (inside : place < stage.frame.slice.stop)
    (here : stage.scene.program.program.instructions[place]? =
      some { op := .evaluate, first := handle })
    (reaches : stage.Reaches place operands) :
    stage.Leads telling
      (fun trees machine frame => stage.machine.Shows spot trees machine ∧ frame = stage.frame)
      (place + 1) operands := by
  obtain ⟨block, before, after, found, params, written, within⟩ := inlines.written
  obtain ⟨stats, called, stepped, ends⟩ := reaches.step inside here
  obtain ⟨around, visible⟩ := sees.ambient
  obtain ⟨child, shows, left, store, frames, there, added⟩ := Running.evaluate_ok stepped
    (offers.having _ _ _) found rfl sees.scope visible
  have shows := shows.of_having
  let entered : Stage := ⟨stage.scene, called,
    Running.blockFrame block.slice child (stage.frame.go (place + 1)).registers.invocation,
    stage.frame.go (place + 1) :: stage.outer, stage.last⟩
  have reached : entered.Reaches block.slice.start operands := by
    refine ⟨called.world.stats, ?_⟩
    have same : called = (entered.on called entered.frame).machineAt block.slice.start operands
        called.world.stats := eq_machineAt frames left
    exact same ▸ ends
  have own : inner.params.isEmpty = false →
      stage.machine.world.scopes.Added child scope called.world.scopes := params ▸ added
  have leads : entered.Leads telling (fun trees machine _ => stage.machine.Shows spot trees machine)
      entered.frame.slice.stop operands :=
    inline_leads written within inlines.adds offers shows there rfl positional own
      (fun machine frame before seen offered => spoken machine frame _ before seen offered) reached
  unfold Stage.Leads at leads ⊢
  have stores : entered.machine.store = stage.machine.store := store
  rw [stores] at leads
  refine leads.mono fun trees store reached => ?_
  obtain ⟨machine, frame, shown, alike, same, reached⟩ := reached
  refine ⟨machine, stage.frame, ⟨shown, rfl⟩, .refl _, same, ?_⟩
  exact Reaches.leave reached (Nat.le_of_eq (congrArg Slice.stop alike.slice)) rfl

end Calls

end Code

end LiveTemplate
