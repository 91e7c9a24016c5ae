import LiveTemplate.Proofs.Render.Stocks

/-!
A run from its start to its end holds nothing but what is in stock: the instructions that bind, that
start the code of a block, and that begin and end regions, lists and components keep to it like all
others.
-/

namespace LiveTemplate

open Effects

namespace Stock.Sound

variable {scene : Scene} {stock : Stock} (sound : stock.Sound scene) {start : Store}
  {machine : Machine} {α β : Type}

include sound

/-! Binding -/

omit sound in
theorem bind (symbol : Symbol) {slot : Slot} (held : machine.Held scene stock start)
    (good : slot.Held stock machine.store) :
    (stock.law scene start).Goes machine (Running.bind symbol slot) fun _ _ => True :=
  modifyScope held fun _ scopeHeld => scopeHeld.bind symbol good

theorem bindPositional (symbols : List Symbol) {references : List Reference}
    (held : machine.Held scene stock start)
    (good : ∀ reference ∈ references, stock.reference machine.store reference) :
    (stock.law scene start).Goes machine (Running.bindPositional symbols references)
      fun _ _ => True := by
  induction symbols generalizing machine references with
  | nil => exact .pure held trivial
  | cons symbol symbols ih =>
    have first : stock.reference machine.store (references.headD (.const .undefined)) := by
      cases references with
      | nil => exact sound.closed.const _
      | cons reference rest => exact good reference List.mem_cons_self
    refine .bind (bind symbol held first) fun _ _ held moves _ => ?_
    exact ih held fun reference member =>
      (sound.lasts moves).reference _ (good reference (List.mem_of_mem_tail member))

theorem bindSymbols (names symbols : Handle) {slot : String → Slot}
    (held : machine.Held scene stock start)
    (good : ∀ name, (slot name).Held stock machine.store) :
    (stock.law scene start).Goes machine (Running.bindSymbols scene names symbols slot)
      fun _ _ => True := by
  have routine := sound.routine start
  refine routine.lookUp held .stringArray fun names _ => routine.lookUp held .array fun symbols _ => ?_
  refine .forM held fun item _ state held moves => ?_
  exact bind item.2 held ((good item.1).last (sound.gives moves))

/-- What the instructions at the start of a block bind. -/
theorem binds {instruction : Instruction} (held : machine.Held scene stock start)
    (binds : instruction.op = .bindPositionalArgs ∨ instruction.op = .bindNamedArgs ∨
      instruction.op = .bindBlocks ∨ instruction.op = .bindPartialArgs ∨
      instruction.op = .bindCallerScope) :
    (stock.law scene start).Goes machine (Running.step scene instruction) fun _ _ => True := by
  have routine := sound.routine start
  obtain ⟨op, first, second, third⟩ := instruction
  rcases binds with rfl | rfl | rfl | rfl | rfl
  · refine routine.frame_bind held fun frame _ _ frameHeld => ?_
    refine routine.lookUp held .array fun symbols _ => ?_
    exact sound.bindPositional symbols held frameHeld.registers.invocation.positional
  · refine routine.frame_bind held fun frame _ _ frameHeld => ?_
    refine sound.bindSymbols first second held fun name => ?_
    cases found : frame.registers.invocation.get? name with
    | none => exact sound.closed.const _
    | some reference => exact frameHeld.registers.invocation.get name reference found
  · refine routine.frame_bind held fun frame _ _ frameHeld => ?_
    exact sound.bindSymbols first second held frameHeld.registers.invocation.block
  · refine routine.frame_bind held fun frame _ _ frameHeld => ?_
    exact bind first held frameHeld.registers.invocation
  · refine routine.frame_bind held fun frame _ _ frameHeld => ?_
    split
    · exact modifyScope held fun scope scopeHeld => ⟨scopeHeld.slots, scopeHeld.this⟩
    · exact .pure held trivial

/-! Regions -/

theorem capture (held : machine.Held scene stock start) :
    (stock.law scene start).Goes machine Running.capture fun captured after =>
      after = machine ∧ captured.Held stock machine.store := by
  have routine := sound.routine start
  refine routine.frame_bind held fun frame _ _ frameHeld => ?_
  refine routine.ambient_bind held fun visible visibleHeld => ?_
  exact .pure held ⟨rfl, frameHeld.registers, frameHeld.locals, visibleHeld⟩

theorem enter (slice : Slice) (key : Option Key) (held : machine.Held scene stock start) :
    (stock.law scene start).Goes machine (Running.enter slice key) fun _ _ => True := by
  refine .bind (sound.capture held) ?_
  rintro captured _ _ _ ⟨rfl, good⟩
  refine .bind (draws held (Running.pushBlock_draws (.refl _))) fun extent _ held moves _ => ?_
  refine ⟨setBuilders held (List.forall_mem_cons.mpr ⟨?_, held.builders⟩), stock.refl _, trivial⟩
  exact ⟨good.last (sound.gives moves), Content.held_iff.mpr nofun⟩

theorem addItem {list : ListRegion} (key : Key) {region : Region} {outer : List Builder}
    (held : machine.Held scene stock start)
    (listHeld : Update.Held stock machine.store scene.helpers (.list list))
    (good : region.Held stock machine.store scene.helpers)
    (others : ∀ builder ∈ outer, builder.Held stock machine.store scene.helpers) :
    (stock.law scene start).Goes machine (Running.addItem list key region outer)
      fun _ _ => True := by
  have put : ∀ {after : Machine}, after.Held scene stock start →
      stock.later machine.store after.store → ∀ items : List (Key × Region),
      (∀ item ∈ items, item ∈ list.items ∨ item.2 = region) →
      Machine.Held scene stock start
        { after with builders := .list { list with items } :: outer } := by
    intro after held moves items known
    have lasts := sound.lasts moves
    obtain ⟨captured, keyed, watch, before⟩ := (ListRegion.held_iff _).mp (listHeld.last lasts)
    refine setBuilders held (List.forall_mem_cons.mpr ⟨(Builder.held_list _).mpr
      ⟨captured, keyed, watch, fun item member => ?_⟩, fun builder member =>
        (others builder member).last lasts⟩)
    rcases known item member with member | same
    · exact before item member
    · exact same ▸ good.last lasts
  have finish : ∀ {after : Machine}, after.Held scene stock start →
      stock.later machine.store after.store → (stock.law scene start).Goes after
        (modify fun machine => { machine with builders := .list { list with
          items := (list.items.filter fun item => item.1 ≠ key) ++ [(key, region)] } :: outer })
        fun _ _ => True := by
    intro after held moves
    refine ⟨put held moves _ fun item member => ?_, stock.refl _, trivial⟩
    rcases List.mem_append.mp member with member | member
    · exact .inl (List.mem_filter.mp member).1
    · exact .inr (by rw [List.mem_singleton.mp member])
  refine .modify_bind (stock.refl _) ?_
  have still := put held (stock.refl _) (list.items.filter fun item => item.1 ≠ key)
    fun item member => .inl (List.mem_filter.mp member).1
  dsimp only
  split
  · refine .bind (sheds (Region.remove_sheds _) still) fun _ _ held moves _ => ?_
    exact finish held moves
  · exact finish still (stock.refl _)

theorem exit (held : machine.Held scene stock start) :
    (stock.law scene start).Goes machine Running.exit fun _ _ => True := by
  have builders := held.builders
  refine .get_bind ?_
  split
  · rename_i slice captured extent key content outer shape
    rw [shape] at builders
    obtain ⟨⟨capturedHeld, contentHeld⟩, others⟩ := List.forall_mem_cons.mp builders
    refine .modify_bind (stock.refl _) ?_
    refine .bind (draws (setBuilders held others) (Running.popExtent_draws (.refl _)))
      fun _ _ held moves _ => ?_
    have lasts := sound.lasts moves
    have good : Region.Held stock _ scene.helpers ⟨slice, captured, extent, content⟩ :=
      ⟨capturedHeld.last lasts.toGives, contentHeld.last lasts⟩
    dsimp only
    split
    · exact record held (by rw [Update.Held]; exact good)
    · rename_i key list rest
      obtain ⟨listHeld, rest⟩ := List.forall_mem_cons.mp others
      exact sound.addItem key held (Update.Held.last lasts listHeld) good fun builder member =>
        (rest builder member).last lasts
    · exact broken held
  · exact broken held

theorem enterList (slice : Slice) (held : machine.Held scene stock start) :
    (stock.law scene start).Goes machine (Running.enterList slice) fun _ _ => True := by
  have routine := sound.routine start
  refine routine.frame_bind held fun frame _ _ frameHeld => ?_
  split
  · exact broken held
  · rename_i iterator found
    have keyed := frameHeld.iterator iterator found
    refine .bind (sound.capture held) ?_
    rintro captured _ _ _ ⟨rfl, good⟩
    refine .bind (draws held (Running.pushList_draws (.refl _))) fun extent _ held moves _ => ?_
    have lasts := sound.lasts moves
    have keyed := keyed.last lasts.toGives
    refine .get_bind ⟨setBuilders held (List.forall_mem_cons.mpr ⟨?_, held.builders⟩),
      stock.refl _, trivial⟩
    refine (Builder.held_list _).mpr ⟨good.last lasts.toGives, keyed, ?_, by simp⟩
    exact sound.watchesNow (sound.tells keyed.1)

theorem exitList (held : machine.Held scene stock start) :
    (stock.law scene start).Goes machine Running.exitList fun _ _ => True := by
  have routine := sound.routine start
  have builders := held.builders
  refine .get_bind ?_
  split
  · rename_i list outer shape
    rw [shape] at builders
    obtain ⟨listHeld, others⟩ := List.forall_mem_cons.mp builders
    refine .modify_bind (stock.refl _) ?_
    refine routine.lookUp (setBuilders held others) .setItems fun extents _ => ?_
    refine .bind (draws (setBuilders held others) (Running.setExtents_draws (.refl _) extents))
      fun _ _ held one _ => ?_
    refine .bind (draws held (Running.popExtent_draws (.refl _))) fun _ _ held two _ => ?_
    exact record held (Update.Held.last (sound.lasts (stock.trans one two)) listHeld)
  · exact broken held

theorem enterWithKey (slice : Slice) (held : machine.Held scene stock start) :
    (stock.law scene start).Goes machine (Running.enterWithKey slice) fun _ _ => True := by
  have routine := sound.routine start
  refine routine.frame_bind held fun frame _ _ _ => ?_
  split
  · exact broken held
  · refine .bind (routine.modifyFrame held fun frame frameHeld => ⟨⟨frameHeld.registers,
      frameHeld.locals, frameHeld.ambient, frameHeld.iterator, frameHeld.partialBlock,
      frameHeld.definition⟩, rfl, rfl, rfl, rfl, rfl⟩) fun _ _ held _ _ => ?_
    exact sound.enter slice _ held

/-! Calls -/

omit sound in
theorem pushFrame {frame : Frame} (held : machine.Held scene stock start)
    (good : frame.Held stock machine.store) :
    (stock.law scene start).Goes machine (Running.pushFrame scene frame) fun _ _ => True := by
  refine .get_bind ?_
  dsimp only
  split
  · exact held.ends
  · refine .modify_bind (stock.refl _) ?_
    exact sheds (World.Sheds.countStats _)
      { held with frames := List.forall_mem_cons.mpr ⟨good, held.frames⟩ }

omit sound in
theorem popFrame (held : machine.Held scene stock start) :
    (stock.law scene start).Goes machine Running.popFrame fun _ _ => True := by
  refine .modify_bind (stock.refl _) ?_
  exact sheds (World.Sheds.countStats _)
    { held with frames := fun frame member => held.frames frame (List.mem_of_mem_drop member) }

theorem call (slice : Slice) {invocation : Invocation} (scope : ScopeId) {change : Frame → Frame}
    (held : machine.Held scene stock start) (given : invocation.Held stock machine.store)
    (good : ∀ frame : Frame, frame.Held stock machine.store →
      (change frame).Held stock machine.store) :
    (stock.law scene start).Goes machine (Running.call scene slice invocation scope change)
      fun _ _ => True := by
  have routine := sound.routine start
  refine routine.ambient_bind held fun visible visibleHeld => ?_
  refine pushFrame held (good _ ⟨⟨nofun, given, nofun⟩, nofun, ?_, nofun, nofun, nofun⟩)
  simpa using visibleHeld

omit sound in
theorem setScopes {scopes : Scopes} (held : machine.Held scene stock start)
    (good : scopes.Held stock machine.store) :
    (stock.law scene start).Goes machine (liftM (Render.setScopes scopes)) fun _ _ => True :=
  ⟨{ held with scopes := good }, stock.refl _, trivial⟩

omit sound in
theorem add_held {scopes : Scopes} {store : Store} (held : scopes.Held stock store) {scope : Scope}
    (good : scope.Held stock store) : (scopes.add scope).2.Held stock store := by
  intro id kept there
  rw [Scopes.get_ok] at there
  unfold Scopes.add at there
  split at there
  · dsimp only at there
    rw [Array.getElem?_setIfInBounds] at there
    split at there
    · split at there
      · cases there
        exact good
      · cases there
    · exact held id kept (Scopes.get_ok.mpr there)
  · dsimp only at there
    rw [Array.getElem?_push] at there
    split at there
    · cases there
      exact good
    · exact held id kept (Scopes.get_ok.mpr there)

omit sound in
theorem blockScope (block : CompiledBlock) (parent : ScopeId)
    (held : machine.Held scene stock start) :
    (stock.law scene start).Goes machine (Running.blockScope block parent) fun _ _ => True := by
  unfold Running.blockScope
  split
  · exact .pure held trivial
  · refine .get_bind (.orElse (fun _ _ => held.ends) fun made done => ?_)
    obtain ⟨scope, found, same⟩ := Scopes.child_ok.mp done
    have good := add_held held.scopes (held.scopes parent scope found)
    rw [same] at good
    refine .bind (setScopes held good) fun _ _ held _ _ => ?_
    exact .bind (ownScope _ held) fun _ _ held _ _ => .pure held trivial

theorem evaluate (handle : Handle) (held : machine.Held scene stock start) :
    (stock.law scene start).Goes machine (Running.evaluate scene handle) fun _ _ => True := by
  have routine := sound.routine start
  refine routine.lookUp held .block fun block _ => ?_
  refine routine.frame_bind held fun frame _ _ frameHeld => ?_
  refine .bind (blockScope block frame.scope held) fun scope _ held moves _ => ?_
  exact sound.call _ _ held (frameHeld.registers.invocation.last (sound.gives moves)) fun _ good => good

theorem openBlock (params : Nat) (held : machine.Held scene stock start) :
    (stock.law scene start).Goes machine (Running.openBlock scene params) fun _ _ => True := by
  have routine := sound.routine start
  refine .bind (routine.popBlock held) fun handle _ held _ _ => ?_
  refine .bind (routine.popReferences params held) fun positional _ held _ given => ?_
  split
  · exact .pure held trivial
  · refine routine.lookUp held .block fun block _ => ?_
    refine .bind (scope held) ?_
    rintro found _ _ _ ⟨rfl, -⟩
    refine routine.frame_bind held fun frame _ _ _ => ?_
    refine .bind (blockScope block _ held) fun scope _ held moves _ => ?_
    have known : Invocation.Held stock _ { positional } :=
      ⟨fun reference member => (sound.lasts moves).reference _ (given reference member),
        by simp, by simp⟩
    exact sound.call _ _ held known fun _ good => good

theorem evaluatePartial (held : machine.Held scene stock start) :
    (stock.law scene start).Goes machine (Running.evaluatePartial scene) fun _ _ => True := by
  have routine := sound.routine start
  refine routine.frame_bind held fun frame _ _ frameHeld => ?_
  split
  · exact broken held
  · refine .bind (routine.modifyFrame held fun frame frameHeld => ⟨⟨frameHeld.registers,
      frameHeld.locals, frameHeld.ambient, frameHeld.iterator, by simp,
      frameHeld.definition⟩, rfl, rfl, rfl, rfl, rfl⟩) fun _ _ held moves _ => ?_
    refine routine.lookUp held .block fun block _ => ?_
    exact sound.call _ _ held (frameHeld.registers.invocation.last (sound.gives moves))
      fun _ good => good

/-! Components -/

omit sound in
theorem newScope (size : Nat) {this : Reference} (held : machine.Held scene stock start)
    (good : stock.reference machine.store this) :
    (stock.law scene start).Goes machine (liftM (Render.newScope size this)) fun _ _ => True := by
  have fresh : Scope.Held stock machine.store
      { slots := List.replicate size .unbound, this } := by
    refine ⟨fun slot member => ?_, good⟩
    rw [List.eq_of_mem_replicate member]
    trivial
  exact ⟨{ held with scopes := add_held held.scopes fresh }, stock.refl _, trivial⟩

/-- The tag of a component with what may be watched from then on. -/
theorem noted_component {store : Store} (component : Component) {invocation : Invocation}
    (later : stock.later start store) (given : invocation.Held stock store)
    (made : stock.tag store component.tag) :
    (stock.readings start).Goes store (invocation.tag scene.helpers) fun tag after =>
      ∀ last, stock.watch after
        (Update.tag scene.helpers (.component component invocation last))
        (after.revisionOf (Tag.combine [tag, component.tag])) := by
  have tells := sound.invocation_tells given
  have told := sound.follows later tells
  refine .intro (fun tag after ended => ?_) fun fault after failed => told.of_error failed
  obtain ⟨later, moves, -⟩ := told.of_ok ended
  refine ⟨later, moves, fun last => ?_⟩
  rw [Update.tag]
  refine sound.watches (sound.tellsBoth tells made) ?_
  exact bind_ok.mpr ⟨tag, after, ended, rfl⟩

omit sound in
theorem content_bind {next : Content → Running β} {last : β → Machine → Prop}
    (held : machine.Held scene stock start)
    (rest : ∀ content, (stock.law scene start).Goes machine (next content) last) :
    (stock.law scene start).Goes machine (Running.content >>= next) last := by
  refine .through (fun _ after => after = machine) ?_ ?_
  · refine .get_bind ?_
    split
    · exact .pure held rfl
    · exact .pure held rfl
    · exact broken held
    · exact broken held
  · rintro content _ _ _ rfl
    exact rest content

theorem openComponent {attrs template inverse : Handle} (held : machine.Held scene stock start)
    (stocked : ∀ handle ∈ [attrs, template, inverse], handle ≠ 0 → stock.block handle) :
    (stock.law scene start).Goes machine (Running.openComponent scene attrs template inverse)
      fun _ _ => True := by
  have routine := sound.routine start
  have blocks : ∀ handle ∈ [attrs, template, inverse], ∀ found ∈ Running.optional handle,
      stock.block found := by
    intro handle member found there
    unfold Running.optional at there
    split at there
    · cases there
    · rename_i nonzero
      cases there
      exact stocked handle member nonzero
  refine routine.frame_bind held fun frame outer _ frameHeld => ?_
  split
  · exact broken held
  rename_i name manager layout found
  obtain ⟨made, -⟩ := frameHeld.definition _ found
  refine .bind (routine.modifyFrame held fun frame frameHeld => ⟨⟨frameHeld.registers,
    frameHeld.locals, frameHeld.ambient, frameHeld.iterator, frameHeld.partialBlock, nofun⟩,
    rfl, rfl, rfl, rfl, rfl⟩) fun _ _ held _ _ => ?_
  refine .bind (routine.popArguments held) fun arguments between held _ given => ?_
  extract_lets base invocation
  have given : invocation.Held stock between.store := by
    refine ⟨given.positional, given.named, fun entry member => ?_⟩
    simp only [invocation, List.mem_cons, List.not_mem_nil, or_false] at member
    rcases member with rfl | rfl | rfl | rfl
    · exact blocks _ (by simp)
    · exact blocks _ (by simp)
    · exact blocks _ (by simp)
    · exact blocks _ (by simp)
  refine routine.ambient_bind held fun visible visibleHeld => ?_
  refine .bind (sound.onPage held (sound.component (stock.refl _) made given visibleHeld))
    fun made _ held moves good => ?_
  obtain ⟨this, tag⟩ := made
  have given := given.last (sound.gives moves)
  refine .bind (sheds World.Sheds.newInstance held) fun id _ held moves _ => ?_
  have given := given.last (sound.gives moves)
  have thisHeld := (sound.lasts moves).reference _ good.1
  have tagHeld := (sound.lasts moves).tag _ good.2
  refine content_bind held fun content => ?_
  refine .bind (record held (by
      rw [Update.Held]
      exact ⟨sound.constant _, trivial⟩))
    fun _ _ held moves _ => ?_
  have given := given.last (sound.gives moves)
  have thisHeld := (sound.lasts moves).reference _ thisHeld
  have tagHeld := (sound.lasts moves).tag _ tagHeld
  refine .modify_bind (stock.refl _) ?_
  refine .bind (sound.reading (setGroups _ held)
    (sound.noted_component ⟨id, name, this, tag⟩ (stock.refl _) given tagHeld))
    fun latest _ held moves watched => ?_
  have given := given.last (sound.gives moves)
  have thisHeld := (sound.lasts moves).reference _ thisHeld
  have tagHeld := (sound.lasts moves).tag _ tagHeld
  refine .get_bind (.bind (record held ?_) fun _ _ held moves _ => ?_)
  · rw [Update.Held]
    exact ⟨given, tagHeld, watched _⟩
  have given := given.last (sound.gives moves)
  have thisHeld := (sound.lasts moves).reference _ thisHeld
  refine .bind (own _ held) fun _ _ held moves _ => ?_
  have given := given.last (sound.gives moves)
  have thisHeld := (sound.lasts moves).reference _ thisHeld
  refine .bind (draws held (Running.pushBlock_draws (.refl _))) fun extent _ held moves _ => ?_
  have given := given.last (sound.gives moves)
  have thisHeld := (sound.lasts moves).reference _ thisHeld
  refine routine.lookUp held .block fun block _ => routine.lookUp held .view fun names _ => ?_
  refine .bind (newScope names.size held thisHeld) fun scope _ held moves _ => ?_
  have given := given.last (sound.gives moves)
  refine .bind (ownScope scope held) fun _ _ held moves _ => ?_
  have given := given.last (sound.gives moves)
  refine routine.frame_bind held fun caller _ _ _ => ?_
  exact sound.call _ _ held given fun frame good => ⟨good.registers, good.locals, good.ambient,
    good.iterator, good.partialBlock, good.definition⟩

theorem renderedLayout (held : machine.Held scene stock start) :
    (stock.law scene start).Goes machine (Running.didRenderLayout scene) fun _ _ => True := by
  refine Running.frame_bind held.ends fun frame outer _ => ?_
  split
  · exact broken held
  · rename_i component extent _
    refine .get_bind ?_
    refine .bind (sound.hooked held (sound.didRenderLayout component _ _ machine.world.page))
      fun _ _ held _ _ => ?_
    refine .bind (sheds (World.Sheds.queue _) held) fun _ _ held _ _ => ?_
    refine record held ?_
    rw [Update.Held]
    trivial

theorem closeComponent (held : machine.Held scene stock start) :
    (stock.law scene start).Goes machine Running.closeComponent fun _ _ => True := by
  refine .bind (draws held (Running.popExtent_draws (.refl _))) fun _ _ held moves _ => ?_
  refine .get_bind ?_
  split
  · exact broken held
  · rename_i depth position groups _
    refine .modify_bind (stock.refl _) ?_
    have still := setGroups groups held
    dsimp only
    split
    · refine .get_bind (modifyContent still fun content contentHeld => ?_)
      rw [Content.held_iff] at contentHeld ⊢
      intro update member
      rcases List.mem_append.mp member with member | member
      · exact contentHeld update (List.mem_of_mem_take member)
      · rw [List.mem_singleton.mp member, Update.Held]
        exact ⟨sound.now _, Update.allHeld_iff.mpr fun update member =>
          contentHeld update (List.mem_of_mem_drop member)⟩
    · exact broken still

/-! Runs -/

/-- A machine that carries out an instruction goes on to hold what is in stock. -/
theorem step {instruction : Instruction} (stocked : instruction.Stocked stock scene.program.pool)
    (held : machine.Held scene stock start) :
    (stock.law scene start).Goes machine (Running.step scene instruction) fun _ _ => True := by
  have routine := sound.routine start
  by_cases usual : instruction.op.isRoutine = true
  · exact (sound.routine start).step usual stocked (fun _ => trivial) held
  obtain ⟨op, first, second, third⟩ := instruction
  cases op with
  | bindPositionalArgs | bindNamedArgs | bindBlocks | bindPartialArgs | bindCallerScope =>
    exact sound.binds held (by simp)
  | enter => exact routine.lookUp held .find fun slice _ => sound.enter slice none held
  | exit => exact sound.exit held
  | evaluate => exact sound.evaluate first held
  | openBlock => exact sound.openBlock first held
  | enterList => exact routine.lookUp held .find fun slice _ => sound.enterList slice held
  | exitList => exact sound.exitList held
  | enterWithKey => exact routine.lookUp held .find fun slice _ => sound.enterWithKey slice held
  | evaluatePartial => exact sound.evaluatePartial held
  | openComponent => exact sound.openComponent held stocked
  | didRenderLayout => exact sound.renderedLayout held
  | closeComponent => exact sound.closeComponent held
  | _ => exact absurd rfl usual

end Stock.Sound

/-- Every instruction of the program is stocked. -/
def Stock.Supplies (stock : Stock) (program : CompiledProgram) : Prop :=
  ∀ position instruction, program.program.fetch position = .ok instruction →
    instruction.Stocked stock program.pool

namespace Stock.Sound

variable {scene : Scene} {stock : Stock} (sound : stock.Sound scene) {start : Store}
  {machine : Machine}

include sound

theorem run (supplies : stock.Supplies scene.program) (limit : Nat)
    (held : machine.Held scene stock start) :
    (stock.law scene start).Goes machine (Running.run scene limit) fun _ _ => True := by
  have routine := sound.routine start
  induction limit generalizing machine with
  | zero => exact broken held
  | succ limit ih =>
    refine .get_bind ?_
    split
    · exact .pure held trivial
    · rename_i frame outer shape
      dsimp only
      split
      · exact .bind (popFrame held) fun _ _ held _ _ => ih held
      · refine routine.lookUp held .fetch fun instruction found => ?_
        refine .bind ((sound.routine start).advance held shape trivial) fun _ _ held _ _ => ?_
        refine .bind (sheds (World.Sheds.modify (fun _ => rfl) fun _ => rfl) held)
          fun _ _ held _ _ => ?_
        exact .bind (sound.step (supplies _ _ found) held) fun _ _ held _ _ => ih held

theorem finish (held : machine.Held scene stock start) :
    (stock.law scene start).Goes machine Running.finish fun output after =>
      output.2.Held stock after.store scene.helpers := by
  refine (draws held (Running.finish_draws machine)).mono fun output after _ moves shape => ?_
  have rootHeld := held.builders (.root output.2) (by simp [shape])
  exact Content.Held.last (sound.lasts moves) rootHeld

theorem attempt (supplies : stock.Supplies scene.program) (held : machine.Held scene stock start) :
    (stock.law scene start).Goes machine (Running.attempt scene) fun output after =>
      output.2.Held stock after.store scene.helpers := by
  have ran := sound.run supplies stepLimit held
  have shed : ∀ {before after : Machine}, before.world.Sheds after.world →
      stock.later start before.store ∧ before.world.scopes.Held stock before.store →
      stock.later start after.store ∧ after.world.scopes.Held stock after.store := by
    rintro before after ⟨store, scopes⟩ ⟨later, held⟩
    have same : after.store = before.store := store
    rw [same]
    exact ⟨later, fun id scope there => held id scope (scopes id scope there)⟩
  unfold Law.Goes Running.attempt
  cases ended : Running.run scene stepLimit machine with
  | ok result between =>
    obtain ⟨held, moves, -⟩ := ran.of_ok ended
    have finished := sound.finish held
    unfold Law.Goes at finished
    dsimp only
    revert finished
    cases Running.finish between with
    | ok output after => exact fun finished => ⟨finished.1, stock.trans moves finished.2.1, finished.2.2⟩
    | error fault after => exact id
  | error fault between =>
    have ends := ran.of_error ended
    cases fault with
    | broken defect => exact ends
    | failed error =>
      have unwound := Running.unwind_sheds (World.Sheds.refl between.world)
      dsimp only
      cases taken : Running.unwind between with
      | ok result after => exact shed (unwound.of_ok taken).1 ends
      | error fault after => exact shed (unwound.of_error taken) ends

end Stock.Sound

/-- What a render does to the page as a whole: the store it leaves is a later one, and what is bound
is in stock. -/
def Stock.renders (stock : Stock) (start : Store) : Law World where
  holds world := stock.later start world.page.store ∧ world.scopes.Held stock world.page.store
  moves before after := stock.later before.page.store after.page.store
  ends _ world := stock.later start world.page.store ∧ world.scopes.Held stock world.page.store
  refl _ := stock.refl _
  trans := stock.trans

namespace Stock.Sound

variable {scene : Scene} {stock : Stock} (sound : stock.Sound scene) {start : Store}
  {world : World}

include sound

omit sound in
theorem opening {captured : Captured} (slice : Slice) (parent : NodeId) (before : Option NodeId)
    (holds : (stock.renders start).holds world) (held : captured.Held stock world.page.store) :
    Machine.Held scene stock start (.opening world captured slice parent before) where
  later := holds.1
  frames := by
    refine List.forall_mem_singleton.mpr
      ⟨held.registers, held.locals, List.forall_mem_singleton.mpr held.ambient, ?_, ?_, ?_⟩
    all_goals nofun
  operands := nofun
  scopes := holds.2
  builders := List.forall_mem_singleton.mpr (Content.held_iff.mpr nofun)

/-- What a run leaves is in stock, if what was captured for it is. -/
theorem resume (supplies : stock.Supplies scene.program) {captured : Captured} (slice : Slice)
    (parent : NodeId) (before : Option NodeId) (holds : (stock.renders start).holds world)
    (held : captured.Held stock world.page.store) :
    (stock.renders start).Goes world (Render.resume scene captured slice parent before)
      fun output after => output.2.Held stock after.page.store scene.helpers := by
  have attempted := sound.attempt supplies (opening slice parent before holds held)
  unfold Law.Goes at attempted ⊢
  rw [Render.resume_eq]
  by_cases none : scene.config.maxFrameDepth = 0
  · rw [if_pos none]
    exact holds
  · rw [if_neg none]
    revert attempted
    cases Running.attempt scene (.opening world captured slice parent before) with
    | ok output machine => exact fun kept => ⟨⟨kept.1.later, kept.1.scopes⟩, kept.2.1, kept.2.2⟩
    | error fault machine => exact id

end Stock.Sound

end LiveTemplate
