import LiveTemplate.Proofs.Compile.Program
import LiveTemplate.Proofs.Render.Frames

/-!
How a run goes through a block. Within a block a run moves forward, but for the loops, and each time
a loop is gone through again its list has one element less left. A loop only starts blocks, so
nothing in it can give its list new elements. And a block that is started needs another frame, of
which there is a limited number. So what holds of a machine as soon as it holds after the next round
holds at the start of a block as soon as it holds where the block has come to its end, with the same
regions open. The proof is by induction on how many frames may still be pushed, in them on the code of
the block, and in a loop on the elements that are left.
-/

namespace LiveTemplate

open Effects

namespace Running

variable (scene : Scene)

/-- One round of a run: ends the innermost frame, or carries out its next instruction. Tells whether
there was a frame. -/
def turn : Running Bool := do
  match (← get).frames with
  | [] => return false
  | frame :: _ =>
    if frame.slice.stop ≤ frame.next then popFrame
    else
      let instruction ← scene.program.program.fetch frame.next
      modifyFrame fun frame => { frame with next := frame.next + 1 }
      countInstruction
      step scene instruction
    return true

/-- As many rounds, unless the run ends before. Tells whether it goes on. -/
def rounds : Nat → Running Bool
  | 0 => return true
  | count + 1 => do if ← turn scene then rounds count else return false

theorem run_succ (limit : Nat) :
    run scene (limit + 1) = turn scene >>= fun more => if more then run scene limit else pure () := by
  unfold turn
  rw [run, bind_assoc]
  refine bind_congr fun machine => ?_
  cases machine.frames with
  | nil => rfl
  | cons frame outer =>
    dsimp only
    split <;> simp only [bind_assoc, pure_bind, if_true]

/-- A run is made of rounds. -/
theorem run_eq_rounds (limit : Nat) :
    run scene limit =
      rounds scene limit >>= fun more => if more then broken .endless else pure () := by
  induction limit with
  | zero => rfl
  | succ limit ih =>
    rw [run_succ, ih, rounds, bind_assoc]
    refine bind_congr fun more => ?_
    cases more <;> simp

/-- As long as there are frames, it holds of a machine if it holds after the next round. -/
def Progressive (holds : Machine → Prop) : Prop :=
  ∀ machine : Machine, machine.frames ≠ [] →
    (∀ after, turn scene machine = .ok true after → holds after) → holds machine

/-- It holds wherever the frames run so and these regions are open. -/
def HoldsAt (holds : Machine → Prop) (courses : List Course) (openings : List Builder) : Prop :=
  ∀ machine : Machine, machine.At courses openings → holds machine

/-! One round -/

namespace Progressive

variable {scene} {holds : Machine → Prop} (progressive : Progressive scene holds) {course : Course}
  {outer : List Course} {openings : List Builder}

include progressive

/-- A frame at the end of its slice is ended. -/
theorem pop (past : course.slice.stop ≤ course.next) (rest : HoldsAt holds outer openings) :
    HoldsAt holds (course :: outer) openings := by
  intro machine here
  obtain ⟨frame, frames, shape, rfl, rfl⟩ := List.map_eq_cons_iff.mp here.courses
  refine progressive machine (by simp [shape]) fun after more => ?_
  obtain ⟨seen, between, got, more⟩ := bind_ok.mp more
  obtain ⟨rfl, rfl⟩ := get_ok.mp got
  rw [shape] at more
  dsimp only at more
  rw [if_pos (show frame.slice.stop ≤ frame.next from past)] at more
  obtain ⟨_, popped, ended, more⟩ := bind_ok.mp more
  obtain ⟨-, rfl⟩ := pure_ok.mp more
  obtain ⟨_, dropped, drop, counted⟩ := bind_ok.mp ended
  refine rest _ (((Quiet.lift _).of_ok counted).here ?_)
  rw [← modify_ok.mp drop]
  refine ⟨?_, here.openings⟩
  rw [Machine.courses, shape]
  rfl

/-- Otherwise the next instruction is carried out. -/
theorem step {instruction : Instruction} (inside : course.next < course.slice.stop)
    (there : scene.program.program.instructions[course.next]? = some instruction)
    (rest : ∀ before after : Machine,
      before.At ({ course with next := course.next + 1 } :: outer) openings →
      Running.step scene instruction before = .ok () after → holds after) :
    HoldsAt holds (course :: outer) openings := by
  intro machine here
  obtain ⟨frame, frames, shape, same, equal⟩ := List.map_eq_cons_iff.mp here.courses
  refine progressive machine (by simp [shape]) fun after more => ?_
  obtain ⟨seen, between, got, more⟩ := bind_ok.mp more
  obtain ⟨rfl, rfl⟩ := get_ok.mp got
  subst same
  rw [shape] at more
  dsimp only at more
  rw [if_neg (show ¬frame.slice.stop ≤ frame.next from Nat.not_le_of_gt inside)] at more
  obtain ⟨found, between, fetched, more⟩ := bind_ok.mp more
  have known : scene.program.program.fetch frame.next = .ok instruction :=
    CompiledProgram.fetch_ok.mpr there
  rw [known] at fetched
  obtain ⟨rfl, rfl⟩ := pure_ok.mp fetched
  obtain ⟨_, advanced, advance, more⟩ := bind_ok.mp more
  obtain ⟨_, before, counted, more⟩ := bind_ok.mp more
  obtain ⟨_, last, stepped, more⟩ := bind_ok.mp more
  obtain ⟨-, rfl⟩ := pure_ok.mp more
  refine rest before last (((Quiet.lift _).of_ok counted).here ?_) stepped
  refine modifyFrame_at advance here fun other same => ?_
  rw [← same]
  rfl

end Progressive

/-! The code of a frame -/

/-- Whatever block is started from the innermost frame, it holds there if it holds where that block
has come to its end. -/
def Room (scene : Scene) (holds : Machine → Prop) (outer : List Course) : Prop :=
  ∀ course handle block openings, outer.length + 1 < scene.config.maxFrameDepth →
    scene.program.blocks.block handle = .ok block → HoldsAt holds (course :: outer) openings →
    HoldsAt holds (block.slice.course :: course :: outer) openings

section Frame

variable {scene} {holds : Machine → Prop} (progressive : Progressive scene holds) {slice : Slice}
  {outer : List Course} {iterator : Option FirstPass} {place : Nat} {openings : List Builder}
  {builders : List Builder}

include progressive

theorem quiet_holds {instruction : Instruction} (quiet : instruction.op.isQuiet = true)
    (inside : place < slice.stop)
    (there : scene.program.program.instructions[place]? = some instruction)
    (rest : HoldsAt holds (⟨place + 1, slice, iterator⟩ :: outer) openings) :
    HoldsAt holds (⟨place, slice, iterator⟩ :: outer) openings :=
  progressive.step inside there fun _ after here ended =>
    rest after (((Quiet.step quiet).of_ok ended).here here)

theorem Room.starts (room : Room scene holds outer) {instruction : Instruction}
    (starts : instruction.op = .evaluate ∨ instruction.op = .openBlock ∨
      instruction.op = .evaluatePartial ∨ instruction.op = .openComponent)
    (inside : place < slice.stop)
    (there : scene.program.program.instructions[place]? = some instruction)
    (rest : HoldsAt holds (⟨place + 1, slice, iterator⟩ :: outer) openings) :
    HoldsAt holds (⟨place, slice, iterator⟩ :: outer) openings := by
  refine progressive.step inside there fun before after here ended => ?_
  rcases Starts.step starts before after _ _ here ended with
    same | ⟨bound, handle, block, found, begun⟩
  · exact rest after same
  · exact room _ handle block _ bound found rest after begun

/-- A plain instruction of the block. -/
theorem Room.plain (room : Room scene holds outer) {instruction : Instruction}
    (plain : instruction.op.isPlain = true) (inside : place < slice.stop)
    (there : scene.program.program.instructions[place]? = some instruction)
    (rest : ∀ iterator, HoldsAt holds (⟨place + 1, slice, iterator⟩ :: outer) openings) :
    HoldsAt holds (⟨place, slice, iterator⟩ :: outer) openings := by
  by_cases quiet : instruction.op.isQuiet = true
  · exact quiet_holds progressive quiet inside there (rest iterator)
  obtain ⟨op, first, second, third⟩ := instruction
  cases op with
  | putIterator =>
    refine progressive.step inside there fun before after here ended => ?_
    obtain ⟨walk, begun⟩ := putIterator_at ended here
    exact rest (some walk) after begun
  | evaluate => exact room.starts progressive (.inl rfl) inside there (rest iterator)
  | openBlock => exact room.starts progressive (.inr (.inl rfl)) inside there (rest iterator)
  | evaluatePartial =>
    exact room.starts progressive (.inr (.inr (.inl rfl))) inside there (rest iterator)
  | _ => first | exact absurd rfl quiet | cases plain

theorem jump_holds {target : Nat} (inside : place < slice.stop)
    (there : scene.program.program.instructions[place]? = some { op := .jump, first := target })
    (rest : HoldsAt holds (⟨target, slice, iterator⟩ :: outer) openings) :
    HoldsAt holds (⟨place, slice, iterator⟩ :: outer) openings :=
  progressive.step inside there fun _ after here ended => rest after (goto_at ended here)

theorem branch_holds {kind : Op} {target : Nat} (branches : kind = .jumpIf ∨ kind = .jumpUnless)
    (inside : place < slice.stop)
    (there : scene.program.program.instructions[place]? = some { op := kind, first := target })
    (next : HoldsAt holds (⟨place + 1, slice, iterator⟩ :: outer) openings)
    (jumped : HoldsAt holds (⟨target, slice, iterator⟩ :: outer) openings) :
    HoldsAt holds (⟨place, slice, iterator⟩ :: outer) openings := by
  refine progressive.step inside there fun before after here ended => ?_
  have either : after.At (⟨place + 1, slice, iterator⟩ :: outer) openings ∨
      after.At (⟨target, slice, iterator⟩ :: outer) openings := by
    rcases branches with rfl | rfl <;> exact jumpOn_at ended here
  exact either.elim (next after) (jumped after)

/-! Regions and lists -/

/-- A region of its own begins, and what was open around it stays as it is. -/
theorem enter_holds {handle : Handle} (inside : place < slice.stop)
    (there : scene.program.program.instructions[place]? = some { op := .enter, first := handle })
    (rest : ∀ region captured extent builders, builders.modifyHead Builder.bare = openings →
      HoldsAt holds (⟨place + 1, slice, iterator⟩ :: outer)
        (.region region captured extent none {} :: builders)) :
    HoldsAt holds (⟨place, slice, iterator⟩ :: outer) openings := by
  refine progressive.step inside there fun before after here ended => ?_
  obtain ⟨region, between, found, ended⟩ := bind_ok.mp ended
  obtain ⟨-, rfl⟩ := lookUp_ok.mp found
  obtain ⟨captured, extent, begun⟩ := enter_at ended here
  exact rest region captured extent _ here.openings after begun

theorem exit_holds {region : Slice} {captured : Captured} {extent : ExtentId}
    (inside : place < slice.stop)
    (there : scene.program.program.instructions[place]? = some { op := .exit })
    (same : builders.modifyHead Builder.bare = openings)
    (rest : HoldsAt holds (⟨place + 1, slice, iterator⟩ :: outer) openings) :
    HoldsAt holds (⟨place, slice, iterator⟩ :: outer)
      (.region region captured extent none {} :: builders) :=
  progressive.step inside there fun _ after here ended => rest after (same ▸ exit_at ended here)

theorem enterList_holds {handle : Handle} (inside : place < slice.stop)
    (there : scene.program.program.instructions[place]? =
      some { op := .enterList, first := handle })
    (rest : ∀ list builders, builders.modifyHead Builder.bare = openings →
      HoldsAt holds (⟨place + 1, slice, iterator⟩ :: outer) (.list list :: builders)) :
    HoldsAt holds (⟨place, slice, iterator⟩ :: outer) openings := by
  refine progressive.step inside there fun before after here ended => ?_
  obtain ⟨region, between, found, ended⟩ := bind_ok.mp ended
  obtain ⟨-, rfl⟩ := lookUp_ok.mp found
  obtain ⟨list, begun⟩ := enterList_at ended here
  exact rest list _ here.openings after begun

theorem exitList_holds {list : ListRegion} (inside : place < slice.stop)
    (there : scene.program.program.instructions[place]? = some { op := .exitList })
    (same : builders.modifyHead Builder.bare = openings)
    (rest : HoldsAt holds (⟨place + 1, slice, iterator⟩ :: outer) openings) :
    HoldsAt holds (⟨place, slice, iterator⟩ :: outer) (.list list :: builders) :=
  progressive.step inside there fun _ after here ended => rest after (same ▸ exitList_at ended here)

theorem enterWithKey_holds {handle : Handle} {list : ListRegion} (inside : place < slice.stop)
    (there : scene.program.program.instructions[place]? =
      some { op := .enterWithKey, first := handle })
    (rest : ∀ region captured extent key, HoldsAt holds (⟨place + 1, slice, iterator⟩ :: outer)
      (.region region captured extent (some key) {} :: .list list :: builders)) :
    HoldsAt holds (⟨place, slice, iterator⟩ :: outer) (.list list :: builders) := by
  refine progressive.step inside there fun before after here ended => ?_
  obtain ⟨region, between, found, ended⟩ := bind_ok.mp ended
  obtain ⟨-, rfl⟩ := lookUp_ok.mp found
  obtain ⟨key, captured, extent, begun⟩ := enterWithKey_at ended here
  rw [openings_list here.openings] at begun
  exact rest region captured extent key after begun

theorem exitItem_holds {region : Slice} {captured : Captured} {extent : ExtentId} {key : Key}
    {list : ListRegion} (inside : place < slice.stop)
    (there : scene.program.program.instructions[place]? = some { op := .exit })
    (rest : ∀ list, HoldsAt holds (⟨place + 1, slice, iterator⟩ :: outer) (.list list :: builders)) :
    HoldsAt holds (⟨place, slice, iterator⟩ :: outer)
      (.region region captured extent (some key) {} :: .list list :: builders) := by
  refine progressive.step inside there fun before after here ended => ?_
  obtain ⟨list, left⟩ := exitItem_at ended here
  exact rest list after left

/-- The body of a loop leaves the iterator alone. -/
theorem Room.calls (room : Room scene holds outer) {pool : Pool} {code : Shape} {start stop : Nat}
    (placed : code.Placed scene.program.program pool start stop) (calls : code.Calls)
    (inside : stop ≤ slice.stop)
    (rest : HoldsAt holds (⟨stop, slice, iterator⟩ :: outer) openings) :
    HoldsAt holds (⟨start, slice, iterator⟩ :: outer) openings := by
  induction placed with
  | nil => exact rest
  | op here after ih =>
    have bound := after.start_le_stop
    exact room.starts progressive (.inl calls.1) (by omega) here (ih calls.2 inside rest)
  | _ => exact calls.elim

/-- A loop that comes to its head again has fewer elements left. -/
theorem loop_holds {done : Nat} (inside : place < slice.stop)
    (there : scene.program.program.instructions[place]? = some { op := .nextIter, first := done })
    (body : ∀ iterator,
      (∀ list, HoldsAt holds (⟨place, slice, iterator⟩ :: outer) (.list list :: builders)) →
      ∀ list, HoldsAt holds (⟨place + 1, slice, iterator⟩ :: outer) (.list list :: builders))
    (rest : ∀ iterator list,
      HoldsAt holds (⟨done, slice, iterator⟩ :: outer) (.list list :: builders)) :
    ∀ list, HoldsAt holds (⟨place, slice, iterator⟩ :: outer) (.list list :: builders) := by
  have begun : ∀ (count : Nat) (walk : FirstPass) (pass : Pass), walk.rest = some pass →
      pass.length ≤ count → ∀ list,
        HoldsAt holds (⟨place, slice, some walk⟩ :: outer) (.list list :: builders) := by
    intro count
    induction count with
    | zero =>
      intro walk pass left few list
      refine progressive.step inside there fun before after here ended => ?_
      obtain ⟨same, fresh, fewer, equal, -, stops | ⟨-, shorter⟩⟩ := nextIter_at ended here
      · exact rest (some fresh) list after stops
      · cases equal
        have := shorter pass left
        omega
    | succ count ih =>
      intro walk pass left few list
      refine progressive.step inside there fun before after here ended => ?_
      obtain ⟨same, fresh, fewer, equal, left', stops | ⟨another, shorter⟩⟩ :=
        nextIter_at ended here
      · exact rest (some fresh) list after stops
      · cases equal
        have := shorter pass left
        exact body _ (ih fresh fewer left' (by omega)) list after another
  intro list
  refine progressive.step inside there fun before after here ended => ?_
  obtain ⟨walk, fresh, pass, -, left, stops | ⟨another, -⟩⟩ := nextIter_at ended here
  · exact rest (some fresh) list after stops
  · exact body _ (begun pass.length fresh pass left (Nat.le_refl _)) list after another

/-- Code of some shape, wherever the innermost frame runs it. -/
theorem Room.placed (room : Room scene holds outer) {pool : Pool} {code : Shape} {start stop : Nat}
    (placed : code.Placed scene.program.program pool start stop) (formed : code.Formed)
    (inside : stop ≤ slice.stop) :
    ∀ openings, (∀ iterator, HoldsAt holds (⟨stop, slice, iterator⟩ :: outer) openings) →
      ∀ iterator, HoldsAt holds (⟨start, slice, iterator⟩ :: outer) openings := by
  induction placed with
  | nil => exact fun openings rest => rest
  | op here after ih =>
    have bound := after.start_le_stop
    exact fun openings rest iterator =>
      room.plain progressive formed.1 (by omega) here (ih formed.2 inside openings rest)
  | region enter found body exit after inner ih =>
    have bound := body.start_le_stop
    have bound' := after.start_le_stop
    intro openings rest iterator
    refine enter_holds progressive (by omega) enter fun region captured extent builders same => ?_
    refine inner formed.1 (by omega) _ (fun iterator => ?_) iterator
    exact exit_holds progressive (by omega) exit same (ih formed.2.2 inside openings rest iterator)
  | loop enterList listSlice next enter found body exit again exitList after inner ih =>
    have bound := body.start_le_stop
    have bound' := after.start_le_stop
    intro openings rest iterator
    refine enterList_holds progressive (by omega) enterList fun list builders same => ?_
    refine loop_holds progressive (by omega) next (fun iterator head list => ?_)
      (fun iterator list => ?_) list
    · refine enterWithKey_holds progressive (by omega) enter fun region captured extent key => ?_
      refine room.calls progressive body formed.2.1 (by omega) ?_
      refine exitItem_holds progressive (by omega) exit fun list => ?_
      exact jump_holds progressive (by omega) again (head list)
    · exact exitList_holds progressive (by omega) exitList same
        (ih formed.2.2 inside openings rest iterator)
  | skip test body after inner ih =>
    have bound := body.start_le_stop
    have bound' := after.start_le_stop
    intro openings rest iterator
    have rest := ih formed.2.2.2 inside openings rest
    exact branch_holds progressive formed.1 (by omega) test
      (inner formed.2.1 (by omega) openings rest iterator) (rest iterator)
  | choice test holds leave fails after first second ih =>
    have bound := holds.start_le_stop
    have bound' := fails.start_le_stop
    have bound'' := after.start_le_stop
    intro openings rest iterator
    have rest := ih formed.2.2 inside openings rest
    refine branch_holds progressive (.inr rfl) (by omega) test
      (first formed.1.1 (by omega) openings (fun iterator => ?_) iterator) ?_
    · exact jump_holds progressive (by omega) leave (rest iterator)
    · exact second formed.2.1.1 (by omega) openings rest iterator
  | component opens closes after ih =>
    have bound := after.start_le_stop
    intro openings rest iterator
    refine room.starts progressive (.inr (.inr (.inr rfl))) (by omega) opens ?_
    exact quiet_holds progressive rfl (by omega) closes (ih formed inside openings rest iterator)

/-- A block from its start. -/
theorem Room.stands (room : Room scene holds outer) {there : Referents} {code : Shape}
    (stands : code.Stands scene.program.program there slice) (rest : HoldsAt holds outer openings) :
    HoldsAt holds (slice.course :: outer) openings := by
  have ordered := stands.start_lt_stop
  have between := stands.placed.start_le_stop
  refine quiet_holds progressive rfl ordered stands.reserve ?_
  refine room.placed progressive stands.placed stands.formed (Nat.sub_le _ _) openings
    (fun iterator => ?_) none
  refine quiet_holds progressive rfl (by omega) stands.release (progressive.pop ?_ rest)
  dsimp only
  omega

end Frame

/-! The whole program -/

/-- There are only so many frames to be pushed. -/
theorem room {scene : Scene} {holds : Machine → Prop} (progressive : Progressive scene holds)
    (built : scene.program.Built) (outer : List Course) : Room scene holds outer := by
  suffices general : ∀ (spare : Nat) (outer : List Course),
      scene.config.maxFrameDepth ≤ outer.length + 1 + spare → Room scene holds outer from
    general scene.config.maxFrameDepth outer (by omega)
  intro spare
  induction spare with
  | zero => exact fun outer full course handle block openings bound => absurd bound (by omega)
  | succ spare ih =>
    intro outer full course handle block openings bound found rest
    obtain ⟨code, view, -, stands⟩ := built.stands handle block found
    have deeper : Room scene holds (course :: outer) := ih _ (by rw [List.length_cons]; omega)
    exact deeper.stands progressive stands rest

end Running

end LiveTemplate
