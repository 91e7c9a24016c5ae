import LiveTemplate.Proofs.Render.Halting

/-!
Runs that come to their end, read from the front. Each instruction of such a run was carried out,
and what follows it comes to the same end.
-/

namespace LiveTemplate

open Effects

/-- The frame, about to carry out the instruction at `next`. -/
def Frame.go (frame : Frame) (next : Nat) : Frame := { frame with next }

/-- The machine with other frames and operands, after so much work. -/
def Machine.having (machine : Machine) (frames : List Frame) (operands : List Operand)
    (stats : Stats) : Machine :=
  { machine with frames, operands, world := { machine.world with stats } }

namespace Running

variable {scene : Scene} {machine last : Machine} {frame : Frame} {outer : List Frame}
  {operands : List Operand} {stats : Stats}

/-- A run from here on comes to its end with `last`. -/
def Ends (scene : Scene) (machine last : Machine) : Prop :=
  ∃ limit, run scene limit machine = .ok () last

theorem Ends.turn (ends : Ends scene machine last) :
    ∃ more after, turn scene machine = .ok more after ∧
      if more then Ends scene after last else after = last := by
  obtain ⟨limit, ran⟩ := ends
  cases limit with
  | zero => exact absurd ran throw_ok
  | succ limit =>
    rw [run_succ] at ran
    obtain ⟨more, after, turned, rest⟩ := bind_ok.mp ran
    refine ⟨more, after, turned, ?_⟩
    cases more with
    | false => exact (pure_ok.mp rest).2
    | true => exact ⟨limit, rest⟩

theorem Ends.over (ends : Ends scene machine last) (none : machine.frames = []) :
    machine = last := by
  obtain ⟨more, after, turned, rest⟩ := ends.turn
  obtain ⟨asked, between, got, turned⟩ := bind_ok.mp turned
  obtain ⟨rfl, rfl⟩ := get_ok.mp got
  rw [none] at turned
  obtain ⟨rfl, rfl⟩ := pure_ok.mp turned
  exact rest

/-- A frame that has come to its end goes away. -/
theorem Ends.pop (ends : Ends scene (machine.having (frame :: outer) operands stats) last)
    (past : frame.slice.stop ≤ frame.next) :
    ∃ stats, Ends scene (machine.having outer operands stats) last := by
  obtain ⟨more, after, turned, rest⟩ := ends.turn
  obtain ⟨asked, between, got, turned⟩ := bind_ok.mp turned
  obtain ⟨rfl, rfl⟩ := get_ok.mp got
  dsimp only [Machine.having] at turned
  rw [if_pos past] at turned
  obtain ⟨_, popped, ended, turned⟩ := bind_ok.mp turned
  obtain ⟨rfl, rfl⟩ := pure_ok.mp turned
  cases ended
  exact ⟨_, rest⟩

/-! Through other machines -/

/-- The run from `machine` to its end comes through `later`. -/
structure Passes (scene : Scene) (machine last later : Machine) : Prop where
  reaches : ∃ count, rounds scene count machine = .ok true later
  ends : Ends scene later last

namespace Passes

variable {middle later : Machine}

theorem refl (ends : Ends scene machine last) : Passes scene machine last machine :=
  ⟨⟨0, rfl⟩, ends⟩

theorem turn (turned : Running.turn scene machine = .ok true middle)
    (passes : Passes scene middle last later) : Passes scene machine last later := by
  obtain ⟨⟨count, reaches⟩, ends⟩ := passes
  exact ⟨⟨count + 1, (bind_of_ok turned).trans reaches⟩, ends⟩

theorem trans (early : Passes scene machine last middle) (late : Passes scene middle last later) :
    Passes scene machine last later := by
  obtain ⟨⟨count, reaches⟩, -⟩ := early
  induction count generalizing machine with
  | zero =>
    obtain ⟨-, rfl⟩ := pure_ok.mp reaches
    exact late
  | succ count ih =>
    rw [rounds] at reaches
    obtain ⟨more, after, turned, rest⟩ := bind_ok.mp reaches
    cases more with
    | false => cases (pure_ok.mp rest).1
    | true => exact .turn turned (ih rest)

end Passes

/-- The next instruction was carried out. -/
theorem Ends.carry {instruction : Instruction} (ends : Ends scene machine last)
    (running : machine.frames = frame :: outer) (inside : frame.next < frame.slice.stop)
    (here : scene.program.program.instructions[frame.next]? = some instruction) :
    ∃ stats after, Running.step scene instruction
        (machine.having (frame.go (frame.next + 1) :: outer) machine.operands stats) =
          .ok () after ∧
      Passes scene machine last after := by
  obtain ⟨more, after, whole, rest⟩ := ends.turn
  obtain ⟨asked, between, got, turned⟩ := bind_ok.mp whole
  obtain ⟨rfl, rfl⟩ := get_ok.mp got
  rw [running] at turned
  dsimp only at turned
  rw [if_neg (Nat.not_le_of_gt inside)] at turned
  obtain ⟨found, between, fetched, turned⟩ := bind_ok.mp turned
  rw [CompiledProgram.fetch_ok.mpr here] at fetched
  obtain ⟨rfl, rfl⟩ := pure_ok.mp fetched
  obtain ⟨_, advanced, advance, turned⟩ := bind_ok.mp turned
  obtain ⟨_, before, counted, turned⟩ := bind_ok.mp turned
  obtain ⟨_, final, stepped, turned⟩ := bind_ok.mp turned
  obtain ⟨rfl, rfl⟩ := pure_ok.mp turned
  obtain ⟨_, _, shape, rfl⟩ := modifyFrame_ok.mp advance
  cases running.symm.trans shape
  cases counted
  exact ⟨_, final, stepped, .turn whole (.refl rest)⟩

/-- The next instruction was carried out, wherever the frame runs. -/
theorem Ends.carryAt {place : Nat} {slice : Slice} {iterator : Option FirstPass}
    {courses : List Course} {instruction : Instruction} (ends : Ends scene machine last)
    (here : machine.courses = ⟨place, slice, iterator⟩ :: courses) (inside : place < slice.stop)
    (there : scene.program.program.instructions[place]? = some instruction) :
    ∃ before after, before.courses = ⟨place + 1, slice, iterator⟩ :: courses ∧
      before.builders = machine.builders ∧ before.store = machine.store ∧
      Running.step scene instruction before = .ok () after ∧ Passes scene machine last after := by
  obtain ⟨frame, frames, running, same, rfl⟩ := List.map_eq_cons_iff.mp here
  cases same
  obtain ⟨stats, after, stepped, passes⟩ := ends.carry running inside there
  refine ⟨_, after, ?_, ?_, ?_, stepped, passes⟩ <;> rfl

theorem Ends.step {place : Nat} {instruction : Instruction}
    (ends : Ends scene (machine.having (frame.go place :: outer) operands stats) last)
    (inside : place < frame.slice.stop)
    (here : scene.program.program.instructions[place]? = some instruction) :
    ∃ stats after, Running.step scene instruction
        (machine.having (frame.go (place + 1) :: outer) operands stats) = .ok () after ∧
      Ends scene after last := by
  obtain ⟨stats, after, stepped, passes⟩ := ends.carry rfl inside here
  exact ⟨stats, after, stepped, passes.ends⟩

/-- As long as there are frames, there is another round. -/
theorem more_of_turn {more : Bool} {after : Machine} (some : machine.frames ≠ [])
    (turned : Running.turn scene machine = .ok more after) : more = true := by
  obtain ⟨asked, between, got, turned⟩ := bind_ok.mp turned
  obtain ⟨rfl, rfl⟩ := get_ok.mp got
  cases shape : machine.frames with
  | nil => exact absurd shape some
  | cons frame outer =>
    rw [shape] at turned
    dsimp only at turned
    split at turned
    · obtain ⟨_, _, -, turned⟩ := bind_ok.mp turned
      exact (pure_ok.mp turned).1.symm
    · obtain ⟨_, _, -, turned⟩ := bind_ok.mp turned
      obtain ⟨_, _, -, turned⟩ := bind_ok.mp turned
      obtain ⟨_, _, -, turned⟩ := bind_ok.mp turned
      obtain ⟨_, _, -, turned⟩ := bind_ok.mp turned
      exact (pure_ok.mp turned).1.symm

/-- A run that comes to its end does so through such a machine. -/
def Comes (scene : Scene) (goal : Machine → Prop) (machine : Machine) : Prop :=
  ∀ last, Ends scene machine last → ∃ later, Passes scene machine last later ∧ goal later

theorem comes_progressive (goal : Machine → Prop) : Progressive scene (Comes scene goal) := by
  intro machine some rest last ends
  obtain ⟨more, after, turned, follows⟩ := ends.turn
  obtain rfl := more_of_turn some turned
  obtain ⟨later, passes, reached⟩ := rest after turned last follows
  exact ⟨later, .turn turned passes, reached⟩

theorem comes_here {goal : Machine → Prop} {courses : List Course} {openings : List Builder}
    (reached : ∀ machine : Machine, machine.At courses openings → goal machine) :
    HoldsAt (Comes scene goal) courses openings :=
  fun machine here _ ends => ⟨machine, .refl ends, reached machine here⟩

end Running

end LiveTemplate
