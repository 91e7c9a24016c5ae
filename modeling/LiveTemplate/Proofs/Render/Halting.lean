import LiveTemplate.Proofs.Render.Traversal

/-!
Every run ends: that there are only so many rounds left holds of a machine as soon as it holds after
the next round.
-/

namespace LiveTemplate

open Effects

namespace Running

variable (scene : Scene)

/-- From this machine on there are only so many rounds. -/
inductive Halts : Machine → Prop
  | intro {machine : Machine} :
    (∀ after, turn scene machine = .ok true after → Halts after) → Halts machine

/-- From wherever the frames run so, there are only so many rounds. -/
def HaltsAt (courses : List Course) : Prop :=
  ∀ machine : Machine, machine.courses = courses → Halts scene machine

variable {scene} {machine : Machine}

theorem halts_progressive : Progressive scene (Halts scene) :=
  fun _ _ rest => .intro rest

theorem halts_nil {openings : List Builder} : HoldsAt (Halts scene) [] openings := by
  intro machine here
  refine .intro fun after more => ?_
  have none : machine.frames = [] := List.map_eq_nil_iff.mp here.courses
  obtain ⟨seen, between, got, more⟩ := bind_ok.mp more
  obtain ⟨rfl, rfl⟩ := get_ok.mp got
  rw [none] at more
  cases more

theorem Halts.over (halts : Halts scene machine) :
    ∃ count, ∀ after, rounds scene count machine ≠ .ok true after := by
  induction halts with
  | @intro machine _ ih =>
    cases ended : turn scene machine with
    | error fault between =>
      refine ⟨1, fun after more => ?_⟩
      rw [rounds, bind_of_error ended] at more
      cases more
    | ok more between =>
      cases more with
      | false =>
        refine ⟨1, fun after more => ?_⟩
        rw [rounds, bind_of_ok ended] at more
        cases more
      | true =>
        obtain ⟨count, stops⟩ := ih between ended
        refine ⟨count + 1, fun after more => stops after ?_⟩
        rwa [rounds, bind_of_ok ended] at more

/-- A run that is over stays as it is, however many rounds are left. -/
theorem rounds_over {count limit : Nat} (stops : ∀ after, rounds scene count machine ≠ .ok true after)
    (enough : count ≤ limit) : rounds scene limit machine = rounds scene count machine := by
  induction count generalizing machine limit with
  | zero => exact absurd rfl (stops machine)
  | succ count ih =>
    obtain ⟨limit, rfl⟩ : ∃ fewer, limit = fewer + 1 := ⟨limit - 1, by omega⟩
    rw [rounds, rounds]
    cases ended : turn scene machine with
    | error fault between => rw [bind_of_error ended, bind_of_error ended]
    | ok more between =>
      rw [bind_of_ok ended, bind_of_ok ended]
      cases more with
      | false => rfl
      | true =>
        refine ih (fun after more => stops after ?_) (by omega)
        rwa [rounds, bind_of_ok ended]

end Running

/-- What may be run: a block of the program, or the slice of a region, a list or an item. -/
def CompiledProgram.Runs (compiled : CompiledProgram) (slice : Slice) : Prop :=
  (∃ handle block, compiled.blocks.block handle = .ok block ∧ block.slice = slice) ∨
    ∃ position instruction, compiled.program.fetch position = .ok instruction ∧
      instruction.op.opensSlice = true ∧ compiled.pool.slice instruction.first = .ok slice

namespace CompiledProgram.Built

variable {scene : Scene} {slice : Slice}

theorem halts (built : scene.program.Built) (runs : scene.program.Runs slice) :
    Running.HaltsAt scene [slice.course] := by
  intro machine here
  have progressive : Running.Progressive scene _ := Running.halts_progressive
  have room := Running.room progressive built []
  suffices start : Running.HoldsAt (Running.Halts scene) [slice.course] machine.openings from
    start machine ⟨here, rfl⟩
  rcases runs with ⟨handle, block, found, rfl⟩ | ⟨position, instruction, fetched, opens, found⟩
  · obtain ⟨code, view, -, stands⟩ := built.stands handle block found
    exact room.stands progressive stands Running.halts_nil
  · obtain ⟨code, formed, placed⟩ := built.opens fetched opens found
    exact room.placed progressive placed formed (Nat.le_refl _) _
      (fun iterator => progressive.pop (Nat.le_refl _) Running.halts_nil) none

end CompiledProgram.Built

/-- Every run ends. Whatever slice of a compiled program a machine is at the start of, and whatever
it holds otherwise, there are only so many rounds, and more steps than these change nothing. It may
end well, with an error, or with a broken rule: see `closing_root_breaks`. -/
theorem compile_halts {resolver : Resolver} {templates : List Template} {compiled : CompiledProgram}
    (ended : compile resolver templates = .ok compiled) {scene : Scene}
    (program : scene.program = compiled) {slice : Slice} (runs : compiled.Runs slice)
    {machine : Machine} {frame : Frame} (single : machine.frames = [frame])
    (start : frame.course = slice.course) :
    ∃ count, (∀ after, Running.rounds scene count machine ≠ .ok true after) ∧
      ∀ limit, count ≤ limit → Running.run scene limit machine = Running.run scene count machine := by
  subst program
  have courses : machine.courses = [slice.course] := by
    rw [Machine.courses, single, List.map_singleton, start]
  obtain ⟨count, stops⟩ := ((compile_built ended).1.halts runs machine courses).over
  refine ⟨count, stops, fun limit enough => ?_⟩
  have same := Running.rounds_over stops enough
  rw [Running.run_eq_rounds, Running.run_eq_rounds]
  cases outcome : Running.rounds scene count machine with
  | error fault after => rw [bind_of_error outcome, bind_of_error (same.trans outcome)]
  | ok more after => rw [bind_of_ok outcome, bind_of_ok (same.trans outcome)]

/-- The page that shows each item of a list. -/
theorem compile_halts_list :
    ∃ compiled block, compile plainResolver [listTemplate] = .ok compiled ∧
      compiled.blocks.block 1 = .ok block ∧
      ∃ count, (∀ after, Running.rounds { host := {}, program := compiled } count
          (.opening {} { scope := 0 } block.slice 0 none) ≠ .ok true after) ∧
        ∀ limit, count ≤ limit →
          Running.run { host := {}, program := compiled } limit
              (.opening {} { scope := 0 } block.slice 0 none) =
            Running.run { host := {}, program := compiled } count
              (.opening {} { scope := 0 } block.slice 0 none) := by
  have succeeds : (match compile plainResolver [listTemplate] with
    | .ok compiled => (compiled.blocks.block 1).toBool
    | .error _ => false) = true := by decide +kernel
  generalize outcome : compile plainResolver [listTemplate] = result at succeeds
  cases result with
  | error fault => cases succeeds
  | ok compiled =>
    dsimp only at succeeds
    cases found : compiled.blocks.block 1 with
    | error defect =>
      rw [found] at succeeds
      cases succeeds
    | ok block =>
      let scene : Scene := { host := {}, program := compiled }
      let machine : Machine := .opening {} { scope := 0 } block.slice 0 none
      have program : scene.program = compiled := rfl
      have runs : compiled.Runs block.slice := .inl ⟨1, block, found, rfl⟩
      let frame : Frame := {
        next := block.slice.start
        slice := block.slice
        scope := 0
        ambient := [[]] }
      have single : machine.frames = [frame] := rfl
      exact ⟨compiled, block, rfl, found, compile_halts outcome program runs single rfl⟩

/-- Closes an element where none was opened. -/
def strayTemplate : Template where
  block := .of [.closeElement] []
  prelude := none
  named := []
  yields := []
  hasPartials := false
  blocks := []
  description := .null

/-- Whether a run ended by closing the root. -/
def closesRoot : EStateM.Result Fault Machine Unit → Bool
  | .ok _ _ => false
  | .error fault _ => fault == .broken .closedRootElement

theorem of_closesRoot {outcome : EStateM.Result Fault Machine Unit}
    (closes : closesRoot outcome = true) :
    ∃ after, outcome = .error (.broken .closedRootElement) after := by
  cases outcome with
  | ok _ after => cases closes
  | error fault after => exact ⟨after, by rw [beq_iff_eq.mp closes]⟩

/-- A template may be compiled though it closes more elements than it opens. Its run ends with
neither success nor an error: the rule that the root is not closed is broken. -/
theorem closing_root_breaks :
    ∃ compiled block after, compile plainResolver [strayTemplate] = .ok compiled ∧
      compiled.blocks.block 1 = .ok block ∧
      Running.run { host := {}, program := compiled } 9
          (.opening {} { scope := 0 } block.slice 0 none) =
        .error (.broken .closedRootElement) after := by
  have breaks : ((compile plainResolver [strayTemplate]).toOption.any fun compiled =>
      (compiled.blocks.block 1).toOption.any fun block =>
        closesRoot (Running.run { host := {}, program := compiled } 9
          (.opening {} { scope := 0 } block.slice 0 none))) = true := by decide +kernel
  generalize outcome : compile plainResolver [strayTemplate] = result at breaks
  cases result with
  | error fault => cases breaks
  | ok compiled =>
    change (compiled.blocks.block 1).toOption.any _ = true at breaks
    cases found : compiled.blocks.block 1 with
    | error defect =>
      rw [found] at breaks
      cases breaks
    | ok block =>
      rw [found] at breaks
      obtain ⟨after, ended⟩ := of_closesRoot breaks
      exact ⟨compiled, block, after, rfl, found, ended⟩

end LiveTemplate
