import LiveTemplate.Proofs.Meaning.Expressions

/-!
Code that is sure to be carried out. `Running.Steps` says that a run gets from one machine to
another by so many rounds, whatever follows. `Stage.Carries` says of a piece of the code generator
that a run gets past the instructions it writes, one round for each of them, with other operands on
the stack.
-/

namespace LiveTemplate

open Effects Running

/-- After so many more instructions. -/
def Stats.counting (stats : Stats) (count : Nat) : Stats :=
  { stats with instructions := stats.instructions + count }

theorem Stats.counting_counting (stats : Stats) (first second : Nat) :
    (stats.counting first).counting second = stats.counting (first + second) := by
  simp only [Stats.counting, Nat.add_assoc]

namespace Running

variable {scene : Scene} {machine between later : Machine} {first second : Nat}

/-- So many rounds of a run lead from one machine to the other, however many may follow. -/
def Steps (scene : Scene) (count : Nat) (machine later : Machine) : Prop :=
  ∀ limit, run scene (limit + count) machine = run scene limit later

theorem Steps.refl (machine : Machine) : Steps scene 0 machine machine := fun _ => rfl

theorem Steps.trans (early : Steps scene first machine between)
    (late : Steps scene second between later) : Steps scene (first + second) machine later := by
  intro limit
  calc run scene (limit + (first + second)) machine
    _ = run scene (limit + second + first) machine := by
      rw [Nat.add_comm first second, ← Nat.add_assoc]
    _ = run scene (limit + second) between := early (limit + second)
    _ = run scene limit later := late limit

end Running

namespace Stage

variable {stage : Stage} {place : Nat} {operands : List Operand} {stats : Stats}

/-- An instruction that succeeds is one round. -/
theorem step_steps {instruction : Instruction} {after : Machine}
    (inside : place < stage.frame.slice.stop)
    (here : stage.scene.program.program.instructions[place]? = some instruction)
    (stepped : Running.step stage.scene instruction
      (stage.machineAt (place + 1) operands (stats.counting 1)) = .ok () after) :
    Steps stage.scene 1 (stage.machineAt place operands stats) after := by
  intro limit
  have fetched := CompiledProgram.fetch_ok.mpr here
  have turned : Running.turn stage.scene (stage.machineAt place operands stats) =
      .ok true after := by
    refine (bind_of_ok rfl).trans ?_
    dsimp only [machineAt, Machine.having, Frame.go]
    rw [if_neg (Nat.not_le_of_gt inside), fetched]
    exact bind_of_ok stepped
  rw [run_succ, bind_of_ok turned]
  rfl

/-- What the code writes is carried out without fail. It takes operands from the stack and puts
others there, and nothing else changes but what counts the instructions. -/
def Carries (stage : Stage) (before : Draft) (action : Writing Unit) (taken given : List Operand) :
    Prop :=
  ∀ after, action before = .ok () after →
    before.Grows after ∧
      (after.Within stage.scene.program → after.program.length ≤ stage.frame.slice.stop →
        ∀ operands stats, Steps stage.scene (after.program.length - before.program.length)
          (stage.machineAt before.program.length (taken ++ operands) stats)
          (stage.machineAt after.program.length (given ++ operands)
            (stats.counting (after.program.length - before.program.length))))

namespace Carries

variable {before : Draft} {taken between given : List Operand}

theorem pure : stage.Carries before (Pure.pure ()) taken taken := by
  intro after ended
  obtain ⟨-, rfl⟩ := pure_ok.mp ended
  refine ⟨.refl _, fun _ _ operands stats => ?_⟩
  rw [Nat.sub_self]
  exact Steps.refl _

theorem reject {error : CompileError} : stage.Carries before (Writing.reject error) taken given :=
  fun _ ended => absurd ended throw_ok

theorem refused {error : CompileError} {next : Unit → Writing Unit} :
    stage.Carries before (Writing.reject error >>= next) taken given := by
  intro after ended
  obtain ⟨_, _, rejected, -⟩ := bind_ok.mp ended
  exact absurd rejected throw_ok

theorem seq {first next : Writing Unit} (early : stage.Carries before first taken between)
    (late : ∀ middle, before.Grows middle → stage.Carries middle next between given) :
    stage.Carries before (first >>= fun _ => next) taken given := by
  intro after ended
  obtain ⟨_, middle, one, two⟩ := bind_ok.mp ended
  obtain ⟨grows, carries⟩ := early middle one
  obtain ⟨further, carriesToo⟩ := late middle grows after two
  refine ⟨grows.trans further, fun within bound operands stats => ?_⟩
  have count : after.program.length - before.program.length =
      (middle.program.length - before.program.length) +
        (after.program.length - middle.program.length) := by
    have first := grows.length
    have second := further.length
    omega
  rw [count, ← Stats.counting_counting]
  apply (carries (within.of_grows further) (Nat.le_trans further.length bound) operands stats).trans
  exact carriesToo within bound operands _

/-- What lies further down stays where it is. -/
theorem frame {action : Writing Unit} (carries : stage.Carries before action taken given)
    (below : List Operand) : stage.Carries before action (taken ++ below) (given ++ below) := by
  intro after ended
  obtain ⟨grows, moves⟩ := carries after ended
  refine ⟨grows, fun within bound operands stats => ?_⟩
  rw [List.append_assoc, List.append_assoc]
  exact moves within bound _ stats

/-- Constants are added on the way. -/
theorem pooled {α : Type} {add : Pool → α × Pool} {next : α → Writing Unit}
    (grows : ∀ pool : Pool, pool.Grows (add pool).2)
    (late : ∀ value middle, before.Grows middle → add before.pool = (value, middle.pool) →
      stage.Carries middle (next value) taken given) :
    stage.Carries before (Writing.pooled add >>= next) taken given := by
  intro after ended
  obtain ⟨value, middle, one, two⟩ := bind_ok.mp ended
  obtain ⟨added, -, program, result⟩ := Writing.pooled_there one grows
  obtain ⟨further, carries⟩ := late value middle added result after two
  refine ⟨added.trans further, ?_⟩
  rwa [program] at carries

theorem string {content : String} {next : Handle → Writing Unit}
    (late : ∀ handle middle, before.Grows middle → middle.pool.string handle = .ok content →
      stage.Carries middle (next handle) taken given) :
    stage.Carries before (Writing.string content >>= next) taken given := by
  apply pooled (fun pool => pool.intern_grows content)
  intro handle middle grows added
  apply late handle middle grows
  have there := before.pool.intern_string content
  rwa [added] at there

/-- One instruction. -/
theorem emit {op : Op} {first second third : Nat} (real : op ≠ .noop)
    (steps : before.Within stage.scene.program → ∀ place operands stats,
      Running.step stage.scene ⟨op, first, second, third⟩
        (stage.machineAt place (taken ++ operands) stats) =
          .ok () (stage.machineAt place (given ++ operands) stats)) :
    stage.Carries before (Writing.emit op first second third) taken given := by
  intro after ended
  obtain ⟨grows, -, length, -, -, here⟩ := Writing.emit_ok ended
  refine ⟨grows, fun within bound operands stats => ?_⟩
  rw [length, Nat.add_sub_cancel_left]
  apply step_steps (by omega) (within.program _ _ here real)
  exact steps (within.of_grows grows) _ _ _

end Carries

end Stage

end LiveTemplate
