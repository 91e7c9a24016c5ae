import LiveTemplate.Program.Instruction

/-!
Programs: sequences of instructions that only grow, except that a placeholder is filled in once.
-/

namespace LiveTemplate

/-- The positions from `start` up to but not including `stop`. -/
structure Slice where
  start : Nat
  stop : Nat
  deriving Repr, DecidableEq, Inhabited

namespace Slice

def make (start stop : Nat) : Except Defect Slice :=
  if start ≤ stop then .ok ⟨start, stop⟩ else .error .outOfRange

def length (slice : Slice) : Nat := slice.stop - slice.start

def isEmpty (slice : Slice) : Bool := slice.start = slice.stop

def contains (slice : Slice) (position : Nat) : Bool :=
  slice.start ≤ position && position < slice.stop

end Slice

structure Program where
  instructions : Array Instruction := #[]
  deriving Repr, DecidableEq, Inhabited

namespace Program

def length (program : Program) : Nat := program.instructions.size

def push (program : Program) (instruction : Instruction) : Program :=
  ⟨program.instructions.push instruction⟩

def fetch (program : Program) (position : Nat) : Except Defect Instruction :=
  match program.instructions[position]? with
  | some instruction => .ok instruction
  | none => .error .outOfRange

/-- Fills in the placeholder at `position`. -/
def patch (program : Program) (position : Nat) (instruction : Instruction) :
    Except Defect Program := do
  let old ← program.fetch position
  if old.op = .noop then
    return ⟨program.instructions.setIfInBounds position instruction⟩
  else
    throw (.patchedTwice position)

/-- The instructions of a slice. -/
def slice (program : Program) (slice : Slice) : Except Defect (List Instruction) :=
  if slice.start ≤ slice.stop ∧ slice.stop ≤ program.length then
    .ok ((program.instructions.toList.drop slice.start).take slice.length)
  else .error .outOfRange

def fourDigits (n : Nat) : String :=
  let digits := toString n
  String.ofList (List.replicate (4 - digits.length) '0') ++ digits

def line (position : Nat) (instruction : Instruction) : String :=
  s!"{fourDigits position}: {instruction.op.name} {instruction.first} {instruction.second} " ++
    s!"{instruction.third}\n"

/-- One line for each instruction: its position, operation and operands. -/
def listing (program : Program) : String :=
  String.join (program.instructions.toList.mapIdx line)

end Program

end LiveTemplate
