import LiveTemplate.Program.Basic
import LiveTemplate.Program.Symbols
import LiveTemplate.Value.Basic

/-!
The constant pool: all that an operand refers to by its handle. Handles count from one, for each
kind of constant on its own, so that zero can stand for nothing. Blocks are registered before they
are compiled, which lets them refer to each other.
-/

namespace LiveTemplate

abbrev Handle := Nat

/-- How a value becomes a condition: once and for all, by its truthiness, or as the host says. -/
inductive TestKind where
  | const | simple | environment
  deriving Repr, DecidableEq, Inhabited

structure Pool where
  strings : Array String := #[]
  arrays : Array (List Nat) := #[]
  functions : Array TestKind := #[]
  values : Array Value := #[]
  slices : Array Slice := #[]
  deriving Repr, Inhabited

structure CompiledBlock where
  slice : Slice
  table : TableId
  params : List Symbol
  /-- How many locals its code uses. -/
  locals : Nat
  deriving Repr, DecidableEq, Inhabited

namespace Pool

/-- What a handle of some kind stands for. -/
def find {α : Type} (kind : String) (items : Array α) (handle : Handle) : Except Defect α :=
  if handle = 0 then .error (.absentHandle kind)
  else match items[handle - 1]? with
    | some item => .ok item
    | none => .error .outOfRange

def string (pool : Pool) (handle : Handle) : Except Defect String :=
  find "string" pool.strings handle

/-- The handle of a string that is in the pool, or else zero. -/
def stringHandle (pool : Pool) (content : String) : Handle :=
  match pool.strings.idxOf? content with
  | some position => position + 1
  | none => 0

def intern (pool : Pool) (content : String) : Handle × Pool :=
  match pool.strings.idxOf? content with
  | some position => (position + 1, pool)
  | none => (pool.strings.size + 1, { pool with strings := pool.strings.push content })

def array (pool : Pool) (handle : Handle) : Except Defect (List Nat) :=
  find "array" pool.arrays handle

def addArray (pool : Pool) (items : List Nat) : Handle × Pool :=
  (pool.arrays.size + 1, { pool with arrays := pool.arrays.push items })

def internAll (pool : Pool) : List String → List Handle × Pool
  | [] => ([], pool)
  | content :: rest =>
    let (handle, pool) := pool.intern content
    let (handles, pool) := pool.internAll rest
    (handle :: handles, pool)

def addStrings (pool : Pool) (contents : List String) : Handle × Pool :=
  let (handles, pool) := pool.internAll contents
  pool.addArray handles

/-- The strings of an array. No array holds none. -/
def stringArray (pool : Pool) (handle : Handle) : Except Defect (List String) := do
  if handle = 0 then return []
  (← pool.array handle).mapM pool.string

def function (pool : Pool) (handle : Handle) : Except Defect TestKind :=
  find "function" pool.functions handle

def addFunction (pool : Pool) (kind : TestKind) : Handle × Pool :=
  match pool.functions.idxOf? kind with
  | some position => (position + 1, pool)
  | none => (pool.functions.size + 1, { pool with functions := pool.functions.push kind })

def value (pool : Pool) (handle : Handle) : Except Defect Value :=
  find "value" pool.values handle

def addValue (pool : Pool) (value : Value) : Handle × Pool :=
  (pool.values.size + 1, { pool with values := pool.values.push value })

def slice (pool : Pool) (handle : Handle) : Except Defect Slice :=
  find "slice" pool.slices handle

def addSlice (pool : Pool) (slice : Slice) : Handle × Pool :=
  (pool.slices.size + 1, { pool with slices := pool.slices.push slice })

end Pool

/-- The blocks of a program. One without code is yet to be compiled. -/
structure BlockPool where
  blocks : Array (Option CompiledBlock) := #[]
  deriving Repr, DecidableEq, Inhabited

namespace BlockPool

def reserve (pool : BlockPool) : Handle × BlockPool :=
  (pool.blocks.size + 1, ⟨pool.blocks.push none⟩)

def complete (pool : BlockPool) (handle : Handle) (block : CompiledBlock) : BlockPool :=
  ⟨pool.blocks.setIfInBounds (handle - 1) (some block)⟩

def isCompiled (pool : BlockPool) (handle : Handle) : Except Defect Bool := do
  return (← Pool.find "block" pool.blocks handle).isSome

def block (pool : BlockPool) (handle : Handle) : Except Defect CompiledBlock := do
  match ← Pool.find "block" pool.blocks handle with
  | some block => return block
  | none => throw (.uncompiledBlock handle)

end BlockPool

end LiveTemplate
