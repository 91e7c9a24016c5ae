import LiveTemplate.Program.Pool

/-!
Programs while they are written. A jump or a range first goes in as a placeholder that names its
labels. When the innermost label scope ends, its placeholders become instructions with the last
positions that were given to their labels.
-/

namespace LiveTemplate

/-- How compiling ends without a program: the template is at fault, or the compiler. -/
inductive CompileFault where
  | rejected (error : CompileError)
  | broken (defect : Defect)
  deriving Repr, DecidableEq

/-- A position within one label scope. -/
abbrev Label := String

/-- A placeholder that waits for the positions of its labels. -/
inductive Pending where
  | jump (place : Nat) (op : Op) (target : Label)
  /-- An instruction about the positions from `start` up to `stop`. -/
  | range (place : Nat) (op : Op) (start stop : Label)
  deriving Repr, DecidableEq

structure LabelScope where
  /-- The latest position of a label comes first. -/
  positions : List (Label × Nat) := []
  pending : List Pending := []
  deriving Repr, DecidableEq, Inhabited

structure Draft where
  program : Program := {}
  pool : Pool := {}
  /-- The innermost one comes first. -/
  scopes : List LabelScope := []
  /-- How many locals are in use, and how many were at most. -/
  inUse : Nat := 0
  reserved : Nat := 0
  deriving Inhabited

abbrev Writing := EStateM CompileFault Draft

namespace Writing

def reject {α : Type} (error : CompileError) : Writing α := throw (.rejected error)

def broken {α : Type} (defect : Defect) : Writing α := throw (.broken defect)

def sound {α : Type} : Except Defect α → Writing α
  | .ok value => pure value
  | .error defect => broken defect

/-- Adds to the pool. -/
def pooled {α : Type} (add : Pool → α × Pool) : Writing α :=
  modifyGet fun draft =>
    let (handle, pool) := add draft.pool
    (handle, { draft with pool })

def string (content : String) : Writing Handle := pooled (Pool.intern · content)

def strings (contents : List String) : Writing Handle := pooled (Pool.addStrings · contents)

def array (items : List Nat) : Writing Handle := pooled (Pool.addArray · items)

/-- Where the next instruction goes. -/
def position : Writing Nat := return (← get).program.length

def push (instruction : Instruction) : Writing Nat := do
  let place ← position
  modify fun draft => { draft with program := draft.program.push instruction }
  return place

def emit (op : Op) (first second third : Nat := 0) : Writing Unit := do
  let _ ← push ⟨op, first, second, third⟩

def patch (place : Nat) (instruction : Instruction) : Writing Unit := do
  let program ← sound ((← get).program.patch place instruction)
  modify fun draft => { draft with program }

/-! Labels -/

def startLabels : Writing Unit :=
  modify fun draft => { draft with scopes := {} :: draft.scopes }

def modifyScope (change : LabelScope → LabelScope) : Writing Unit := do
  match (← get).scopes with
  | [] => broken .noLabelScope
  | scope :: outer => modify fun draft => { draft with scopes := change scope :: outer }

/-- Gives a label a position, in place of one it may have had. -/
def labelAt (name : Label) (place : Nat) : Writing Unit :=
  modifyScope fun scope => { scope with positions := (name, place) :: scope.positions }

/-- Gives a label the next position. -/
def label (name : Label) : Writing Unit := do
  labelAt name (← position)

def later (pending : Nat → Pending) : Writing Nat := do
  let place ← push .placeholder
  modifyScope fun scope => { scope with pending := scope.pending ++ [pending place] }
  return place

def jump (op : Op) (target : Label) : Writing Nat := later (.jump · op target)

def range (op : Op) (start stop : Label) : Writing Nat := later (.range · op start stop)

def resolve (scope : LabelScope) (name : Label) : Writing Nat :=
  match scope.positions.lookup name with
  | some place => pure place
  | none => reject (.undefinedLabel name)

/-- Fills in a placeholder. An operand has 32 bits, which positions and handles are taken to fit
into. -/
def settle (scope : LabelScope) : Pending → Writing Unit
  | .jump place op target => do
    let target ← resolve scope target
    patch place { op, first := target }
  | .range place op start stop => do
    let start ← resolve scope start
    let stop ← resolve scope stop
    let slice ← sound (Slice.make start stop)
    let handle ← pooled (Pool.addSlice · slice)
    patch place { op, first := handle }

/-- Ends the innermost label scope and fills in its placeholders. -/
def stopLabels : Writing Unit := do
  match (← get).scopes with
  | [] => broken .unbalancedLabels
  | scope :: outer =>
    modify fun draft => { draft with scopes := outer }
    scope.pending.forM (settle scope)

/-! Regions, loops and locals -/

/-- Code that is kept up to date on its own. Inside, `END` is where it is left. -/
def region (body : Writing Unit) : Writing Unit := do
  startLabels
  let _ ← range .enter "BEGIN" "END"
  label "BEGIN"
  body
  label "END"
  emit .exit
  stopLabels

/-- A region for each item that the iterator gives. -/
def loop (body : Writing Unit) : Writing Unit := do
  startLabels
  let _ ← range .enterList "BEGIN" "END"
  label "ITER"
  let _ ← jump .nextIter "BREAK"
  let _ ← range .enterWithKey "BEGIN" "END"
  label "BEGIN"
  body
  label "END"
  emit .exit
  let _ ← jump .jump "ITER"
  label "BREAK"
  emit .exitList
  stopLabels

/-- Code that has a local to itself. -/
def withLocal (body : Nat → Writing Unit) : Writing Unit := do
  let free := (← get).inUse
  modify fun draft =>
    { draft with inUse := free + 1, reserved := max draft.reserved (free + 1) }
  body free
  modify fun draft => { draft with inUse := free }

/-- The code of a block. It reserves its locals at its start and releases them at its end. -/
def codeOf (body : Writing Unit) : Writing (Slice × Nat) := do
  modify fun draft => { draft with scopes := [], inUse := 0, reserved := 0 }
  let start ← push .placeholder
  body
  let draft ← get
  unless draft.scopes.isEmpty do broken .unbalancedLabels
  patch start { op := .reserveLocals, first := draft.reserved }
  emit .releaseLocals
  return (⟨start, ← position⟩, draft.reserved)

end Writing

end LiveTemplate
