import LiveTemplate.Iteration.Artifacts

/-!
The state that reading a value may depend on or change: the clock, the cells, the lists that are
being iterated, and what the host keeps for itself.
-/

namespace LiveTemplate

/-- A value that is replaced over time, and the count of the clock when it last changed. -/
structure Cell where
  value : Value
  changed : Nat
  deriving Repr, Inhabited

/-- The number of an iterated list. -/
abbrev ListId := Nat

/-- What the host remembers. -/
structure HostState where
  /-- How many more operations are to fail. -/
  failures : Nat := 0
  ticks : Nat := 0
  /-- Newest first. -/
  log : List String := []
  /-- The cells of the components that count, with the names of their definitions, newest first. -/
  counters : List (String × CellId) := []
  deriving Repr, Inhabited

structure Store where
  clock : Nat := 1
  cells : Array Cell := #[]
  lists : Array Artifacts := #[]
  /-- The next storage to be given to a list or map. -/
  storage : Storage := 0
  host : HostState := {}
  deriving Repr, Inhabited

/-- A computation over the store that may fail. What it did before it failed stays done. -/
abbrev Reading := EStateM Fault Store

namespace Store

/-- The count at which a cell last changed. -/
def changed (store : Store) (id : CellId) : Nat :=
  match store.cells[id]? with
  | some cell => cell.changed
  | none => 0

def revisionOf (store : Store) (tag : Tag) : Revision := tag.revision store.changed

def validates (store : Store) (tag : Tag) (snapshot : Revision) : Bool :=
  tag.validates store.changed snapshot

end Store

namespace Reading

def fail {α : Type} (error : RenderError) : Reading α := throw (.failed error)

def broken {α : Type} (defect : Defect) : Reading α := throw (.broken defect)

def lift {α : Type} : Except RenderError α → Reading α
  | .ok value => pure value
  | .error error => fail error

/-- Turns a failure into an answer. Defects are not answers. -/
def attempt {α : Type} (reading : Reading α) : Reading (Except RenderError α) := fun store =>
  match reading store with
  | .ok value store => .ok (.ok value) store
  | .error (.failed error) store => .ok (.error error) store
  | .error (.broken defect) store => .error (.broken defect) store

def revisionOf (tag : Tag) : Reading Revision := return (← get).revisionOf tag

def validates (tag : Tag) (snapshot : Revision) : Reading Bool :=
  return (← get).validates tag snapshot

/-- The current count of the clock. -/
def now : Reading Revision := return .tick (← get).clock

def newCell (value : Value) : Reading CellId := do
  let store ← get
  set { store with cells := store.cells.push ⟨value, store.clock⟩ }
  return store.cells.size

def readCell (id : CellId) : Reading Value := do
  match (← get).cells[id]? with
  | some cell => return cell.value
  | none => broken .outOfRange

/-- Puts `value` into a cell and marks it as changed. -/
def replaceCell (id : CellId) (value : Value) : Reading Unit :=
  modify fun store =>
    let clock := store.clock + 1
    { store with clock, cells := store.cells.setIfInBounds id ⟨value, clock⟩ }

/-- Replaces the value of a cell. An equal value leaves the cell as it is. -/
def updateCell (id : CellId) (value : Value) : Reading Bool := do
  let old ← readCell id
  if old == value then return false
  else
    replaceCell id value
    return true

def newStorage : Reading Storage :=
  modifyGet fun store => (store.storage, { store with storage := store.storage + 1 })

def newList (items : List Value) : Reading Value :=
  return .list (← newStorage) items

/-- A new map; the last of several values for one key counts. -/
def newMap (entries : List (String × Value)) : Reading Value :=
  return .map (← newStorage) (Entries.ofPairs entries)

def modifyHost (change : HostState → HostState) : Reading Unit :=
  modify fun store => { store with host := change store.host }

def log (line : String) : Reading Unit :=
  modifyHost fun host => { host with log := line :: host.log }

def artifacts (id : ListId) : Reading Artifacts := do
  match (← get).lists[id]? with
  | some artifacts => return artifacts
  | none => broken .outOfRange

def setArtifacts (id : ListId) (artifacts : Artifacts) : Reading Unit :=
  modify fun store => { store with lists := store.lists.setIfInBounds id artifacts }

def newArtifacts : Reading ListId := do
  let store ← get
  set { store with lists := store.lists.push {} }
  return store.lists.size

end Reading

end LiveTemplate
