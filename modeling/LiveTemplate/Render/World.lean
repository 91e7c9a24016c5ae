import LiveTemplate.Compile.Program
import LiveTemplate.Config.Basic
import LiveTemplate.Dom.Extent
import LiveTemplate.Render.Transaction

/-!
All that a render works on, and what stays the same throughout: the host, the program and the
configuration.
-/

namespace LiveTemplate

structure Scene where
  host : Host
  program : CompiledProgram
  config : Config := {}
  deriving Inhabited

def Scene.helpers (scene : Scene) : Helpers := scene.host.helpers

/-- Counted over the whole life of a rendered page. -/
structure Stats where
  framePushes : Nat := 0
  framePops : Nat := 0
  instructions : Nat := 0
  deriving Repr, DecidableEq, Inhabited

structure World where
  page : Page := {}
  extents : Extents := {}
  scopes : Scopes := {}
  transaction : Option Transaction := none
  stats : Stats := {}
  /-- How many components and modifiers were created. -/
  instances : Nat := 0
  deriving Inhabited

abbrev Render := EStateM Fault World

namespace Render

def fail {α : Type} (error : RenderError) : Render α := throw (.failed error)

instance {σ : Type} : MonadLift (Except Defect) (EStateM Fault σ) where
  monadLift
    | .ok value => pure value
    | .error defect => throw (.broken defect)

def onPage {α : Type} (action : EStateM Fault Page α) : Render α := fun world =>
  match action world.page with
  | .ok value page => .ok value { world with page }
  | .error fault page => .error fault { world with page }

instance : MonadLift (EStateM Fault Page) (EStateM Fault World) := ⟨onPage⟩

instance : MonadLift (EStateM Fault Store) (EStateM Fault Page) := ⟨Page.reading⟩

/-- Calls a hook, which cannot fail. -/
def hook (action : StateM Page Unit) : Render Unit :=
  modify fun world => { world with page := (action.run world.page).2 }

def createNode (data : NodeData) : Render NodeId :=
  modifyGet fun world =>
    let (id, dom) := world.page.dom.create data
    (id, { world with page := { world.page with dom } })

def dom : Render Dom := return (← get).page.dom

def setDom (dom : Dom) : Render Unit :=
  modify fun world => { world with page := { world.page with dom } }

def extents : Render Extents := return (← get).extents

def setExtents (extents : Extents) : Render Unit := modify fun world => { world with extents }

def newBlock (parent : NodeId) : Render ExtentId :=
  modifyGet fun world =>
    let (id, extents) := world.extents.newBlock parent
    (id, { world with extents })

def newList (parent : NodeId) : Render ExtentId :=
  modifyGet fun world =>
    let (id, extents) := world.extents.newList parent
    (id, { world with extents })

/-- Detaches the nodes of an extent. -/
def clear (id : ExtentId) : Render Unit := do
  match (← extents).ends? id with
  | none => return
  | some (first, last) =>
    let (dom, _) ← (← dom).clear (← (← extents).parent id) first last
    setDom dom

def setScopes (scopes : Scopes) : Render Unit := modify fun world => { world with scopes }

def newScope (size : Nat) (this : Reference) : Render ScopeId :=
  modifyGet fun world =>
    let (id, scopes) := world.scopes.root size this
    (id, { world with scopes })

def release (scope : ScopeId) : Render Unit :=
  modify fun world => { world with scopes := world.scopes.release scope }

/-- A number for a new component or modifier. -/
def newInstance : Render Nat :=
  modifyGet fun world => (world.instances, { world with instances := world.instances + 1 })

/-! Transactions -/

def begin : Render Unit := do
  if (← get).transaction.isSome then fail .transactionInProgress
  modify fun world => { world with transaction := some {} }

/-- Queues a hook. -/
def queue (change : Transaction → Transaction) : Render Unit := do
  match (← get).transaction with
  | some transaction => modify fun world => { world with transaction := some (change transaction) }
  | none => fail .noTransaction

def savepoint : Render Savepoint := do
  match (← get).transaction with
  | some transaction => return transaction.savepoint
  | none => fail .noTransaction

def rollbackTo (savepoint : Savepoint) : Render Unit :=
  modify fun world =>
    { world with transaction := world.transaction.map (Transaction.rollbackTo · savepoint) }

/-- Closes the transaction and runs what it queued. -/
def commit (hooks : Hooks) : Render Unit := do
  match (← get).transaction with
  | none => fail .noTransaction
  | some transaction =>
    modify fun world => { world with transaction := none }
    hook (transaction.run hooks)

/-- Closes the transaction and runs nothing. -/
def rollback : Render Unit := modify fun world => { world with transaction := none }

end Render

end LiveTemplate
