import LiveTemplate.Render.Host

/-!
Transactions. While a page is rendered, the hooks that its components and modifiers are to get are
only queued. They run when the transaction is committed, and never if it is rolled back.
-/

namespace LiveTemplate

/-- What is told when the region that owns it goes away. -/
inductive Owned where
  | component (component : Component)
  | modifier (modifier : Modifier)
  deriving Inhabited

/-- Queued hooks, each queue in its order. -/
structure Transaction where
  created : List Component := []
  updated : List Component := []
  installs : List Modifier := []
  updates : List Modifier := []
  destructors : List Owned := []
  deriving Inhabited

/-- How long the queues were at some point. -/
structure Savepoint where
  created : Nat
  updated : Nat
  installs : Nat
  updates : Nat
  destructors : Nat
  deriving Repr, DecidableEq, Inhabited

/-- Finds the hooks of components and modifiers by their names. -/
structure Hooks where
  component : String → ComponentManager
  modifier : String → ModifierManager

def Registry.hooks (registry : Registry) : Hooks where
  component name := (registry.component? name).getD .basic
  modifier name := (registry.modifier? name).getD {}

namespace Transaction

def savepoint (transaction : Transaction) : Savepoint where
  created := transaction.created.length
  updated := transaction.updated.length
  installs := transaction.installs.length
  updates := transaction.updates.length
  destructors := transaction.destructors.length

/-- Forgets what was queued since. -/
def rollbackTo (transaction : Transaction) (savepoint : Savepoint) : Transaction where
  created := transaction.created.take savepoint.created
  updated := transaction.updated.take savepoint.updated
  installs := transaction.installs.take savepoint.installs
  updates := transaction.updates.take savepoint.updates
  destructors := transaction.destructors.take savepoint.destructors

def didCreate (component : Component) (transaction : Transaction) : Transaction :=
  { transaction with created := transaction.created ++ [component] }

def didUpdate (component : Component) (transaction : Transaction) : Transaction :=
  { transaction with updated := transaction.updated ++ [component] }

def install (modifier : Modifier) (transaction : Transaction) : Transaction :=
  { transaction with installs := transaction.installs ++ [modifier] }

def update (modifier : Modifier) (transaction : Transaction) : Transaction :=
  { transaction with updates := transaction.updates ++ [modifier] }

def didDestroy (owned : Owned) (transaction : Transaction) : Transaction :=
  { transaction with destructors := transaction.destructors ++ [owned] }

def destroy (hooks : Hooks) : Owned → StateM Page Unit
  | .component component => (hooks.component component.name).destroy component
  | .modifier modifier => (hooks.modifier modifier.name).destroy modifier

/-- Runs the hooks: what was created and updated first, and what was destroyed last. -/
def run (hooks : Hooks) (transaction : Transaction) : StateM Page Unit := do
  transaction.created.forM fun component => (hooks.component component.name).didCreate component
  transaction.updated.forM fun component => (hooks.component component.name).didUpdate component
  transaction.installs.forM fun modifier => (hooks.modifier modifier.name).install modifier
  transaction.updates.forM fun modifier => (hooks.modifier modifier.name).update modifier
  transaction.destructors.forM (destroy hooks)

end Transaction

end LiveTemplate
