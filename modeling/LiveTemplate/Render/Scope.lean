import LiveTemplate.Render.Invocation

/-!
Scopes: what the symbols of a program are bound to while it renders. Scopes are numbered, and a
region that allocates one releases it when its output goes away.
-/

namespace LiveTemplate

abbrev ScopeId := Nat

/-- What a symbol is bound to. -/
inductive Slot where
  | unbound
  | reference (reference : Reference)
  | block (block : Option Handle)
  /-- All that a component was given, for the partials of its layout. -/
  | passed (invocation : Invocation)
  deriving Inhabited

structure Scope where
  slots : List Slot
  this : Reference
  /-- In a layout, the scope of its invocation, where the blocks run that it yields to. -/
  caller : Option ScopeId := none
  deriving Inhabited

namespace Scope

def slot (scope : Scope) (symbol : Symbol) : Slot := (scope.slots[symbol]?).getD .unbound

/-- The reference that a symbol is bound to, or else `undefined`. -/
def reference (scope : Scope) (symbol : Symbol) : Reference :=
  match scope.slot symbol with
  | .reference reference => reference
  | _ => .const .undefined

def block? (scope : Scope) (symbol : Symbol) : Option Handle :=
  match scope.slot symbol with
  | .block block => block
  | _ => none

def passed? (scope : Scope) (symbol : Symbol) : Option Invocation :=
  match scope.slot symbol with
  | .passed invocation => some invocation
  | _ => none

/-- Binds a symbol. The scope grows if the symbol is newer than it is. -/
def bind (scope : Scope) (symbol : Symbol) (slot : Slot) : Scope :=
  let missing := List.replicate (symbol + 1 - scope.slots.length) Slot.unbound
  { scope with slots := (scope.slots ++ missing).set symbol slot }

end Scope

structure Scopes where
  scopes : Array (Option Scope) := #[]
  /-- The numbers of released scopes, the last one first. -/
  free : List ScopeId := []
  deriving Inhabited

namespace Scopes

def add (scopes : Scopes) (scope : Scope) : ScopeId × Scopes :=
  match scopes.free with
  | id :: free => (id, ⟨scopes.scopes.setIfInBounds id (some scope), free⟩)
  | [] => (scopes.scopes.size, ⟨scopes.scopes.push (some scope), []⟩)

/-- A new scope for a program with so many slots. -/
def root (scopes : Scopes) (size : Nat) (this : Reference) : ScopeId × Scopes :=
  scopes.add { slots := List.replicate size .unbound, this }

def get (scopes : Scopes) (id : ScopeId) : Except Defect Scope :=
  match scopes.scopes[id]? with
  | some (some scope) => .ok scope
  | _ => .error (.scopeReleased id)

/-- A copy of a scope, to be bound further on its own. -/
def child (scopes : Scopes) (parent : ScopeId) : Except Defect (ScopeId × Scopes) := do
  return scopes.add (← scopes.get parent)

def modify (scopes : Scopes) (id : ScopeId) (change : Scope → Scope) : Except Defect Scopes := do
  let scope ← scopes.get id
  return { scopes with scopes := scopes.scopes.setIfInBounds id (some (change scope)) }

/-- Releases a scope, unless that has been done. -/
def release (scopes : Scopes) (id : ScopeId) : Scopes :=
  match scopes.scopes[id]? with
  | some (some _) => ⟨scopes.scopes.setIfInBounds id none, id :: scopes.free⟩
  | _ => scopes

/-- How many scopes are in use. -/
def live (scopes : Scopes) : Nat := scopes.scopes.size - scopes.free.length

end Scopes

/-- The dynamic variables that can be seen from some place, with what they stand for. -/
abbrev Variables := List (String × Reference)

end LiveTemplate
