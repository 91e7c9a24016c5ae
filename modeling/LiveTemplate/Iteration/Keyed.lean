import LiveTemplate.Reactive.Reference

/-!
Lists under iteration. The first pass goes element by element, on demand, and records an item for
each one.
-/

namespace LiveTemplate

/-- A reference to pass over, and how its elements get their keys. -/
structure Iterable where
  source : Reference
  keyFor : KeyFor
  deriving Inhabited

/-- An iterable with its artifacts. -/
structure KeyedList where
  list : ListId
  iterable : Iterable
  deriving Inhabited

variable (helpers : Helpers)

def Iterable.iterate (iterable : Iterable) : Reading Pass := do
  let value ← iterable.source.read helpers
  Reading.lift (Pass.ofValue iterable.keyFor value)

namespace KeyedList

def ofIterable (iterable : Iterable) : Reading KeyedList :=
  return ⟨← Reading.newArtifacts, iterable⟩

def tag (keyed : KeyedList) : Reading Tag := keyed.iterable.source.tag helpers

/-- The condition that the list has elements. -/
def presence (keyed : KeyedList) : Reference :=
  .presence keyed.list keyed.iterable.source keyed.iterable.keyFor

def isEmpty (keyed : KeyedList) : Reading Bool :=
  return !(← keyed.presence.read helpers).truthy

/-- The pass that was begun to see whether there are elements, or a new one. -/
def takePass (keyed : KeyedList) : Reading Pass := do
  let artifacts ← Reading.artifacts keyed.list
  match artifacts.pending with
  | some pass =>
    Reading.setArtifacts keyed.list { artifacts with pending := none }
    return pass
  | none => keyed.iterable.iterate helpers

end KeyedList

/-- The cells of a new item. -/
def PassItem.newRefs (item : PassItem) : Reading ItemRefs := do
  let value ← Reading.newCell item.value
  let memo ← Reading.newCell item.memo
  return ⟨item.key, value, memo⟩

/-- The first pass over a list, under way. The pass is begun when its first element is wanted. -/
structure FirstPass where
  keyed : KeyedList
  rest : Option Pass := none
  deriving Inhabited

/-- Records the next element, if there is one. -/
def FirstPass.next (walk : FirstPass) : Reading (FirstPass × Option ItemRefs) := do
  let pass ← match walk.rest with
    | some pass => pure pass
    | none => walk.keyed.takePass helpers
  match pass with
  | [] => return ({ walk with rest := some [] }, none)
  | item :: rest =>
    let refs ← item.newRefs
    let artifacts ← Reading.artifacts walk.keyed.list
    Reading.setArtifacts walk.keyed.list (artifacts.append refs)
    return ({ walk with rest := some rest }, some refs)

end LiveTemplate
