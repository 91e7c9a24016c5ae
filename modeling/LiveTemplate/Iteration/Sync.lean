import LiveTemplate.Iteration.Keyed

/-!
Synchronising the items of a list with a new pass over it. The walk goes through the pass and the
items side by side. An element whose item is the next one is retained; one whose item lies further
ahead lets the walk skip the items between, which are only looked at again if their own turn comes;
one whose item was skipped moves it here; and one without an item inserts a new item here. When the
pass is over, the items it did not meet are deleted.

Each of these is an edit that a target, such as a page or a list of keys, carries out. A target may
refuse an edit. Then the walk stops, and the artifacts hold what the target holds, so that a later
walk does the rest.
-/

namespace LiveTemplate

/-- A change to a list of items. An item is inserted or moved in front of the item with the key
`before`, or to the end. -/
inductive Edit where
  | retain (item : ItemRefs)
  | insert (item : ItemRefs) (before : Option Key)
  | move (item : ItemRefs) (before : Option Key)
  | delete (key : Key)
  | done
  deriving Repr, DecidableEq

/-- A walk through the items of a list, and the place it has come to. -/
structure Walk where
  /-- The index and the item numbers; the items themselves are in the other two fields. -/
  artifacts : Artifacts
  behind : List Item
  ahead : List Item
  deriving Repr, Inhabited

namespace Walk

def ofArtifacts (artifacts : Artifacts) : Walk := ⟨artifacts, [], artifacts.items⟩

def items (walk : Walk) : List Item := walk.behind ++ walk.ahead

/-- The key of the item that the walk stands in front of. -/
def before (walk : Walk) : Option Key := walk.ahead.head?.map Item.key

def retainId (id : ItemId) (items : List Item) : List Item :=
  items.map fun item => if item.id = id then { item with retained := true } else item

def dropId (id : ItemId) (items : List Item) : List Item :=
  items.filter fun item => item.id ≠ id

/-- Skips the items in front of the first one with `key`, and that one too. -/
def skipTo (key : Key) (walk : Walk) : Walk :=
  let skipped := walk.ahead.takeWhile fun item => item.key ≠ key
  let rest := walk.ahead.dropWhile fun item => item.key ≠ key
  let marked := skipped.map fun item => { item with seen := true }
  { walk with behind := walk.behind ++ marked ++ rest.take 1, ahead := rest.drop 1 }

def insertHere (walk : Walk) (refs : ItemRefs) : Walk :=
  let (id, artifacts) := walk.artifacts.allocate refs.key
  { walk with artifacts, behind := walk.behind ++ [⟨id, refs, true, false⟩] }

/-- Puts the values of a new pass into the cells of an item. -/
def updateRefs (refs : ItemRefs) (element : PassItem) : Reading Unit := do
  let _ ← Reading.updateCell refs.value element.value
  let _ ← Reading.updateCell refs.memo element.memo

/-- Meets the next element of the pass. Skipping ahead to its item is no edit. -/
def meet (walk : Walk) (element : PassItem) : Reading (Walk × Option Edit) := do
  if walk.before = some element.key then
    match walk.ahead with
    | [] => return (walk, none)
    | current :: rest =>
      updateRefs current.refs element
      let behind := walk.behind ++ [{ current with retained := true }]
      return ({ walk with behind, ahead := rest }, some (.retain current.refs))
  else
    match walk.artifacts.get? element.key with
    | none =>
      let refs ← element.newRefs
      return (walk.insertHere refs, some (.insert refs walk.before))
    | some id =>
      match walk.items.find? fun item => item.id = id with
      | none => Reading.broken (.itemRemoved id)
      | some found =>
        updateRefs found.refs element
        let walk := { walk with behind := retainId id walk.behind, ahead := retainId id walk.ahead }
        if found.seen then
          let behind := dropId id walk.behind ++ [{ found with retained := true }]
          return ({ walk with behind, ahead := dropId id walk.ahead },
            some (.move found.refs walk.before))
        else return (walk.skipTo element.key, none)

/-- Takes back what the walk did for an edit that was refused. Only an insertion is taken back: its
item is the last one behind. -/
def takeBack (walk : Walk) (edit : Edit) : Walk :=
  match edit, walk.behind.getLast? with
  | .insert .., some item =>
    { walk with artifacts := walk.artifacts.release item, behind := walk.behind.dropLast }
  | _, _ => walk

/-- Goes back to the first item, when the pass is over. -/
def rewind (walk : Walk) : Walk := { walk with behind := [], ahead := walk.items }

/-- The artifacts that the walk leaves. -/
def finish (walk : Walk) : Artifacts := { walk.artifacts with items := walk.items }

/-- The artifacts that a walk leaves that was stopped. -/
def abandon (walk : Walk) : Artifacts :=
  { walk.artifacts with items := walk.items.map Item.clearMarks }

end Walk

/-- What carries out edits: `apply` changes a state of which the store is a part, and may fail, but
then must have done nothing that shows. -/
structure SyncTarget (σ : Type) where
  onStore : {α : Type} → Reading α → EStateM Fault σ α
  apply : Edit → EStateM Fault σ Unit

namespace SyncTarget

variable {σ : Type} (target : SyncTarget σ)

/-- Carries out an edit, or tells why not. -/
def accept (edit : Edit) : EStateM Fault σ (Option RenderError) := fun state =>
  match target.apply edit state with
  | .ok () state => .ok none state
  | .error (.failed error) state => .ok (some error) state
  | .error (.broken defect) state => .error (.broken defect) state

/-- Walks through the pass. -/
def mergePass : Pass → Walk → EStateM Fault σ (Walk × Option RenderError)
  | [], walk => pure (walk, none)
  | element :: pass, walk => do
    match ← target.onStore (walk.meet element) with
    | (walk, none) => mergePass pass walk
    | (walk, some edit) =>
      match ← target.accept edit with
      | none => mergePass pass walk
      | some error => return (walk.takeBack edit, some error)

/-- Walks through the items ahead, deletes those that the pass has not met and clears the marks of
the others. -/
def prune : List Item → Walk → EStateM Fault σ (Walk × Option RenderError)
  | [], walk => pure ({ walk with ahead := [] }, none)
  | item :: rest, walk => do
    if item.retained then
      prune rest { walk with behind := walk.behind ++ [item.clearMarks], ahead := rest }
    else
      let walk := { walk with artifacts := walk.artifacts.release item, ahead := rest }
      match ← target.accept (.delete item.key) with
      | none => prune rest walk
      | some error => return (walk, some error)

def walkThrough (pass : Pass) (artifacts : Artifacts) :
    EStateM Fault σ (Artifacts × Option RenderError) := do
  let (walk, refusal) ← target.mergePass pass (.ofArtifacts artifacts)
  if refusal.isSome then return (walk.abandon, refusal)
  else
    let walk := walk.rewind
    let (walk, refusal) ← target.prune walk.ahead walk
    if refusal.isSome then return (walk.abandon, refusal)
    else
      let refusal ← target.accept .done
      return (if refusal.isSome then walk.abandon else walk.finish, refusal)

/-- Synchronises the artifacts of a list and the target with the value that the list has now. -/
def sync (helpers : Helpers) (keyed : KeyedList) : EStateM Fault σ Unit := do
  let pass ← target.onStore (keyed.takePass helpers)
  let artifacts ← target.onStore (Reading.artifacts keyed.list)
  let (synced, refusal) ← target.walkThrough pass artifacts
  target.onStore do
    let current ← Reading.artifacts keyed.list
    Reading.setArtifacts keyed.list { synced with pending := current.pending }
  match refusal with
  | some error => throw (.failed error)
  | none => pure ()

end SyncTarget

end LiveTemplate
