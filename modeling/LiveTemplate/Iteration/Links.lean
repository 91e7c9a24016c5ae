import LiveTemplate.Iteration.Sync

/-!
The items of a list as they are stored: in numbered slots, each with the numbers of its neighbours.
The slot of a removed item is empty until a new item takes its number. A walk stands in front of an
item and reaches the others over their links, so that it depends on the links being whole; with a
list of items in their order, as `Artifacts` has it, there is nothing to depend on.
-/

namespace LiveTemplate

/-- An item in its slot. -/
structure Link where
  refs : ItemRefs
  retained : Bool := false
  seen : Bool := false
  prev : Option ItemId := none
  next : Option ItemId := none
  deriving Repr, DecidableEq

structure Links where
  slots : Array (Option Link) := #[]
  /-- The numbers given back, the last one first. -/
  free : List ItemId := []
  /-- The newest item of each key. -/
  index : List (Key × ItemId) := []
  head : Option ItemId := none
  tail : Option ItemId := none
  deriving Repr, DecidableEq

namespace Links

def link (links : Links) (id : ItemId) : Except Defect Link :=
  match links.slots[id]? with
  | some (some link) => .ok link
  | some none => .error (.itemRemoved id)
  | none => .error .outOfRange

def put (links : Links) (id : ItemId) (link : Link) : Links :=
  { links with slots := links.slots.setIfInBounds id (some link) }

def change (links : Links) (id : ItemId) (edit : Link → Link) : Except Defect Links :=
  return links.put id (edit (← links.link id))

def get? (links : Links) (key : Key) : Option ItemId := Entries.get? key links.index

def wasSeen (links : Links) (key : Key) : Except Defect Bool :=
  match links.get? key with
  | some id => return (← links.link id).seen
  | none => return false

/-- The number of living items. -/
def size (links : Links) : Nat := links.slots.size - links.free.length

/-- Puts a new item, which has no neighbours yet, into a slot. -/
def allocate (links : Links) (refs : ItemRefs) : Except Defect (ItemId × Links) :=
  match links.free with
  | id :: free =>
    if id < links.slots.size then
      .ok (id, { links.put id { refs } with free, index := Entries.put refs.key id links.index })
    else .error .outOfRange
  | [] =>
    let id := links.slots.size
    .ok (id, { links with
      slots := links.slots.push (some { refs }), index := Entries.put refs.key id links.index })

/-- What follows an item, or comes first. -/
def setNext (links : Links) (item next : Option ItemId) : Except Defect Links :=
  match item with
  | some id => links.change id fun link => { link with next }
  | none => .ok { links with head := next }

/-- What precedes an item, or comes last. -/
def setPrev (links : Links) (item prev : Option ItemId) : Except Defect Links :=
  match item with
  | some id => links.change id fun link => { link with prev }
  | none => .ok { links with tail := prev }

/-- The item that stands in front of a place: before an item, or at the end. -/
def prev (links : Links) (place : Option ItemId) : Except Defect (Option ItemId) :=
  match place with
  | some id => return (← links.link id).prev
  | none => return links.tail

def linkBefore (links : Links) (id : ItemId) (place : Option ItemId) : Except Defect Links := do
  let prev ← links.prev place
  let links ← links.change id fun link => { link with prev, next := place }
  let links ← links.setNext prev (some id)
  links.setPrev place (some id)

def unlink (links : Links) (id : ItemId) : Except Defect Links := do
  let link ← links.link id
  let links ← links.setNext link.prev link.next
  let links ← links.setPrev link.next link.prev
  links.change id fun link => { link with prev := none, next := none }

/-- Records an element of the first pass at the end of the list. -/
def append (links : Links) (refs : ItemRefs) : Except Defect Links := do
  let (id, links) ← links.allocate refs
  links.linkBefore id none

def retain (links : Links) (id : ItemId) : Except Defect Links :=
  links.change id fun link => { link with retained := true }

def insertBefore (links : Links) (refs : ItemRefs) (place : Option ItemId) :
    Except Defect (ItemId × Links) := do
  let (id, links) ← links.allocate refs
  let links ← links.retain id
  return (id, ← links.linkBefore id place)

def moveBefore (links : Links) (id : ItemId) (place : Option ItemId) : Except Defect Links := do
  if some id = place then return links
  else (← links.unlink id).linkBefore id place

def remove (links : Links) (id : ItemId) : Except Defect Links := do
  let links ← links.unlink id
  let key := (← links.link id).refs.key
  let index :=
    if links.get? key = some id then links.index.filter fun entry => entry.1 ≠ key else links.index
  return { links with
    index, slots := links.slots.setIfInBounds id none, free := id :: links.free }

def markSeen (links : Links) (id : ItemId) : Except Defect Links :=
  links.change id fun link => { link with seen := true }

def reset (links : Links) (id : ItemId) : Except Defect Links :=
  links.change id fun link => { link with retained := false, seen := false }

def clearMarks (links : Links) : Links :=
  { links with
    slots := links.slots.map (Option.map fun link =>
      { link with retained := false, seen := false }) }

/-- The key of the item that a walk stands in front of. -/
def keyAt (links : Links) (current : Option ItemId) : Except Defect (Option Key) :=
  match current with
  | some id => return some (← links.link id).refs.key
  | none => return none

end Links

/-- A walk through the items, and the one it stands in front of. -/
structure LinkWalk where
  links : Links
  current : Option ItemId

/-- Skips the items in front of the first one with `key`, and that one too. No walk is longer than
there are slots. -/
def LinkWalk.skipTo (key : Key) : Nat → LinkWalk → Except Defect LinkWalk
  | _, ⟨links, none⟩ => .ok ⟨links, none⟩
  | 0, ⟨_, some _⟩ => .error .endless
  | fuel + 1, ⟨links, some id⟩ => do
    let link ← links.link id
    if link.refs.key = key then return ⟨links, link.next⟩
    else skipTo key fuel ⟨← links.markSeen id, link.next⟩

namespace SyncTarget

variable {σ : Type}

/-- A rule that the links broke ends the walk. -/
def checked {α : Type} : Except Defect α → EStateM Fault σ α
  | .ok value => pure value
  | .error defect => throw (.broken defect)

variable (target : SyncTarget σ)

/-- The element has the item that the walk stands in front of. -/
def retainLink (element : PassItem) (walk : LinkWalk) (id : ItemId) :
    EStateM Fault σ (LinkWalk × Option RenderError) := do
  let link ← checked (walk.links.link id)
  let links ← checked (walk.links.retain id)
  target.onStore (Walk.updateRefs link.refs element)
  let refusal ← target.accept (.retain link.refs)
  return (⟨links, link.next⟩, refusal)

/-- The element has an item in another place, behind the walk or ahead of it. -/
def moveLink (element : PassItem) (walk : LinkWalk) (id : ItemId) :
    EStateM Fault σ (LinkWalk × Option RenderError) := do
  let link ← checked (walk.links.link id)
  let links ← checked (walk.links.retain id)
  target.onStore (Walk.updateRefs link.refs element)
  if ← checked (links.wasSeen element.key) then
    let links ← checked (links.moveBefore id walk.current)
    let before ← checked (links.keyAt walk.current)
    let refusal ← target.accept (.move link.refs before)
    return (⟨links, walk.current⟩, refusal)
  else
    let walk ← checked (LinkWalk.skipTo element.key links.slots.size ⟨links, walk.current⟩)
    return (walk, none)

/-- The element has no item. A new one that the target refuses is removed again. -/
def insertLink (element : PassItem) (walk : LinkWalk) :
    EStateM Fault σ (LinkWalk × Option RenderError) := do
  let refs ← target.onStore element.newRefs
  let (id, links) ← checked (walk.links.insertBefore refs walk.current)
  let before ← checked (links.keyAt walk.current)
  match ← target.accept (.insert refs before) with
  | none => return (⟨links, walk.current⟩, none)
  | some error => return (⟨← checked (links.remove id), walk.current⟩, some error)

def meetLink (element : PassItem) (walk : LinkWalk) :
    EStateM Fault σ (LinkWalk × Option RenderError) := do
  if (← checked (walk.links.keyAt walk.current)) = some element.key then
    match walk.current with
    | some id => target.retainLink element walk id
    | none => return (walk, none)
  else
    match walk.links.get? element.key with
    | some id => target.moveLink element walk id
    | none => target.insertLink element walk

def mergeLinks : Pass → LinkWalk → EStateM Fault σ (LinkWalk × Option RenderError)
  | [], walk => pure (walk, none)
  | element :: pass, walk => do
    match ← target.meetLink element walk with
    | (walk, none) => mergeLinks pass walk
    | (walk, some error) => return (walk, some error)

/-- Removes the items from here on that the pass has not met and clears the marks of the others. -/
def pruneLinks : Nat → LinkWalk → EStateM Fault σ (Links × Option RenderError)
  | _, ⟨links, none⟩ => pure (links, none)
  | 0, ⟨_, some _⟩ => throw (.broken .endless)
  | fuel + 1, ⟨links, some id⟩ => do
    let link ← checked (links.link id)
    if link.retained then pruneLinks fuel ⟨← checked (links.reset id), link.next⟩
    else
      let links ← checked (links.remove id)
      match ← target.accept (.delete link.refs.key) with
      | none => pruneLinks fuel ⟨links, link.next⟩
      | some error => return (links, some error)

/-- Synchronises linked items with a pass, as `walkThrough` does with a list of items. -/
def syncLinks (pass : Pass) (links : Links) : EStateM Fault σ (Links × Option RenderError) := do
  let (walk, refusal) ← target.mergeLinks pass ⟨links, links.head⟩
  if refusal.isSome then return (walk.links.clearMarks, refusal)
  else
    let (links, refusal) ← target.pruneLinks walk.links.slots.size ⟨walk.links, walk.links.head⟩
    if refusal.isSome then return (links.clearMarks, refusal)
    else
      let refusal ← target.accept .done
      return (if refusal.isSome then links.clearMarks else links, refusal)

end SyncTarget

end LiveTemplate
