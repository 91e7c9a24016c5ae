import LiveTemplate.Iteration.Pass
import LiveTemplate.Reactive.Tag

/-!
What a pass over a list leaves behind: one item for each element, in the order of the page, and the
item that stands for each key. An item keeps its number and its cells as long as it lives; the
number of a removed item is used again. A pass that was begun only to see whether there are elements
waits here for the next reader.
-/

namespace LiveTemplate

/-- The number of an item in its list. -/
abbrev ItemId := Nat

/-- The key of an item and the cells that its rendered output reads. -/
structure ItemRefs where
  key : Key
  value : CellId
  memo : CellId
  deriving Repr, DecidableEq, Inhabited

structure Item where
  id : ItemId
  refs : ItemRefs
  /-- Met in the current pass. -/
  retained : Bool := false
  /-- Passed over in search of another item, so that it has to move when its own turn comes. -/
  seen : Bool := false
  deriving Repr, DecidableEq, Inhabited

namespace Item

def key (item : Item) : Key := item.refs.key

def clearMarks (item : Item) : Item := { item with retained := false, seen := false }

end Item

structure Artifacts where
  items : List Item := []
  /-- The newest item of each key. -/
  index : List (Key × ItemId) := []
  /-- How many item numbers have been given out. -/
  slots : Nat := 0
  /-- The numbers given back, the last one first. -/
  free : List ItemId := []
  pending : Option Pass := none
  deriving Repr, Inhabited

namespace Artifacts

/-- Takes a number for a new item of some key. An older item of that key loses its place in the
index. -/
def allocate (artifacts : Artifacts) (key : Key) : ItemId × Artifacts :=
  match artifacts.free with
  | id :: free =>
    (id, { artifacts with free, index := Entries.put key id artifacts.index })
  | [] =>
    let id := artifacts.slots
    (id, { artifacts with slots := id + 1, index := Entries.put key id artifacts.index })

/-- Gives back the number of a removed item. -/
def release (artifacts : Artifacts) (item : Item) : Artifacts :=
  { artifacts with
    index := artifacts.index.filter fun entry => entry ≠ (item.key, item.id)
    free := item.id :: artifacts.free }

def get? (artifacts : Artifacts) (key : Key) : Option ItemId := Entries.get? key artifacts.index

def item? (artifacts : Artifacts) (id : ItemId) : Option Item :=
  artifacts.items.find? fun item => item.id = id

def wasSeen (artifacts : Artifacts) (key : Key) : Bool :=
  match (artifacts.get? key).bind artifacts.item? with
  | some item => item.seen
  | none => false

/-- The number of living items. -/
def size (artifacts : Artifacts) : Nat := artifacts.slots - artifacts.free.length

/-- Records an element of the first pass at the end of the list. -/
def append (artifacts : Artifacts) (refs : ItemRefs) : Artifacts :=
  let (id, artifacts) := artifacts.allocate refs.key
  { artifacts with items := artifacts.items ++ [⟨id, refs, false, false⟩] }

end Artifacts

end LiveTemplate
