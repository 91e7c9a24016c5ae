import LiveTemplate.Dom.Basic

/-!
Extents: which nodes a piece of output covers. A block knows the first and the last piece that was
appended to it, where a piece is a node or a nested block or list. The nodes at the ends are looked
up when they are asked for, so an extent stays right while those inside it are rendered again.
-/

namespace LiveTemplate

abbrev ExtentId := Nat

inductive Piece where
  | node (id : NodeId)
  | extent (id : ExtentId)
  deriving Repr, DecidableEq, Inhabited

inductive Extent where
  /-- The ends of a block that something was appended to. -/
  | block (parent : NodeId) (ends : Option (Piece × Piece))
  | list (parent : NodeId) (items : List ExtentId)
  deriving Repr, DecidableEq, Inhabited

structure Extents where
  extents : Array Extent := #[]
  deriving Repr, DecidableEq, Inhabited

namespace Extents

def add (extents : Extents) (extent : Extent) : ExtentId × Extents :=
  (extents.extents.size, ⟨extents.extents.push extent⟩)

def newBlock (extents : Extents) (parent : NodeId) : ExtentId × Extents :=
  extents.add (.block parent none)

def newList (extents : Extents) (parent : NodeId) : ExtentId × Extents :=
  extents.add (.list parent [])

def extent (extents : Extents) (id : ExtentId) : Except Defect Extent :=
  match extents.extents[id]? with
  | some extent => .ok extent
  | none => .error .outOfRange

def replace (extents : Extents) (id : ExtentId) (extent : Extent) : Extents :=
  ⟨extents.extents.setIfInBounds id extent⟩

/-- The node that an extent lies under. -/
def parent (extents : Extents) (id : ExtentId) : Except Defect NodeId := do
  match ← extents.extent id with
  | .block parent _ | .list parent _ => return parent

def isEmpty (extents : Extents) (id : ExtentId) : Except Defect Bool := do
  match ← extents.extent id with
  | .block _ ends => return ends.isNone
  | .list _ items => return items.isEmpty

/-- Appends a piece to a block. -/
def append (extents : Extents) (id : ExtentId) (piece : Piece) : Except Defect Extents := do
  match ← extents.extent id with
  | .block parent none => return extents.replace id (.block parent (some (piece, piece)))
  | .block parent (some (first, _)) =>
    return extents.replace id (.block parent (some (first, piece)))
  | .list .. => throw .contentInList

/-- Gives a block the ends of another one, which was rendered in its place. -/
def takeOver (extents : Extents) (id other : ExtentId) : Except Defect Extents := do
  match ← extents.extent id, ← extents.extent other with
  | .block parent _, .block _ ends => return extents.replace id (.block parent ends)
  | _, _ => throw .outOfRange

def setItems (extents : Extents) (id : ExtentId) (items : List ExtentId) :
    Except Defect Extents := do
  match ← extents.extent id with
  | .list parent _ => return extents.replace id (.list parent items)
  | .block .. => throw .outOfRange

def addItem (extents : Extents) (id item : ExtentId) : Except Defect Extents := do
  match ← extents.extent id with
  | .list _ items => extents.setItems id (items ++ [item])
  | .block .. => throw .outOfRange

/-- Looks for the first node of a piece. No extent lies within itself, so the search never goes
deeper than there are extents. -/
def firstTo (extents : Extents) : Nat → Piece → Option NodeId
  | _, .node id => some id
  | 0, .extent _ => none
  | depth + 1, .extent id =>
    match extents.extents[id]? with
    | some (.block _ (some (first, _))) => extents.firstTo depth first
    | some (.list _ items) => items.findSome? fun item => extents.firstTo depth (.extent item)
    | _ => none

def lastTo (extents : Extents) : Nat → Piece → Option NodeId
  | _, .node id => some id
  | 0, .extent _ => none
  | depth + 1, .extent id =>
    match extents.extents[id]? with
    | some (.block _ (some (_, last))) => extents.lastTo depth last
    | some (.list _ items) =>
      items.reverse.findSome? fun item => extents.lastTo depth (.extent item)
    | _ => none

/-- The first node of an extent. Items of a list without a node are passed over. -/
def first? (extents : Extents) (id : ExtentId) : Option NodeId :=
  extents.firstTo extents.extents.size (.extent id)

def last? (extents : Extents) (id : ExtentId) : Option NodeId :=
  extents.lastTo extents.extents.size (.extent id)

/-- The nodes at both ends of an extent that has nodes. -/
def ends? (extents : Extents) (id : ExtentId) : Option (NodeId × NodeId) :=
  match extents.first? id, extents.last? id with
  | some first, some last => some (first, last)
  | _, _ => none

end Extents

end LiveTemplate
