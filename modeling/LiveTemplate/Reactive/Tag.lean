/-!
Revisions and tags. A clock counts the changes made to cells, and a cell remembers the count of its
last change. A tag says which cells a value depends on, so its revision is the latest of theirs;
while that has not passed a revision noted earlier, nothing behind the tag has changed.
-/

namespace LiveTemplate

/-- The number of a cell. -/
abbrev CellId := Nat

/-- A count of the clock, or later than every count. -/
inductive Revision where
  | tick (count : Nat)
  | volatile
  deriving Repr, DecidableEq, Inhabited

namespace Revision

/-- The revision of what never changes, before the first count of the clock. -/
def constant : Revision := tick 0

def le : Revision → Revision → Bool
  | tick earlier, tick later => earlier ≤ later
  | _, volatile => true
  | volatile, tick _ => false

def max (left right : Revision) : Revision := if left.le right then right else left

theorem le_refl (revision : Revision) : revision.le revision = true := by
  cases revision <;> simp [le]

theorem le_trans {first second third : Revision} (before : first.le second = true)
    (after : second.le third = true) : first.le third = true := by
  cases first <;> cases second <;> cases third <;> simp_all [le]
  omega

theorem le_max_left (left right : Revision) : left.le (left.max right) = true := by
  unfold max
  split
  · assumption
  · exact le_refl left

theorem le_max_right (left right : Revision) : right.le (left.max right) = true := by
  unfold max
  split
  · exact le_refl right
  · rename_i later
    cases left <;> cases right <;> simp_all [le]
    omega

end Revision

inductive Tag where
  | constant
  | volatile
  | cell (id : CellId)
  /-- Changes whenever one of its members does. -/
  | any (members : List Tag)
  deriving Repr, Inhabited

namespace Tag

def isConstant : Tag → Bool
  | constant => true
  | _ => false

def ofMembers : List Tag → Tag
  | [] => constant
  | [tag] => tag
  | members => any members

/-- The tag that changes whenever one of `tags` does. Constant ones add nothing, and a volatile one
hides all others. -/
def combine (tags : List Tag) : Tag :=
  go tags []
where
  go : List Tag → List Tag → Tag
    | [], members => ofMembers members.reverse
    | constant :: rest, members => go rest members
    | volatile :: _, _ => volatile
    | tag :: rest, members => go rest (tag :: members)

/-- Combines tags that have to be worked out one by one. None is worked out after a volatile one. -/
def combineM {m : Type → Type} [Monad m] (tags : List (m Tag)) : m Tag :=
  go tags []
where
  go : List (m Tag) → List Tag → m Tag
    | [], members => pure (combine members.reverse)
    | tag :: rest, members => do
      match ← tag with
      | volatile => pure volatile
      | tag => go rest (tag :: members)

mutual

/-- The latest revision among the cells of a tag. -/
def revision (changed : CellId → Nat) : Tag → Revision
  | constant => .constant
  | volatile => .volatile
  | cell id => .tick (changed id)
  | any members => latest changed members

def latest (changed : CellId → Nat) : List Tag → Revision
  | [] => .constant
  | tag :: tags => (tag.revision changed).max (latest changed tags)

end

/-- Nothing behind the tag has changed since its revision was `snapshot`. -/
def validates (changed : CellId → Nat) (snapshot : Revision) : Tag → Bool
  | constant => true
  | volatile => false
  | tag => tag.revision changed != .volatile && (tag.revision changed).le snapshot

end Tag

end LiveTemplate
