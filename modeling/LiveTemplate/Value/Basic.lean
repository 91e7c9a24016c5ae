import LiveTemplate.Entries
import LiveTemplate.Text.Decimal

/-!
The values that flow through templates: the context, what is read from it, helper results and
literals. Lists and maps carry the identity of their storage. Two values with one storage are the
same value, and an item of a keyed list is recognised by it; apart from that only the elements
count.
-/

namespace LiveTemplate

/-- The identity of the storage of a list or a map. -/
abbrev Storage := Nat

inductive Value where
  | undefined
  | null
  | bool (value : Bool)
  | int (value : Int64)
  | float (value : Float)
  | text (value : String)
  | list (storage : Storage) (items : List Value)
  | map (storage : Storage) (entries : List (String × Value))
  deriving Repr, Inhabited

/-- The text by which an item of a keyed list is recognised. A list or map without a text of its own
is recognised by its storage. -/
inductive Key where
  | text (value : String)
  | list (storage : Storage)
  | map (storage : Storage)
  deriving Repr, DecidableEq, Inhabited

namespace Value

mutual

/-- Equality as change detection sees it. Integers and floats compare as numbers, an integer being
rounded to a float first; shared storage is equal without a look at its elements, which matters when
they hold a NaN; the order of a map's entries does not count. -/
def same : Value → Value → Bool
  | undefined, undefined => true
  | null, null => true
  | bool left, bool right => left == right
  | int left, int right => left == right
  | float left, float right => left == right
  | int left, float right => Decimal.isNearest right left.toInt
  | float left, int right => Decimal.isNearest left right.toInt
  | text left, text right => left == right
  | list storage items, list storage' items' => storage == storage' || sameItems items items'
  | map storage entries, map storage' entries' =>
    storage == storage' || (entries.length == entries'.length && sameEntries entries entries')
  | _, _ => false

def sameItems : List Value → List Value → Bool
  | [], [] => true
  | left :: lefts, right :: rights => left.same right && sameItems lefts rights
  | _, _ => false

/-- Every entry of the first map is an entry of the second. -/
def sameEntries : List (String × Value) → List (String × Value) → Bool
  | [], _ => true
  | (key, left) :: lefts, rights =>
    (match Entries.get? key rights with
      | some right => left.same right
      | none => false) && sameEntries lefts rights

end

instance : BEq Value := ⟨same⟩

/-- A condition on a value holds unless it is missing, false, zero, NaN or the empty text. Lists and
maps hold, empty or not. -/
def truthy : Value → Bool
  | undefined | null => false
  | bool value => value
  | int value => value != 0
  | float value => value != 0.0 && !value.isNaN
  | text value => value != ""
  | list .. | map .. => true

def nullish : Value → Bool
  | undefined | null => true
  | _ => false

/-- A position in a list: decimal digits, with a plus sign or leading zeros if need be. -/
def position? (key : String) : Option Nat :=
  let digits := match key.toList with
    | '+' :: rest => rest
    | all => all
  if digits.isEmpty || !digits.all Char.isDigit then none
  else some (digits.foldl (fun total digit => 10 * total + (digit.toNat - '0'.toNat)) 0)

/-- The property `key`, `undefined` if there is none. A list has its positions and, like a text, a
`length`. -/
def get (value : Value) (key : String) : Value :=
  match value with
  | map _ entries => (Entries.get? key entries).getD undefined
  | list _ items =>
    if key = "length" then int (Int64.ofNat items.length)
    else ((position? key).bind (items[·]?)).getD undefined
  | text value => if key = "length" then int (Int64.ofNat value.length) else undefined
  | _ => undefined

def text? : Value → Option String
  | text value => some value
  | _ => none

def items? : Value → Option (List Value)
  | list _ items => some items
  | _ => none

def entries? : Value → Option (List (String × Value))
  | map _ entries => some entries
  | _ => none

end Value

end LiveTemplate
