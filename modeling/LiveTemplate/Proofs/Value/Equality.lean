import Mathlib.Data.List.Perm.Subperm
import LiveTemplate.Iteration.Pass

/-!
What change detection can tell apart. The NaN is the only value that differs from itself, so a cell that
was given a value without one holds what it was given as far as change detection can see. Values without
floats that it takes for equal have equal texts and equal properties, however deep, and as many elements;
but the entries of a map may stand in another order.
-/

namespace LiveTemplate

/-- Every float but the NaN equals itself. -/
theorem float_beq_self (number : Float) (finite : number.isNaN = false) :
    (number == number) = true := by
  change (number.toModel.unpack.compare number.toModel.unpack == some .eq) = true
  change number.toModel.unpack.isNaN = false at finite
  cases shape : number.toModel.unpack with
  | notANumber =>
    rw [shape] at finite
    cases finite
  | infinity sign => cases sign <;> rfl
  | zero sign => cases sign <;> rfl
  | finite sign mantissa exponent positive =>
    have same : (compare exponent exponent).then (compare mantissa mantissa) = .eq := by simp
    cases sign with
    | negative =>
      change (some ((compare exponent exponent).then (compare mantissa mantissa)).swap ==
        some Ordering.eq) = true
      rw [same]
      rfl
    | positive =>
      change (some ((compare exponent exponent).then (compare mantissa mantissa)) ==
        some Ordering.eq) = true
      rw [same]
      rfl

namespace Value

mutual

/-- No float in the value is the NaN. -/
def nanFree : Value → Bool
  | float value => !value.isNaN
  | list _ items => nanFreeItems items
  | map _ entries => nanFreeEntries entries
  | _ => true

def nanFreeItems : List Value → Bool
  | [] => true
  | item :: items => item.nanFree && nanFreeItems items

def nanFreeEntries : List (String × Value) → Bool
  | [] => true
  | (_, value) :: entries => value.nanFree && nanFreeEntries entries

end

/-- Lists and maps equal themselves by their storage, whatever they hold. -/
theorem beq_self (value : Value) (free : value.nanFree = true) : (value == value) = true := by
  change value.same value = true
  cases value with
  | float number =>
    have finite : number.isNaN = false := by simpa [nanFree] using free
    simpa [same] using float_beq_self number finite
  | _ => simp [same]

/-! Equal values -/

/-- What the storage of lists and maps holds. -/
structure Shelf where
  lists : Storage → List Value
  maps : Storage → List (String × Value)

mutual

/-- No number in the value is a float, no map in it has a key twice, and its lists and maps hold what
their storage holds. -/
def Plain (shelf : Shelf) : Value → Prop
  | float _ => False
  | list storage items => items = shelf.lists storage ∧ PlainItems shelf items
  | map storage entries => entries = shelf.maps storage ∧ (entries.map Prod.fst).Nodup ∧
      PlainEntries shelf entries
  | _ => True

def PlainItems (shelf : Shelf) : List Value → Prop
  | [] => True
  | item :: items => item.Plain shelf ∧ PlainItems shelf items

def PlainEntries (shelf : Shelf) : List (String × Value) → Prop
  | [] => True
  | (_, value) :: entries => value.Plain shelf ∧ PlainEntries shelf entries

end

variable {shelf : Shelf}

theorem plainItems_iff {items : List Value} :
    PlainItems shelf items ↔ ∀ item ∈ items, item.Plain shelf := by
  induction items with
  | nil => simp [PlainItems]
  | cons item items ih => simp [PlainItems, ih]

theorem plainEntries_iff {entries : List (String × Value)} :
    PlainEntries shelf entries ↔ ∀ entry ∈ entries, entry.2.Plain shelf := by
  induction entries with
  | nil => simp [PlainEntries]
  | cons entry entries ih => simp [PlainEntries, ih]

mutual

theorem Plain.nanFree : ∀ {value : Value}, value.Plain shelf → value.nanFree = true
  | list _ items, plain => by
    rw [Value.nanFree]
    rw [Plain] at plain
    exact PlainItems.nanFree plain.2
  | map _ entries, plain => by
    rw [Value.nanFree]
    rw [Plain] at plain
    exact PlainEntries.nanFree plain.2.2
  | undefined, _ | null, _ | bool _, _ | int _, _ | text _, _ => rfl

theorem PlainItems.nanFree : ∀ {items : List Value}, PlainItems shelf items →
    nanFreeItems items = true
  | [], _ => rfl
  | _ :: _, plain => by
    rw [PlainItems] at plain
    rw [nanFreeItems, plain.1.nanFree, PlainItems.nanFree plain.2]
    rfl

theorem PlainEntries.nanFree : ∀ {entries : List (String × Value)}, PlainEntries shelf entries →
    nanFreeEntries entries = true
  | [], _ => rfl
  | _ :: _, plain => by
    rw [PlainEntries] at plain
    rw [nanFreeEntries, plain.1.nanFree, PlainEntries.nanFree plain.2]
    rfl

end

theorem sameItems_iff {lefts rights : List Value} : sameItems lefts rights = true ↔
    List.Forall₂ (fun left right => (left == right) = true) lefts rights := by
  induction lefts generalizing rights with
  | nil => cases rights <;> simp [sameItems]
  | cons left lefts ih =>
    cases rights with
    | nil => simp [sameItems]
    | cons right rights =>
      rw [sameItems, Bool.and_eq_true, ih, List.forall₂_cons]
      rfl

theorem sameEntries_iff {lefts rights : List (String × Value)} :
    sameEntries lefts rights = true ↔ ∀ entry ∈ lefts,
      ∃ right, Entries.get? entry.1 rights = some right ∧ (entry.2 == right) = true := by
  induction lefts with
  | nil => simp [sameEntries]
  | cons entry lefts ih =>
    obtain ⟨key, left⟩ := entry
    rw [sameEntries, Bool.and_eq_true, ih, List.forall_mem_cons]
    cases Entries.get? key rights with
    | none => simp
    | some right =>
      simp only [Option.some.injEq, exists_eq_left']
      rfl

/-- Equal lists have equal elements in the same order. -/
theorem same_list {storage other : Storage} {items others : List Value}
    (plain : (list storage items).Plain shelf) (alike : (list other others).Plain shelf)
    (equal : (list storage items == list other others) = true) :
    List.Forall₂ (fun left right => (left == right) = true) items others := by
  rw [Plain] at plain alike
  change (storage == other || sameItems items others) = true at equal
  rcases Bool.or_eq_true_iff.mp equal with stored | same
  · obtain rfl : storage = other := by simpa using stored
    obtain rfl : others = items := alike.1.trans plain.1.symm
    refine List.forall₂_same.mpr fun item member => ?_
    exact beq_self item (plainItems_iff.mp plain.2 item member).nanFree
  · exact sameItems_iff.mp same

/-- Equal maps have equal entries, if in another order. -/
theorem same_map {storage other : Storage} {entries others : List (String × Value)}
    (plain : (map storage entries).Plain shelf) (alike : (map other others).Plain shelf)
    (equal : (map storage entries == map other others) = true) :
    entries.length = others.length ∧ ∀ entry ∈ entries,
      ∃ right, Entries.get? entry.1 others = some right ∧ (entry.2 == right) = true := by
  rw [Plain] at plain alike
  change (storage == other ||
    (entries.length == others.length && sameEntries entries others)) = true at equal
  rcases Bool.or_eq_true_iff.mp equal with stored | same
  · obtain rfl : storage = other := by simpa using stored
    obtain rfl : others = entries := alike.1.trans plain.1.symm
    refine ⟨rfl, fun entry member => ⟨entry.2, ?_, ?_⟩⟩
    · exact (Entries.get?_eq_some_iff plain.2.1 entry.1 entry.2).mpr member
    · exact beq_self _ (plainEntries_iff.mp plain.2.2 entry member).nanFree
  · obtain ⟨long, same⟩ := Bool.and_eq_true_iff.mp same
    exact ⟨by simpa using long, sameEntries_iff.mp same⟩

mutual

/-- Equal values have the same text. -/
theorem content_of_beq : ∀ {left right : Value}, left.Plain shelf → right.Plain shelf →
    (left == right) = true → left.content = right.content
  | list _ items, list _ others, plain, alike, equal => by
    rw [content, content, contents_of_beq plain.2 alike.2 (same_list plain alike equal)]
  | map .., map .., _, _, _ => by rw [content, content]
  | undefined, undefined, _, _, _ | null, null, _, _, _ => rfl
  | bool left, bool right, _, _, equal | int left, int right, _, _, equal
  | text left, text right, _, _, equal => by
    rw [show left = right from eq_of_beq equal]

theorem contents_of_beq : ∀ {lefts rights : List Value}, PlainItems shelf lefts →
    PlainItems shelf rights →
    List.Forall₂ (fun left right => (left == right) = true) lefts rights →
    contents lefts = contents rights
  | _, _, _, _, .nil => rfl
  | _ :: _, _ :: _, plain, alike, .cons equal rest => by
    rw [contents, contents, content_of_beq plain.1 alike.1 equal,
      contents_of_beq plain.2 alike.2 rest]

end

/-- Equal values are both true or both false. -/
theorem truthy_of_beq {left right : Value} (plain : left.Plain shelf) (alike : right.Plain shelf)
    (equal : (left == right) = true) : left.truthy = right.truthy := by
  cases left <;> cases right <;> first
    | rfl
    | cases equal
    | exact plain.elim
    | exact alike.elim
    | rename_i value other
      rw [show value = other from eq_of_beq equal]

theorem Plain.get {value : Value} (plain : value.Plain shelf) (key : String) :
    (value.get key).Plain shelf := by
  have absent : undefined.Plain shelf := trivial
  cases value with
  | list storage items =>
    simp only [Value.get]
    split
    · trivial
    · cases found : (position? key).bind (items[·]?) with
      | none => exact absent
      | some item =>
        obtain ⟨position, -, there⟩ := Option.bind_eq_some_iff.mp found
        exact plainItems_iff.mp plain.2 item (List.mem_of_getElem? there)
  | map storage entries =>
    simp only [Value.get]
    cases found : Entries.get? key entries with
    | none => exact absent
    | some item => exact plainEntries_iff.mp plain.2.2 _ (Entries.mem_of_get? found)
  | text content =>
    simp only [Value.get]
    split <;> trivial
  | _ => exact absent

theorem getElem?_of_same {items others : List Value}
    (same : List.Forall₂ (fun left right => (left == right) = true) items others) (position : Nat) :
    ((items[position]?).getD undefined == (others[position]?).getD undefined) = true := by
  induction same generalizing position with
  | nil => rfl
  | cons equal _ ih =>
    cases position with
    | zero => exact equal
    | succ position => exact ih position

/-- Equal maps have the same keys, if in another order. -/
theorem keys_perm {storage other : Storage} {entries others : List (String × Value)}
    (plain : (map storage entries).Plain shelf) (alike : (map other others).Plain shelf)
    (equal : (map storage entries == map other others) = true) :
    (entries.map Prod.fst).Perm (others.map Prod.fst) := by
  obtain ⟨long, found⟩ := same_map plain alike equal
  have sub : entries.map Prod.fst ⊆ others.map Prod.fst := by
    intro key member
    obtain ⟨entry, listed, rfl⟩ := List.mem_map.mp member
    obtain ⟨right, there, -⟩ := found entry listed
    exact List.mem_map.mpr ⟨_, Entries.mem_of_get? there, rfl⟩
  exact (List.subperm_of_subset plain.2.1 sub).perm_of_length_le (by simp [long])

/-- Equal values have equal properties. -/
theorem get_of_beq {left right : Value} (plain : left.Plain shelf) (alike : right.Plain shelf)
    (equal : (left == right) = true) (key : String) : (left.get key == right.get key) = true := by
  have absent : (undefined == undefined) = true := rfl
  cases left <;> cases right
  case list.list storage items other others =>
    have same := same_list plain alike equal
    simp only [Value.get, same.length_eq]
    split
    · exact beq_self _ rfl
    · cases position? key with
      | none => exact absent
      | some position => exact getElem?_of_same same position
  case map.map storage entries other others =>
    simp only [Value.get]
    cases found : Entries.get? key entries with
    | none =>
      have missing : Entries.get? key others = none := Entries.get?_eq_none.mpr fun member =>
        Entries.get?_eq_none.mp found ((keys_perm plain alike equal).mem_iff.mpr member)
      rw [missing]
      exact absent
    | some value =>
      obtain ⟨right, there, same⟩ := (same_map plain alike equal).2 _ (Entries.mem_of_get? found)
      rw [there]
      exact same
  case text.text content other =>
    rw [show content = other from eq_of_beq equal]
    exact beq_self _ (alike.get key).nanFree
  all_goals first
    | exact absent
    | exact plain.elim
    | cases equal

/-- What a template finds along a path in equal values is equal, reads the same and is both true or both
false. -/
theorem path_of_beq {left right : Value} (plain : left.Plain shelf) (alike : right.Plain shelf)
    (equal : (left == right) = true) (path : List String) :
    (path.foldl get left == path.foldl get right) = true ∧
      (path.foldl get left).content = (path.foldl get right).content ∧
      (path.foldl get left).truthy = (path.foldl get right).truthy := by
  induction path generalizing left right with
  | nil =>
    exact ⟨equal, content_of_beq plain alike equal, truthy_of_beq plain alike equal⟩
  | cons key path ih =>
    exact ih (plain.get key) (alike.get key) (get_of_beq plain alike equal key)

end Value

namespace Pass

variable {shelf : Value.Shelf} {elements others : List (Value × Value)}

theorem length_ofElements (keyFor : KeyFor) (elements : List (Value × Value)) :
    (ofElements keyFor elements).length = elements.length := List.length_mapIdx

theorem mem_ofElements {keyFor : KeyFor} {item : PassItem}
    (member : item ∈ ofElements keyFor elements) : (item.value, item.memo) ∈ elements := by
  obtain ⟨position, bound, rfl⟩ := List.mem_mapIdx.mp member
  exact List.getElem_mem bound

theorem exists_ofElements (keyFor : KeyFor) {value memo : Value} (member : (value, memo) ∈ elements) :
    ∃ item ∈ ofElements keyFor elements, item.value = value ∧ item.memo = memo := by
  obtain ⟨position, bound, there⟩ := List.getElem_of_mem member
  refine ⟨_, List.mem_mapIdx.mpr ⟨position, bound, rfl⟩, ?_, ?_⟩ <;> simp [there]

/-- Each element of the one pass has an equal one with the same memo in the other. -/
def Twinned (pass other : Pass) : Prop :=
  pass.length = other.length ∧
    ∀ item ∈ pass, ∃ twin ∈ other, (item.value == twin.value) = true ∧ twin.memo = item.memo

theorem Twinned.ofElements (keyFor : KeyFor) (long : elements.length = others.length)
    (twins : ∀ element ∈ elements, ∃ value, (value, element.2) ∈ others ∧
      (element.1 == value) = true) :
    Twinned (ofElements keyFor elements) (ofElements keyFor others) := by
  refine ⟨by rw [length_ofElements, length_ofElements, long], fun item member => ?_⟩
  obtain ⟨value, listed, equal⟩ := twins _ (mem_ofElements member)
  obtain ⟨twin, among, same, memo⟩ := exists_ofElements keyFor listed
  exact ⟨twin, among, same ▸ equal, memo⟩

/-- A pass over one of two equal values has as many elements as a pass over the other, and they are
equal, if in another order. -/
theorem twinned_of_beq {left right : Value} (plain : left.Plain shelf) (alike : right.Plain shelf)
    (equal : (left == right) = true) {keyFor : KeyFor} {pass other : Pass}
    (begun : ofValue keyFor left = .ok pass) (beside : ofValue keyFor right = .ok other) :
    Twinned pass other := by
  cases left <;> cases right
  case list.list storage items storage' items' =>
    cases begun
    cases beside
    have same := Value.same_list plain alike equal
    refine .ofElements keyFor (by simp [same.length_eq]) fun element member => ?_
    obtain ⟨position, bound, rfl⟩ := List.mem_mapIdx.mp member
    have within : position < items'.length := same.length_eq ▸ bound
    refine ⟨items'[position], List.mem_mapIdx.mpr ⟨position, within, rfl⟩, ?_⟩
    simpa [bound, within] using Value.getElem?_of_same same position
  case map.map storage entries storage' entries' =>
    cases begun
    cases beside
    obtain ⟨long, found⟩ := Value.same_map plain alike equal
    refine .ofElements keyFor (by simp [long]) fun element member => ?_
    obtain ⟨entry, listed, rfl⟩ := List.mem_map.mp member
    obtain ⟨value, there, same⟩ := found entry listed
    exact ⟨value, List.mem_map.mpr ⟨_, Entries.mem_of_get? there, rfl⟩, same⟩
  case bool.bool holds holds' =>
    obtain rfl : holds = holds' := eq_of_beq equal
    cases holds <;> cases begun
    cases beside
    exact ⟨rfl, nofun⟩
  all_goals first
    | cases begun <;> cases beside <;> exact ⟨rfl, nofun⟩
    | cases equal

end Pass

end LiveTemplate
