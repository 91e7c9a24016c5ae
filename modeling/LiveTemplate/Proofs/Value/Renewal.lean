import LiveTemplate.Proofs.Iteration.Index
import LiveTemplate.Proofs.Value.Equality
import LiveTemplate.Proofs.Value.Likeness

/-!
Values that are made anew. A map of arguments has a storage of its own at every reading, while lists
and maps that stand in cells keep theirs. So some storage was given out before a certain moment, the
`floor`, and what was given out since then belongs to maps that readings made. Two readings of one thing
differ in that storage alone, and whether they equal a third value does not depend on it, since no map
made later shares its storage with anything that was there before.
-/

namespace LiveTemplate

namespace Entries

variable {κ α : Type} [DecidableEq κ]

theorem keys_ofPairs_nodup (pairs : List (κ × α)) : ((ofPairs pairs).map Prod.fst).Nodup := by
  suffices general : ∀ entries : List (κ × α), (entries.map Prod.fst).Nodup →
      ((pairs.foldl (fun entries pair => put pair.1 pair.2 entries) entries).map Prod.fst).Nodup from
    general [] List.nodup_nil
  induction pairs with
  | nil => exact fun entries distinct => distinct
  | cons pair rest ih => exact fun entries distinct => ih _ (keys_put_nodup distinct _ _)

theorem mem_ofPairs {pairs : List (κ × α)} {entry : κ × α} (member : entry ∈ ofPairs pairs) :
    entry ∈ pairs := by
  suffices general : ∀ entries : List (κ × α),
      entry ∈ pairs.foldl (fun entries pair => put pair.1 pair.2 entries) entries →
        entry ∈ entries ∨ entry ∈ pairs from (general [] member).resolve_left (by simp)
  clear member
  induction pairs with
  | nil => exact fun entries member => .inl member
  | cons pair rest ih =>
    intro entries member
    rcases ih _ member with early | late
    · rcases mem_put early with rfl | old
      · exact .inr List.mem_cons_self
      · exact .inl old
    · exact .inr (List.mem_cons_of_mem _ late)

end Entries

namespace Value

/-! Moving to other storage -/

mutual

/-- The value with other storage for its lists and maps. -/
def relocate (move : Storage → Storage) : Value → Value
  | list storage items => list (move storage) (relocateItems move items)
  | map storage entries => map (move storage) (relocateEntries move entries)
  | value => value

def relocateItems (move : Storage → Storage) : List Value → List Value
  | [] => []
  | item :: items => item.relocate move :: relocateItems move items

def relocateEntries (move : Storage → Storage) : List (String × Value) → List (String × Value)
  | [] => []
  | (key, value) :: entries => (key, value.relocate move) :: relocateEntries move entries

end

variable {move next : Storage → Storage}

theorem relocateItems_eq_map (items : List Value) :
    relocateItems move items = items.map (relocate move) := by
  induction items with
  | nil => rfl
  | cons item items ih => rw [relocateItems, ih, List.map_cons]

theorem relocateEntries_eq_map (entries : List (String × Value)) :
    relocateEntries move entries = entries.map (Prod.map id (relocate move)) := by
  induction entries with
  | nil => rfl
  | cons entry entries ih =>
    rw [relocateEntries, ih]
    rfl

mutual

theorem relocate_relocate : ∀ value : Value,
    (value.relocate move).relocate next = value.relocate (next ∘ move)
  | undefined | null | bool _ | int _ | float _ | text _ => rfl
  | list _ items => by
    rw [relocate, relocate, relocate, relocateItems_relocateItems items, Function.comp_apply]
  | map _ entries => by
    rw [relocate, relocate, relocate, relocateEntries_relocateEntries entries, Function.comp_apply]

theorem relocateItems_relocateItems : ∀ items : List Value,
    relocateItems next (relocateItems move items) = relocateItems (next ∘ move) items
  | [] => rfl
  | item :: items => by
    rw [relocateItems, relocateItems, relocateItems, relocate_relocate item,
      relocateItems_relocateItems items]

theorem relocateEntries_relocateEntries : ∀ entries : List (String × Value),
    relocateEntries next (relocateEntries move entries) = relocateEntries (next ∘ move) entries
  | [] => rfl
  | (key, value) :: entries => by
    rw [relocateEntries, relocateEntries, relocateEntries, relocate_relocate value,
      relocateEntries_relocateEntries entries]

end

mutual

theorem bare_relocate : ∀ value : Value, (value.relocate move).bare = value.bare
  | undefined | null | bool _ | int _ | float _ | text _ => rfl
  | list _ items => by rw [relocate, bare, bare, bareItems_relocateItems items]
  | map _ entries => by rw [relocate, bare, bare, bareEntries_relocateEntries entries]

theorem bareItems_relocateItems : ∀ items : List Value,
    bareItems (relocateItems move items) = bareItems items
  | [] => rfl
  | item :: items => by
    rw [relocateItems, bareItems, bareItems, bare_relocate item, bareItems_relocateItems items]

theorem bareEntries_relocateEntries : ∀ entries : List (String × Value),
    bareEntries (relocateEntries move entries) = bareEntries entries
  | [] => rfl
  | (key, value) :: entries => by
    rw [relocateEntries, bareEntries, bareEntries, bare_relocate value,
      bareEntries_relocateEntries entries]

end

theorem get_relocate (value : Value) (key : String) :
    (value.relocate move).get key = (value.get key).relocate move := by
  cases value with
  | map storage entries =>
    simp only [relocate, get, relocateEntries_eq_map, Entries.get?_map]
    cases Entries.get? key entries <;> rfl
  | list storage items =>
    simp only [relocate, get, relocateItems_eq_map, List.length_map, List.getElem?_map]
    split
    · rfl
    · cases position? key with
      | none => rfl
      | some position =>
        simp only [Option.bind_some]
        cases items[position]? <;> rfl
  | text value =>
    simp only [relocate, get]
    split <;> rfl
  | _ => rfl

/-! What readings make -/

mutual

/-- A value without a NaN whose storage was given out before `floor`, but for maps with distinct keys
that were made since, from `first` on and before `last`. -/
def Made (floor first last : Storage) : Value → Prop
  | float number => number.isNaN = false
  | list storage items => storage < floor ∧ MadeItems floor first last items
  | map storage entries =>
    (storage < floor ∨ first ≤ storage ∧ storage < last ∧ (entries.map Prod.fst).Nodup) ∧
      MadeEntries floor first last entries
  | _ => True

def MadeItems (floor first last : Storage) : List Value → Prop
  | [] => True
  | item :: items => item.Made floor first last ∧ MadeItems floor first last items

def MadeEntries (floor first last : Storage) : List (String × Value) → Prop
  | [] => True
  | (_, value) :: entries => value.Made floor first last ∧ MadeEntries floor first last entries

end

/-- A value without a NaN whose storage was all given out before `floor`. -/
abbrev Given (floor : Storage) (value : Value) : Prop := value.Made floor floor floor

variable {floor first first' last last' : Storage} {value other : Value}

theorem madeItems_iff {items : List Value} :
    MadeItems floor first last items ↔ ∀ item ∈ items, item.Made floor first last := by
  induction items with
  | nil => simp [MadeItems]
  | cons item items ih => simp [MadeItems, ih]

theorem madeEntries_iff {entries : List (String × Value)} :
    MadeEntries floor first last entries ↔ ∀ entry ∈ entries, entry.2.Made floor first last := by
  induction entries with
  | nil => simp [MadeEntries]
  | cons entry entries ih => simp [MadeEntries, ih]

mutual

theorem Made.mono (wider : ∀ storage, first ≤ storage → storage < last →
    first' ≤ storage ∧ storage < last') : ∀ {value : Value}, value.Made floor first last →
      value.Made floor first' last'
  | undefined, _ | null, _ | bool _, _ | int _, _ | text _, _ => by simp [Made]
  | float _, made => by
    rw [Made] at made ⊢
    exact made
  | list _ _, made => by
    rw [Made] at made ⊢
    exact ⟨made.1, MadeItems.mono wider made.2⟩
  | map storage _, made => by
    rw [Made] at made ⊢
    refine ⟨made.1.imp_right fun ⟨from', upTo, distinct⟩ => ?_, MadeEntries.mono wider made.2⟩
    obtain ⟨low, high⟩ := wider storage from' upTo
    exact ⟨low, high, distinct⟩

theorem MadeItems.mono (wider : ∀ storage, first ≤ storage → storage < last →
    first' ≤ storage ∧ storage < last') : ∀ {items : List Value}, MadeItems floor first last items →
      MadeItems floor first' last' items
  | [], _ => trivial
  | _ :: _, made => by
    rw [MadeItems] at made ⊢
    exact ⟨made.1.mono wider, MadeItems.mono wider made.2⟩

theorem MadeEntries.mono (wider : ∀ storage, first ≤ storage → storage < last →
    first' ≤ storage ∧ storage < last') : ∀ {entries : List (String × Value)},
      MadeEntries floor first last entries → MadeEntries floor first' last' entries
  | [], _ => trivial
  | _ :: _, made => by
    rw [MadeEntries] at made ⊢
    exact ⟨made.1.mono wider, MadeEntries.mono wider made.2⟩

end

theorem Given.made (given : value.Given floor) : value.Made floor first last :=
  given.mono fun _ low high => absurd high (Nat.not_lt_of_le low)

theorem Made.widen (made : value.Made floor first last) (low : first' ≤ first)
    (high : last ≤ last') : value.Made floor first' last' :=
  made.mono fun _ above below => ⟨Nat.le_trans low above, Nat.lt_of_lt_of_le below high⟩

theorem Made.get (made : value.Made floor first last) (key : String) :
    (value.get key).Made floor first last := by
  have absent : undefined.Made floor first last := by simp [Made]
  cases value with
  | list storage items =>
    rw [Made] at made
    simp only [Value.get]
    split
    · simp [Made]
    · cases found : (position? key).bind (items[·]?) with
      | none => exact absent
      | some item =>
        obtain ⟨position, -, there⟩ := Option.bind_eq_some_iff.mp found
        exact madeItems_iff.mp made.2 item (List.mem_of_getElem? there)
  | map storage entries =>
    rw [Made] at made
    simp only [Value.get]
    cases found : Entries.get? key entries with
    | none => exact absent
    | some item => exact madeEntries_iff.mp made.2 _ (Entries.mem_of_get? found)
  | text content =>
    simp only [Value.get]
    split <;> simp [Made]
  | _ => exact absent

/-- A map of arguments is made of what its arguments were made of, and of its own storage. -/
theorem Made.ofPairs {pairs : List (String × Value)} {storage : Storage} (low : first ≤ storage)
    (made : ∀ pair ∈ pairs, pair.2.Made floor first storage) :
    (map storage (Entries.ofPairs pairs)).Made floor first (storage + 1) := by
  rw [Made]
  refine ⟨.inr ⟨low, Nat.lt_succ_self _, Entries.keys_ofPairs_nodup pairs⟩, ?_⟩
  exact madeEntries_iff.mpr fun entry member =>
    (made entry (Entries.mem_ofPairs member)).widen (Nat.le_refl _) (Nat.le_succ _)

/-! Renewed values -/

/-- One mark in place of all storage from `floor` on. -/
def mark (floor sign storage : Nat) : Nat := if storage < floor then storage else sign

/-- The values are the same but for the storage from `floor` on. -/
def Renewed (floor : Storage) (value other : Value) : Prop :=
  value.relocate (mark floor floor) = other.relocate (mark floor floor)

theorem Renewed.refl (floor : Storage) (value : Value) : value.Renewed floor value := rfl

theorem Renewed.symm (renewed : value.Renewed floor other) : other.Renewed floor value :=
  Eq.symm renewed

theorem Renewed.trans {third : Value} (early : value.Renewed floor other)
    (late : other.Renewed floor third) : value.Renewed floor third := Eq.trans early late

theorem Renewed.alike (renewed : value.Renewed floor other) :
    Likeness.contents.Alike value other := by
  change value.bare = other.bare
  rw [← bare_relocate value, ← bare_relocate other]
  exact congrArg bare renewed

theorem Renewed.get (renewed : value.Renewed floor other) (key : String) :
    (value.get key).Renewed floor (other.get key) := by
  unfold Renewed
  rw [← get_relocate, ← get_relocate]
  exact congrArg (Value.get · key) renewed

/-- Maps of renewed arguments are renewed, if both have a storage of their own. -/
theorem Renewed.ofPairs {pairs pairs' : List (String × Value)} {storage storage' : Storage}
    (renewed : List.Forall₂ (fun left right => left.1 = right.1 ∧ left.2.Renewed floor right.2)
      pairs pairs') (fresh : floor ≤ storage) (fresh' : floor ≤ storage') :
    (map storage (Entries.ofPairs pairs)).Renewed floor (map storage' (Entries.ofPairs pairs')) := by
  have entries : pairs.map (Prod.map id (relocate (mark floor floor))) =
      pairs'.map (Prod.map id (relocate (mark floor floor))) := by
    induction renewed with
    | nil => rfl
    | cons head tail ih =>
      rw [List.map_cons, List.map_cons, ih]
      exact congrArg (· :: _) (Prod.ext head.1 head.2)
  unfold Renewed
  rw [relocate, relocate, relocateEntries_eq_map, relocateEntries_eq_map, Entries.ofPairs_map,
    entries, Entries.ofPairs_map, mark, mark, if_neg (Nat.not_lt_of_le fresh),
    if_neg (Nat.not_lt_of_le fresh')]

theorem Renewed.relocate (renewed : value.Renewed floor other) (sign : Storage) :
    value.relocate (mark floor sign) = other.relocate (mark floor sign) := by
  have twice : mark floor sign ∘ mark floor floor = mark floor sign := by
    funext storage
    simp only [Function.comp_apply, mark]
    split
    · rfl
    · rw [if_neg (Nat.lt_irrefl floor)]
  rw [← twice, ← relocate_relocate, ← relocate_relocate]
  exact congrArg (Value.relocate _) renewed

/-! Equality without regard to storage given out since -/

/-- Equality that takes no storage from `floor` on for shared. -/
def equals (floor : Storage) (left right : Value) : Bool :=
  (left.relocate (mark floor (floor + 1))).same (right.relocate (mark floor floor))

theorem equals_congr {left left' right right' : Value} (lefts : left.Renewed floor left')
    (rights : right.Renewed floor right') : equals floor left right = equals floor left' right' := by
  rw [equals, equals, lefts.relocate, rights.relocate]

theorem mark_beq {floor storage storage' : Nat} (moment : Nat)
    (early : storage' < floor ∨ storage' < moment) (late : storage < floor ∨ moment ≤ storage) :
    (mark floor (floor + 1) storage == mark floor floor storage') = (storage == storage') := by
  rw [Bool.eq_iff_iff, beq_iff_eq, beq_iff_eq]
  unfold mark
  split <;> split <;> omega

mutual

/-- A value that was made after another one equals it by its contents, or by storage that both had from
before. -/
theorem same_eq_equals {moment : Storage} : ∀ left right : Value,
    left.Made floor moment last → right.Made floor first moment →
      left.same right = equals floor left right
  | list storage items, right, made, old => by
    cases right with
    | list storage' items' =>
      rw [Made] at made old
      rw [equals, relocate, relocate, same, same, sameItems_eq_equals items items' made.2 old.2,
        mark_beq moment (.inl old.1) (.inl made.1)]
    | _ => rfl
  | map storage entries, right, made, old => by
    cases right with
    | map storage' entries' =>
      rw [Made] at made old
      rw [equals, relocate, relocate, same, same, sameEntries_eq_equals entries entries' made.2 old.2,
        mark_beq moment (old.1.imp_right fun within => within.2.1)
          (made.1.imp_right fun within => within.1), relocateEntries_eq_map, relocateEntries_eq_map,
        List.length_map, List.length_map]
    | _ => rfl
  | undefined, right, _, _ | null, right, _, _ | bool _, right, _, _ | int _, right, _, _
  | float _, right, _, _ | text _, right, _, _ => by cases right <;> rfl

theorem sameItems_eq_equals {moment : Storage} : ∀ lefts rights : List Value,
    MadeItems floor moment last lefts → MadeItems floor first moment rights →
      sameItems lefts rights = sameItems (relocateItems (mark floor (floor + 1)) lefts)
        (relocateItems (mark floor floor) rights)
  | [], rights, _, _ => by cases rights <;> rfl
  | left :: lefts, rights, made, old => by
    cases rights with
    | nil => rfl
    | cons right rights =>
      rw [MadeItems] at made old
      rw [relocateItems, relocateItems, sameItems, sameItems,
        same_eq_equals left right made.1 old.1,
        sameItems_eq_equals lefts rights made.2 old.2, equals]

theorem sameEntries_eq_equals {moment : Storage} : ∀ lefts rights : List (String × Value),
      MadeEntries floor moment last lefts → MadeEntries floor first moment rights →
        sameEntries lefts rights = sameEntries (relocateEntries (mark floor (floor + 1)) lefts)
          (relocateEntries (mark floor floor) rights)
  | [], _, _, _ => rfl
  | (key, left) :: lefts, rights, made, old => by
    rw [MadeEntries] at made
    rw [relocateEntries, sameEntries, sameEntries,
      sameEntries_eq_equals lefts rights made.2 old, relocateEntries_eq_map rights,
      Entries.get?_map]
    cases found : Entries.get? key rights with
    | none => rfl
    | some right =>
      have there := madeEntries_iff.mp old _ (Entries.mem_of_get? found)
      simp only [Option.map_some]
      rw [same_eq_equals left right made.1 there, equals]

end

mutual

/-- What was made equals itself even if it is made again. -/
theorem equals_self : ∀ value : Value, value.Made floor first last → equals floor value value = true
  | list storage items, made => by
    rw [Made] at made
    rw [equals, relocate, relocate, same, mark, mark, if_pos made.1, if_pos made.1]
    simp
  | map storage entries, made => by
    rw [Made] at made
    rw [equals, relocate, relocate, same]
    rcases made.1 with old | ⟨-, -, distinct⟩
    · rw [mark, mark, if_pos old, if_pos old]
      simp
    · rw [relocateEntries_eq_map, relocateEntries_eq_map, List.length_map, List.length_map]
      have entriesSame : sameEntries (entries.map (Prod.map id (relocate (mark floor (floor + 1)))))
          (entries.map (Prod.map id (relocate (mark floor floor)))) = true := by
        refine sameEntries_iff.mpr fun moved member => ?_
        obtain ⟨entry, listed, rfl⟩ := List.mem_map.mp member
        have there := (Entries.get?_eq_some_iff distinct entry.1 entry.2).mpr listed
        refine ⟨entry.2.relocate (mark floor floor), ?_, equals_each entries made.2 entry listed⟩
        change Entries.get? entry.1 _ = _
        rw [Entries.get?_map, there, Option.map_some]
      rw [entriesSame]
      simp
  | float number, made => by
    rw [Made] at made
    exact float_beq_self number made
  | undefined, _ | null, _ => rfl
  | bool _, _ | int _, _ | text _, _ => by simp [equals, relocate, same]

theorem equals_each : ∀ entries : List (String × Value), MadeEntries floor first last entries →
    ∀ entry ∈ entries, equals floor entry.2 entry.2 = true
  | [], _ => nofun
  | (_, value) :: entries, made => by
    rw [MadeEntries] at made
    exact List.forall_mem_cons.mpr ⟨equals_self value made.1, equals_each entries made.2⟩

end

end Value

end LiveTemplate
