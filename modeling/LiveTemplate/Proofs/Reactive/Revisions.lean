import LiveTemplate.Proofs.Reactive.Cells

/-!
Revisions over a whole run. No cell is ever stamped later than the clock, and a change of a cell
stamps it later than every revision that was noted before. So a revision that has not grown tells
that none of the cells behind it was changed.
-/

namespace LiveTemplate

open Effects

namespace Revision

theorem constant_le (revision : Revision) : constant.le revision = true := by
  cases revision <;> simp [constant, le]

theorem le_volatile (revision : Revision) : revision.le volatile = true := by
  cases revision <;> rfl

theorem le_antisymm {left right : Revision} (up : left.le right = true)
    (down : right.le left = true) : left = right := by
  cases left <;> cases right <;> simp_all [le]
  omega

theorem max_le_iff {left right bound : Revision} :
    (left.max right).le bound = true ↔ left.le bound = true ∧ right.le bound = true := by
  constructor
  · intro below
    exact ⟨le_trans (le_max_left left right) below, le_trans (le_max_right left right) below⟩
  · intro both
    unfold max
    split
    · exact both.2
    · exact both.1

theorem max_eq_volatile_iff {left right : Revision} :
    left.max right = volatile ↔ left = volatile ∨ right = volatile := by
  unfold max
  split
  · rename_i below
    cases left <;> cases right <;> simp_all [le]
  · rename_i above
    cases right with
    | tick count => simp
    | volatile => exact absurd (le_volatile left) above

theorem max_mono {left left' right right' : Revision} (lefts : left.le left' = true)
    (rights : right.le right' = true) : (left.max right).le (left'.max right') = true :=
  max_le_iff.mpr
    ⟨le_trans lefts (le_max_left left' right'), le_trans rights (le_max_right left' right')⟩

theorem max_assoc (first second third : Revision) :
    (first.max second).max third = first.max (second.max third) := by
  apply le_antisymm <;> simp only [max_le_iff]
  · have low := max_le_iff.mp (le_max_right first (second.max third))
    exact ⟨⟨le_max_left _ _, low.1⟩, low.2⟩
  · have low := max_le_iff.mp (le_max_left (first.max second) third)
    exact ⟨low.1, low.2, le_max_right _ _⟩

theorem constant_max (revision : Revision) : constant.max revision = revision := by
  rw [max, constant_le, if_pos rfl]

theorem max_constant (revision : Revision) : revision.max constant = revision :=
  le_antisymm (max_le_iff.mpr ⟨le_refl revision, constant_le revision⟩) (le_max_left _ _)

theorem volatile_max (revision : Revision) : volatile.max revision = volatile :=
  max_eq_volatile_iff.mpr (.inl rfl)

end Revision

namespace Tag

variable {changed : CellId → Nat}

theorem latest_append (lefts rights : List Tag) :
    latest changed (lefts ++ rights) = (latest changed lefts).max (latest changed rights) := by
  induction lefts with
  | nil => rw [List.nil_append, latest, Revision.constant_max]
  | cons tag lefts ih => rw [List.cons_append, latest, latest, ih, Revision.max_assoc]

theorem revision_ofMembers (members : List Tag) :
    (ofMembers members).revision changed = latest changed members := by
  match members with
  | [] => rw [ofMembers, revision, latest]
  | [tag] => rw [ofMembers, latest, latest, Revision.max_constant]
  | _ :: _ :: _ => rfl

/-- The revision of a combination is the latest among its members. -/
theorem revision_combine (tags : List Tag) :
    (combine tags).revision changed = latest changed tags := by
  suffices general : ∀ members : List Tag, (combine.go tags members).revision changed =
      (latest changed members.reverse).max (latest changed tags) by
    rw [combine, general, List.reverse_nil, latest, Revision.constant_max]
  induction tags with
  | nil => exact fun members => by rw [combine.go, revision_ofMembers, latest, Revision.max_constant]
  | cons tag rest ih =>
    intro members
    cases tag with
    | constant => rw [combine.go, ih, latest, revision, Revision.constant_max]
    | volatile =>
      rw [combine.go, revision, latest, revision, Revision.volatile_max]
      exact (Revision.max_eq_volatile_iff.mpr (.inr rfl)).symm
    | cell | any =>
      change (combine.go rest (_ :: members)).revision changed = _
      rw [ih, List.reverse_cons, latest_append, Revision.max_assoc, latest, latest, latest,
        Revision.max_constant]

/-- Tags that are at hand are combined as they are. -/
theorem combineM_pure (tags : List Tag) :
    ∃ tag, combineM (tags.map (pure : Tag → Reading Tag)) = pure tag ∧
      ∀ changed, tag.revision changed = latest changed tags := by
  suffices general : ∀ members : List Tag,
      ∃ tag, combineM.go (tags.map (pure : Tag → Reading Tag)) members = pure tag ∧
        ∀ changed, tag.revision changed =
          (latest changed members.reverse).max (latest changed tags) by
    obtain ⟨tag, combined, revision⟩ := general []
    refine ⟨tag, combined, fun changed => ?_⟩
    rw [revision, List.reverse_nil, latest, Revision.constant_max]
  induction tags with
  | nil =>
    intro members
    refine ⟨combine members.reverse, rfl, fun changed => ?_⟩
    rw [revision_combine, latest, Revision.max_constant]
  | cons tag rest ih =>
    intro members
    by_cases moving : tag = volatile
    · subst moving
      refine ⟨volatile, rfl, fun changed => ?_⟩
      rw [latest, revision, Revision.volatile_max]
      exact (Revision.max_eq_volatile_iff.mpr (.inr rfl)).symm
    · obtain ⟨combined, same, revision⟩ := ih (tag :: members)
      refine ⟨combined, ?_, fun changed => ?_⟩
      · rw [← same]
        cases tag <;> first | rfl | exact absurd rfl moving
      · rw [revision, List.reverse_cons, latest_append, Revision.max_assoc, latest, latest,
          Revision.max_constant, latest]

/-- A tag validates as long as its revision has not passed the one noted, unless it is volatile. -/
theorem validates_iff {snapshot : Revision} {tag : Tag} :
    tag.validates changed snapshot = true ↔
      tag.revision changed ≠ .volatile ∧ (tag.revision changed).le snapshot = true := by
  cases tag with
  | constant => exact ⟨fun _ => ⟨nofun, Revision.constant_le snapshot⟩, fun _ => rfl⟩
  | volatile => simp [validates, revision]
  | _ => simp [validates, bne_iff_ne]

end Tag

/-! Runs of the clock -/

namespace Store

/-- A step that leaves the clock and the cells alone: lists may be added, passes begun, storage be
given out, and the host may do what it likes with what is its own. -/
structure Aside (before after : Store) : Prop where
  clock : after.clock = before.clock
  cells : after.cells = before.cells
  lists : before.lists.size ≤ after.lists.size

/-- A run of creations and updates of cells, with all that happens aside, and the cells that it
dirtied. -/
inductive Run (first : Store) : List CellId → Store → Prop
  | start : Run first [] first
  | create {dirtied : List CellId} {before after : Store} {value : Value} {id : CellId} :
      Run first dirtied before → Reading.newCell value before = .ok id after →
      Run first dirtied after
  | update {dirtied : List CellId} {before after : Store} {id : CellId} {value : Value}
      {differs : Bool} :
      Run first dirtied before → Reading.updateCell id value before = .ok differs after →
      Run first (if differs then id :: dirtied else dirtied) after
  | aside {dirtied : List CellId} {before after : Store} :
      Run first dirtied before → before.Aside after → Run first dirtied after

/-- No cell was changed later than now. -/
def Timely (store : Store) : Prop := ∀ id, store.changed id ≤ store.clock

end Store

namespace Reading

open Store

/-- An update either finds the value unchanged and does nothing, or puts the new value under the
next count of the clock. -/
theorem updateCell_stamps {id : CellId} {value : Value} {differs : Bool} {before after : Store}
    (ended : updateCell id value before = .ok differs after) :
    id < before.cells.size ∧
      if differs then
        after = { before with
          clock := before.clock + 1
          cells := before.cells.setIfInBounds id ⟨value, before.clock + 1⟩ }
      else after = before := by
  obtain ⟨old, between, read, rest⟩ := bind_ok.mp ended
  obtain ⟨found, rfl⟩ := readCell_ok.mp read
  refine ⟨lt_of_value? found, ?_⟩
  by_cases equal : (old == value) = true
  · rw [if_pos equal] at rest
    obtain ⟨rfl, rfl⟩ := pure_ok.mp rest
    exact rfl
  · rw [if_neg equal] at rest
    obtain ⟨_, last, put, done⟩ := bind_ok.mp rest
    obtain ⟨rfl, rfl⟩ := pure_ok.mp done
    exact (modify_ok.mp put).symm

end Reading

namespace Store

/-- What a run keeps of the store it began with. -/
structure Follows (first : Store) (dirtied : List CellId) (last : Store) : Prop where
  clock : first.clock ≤ last.clock
  cells : first.cells.size ≤ last.cells.size
  lists : first.lists.size ≤ last.lists.size
  /-- A cell is as it was unless it was dirtied, and then it was changed later than the clock
  stood at the beginning. -/
  fate : ∀ id, id < first.cells.size →
    last.cells[id]? = first.cells[id]? ∧ id ∉ dirtied ∨
      first.clock < last.changed id ∧ id ∈ dirtied

theorem changed_push (store : Store) (cell : Cell) {id : CellId} (old : id ≠ store.cells.size) :
    ({ store with cells := store.cells.push cell } : Store).changed id = store.changed id := by
  simp only [changed, Array.getElem?_push, if_neg old]

theorem changed_setIfInBounds (store : Store) (clock : Nat) {target : CellId} (cell : Cell)
    (bound : target < store.cells.size) (id : CellId) :
    ({ store with clock, cells := store.cells.setIfInBounds target cell } : Store).changed id =
      if target = id then cell.changed else store.changed id := by
  unfold changed
  rw [Array.getElem?_setIfInBounds]
  by_cases same : target = id
  · simp [same, same ▸ bound]
  · simp [same]

namespace Run

variable {first last : Store} {dirtied : List CellId}

theorem timely (run : Run first dirtied last) (begun : first.Timely) : last.Timely := by
  induction run with
  | start => exact begun
  | @create _ before _ _ _ _ created ih =>
    obtain ⟨rfl, rfl⟩ := Reading.newCell_ok.mp created
    intro id
    by_cases fresh : id = before.cells.size
    · subst fresh
      simp [changed]
    · rw [changed_push _ _ fresh]
      exact ih id
  | @update _ _ _ _ _ differs _ updated ih =>
    obtain ⟨bound, result⟩ := Reading.updateCell_stamps updated
    cases differs with
    | false =>
      obtain rfl := result
      exact ih
    | true =>
      obtain rfl := result
      intro id
      rw [changed_setIfInBounds _ _ _ bound]
      split
      · exact Nat.le_refl _
      · exact Nat.le_succ_of_le (ih id)
  | aside _ moved ih =>
    intro id
    simpa only [changed, moved.cells, moved.clock] using ih id

/-- What each step keeps, the run keeps. -/
theorem follows (run : Run first dirtied last) : first.Follows dirtied last := by
  induction run with
  | start => exact ⟨Nat.le_refl _, Nat.le_refl _, Nat.le_refl _, fun id _ => .inl ⟨rfl, by simp⟩⟩
  | create _ created ih =>
    obtain ⟨rfl, rfl⟩ := Reading.newCell_ok.mp created
    refine ⟨ih.clock, by simpa using Nat.le_succ_of_le ih.cells, ih.lists, fun id bound => ?_⟩
    have old := Nat.ne_of_lt (Nat.lt_of_lt_of_le bound ih.cells)
    rcases ih.fate id bound with ⟨same, clean⟩ | ⟨late, dirty⟩
    · refine .inl ⟨?_, clean⟩
      simp only [Array.getElem?_push, if_neg old, same]
    · exact .inr ⟨by rwa [changed_push _ _ old], dirty⟩
  | @update _ _ _ target _ differs _ updated ih =>
    obtain ⟨range, result⟩ := Reading.updateCell_stamps updated
    cases differs with
    | false =>
      obtain rfl := result
      exact ih
    | true =>
      obtain rfl := result
      refine ⟨Nat.le_succ_of_le ih.clock, by simpa using ih.cells, ih.lists, fun id bound => ?_⟩
      by_cases hit : target = id
      · refine .inr ⟨?_, by simp [hit]⟩
        rw [changed_setIfInBounds _ _ _ range, if_pos hit]
        exact Nat.lt_succ_of_le ih.clock
      · rcases ih.fate id bound with ⟨same, clean⟩ | ⟨late, dirty⟩
        · refine .inl ⟨?_, by simp [clean, Ne.symm hit]⟩
          simp only [Array.getElem?_setIfInBounds, if_neg hit, same]
        · refine .inr ⟨?_, by simp [dirty]⟩
          rwa [changed_setIfInBounds _ _ _ range, if_neg hit]
  | aside _ moved ih =>
    refine ⟨by rw [moved.clock]; exact ih.clock, by rw [moved.cells]; exact ih.cells,
      Nat.le_trans ih.lists moved.lists, fun id bound => ?_⟩
    simpa only [changed, moved.cells] using ih.fate id bound

/-- A cell that was not dirtied keeps its stamp, and no stamp falls. -/
theorem changed_mono (run : Run first dirtied last) (begun : first.Timely) (id : CellId) :
    first.changed id ≤ last.changed id := by
  by_cases bound : id < first.cells.size
  · rcases run.follows.fate id bound with ⟨same, -⟩ | ⟨late, -⟩
    · simp only [changed, same]
      exact Nat.le_refl _
    · exact Nat.le_of_lt (Nat.lt_of_le_of_lt (begun id) late)
  · have missing : first.cells[id]? = none := Array.getElem?_eq_none (Nat.le_of_not_lt bound)
    simp [changed, missing]

end Run

end Store

theorem Tag.revision_mono {before after : CellId → Nat} (later : ∀ id, before id ≤ after id) :
    ∀ tag : Tag, (tag.revision before).le (tag.revision after) = true
  | constant => Revision.le_refl _
  | volatile => Revision.le_refl _
  | cell id => by simpa [revision, Revision.le] using later id
  | any members => by
    rw [revision, revision]
    exact go members
where
  go : ∀ tags : List Tag, (latest before tags).le (latest after tags) = true
    | [] => Revision.le_refl _
    | tag :: tags => by
      rw [latest, latest]
      exact Revision.max_mono (revision_mono later tag) (go tags)

end LiveTemplate
