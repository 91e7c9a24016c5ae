import LiveTemplate.Iteration.Sync
import LiveTemplate.Proofs.Laws
import LiveTemplate.Proofs.Reactive.Revisions

/-!
Watching a tag that has to be worked out each time. What is watched is a reading of a tag, with the
revision noted for it. As long as the cells behind the tag hold what they held, it is worked out to
be the same tag, so that a bound on its revision tells that nothing behind it has changed since.
-/

namespace LiveTemplate

open Effects

/-! Stores -/

namespace Store

/-- All cells and lists of `base` are there. -/
structure Within (base store : Store) : Prop where
  cells : base.cells.size ≤ store.cells.size
  lists : base.lists.size ≤ store.lists.size

/-- Cells and lists may be new. The clock and all older cells are left as they are. -/
structure Leaves (before after : Store) : Prop extends before.Within after where
  clock : after.clock = before.clock
  old : ∀ id, id < before.cells.size → after.cells[id]? = before.cells[id]?

/-- The clock may have gone on. A cell that has changed since was stamped later than before. -/
structure Leads (before after : Store) : Prop extends before.Within after where
  clock : before.clock ≤ after.clock
  fate : ∀ id, id < before.cells.size →
    after.cells[id]? = before.cells[id]? ∨ before.clock < after.changed id

theorem Within.refl (store : Store) : store.Within store := ⟨Nat.le_refl _, Nat.le_refl _⟩

theorem Within.trans {first second third : Store} (early : first.Within second)
    (late : second.Within third) : first.Within third :=
  ⟨Nat.le_trans early.cells late.cells, Nat.le_trans early.lists late.lists⟩

theorem changed_eq {store other : Store} {id : CellId} (same : store.cells[id]? = other.cells[id]?) :
    store.changed id = other.changed id := by
  simp only [changed, same]

namespace Leaves

theorem refl (store : Store) : store.Leaves store := ⟨.refl store, rfl, fun _ _ => rfl⟩

theorem trans {first second third : Store} (early : first.Leaves second)
    (late : second.Leaves third) : first.Leaves third :=
  ⟨early.toWithin.trans late.toWithin, late.clock.trans early.clock,
    fun id bound => (late.old id (Nat.lt_of_lt_of_le bound early.cells)).trans (early.old id bound)⟩

theorem newList (store : Store) :
    store.Leaves { store with lists := store.lists.push {} } :=
  ⟨⟨Nat.le_refl _, by simp⟩, rfl, fun _ _ => rfl⟩

theorem setList (store : Store) (list : ListId) (artifacts : Artifacts) :
    store.Leaves { store with lists := store.lists.setIfInBounds list artifacts } :=
  ⟨⟨Nat.le_refl _, by simp⟩, rfl, fun _ _ => rfl⟩

theorem newCell (store : Store) (value : Value) :
    store.Leaves { store with cells := store.cells.push ⟨value, store.clock⟩ } := by
  refine ⟨⟨by simp, Nat.le_refl _⟩, rfl, fun id bound => ?_⟩
  simp only [Array.getElem?_push, if_neg (Nat.ne_of_lt bound)]

end Leaves

namespace Leads

theorem refl (store : Store) : store.Leads store :=
  ⟨.refl store, Nat.le_refl _, fun _ _ => .inl rfl⟩

theorem trans {first second third : Store} (early : first.Leads second)
    (late : second.Leads third) : first.Leads third := by
  refine ⟨early.toWithin.trans late.toWithin, Nat.le_trans early.clock late.clock,
    fun id bound => ?_⟩
  rcases late.fate id (Nat.lt_of_lt_of_le bound early.cells) with same | changed
  · rw [same, changed_eq same]
    exact early.fate id bound
  · exact .inr (Nat.lt_of_le_of_lt early.clock changed)

theorem of_leaves {before after : Store} (leaves : before.Leaves after) : before.Leads after :=
  ⟨leaves.toWithin, Nat.le_of_eq leaves.clock.symm, fun id bound => .inl (leaves.old id bound)⟩

theorem tick_le {before after : Store} (leads : before.Leads after) :
    (Revision.tick before.clock).le (.tick after.clock) = true := by
  simpa [Revision.le] using leads.clock

theorem replaceCell (store : Store) (id : CellId) (value : Value) :
    store.Leads { store with
      clock := store.clock + 1
      cells := store.cells.setIfInBounds id ⟨value, store.clock + 1⟩ } := by
  refine ⟨⟨by simp, Nat.le_refl _⟩, Nat.le_succ _, fun other bound => ?_⟩
  by_cases same : other = id
  · subst same
    exact .inr (by simp [changed, bound])
  · exact .inl (Array.getElem?_setIfInBounds_ne (Ne.symm same))

end Leads

end Store

/-! Tags -/

namespace Tag

mutual

/-- The cells behind a tag. -/
def cells : Tag → List CellId
  | constant | volatile => []
  | cell id => [id]
  | any members => allCells members

def allCells : List Tag → List CellId
  | [] => []
  | tag :: tags => tag.cells ++ allCells tags

end

theorem mem_allCells {tags : List Tag} {id : CellId} :
    id ∈ allCells tags ↔ ∃ tag ∈ tags, id ∈ tag.cells := by
  induction tags with
  | nil => simp [allCells]
  | cons tag tags ih => simp [allCells, ih]

theorem allCells_append (lefts rights : List Tag) :
    allCells (lefts ++ rights) = allCells lefts ++ allCells rights := by
  induction lefts with
  | nil => rfl
  | cons tag lefts ih => rw [List.cons_append, allCells, ih, allCells, List.append_assoc]

variable {changed changed' : CellId → Nat}

mutual

theorem le_revision : ∀ (tag : Tag) {id : CellId}, id ∈ tag.cells →
    (Revision.tick (changed id)).le (tag.revision changed) = true
  | constant, _, member | volatile, _, member => by simp [cells] at member
  | cell other, id, member => by
    obtain rfl : id = other := by simpa [cells] using member
    exact Revision.le_refl _
  | any members, _, member => le_latest members member

theorem le_latest : ∀ (tags : List Tag) {id : CellId}, id ∈ allCells tags →
    (Revision.tick (changed id)).le (latest changed tags) = true
  | [], _, member => by simp [allCells] at member
  | tag :: tags, id, member => by
    rw [latest]
    rcases List.mem_append.mp member with member | member
    · exact Revision.le_trans (le_revision tag member) (Revision.le_max_left _ _)
    · exact Revision.le_trans (le_latest tags member) (Revision.le_max_right _ _)

end

mutual

theorem revision_congr : ∀ (tag : Tag), (∀ id ∈ tag.cells, changed id = changed' id) →
    tag.revision changed = tag.revision changed'
  | constant, _ | volatile, _ => rfl
  | cell id, same => congrArg Revision.tick (same id List.mem_cons_self)
  | any members, same => latest_congr members same

theorem latest_congr : ∀ (tags : List Tag), (∀ id ∈ allCells tags, changed id = changed' id) →
    latest changed tags = latest changed' tags
  | [], _ => rfl
  | tag :: tags, same => by
    rw [latest, latest, revision_congr tag fun id member => same id (List.mem_append_left _ member),
      latest_congr tags fun id member => same id (List.mem_append_right _ member)]

end

theorem latest_le_iff {tags : List Tag} {bound : Revision} :
    (latest changed tags).le bound = true ↔
      ∀ tag ∈ tags, (tag.revision changed).le bound = true := by
  induction tags with
  | nil => simp [latest, Revision.constant_le]
  | cons tag tags ih => rw [latest, Revision.max_le_iff, ih, List.forall_mem_cons]

mutual

/-- No part of the tag changes without notice. -/
def Steady : Tag → Prop
  | constant | cell _ => True
  | volatile => False
  | any members => AllSteady members

def AllSteady : List Tag → Prop
  | [] => True
  | tag :: tags => tag.Steady ∧ AllSteady tags

end

theorem allSteady_iff {tags : List Tag} : AllSteady tags ↔ ∀ tag ∈ tags, tag.Steady := by
  induction tags with
  | nil => simp [AllSteady]
  | cons tag tags ih => rw [AllSteady, ih, List.forall_mem_cons]

mutual

theorem steady_iff : ∀ tag : Tag, tag.Steady ↔ tag.revision changed ≠ .volatile
  | constant => by simp [Steady, revision, Revision.constant]
  | cell _ => by simp [Steady, revision]
  | volatile => by simp [Steady, revision]
  | any members => by
    rw [Steady, revision]
    exact allSteady_latest members

theorem allSteady_latest : ∀ tags : List Tag, AllSteady tags ↔ latest changed tags ≠ .volatile
  | [] => by simp [AllSteady, latest, Revision.constant]
  | tag :: tags => by
    rw [AllSteady, latest, Ne, Revision.max_eq_volatile_iff, not_or, steady_iff tag,
      allSteady_latest tags]

end

theorem steady_combine {tags : List Tag} : (combine tags).Steady ↔ ∀ tag ∈ tags, tag.Steady := by
  rw [steady_iff, @revision_combine (fun _ => 0), ← allSteady_latest, allSteady_iff]

/-- A combination without volatile members has the cells of all of them. -/
theorem cells_combine {tags : List Tag} (steady : ∀ tag ∈ tags, tag ≠ volatile) :
    (combine tags).cells = allCells tags := by
  have known : ∀ members : List Tag, (ofMembers members).cells = allCells members := by
    intro members
    match members with
    | [] => rfl
    | [tag] => simp [ofMembers, allCells]
    | _ :: _ :: _ => rfl
  suffices general : ∀ members : List Tag, (combine.go tags members).cells =
      allCells members.reverse ++ allCells tags from general []
  induction tags with
  | nil => exact fun members => by rw [combine.go, known, allCells, List.append_nil]
  | cons tag rest ih =>
    obtain ⟨first, others⟩ := List.forall_mem_cons.mp steady
    intro members
    cases tag with
    | constant => rw [combine.go, ih others, allCells, cells, List.nil_append]
    | volatile => exact absurd rfl first
    | cell | any =>
      change (combine.go rest (_ :: members)).cells = _
      rw [ih others, List.reverse_cons, allCells_append, allCells, allCells, allCells,
        List.append_nil, List.append_assoc]

theorem combine_volatile {tags : List Tag} (moving : volatile ∈ tags) : combine tags = volatile := by
  suffices general : ∀ members : List Tag, combine.go tags members = volatile from general []
  induction tags with
  | nil => simp at moving
  | cons tag rest ih =>
    intro members
    cases tag with
    | volatile => rfl
    | constant | cell | any => exact ih ((List.mem_cons.mp moving).resolve_left nofun) _

theorem mem_cells_combine {tags : List Tag} {id : CellId} (member : id ∈ (combine tags).cells) :
    ∃ tag ∈ tags, id ∈ tag.cells := by
  by_cases moving : volatile ∈ tags
  · rw [combine_volatile moving] at member
    simp [cells] at member
  · rw [cells_combine fun tag among same => moving (same ▸ among)] at member
    exact mem_allCells.mp member

/-- The tags that readings give one after another, none of them volatile. -/
inductive Told : List (Reading Tag) → List Tag → Store → Store → Prop
  | nil {store : Store} : Told [] [] store store
  | cons {telling : Reading Tag} {tellings : List (Reading Tag)} {tag : Tag} {tags : List Tag}
      {store between last : Store} : telling store = .ok tag between → tag ≠ .volatile →
      Told tellings tags between last → Told (telling :: tellings) (tag :: tags) store last

theorem Told.steady {tellings : List (Reading Tag)} {tags : List Tag} {store last : Store}
    (told : Told tellings tags store last) : ∀ tag ∈ tags, tag ≠ volatile := by
  induction told with
  | nil => simp
  | cons _ first _ ih => exact List.forall_mem_cons.mpr ⟨first, ih⟩

/-- A combination is volatile, or made of tags that were told. -/
theorem combineM_ok {tellings : List (Reading Tag)} {store last : Store} {tag : Tag}
    (ended : combineM tellings store = .ok tag last) :
    tag = .volatile ∨ ∃ tags, Told tellings tags store last ∧ tag = combine tags := by
  suffices general : ∀ members : List Tag, combineM.go tellings members store = .ok tag last →
      tag = .volatile ∨ ∃ tags, Told tellings tags store last ∧
        tag = combine (members.reverse ++ tags) from general [] ended
  clear ended
  induction tellings generalizing store with
  | nil =>
    intro members ended
    obtain ⟨rfl, rfl⟩ := pure_ok.mp ended
    exact .inr ⟨[], .nil, by rw [List.append_nil]⟩
  | cons telling rest ih =>
    intro members ended
    obtain ⟨first, between, told, ended⟩ := bind_ok.mp ended
    by_cases moving : first = .volatile
    · subst moving
      obtain ⟨rfl, rfl⟩ := pure_ok.mp ended
      exact .inl rfl
    · have ended : combineM.go rest (first :: members) between = .ok tag last := by
        cases first <;> first | exact ended | exact absurd rfl moving
      refine (ih _ ended).imp id ?_
      rintro ⟨tags, others, rfl⟩
      refine ⟨first :: tags, .cons told moving others, ?_⟩
      rw [List.reverse_cons, List.append_assoc, List.singleton_append]

theorem Told.combineM {tellings : List (Reading Tag)} {tags : List Tag} {store last : Store}
    (told : Told tellings tags store last) :
    combineM tellings store = .ok (combine tags) last := by
  suffices general : ∀ members : List Tag, combineM.go tellings members store =
      .ok (combine (members.reverse ++ tags)) last from general []
  induction told with
  | nil => exact fun members => by rw [List.append_nil]; rfl
  | @cons _ rest first tags _ between last told moving _ ih =>
    intro members
    have next := ih (first :: members)
    rw [List.reverse_cons, List.append_assoc, List.singleton_append] at next
    refine (bind_of_ok told).trans (.trans ?_ next)
    cases first <;> first | rfl | exact absurd rfl moving

end Tag

/-! Readings of tags -/

/-- Old cells and the clock are left alone. -/
def Store.leaving (start : Store) : Law Store where
  holds := start.Leaves
  moves := Leaves
  ends _ := start.Leaves
  refl := Leaves.refl
  trans := Leaves.trans

theorem Law.Goes.since {α : Type} {start before : Store} {reading : Reading α}
    {post : α → Store → Prop} (goes : before.leaving.Goes before reading post)
    (leaves : start.Leaves before) : start.leaving.Goes before reading post := by
  refine .intro (fun result after ended => ?_) fun fault after failed => ?_
  · obtain ⟨later, moves, right⟩ := goes.of_ok ended
    exact ⟨leaves.trans later, moves, right⟩
  · exact leaves.trans (goes.of_error failed)

theorem Store.leaving_attempt {store : Store} {α : Type} {reading : Reading α}
    {post : α → Store → Prop} (goes : store.leaving.Goes store reading post) :
    store.leaving.Goes store reading.attempt fun outcome after =>
      ∀ value, outcome = .ok value → post value after := by
  unfold Law.Goes at goes ⊢
  unfold Reading.attempt
  revert goes
  cases reading store with
  | ok value after =>
    rintro ⟨leaves, moves, right⟩
    refine ⟨leaves, moves, ?_⟩
    rintro _ ⟨⟩
    exact right
  | error fault after =>
    cases fault with
    | failed error => exact fun leaves => ⟨leaves, leaves, nofun⟩
    | broken defect => exact id

/-- The clock may go on. -/
def Store.leading (start : Store) : Law Store where
  holds := start.Leads
  moves := Leads
  ends _ := start.Leads
  refl := Leads.refl
  trans := Leads.trans

namespace Store

variable {start store : Store}

theorem leading_of_leaving {α : Type} {reading : Reading α} {post : α → Store → Prop}
    (goes : store.leaving.Goes store reading post) :
    store.leading.Goes store reading fun result after => store.Leaves after ∧ post result after := by
  refine .intro (fun result after ended => ?_) fun fault after failed => ?_
  · obtain ⟨leaves, -, right⟩ := goes.of_ok ended
    exact ⟨.of_leaves leaves, .of_leaves leaves, leaves, right⟩
  · exact .of_leaves (goes.of_error failed)

theorem artifacts_leads (list : ListId) :
    store.leading.Goes store (Reading.artifacts list) fun _ _ => True := by
  refine .get_bind ?_
  split
  · exact .pure (.refl store) trivial
  · exact Leads.refl store

theorem changeArtifacts_leads (list : ListId) (change : Artifacts → Artifacts) :
    store.leading.Goes store (do
      let current ← Reading.artifacts list
      Reading.setArtifacts list (change current)) fun _ _ => True :=
  .bind (artifacts_leads list) fun _ _ leads _ _ =>
    ⟨leads.trans (.of_leaves (.setList _ _ _)), .of_leaves (.setList _ _ _), trivial⟩

theorem updateCell_leads (leads : start.Leads store) (id : CellId) (value : Value) :
    start.leading.Goes store (Reading.updateCell id value) fun _ _ => True := by
  refine .through (fun _ after => after = store) (.get_bind ?_) ?_
  · split
    · exact .pure leads rfl
    · exact leads
  · rintro old _ _ _ rfl
    split
    · exact .pure leads trivial
    · refine .modify_bind (Leads.replaceCell _ id value) ?_
      exact .pure (leads.trans (Leads.replaceCell _ id value)) trivial

theorem updateRefs_leads (leads : start.Leads store) (refs : ItemRefs) (element : PassItem) :
    start.leading.Goes store (Walk.updateRefs refs element) fun _ _ => True := by
  refine .bind (updateCell_leads leads _ _) fun _ _ leads _ _ => ?_
  exact .bind (updateCell_leads leads _ _) fun _ _ leads _ _ => .pure leads trivial

theorem newCell_leads (leads : start.Leads store) (value : Value) :
    start.leading.Goes store (Reading.newCell value) fun id after => id < after.cells.size :=
  ⟨leads.trans (.of_leaves (.newCell store value)), .of_leaves (.newCell store value), by simp⟩

theorem newRefs_leads (leads : start.Leads store) (element : PassItem) :
    start.leading.Goes store element.newRefs fun refs after =>
      refs.value < after.cells.size ∧ refs.memo < after.cells.size := by
  refine .bind (newCell_leads leads _) fun value _ leads _ first => ?_
  refine .bind (newCell_leads leads _) fun memo _ leads moves second => ?_
  exact .pure leads ⟨Nat.lt_of_lt_of_le first moves.cells, second⟩

/-- The cells of an item that is to be inserted are there. -/
theorem meet_leads (leads : start.Leads store) (walk : Walk) (element : PassItem) :
    start.leading.Goes store (walk.meet element) fun result after =>
      ∀ refs before, result.2 = some (.insert refs before) →
        refs.value < after.cells.size ∧ refs.memo < after.cells.size := by
  unfold Walk.meet
  split
  · split
    · exact .pure leads nofun
    · exact .bind (updateRefs_leads leads _ _) fun _ _ leads _ _ => .pure leads nofun
  · split
    · refine .bind (newRefs_leads leads _) fun refs after leads _ there => .pure leads ?_
      rintro _ _ ⟨⟩
      exact there
    · split
      · exact leads
      · refine .bind (updateRefs_leads leads _ _) fun _ _ leads _ _ => ?_
        dsimp only
        split
        · exact .pure leads nofun
        · exact .pure leads nofun

end Store

/-- A tag that is worked out from the cells behind it, all of them in `base`: it leaves them alone,
and as long as they hold the same it is the same tag. -/
structure Reading.Tells (base : Store) (telling : Reading Tag) : Prop where
  quiet : ∀ {store}, base.Within store →
    store.leaving.Goes store telling fun tag _ => ∀ id ∈ tag.cells, id < base.cells.size
  steady : ∀ {store other tag after}, base.Within store → base.Within other →
    telling store = .ok tag after → tag.Steady → (∀ id ∈ tag.cells, store.cells[id]? = other.cells[id]?) →
    ∃ last, telling other = .ok tag last

namespace Reading.Tells

variable {base store other after : Store} {telling : Reading Tag} {tag : Tag}

theorem leaves (tells : telling.Tells base) (within : base.Within store)
    (told : telling store = .ok tag after) : store.Leaves after :=
  ((tells.quiet within).of_ok told).1

theorem grounded (tells : telling.Tells base) (within : base.Within store)
    (told : telling store = .ok tag after) : ∀ id ∈ tag.cells, id < base.cells.size :=
  ((tells.quiet within).of_ok told).2.2

/-- A tag that was worked out is worked out again after a step that leaves the cells alone, or
before it. -/
theorem again (tells : telling.Tells base) (within : base.Within store)
    (told : telling store = .ok tag after) (steady : tag.Steady)
    (within' : base.Within other)
    (same : ∀ id, id < base.cells.size → store.cells[id]? = other.cells[id]?) :
    ∃ last, telling other = .ok tag last :=
  tells.steady within within' told steady fun id member =>
    same id (tells.grounded within told id member)

theorem last {later : Store} (tells : telling.Tells base) (within : base.Within later) :
    telling.Tells later where
  quiet := fun further => (tells.quiet (within.trans further)).mono fun _ _ _ _ grounded id member =>
    Nat.lt_of_lt_of_le (grounded id member) within.cells
  steady := fun here there => tells.steady (within.trans here) (within.trans there)

theorem pure (grounded : ∀ id ∈ tag.cells, id < base.cells.size) :
    Tells base (Pure.pure tag) where
  quiet := fun _ => .pure (.refl _) grounded
  steady := by
    rintro store other _ _ _ _ ended _ _
    obtain ⟨rfl, rfl⟩ := pure_ok.mp ended
    exact ⟨other, rfl⟩

/-- Tags told one after another leave the cells alone and lie in the base. -/
theorem told {tellings : List (Reading Tag)} {tags : List Tag}
    (tells : ∀ telling ∈ tellings, Tells base telling)
    (told : Tag.Told tellings tags store after) (within : base.Within store) :
    store.Leaves after ∧ ∀ id ∈ Tag.allCells tags, id < base.cells.size := by
  induction told with
  | nil => exact ⟨.refl _, by simp [Tag.allCells]⟩
  | cons first _ _ ih =>
    obtain ⟨now, others⟩ := List.forall_mem_cons.mp tells
    have leaves := now.leaves within first
    obtain ⟨rest, grounded⟩ := ih others (within.trans leaves.toWithin)
    refine ⟨leaves.trans rest, fun id member => ?_⟩
    rcases List.mem_append.mp member with member | member
    · exact now.grounded within first id member
    · exact grounded id member

theorem told_again {tellings : List (Reading Tag)} {tags : List Tag}
    (tells : ∀ telling ∈ tellings, Tells base telling)
    (told : Tag.Told tellings tags store after) (within : base.Within store)
    (within' : base.Within other)
    (steady : ∀ tag ∈ tags, tag.Steady)
    (same : ∀ id ∈ Tag.allCells tags, store.cells[id]? = other.cells[id]?) :
    ∃ last, Tag.Told tellings tags other last := by
  induction told generalizing other with
  | nil => exact ⟨other, .nil⟩
  | @cons _ rest tag tags store between _ first moving later ih =>
    obtain ⟨now, others⟩ := List.forall_mem_cons.mp tells
    obtain ⟨steadyFirst, steadyOthers⟩ := List.forall_mem_cons.mp steady
    obtain ⟨between', first'⟩ := now.steady within within' first steadyFirst fun id member =>
      same id (List.mem_append_left _ member)
    have leaves := now.leaves within first
    have leaves' := now.leaves within' first'
    have grounded := (Tells.told others later (within.trans leaves.toWithin)).2
    have old : ∀ id ∈ Tag.allCells tags, between.cells[id]? = store.cells[id]? := fun id member =>
      leaves.old id (Nat.lt_of_lt_of_le (grounded id member) within.cells)
    have old' : ∀ id ∈ Tag.allCells tags, between'.cells[id]? = other.cells[id]? := fun id member =>
      leaves'.old id (Nat.lt_of_lt_of_le (grounded id member) within'.cells)
    have same' : ∀ id ∈ Tag.allCells tags, between.cells[id]? = between'.cells[id]? := by
      intro id member
      rw [old id member, old' id member]
      exact same id (List.mem_append_right _ member)
    obtain ⟨last, rest'⟩ := ih others (within.trans leaves.toWithin)
      (within'.trans leaves'.toWithin) steadyOthers same'
    exact ⟨last, .cons first' moving rest'⟩

theorem combineM {tellings : List (Reading Tag)} (tells : ∀ telling ∈ tellings, Tells base telling) :
    Tells base (Tag.combineM tellings) where
  quiet := by
    have going : ∀ (tellings : List (Reading Tag)), (∀ telling ∈ tellings, Tells base telling) →
        ∀ (members : List Tag) {store : Store}, base.Within store →
        (∀ tag ∈ members, ∀ id ∈ tag.cells, id < base.cells.size) →
        store.leaving.Goes store (Tag.combineM.go tellings members) fun tag _ =>
          ∀ id ∈ tag.cells, id < base.cells.size := by
      intro tellings
      induction tellings with
      | nil =>
        intro _ members store _ known
        refine .pure (.refl _) fun id member => ?_
        obtain ⟨tag, among, inside⟩ := Tag.mem_cells_combine member
        exact known tag (List.mem_reverse.mp among) id inside
      | cons telling rest ih =>
        intro tells members store within known
        obtain ⟨now, others⟩ := List.forall_mem_cons.mp tells
        refine .bind (now.quiet within) fun tag between leaves _ grounded => ?_
        split
        · exact .pure leaves (by simp [Tag.cells])
        · refine (ih others _ (within.trans leaves.toWithin) ?_).since leaves
          exact List.forall_mem_cons.mpr ⟨grounded, known⟩
    intro store within
    exact going tellings tells [] within (by simp)
  steady := by
    intro store other tag after within within' ended steady same
    rcases Tag.combineM_ok ended with rfl | ⟨tags, told, rfl⟩
    · exact absurd steady id
    · rw [Tag.cells_combine told.steady] at same
      obtain ⟨last, again⟩ := told_again tells told within within' (Tag.steady_combine.mp steady) same
      exact ⟨last, again.combineM⟩

/-- Two tags in a row. -/
theorem both {telling' : Reading Tag} (early : telling.Tells base) (late : telling'.Tells base) :
    Tells base (do
      let first ← telling
      let second ← telling'
      return Tag.combine [first, second]) where
  quiet := by
    intro store within
    refine .bind (early.quiet within) fun first between leaves _ grounded => ?_
    refine .bind ((late.quiet (within.trans leaves.toWithin)).since leaves)
      fun second _ leaves _ grounded' => .pure leaves fun id member => ?_
    obtain ⟨tag, among, inside⟩ := Tag.mem_cells_combine member
    rcases List.mem_cons.mp among with rfl | among
    · exact grounded id inside
    · exact grounded' id (List.mem_singleton.mp among ▸ inside)
  steady := by
    intro store other tag after within within' ended steady same
    obtain ⟨first, between, one, rest⟩ := bind_ok.mp ended
    obtain ⟨second, _, two, done⟩ := bind_ok.mp rest
    obtain ⟨rfl, rfl⟩ := pure_ok.mp done
    have each := Tag.steady_combine.mp steady
    have moving : ∀ tag ∈ [first, second], tag ≠ .volatile := by
      rintro _ member rfl
      exact each _ member
    rw [Tag.cells_combine moving] at same
    have tells : ∀ given ∈ [telling, telling'], Tells base given := by simp [early, late]
    obtain ⟨last, again⟩ := told_again tells (.cons one (moving _ (by simp))
      (.cons two (moving _ (by simp)) .nil)) within within' each same
    cases again with
    | cons one' _ rest' =>
      cases rest' with
      | cons two' _ _ => exact ⟨_, (bind_of_ok one').trans (bind_of_ok two')⟩

end Reading.Tells

/-! What is known of a watched tag -/

/-- Up to `bound`, all changes behind the tag are known to have been noted: what was noted is not
older than the bound, or it covered the tag in a store at that time or later. -/
def Reading.Calm (store : Store) (telling : Reading Tag) (noted bound : Revision) : Prop :=
  bound.le noted = true ∨ ∃ earlier : Store, bound.le (.tick earlier.clock) = true ∧
    earlier.Leads store ∧ telling.Tells earlier ∧ ∀ tag last, telling earlier = .ok tag last →
      tag.Steady → (earlier.revisionOf tag).le noted = true

namespace Reading.Calm

variable {store after : Store} {telling : Reading Tag} {noted bound : Revision} {tag : Tag}

theorem mono {lower : Revision} (calm : Calm store telling noted bound)
    (below : lower.le bound = true) : Calm store telling noted lower := by
  rcases calm with beyond | ⟨earlier, upTo, leads, tells, covered⟩
  · exact .inl (Revision.le_trans below beyond)
  · exact .inr ⟨earlier, Revision.le_trans below upTo, leads, tells, covered⟩

theorem lead (calm : Calm store telling noted bound) (leads : store.Leads after) :
    Calm after telling noted bound :=
  calm.imp id fun ⟨earlier, upTo, early, tells, covered⟩ =>
    ⟨earlier, upTo, early.trans leads, tells, covered⟩

/-- What covers the tag now. -/
theorem of_covered (tells : telling.Tells store)
    (covered : ∀ tag last, telling store = .ok tag last → tag.Steady →
      (store.revisionOf tag).le noted = true) : Calm store telling noted (.tick store.clock) :=
  .inr ⟨store, Revision.le_refl _, .refl store, tells, covered⟩

theorem revision_after (tells : telling.Tells store) (told : telling store = .ok tag after) :
    after.revisionOf tag = store.revisionOf tag := by
  have leaves := tells.leaves (.refl store) told
  exact Tag.revision_congr tag fun id member =>
    Store.changed_eq (leaves.old id (tells.grounded (.refl store) told id member))

/-- The revision that was taken from the tag itself. -/
theorem of_noted (tells : telling.Tells store) (told : telling store = .ok tag after) :
    Calm after telling (after.revisionOf tag) (.tick store.clock) := by
  refine (of_covered tells fun again last told' _ => ?_).lead
    (.of_leaves (tells.leaves (.refl store) told))
  rw [told] at told'
  cases told'
  rw [revision_after tells told]
  exact Revision.le_refl _

/-- A tag that validates. -/
theorem of_valid (tells : telling.Tells store) (told : telling store = .ok tag after)
    (valid : after.validates tag noted = true) : Calm after telling noted (.tick store.clock) := by
  refine (of_covered tells fun again last told' _ => ?_).lead
    (.of_leaves (tells.leaves (.refl store) told))
  rw [told] at told'
  cases told'
  rw [← revision_after tells told]
  exact (Tag.validates_iff.mp valid).2

/-- What was changed up to the bound at most was noted. -/
theorem covers (calm : Calm store telling noted bound) (told : telling store = .ok tag after)
    (steady : tag.Steady) (upTo : (store.revisionOf tag).le bound = true) :
    (store.revisionOf tag).le noted = true := by
  rcases calm with beyond | ⟨earlier, late, leads, tells, covered⟩
  · exact Revision.le_trans upTo beyond
  have grounded := tells.grounded leads.toWithin told
  have same : ∀ id ∈ tag.cells, store.cells[id]? = earlier.cells[id]? := by
    intro id member
    have stamp : store.changed id ≤ earlier.clock := by
      have below : (Revision.tick (store.changed id)).le (.tick earlier.clock) = true :=
        Revision.le_trans (Tag.le_revision tag member) (Revision.le_trans upTo late)
      simpa [Revision.le] using below
    exact (leads.fate id (grounded id member)).resolve_right (Nat.not_lt.mpr stamp)
  obtain ⟨last, before⟩ := tells.steady leads.toWithin (.refl earlier) told steady same
  have revision : store.revisionOf tag = earlier.revisionOf tag :=
    Tag.revision_congr tag fun id member => Store.changed_eq (same id member)
  rw [revision]
  exact covered tag last before steady

/-- So a tag validates if nothing behind it was changed later than the bound. -/
theorem validates (calm : Calm store telling noted bound) (tells : telling.Tells store)
    (told : telling store = .ok tag after) (steady : tag.Steady)
    (upTo : (store.revisionOf tag).le bound = true) : after.validates tag noted = true := by
  refine Tag.validates_iff.mpr ⟨(Tag.steady_iff tag).mp steady, ?_⟩
  have covered := calm.covers told steady upTo
  rwa [← revision_after tells told] at covered

end Reading.Calm

/-! Tags that validate -/

/-- The tag can be worked out, and nothing behind it has changed since `bound`. -/
def Reading.Fresh (store : Store) (telling : Reading Tag) (bound : Revision) : Prop :=
  ∃ tag last, telling store = .ok tag last ∧ last.validates tag bound = true

namespace Reading.Fresh

variable {store other : Store} {telling : Reading Tag} {noted bound : Revision}

theorem of_le {tag : Tag} {last : Store} (tells : telling.Tells store)
    (told : telling store = .ok tag last) (steady : tag.Steady)
    (upTo : (store.revisionOf tag).le bound = true) : Fresh store telling bound := by
  refine ⟨tag, last, told, Tag.validates_iff.mpr ⟨(Tag.steady_iff tag).mp steady, ?_⟩⟩
  rwa [← Calm.revision_after tells told] at upTo

theorem told (tells : telling.Tells store) (fresh : Fresh store telling bound) :
    ∃ tag last, telling store = .ok tag last ∧ tag.Steady ∧
      (store.revisionOf tag).le bound = true := by
  obtain ⟨tag, last, told, valid⟩ := fresh
  obtain ⟨steady, upTo⟩ := Tag.validates_iff.mp valid
  refine ⟨tag, last, told, (Tag.steady_iff tag).mpr steady, ?_⟩
  rwa [← Calm.revision_after tells told]

theorem leave (tells : telling.Tells store) (fresh : Fresh store telling bound)
    (leaves : store.Leaves other) : Fresh other telling bound := by
  obtain ⟨tag, last, told, steady, upTo⟩ := fresh.told tells
  have same : ∀ id ∈ tag.cells, store.cells[id]? = other.cells[id]? := fun id member =>
    (leaves.old id (tells.grounded (.refl store) told id member)).symm
  obtain ⟨last', again⟩ := tells.steady (.refl store) leaves.toWithin told steady same
  refine of_le (tells.last leaves.toWithin) again steady ?_
  have revision : other.revisionOf tag = store.revisionOf tag :=
    Tag.revision_congr tag fun id member => (Store.changed_eq (same id member)).symm
  rwa [revision]

/-- A combination validates only if all its members do. -/
theorem member {tellings : List (Reading Tag)} (tells : ∀ telling ∈ tellings, telling.Tells store)
    (fresh : Fresh store (Tag.combineM tellings) bound) :
    ∀ telling ∈ tellings, Fresh store telling bound := by
  obtain ⟨tag, last, ended, steady, upTo⟩ := fresh.told (.combineM tells)
  rcases Tag.combineM_ok ended with rfl | ⟨tags, told, rfl⟩
  · exact absurd steady id
  have each := Tag.steady_combine.mp steady
  rw [Store.revisionOf, Tag.revision_combine, Tag.latest_le_iff] at upTo
  suffices general : ∀ current, store.Leaves current → Tag.Told tellings tags current last →
      ∀ telling ∈ tellings, Fresh store telling bound from general store (.refl store) told
  clear told ended steady fresh
  intro current leaves told
  induction told with
  | nil => exact nofun
  | cons first _ rest ih =>
    obtain ⟨now, others⟩ := List.forall_mem_cons.mp tells
    obtain ⟨steady, steadyRest⟩ := List.forall_mem_cons.mp each
    obtain ⟨below, belowRest⟩ := List.forall_mem_cons.mp upTo
    obtain ⟨after, again⟩ := now.again leaves.toWithin first steady (.refl store) leaves.old
    have next := now.leaves leaves.toWithin first
    exact List.forall_mem_cons.mpr ⟨of_le now again steady below,
      ih others belowRest steadyRest (leaves.trans next)⟩

/-- What is calm up to the bound was noted as well. -/
theorem of_calm (tells : telling.Tells store) (fresh : Fresh store telling bound)
    (calm : Calm store telling noted bound) : Fresh store telling noted := by
  obtain ⟨tag, last, told, steady, upTo⟩ := fresh.told tells
  exact ⟨tag, last, told, calm.validates tells told steady upTo⟩

theorem calm (tells : telling.Tells store) (fresh : Fresh store telling noted) :
    Calm store telling noted (.tick store.clock) := by
  obtain ⟨tag, last, told, steady, upTo⟩ := fresh.told tells
  refine .of_covered tells fun again last' told' _ => ?_
  rw [told] at told'
  cases told'
  exact upTo

end Reading.Fresh

end LiveTemplate
