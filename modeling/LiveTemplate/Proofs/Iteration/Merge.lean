import LiveTemplate.Iteration.KeyList
import LiveTemplate.Proofs.Iteration.Index

/-!
One step of a walk through a pass. `Walk.Meets` lists what a walk can do with the next element, and
`Walk.Merged` is what holds between two steps: the retained items behind the walk are exactly the
elements met so far, in their order, and the others stand where they stood. From this follows what
each kind of edit does to a list of keys that is kept in step with the items.
-/

namespace LiveTemplate

/-! Lists of keys -/

namespace KeyList

/-- A key that goes in front of the items ahead comes between them and the items behind. -/
theorem place_between (key : Key) (behind ahead : List Key) (distinct : (behind ++ ahead).Nodup) :
    place key ahead.head? (behind ++ ahead) = behind ++ key :: ahead := by
  induction behind with
  | nil => cases ahead <;> simp [place]
  | cons first behind ih =>
    have apart := List.nodup_cons.mp distinct
    have other : some first ≠ ahead.head? := by
      intro equal
      exact apart.1 (List.mem_append_right _ (List.mem_of_mem_head? equal.symm))
    simp [place, other, ih apart.2]

/-- What becomes of the keys when a step needs an edit or none. -/
def follow (keys : List Key) : Option Edit → List Key
  | some edit => KeyList.edit keys edit
  | none => keys

theorem filter_ne_middle {key : Key} {front back : List Key}
    (distinct : (front ++ key :: back).Nodup) :
    (front ++ key :: back).filter (· ≠ key) = front ++ back := by
  have apart := List.nodup_middle.mp distinct
  rw [List.nodup_cons] at apart
  have kept : (front ++ back).filter (· ≠ key) = front ++ back := by
    refine List.filter_eq_self.mpr fun other member => ?_
    simpa using fun equal : other = key => apart.1 (equal ▸ member)
  simpa [List.filter_append] using kept

end KeyList

namespace Item

def retain (item : Item) : Item := { item with retained := true }

def pass (item : Item) : Item := { item with seen := true }

@[simp] theorem face_retain (item : Item) : item.retain.face = item.face := rfl

@[simp] theorem key_retain (item : Item) : item.retain.key = item.key := rfl

@[simp] theorem retained_retain (item : Item) : item.retain.retained = true := rfl

@[simp] theorem face_pass (item : Item) : item.pass.face = item.face := rfl

@[simp] theorem key_pass (item : Item) : item.pass.key = item.key := rfl

@[simp] theorem retained_pass (item : Item) : item.pass.retained = item.retained := rfl

@[simp] theorem seen_pass (item : Item) : item.pass.seen = true := rfl

/-- No walk has touched the item. -/
def Unmarked (item : Item) : Prop := item.retained = false ∧ item.seen = false

theorem unmarked_clearMarks (item : Item) : item.clearMarks.Unmarked := ⟨rfl, rfl⟩

theorem keys_of_faces (items : List Item) :
    (items.map Item.face).map Face.key = items.map Item.key := by
  rw [List.map_map]
  rfl

end Item

namespace Walk

theorem before_eq (walk : Walk) : walk.before = (walk.ahead.map Item.key).head? := by
  simp [before]

theorem retainId_of_ne {id : ItemId} {items : List Item} (other : ∀ item ∈ items, item.id ≠ id) :
    retainId id items = items := by
  refine (List.map_congr_left fun item member => ?_).trans (List.map_id _)
  simp [other item member]

theorem dropId_of_ne {id : ItemId} {items : List Item} (other : ∀ item ∈ items, item.id ≠ id) :
    dropId id items = items :=
  List.filter_eq_self.mpr fun item member => by simpa using other item member

/-- What a walk does with an element of some key. -/
inductive Meets (walk : Walk) (key : Key) : Walk → Option Edit → Prop
  /-- Its item is the next one. -/
  | retain {current : Item} {rest : List Item} (next : walk.ahead = current :: rest)
      (same : current.key = key) :
      Meets walk key { walk with behind := walk.behind ++ [current.retain], ahead := rest }
        (some (.retain current.refs))
  /-- It has no item. -/
  | insert {refs : ItemRefs} (fresh : key ∉ walk.items.map Item.key) (same : refs.key = key) :
      Meets walk key (walk.insertHere refs) (some (.insert refs walk.before))
  /-- Its item was passed over. -/
  | move {front back : List Item} {found : Item} (place : walk.behind = front ++ found :: back)
      (same : found.key = key) (passed : found.seen = true) :
      Meets walk key { walk with behind := front ++ back ++ [found.retain] }
        (some (.move found.refs walk.before))
  /-- Its item lies further ahead. -/
  | skip {skipped rest : List Item} {found : Item} (place : walk.ahead = skipped ++ found :: rest)
      (same : found.key = key) :
      Meets walk key
        { walk with behind := walk.behind ++ skipped.map Item.pass ++ [found.retain], ahead := rest }
        none

/-- Between two steps: `old` are the items from before the walk, `met` the keys of the elements met
so far. -/
structure Merged (old : List Item) (met : List Key) (walk : Walk) : Prop where
  indexed : walk.artifacts.Indexes (walk.items.map Item.face)
  order : (walk.behind.filter (·.retained)).map Item.key = met
  others : (walk.items.filter (!·.retained)).map Item.face =
    (old.filter (·.key ∉ met)).map Item.face
  passed : ∀ item ∈ walk.behind, item.retained = false → item.seen = true
  ahead : walk.ahead <:+ old
  kept : ∀ item ∈ old, item.face ∈ walk.items.map Item.face
  added : ∀ face ∈ walk.items.map Item.face, face.key ∉ old.map Item.key → face.key ∈ met

namespace Merged

variable {old : List Item} {met : List Key} {walk next : Walk} {key : Key} {edit : Option Edit}

theorem start {artifacts : Artifacts}
    (indexed : artifacts.Indexes (artifacts.items.map Item.face))
    (unmarked : ∀ item ∈ artifacts.items, item.Unmarked) :
    (Walk.ofArtifacts artifacts).Merged artifacts.items [] where
  indexed := indexed
  order := rfl
  others := by
    have all : artifacts.items.filter (!·.retained) = artifacts.items :=
      List.filter_eq_self.mpr fun item member => by simp [(unmarked item member).1]
    simp [Walk.items, Walk.ofArtifacts, all]
  passed := by simp [Walk.ofArtifacts]
  ahead := List.suffix_refl _
  kept := fun item member => List.mem_map_of_mem (by simpa [Walk.items, Walk.ofArtifacts])
  added := fun face member fresh => by
    obtain ⟨item, inside, rfl⟩ := List.mem_map.mp member
    exact absurd (List.mem_map_of_mem (by simpa [Walk.items, Walk.ofArtifacts] using inside)) fresh

theorem keys_nodup (merged : walk.Merged old met) : (walk.items.map Item.key).Nodup := by
  rw [← Item.keys_of_faces]
  exact merged.indexed.keys

theorem unmarked_ahead (merged : walk.Merged old met)
    (unmarked : ∀ item ∈ old, item.Unmarked) : ∀ item ∈ walk.ahead, item.Unmarked :=
  fun item member => unmarked item (merged.ahead.subset member)

theorem key_mem (merged : walk.Merged old met) (present : key ∈ old.map Item.key) :
    key ∈ walk.items.map Item.key := by
  obtain ⟨item, member, rfl⟩ := List.mem_map.mp present
  rw [← Item.keys_of_faces, ← Item.face_key]
  exact List.mem_map_of_mem (merged.kept item member)

/-- An item whose element has not come yet is not retained. -/
theorem unretained (merged : walk.Merged old met) {item : Item} (member : item ∈ walk.behind)
    (fresh : item.key ∉ met) : item.retained = false := by
  by_contra retained
  refine fresh ?_
  rw [← merged.order]
  exact List.mem_map_of_mem (List.mem_filter.mpr ⟨member, by simpa using retained⟩)

/-- No step loses an item or makes one twice. -/
theorem faces_perm (met : Meets walk key next edit) :
    (next.artifacts = walk.artifacts ∧
        (next.items.map Item.face).Perm (walk.items.map Item.face)) ∨
      ∃ refs, key ∉ walk.items.map Item.key ∧ refs.key = key ∧ next = walk.insertHere refs := by
  cases met with
  | retain next same => exact .inl ⟨rfl, by simp [items, next]⟩
  | insert fresh same => exact .inr ⟨_, fresh, same, rfl⟩
  | @move front back found place same passed =>
    refine .inl ⟨rfl, ?_⟩
    simp only [items, place, List.map_append, List.map_cons, Item.face_retain,
      List.append_assoc, List.cons_append, List.nil_append]
    exact List.Perm.append_left _ List.perm_middle
  | skip place same => exact .inl ⟨rfl, by simp [items, place, Function.comp_def]⟩

theorem insertHere_faces (walk : Walk) (refs : ItemRefs) :
    ((walk.insertHere refs).items.map Item.face).Perm
      (((walk.artifacts.allocate refs.key).1, refs) :: walk.items.map Item.face) := by
  simp only [insertHere, items, List.map_append, List.map_cons, List.map_nil, List.append_assoc]
  exact List.perm_middle

theorem unmet_snoc (old : List Item) (met : List Key) (key : Key) :
    (old.filter (·.key ∉ met ++ [key])).map Item.face =
      ((old.filter (·.key ∉ met)).map Item.face).filter (·.key ≠ key) := by
  rw [List.filter_map, List.filter_filter]
  congr 1
  refine List.filter_congr fun item member => ?_
  by_cases same : item.key = key <;> by_cases known : item.key ∈ met <;> simp [same, known]

/-- Without the one item of some key. -/
theorem filter_face_ne {front back : List Item} {found : Item} (kind : Item → Bool)
    (distinct : ((front ++ found :: back).map Item.key).Nodup) :
    (((front ++ found :: back).filter kind).map Item.face).filter (·.key ≠ found.key) =
      ((front ++ back).filter kind).map Item.face := by
  have apart : ∀ item ∈ front ++ back, item.key ≠ found.key := by
    intro item member same
    rw [List.map_append, List.map_cons] at distinct
    have fresh := (List.nodup_cons.mp (List.nodup_middle.mp distinct)).1
    rw [← List.map_append, ← same] at fresh
    exact fresh (List.mem_map_of_mem member)
  rw [List.filter_map, List.filter_filter]
  congr 1
  have dropped : (front ++ found :: back).filter
      (fun item => ((fun face : Face => decide (face.key ≠ found.key)) ∘ Item.face) item && kind item) =
      (front ++ back).filter
        (fun item => ((fun face : Face => decide (face.key ≠ found.key)) ∘ Item.face) item &&
          kind item) := by
    simp [List.filter_append]
  rw [dropped]
  refine List.filter_congr fun item member => ?_
  simp [apart item member]

/-- One more element is met. -/
theorem step (merged : walk.Merged old met) (unmarked : ∀ item ∈ old, item.Unmarked)
    (fresh : key ∉ met) (meets : Meets walk key next edit) : next.Merged old (met ++ [key]) := by
  have distinct := merged.keys_nodup
  have clear := merged.unmarked_ahead unmarked
  have faces : ∀ face ∈ next.items.map Item.face,
      face ∈ walk.items.map Item.face ∨ face.key = key := by
    intro face member
    rcases faces_perm meets with ⟨-, same⟩ | ⟨refs, -, named, rfl⟩
    · exact .inl (same.mem_iff.mp member)
    · rcases List.mem_cons.mp ((insertHere_faces walk refs).mem_iff.mp member) with rfl | inside
      · exact .inr named
      · exact .inl inside
  refine ⟨?_, ?_, ?_, ?_, ?_, ?_, ?_⟩
  · rcases faces_perm meets with ⟨artifacts, same⟩ | ⟨refs, absent, rfl, rfl⟩
    · rw [artifacts]
      exact merged.indexed.perm same.symm
    · have indexed := merged.indexed.allocate refs (by rwa [Item.keys_of_faces])
      exact indexed.perm (insertHere_faces walk refs).symm
  · cases meets with
    | retain next same => simp [List.filter_append, List.filter_cons, merged.order, same]
    | insert absent same =>
      simp [insertHere, List.filter_append, merged.order, Item.key, same]
    | @move front back found place same passed =>
      have unretained : found.retained = false :=
        merged.unretained (by simp [place]) (same ▸ fresh)
      have order := merged.order
      rw [place] at order
      simp only [List.filter_append, List.filter_cons, unretained, Bool.false_eq_true, if_false]
        at order
      simp [List.filter_append, List.filter_cons, ← order, same]
    | @skip skipped rest found place same =>
      have none : (skipped.map Item.pass).filter (·.retained) = [] := by
        refine List.filter_eq_nil_iff.mpr fun item member => ?_
        obtain ⟨origin, inside, rfl⟩ := List.mem_map.mp member
        simp [(clear origin (by simp [place, inside])).1]
      simp [List.filter_append, List.filter_cons, none, merged.order, same]
  · rw [unmet_snoc, ← merged.others]
    cases meets with
    | @retain current rest next same =>
      subst same
      have split : walk.items = walk.behind ++ current :: rest := by simp [items, next]
      rw [split] at distinct ⊢
      rw [filter_face_ne _ distinct]
      simp [items, List.filter_append]
    | insert absent same =>
      have apart : ((walk.items.filter (!·.retained)).map Item.face).filter (·.key ≠ key) =
          (walk.items.filter (!·.retained)).map Item.face := by
        refine List.filter_eq_self.mpr fun face member => ?_
        obtain ⟨item, inside, rfl⟩ := List.mem_map.mp member
        have other : item.key ≠ key := fun equal =>
          absent (equal ▸ List.mem_map_of_mem (List.mem_of_mem_filter inside))
        exact decide_eq_true other
      rw [apart]
      simp [insertHere, items, List.filter_append]
    | @move front back found place same passed =>
      subst same
      have split : walk.items = front ++ found :: (back ++ walk.ahead) := by simp [items, place]
      rw [split] at distinct ⊢
      rw [filter_face_ne _ distinct]
      simp [items, List.filter_append]
    | @skip skipped rest found place same =>
      subst same
      have split : walk.items = (walk.behind ++ skipped) ++ found :: rest := by simp [items, place]
      rw [split] at distinct ⊢
      rw [filter_face_ne _ distinct]
      simp [items, List.filter_append, List.filter_map, Function.comp_def]
  · intro item member unretained
    cases meets with
    | retain next same =>
      rcases List.mem_append.mp member with earlier | last
      · exact merged.passed item earlier unretained
      · simp only [List.mem_singleton] at last
        simp [last] at unretained
    | insert absent same =>
      rcases List.mem_append.mp member with earlier | last
      · exact merged.passed item earlier unretained
      · simp only [List.mem_singleton] at last
        simp [last] at unretained
    | @move front back found place same passed =>
      rcases List.mem_append.mp member with earlier | last
      · refine merged.passed item ?_ unretained
        rw [place]
        rcases List.mem_append.mp earlier with inside | inside <;> simp [inside]
      · simp only [List.mem_singleton] at last
        simp [last] at unretained
    | skip place same =>
      rcases List.mem_append.mp member with earlier | last
      · rcases List.mem_append.mp earlier with earlier | skipped
        · exact merged.passed item earlier unretained
        · obtain ⟨origin, -, rfl⟩ := List.mem_map.mp skipped
          rfl
      · simp only [List.mem_singleton] at last
        simp [last] at unretained
  · cases meets with
    | retain next same => exact (List.suffix_cons _ _).trans (next ▸ merged.ahead)
    | insert absent same => exact merged.ahead
    | move place same passed => exact merged.ahead
    | skip place same =>
      have behind := merged.ahead
      rw [place] at behind
      exact ((List.suffix_cons _ _).trans (List.suffix_append _ _)).trans behind
  · intro item member
    have earlier := merged.kept item member
    rcases faces_perm meets with ⟨-, same⟩ | ⟨refs, -, -, rfl⟩
    · exact same.mem_iff.mpr earlier
    · exact (insertHere_faces walk refs).mem_iff.mpr (List.mem_cons_of_mem _ earlier)
  · intro face member new
    rcases faces face member with earlier | same
    · exact List.mem_append_left _ (merged.added face earlier new)
    · exact List.mem_append_right _ (by simp [same])

/-- A list of keys that is kept in step follows by carrying out the edit. -/
theorem edit_keys (merged : walk.Merged old met) (meets : Meets walk key next edit) :
    next.items.map Item.key = KeyList.follow (walk.items.map Item.key) edit := by
  have distinct := merged.keys_nodup
  cases meets with
  | retain next same => simp [items, next, KeyList.follow, KeyList.edit]
  | insert absent same =>
    rw [items, List.map_append] at distinct
    simp only [KeyList.follow, KeyList.edit, before_eq, items, List.map_append]
    rw [KeyList.place_between _ _ _ distinct]
    simp [insertHere, Item.key]
  | @move front back found place same passed =>
    have split : walk.items.map Item.key =
        front.map Item.key ++ found.key :: (back.map Item.key ++ walk.ahead.map Item.key) := by
      simp [items, place]
    rw [split] at distinct
    have rest := (List.nodup_cons.mp (List.nodup_middle.mp distinct)).2
    rw [← List.append_assoc] at rest
    change _ = KeyList.place found.key walk.before (List.filter (· ≠ found.key) _)
    rw [split, KeyList.filter_ne_middle distinct, before_eq, ← List.append_assoc,
      KeyList.place_between _ _ _ rest]
    simp [items]
  | skip place same => simp [items, place, KeyList.follow, Function.comp_def]

end Merged

end Walk

end LiveTemplate
