import LiveTemplate.Proofs.Iteration.ItemCells

/-!
Targets that keep a plain list of keys. Such a target carries out every edit it receives on its list,
and may refuse none but insertions. `Midway` says that the list it keeps is in step with a walk
between two elements of a pass, and `Scripted` what the edits for the rest of the pass come to.
-/

namespace LiveTemplate

open Effects

namespace Edit

def inserted? : Edit → Option Key
  | insert item _ => some item.key
  | _ => none

def moved? : Edit → Option Key
  | move item _ => some item.key
  | _ => none

def deleted? : Edit → Option Key
  | delete key => some key
  | _ => none

end Edit

/-- The keys that a script of edits inserts, moves and deletes, in its order. -/
structure Tally where
  inserted : List Key
  moved : List Key
  deleted : List Key

def Tally.of (script : List Edit) : Tally :=
  ⟨script.filterMap Edit.inserted?, script.filterMap Edit.moved?, script.filterMap Edit.deleted?⟩

/-- A target that keeps a list of keys beside a store, and the script of the edits it has carried
out. It does so in all states that are `steady`. -/
structure PlainTarget (σ : Type) where
  target : SyncTarget σ
  store : σ → Store
  keys : σ → List Key
  script : σ → List Edit
  steady : σ → Prop
  onStore_ok : ∀ {α : Type} {reading : Reading α} {before after : σ} {result : α},
    target.onStore reading before = .ok result after →
      reading (store before) = .ok result (store after) ∧ keys after = keys before ∧
        script after = script before ∧ (steady before → steady after)
  onStore_error : ∀ {α : Type} {reading : Reading α} {before after : σ} {fault : Fault},
    target.onStore reading before = .error fault after →
      reading (store before) = .error fault (store after) ∧ keys after = keys before ∧
        script after = script before ∧ (steady before → steady after)
  apply_ok : ∀ {edit : Edit} {before after : σ}, steady before →
    target.apply edit before = .ok () after →
      keys after = KeyList.edit (keys before) edit ∧ script after = script before ++ [edit] ∧
        (store before).Keeps (store after) ∧ steady after
  /-- Only an insertion is refused, and then nothing has happened. -/
  apply_failed : ∀ {edit : Edit} {before after : σ} {error : RenderError}, steady before →
    target.apply edit before = .error (.failed error) after →
      (∃ item place, edit = .insert item place) ∧ keys after = keys before ∧
        script after = script before ∧ (store before).Keeps (store after) ∧ steady after

namespace PlainTarget

variable {σ : Type} (plain : PlainTarget σ)

/-- What an edit comes to: it is carried out, or it is an insertion and refused. -/
theorem accept_ok {edit : Edit} {before after : σ} {refusal : Option RenderError}
    (steady : plain.steady before) (ended : plain.target.accept edit before = .ok refusal after) :
    (plain.store before).Keeps (plain.store after) ∧ plain.steady after ∧
      ((refusal = none ∧ plain.keys after = KeyList.edit (plain.keys before) edit ∧
          plain.script after = plain.script before ++ [edit]) ∨
        (refusal.isSome ∧ (∃ item place, edit = .insert item place) ∧
          plain.keys after = plain.keys before ∧ plain.script after = plain.script before)) := by
  unfold SyncTarget.accept at ended
  cases outcome : plain.target.apply edit before with
  | ok done between =>
    rw [outcome] at ended
    cases ended
    obtain ⟨keys, script, keeps, later⟩ := plain.apply_ok steady outcome
    exact ⟨keeps, later, .inl ⟨rfl, keys, script⟩⟩
  | error fault between =>
    rw [outcome] at ended
    cases fault with
    | broken defect => cases ended
    | failed error =>
      cases ended
      obtain ⟨insertion, keys, script, keeps, later⟩ := plain.apply_failed steady outcome
      exact ⟨keeps, later, .inr ⟨rfl, insertion, keys, script⟩⟩

/-- The target gives this error for the insertion of an item with this key, and is left so. -/
def Refuses (key : Key) (error : RenderError) (state : σ) : Prop :=
  ∃ item place before, item.key = key ∧
    plain.target.apply (.insert item place) before = .error (.failed error) state

/-- An edit that is not accepted was answered with the error. -/
theorem accept_refused {edit : Edit} {before after : σ} {error : RenderError}
    (ended : plain.target.accept edit before = .ok (some error) after) :
    plain.target.apply edit before = .error (.failed error) after := by
  unfold SyncTarget.accept at ended
  cases outcome : plain.target.apply edit before with
  | ok done between =>
    rw [outcome] at ended
    cases ended
  | error fault between =>
    rw [outcome] at ended
    cases fault <;> cases ended
    rfl

theorem accept_unfailing (edit : Edit) : Unfailing (plain.target.accept edit) := by
  intro before fault after ended
  unfold SyncTarget.accept at ended
  cases outcome : plain.target.apply edit before with
  | ok done between =>
    rw [outcome] at ended
    cases ended
  | error fault between =>
    rw [outcome] at ended
    cases fault with
    | broken defect =>
      cases ended
      exact ⟨defect, rfl⟩
    | failed error => cases ended

/-- The list of keys is in step with items that have these faces, in this order. -/
structure Follows (faces : List Face) (state : σ) : Prop where
  keys : plain.keys state = faces.map Face.key
  houses : (plain.store state).Houses faces
  steady : plain.steady state

/-! Walking through a pass -/

section Merge

variable {plain} {old : List Item} {consumed : Pass} {walk next : Walk}

/-- Between two elements of a pass. -/
structure Midway (plain : PlainTarget σ) (old : List Item) (consumed : Pass) (walk : Walk)
    (state : σ) : Prop where
  merged : walk.Merged old (consumed.map PassItem.key)
  follows : plain.Follows (walk.items.map Item.face) state
  shown : (plain.store state).Shown (walk.items.map Item.face) consumed

/-- An element is met, and its item given its values; the edit is still to be carried out. -/
structure Met (plain : PlainTarget σ) (consumed : Pass) (walk : Walk) (element : PassItem)
    (next : Walk) (edit : Option Edit) (before after : σ) : Prop where
  meets : Walk.Meets walk element.key next edit
  spares : (plain.store before).Spares (plain.store after)
  houses : (plain.store after).Houses (next.items.map Item.face)
  shown : (plain.store after).Shown (next.items.map Item.face) (consumed ++ [element])
  keys : plain.keys after = walk.items.map Item.key
  script : plain.script after = plain.script before
  steady : plain.steady after

theorem Midway.meet {element : PassItem} {edit : Option Edit} {before after : σ}
    (midway : plain.Midway old consumed walk before) (unmarked : ∀ item ∈ old, item.Unmarked)
    (fresh : element.key ∉ consumed.map PassItem.key)
    (met : plain.target.onStore (walk.meet element) before = .ok (next, edit) after) :
    plain.Met consumed walk element next edit before after := by
  obtain ⟨read, keys, script, steady⟩ := plain.onStore_ok met
  have clear := midway.merged.unmarked_ahead unmarked
  have passed : ∀ item ∈ walk.behind, item.key = element.key → item.seen = true := by
    intro item member named
    exact midway.merged.passed item member (midway.merged.unretained member (named ▸ fresh))
  obtain ⟨meets, face, member, named, given, houses⟩ := Walk.meet_ok midway.merged.indexed passed
    (fun item ahead => (clear item ahead).2) midway.follows.houses read
  have more : ∀ face ∈ walk.items.map Item.face, face ∈ next.items.map Item.face := by
    intro face inside
    rcases Walk.Merged.faces_perm meets with ⟨-, perm⟩ | ⟨refs, -, -, rfl⟩
    · exact perm.mem_iff.mpr inside
    · exact (Walk.Merged.insertHere_faces walk refs).mem_iff.mpr (List.mem_cons_of_mem _ inside)
  refine ⟨meets, .of_eq given.lists given.cells, houses, ?_, ?_, script,
    steady midway.follows.steady⟩
  · exact midway.shown.snoc midway.follows.houses houses more member given named fresh
  · rw [keys, midway.follows.keys, Item.keys_of_faces]

/-- The edit, if there is one, is carried out too. -/
theorem Met.step {element : PassItem} {edit : Option Edit} {before between after : σ}
    (met : plain.Met consumed walk element next edit before between)
    (midway : plain.Midway old consumed walk before) (unmarked : ∀ item ∈ old, item.Unmarked)
    (fresh : element.key ∉ consumed.map PassItem.key) (steady : plain.steady after)
    (keeps : (plain.store between).Keeps (plain.store after))
    (keys : plain.keys after = KeyList.follow (plain.keys between) edit) :
    plain.Midway old (consumed ++ [element]) next after where
  merged := by
    rw [List.map_append]
    exact midway.merged.step unmarked fresh met.meets
  follows := by
    refine ⟨?_, met.houses.grow keeps.cells, steady⟩
    rw [Item.keys_of_faces, midway.merged.edit_keys met.meets, keys, met.keys]
  shown := met.shown.keep met.houses keeps.values

/-- A refused insertion is taken back. -/
theorem takeBack_insert (indexed : walk.artifacts.Indexes (walk.items.map Item.face))
    {refs : ItemRefs} (fresh : refs.key ∉ walk.items.map Item.key) (place : Option Key) :
    ((walk.insertHere refs).takeBack (.insert refs place)).items = walk.items ∧
      ((walk.insertHere refs).takeBack (.insert refs place)).artifacts.Indexes
        (walk.items.map Item.face) := by
  have grown := indexed.allocate refs (by rwa [Item.keys_of_faces])
  constructor
  · simp [Walk.takeBack, Walk.insertHere, Walk.items]
  · have taken : ((walk.insertHere refs).takeBack (.insert refs place)).artifacts =
        (walk.artifacts.allocate refs.key).2.release
          ⟨(walk.artifacts.allocate refs.key).1, refs, true, false⟩ := by
      simp [Walk.takeBack, Walk.insertHere]
    rw [taken]
    exact grown.release

/-- The known keys that are still to come stand ahead in the order of the pass. -/
def Aligned (known ahead pass : List Key) : Prop :=
  pass.filter (· ∈ known) = ahead.filter (· ∈ pass)

/-- What the edits for the rest of a pass come to. -/
structure Scripted (known ahead pass : List Key) (script : List Edit) : Prop where
  inserted : (Tally.of script).inserted = pass.filter (· ∉ known)
  deleted : (Tally.of script).deleted = []
  moved : (Tally.of script).moved.Sublist (pass.filter (· ∈ known))
  still : Aligned known ahead pass → (Tally.of script).moved = []

theorem Scripted.nil (known ahead : List Key) : Scripted known ahead [] [] where
  inserted := rfl
  deleted := rfl
  moved := List.Sublist.refl _
  still := fun _ => rfl

section Scripted

variable {known skipped rest ahead pass : List Key} {key : Key} {script : List Edit}

/-- A key that is met ahead leaves the rest aligned. -/
theorem Aligned.skip (member : key ∈ known) (distinct : (skipped ++ key :: rest).Nodup)
    (aligned : Aligned known (skipped ++ key :: rest) (key :: pass)) :
    Aligned known rest pass := by
  have fresh := (List.nodup_cons.mp (List.nodup_middle.mp distinct)).1
  rw [List.mem_append, not_or] at fresh
  have same : key :: pass.filter (· ∈ known) =
      skipped.filter (· ∈ key :: pass) ++ key :: rest.filter (· ∈ key :: pass) := by
    have given := aligned
    unfold Aligned at given
    rw [List.filter_cons_of_pos (by simpa using member), List.filter_append,
      List.filter_cons_of_pos (by simp)] at given
    exact given
  -- The first known key to come is this one, so none before it is awaited.
  have none : skipped.filter (· ∈ key :: pass) = [] := by
    cases shape : skipped.filter (· ∈ key :: pass) with
    | nil => rfl
    | cons first others =>
      rw [shape] at same
      have equal : key = first := (List.cons.inj same).1
      have inside : first ∈ skipped.filter (· ∈ key :: pass) := shape ▸ List.mem_cons_self
      exact absurd (equal ▸ (List.mem_filter.mp inside).1) fresh.1
  rw [none, List.nil_append] at same
  unfold Aligned
  rw [(List.cons.inj same).2]
  refine List.filter_congr fun other inside => ?_
  have apart : other ≠ key := fun equal => fresh.2 (equal ▸ inside)
  simp [apart]

theorem Scripted.retain (member : key ∈ known) (distinct : (skipped ++ key :: rest).Nodup)
    (scripted : Scripted known rest pass script) :
    Scripted known (skipped ++ key :: rest) (key :: pass) script where
  inserted := by
    rw [List.filter_cons_of_neg (by simpa using member)]
    exact scripted.inserted
  deleted := scripted.deleted
  moved := by
    rw [List.filter_cons_of_pos (by simpa using member)]
    exact scripted.moved.cons _
  still := fun aligned => scripted.still (aligned.skip member distinct)

theorem Scripted.insert {refs : ItemRefs} {place : Option Key} (unknown : key ∉ known)
    (absent : key ∉ ahead) (named : refs.key = key) (scripted : Scripted known ahead pass script) :
    Scripted known ahead (key :: pass) (.insert refs place :: script) where
  inserted := by
    rw [List.filter_cons_of_pos (by simpa using unknown), ← scripted.inserted, ← named]
    rfl
  deleted := scripted.deleted
  moved := by
    rw [List.filter_cons_of_neg (by simpa using unknown)]
    exact scripted.moved
  still := by
    intro aligned
    refine scripted.still ?_
    unfold Aligned at aligned ⊢
    rw [List.filter_cons_of_neg (by simpa using unknown)] at aligned
    rw [aligned]
    refine List.filter_congr fun other inside => ?_
    have apart : other ≠ key := fun equal => absent (equal ▸ inside)
    simp [apart]

theorem Scripted.move {refs : ItemRefs} {place : Option Key} (member : key ∈ known)
    (absent : key ∉ ahead) (named : refs.key = key) (scripted : Scripted known ahead pass script) :
    Scripted known ahead (key :: pass) (.move refs place :: script) where
  inserted := by
    rw [List.filter_cons_of_neg (by simpa using member)]
    exact scripted.inserted
  deleted := scripted.deleted
  moved := by
    rw [List.filter_cons_of_pos (by simpa using member), ← named]
    exact scripted.moved.cons_cons refs.key
  still := by
    -- A key that has to move is not ahead, where an aligned pass has all its known keys.
    intro aligned
    have awaited : key ∈ (key :: pass).filter (· ∈ known) :=
      List.mem_filter.mpr ⟨List.mem_cons_self, by simpa using member⟩
    rw [aligned] at awaited
    exact absurd (List.mem_filter.mp awaited).1 absent

end Scripted

/-- The edit for one element, put in front of the edits for the rest. -/
theorem Scripted.cons {key : Key} {pass : List Key} {edit : Option Edit} {script : List Edit}
    (merged : walk.Merged old (consumed.map PassItem.key))
    (fresh : key ∉ consumed.map PassItem.key) (meets : Walk.Meets walk key next edit)
    (scripted : Scripted (old.map Item.key) (next.ahead.map Item.key) pass script) :
    Scripted (old.map Item.key) (walk.ahead.map Item.key) (key :: pass)
      (edit.toList ++ script) := by
  have distinct := merged.keys_nodup
  rw [Walk.items, List.map_append] at distinct
  have ahead := (List.nodup_append.mp distinct).2.1
  have known : ∀ item ∈ walk.ahead, item.key ∈ old.map Item.key := fun item member =>
    List.mem_map_of_mem (merged.ahead.subset member)
  cases meets with
  | @retain current rest following same =>
    have member := known current (by simp [following])
    rw [following, List.map_cons] at ahead ⊢
    rw [same] at ahead member ⊢
    have here := @Scripted.retain _ [] _ _ _ _ member ahead scripted
    exact ⟨here.inserted, here.deleted, here.moved, here.still⟩
  | @insert refs absent same =>
    refine Scripted.insert (fun member => absent (merged.key_mem member)) ?_ same scripted
    intro member
    rw [Walk.items, List.map_append] at absent
    exact absent (List.mem_append_right _ member)
  | @move front back found place same passed =>
    have behind : found ∈ walk.behind := by simp [place]
    have member : key ∈ old.map Item.key := by
      by_contra unknown
      refine fresh ?_
      rw [← same]
      refine merged.added found.face (List.mem_map_of_mem (by simp [Walk.items, behind])) ?_
      rwa [Item.face_key, same]
    refine Scripted.move member ?_ same scripted
    intro twice
    exact (List.nodup_append.mp distinct).2.2 found.key (List.mem_map_of_mem behind) key twice same
  | @skip skipped rest found place same =>
    have member := known found (by simp [place])
    rw [place, List.map_append, List.map_cons] at ahead ⊢
    rw [same] at ahead member ⊢
    exact Scripted.retain member ahead scripted

end Merge

end PlainTarget

end LiveTemplate
