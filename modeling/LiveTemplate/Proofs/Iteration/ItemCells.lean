import LiveTemplate.Proofs.Iteration.Merge
import LiveTemplate.Proofs.Reactive.Cells

/-!
The cells of items. Every item has two cells to itself, so giving an item the values of a new
element leaves what the other items show.
-/

namespace LiveTemplate

open Effects

/-- The value and the memo hold no NaN. -/
def PassItem.NanFree (element : PassItem) : Prop :=
  element.value.nanFree = true ∧ element.memo.nanFree = true

def ItemRefs.cells (refs : ItemRefs) : List CellId := [refs.value, refs.memo]

namespace Store

/-- The items with these faces have cells, and no two share one. -/
structure Houses (store : Store) (faces : List Face) : Prop where
  apart : (faces.flatMap fun face => face.2.cells).Nodup
  present : ∀ id ∈ faces.flatMap fun face => face.2.cells, id < store.cells.size

/-- The cells of an item hold what an element has. -/
def Shows (store : Store) (refs : ItemRefs) (element : PassItem) : Prop :=
  store.Holds refs.value element.value ∧ store.Holds refs.memo element.memo

/-- Each element has its item, and the item shows it. Of a NaN this cannot be told. -/
def Shown (store : Store) (faces : List Face) (pass : Pass) : Prop :=
  ∀ element ∈ pass, element.NanFree →
    ∃ face ∈ faces, face.key = element.key ∧ store.Shows face.2 element

/-- An item was given the values of an element, and nothing else happened. -/
structure Given (refs : ItemRefs) (element : PassItem) (before after : Store) : Prop where
  shows : element.NanFree → after.Shows refs element
  lists : after.lists = before.lists
  cells : before.cells.size ≤ after.cells.size
  others : ∀ id, id < before.cells.size → id ∉ refs.cells → after.value? id = before.value? id

namespace Houses

variable {store : Store} {faces others : List Face}

theorem nil (store : Store) : store.Houses [] where
  apart := List.nodup_nil
  present := by simp

theorem perm (houses : store.Houses faces) (reordered : faces.Perm others) :
    store.Houses others where
  apart := (reordered.flatMap_right _).nodup_iff.mp houses.apart
  present := fun id member =>
    houses.present id ((reordered.flatMap_right _).mem_iff.mpr member)

theorem grow (houses : store.Houses faces) {later : Store}
    (cells : store.cells.size ≤ later.cells.size) : later.Houses faces where
  apart := houses.apart
  present := fun id member => Nat.lt_of_lt_of_le (houses.present id member) cells

theorem tail {face : Face} (houses : store.Houses (face :: faces)) : store.Houses faces where
  apart := by
    have apart := houses.apart
    rw [List.flatMap_cons] at apart
    exact (List.nodup_append.mp apart).2.1
  present := fun id member => houses.present id (by
    rw [List.flatMap_cons]
    exact List.mem_append_right _ member)

/-- A new item gets the next two cells. -/
theorem cons_new {later : Store} (houses : store.Houses faces) {key : Key}
    (cells : later.cells.size = store.cells.size + 2) (id : ItemId) :
    later.Houses ((id, ⟨key, store.cells.size, store.cells.size + 1⟩) :: faces) where
  apart := by
    rw [List.flatMap_cons]
    refine List.nodup_append.mpr ⟨by simp [ItemRefs.cells], houses.apart, ?_⟩
    intro new inside old outside equal
    have bound := houses.present old outside
    have fresh : new = store.cells.size ∨ new = store.cells.size + 1 := by
      simpa [ItemRefs.cells] using inside
    rcases fresh with fresh | fresh
    · exact Nat.ne_of_lt bound (equal.symm.trans fresh)
    · exact Nat.ne_of_lt (Nat.lt_succ_of_lt bound) (equal.symm.trans fresh)
  present := by
    intro cell member
    rw [List.flatMap_cons] at member
    rcases List.mem_append.mp member with inside | inside
    · have fresh : cell = store.cells.size ∨ cell = store.cells.size + 1 := by
        simpa [ItemRefs.cells] using inside
      omega
    · have bound := houses.present cell inside
      omega

theorem value_ne_memo (houses : store.Houses faces) {face : Face} (member : face ∈ faces) :
    face.2.value ≠ face.2.memo := by
  have pair := (List.nodup_flatMap.mp houses.apart).1 face member
  simpa [ItemRefs.cells] using pair

theorem bound (houses : store.Houses faces) {face : Face} (member : face ∈ faces) {id : CellId}
    (inside : id ∈ face.2.cells) : id < store.cells.size :=
  houses.present id (List.mem_flatMap.mpr ⟨face, member, inside⟩)

/-- Different items have different cells. -/
theorem disjoint (houses : store.Houses faces) {first second : Face} (left : first ∈ faces)
    (right : second ∈ faces) (different : first ≠ second) {id : CellId}
    (inside : id ∈ first.2.cells) : id ∉ second.2.cells := by
  intro shared
  induction faces with
  | nil => cases left
  | cons face rest ih =>
    have apart := houses.apart
    rw [List.flatMap_cons] at apart
    have across := (List.nodup_append.mp apart).2.2
    rcases List.mem_cons.mp left with one | one <;> rcases List.mem_cons.mp right with two | two
    · exact different (one.trans two.symm)
    · exact across id (one ▸ inside) id (List.mem_flatMap.mpr ⟨second, two, shared⟩) rfl
    · exact across id (two ▸ shared) id (List.mem_flatMap.mpr ⟨first, one, inside⟩) rfl
    · exact ih houses.tail one two

end Houses

namespace Shown

variable {before after : Store} {faces others : List Face} {pass : Pass}

theorem keep (shown : before.Shown faces pass) (houses : before.Houses faces)
    (kept : ∀ id, id < before.cells.size → after.value? id = before.value? id) :
    after.Shown faces pass := by
  intro element member free
  obtain ⟨face, inside, same, ⟨value, first, equal⟩, memo, second, alike⟩ :=
    shown element member free
  refine ⟨face, inside, same, ⟨value, ?_, equal⟩, memo, ?_, alike⟩
  · rw [kept _ (houses.bound inside (by simp [ItemRefs.cells]))]
    exact first
  · rw [kept _ (houses.bound inside (by simp [ItemRefs.cells]))]
    exact second

/-- The item of one more element is given its values. -/
theorem snoc (shown : before.Shown faces pass) (housed : before.Houses faces)
    (houses : after.Houses others) (more : ∀ face ∈ faces, face ∈ others) {face : Face}
    (member : face ∈ others) {element : PassItem} (given : Given face.2 element before after)
    (same : face.key = element.key) (fresh : element.key ∉ pass.map PassItem.key) :
    after.Shown others (pass ++ [element]) := by
  intro shownElement inside free
  rcases List.mem_append.mp inside with earlier | last
  · obtain ⟨other, there, named, ⟨value, first, equal⟩, memo, second, alike⟩ :=
      shown shownElement earlier free
    have different : other ≠ face := by
      intro equal
      refine fresh ?_
      rw [← same, ← equal, named]
      exact List.mem_map_of_mem earlier
    have kept : ∀ id ∈ other.2.cells, after.value? id = before.value? id := fun id cell =>
      given.others id (housed.bound there cell)
        (houses.disjoint (more other there) member different cell)
    refine ⟨other, more other there, named, ⟨value, ?_, equal⟩, memo, ?_, alike⟩
    · rw [kept _ (by simp [ItemRefs.cells])]
      exact first
    · rw [kept _ (by simp [ItemRefs.cells])]
      exact second
  · simp only [List.mem_singleton] at last
    subst last
    exact ⟨face, member, same, given.shows free⟩

end Shown

end Store

/-! What a walk does to cells -/

namespace Reading

/-- The cell holds the value afterwards, as far as change detection can see. -/
theorem updateCell_ok {id : CellId} {value : Value} {before after : Store} {changed : Bool}
    (ended : updateCell id value before = .ok changed after) :
    (value.nanFree = true → after.Holds id value) ∧ after.lists = before.lists ∧
      after.cells.size = before.cells.size ∧
      ∀ other, other ≠ id → after.value? other = before.value? other := by
  obtain ⟨old, between, read, rest⟩ := bind_ok.mp ended
  obtain ⟨holding, rfl⟩ := readCell_ok.mp read
  by_cases equal : (old == value) = true
  · rw [if_pos equal] at rest
    obtain ⟨-, rfl⟩ := pure_ok.mp rest
    exact ⟨fun _ => ⟨old, holding, equal⟩, rfl, rfl, fun _ _ => rfl⟩
  · rw [if_neg equal] at rest
    obtain ⟨_, last, replaced, done⟩ := bind_ok.mp rest
    obtain ⟨-, rfl⟩ := pure_ok.mp done
    have bound : id < before.cells.size := Store.lt_of_value? holding
    rw [← modify_ok.mp replaced]
    refine ⟨fun free => ⟨value, ?_, Value.beq_self value free⟩, rfl, by simp,
      fun other different => ?_⟩
    · simp [Store.value?, bound]
    · simp [Store.value?, different.symm]

end Reading

namespace Walk

theorem updateRefs_ok {refs : ItemRefs} {element : PassItem} (apart : refs.value ≠ refs.memo)
    {before after : Store} (ended : updateRefs refs element before = .ok () after) :
    Store.Given refs element before after ∧ after.cells.size = before.cells.size := by
  obtain ⟨_, between, first, rest⟩ := bind_ok.mp ended
  obtain ⟨_, last, second, done⟩ := bind_ok.mp rest
  obtain ⟨-, rfl⟩ := pure_ok.mp done
  obtain ⟨value, lists, cells, others⟩ := Reading.updateCell_ok first
  obtain ⟨memo, lists', cells', others'⟩ := Reading.updateCell_ok second
  refine ⟨⟨fun free => ⟨?_, memo free.2⟩, lists'.trans lists, ?_, ?_⟩, cells'.trans cells⟩
  · obtain ⟨held, there, equal⟩ := value free.1
    exact ⟨held, (others' _ apart).trans there, equal⟩
  · omega
  · intro id bound outside
    simp only [ItemRefs.cells, List.mem_cons, List.not_mem_nil, or_false, not_or] at outside
    rw [others' id outside.2, others id outside.1]

theorem newRefs_cells {element : PassItem} {before after : Store} {refs : ItemRefs}
    (ended : element.newRefs before = .ok refs after) :
    refs = ⟨element.key, before.cells.size, before.cells.size + 1⟩ ∧
      after.lists = before.lists ∧
      after.cells = (before.cells.push ⟨element.value, before.clock⟩).push
        ⟨element.memo, before.clock⟩ := by
  obtain ⟨value, between, first, rest⟩ := bind_ok.mp ended
  obtain ⟨memo, last, second, done⟩ := bind_ok.mp rest
  obtain ⟨rfl, rfl⟩ := pure_ok.mp done
  obtain ⟨rfl, one⟩ := Reading.newCell_ok.mp first
  obtain ⟨rfl, two⟩ := Reading.newCell_ok.mp second
  refine ⟨?_, ?_, ?_⟩
  · simp [← one]
  · simp [← two, ← one]
  · simp [← two, ← one]

theorem newRefs_ok {element : PassItem} {before after : Store} {refs : ItemRefs}
    (ended : element.newRefs before = .ok refs after) :
    refs = ⟨element.key, before.cells.size, before.cells.size + 1⟩ ∧
      Store.Given refs element before after ∧ after.cells.size = before.cells.size + 2 := by
  obtain ⟨rfl, lists, cells⟩ := newRefs_cells ended
  have sizes : after.cells.size = before.cells.size + 2 := by simp [cells]
  have cell : ∀ id, after.value? id =
      if id = before.cells.size + 1 then some element.memo
      else if id = before.cells.size then some element.value else before.value? id := by
    intro id
    simp only [Store.value?, cells, Array.getElem?_push, Array.size_push]
    by_cases memo : id = before.cells.size + 1
    · simp [memo]
    · by_cases value : id = before.cells.size <;> simp [memo, value]
  refine ⟨rfl, ⟨fun free => ⟨⟨element.value, ?_, Value.beq_self _ free.1⟩,
    element.memo, ?_, Value.beq_self _ free.2⟩, lists, by omega, ?_⟩, sizes⟩
  · simp [cell]
  · simp [cell]
  · intro id bound outside
    have old : ¬id = before.cells.size := by omega
    have older : ¬id = before.cells.size + 1 := by omega
    rw [cell, if_neg older, if_neg old]

theorem id_ne_found {front back : List Item} {found : Item}
    (distinct : ((front ++ found :: back).map Item.id).Nodup) :
    ∀ item ∈ front ++ back, item.id ≠ found.id := by
  intro item member same
  rw [List.map_append, List.map_cons] at distinct
  have fresh := (List.nodup_cons.mp (List.nodup_middle.mp distinct)).1
  rw [← List.map_append, ← same] at fresh
  exact fresh (List.mem_map_of_mem member)

/-- The item with some number is retained where it stands. -/
theorem retainId_found {front back : List Item} {found : Item}
    (other : ∀ item ∈ front ++ back, item.id ≠ found.id) :
    retainId found.id (front ++ found :: back) = front ++ found.retain :: back := by
  have before : retainId found.id front = front :=
    retainId_of_ne fun item member => other item (List.mem_append_left _ member)
  have after : retainId found.id back = back :=
    retainId_of_ne fun item member => other item (List.mem_append_right _ member)
  simp only [retainId, List.map_append, List.map_cons] at before after ⊢
  rw [before, after]
  simp [Item.retain]

theorem dropId_found {front back : List Item} {found : Item}
    (other : ∀ item ∈ front ++ back, item.id ≠ found.id) :
    dropId found.id (front ++ found.retain :: back) = front ++ back := by
  have kept := dropId_of_ne other
  have number : found.retain.id = found.id := rfl
  simp only [dropId, List.filter_append, List.filter_cons] at kept ⊢
  simpa [number] using kept

/-- What meeting an element comes to: a step of the walk, and values for the item of the element. -/
theorem meet_ok {walk next : Walk} {element : PassItem} {edit : Option Edit} {before after : Store}
    (indexed : walk.artifacts.Indexes (walk.items.map Item.face))
    (passed : ∀ item ∈ walk.behind, item.key = element.key → item.seen = true)
    (clear : ∀ item ∈ walk.ahead, item.seen = false)
    (houses : before.Houses (walk.items.map Item.face))
    (ended : walk.meet element before = .ok (next, edit) after) :
    Meets walk element.key next edit ∧
      ∃ face ∈ next.items.map Item.face, face.key = element.key ∧
        Store.Given face.2 element before after ∧ after.Houses (next.items.map Item.face) := by
  unfold meet at ended
  split at ended
  · rename_i first
    cases ahead : walk.ahead with
    | nil => simp [Walk.before, ahead] at first
    | cons current rest =>
      simp only [ahead] at ended
      have same : current.key = element.key := by simpa [Walk.before, ahead] using first
      have member : current.face ∈ walk.items.map Item.face := by simp [items, ahead]
      obtain ⟨_, between, updated, done⟩ := bind_ok.mp ended
      obtain ⟨equal, rfl⟩ := pure_ok.mp done
      obtain ⟨rfl, rfl⟩ := Prod.mk.inj equal
      obtain ⟨given, -⟩ := updateRefs_ok (houses.value_ne_memo member) updated
      have meets : Meets walk element.key _ _ := .retain ahead same
      refine ⟨meets, current.face, by simp [items, Item.face], same, given, ?_⟩
      have faces : walk.items.map Item.face =
          (walk.behind ++ [current.retain] ++ rest).map Item.face := by simp [items, ahead]
      exact (faces ▸ houses).grow given.cells
  · cases search : walk.artifacts.get? element.key with
    | none =>
      simp only [search] at ended
      have fresh : element.key ∉ walk.items.map Item.key := by
        intro present
        obtain ⟨item, member, same⟩ := List.mem_map.mp present
        have known := indexed.get?_of_mem (List.mem_map_of_mem (f := Item.face) member)
        rw [Item.face_key, same, search] at known
        cases known
      obtain ⟨refs, between, created, done⟩ := bind_ok.mp ended
      obtain ⟨equal, rfl⟩ := pure_ok.mp done
      obtain ⟨rfl, rfl⟩ := Prod.mk.inj equal
      obtain ⟨shape, given, size⟩ := newRefs_ok created
      have key : refs.key = element.key := by rw [shape]
      have perm := Merged.insertHere_faces walk refs
      refine ⟨.insert fresh key, ((walk.artifacts.allocate refs.key).1, refs),
        perm.mem_iff.mpr (by simp), key, given, ?_⟩
      subst shape
      exact (houses.cons_new size _).perm perm.symm
    | some id =>
      simp only [search] at ended
      cases spot : walk.items.find? (fun item => decide (item.id = id)) with
      | none =>
        simp only [spot] at ended
        exact absurd ended throw_ok
      | some found =>
        simp only [spot] at ended
        have member : found ∈ walk.items := List.mem_of_find?_eq_some spot
        have number : found.id = id := by simpa using List.find?_some spot
        have same : found.key = element.key := by
          obtain ⟨face, inside, named, numbered⟩ := (indexed.found _ _).mp search
          have equal := indexed.eq_of_id (List.mem_map_of_mem (f := Item.face) member) inside
            (number.trans numbered.symm)
          rw [← Item.face_key, equal, named]
        have face : found.face ∈ walk.items.map Item.face := List.mem_map_of_mem member
        have distinct := indexed.ids
        rw [List.map_map] at distinct
        obtain ⟨_, between, updated, rest⟩ := bind_ok.mp ended
        obtain ⟨given, -⟩ := updateRefs_ok (houses.value_ne_memo face) updated
        rcases List.mem_append.mp member with behind | ahead
        · -- The item was passed over, so it moves here.
          have seen : found.seen = true := passed found behind same
          rw [if_pos seen] at rest
          obtain ⟨equal, rfl⟩ := pure_ok.mp rest
          obtain ⟨rfl, rfl⟩ := Prod.mk.inj equal
          obtain ⟨front, back, place⟩ := List.append_of_mem behind
          have split : walk.items = front ++ found :: (back ++ walk.ahead) := by
            simp [items, place]
          rw [split] at distinct
          have other := id_ne_found distinct
          have near : ∀ item ∈ front ++ back, item.id ≠ found.id := fun item inside =>
            other item (by
              rw [← List.append_assoc]
              exact List.mem_append_left _ inside)
          have far : ∀ item ∈ walk.ahead, item.id ≠ found.id := fun item inside =>
            other item (by simp [inside])
          subst number
          simp only [place, retainId_found near, dropId_found near, retainId_of_ne far,
            dropId_of_ne far, Walk.before]
          have meets : Meets walk element.key _ _ := .move place same seen
          have perm : ((front ++ back ++ [found.retain] ++ walk.ahead).map Item.face).Perm
              (walk.items.map Item.face) := by
            rcases Merged.faces_perm meets with ⟨-, perm⟩ | ⟨_, fresh, -⟩
            · exact perm
            · exact absurd (same ▸ List.mem_map_of_mem member) fresh
          exact ⟨meets, found.face, by simp [items, Item.face], same, given,
            (houses.perm perm.symm).grow given.cells⟩
        · have seen : found.seen = false := clear found ahead
          rw [if_neg (by simp [seen])] at rest
          obtain ⟨equal, rfl⟩ := pure_ok.mp rest
          obtain ⟨rfl, rfl⟩ := Prod.mk.inj equal
          obtain ⟨skipped, later, place⟩ := List.append_of_mem ahead
          have split : walk.items = (walk.behind ++ skipped) ++ found :: later := by
            simp [items, place]
          rw [split] at distinct
          have other := id_ne_found distinct
          have near : ∀ item ∈ skipped ++ later, item.id ≠ found.id := fun item inside =>
            other item (by
              rw [List.append_assoc]
              exact List.mem_append_right _ inside)
          have far : ∀ item ∈ walk.behind, item.id ≠ found.id := fun item inside =>
            other item (by simp [inside])
          have keys := indexed.keys
          rw [Item.keys_of_faces, split, List.map_append, List.map_cons] at keys
          have unlike : ∀ item ∈ skipped, item.key ≠ element.key := by
            intro item inside equal
            refine (List.nodup_cons.mp (List.nodup_middle.mp keys)).1 ?_
            rw [same, ← equal]
            exact List.mem_append_left _ (List.mem_map_of_mem (by simp [inside]))
          subst number
          have skip : ({ walk with behind := walk.behind, ahead := skipped ++ found.retain :: later } :
              Walk).skipTo element.key =
              { walk with
                behind := walk.behind ++ skipped.map Item.pass ++ [found.retain], ahead := later } := by
            have taken : (skipped ++ found.retain :: later).takeWhile
                (fun item => decide (item.key ≠ element.key)) = skipped := by
              rw [List.takeWhile_append_of_pos fun item inside => by simpa using unlike item inside]
              simp [same]
            have dropped : (skipped ++ found.retain :: later).dropWhile
                (fun item => decide (item.key ≠ element.key)) = found.retain :: later := by
              rw [List.dropWhile_append_of_pos fun item inside => by simpa using unlike item inside]
              simp [same]
            simp only [skipTo, taken, dropped]
            rfl
          simp only [place, retainId_found near, retainId_of_ne far, skip]
          have meets : Meets walk element.key _ _ := .skip place same
          have perm : ((walk.behind ++ skipped.map Item.pass ++ [found.retain] ++ later).map
              Item.face).Perm (walk.items.map Item.face) := by
            rcases Merged.faces_perm meets with ⟨-, perm⟩ | ⟨_, fresh, -⟩
            · exact perm
            · exact absurd (same ▸ List.mem_map_of_mem member) fresh
          exact ⟨meets, found.face, by simp [items], same, given,
            (houses.perm perm.symm).grow given.cells⟩

end Walk

end LiveTemplate
