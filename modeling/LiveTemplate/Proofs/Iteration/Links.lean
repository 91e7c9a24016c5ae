import LiveTemplate.Iteration.Links
import LiveTemplate.Proofs.Iteration.ItemCells
import Mathlib.Data.List.Induction

/-!
Linked items as a list. `Torn` is a list of items that is open at one place: the last item before
the place and the first one after it may point anywhere. Linking an item in and taking one out both
go through this, and each sets the two ends once. What the slots hold besides, `Stored` says without
regard to the order.
-/

namespace LiveTemplate

/-- An item in its slot, between two neighbours. -/
def Item.link (item : Item) (prev next : Option ItemId) : Link :=
  ⟨item.refs, item.retained, item.seen, prev, next⟩

/-- The first of some items, or what comes after them. -/
def firstId : List Item → Option ItemId → Option ItemId
  | [], after => after
  | item :: _, _ => some item.id

/-- The last of some items, or what comes before them. -/
def lastId : Option ItemId → List Item → Option ItemId
  | before, [] => before
  | _, item :: rest => lastId (some item.id) rest

@[simp] theorem firstId_append (front back : List Item) (after : Option ItemId) :
    firstId (front ++ back) after = firstId front (firstId back after) := by
  cases front <;> rfl

@[simp] theorem lastId_append (before : Option ItemId) (front back : List Item) :
    lastId before (front ++ back) = lastId (lastId before front) back := by
  induction front generalizing before with
  | nil => rfl
  | cons item rest ih => exact ih (some item.id)

namespace Links

variable {links after : Links} {items front back : List Item} {item : Item} {id : ItemId}
  {link : Link}

/-- The item with this number has not been removed. -/
def Live (links : Links) (id : ItemId) : Prop := ∃ link, links.slots[id]? = some (some link)

/-! Reading and writing slots -/

theorem link_ok (held : links.slots[id]? = some (some link)) : links.link id = .ok link := by
  simp only [Links.link, held]

theorem change_ok (held : links.slots[id]? = some (some link)) (edit : Link → Link) :
    links.change id edit = .ok (links.put id (edit link)) := by
  rw [change, link_ok held]
  rfl

theorem put_self (live : links.Live id) (link : Link) :
    (links.put id link).slots[id]? = some (some link) := by
  obtain ⟨old, held⟩ := live
  obtain ⟨inside, -⟩ := Array.getElem?_eq_some_iff.mp held
  simp [put, inside]

theorem put_other {other : ItemId} (apart : other ≠ id) (link : Link) :
    (links.put id link).slots[other]? = links.slots[other]? := by
  simp [put, Ne.symm apart]

/-- Between the two only the slots of some items were written, all of them living. -/
structure Tended (ids : List ItemId) (before after : Links) : Prop where
  slots : ∀ id : ItemId, id ∉ ids → after.slots[id]? = before.slots[id]?
  live : ∀ id, after.Live id ↔ before.Live id
  dead : ∀ id : ItemId, after.slots[id]? = some none ↔ before.slots[id]? = some none
  size : after.slots.size = before.slots.size
  free : after.free = before.free
  index : after.index = before.index

namespace Tended

variable {ids others : List ItemId} {between : Links}

theorem of_slots (slots : after.slots = links.slots) (free : after.free = links.free)
    (index : after.index = links.index) : Tended ids links after where
  slots := by simp [slots]
  live := by simp [Live, slots]
  dead := by simp [slots]
  size := by rw [slots]
  free := free
  index := index

theorem mono (tended : Tended ids links after) (more : ids ⊆ others) :
    Tended others links after where
  slots := fun id outside => tended.slots id fun inside => outside (more inside)
  live := tended.live
  dead := tended.dead
  size := tended.size
  free := tended.free
  index := tended.index

theorem trans (early : Tended ids links between) (late : Tended ids between after) :
    Tended ids links after where
  slots := fun id outside => (late.slots id outside).trans (early.slots id outside)
  live := fun id => (late.live id).trans (early.live id)
  dead := fun id => (late.dead id).trans (early.dead id)
  size := late.size.trans early.size
  free := late.free.trans early.free
  index := late.index.trans early.index

theorem put (live : links.Live id) (link : Link) : Tended [id] links (links.put id link) where
  slots := fun other outside => put_other (by simpa using outside) link
  live := by
    intro other
    by_cases same : other = id
    · subst same
      exact ⟨fun _ => live, fun _ => ⟨link, put_self live link⟩⟩
    · simp only [Live, put_other same]
  dead := by
    intro other
    by_cases same : other = id
    · subst same
      obtain ⟨old, held⟩ := live
      simp [put_self ⟨old, held⟩ link, held]
    · rw [put_other same]
  size := by simp [Links.put]
  free := rfl
  index := rfl

end Tended

/-! Stretches of linked items -/

/-- The items stand in the slots one after the other, between two neighbours of the stretch. -/
def Segment (slots : Array (Option Link)) : Option ItemId → List Item → Option ItemId → Prop
  | _, [], _ => True
  | prev, item :: rest, next =>
    slots[item.id]? = some (some (item.link prev (firstId rest next))) ∧
      Segment slots (some item.id) rest next

theorem segment_append {slots : Array (Option Link)} {prev next : Option ItemId} :
    Segment slots prev (front ++ back) next ↔
      Segment slots prev front (firstId back next) ∧
        Segment slots (lastId prev front) back next := by
  induction front generalizing prev with
  | nil => simp [Segment, lastId]
  | cons item rest ih => simp [Segment, lastId, ih, and_assoc]

/-- A stretch depends only on its own slots. -/
theorem Segment.congr {slots others : Array (Option Link)} {prev next : Option ItemId}
    (segment : Segment slots prev items next)
    (same : ∀ item ∈ items, others[item.id]? = slots[item.id]?) :
    Segment others prev items next := by
  induction items generalizing prev with
  | nil => trivial
  | cons item rest ih =>
    refine ⟨?_, ih segment.2 fun other inside => same other (List.mem_cons_of_mem _ inside)⟩
    rw [same item List.mem_cons_self]
    exact segment.1

theorem Segment.of_tended {prev next : Option ItemId} {ids : List ItemId}
    (segment : Segment links.slots prev items next) (tended : Tended ids links after)
    (apart : ∀ item ∈ items, item.id ∉ ids) : Segment after.slots prev items next :=
  segment.congr fun item inside => tended.slots item.id (apart item inside)

theorem Segment.live {prev next : Option ItemId} (segment : Segment links.slots prev items next)
    (inside : item ∈ items) : links.Live item.id := by
  induction items generalizing prev with
  | nil => cases inside
  | cons first rest ih =>
    rcases List.mem_cons.mp inside with rfl | inside
    · exact ⟨_, segment.1⟩
    · exact ih segment.2 inside

/-- The items are linked up to a place and from there on. What is linked to the place itself may
still be wrong. -/
structure Torn (links : Links) (front back : List Item) (next prev : Option ItemId) : Prop where
  left : Segment links.slots none front next
  right : Segment links.slots prev back none
  head : links.head = firstId front next
  tail : links.tail = lastId prev back

/-- The items are linked from the head to the tail. -/
structure Chain (links : Links) (items : List Item) : Prop where
  segment : Segment links.slots none items none
  head : links.head = firstId items none
  tail : links.tail = lastId none items

theorem Chain.torn (chain : links.Chain (front ++ back)) :
    links.Torn front back (firstId back none) (lastId none front) where
  left := (segment_append.mp chain.segment).1
  right := (segment_append.mp chain.segment).2
  head := by rw [chain.head, firstId_append]
  tail := by rw [chain.tail, lastId_append]

theorem Torn.chain (torn : links.Torn front back (firstId back none) (lastId none front)) :
    links.Chain (front ++ back) where
  segment := segment_append.mpr ⟨torn.left, torn.right⟩
  head := by rw [torn.head, firstId_append]
  tail := by rw [torn.tail, lastId_append]

theorem Torn.of_tended {next prev : Option ItemId} {ids : List ItemId}
    (torn : links.Torn front back next prev) (tended : Tended ids links after)
    (apart : ∀ item ∈ front ++ back, item.id ∉ ids) (head : after.head = links.head)
    (tail : after.tail = links.tail) : after.Torn front back next prev where
  left := torn.left.of_tended tended fun item inside => apart item (List.mem_append_left _ inside)
  right := torn.right.of_tended tended fun item inside => apart item (List.mem_append_right _ inside)
  head := head.trans torn.head
  tail := tail.trans torn.tail

/-- A place at which an item stands. -/
theorem chain_middle :
    links.Chain (front ++ item :: back) ↔
      links.Torn front back (some item.id) (some item.id) ∧
        links.slots[item.id]? =
          some (some (item.link (lastId none front) (firstId back none))) := by
  constructor
  · intro chain
    have torn := chain.torn
    exact ⟨⟨torn.left, torn.right.2, torn.head, torn.tail⟩, torn.right.1⟩
  · rintro ⟨torn, held⟩
    exact Torn.chain ⟨torn.left, ⟨held, torn.right⟩, torn.head, torn.tail⟩

section Ends

variable {next prev : Option ItemId}

theorem apart_of_nodup {item : Item} (distinct : ((front ++ item :: back).map Item.id).Nodup) :
    ∀ other ∈ front ++ back, other.id ∉ [item.id] := by
  simpa using Walk.id_ne_found distinct

theorem Torn.setNext (torn : links.Torn front back next prev)
    (distinct : ((front ++ back).map Item.id).Nodup) (fresh : Option ItemId) :
    ∃ after, links.setNext (lastId none front) fresh = .ok after ∧
      after.Torn front back fresh prev ∧ Tended (front.map Item.id) links after := by
  rcases List.eq_nil_or_concat front with rfl | ⟨init, item, rfl⟩
  · exact ⟨_, rfl, ⟨trivial, torn.right, rfl, torn.tail⟩, .of_slots rfl rfl rfl⟩
  · rw [List.concat_eq_append] at torn distinct ⊢
    obtain ⟨before, held, -⟩ := segment_append.mp torn.left
    have live : links.Live item.id := ⟨_, held⟩
    have tended := Tended.put live (item.link (lastId none init) fresh)
    have apart := apart_of_nodup (by simpa using distinct : ((init ++ item :: back).map Item.id).Nodup)
    refine ⟨_, ?_, ⟨segment_append.mpr ⟨?_, put_self live _, trivial⟩, ?_, ?_, torn.tail⟩,
      tended.mono (by simp)⟩
    · rw [lastId_append]
      exact change_ok held _
    · exact before.of_tended tended fun other inside => apart other (List.mem_append_left _ inside)
    · exact torn.right.of_tended tended fun other inside =>
        apart other (List.mem_append_right _ inside)
    · have head := torn.head
      rw [firstId_append] at head ⊢
      exact head

theorem Torn.setPrev (torn : links.Torn front back next prev)
    (distinct : ((front ++ back).map Item.id).Nodup) (fresh : Option ItemId) :
    ∃ after, links.setPrev (firstId back none) fresh = .ok after ∧
      after.Torn front back next fresh ∧ Tended (back.map Item.id) links after := by
  cases back with
  | nil => exact ⟨_, rfl, ⟨torn.left, trivial, torn.head, rfl⟩, .of_slots rfl rfl rfl⟩
  | cons item rest =>
    obtain ⟨held, others⟩ := torn.right
    have live : links.Live item.id := ⟨_, held⟩
    have tended := Tended.put live (item.link fresh (firstId rest none))
    have apart := apart_of_nodup distinct
    refine ⟨_, change_ok held _, ⟨?_, ⟨put_self live _, ?_⟩, torn.head, torn.tail⟩,
      tended.mono (by simp)⟩
    · exact torn.left.of_tended tended fun other inside =>
        apart other (List.mem_append_left _ inside)
    · exact others.of_tended tended fun other inside =>
        apart other (List.mem_append_right _ inside)

end Ends

theorem nodup_around (distinct : ((front ++ item :: back).map Item.id).Nodup) :
    ((front ++ back).map Item.id).Nodup :=
  distinct.sublist (((List.sublist_cons_self item back).append_left front).map Item.id)

/-- The item in front of a place. -/
theorem Torn.prev_eq {next prev : Option ItemId} (torn : links.Torn front back next prev) :
    links.prev (firstId back none) = .ok prev := by
  cases back with
  | nil => exact congrArg Except.ok torn.tail
  | cons item rest =>
    simp only [firstId, Links.prev, link_ok torn.right.1]
    rfl

/-- An item that has a slot of its own is linked in. -/
theorem Chain.linkBefore {prev next : Option ItemId} (chain : links.Chain (front ++ back))
    (held : links.slots[item.id]? = some (some (item.link prev next)))
    (distinct : ((front ++ item :: back).map Item.id).Nodup) :
    ∃ after, links.linkBefore item.id (firstId back none) = .ok after ∧
      after.Chain (front ++ item :: back) ∧
        Tended ((front ++ item :: back).map Item.id) links after := by
  have apart := apart_of_nodup distinct
  have around := nodup_around distinct
  have live : links.Live item.id := ⟨_, held⟩
  have placed := Tended.put live (item.link (lastId none front) (firstId back none))
  have torn := chain.torn.of_tended placed apart rfl rfl
  obtain ⟨second, nextSet, torn, left⟩ := torn.setNext around (some item.id)
  obtain ⟨third, prevSet, torn, right⟩ := torn.setPrev around (some item.id)
  have slot : third.slots[item.id]? =
      some (some (item.link (lastId none front) (firstId back none))) := by
    rw [right.slots, left.slots, put_self live]
    · intro inside
      obtain ⟨other, member, same⟩ := List.mem_map.mp inside
      exact apart other (List.mem_append_left _ member) (by simp [same])
    · intro inside
      obtain ⟨other, member, same⟩ := List.mem_map.mp inside
      exact apart other (List.mem_append_right _ member) (by simp [same])
  refine ⟨third, ?_, chain_middle.mpr ⟨torn, slot⟩, ?_⟩
  · have changed : links.change item.id (fun link =>
        { link with prev := lastId none front, next := firstId back none }) =
          .ok (links.put item.id (item.link (lastId none front) (firstId back none))) :=
      change_ok held _
    simp only [Links.linkBefore, chain.torn.prev_eq, changed, nextSet, prevSet, bind, Except.bind]
  · exact ((placed.mono (by simp)).trans (left.mono (by simp))).trans (right.mono (by simp))

/-- An item is taken out of its place and keeps its slot. -/
theorem Chain.unlink (chain : links.Chain (front ++ item :: back))
    (distinct : ((front ++ item :: back).map Item.id).Nodup) :
    ∃ after, links.unlink item.id = .ok after ∧ after.Chain (front ++ back) ∧
      after.slots[item.id]? = some (some (item.link none none)) ∧
        Tended ((front ++ item :: back).map Item.id) links after := by
  have apart := apart_of_nodup distinct
  have around := nodup_around distinct
  obtain ⟨torn, held⟩ := chain_middle.mp chain
  obtain ⟨second, nextSet, torn, left⟩ := torn.setNext around (firstId back none)
  obtain ⟨third, prevSet, torn, right⟩ := torn.setPrev around (lastId none front)
  have slot : third.slots[item.id]? =
      some (some (item.link (lastId none front) (firstId back none))) := by
    rw [right.slots, left.slots, held]
    · intro inside
      obtain ⟨other, member, same⟩ := List.mem_map.mp inside
      exact apart other (List.mem_append_left _ member) (by simp [same])
    · intro inside
      obtain ⟨other, member, same⟩ := List.mem_map.mp inside
      exact apart other (List.mem_append_right _ member) (by simp [same])
  have live : third.Live item.id := ⟨_, slot⟩
  have cleared := Tended.put live (item.link none none)
  refine ⟨third.put item.id (item.link none none), ?_,
    (torn.of_tended cleared apart rfl rfl).chain, put_self live _, ?_⟩
  · have changed : third.change item.id (fun link => { link with prev := none, next := none }) =
        .ok (third.put item.id (item.link none none)) :=
      change_ok slot _
    simp only [Links.unlink, link_ok held, Item.link, nextSet, prevSet, changed, bind, Except.bind]
  · exact ((left.mono (by simp)).trans (right.mono (by simp))).trans (cleared.mono (by simp))

/-! What the slots hold in whatever order -/

/-- The slots hold the items with these faces, and the free numbers and the index fit them. Several
items may have one key; the index then knows one of them. -/
structure Stored (links : Links) (faces : List Face) : Prop where
  distinct : (faces.map Prod.fst).Nodup
  live : ∀ id, links.Live id ↔ id ∈ faces.map Prod.fst
  freeDistinct : links.free.Nodup
  free : ∀ id : ItemId, id ∈ links.free ↔ links.slots[id]? = some none
  keys : (links.index.map Prod.fst).Nodup
  index : ∀ entry ∈ links.index, ∃ face ∈ faces, face.1 = entry.2 ∧ face.key = entry.1

/-- A list of items has the same numbers in use, given back and indexed. -/
structure Accords (links : Links) (artifacts : Artifacts) : Prop where
  index : links.index = artifacts.index
  size : links.slots.size = artifacts.slots
  free : links.free = artifacts.free

theorem Accords.of_tended {artifacts : Artifacts} {ids : List ItemId}
    (accords : links.Accords artifacts) (tended : Tended ids links after) :
    after.Accords artifacts :=
  ⟨tended.index.trans accords.index, tended.size.trans accords.size,
    tended.free.trans accords.free⟩

namespace Stored

variable {faces others : List Face}

theorem perm (stored : links.Stored faces) (reordered : faces.Perm others) :
    links.Stored others where
  distinct := (reordered.map Prod.fst).nodup_iff.mp stored.distinct
  live := fun id => by rw [stored.live, (reordered.map Prod.fst).mem_iff]
  freeDistinct := stored.freeDistinct
  free := stored.free
  keys := stored.keys
  index := fun entry inside => by simpa only [reordered.mem_iff] using stored.index entry inside

theorem of_tended {ids : List ItemId} (stored : links.Stored faces)
    (tended : Tended ids links after) : after.Stored faces where
  distinct := stored.distinct
  live := fun id => (tended.live id).trans (stored.live id)
  freeDistinct := tended.free ▸ stored.freeDistinct
  free := fun id => by rw [tended.free, stored.free, tended.dead]
  keys := tended.index ▸ stored.keys
  index := by rw [tended.index]; exact stored.index

/-- Every number that was given out is in use or given back. -/
theorem size_eq (stored : links.Stored faces) :
    faces.length + links.free.length = links.slots.size := by
  have apart : ∀ id ∈ faces.map Prod.fst, id ∉ links.free := by
    intro id used free
    obtain ⟨link, held⟩ := (stored.live id).mpr used
    rw [(stored.free id).mp free] at held
    cases held
  have distinct : (faces.map Prod.fst ++ links.free).Nodup :=
    List.nodup_append'.mpr ⟨stored.distinct, stored.freeDistinct, apart⟩
  have all : (faces.map Prod.fst ++ links.free).Perm (List.range links.slots.size) := by
    refine (List.perm_ext_iff_of_nodup distinct List.nodup_range).mpr fun id => ?_
    rw [List.mem_append, ← stored.live, stored.free, List.mem_range]
    constructor
    · rintro (⟨link, held⟩ | held)
      · exact (Array.getElem?_eq_some_iff.mp held).1
      · exact (Array.getElem?_eq_some_iff.mp held).1
    · intro inside
      cases held : links.slots[id] with
      | none => exact .inr (by rw [Array.getElem?_eq_getElem inside, held])
      | some link => exact .inl ⟨link, by rw [Array.getElem?_eq_getElem inside, held]⟩
  simpa using all.length_eq

end Stored

/-- A new item with these references has a slot and no neighbours. -/
structure Allocated (links : Links) (faces : List Face) (refs : ItemRefs) (id : ItemId)
    (after : Links) : Prop where
  slot : after.slots[id]? = some (some { refs })
  others : ∀ other : ItemId, other ≠ id → after.slots[other]? = links.slots[other]?
  head : after.head = links.head
  tail : after.tail = links.tail
  stored : after.Stored ((id, refs) :: faces)
  accords : ∀ {artifacts : Artifacts}, links.Accords artifacts →
    (artifacts.allocate refs.key).1 = id ∧ after.Accords (artifacts.allocate refs.key).2

/-- The new item of a key is the one that the index knows from now on. -/
theorem Stored.index_put {faces : List Face} (stored : links.Stored faces) (refs : ItemRefs)
    (id : ItemId) : ∀ entry ∈ Entries.put refs.key id links.index,
      ∃ face ∈ (id, refs) :: faces, face.1 = entry.2 ∧ Face.key face = entry.1 := by
  intro entry inside
  rcases Entries.mem_put inside with rfl | inside
  · exact ⟨(id, refs), List.mem_cons_self, rfl, rfl⟩
  · obtain ⟨face, member, same⟩ := stored.index entry inside
    exact ⟨face, List.mem_cons_of_mem _ member, same⟩

/-- A number that was never given out. -/
theorem Stored.allocate_new {faces : List Face} (stored : links.Stored faces) (refs : ItemRefs)
    (free : links.free = []) :
    links.Allocated faces refs links.slots.size
      { links with
        slots := links.slots.push (some { refs })
        index := Entries.put refs.key links.slots.size links.index } where
  slot := by simp
  others := fun other apart => by simp [Array.getElem?_push, apart]
  head := rfl
  tail := rfl
  stored := by
    refine ⟨?_, ?_, stored.freeDistinct, ?_, Entries.keys_put_nodup stored.keys _ _,
      stored.index_put refs _⟩
    · refine List.nodup_cons.mpr ⟨fun used => ?_, stored.distinct⟩
      obtain ⟨link, held⟩ := (stored.live _).mpr used
      exact absurd (Array.getElem?_eq_some_iff.mp held).1 (Nat.lt_irrefl _)
    · intro other
      by_cases same : other = links.slots.size
      · simp [Live, same]
      · have earlier := stored.live other
        simp only [Live, Array.getElem?_push, same, if_false, List.map_cons, List.mem_cons,
          false_or] at earlier ⊢
        exact earlier
    · intro other
      by_cases same : other = links.slots.size
      · simp [same, free]
      · simpa [Array.getElem?_push, same] using stored.free other
  accords := by
    intro artifacts accords
    have none : artifacts.free = [] := accords.free ▸ free
    simp only [Artifacts.allocate, none]
    exact ⟨accords.size.symm, by simp [accords.index, accords.size], by simp [accords.size],
      by simp [free]⟩

/-- The number that was given back last. -/
theorem Stored.allocate_again {faces : List Face} (stored : links.Stored faces) (refs : ItemRefs)
    {rest : List ItemId} (free : links.free = id :: rest) (dead : links.slots[id]? = some none) :
    links.Allocated faces refs id
      { links.put id { refs } with
        free := rest, index := Entries.put refs.key id links.index } where
  slot := by simp [put, (Array.getElem?_eq_some_iff.mp dead).1]
  others := fun other apart => put_other apart _
  head := rfl
  tail := rfl
  stored := by
    have inside := (Array.getElem?_eq_some_iff.mp dead).1
    have distinct := stored.freeDistinct
    rw [free, List.nodup_cons] at distinct
    refine ⟨?_, ?_, distinct.2, ?_, Entries.keys_put_nodup stored.keys _ _,
      stored.index_put refs _⟩
    · refine List.nodup_cons.mpr ⟨fun used => ?_, stored.distinct⟩
      obtain ⟨link, held⟩ := (stored.live _).mpr used
      rw [dead] at held
      cases held
    · intro other
      by_cases same : other = id
      · simp [Live, put, same, inside]
      · have earlier := stored.live other
        simp only [Live, put, Array.getElem?_setIfInBounds, Ne.symm same, if_false,
          List.map_cons, List.mem_cons, same, false_or] at earlier ⊢
        exact earlier
    · intro other
      have earlier := stored.free other
      by_cases same : other = id
      · simp [put, same, inside, distinct.1]
      · simp only [free, List.mem_cons, same, false_or] at earlier
        simpa [put, Array.getElem?_setIfInBounds, Ne.symm same] using earlier
  accords := by
    intro artifacts accords
    have given : artifacts.free = id :: rest := accords.free ▸ free
    simp only [Artifacts.allocate, given]
    exact ⟨trivial, by simp [accords.index], by simp [put, accords.size], rfl⟩

theorem Stored.allocate {faces : List Face} (stored : links.Stored faces) (refs : ItemRefs) :
    ∃ id after, links.allocate refs = .ok (id, after) ∧ links.Allocated faces refs id after := by
  cases free : links.free with
  | nil => exact ⟨_, _, by simp only [Links.allocate, free], stored.allocate_new refs free⟩
  | cons id rest =>
    have dead := (stored.free id).mp (free ▸ List.mem_cons_self)
    have inside := (Array.getElem?_eq_some_iff.mp dead).1
    exact ⟨id, _, by simp only [Links.allocate, free, inside, if_true],
      stored.allocate_again refs free dead⟩

/-- The links without an item that is linked no more. -/
def released (links : Links) (key : Key) (id : ItemId) : Links :=
  { links with
    index := links.index.filter fun entry => entry ≠ (key, id)
    slots := links.slots.setIfInBounds id none
    free := id :: links.free }

theorem released_empty (key : Key) (inside : id < links.slots.size) :
    (links.released key id).slots[id]? = some none := by
  simp [released, inside]

theorem released_other {other : ItemId} (apart : other ≠ id) (key : Key) :
    (links.released key id).slots[other]? = links.slots[other]? := by
  simp [released, Ne.symm apart]

theorem Accords.release {artifacts : Artifacts} (accords : links.Accords artifacts) (item : Item) :
    (links.released item.key item.id).Accords (artifacts.release item) where
  index := by simp [released, Artifacts.release, accords.index]
  size := by simp [released, Artifacts.release, accords.size]
  free := by simp [released, Artifacts.release, accords.free]

/-- The number of an item that goes is given back. -/
theorem Stored.release {faces : List Face} {face : Face} {link : Link}
    (stored : links.Stored (face :: faces)) (held : links.slots[face.1]? = some (some link)) :
    (links.released face.key face.1).Stored faces := by
  have inside := (Array.getElem?_eq_some_iff.mp held).1
  have gone := List.nodup_cons.mp stored.distinct
  have empty := released_empty face.key inside
  refine ⟨gone.2, ?_, ?_, ?_, stored.keys.sublist (List.filter_sublist.map Prod.fst), ?_⟩
  · intro other
    by_cases same : other = face.1
    · rw [same]
      refine ⟨fun ⟨link, there⟩ => ?_, fun used => absurd used gone.1⟩
      rw [empty] at there
      cases there
    · rw [Live, released_other same]
      exact (stored.live other).trans
        ⟨fun used => (List.mem_cons.mp used).resolve_left same, List.mem_cons_of_mem _⟩
  · refine List.nodup_cons.mpr ⟨fun free => ?_, stored.freeDistinct⟩
    rw [stored.free, held] at free
    cases free
  · intro other
    by_cases same : other = face.1
    · rw [same, empty]
      simp [released]
    · rw [released_other same, ← stored.free]
      simp [released, same]
  · intro entry member
    obtain ⟨member, different⟩ := List.mem_filter.mp member
    obtain ⟨known, listed, id, key⟩ := stored.index entry member
    rcases List.mem_cons.mp listed with rfl | listed
    · exact absurd (Prod.ext key.symm id.symm) (by simpa using different)
    · exact ⟨known, listed, id, key⟩

/-! Items in their order -/

/-- The links are those of these items in this order, and nothing else is stored. -/
structure Lists (links : Links) (items : List Item) : Prop where
  chain : links.Chain items
  stored : links.Stored (items.map Item.face)

namespace Lists

theorem ids_of_faces (items : List Item) :
    (items.map Item.face).map Prod.fst = items.map Item.id := by
  simp [Item.face, Function.comp_def]

theorem empty : Lists {} [] where
  chain := ⟨trivial, rfl, rfl⟩
  stored := ⟨List.nodup_nil, by simp [Live], List.nodup_nil, by simp, List.nodup_nil, by simp⟩

theorem distinct (lists : links.Lists items) : (items.map Item.id).Nodup :=
  ids_of_faces items ▸ lists.stored.distinct

theorem live (lists : links.Lists items) : links.Live id ↔ id ∈ items.map Item.id := by
  rw [lists.stored.live, ids_of_faces]

theorem size_eq (lists : links.Lists items) :
    items.length + links.free.length = links.slots.size := by
  simpa using lists.stored.size_eq

/-- The slot of an item at its place. -/
theorem held (lists : links.Lists (front ++ item :: back)) :
    links.slots[item.id]? = some (some (item.link (lastId none front) (firstId back none))) :=
  (chain_middle.mp lists.chain).2

theorem split (lists : links.Lists items) (live : links.Live id) :
    ∃ front item back, items = front ++ item :: back ∧ item.id = id := by
  obtain ⟨item, inside, same⟩ := List.mem_map.mp (lists.live.mp live)
  obtain ⟨front, back, shape⟩ := List.append_of_mem inside
  exact ⟨front, item, back, shape, same⟩

/-- An item that has its slot is linked in at a place. -/
theorem enter {prev next : Option ItemId} (chain : links.Chain (front ++ back))
    (stored : links.Stored (item.face :: (front ++ back).map Item.face))
    (held : links.slots[item.id]? = some (some (item.link prev next))) :
    ∃ after, links.linkBefore item.id (firstId back none) = .ok after ∧
      after.Lists (front ++ item :: back) ∧
        Tended ((front ++ item :: back).map Item.id) links after := by
  have around : (item.face :: (front ++ back).map Item.face).Perm
      ((front ++ item :: back).map Item.face) := by
    simpa using List.perm_middle.symm
  have distinct : ((front ++ item :: back).map Item.id).Nodup := by
    rw [← ids_of_faces]
    exact (around.map Prod.fst).nodup_iff.mp stored.distinct
  obtain ⟨after, linked, chain, tended⟩ := chain.linkBefore held distinct
  exact ⟨after, linked, ⟨chain, (stored.of_tended tended).perm around⟩, tended⟩

/-- A new item, which is nowhere yet, leaves the chain of the others as it is. -/
theorem chain_allocated {refs : ItemRefs} (lists : links.Lists items)
    (allocated : links.Allocated (items.map Item.face) refs id after) : after.Chain items where
  segment := by
    refine lists.chain.segment.congr fun other inside => allocated.others other.id ?_
    have fresh := (List.nodup_cons.mp allocated.stored.distinct).1
    rw [ids_of_faces] at fresh
    intro same
    exact fresh (same ▸ List.mem_map_of_mem inside)
  head := allocated.head.trans lists.chain.head
  tail := allocated.tail.trans lists.chain.tail

theorem append (lists : links.Lists items) (refs : ItemRefs) :
    ∃ id after, links.append refs = .ok after ∧ after.Lists (items ++ [⟨id, refs, false, false⟩]) ∧
      ∀ artifacts, links.Accords artifacts →
        (artifacts.allocate refs.key).1 = id ∧ after.Accords (artifacts.allocate refs.key).2 := by
  obtain ⟨id, between, given, allocated⟩ := lists.stored.allocate refs
  have chain : between.Chain (items ++ []) := by
    rw [List.append_nil]
    exact lists.chain_allocated allocated
  have stored : between.Stored
      ((⟨id, refs, false, false⟩ : Item).face :: (items ++ []).map Item.face) := by
    rw [List.append_nil]
    exact allocated.stored
  obtain ⟨after, linked, later, tended⟩ := enter chain stored allocated.slot
  refine ⟨id, after, ?_, later, fun artifacts accords => ?_⟩
  · simp only [Links.append, given, bind, Except.bind]
    exact linked
  · exact (allocated.accords accords).imp_right fun accords => accords.of_tended tended

theorem insertBefore (lists : links.Lists (front ++ back)) (refs : ItemRefs) :
    ∃ id after, links.insertBefore refs (firstId back none) = .ok (id, after) ∧
      after.Lists (front ++ ⟨id, refs, true, false⟩ :: back) ∧
        ∀ artifacts, links.Accords artifacts →
          (artifacts.allocate refs.key).1 = id ∧ after.Accords (artifacts.allocate refs.key).2 := by
  obtain ⟨id, between, given, allocated⟩ := lists.stored.allocate refs
  let item : Item := ⟨id, refs, true, false⟩
  have live : between.Live id := ⟨_, allocated.slot⟩
  have marked := Tended.put live (item.link none none)
  have retained : between.retain id = .ok (between.put id (item.link none none)) :=
    change_ok allocated.slot _
  have fresh := (List.nodup_cons.mp allocated.stored.distinct).1
  rw [ids_of_faces] at fresh
  have apart : ∀ other ∈ front ++ back, other.id ∉ [id] := by
    intro other inside same
    exact fresh (List.mem_singleton.mp same ▸ List.mem_map_of_mem inside)
  have chain := ((lists.chain_allocated allocated).torn.of_tended marked apart rfl rfl).chain
  have stored : (between.put id (item.link none none)).Stored
      (item.face :: (front ++ back).map Item.face) :=
    allocated.stored.of_tended marked
  obtain ⟨after, linked, later, tended⟩ := enter chain stored (put_self live _)
  refine ⟨id, after, ?_, later, fun artifacts accords => ?_⟩
  · simp only [Links.insertBefore, given, retained, bind, Except.bind]
    exact congrArg (fun result => Except.map (Prod.mk id) result) linked
  · exact (allocated.accords accords).imp_right fun accords =>
      (accords.of_tended marked).of_tended tended

/-- An item moves from the place it has to another one. -/
theorem moveBefore {left right : List Item} (lists : links.Lists (front ++ item :: back))
    (same : front ++ back = left ++ right) :
    ∃ after, links.moveBefore item.id (firstId right none) = .ok after ∧
      after.Lists (left ++ item :: right) ∧
        ∀ artifacts, links.Accords artifacts → after.Accords artifacts := by
  obtain ⟨between, taken, chain, held, early⟩ := lists.chain.unlink lists.distinct
  have around : ((front ++ item :: back).map Item.face).Perm
      (item.face :: (left ++ right).map Item.face) := by
    rw [← same, List.map_append, List.map_append]
    exact List.perm_middle
  rw [same] at chain
  obtain ⟨after, linked, later, late⟩ :=
    enter chain ((lists.stored.of_tended early).perm around) held
  have other : some item.id ≠ firstId right none := by
    cases right with
    | nil => simp [firstId]
    | cons first rest =>
      intro equal
      have apart := apart_of_nodup lists.distinct first (same ▸ by simp)
      exact apart (by simpa using (Option.some.inj equal).symm)
  refine ⟨after, ?_, later, fun artifacts accords => (accords.of_tended early).of_tended late⟩
  simp only [Links.moveBefore, if_neg other, taken, bind, Except.bind]
  exact linked

/-- The entry of an item that goes, if it has one, goes with it. -/
theorem index_without {entries : List (Key × ItemId)} (keys : (entries.map Prod.fst).Nodup)
    (key : Key) (id : ItemId) :
    (if Entries.get? key entries = some id then entries.filter fun entry => entry.1 ≠ key
      else entries) = entries.filter fun entry => entry ≠ (key, id) := by
  split
  · rename_i found
    have there := Entries.mem_of_get? found
    refine List.filter_congr fun entry inside => ?_
    have only : entry.1 = key → entry = (key, id) := fun same =>
      List.inj_on_of_nodup_map keys inside there same
    have named : entry = (key, id) → entry.1 = key := fun same => by rw [same]
    simp [show entry.1 = key ↔ entry = (key, id) from ⟨only, named⟩]
  · rename_i absent
    refine (List.filter_eq_self.mpr fun entry inside => ?_).symm
    rw [decide_eq_true_eq]
    rintro rfl
    exact absent ((Entries.get?_eq_some_iff keys key id).mpr inside)

/-- A removed item leaves its number behind. -/
theorem remove (lists : links.Lists (front ++ item :: back)) :
    ∃ after, links.remove item.id = .ok after ∧ after.Lists (front ++ back) ∧
      ∀ artifacts, links.Accords artifacts → after.Accords (artifacts.release item) := by
  obtain ⟨between, taken, chain, held, tended⟩ := lists.chain.unlink lists.distinct
  have around : ((front ++ item :: back).map Item.face).Perm
      (item.face :: (front ++ back).map Item.face) := by
    rw [List.map_append, List.map_append]
    exact List.perm_middle
  have stored := (lists.stored.of_tended tended).perm around
  have apart := apart_of_nodup lists.distinct
  refine ⟨between.released item.key item.id, ?_, ⟨?_, stored.release held⟩,
    fun artifacts accords => (accords.of_tended tended).release item⟩
  · have index := index_without stored.keys item.key item.id
    simp only [Links.remove, taken, link_ok held, Item.link, bind, Except.bind]
    rw [released, ← index]
    rfl
  · refine ⟨chain.segment.congr fun other member => released_other ?_ item.key, chain.head,
      chain.tail⟩
    exact fun same => apart other member (List.mem_singleton.mpr same)

/-- The marks of an item are changed where it stands. -/
theorem change {edit : Link → Link} {marked : Item} (lists : links.Lists (front ++ item :: back))
    (edited : ∀ prev next, edit (item.link prev next) = marked.link prev next)
    (face : marked.face = item.face) :
    ∃ after, links.change item.id edit = .ok after ∧ after.Lists (front ++ marked :: back) ∧
      ∀ artifacts, links.Accords artifacts → after.Accords artifacts := by
  obtain ⟨torn, held⟩ := chain_middle.mp lists.chain
  have live : links.Live item.id := ⟨_, held⟩
  have same : marked.id = item.id := congrArg Prod.fst face
  let link := marked.link (lastId none front) (firstId back none)
  have tended := Tended.put live link
  refine ⟨links.put item.id link, ?_, ⟨chain_middle.mpr ⟨?_, ?_⟩, ?_⟩,
    fun artifacts accords => accords.of_tended tended⟩
  · rw [change_ok held, edited]
  · rw [same]
    exact torn.of_tended tended (apart_of_nodup lists.distinct) rfl rfl
  · rw [same]
    exact put_self live link
  · have faces : (front ++ marked :: back).map Item.face = (front ++ item :: back).map Item.face := by
      simp [face]
    rw [faces]
    exact lists.stored.of_tended tended

end Lists

/-! Clearing all marks -/

theorem getElem?_clearMarks (id : ItemId) :
    links.clearMarks.slots[id]? = links.slots[id]?.map (Option.map fun link =>
      { link with retained := false, seen := false }) := by
  simp [clearMarks]

theorem live_clearMarks : links.clearMarks.Live id ↔ links.Live id := by
  rw [Live, Live, getElem?_clearMarks]
  rcases links.slots[id]? with _ | _ | link <;> simp

theorem dead_clearMarks :
    links.clearMarks.slots[id]? = some none ↔ links.slots[id]? = some none := by
  rw [getElem?_clearMarks]
  rcases links.slots[id]? with _ | _ | link <;> simp

theorem firstId_clearMarks (items : List Item) (after : Option ItemId) :
    firstId (items.map Item.clearMarks) after = firstId items after := by
  cases items <;> rfl

theorem lastId_clearMarks (before : Option ItemId) (items : List Item) :
    lastId before (items.map Item.clearMarks) = lastId before items := by
  induction items generalizing before with
  | nil => rfl
  | cons item rest ih => exact ih (some item.id)

theorem Segment.clearMarks {prev next : Option ItemId}
    (segment : Segment links.slots prev items next) :
    Segment links.clearMarks.slots prev (items.map Item.clearMarks) next := by
  induction items generalizing prev with
  | nil => trivial
  | cons item rest ih =>
    refine ⟨?_, ih segment.2⟩
    rw [firstId_clearMarks]
    exact (getElem?_clearMarks item.id).trans (by rw [segment.1]; rfl)

theorem Lists.clearMarks (lists : links.Lists items) :
    links.clearMarks.Lists (items.map Item.clearMarks) where
  chain := by
    refine ⟨lists.chain.segment.clearMarks, ?_, ?_⟩
    · rw [firstId_clearMarks]
      exact lists.chain.head
    · rw [lastId_clearMarks]
      exact lists.chain.tail
  stored := by
    have faces : (items.map Item.clearMarks).map Item.face = items.map Item.face := by
      simp [Function.comp_def]
    rw [faces]
    exact ⟨lists.stored.distinct, fun id => live_clearMarks.trans (lists.stored.live id),
      lists.stored.freeDistinct, fun id => (lists.stored.free id).trans dead_clearMarks.symm,
      lists.stored.keys, lists.stored.index⟩

theorem Accords.clearMarks {artifacts : Artifacts} (accords : links.Accords artifacts) :
    links.clearMarks.Accords artifacts :=
  ⟨accords.index, by simp [Links.clearMarks, accords.size], accords.free⟩

/-! Following the links -/

/-- From `start` the steps lead through these items one after the other, and there they end. -/
def Trail (step : ItemId → Option (Option ItemId)) : Option ItemId → List ItemId → Prop
  | start, [] => start = none
  | start, id :: rest => start = some id ∧ ∃ after, step id = some after ∧ Trail step after rest

/-- What follows an item, unless that was removed. -/
def next? (links : Links) (id : ItemId) : Option (Option ItemId) :=
  links.slots[id]?.join.map Link.next

/-- What precedes an item, unless that was removed. -/
def prev? (links : Links) (id : ItemId) : Option (Option ItemId) :=
  links.slots[id]?.join.map Link.prev

/-- The links lead through the living items, each once, from the head to the tail and back the same
way. The other slots are the free ones, and the index knows living items only. -/
structure WellFormed (links : Links) : Prop where
  order : ∃ ids : List ItemId, ids.Nodup ∧ (∀ id, id ∈ ids ↔ links.Live id) ∧
    Trail links.next? links.head ids ∧ Trail links.prev? links.tail ids.reverse ∧
      links.size = ids.length
  freeDistinct : links.free.Nodup
  free : ∀ id : ItemId, id ∈ links.free ↔ links.slots[id]? = some none
  index : ∀ key id, links.get? key = some id →
    ∃ link, links.slots[id]? = some (some link) ∧ link.refs.key = key

theorem Segment.trail {prev : Option ItemId} (segment : Segment links.slots prev items none) :
    Trail links.next? (firstId items none) (items.map Item.id) := by
  induction items generalizing prev with
  | nil => rfl
  | cons item rest ih =>
    exact ⟨rfl, firstId rest none, by simp [next?, segment.1, Item.link], ih segment.2⟩

/-- Backwards the induction takes items from the end. -/
theorem Segment.trail_back {next : Option ItemId} (segment : Segment links.slots none items next) :
    Trail links.prev? (lastId none items) (items.map Item.id).reverse := by
  induction items using List.reverseRecOn generalizing next with
  | nil => rfl
  | append_singleton init item ih =>
    obtain ⟨before, held, -⟩ := segment_append.mp segment
    rw [lastId_append, List.map_append, List.reverse_append]
    exact ⟨rfl, lastId none init, by simp [prev?, held, Item.link], ih before⟩

theorem Lists.wellFormed (lists : links.Lists items) : links.WellFormed where
  order := by
    refine ⟨items.map Item.id, lists.distinct, fun id => lists.live.symm, ?_, ?_, ?_⟩
    · rw [lists.chain.head]
      exact lists.chain.segment.trail
    · rw [lists.chain.tail]
      exact lists.chain.segment.trail_back
    · have count := lists.size_eq
      rw [Links.size, List.length_map]
      omega
  freeDistinct := lists.stored.freeDistinct
  free := lists.stored.free
  index := by
    intro key id known
    obtain ⟨face, inside, same, named⟩ := lists.stored.index _ (Entries.mem_of_get? known)
    obtain ⟨item, member, rfl⟩ := List.mem_map.mp inside
    obtain ⟨front, back, rfl⟩ := List.append_of_mem member
    cases same
    exact ⟨_, lists.held, named⟩

end Links

end LiveTemplate
