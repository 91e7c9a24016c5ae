import LiveTemplate.Proofs.Meaning.Output

/-!
Blocks and lists of output. What is shown in a block or a list is shown where it began, and a block
in which nothing is shown is filled with a comment when it ends.
-/

namespace LiveTemplate

open Effects

theorem Tree.filled_ne_nil (trees : List Tree) : Tree.filled trees ≠ [] := by
  unfold Tree.filled
  cases trees <;> simp

/-- In another extent, outside of elements. -/
def Spot.within (spot : Spot) (extent : Nat) : Spot := { spot with extent, nesting := 0 }

/-- The machine adds to the node of the spot. -/
structure Machine.Under (machine : Machine) (spot : Spot) : Prop where
  elements : ∃ rest, machine.elements = (spot.parent, spot.next) :: rest
  inside : spot.parent < machine.world.page.dom.nodes.size
  scopes : machine.world.scopes.Sound

theorem Machine.Offers.under {machine : Machine} {spot : Spot} (offers : machine.Offers spot) :
    machine.Under spot :=
  ⟨offers.elements, offers.takes.inside, offers.takes.scopes⟩

/-- A block was begun, and what was added in it since then shows the trees. -/
structure Machine.Encloses (before : Machine) (spot : Spot) (extent : Nat) (trees : List Tree)
    (after : Machine) : Prop where
  dom : before.world.page.dom.Gains spot.parent spot.next trees after.world.page.dom
  extents : before.world.extents.Keeps after.world.extents
  newer : before.world.extents.extents.size ≤ extent
  ends : ∃ parent ends, after.world.extents.extents[extent]? = some (.block parent ends) ∧
    (ends = none ↔ trees = [])
  scopes : before.world.scopes.Keeps after.world.scopes
  transaction : after.world.transaction = before.world.transaction
  elements : after.elements = before.elements
  trackers : after.trackers = .block extent 0 :: before.trackers

namespace Machine.Encloses

variable {base machine after : Machine} {spot : Spot} {extent : Nat} {trees more : List Tree}
  {frames : List Frame} {operands : List Operand} {stats : Stats}

theorem of_having (encloses : (base.having frames operands stats).Encloses spot extent trees machine) :
    base.Encloses spot extent trees machine :=
  ⟨encloses.dom, encloses.extents, encloses.newer, encloses.ends, encloses.scopes,
    encloses.transaction, encloses.elements, encloses.trackers⟩

theorem having (encloses : base.Encloses spot extent trees machine) :
    base.Encloses spot extent trees (machine.having frames operands stats) :=
  ⟨encloses.dom, encloses.extents, encloses.newer, encloses.ends, encloses.scopes,
    encloses.transaction, encloses.elements, encloses.trackers⟩

theorem offers (encloses : base.Encloses spot extent trees machine) (under : base.Under spot) :
    machine.Offers (spot.within extent) := by
  obtain ⟨⟨rest, top⟩, inside, sound⟩ := under
  obtain ⟨parent, ends, there, -⟩ := encloses.ends
  exact ⟨⟨rest, encloses.elements.trans top⟩, ⟨base.trackers, encloses.trackers⟩,
    Nat.lt_of_lt_of_le inside encloses.dom.size, ⟨parent, ends, there⟩, encloses.scopes.sound sound⟩

theorem shows (encloses : base.Encloses spot extent trees machine) (under : base.Under spot)
    (shows : machine.Shows (spot.within extent) more after) :
    base.Encloses spot extent (trees ++ more) after where
  dom := encloses.dom.trans under.inside shows.world.dom
  extents := shows.world.extents.keeps encloses.extents encloses.newer
  newer := encloses.newer
  ends := by
    obtain ⟨parent, ends, there, empty⟩ := encloses.ends
    obtain ⟨other, before, later, here, final, still⟩ := shows.world.extents.own
    cases there.symm.trans here
    refine ⟨parent, later, final, still.trans ?_⟩
    rw [empty, List.append_eq_nil_iff]
    simp [Spot.within]
  scopes := encloses.scopes.trans shows.world.scopes
  transaction := shows.world.transaction.trans encloses.transaction
  elements := shows.elements.trans encloses.elements
  trackers := shows.trackers.trans encloses.trackers

end Machine.Encloses

namespace Running

variable {base machine after : Machine} {spot : Spot} {extent : Nat} {trees : List Tree}

theorem pushBlock_ok (under : machine.Under spot)
    (ended : pushBlock machine = .ok extent after) :
    machine.Encloses spot extent [] after ∧ machine.Stays after ∧
      after.builders = machine.builders ∧ after.store = machine.store := by
  obtain ⟨rest, top⟩ := under.elements
  obtain ⟨here, _, asked, ended⟩ := bind_ok.mp ended
  cases (place_eq machine top).symm.trans asked
  obtain ⟨made, _, begun, ended⟩ := bind_ok.mp ended
  cases begun
  obtain ⟨_, _, tracked, ended⟩ := bind_ok.mp ended
  cases tracked
  cases ended
  refine ⟨⟨.refl under.inside, machine.world.extents.add_keeps _, Nat.le_refl _, ?_, .refl _, rfl,
    rfl, rfl⟩, ⟨rfl, rfl⟩, rfl, rfl⟩
  exact ⟨_, none, machine.world.extents.add_there _, by simp⟩

/-- A block in which nothing was shown is filled before it ends. -/
theorem popExtent_ok (under : base.Under spot) (encloses : base.Encloses spot extent trees machine)
    (ended : popExtent machine = .ok () after) :
    ∃ filled, base.Encloses spot extent (Tree.filled trees) filled ∧ machine.Stays filled ∧
      filled.builders = machine.builders ∧ filled.store = machine.store ∧
      popTracker filled = .ok () after := by
  obtain ⟨parent, ends, there, empty⟩ := encloses.ends
  obtain ⟨_, _, got, ended⟩ := bind_ok.mp ended
  obtain ⟨rfl, rfl⟩ := get_ok.mp got
  rw [encloses.trackers] at ended
  obtain ⟨extents, _, asked, ended⟩ := bind_ok.mp ended
  cases asked
  obtain ⟨none, _, found, ended⟩ := bind_ok.mp ended
  obtain ⟨found, rfl⟩ := lookUp_ok.mp found
  rw [Extents.isEmpty_block there] at found
  cases found
  cases ends with
  | none =>
    have nothing := empty.mp rfl
    obtain ⟨node, filled, shown, ended⟩ := bind_ok.mp ended
    obtain ⟨dom, extents, same, -, entered, fills⟩ := appendNode_ok (encloses.offers under) shown
    subst same
    have leaf : (Tree.comment "").ShownAt dom machine.world.page.dom.nodes.size :=
      ⟨_, entered.there, rfl⟩
    have shows : machine.Shows (spot.within extent) [.comment ""]
        (machine.showing dom extents) :=
      ⟨⟨entered.leaf leaf, fills.congr (by simp), .refl _, rfl⟩, rfl, rfl, rfl⟩
    have result := encloses.shows under shows
    rw [nothing] at result ⊢
    exact ⟨_, result, ⟨rfl, rfl⟩, rfl, rfl, ended⟩
  | some pieces =>
    have some : trees ≠ [] := fun nothing => nomatch empty.mpr nothing
    have same : Tree.filled trees = trees := by
      unfold Tree.filled
      simp [some]
    rw [same]
    exact ⟨machine, encloses, .refl _, rfl, rfl, ended⟩

/-- The block becomes a piece of the one around it. -/
theorem popTracker_ok (offers : base.Offers spot)
    (encloses : base.Encloses spot extent trees machine) (shown : trees ≠ [])
    (ended : popTracker machine = .ok () after) :
    base.world.Gains spot trees after.world ∧ after.elements = base.elements ∧
      after.trackers = base.trackers ∧ machine.Stays after ∧ after.builders = machine.builders ∧
      after.store = machine.store := by
  obtain ⟨outer, innermost⟩ := offers.trackers
  obtain ⟨parent, ends, there, empty⟩ := encloses.ends
  have trackers := encloses.trackers
  rw [innermost] at trackers
  obtain ⟨_, _, got, ended⟩ := bind_ok.mp ended
  obtain ⟨rfl, rfl⟩ := get_ok.mp got
  rw [trackers] at ended
  obtain ⟨_, _, left, ended⟩ := bind_ok.mp ended
  cases left
  obtain ⟨extents, _, asked, ended⟩ := bind_ok.mp ended
  cases asked
  obtain ⟨none, _, found, ended⟩ := bind_ok.mp ended
  obtain ⟨found, rfl⟩ := lookUp_ok.mp found
  rw [Extents.isEmpty_block there] at found
  cases found
  cases ends with
  | none => exact absurd (empty.mp rfl) shown
  | some pieces =>
    obtain ⟨grown, rfl, fills⟩ := didAppend_ok { machine with
      trackers := .block spot.extent spot.nesting :: outer } rfl
      (encloses.extents.block offers.takes.block) ended
    refine ⟨⟨encloses.dom, ?_, encloses.scopes, encloses.transaction⟩, encloses.elements,
      innermost.symm, ⟨rfl, rfl⟩, rfl, rfl⟩
    exact ((encloses.extents.fills offers.takes.block).trans fills).congr (by simp [shown])

/-! Regions -/

theorem enter_ok {slice : Slice} {key : Option Key} (under : machine.Under spot)
    (ended : enter slice key machine = .ok () after) :
    ∃ captured extent, machine.Encloses spot extent [] after ∧ machine.Stays after ∧
      after.builders = .region slice captured extent key {} :: machine.builders ∧
      after.store = machine.store := by
  obtain ⟨captured, _, asked, ended⟩ := bind_ok.mp ended
  obtain rfl := capture_ok asked
  obtain ⟨extent, begun, made, ended⟩ := bind_ok.mp ended
  obtain ⟨encloses, stays, builders, store⟩ := pushBlock_ok under made
  cases ended
  refine ⟨captured, extent, ⟨encloses.dom, encloses.extents, encloses.newer, encloses.ends,
    encloses.scopes, encloses.transaction, encloses.elements, encloses.trackers⟩,
    ⟨stays.frames, stays.operands⟩, ?_, store⟩
  exact congrArg _ builders

/-- A region ends, and is shown in the block around it. -/
theorem exit_ok {slice : Slice} {captured : Captured} (offers : base.Offers spot)
    (encloses : base.Encloses spot extent trees machine)
    (opened : machine.openings = .region slice captured extent none {} :: base.builders)
    (ended : exit machine = .ok () after) :
    base.Shows spot (Tree.filled trees) after ∧ machine.Stays after ∧
      after.store = machine.store := by
  obtain ⟨content, builders⟩ := openings_region opened
  obtain ⟨_, _, got, ended⟩ := bind_ok.mp ended
  obtain ⟨rfl, rfl⟩ := get_ok.mp got
  rw [builders] at ended
  obtain ⟨_, left, closed, ended⟩ := bind_ok.mp ended
  have closed := modify_ok.mp closed
  obtain ⟨_, popped, poppedOk, ended⟩ := bind_ok.mp ended
  have still : base.Encloses spot extent trees left := by
    subst closed
    exact ⟨encloses.dom, encloses.extents, encloses.newer, encloses.ends, encloses.scopes,
      encloses.transaction, encloses.elements, encloses.trackers⟩
  obtain ⟨filled, whole, stays, same, store, poppedOk⟩ := popExtent_ok offers.under still poppedOk
  obtain ⟨gains, elements, trackers, staysToo, sameToo, storeToo⟩ :=
    popTracker_ok offers whole (Tree.filled_ne_nil trees) poppedOk
  obtain ⟨recorded, rfl, openings⟩ := modifyContent_openings ended
  subst closed
  refine ⟨⟨⟨gains.dom, gains.extents, gains.scopes, gains.transaction⟩, elements, trackers, ?_⟩,
    ⟨(stays.trans staysToo).frames, (stays.trans staysToo).operands⟩, storeToo.trans store⟩
  exact openings.trans (congrArg (List.modifyHead Builder.bare) (sameToo.trans same))

end Running

/-! Lists -/

/-- A list was begun, whose items so far have these keys and show the trees. -/
structure Machine.Lists (before : Machine) (spot : Spot) (trees : List Tree) (met : List Key)
    (after : Machine) : Prop where
  dom : before.world.page.dom.Gains spot.parent spot.next trees after.world.page.dom
  extents : before.world.extents.Keeps after.world.extents
  scopes : before.world.scopes.Keeps after.world.scopes
  transaction : after.world.transaction = before.world.transaction
  elements : after.elements = before.elements
  list : ∃ list parent items, after.builders = .list list :: before.builders ∧
    after.trackers = .list list.extent :: before.trackers ∧
    before.world.extents.extents.size ≤ list.extent ∧
    after.world.extents.extents[list.extent]? = some (.list parent items) ∧
    (∀ item ∈ list.items, item.1 ∈ met) ∧ (list.items = [] ↔ trees = [])

namespace Machine.Lists

variable {base machine : Machine} {spot : Spot} {trees : List Tree} {met : List Key}
  {frames : List Frame} {operands : List Operand} {stats : Stats}

theorem of_having (lists : (base.having frames operands stats).Lists spot trees met machine) :
    base.Lists spot trees met machine :=
  ⟨lists.dom, lists.extents, lists.scopes, lists.transaction, lists.elements, lists.list⟩

theorem having (lists : base.Lists spot trees met machine) :
    base.Lists spot trees met (machine.having frames operands stats) :=
  ⟨lists.dom, lists.extents, lists.scopes, lists.transaction, lists.elements, lists.list⟩

theorem under (lists : base.Lists spot trees met machine) (under : base.Under spot) :
    machine.Under spot := by
  obtain ⟨⟨rest, top⟩, inside, sound⟩ := under
  exact ⟨⟨rest, lists.elements.trans top⟩, Nat.lt_of_lt_of_le inside lists.dom.size,
    lists.scopes.sound sound⟩

end Machine.Lists

theorem Extents.setItems_ok {extents after : Extents} {extent : Nat} {parent : NodeId}
    {items fresh : List ExtentId} (there : extents.extents[extent]? = some (.list parent items))
    (ended : extents.setItems extent fresh = .ok after) :
    (∀ id : Nat, id ≠ extent → after.extents[id]? = extents.extents[id]?) ∧
      after.extents[extent]? = some (.list parent fresh) ∧
      after.extents.size = extents.extents.size := by
  have inside := (Array.getElem?_eq_some_iff.mp there).1
  unfold Extents.setItems Extents.extent at ended
  rw [there] at ended
  cases ended
  refine ⟨fun id other => ?_, ?_, ?_⟩
  · rw [getElem?_replace inside, if_neg other]
  · rw [getElem?_replace inside, if_pos rfl]
  · exact Array.size_setIfInBounds

theorem Extents.addItem_ok {extents after : Extents} {extent item : Nat} {parent : NodeId}
    {items : List ExtentId} (there : extents.extents[extent]? = some (.list parent items))
    (ended : extents.addItem extent item = .ok after) :
    extents.setItems extent (items ++ [item]) = .ok after := by
  unfold Extents.addItem Extents.extent at ended
  rwa [there] at ended

namespace Running

variable {base machine listing after : Machine} {spot : Spot} {extent : Nat} {met : List Key}
  {trees more : List Tree}

theorem enterList_ok {slice : Slice} {walk : FirstPass} {frame : Frame} {outer : List Frame}
    (under : machine.Under spot) (running : machine.frames = frame :: outer)
    (iterates : frame.iterator = some walk) (ended : enterList slice machine = .ok () after) :
    machine.Lists spot [] [] after ∧ machine.Stays after ∧ after.store = machine.store := by
  obtain ⟨rest, top⟩ := under.elements
  obtain ⟨here, _, asked, ended⟩ := bind_ok.mp ended
  obtain ⟨⟨_, shape⟩, rfl⟩ := frame_ok.mp asked
  rw [running] at shape
  cases shape
  rw [iterates] at ended
  obtain ⟨captured, _, asked, ended⟩ := bind_ok.mp ended
  obtain rfl := capture_ok asked
  obtain ⟨extent, _, made, ended⟩ := bind_ok.mp ended
  obtain ⟨here, _, asked, made⟩ := bind_ok.mp made
  cases (place_eq machine top).symm.trans asked
  obtain ⟨id, _, begun, made⟩ := bind_ok.mp made
  cases begun
  obtain ⟨_, _, tracked, made⟩ := bind_ok.mp made
  cases tracked
  cases made
  obtain ⟨now, _, asked, ended⟩ := bind_ok.mp ended
  cases asked
  cases ended
  refine ⟨⟨.refl under.inside, machine.world.extents.add_keeps _, .refl _, rfl, rfl, ?_⟩,
    ⟨rfl, rfl⟩, rfl⟩
  exact ⟨_, _, [], rfl, rfl, Nat.le_refl _, machine.world.extents.add_there _, by simp, by simp⟩

/-- A block ends in a list and becomes an item of it. -/
theorem popItem_ok {list : ListRegion} {parent : NodeId} {items : List ExtentId}
    {around : List Tracker} (tracks : listing.trackers = .list list.extent :: around)
    (there : listing.world.extents.extents[list.extent]? = some (.list parent items))
    (encloses : listing.Encloses spot extent more machine)
    (ended : popTracker machine = .ok () after) :
    ∃ extents, after = { machine with
        world := { machine.world with extents }, trackers := listing.trackers } ∧
      (∀ id : Nat, id ≠ list.extent → extents.extents[id]? = machine.world.extents.extents[id]?) ∧
      (∃ others, extents.extents[list.extent]? = some (.list parent others)) ∧
      extents.extents.size = machine.world.extents.extents.size := by
  have trackers := encloses.trackers
  rw [tracks] at trackers
  have inside := (Array.getElem?_eq_some_iff.mp there).1
  have still := (encloses.extents.kept list.extent inside).trans there
  obtain ⟨_, _, got, ended⟩ := bind_ok.mp ended
  obtain ⟨rfl, rfl⟩ := get_ok.mp got
  rw [trackers] at ended
  obtain ⟨_, _, left, ended⟩ := bind_ok.mp ended
  cases left
  obtain ⟨before, _, asked, ended⟩ := bind_ok.mp ended
  cases asked
  obtain ⟨extents, _, grown, ended⟩ := bind_ok.mp ended
  obtain ⟨added, rfl⟩ := lookUp_ok.mp grown
  cases ended
  obtain ⟨others, own, size⟩ := Extents.setItems_ok still (Extents.addItem_ok still added)
  exact ⟨extents, by rw [tracks], others, ⟨_, own⟩, size⟩

/-- An item ends whose key no other one has. -/
theorem exitItem_ok {slice : Slice} {captured : Captured} {key : Key} (under : base.Under spot)
    (lists : base.Lists spot trees met listing) (fresh : key ∉ met)
    (encloses : listing.Encloses spot extent more machine)
    (opened : machine.openings = .region slice captured extent (some key) {} :: listing.builders)
    (ended : exit machine = .ok () after) :
    base.Lists spot (trees ++ Tree.filled more) (key :: met) after ∧ machine.Stays after ∧
      after.store = machine.store := by
  obtain ⟨list, parent, items, builders, trackers, newer, there, keys, none⟩ := lists.list
  obtain ⟨content, shape⟩ := openings_region opened
  rw [builders] at shape
  obtain ⟨_, _, got, ended⟩ := bind_ok.mp ended
  obtain ⟨rfl, rfl⟩ := get_ok.mp got
  rw [shape] at ended
  obtain ⟨_, left, closed, ended⟩ := bind_ok.mp ended
  have closed := modify_ok.mp closed
  obtain ⟨_, popped, poppedOk, ended⟩ := bind_ok.mp ended
  have still : listing.Encloses spot extent more left := by
    subst closed
    exact ⟨encloses.dom, encloses.extents, encloses.newer, encloses.ends, encloses.scopes,
      encloses.transaction, encloses.elements, encloses.trackers⟩
  obtain ⟨filled, whole, stays, same, store, poppedOk⟩ :=
    popExtent_ok (lists.under under) still poppedOk
  obtain ⟨extents, rfl, others, own, size⟩ := popItem_ok trackers there whole poppedOk
  have others' : list.items.filter (fun item => item.1 ≠ key) = list.items := by
    refine List.filter_eq_self.mpr fun item member => ?_
    have distinct : item.1 ≠ key := fun equal => fresh (equal ▸ keys item member)
    simpa using distinct
  have absent : Entries.get? key list.items = Option.none := by
    refine Entries.get?_eq_none.mpr fun member => ?_
    obtain ⟨item, listed, equal⟩ := List.mem_map.mp member
    exact fresh (equal ▸ keys item listed)
  obtain ⟨_, _, put, ended⟩ := bind_ok.mp ended
  cases put
  rw [absent] at ended
  cases ended
  subst closed
  refine ⟨⟨?_, ⟨?_, fun id inside => ?_⟩, ?_, ?_, ?_, ?_⟩, ⟨stays.frames, stays.operands⟩, store⟩
  · exact lists.dom.trans under.inside whole.dom
  · change _ ≤ extents.extents.size
    rw [size]
    exact Nat.le_trans lists.extents.size whole.extents.size
  · change extents.extents[id]? = _
    rw [others id (Nat.ne_of_lt (Nat.lt_of_lt_of_le inside newer)),
      (lists.extents.trans whole.extents).kept id inside]
  · exact lists.scopes.trans whole.scopes
  · exact whole.transaction.trans lists.transaction
  · exact whole.elements.trans lists.elements
  · obtain ⟨items, own⟩ := own
    refine ⟨_, parent, items, rfl, trackers, newer, own, ?_, ?_⟩
    · dsimp only
      rw [others']
      intro item member
      rcases List.mem_append.mp member with old | last
      · exact List.mem_cons_of_mem _ (keys item old)
      · rw [List.mem_singleton.mp last]
        exact List.mem_cons_self
    · simp [Tree.filled_ne_nil]

/-- A list becomes a piece of the block around it, unless it is empty. -/
theorem popList_ok (machine : Machine) {list parent : Nat} {items : List ExtentId} {outer : List Tracker}
    (tracks : machine.trackers = .list list :: .block spot.extent spot.nesting :: outer)
    (there : machine.world.extents.extents[list]? = some (.list parent items))
    (block : machine.world.extents.IsBlock spot.extent)
    (ended : popExtent machine = .ok () after) :
    ∃ extents, after = { machine with
        world := { machine.world with extents }
        trackers := .block spot.extent spot.nesting :: outer } ∧
      machine.world.extents.Fills spot.extent (spot.nesting = 0 ∧ items ≠ []) extents := by
  obtain ⟨_, _, got, ended⟩ := bind_ok.mp ended
  obtain ⟨rfl, rfl⟩ := get_ok.mp got
  rw [tracks] at ended
  obtain ⟨_, _, got, ended⟩ := bind_ok.mp ended
  obtain ⟨rfl, rfl⟩ := get_ok.mp got
  rw [tracks] at ended
  obtain ⟨_, _, left, ended⟩ := bind_ok.mp ended
  cases left
  obtain ⟨before, _, asked, ended⟩ := bind_ok.mp ended
  cases asked
  obtain ⟨empty, _, asked, ended⟩ := bind_ok.mp ended
  obtain ⟨found, rfl⟩ := lookUp_ok.mp asked
  rw [Extents.isEmpty_list there] at found
  cases found
  cases items with
  | nil =>
    cases ended
    exact ⟨_, rfl, (Extents.Fills.refl block).congr (by simp)⟩
  | cons first rest =>
    obtain ⟨extents, rfl, fills⟩ := didAppend_ok
      { machine with trackers := .block spot.extent spot.nesting :: outer } rfl block ended
    exact ⟨extents, rfl, fills.congr (by simp)⟩

/-- The list ends, and is shown in the block around it. -/
theorem exitList_ok (offers : base.Offers spot) (lists : base.Lists spot trees met machine)
    (ended : exitList machine = .ok () after) :
    base.Shows spot trees after ∧ machine.Stays after ∧ after.store = machine.store := by
  obtain ⟨list, parent, items, builders, trackers, newer, there, keys, none⟩ := lists.list
  obtain ⟨outer, innermost⟩ := offers.trackers
  rw [innermost] at trackers
  obtain ⟨_, _, got, ended⟩ := bind_ok.mp ended
  obtain ⟨rfl, rfl⟩ := get_ok.mp got
  rw [builders] at ended
  obtain ⟨_, _, closed, ended⟩ := bind_ok.mp ended
  cases closed
  obtain ⟨before, _, asked, ended⟩ := bind_ok.mp ended
  cases asked
  obtain ⟨extents, _, put, ended⟩ := bind_ok.mp ended
  obtain ⟨done, rfl⟩ := lookUp_ok.mp put
  obtain ⟨others, own, size⟩ := Extents.setItems_ok there done
  obtain ⟨_, _, set, ended⟩ := bind_ok.mp ended
  cases set
  obtain ⟨_, popped, popping, ended⟩ := bind_ok.mp ended
  have keeps : base.world.extents.Keeps extents := by
    refine ⟨?_, fun id inside => ?_⟩
    · rw [size]
      exact lists.extents.size
    · rw [others id (Nat.ne_of_lt (Nat.lt_of_lt_of_le inside newer)), lists.extents.kept id inside]
  have block := offers.takes.block
  obtain ⟨final, rfl, fills⟩ := popList_ok
    { machine with world := { machine.world with extents }, builders := base.builders }
    trackers own (keeps.block block) popping
  obtain ⟨recorded, rfl, openings⟩ := modifyContent_openings ended
  refine ⟨⟨⟨lists.dom, ?_, lists.scopes, lists.transaction⟩, lists.elements, innermost.symm,
    openings⟩, ⟨rfl, rfl⟩, rfl⟩
  exact ((keeps.fills block).trans fills).congr (by simp [none])

end Running

end LiveTemplate
