import LiveTemplate.Proofs.Dom.Growth
import LiveTemplate.Proofs.Meaning.Scopes
import LiveTemplate.Proofs.Meaning.Attributions

/-!
What a machine adds to the page. Output goes to a spot: the node it is hung under, the node in front
of which it is put, and the extent that it extends, if no element was opened since that began.
-/

namespace LiveTemplate

open Effects

/-- Where output goes to. -/
structure Spot where
  parent : Nat
  next : Option NodeId
  extent : Nat
  /-- How many elements are open that were opened in the extent. -/
  nesting : Nat

namespace World

variable {first second third world after : World} {spot : Spot} {trees front back : List Tree}

/-- There is room for output. -/
structure Takes (world : World) (spot : Spot) : Prop where
  inside : spot.parent < world.page.dom.nodes.size
  block : world.extents.IsBlock spot.extent
  scopes : world.scopes.Sound

/-- Output that shows the trees was added, and nothing that was there changed otherwise. -/
structure Gains (before : World) (spot : Spot) (trees : List Tree) (after : World) : Prop where
  dom : before.page.dom.Gains spot.parent spot.next trees after.page.dom
  extents : before.extents.Fills spot.extent (spot.nesting = 0 ∧ trees ≠ []) after.extents
  scopes : before.scopes.Keeps after.scopes
  transaction : after.transaction = before.transaction

theorem Takes.gains (takes : world.Takes spot) (gains : world.Gains spot trees after) :
    after.Takes spot where
  inside := Nat.lt_of_lt_of_le takes.inside gains.dom.size
  block := gains.extents.block
  scopes := gains.scopes.sound takes.scopes

/-- Nothing that matters to output has changed. -/
structure Alike (before after : World) : Prop where
  dom : after.page.dom = before.page.dom
  extents : after.extents = before.extents
  scopes : after.scopes = before.scopes
  transaction : after.transaction = before.transaction

theorem Alike.gains (alike : world.Alike after) (takes : world.Takes spot) :
    world.Gains spot [] after where
  dom := by
    rw [alike.dom]
    exact .refl takes.inside
  extents := by
    rw [alike.extents]
    exact (Extents.Fills.refl takes.block).congr (by simp)
  scopes := by
    rw [alike.scopes]
    exact .refl _
  transaction := alike.transaction

theorem Gains.trans (takes : first.Takes spot) (early : first.Gains spot front second)
    (late : second.Gains spot back third) : first.Gains spot (front ++ back) third where
  dom := early.dom.trans takes.inside late.dom
  extents := (early.extents.trans late.extents).congr (by
    rw [← and_or_left, ne_eq, ne_eq, ne_eq, List.append_eq_nil_iff, Decidable.not_and_iff_or_not])
  scopes := early.scopes.trans late.scopes
  transaction := late.transaction.trans early.transaction

end World

/-! Where a machine puts its output -/

/-- The machine puts its output at the spot. -/
structure Machine.Offers (machine : Machine) (spot : Spot) : Prop where
  elements : ∃ rest, machine.elements = (spot.parent, spot.next) :: rest
  trackers : ∃ rest, machine.trackers = .block spot.extent spot.nesting :: rest
  takes : machine.world.Takes spot

theorem Machine.Offers.having {machine : Machine} {spot : Spot} (offers : machine.Offers spot)
    (frames : List Frame) (operands : List Operand) (stats : Stats) :
    (machine.having frames operands stats).Offers spot :=
  ⟨offers.elements, offers.trackers,
    ⟨offers.takes.inside, offers.takes.block, offers.takes.scopes⟩⟩

/-- Output that shows the trees was added at the spot. -/
structure Machine.Shows (before : Machine) (spot : Spot) (trees : List Tree) (after : Machine) :
    Prop where
  world : before.world.Gains spot trees after.world
  elements : after.elements = before.elements
  trackers : after.trackers = before.trackers
  openings : after.openings = before.openings

/-- The frames and the operands are those that there were. -/
structure Machine.Stays (before after : Machine) : Prop where
  frames : after.frames = before.frames
  operands : after.operands = before.operands

theorem Machine.Stays.refl (machine : Machine) : machine.Stays machine := ⟨rfl, rfl⟩

theorem Machine.Stays.trans {first second third : Machine} (early : first.Stays second)
    (late : second.Stays third) : first.Stays third :=
  ⟨late.frames.trans early.frames, late.operands.trans early.operands⟩

namespace Machine.Shows

variable {first second third machine after : Machine} {spot : Spot} {front back trees : List Tree}
  {frames : List Frame} {operands : List Operand} {stats : Stats}

theorem of_having (shows : (machine.having frames operands stats).Shows spot trees after) :
    machine.Shows spot trees after :=
  ⟨⟨shows.world.dom, shows.world.extents, shows.world.scopes, shows.world.transaction⟩,
    shows.elements, shows.trackers, shows.openings⟩

theorem having (shows : machine.Shows spot trees after) :
    machine.Shows spot trees (after.having frames operands stats) :=
  ⟨⟨shows.world.dom, shows.world.extents, shows.world.scopes, shows.world.transaction⟩,
    shows.elements, shows.trackers, shows.openings⟩

theorem trans (offers : first.Offers spot) (early : first.Shows spot front second)
    (late : second.Shows spot back third) : first.Shows spot (front ++ back) third where
  world := early.world.trans offers.takes late.world
  elements := late.elements.trans early.elements
  trackers := late.trackers.trans early.trackers
  openings := late.openings.trans early.openings

theorem offers (shows : machine.Shows spot trees after) (offers : machine.Offers spot) :
    after.Offers spot := by
  obtain ⟨⟨around, top⟩, ⟨outer, innermost⟩, takes⟩ := offers
  exact ⟨⟨around, shows.elements.trans top⟩, ⟨outer, shows.trackers.trans innermost⟩,
    takes.gains shows.world⟩

/-- Nothing was added. -/
theorem nothing (offers : machine.Offers spot) (world : machine.world.Alike after.world)
    (elements : after.elements = machine.elements) (trackers : after.trackers = machine.trackers)
    (openings : after.openings = machine.openings) : machine.Shows spot [] after :=
  ⟨world.gains offers.takes, elements, trackers, openings⟩

end Machine.Shows

/-- The machine with this page. -/
def Machine.showing (machine : Machine) (dom : Dom) (extents : Extents) : Machine :=
  { machine with world := { machine.world with
      page := { machine.world.page with dom }
      extents } }

namespace Running

variable {machine after : Machine} {spot : Spot}

/-- What is appended outside of open elements extends the innermost extent. -/
theorem didAppend_ok (machine : Machine) {piece : Piece} {extent nesting : Nat} {rest : List Tracker}
    (top : machine.trackers = .block extent nesting :: rest)
    (block : machine.world.extents.IsBlock extent)
    (ended : didAppend piece machine = .ok () after) :
    ∃ extents, after = machine.showing machine.world.page.dom extents ∧
      machine.world.extents.Fills extent (nesting = 0) extents := by
  obtain ⟨_, _, got, ended⟩ := bind_ok.mp ended
  obtain ⟨rfl, rfl⟩ := get_ok.mp got
  rw [top] at ended
  cases nesting with
  | succ nesting =>
    obtain ⟨-, rfl⟩ := pure_ok.mp ended
    exact ⟨_, rfl, (Extents.Fills.refl block).congr (by simp)⟩
  | zero =>
    obtain ⟨extents, _, asked, ended⟩ := bind_ok.mp ended
    cases asked
    obtain ⟨grown, _, appended, ended⟩ := bind_ok.mp ended
    obtain ⟨done, rfl⟩ := lookUp_ok.mp appended
    cases ended
    exact ⟨_, rfl, (Extents.append_fills block done).congr (by simp)⟩

theorem place_eq (machine : Machine) {element : NodeId} {next : Option NodeId} {rest : List (NodeId × Option NodeId)}
    (top : machine.elements = (element, next) :: rest) :
    place machine = .ok (element, next) machine := by
  unfold place
  refine (bind_of_ok rfl).trans ?_
  rw [top]
  rfl

/-- The node that was created last is put in its place. -/
theorem insert_created (machine : Machine) {dom : Dom} {data : NodeData}
    (created : machine.world.page.dom = (dom.create data).2)
    {around : List (NodeId × Option NodeId)} {outer : List Tracker}
    (top : machine.elements = (spot.parent, spot.next) :: around)
    (innermost : machine.trackers = .block spot.extent spot.nesting :: outer)
    (inside : spot.parent < dom.nodes.size) (block : machine.world.extents.IsBlock spot.extent)
    (ended : insert dom.nodes.size machine = .ok () after) :
    ∃ later extents, after = machine.showing later extents ∧
      dom.Entered spot.parent spot.next data later ∧
      machine.world.extents.Fills spot.extent (spot.nesting = 0) extents := by
  obtain ⟨here, _, asked, ended⟩ := bind_ok.mp ended
  cases (place_eq machine top).symm.trans asked
  obtain ⟨found, _, asked, ended⟩ := bind_ok.mp ended
  cases asked
  obtain ⟨later, _, done, ended⟩ := bind_ok.mp ended
  obtain ⟨inserted, rfl⟩ := lookUp_ok.mp done
  obtain ⟨_, shown, put, ended⟩ := bind_ok.mp ended
  cases put
  obtain ⟨extents, rfl, fills⟩ := didAppend_ok (machine.showing later machine.world.extents)
    innermost block ended
  rw [created] at inserted
  exact ⟨later, extents, rfl, Dom.insert_created inside inserted, fills⟩

theorem appendNode_ok {data : NodeData} {node : NodeId} (offers : machine.Offers spot)
    (ended : appendNode data machine = .ok node after) :
    ∃ dom extents, after = machine.showing dom extents ∧ node = machine.world.page.dom.nodes.size ∧
      machine.world.page.dom.Entered spot.parent spot.next data dom ∧
      machine.world.extents.Fills spot.extent (spot.nesting = 0) extents := by
  obtain ⟨around, top⟩ := offers.elements
  obtain ⟨outer, innermost⟩ := offers.trackers
  obtain ⟨created, _, made, ended⟩ := bind_ok.mp ended
  cases made
  obtain ⟨_, _, inserted, ended⟩ := bind_ok.mp ended
  obtain ⟨rfl, rfl⟩ := pure_ok.mp ended
  obtain ⟨dom, extents, rfl, entered, fills⟩ := insert_created
    (machine.showing (machine.world.page.dom.create data).2 machine.world.extents) rfl top
    innermost offers.takes.inside offers.takes.block inserted
  exact ⟨dom, extents, rfl, rfl, entered, fills⟩

/-- A node without children was appended. -/
theorem appendNode_shows {data : NodeData} {node : NodeId} {tree : Tree}
    (offers : machine.Offers spot)
    (leaf : ∀ (dom : Dom) (id : Nat) (node : Node), dom.nodes[id]? = some node →
      node.data = data → tree.ShownAt dom id)
    (ended : appendNode data machine = .ok node after) :
    machine.Shows spot [tree] after ∧ machine.Stays after ∧ after.store = machine.store := by
  obtain ⟨dom, extents, rfl, -, entered, fills⟩ := appendNode_ok offers ended
  have shown := leaf dom _ _ entered.there rfl
  exact ⟨⟨⟨entered.leaf shown, fills.congr (by simp), .refl _, rfl⟩, rfl, rfl, rfl⟩, ⟨rfl, rfl⟩, rfl⟩

theorem record_shows {update : Update} (offers : machine.Offers spot)
    (ended : record update machine = .ok () after) :
    machine.Shows spot [] after ∧ machine.Stays after ∧ after.store = machine.store := by
  obtain ⟨builders, rfl, same⟩ := modifyContent_openings ended
  exact ⟨.nothing offers ⟨rfl, rfl, rfl, rfl⟩ rfl rfl same, ⟨rfl, rfl⟩, rfl⟩

end Running

/-! Elements -/

namespace Dom

variable (dom : Dom) (tag : String) (attributes : List Attribute)

theorem create_replace (data later : NodeData) :
    (dom.create data).2.replace dom.nodes.size { data := later } = (dom.create later).2 := by
  have nodes : (dom.nodes.push { data }).setIfInBounds dom.nodes.size { data := later } =
      dom.nodes.push { data := later } := by
    refine Array.ext_getElem? fun id => ?_
    rw [Array.getElem?_setIfInBounds, Array.getElem?_push, Array.getElem?_push, Array.size_push]
    by_cases last : dom.nodes.size = id
    · simp [last]
    · rw [if_neg last, if_neg (Ne.symm last), if_neg (Ne.symm last)]
  exact congrArg (Dom.mk · dom.mutations) nodes

theorem create_node (data : NodeData) :
    (dom.create data).2.node dom.nodes.size = .ok { data } :=
  node_ok.mpr Array.getElem?_push_size

theorem setAttribute_created (fresh : Attribute) :
    (dom.create (.element tag attributes)).2.setAttribute dom.nodes.size fresh =
      .ok (dom.create (.element tag (putAttribute fresh attributes))).2 := by
  unfold setAttribute
  rw [create_node]
  exact congrArg Except.ok (dom.create_replace _ _)

theorem removeAttribute_created (name : String) (space : Option String) :
    (dom.create (.element tag attributes)).2.removeAttribute dom.nodes.size name space =
      .ok (dom.create (.element tag (attributes.filter fun other =>
        ¬(other.name = name ∧ other.space = space)))).2 := by
  unfold removeAttribute
  rw [create_node]
  exact congrArg Except.ok (dom.create_replace _ _)

end Dom

/-- The element that was begun has these attributes so far. -/
structure Machine.Shapes (before : Machine) (tag : String) (attributes : List Attribute)
    (after : Machine) : Prop where
  constructing : after.constructing = some before.world.page.dom.nodes.size
  dom : after.world.page.dom = (before.world.page.dom.create (.element tag attributes)).2
  extents : after.world.extents = before.world.extents
  scopes : after.world.scopes = before.world.scopes
  transaction : after.world.transaction = before.world.transaction
  elements : after.elements = before.elements
  trackers : after.trackers = before.trackers
  openings : after.openings = before.openings

namespace Machine.Shapes

variable {base machine : Machine} {tag : String} {attributes : List Attribute}
  {frames : List Frame} {operands : List Operand} {stats : Stats}

theorem of_having (shapes : (base.having frames operands stats).Shapes tag attributes machine) :
    base.Shapes tag attributes machine :=
  ⟨shapes.constructing, shapes.dom, shapes.extents, shapes.scopes, shapes.transaction,
    shapes.elements, shapes.trackers, shapes.openings⟩

theorem having (shapes : base.Shapes tag attributes machine) :
    base.Shapes tag attributes (machine.having frames operands stats) :=
  ⟨shapes.constructing, shapes.dom, shapes.extents, shapes.scopes, shapes.transaction,
    shapes.elements, shapes.trackers, shapes.openings⟩

end Machine.Shapes

/-- The element is in its place, and is gone on inside of. -/
structure Machine.Opens (before : Machine) (spot : Spot) (tag : String)
    (attributes : List Attribute) (after : Machine) : Prop where
  dom : before.world.page.dom.Entered spot.parent spot.next (.element tag attributes)
    after.world.page.dom
  extents : before.world.extents.Fills spot.extent (spot.nesting = 0) after.world.extents
  scopes : after.world.scopes = before.world.scopes
  transaction : after.world.transaction = before.world.transaction
  elements : after.elements = (before.world.page.dom.nodes.size, none) :: before.elements
  trackers : after.trackers = .block spot.extent (spot.nesting + 1) :: before.trackers.tail
  openings : after.openings = before.openings

/-- Inside of a new element. -/
def Spot.inside (spot : Spot) (element : Nat) : Spot :=
  { parent := element, next := none, extent := spot.extent, nesting := spot.nesting + 1 }

namespace Running

variable {base first machine after : Machine} {spot : Spot} {tag : String} {attributes : List Attribute}

theorem openElement_ok (ended : openElement tag machine = .ok () after) :
    machine.Shapes tag [] after ∧ machine.Stays after ∧ after.store = machine.store := by
  obtain ⟨_, _, got, ended⟩ := bind_ok.mp ended
  obtain ⟨rfl, rfl⟩ := get_ok.mp got
  dsimp only at ended
  split at ended
  · exact absurd ended throw_ok
  · cases ended
    exact ⟨⟨rfl, rfl, rfl, rfl, rfl, rfl, rfl, rfl⟩, ⟨rfl, rfl⟩, rfl⟩

theorem constructing_ok (shapes : base.Shapes tag attributes machine) {element : NodeId}
    (ended : constructing machine = .ok element after) :
    element = base.world.page.dom.nodes.size ∧ machine = after := by
  rw [constructing_eq, shapes.constructing] at ended
  cases ended
  exact ⟨rfl, rfl⟩

/-- The page is as if the element had been begun with other attributes. -/
theorem Shapes.change (shapes : base.Shapes tag attributes machine) (others : List Attribute) :
    base.Shapes tag others (machine.showing
      (base.world.page.dom.create (.element tag others)).2 machine.world.extents) :=
  ⟨shapes.constructing, rfl, shapes.extents, shapes.scopes, shapes.transaction, shapes.elements,
    shapes.trackers, shapes.openings⟩

theorem setAttribute_ok (shapes : base.Shapes tag attributes machine) {name value : String}
    {space : Option String} (ended : setAttribute name value space machine = .ok () after) :
    base.Shapes tag (Dom.putAttribute ⟨name, value, space⟩ attributes) after ∧
      machine.Stays after ∧ after.store = machine.store := by
  obtain ⟨dom, _, asked, ended⟩ := bind_ok.mp ended
  cases asked
  obtain ⟨element, _, found, ended⟩ := bind_ok.mp ended
  obtain ⟨rfl, rfl⟩ := constructing_ok shapes found
  obtain ⟨later, _, done, ended⟩ := bind_ok.mp ended
  rw [shapes.dom, Dom.setAttribute_created] at done
  cases done
  cases ended
  exact ⟨Shapes.change shapes _, ⟨rfl, rfl⟩, rfl⟩

theorem Shapes.apply (after : Machine) (shapes : base.Shapes tag attributes machine) {others : List Attribute}
    (edit : Dom → Except Defect Dom)
    (edited : edit (base.world.page.dom.create (.element tag attributes)).2 =
      .ok (base.world.page.dom.create (.element tag others)).2)
    (ended : (liftM (Render.dom >>= fun dom => liftM (edit dom) >>= Render.setDom) :
      Running Unit) machine = .ok () after) :
    base.Shapes tag others after ∧ machine.Stays after ∧ after.store = machine.store := by
  obtain ⟨world, changed, rfl⟩ := lift_ok.mp ended
  obtain ⟨dom, _, asked, changed⟩ := bind_ok.mp changed
  cases asked
  obtain ⟨later, _, done, changed⟩ := bind_ok.mp changed
  rw [shapes.dom, edited] at done
  cases done
  cases changed
  exact ⟨Shapes.change shapes _, ⟨rfl, rfl⟩, rfl⟩

theorem applyAttribute_ok (shapes : base.Shapes tag attributes machine) {name : String}
    {space : Option String} {value : Value}
    (ended : (liftM (applyAttribute base.world.page.dom.nodes.size name space value) :
      Running Unit) machine = .ok () after) :
    base.Shapes tag (Attribute.decorate name space value attributes) after ∧
      machine.Stays after ∧ after.store = machine.store := by
  have put := fun value : String =>
    Shapes.apply after shapes (Dom.setAttribute · _ ⟨name, value, space⟩)
      (Dom.setAttribute_created _ _ _ _)
  have leave := Shapes.apply after shapes (Dom.removeAttribute · _ name space)
    (Dom.removeAttribute_created _ _ _ _ _)
  cases value with
  | undefined => exact leave ended
  | null => exact leave ended
  | bool holds =>
    cases holds with
    | false => exact leave ended
    | true => exact put _ ended
  | _ => exact put _ ended

theorem flushElement_ok (offers : base.Offers spot) (shapes : base.Shapes tag attributes machine)
    (ended : flushElement machine = .ok () after) :
    base.Opens spot tag attributes after ∧ machine.Stays after ∧ after.store = machine.store := by
  obtain ⟨around, top⟩ := offers.elements
  obtain ⟨outer, innermost⟩ := offers.trackers
  obtain ⟨element, _, found, ended⟩ := bind_ok.mp ended
  obtain ⟨rfl, rfl⟩ := constructing_ok shapes found
  obtain ⟨_, begun, cleared, ended⟩ := bind_ok.mp ended
  cases cleared
  obtain ⟨_, shown, put, ended⟩ := bind_ok.mp ended
  obtain ⟨dom, extents, rfl, entered, fills⟩ := insert_created
    { machine with constructing := none } shapes.dom (shapes.elements.trans top)
    (shapes.trackers.trans innermost) offers.takes.inside (shapes.extents ▸ offers.takes.block) put
  cases ended
  refine ⟨⟨entered, ?_, shapes.scopes, shapes.transaction, ?_, ?_, shapes.openings⟩, ⟨rfl, rfl⟩, rfl⟩
  · rw [← shapes.extents]
    exact fills
  · exact congrArg _ shapes.elements
  · simp only [shapes.trackers, innermost]
    rfl

theorem Opens.offers (offers : base.Offers spot) (opens : base.Opens spot tag attributes machine) :
    machine.Offers (spot.inside base.world.page.dom.nodes.size) where
  elements := ⟨_, opens.elements⟩
  trackers := ⟨_, opens.trackers⟩
  takes := by
    refine ⟨?_, opens.extents.block, opens.scopes ▸ offers.takes.scopes⟩
    rw [opens.dom.size]
    exact Nat.lt_succ_self _

/-- The element is shown with all that is in it. -/
theorem closeElement_ok {children : List Tree} (offers : base.Offers spot)
    (opens : base.Opens spot tag attributes first)
    (shows : first.Shows (spot.inside base.world.page.dom.nodes.size) children machine)
    (ended : closeElement machine = .ok () after) :
    base.Shows spot [.element tag attributes children] after ∧ machine.Stays after ∧
      after.store = machine.store := by
  obtain ⟨around, top⟩ := offers.elements
  obtain ⟨outer, innermost⟩ := offers.trackers
  have elements := shows.elements.trans opens.elements
  have trackers := shows.trackers.trans opens.trackers
  rw [top] at elements
  rw [innermost, List.tail_cons] at trackers
  have gains : base.world.Gains spot [.element tag attributes children] machine.world := by
    refine ⟨opens.dom.element offers.takes.inside shows.world.dom, ?_, ?_, ?_⟩
    · exact (opens.extents.trans shows.world.extents).congr (by simp [Spot.inside])
    · rw [← opens.scopes]
      exact shows.world.scopes
    · exact shows.world.transaction.trans opens.transaction
  obtain ⟨_, _, got, ended⟩ := bind_ok.mp ended
  obtain ⟨rfl, rfl⟩ := get_ok.mp got
  rw [elements] at ended
  obtain ⟨_, _, left, ended⟩ := bind_ok.mp ended
  cases left
  obtain ⟨_, _, got, ended⟩ := bind_ok.mp ended
  obtain ⟨rfl, rfl⟩ := get_ok.mp got
  dsimp only at ended
  rw [trackers] at ended
  cases ended
  exact ⟨⟨gains, top.symm, innermost.symm, shows.openings.trans opens.openings⟩, ⟨rfl, rfl⟩, rfl⟩

end Running

end LiveTemplate
