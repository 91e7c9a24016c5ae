import LiveTemplate.Dom.Extent
import LiveTemplate.Dom.Markup
import LiveTemplate.Proofs.Dom.Tree

/-!
Output that is added to the page. New nodes are hung next to each other under a node that was there
before, and of all older nodes none but that one changes. What is shown under the new nodes is told
as trees.
-/

namespace LiveTemplate

/-- Puts nodes in front of `next`, or at the end, one after the other. -/
def insertNodes (nodes : List NodeId) (next : Option NodeId) (children : List NodeId) :
    List NodeId :=
  nodes.foldl (fun children node => insertNode node next children) children

theorem insertNodes_append (first last : List NodeId) (next : Option NodeId)
    (children : List NodeId) :
    insertNodes (first ++ last) next children =
      insertNodes last next (insertNodes first next children) :=
  List.foldl_append

theorem insertNode_split (node : NodeId) (next : Option NodeId) (children : List NodeId) :
    insertNode node next children = children.takeWhile (some · ≠ next) ++
      node :: children.dropWhile (some · ≠ next) := by
  induction children with
  | nil => rfl
  | cons first rest ih =>
    by_cases here : some first = next
    · simp [insertNode, here]
    · simp [insertNode, here, ih]

theorem takeWhile_dropWhile {α : Type} (holds : α → Bool) (items : List α) :
    (items.dropWhile holds).takeWhile holds = [] ∧
      (items.dropWhile holds).dropWhile holds = items.dropWhile holds := by
  induction items with
  | nil => exact ⟨rfl, rfl⟩
  | cons first rest ih =>
    cases same : holds first with
    | true => simpa [same] using ih
    | false => simp [same]

/-- They stand in a row where the first of them was put. -/
theorem insertNodes_split {nodes : List NodeId} {next : Option NodeId}
    (fresh : ∀ node ∈ nodes, some node ≠ next) (children : List NodeId) :
    insertNodes nodes next children = children.takeWhile (some · ≠ next) ++
      nodes ++ children.dropWhile (some · ≠ next) := by
  induction nodes generalizing children with
  | nil => simp [insertNodes]
  | cons node rest ih =>
    have others := ih fun other member => fresh other (List.mem_cons_of_mem _ member)
    have first : some node ≠ next := fresh node List.mem_cons_self
    have ahead : ∀ other ∈ children.takeWhile (some · ≠ next), decide (some other ≠ next) = true :=
      fun other member => List.all_eq_true.mp (List.all_takeWhile) other member
    change insertNodes rest next (insertNode node next children) = _
    rw [others, insertNode_split, List.takeWhile_append_of_pos ahead,
      List.dropWhile_append_of_pos ahead]
    simp [first, takeWhile_dropWhile]

namespace Tree

mutual

/-- The node and those below it show the tree. Children are newer than the nodes they are under. -/
def ShownAt (dom : Dom) : Tree → Nat → Prop
  | .element tag attributes children, id => ∃ node, dom.nodes[id]? = some node ∧
      node.data = .element tag attributes ∧ AllShown dom children (id + 1) node.children
  | .text content, id => ∃ node, dom.nodes[id]? = some node ∧ node.data = .text content
  | .comment content, id => ∃ node, dom.nodes[id]? = some node ∧ node.data = .comment content
  | .raw markup, id => ∃ node, dom.nodes[id]? = some node ∧ node.data = .raw markup
  | .all _, _ => False

/-- The nodes, none of which is older than `oldest`, show the trees. -/
def AllShown (dom : Dom) : List Tree → Nat → List Nat → Prop
  | [], _, nodes => nodes = []
  | first :: rest, oldest, nodes => ∃ id others, nodes = id :: others ∧ oldest ≤ id ∧
      first.ShownAt dom id ∧ AllShown dom rest oldest others

end

variable {dom after : Dom}

mutual

theorem ShownAt.stay {oldest : Nat}
    (same : ∀ id : Nat, oldest ≤ id → id < dom.nodes.size → after.nodes[id]? = dom.nodes[id]?) :
    ∀ (tree : Tree) {id : Nat}, oldest ≤ id → tree.ShownAt dom id → tree.ShownAt after id
  | .element tag attributes children, id, late, ⟨node, there, data, below⟩ => by
    have bound := (Array.getElem?_eq_some_iff.mp there).1
    refine ⟨node, (same id late bound).trans there, data, ?_⟩
    exact AllShown.stay (fun other later => same other (by omega)) children below
  | .text _, id, late, ⟨node, there, data⟩ =>
    ⟨node, (same id late (Array.getElem?_eq_some_iff.mp there).1).trans there, data⟩
  | .comment _, id, late, ⟨node, there, data⟩ =>
    ⟨node, (same id late (Array.getElem?_eq_some_iff.mp there).1).trans there, data⟩
  | .raw _, id, late, ⟨node, there, data⟩ =>
    ⟨node, (same id late (Array.getElem?_eq_some_iff.mp there).1).trans there, data⟩
  | .all _, _, _, shown => shown.elim

theorem AllShown.stay {oldest : Nat}
    (same : ∀ id : Nat, oldest ≤ id → id < dom.nodes.size → after.nodes[id]? = dom.nodes[id]?) :
    ∀ (trees : List Tree) {nodes : List Nat}, AllShown dom trees oldest nodes →
      AllShown after trees oldest nodes
  | [], _, shown => shown
  | first :: rest, _, ⟨id, others, shape, late, shown, below⟩ =>
    ⟨id, others, shape, late, ShownAt.stay same first late shown, AllShown.stay same rest below⟩

end

theorem AllShown.mono {trees : List Tree} {oldest older : Nat} {nodes : List Nat}
    (shown : AllShown dom trees oldest nodes) (bound : older ≤ oldest) :
    AllShown dom trees older nodes := by
  induction trees generalizing nodes with
  | nil => exact shown
  | cons first rest ih =>
    obtain ⟨id, others, shape, late, here, below⟩ := shown
    exact ⟨id, others, shape, Nat.le_trans bound late, here, ih below⟩

theorem AllShown.append {first last : List Tree} {oldest : Nat} {front back : List Nat}
    (early : AllShown dom first oldest front) (late : AllShown dom last oldest back) :
    AllShown dom (first ++ last) oldest (front ++ back) := by
  induction first generalizing front with
  | nil =>
    cases early
    exact late
  | cons tree rest ih =>
    obtain ⟨id, others, rfl, bound, here, below⟩ := early
    exact ⟨id, others ++ back, rfl, bound, here, ih below⟩

theorem ShownAt.inside {tree : Tree} {id : Nat} (shown : tree.ShownAt dom id) :
    id < dom.nodes.size := by
  cases tree with
  | all => exact shown.elim
  | _ =>
    obtain ⟨node, there, -⟩ := shown
    exact (Array.getElem?_eq_some_iff.mp there).1

mutual

theorem ShownAt.treeTo :
    ∀ (tree : Tree) {id depth : Nat}, tree.ShownAt dom id → dom.nodes.size ≤ id + depth →
      dom.treeTo depth id = tree
  | tree, id, 0, shown, deep => absurd shown.inside (by omega)
  | .element tag attributes children, id, depth + 1, ⟨node, there, data, below⟩, deep => by
    rw [Dom.treeTo, there]
    dsimp only
    rw [data]
    exact congrArg _ (AllShown.treeTo children below (by omega))
  | .text content, id, depth + 1, ⟨node, there, data⟩, _ => by
    rw [Dom.treeTo, there]
    dsimp only
    rw [data]
  | .comment content, id, depth + 1, ⟨node, there, data⟩, _ => by
    rw [Dom.treeTo, there]
    dsimp only
    rw [data]
  | .raw markup, id, depth + 1, ⟨node, there, data⟩, _ => by
    rw [Dom.treeTo, there]
    dsimp only
    rw [data]
  | .all _, _, _, shown, _ => shown.elim

theorem AllShown.treeTo :
    ∀ (trees : List Tree) {oldest depth : Nat} {nodes : List Nat},
      AllShown dom trees oldest nodes → dom.nodes.size ≤ oldest + depth →
      nodes.map (dom.treeTo depth) = trees
  | [], _, _, _, shown, _ => by
    cases shown
    rfl
  | first :: rest, oldest, depth, _, ⟨id, others, shape, late, here, below⟩, deep => by
    rw [shape, List.map_cons, ShownAt.treeTo first here (by omega),
      AllShown.treeTo rest below deep]

end

end Tree

/-! New nodes -/

namespace Dom

variable {first second third dom after : Dom} {parent : Nat} {next : Option NodeId}

/-- The nodes are hung under `parent` in front of `next`. Other nodes that were there stay. -/
structure Hangs (before : Dom) (parent : Nat) (next : Option NodeId) (nodes : List NodeId)
    (after : Dom) : Prop where
  size : before.nodes.size ≤ after.nodes.size
  others : ∀ id : Nat, id < before.nodes.size → id ≠ parent →
    after.nodes[id]? = before.nodes[id]?
  owner : ∃ node, before.nodes[parent]? = some node ∧ after.nodes[parent]? =
    some { node with children := insertNodes nodes next node.children }

theorem Hangs.refl (inside : parent < dom.nodes.size) : Hangs dom parent next [] dom where
  size := Nat.le_refl _
  others := fun _ _ _ => rfl
  owner := ⟨dom.nodes[parent], Array.getElem?_eq_getElem inside, Array.getElem?_eq_getElem inside⟩

theorem Hangs.trans {front back : List NodeId} (early : Hangs first parent next front second)
    (late : Hangs second parent next back third) :
    Hangs first parent next (front ++ back) third where
  size := Nat.le_trans early.size late.size
  others := by
    intro id inside other
    rw [late.others id (Nat.lt_of_lt_of_le inside early.size) other]
    exact early.others id inside other
  owner := by
    obtain ⟨node, there, middle⟩ := early.owner
    obtain ⟨found, here, final⟩ := late.owner
    cases middle.symm.trans here
    refine ⟨node, there, final.trans ?_⟩
    rw [insertNodes_append]

/-- A new node with this content is hung under `parent`. -/
structure Entered (before : Dom) (parent : Nat) (next : Option NodeId) (data : NodeData)
    (after : Dom) : Prop where
  hangs : Hangs before parent next [before.nodes.size] after
  size : after.nodes.size = before.nodes.size + 1
  there : after.nodes[before.nodes.size]? = some { data, parent := some parent }

theorem insert_created {data : NodeData} (inside : parent < dom.nodes.size)
    (ended : (dom.create data).2.insert parent dom.nodes.size next = .ok after) :
    Entered dom parent next data after := by
  obtain ⟨owner, found⟩ : ∃ owner, dom.nodes[parent]? = some owner :=
    ⟨_, Array.getElem?_eq_getElem inside⟩
  have different : parent ≠ dom.nodes.size := Nat.ne_of_lt inside
  have fresh : (dom.create data).2.nodes[dom.nodes.size]? = some { data } :=
    Array.getElem?_push_size
  have old : (dom.create data).2.nodes[parent]? = some owner := by
    rw [← found]
    exact Array.getElem?_push_lt inside |>.trans (Array.getElem?_eq_getElem inside).symm
  have detached : (dom.create data).2.detach dom.nodes.size = .ok (dom.create data).2 := by
    unfold Dom.detach
    rw [node_ok.mpr fresh]
    rfl
  have hung : ∀ other : Nat, ((dom.create data).2.replace parent
      { owner with children := insertNode dom.nodes.size next owner.children }).nodes[other]? =
        if other = parent then
          some { owner with children := insertNode dom.nodes.size next owner.children }
        else (dom.create data).2.nodes[other]? := fun other =>
    getElem?_replace (Array.getElem?_eq_some_iff.mp old).1
  have node : ((dom.create data).2.replace parent
      { owner with children := insertNode dom.nodes.size next owner.children }).node
        dom.nodes.size = .ok { data } := by
    rw [node_ok, hung, if_neg different.symm]
    exact fresh
  unfold Dom.insert at ended
  simp only [detached, node_ok.mpr old, node, bind, Except.bind, pure, Except.pure,
    Except.ok.injEq] at ended
  have size : after.nodes.size = dom.nodes.size + 1 := by
    rw [← ended]
    simp [Dom.count, Dom.replace, Dom.create]
  have places : ∀ other : Nat, after.nodes[other]? =
      if other = dom.nodes.size then some { data, parent := some parent }
      else if other = parent then
        some { owner with children := insertNode dom.nodes.size next owner.children }
      else (dom.create data).2.nodes[other]? := by
    intro other
    rw [← ended, ← hung]
    exact getElem?_replace (Array.getElem?_eq_some_iff.mp (node_ok.mp node)).1
  refine ⟨⟨?_, ?_, owner, found, ?_⟩, size, ?_⟩
  · rw [size]
    exact Nat.le_succ _
  · intro id before other
    rw [places, if_neg (Nat.ne_of_lt before), if_neg other]
    exact Array.getElem?_push_lt before |>.trans (Array.getElem?_eq_getElem before).symm
  · rw [places, if_neg different, if_pos rfl]
    rfl
  · rw [places, if_pos rfl]

/-- Output that shows the trees was added under `parent` in front of `next`. -/
def Gains (before : Dom) (parent : Nat) (next : Option NodeId) (trees : List Tree) (after : Dom) :
    Prop :=
  ∃ nodes, before.Hangs parent next nodes after ∧
    Tree.AllShown after trees before.nodes.size nodes

theorem Gains.refl (inside : parent < dom.nodes.size) : dom.Gains parent next [] dom :=
  ⟨[], .refl inside, rfl⟩

theorem Gains.size {trees : List Tree} (gains : dom.Gains parent next trees after) :
    dom.nodes.size ≤ after.nodes.size := by
  obtain ⟨nodes, hangs, -⟩ := gains
  exact hangs.size

theorem Gains.trans {front back : List Tree} (inside : parent < first.nodes.size)
    (early : first.Gains parent next front second)
    (late : second.Gains parent next back third) :
    first.Gains parent next (front ++ back) third := by
  obtain ⟨nodes, hangs, shown⟩ := early
  obtain ⟨more, further, others⟩ := late
  refine ⟨nodes ++ more, hangs.trans further, ?_⟩
  refine Tree.AllShown.append (Tree.AllShown.stay (fun id old bound => ?_) front shown)
    (others.mono hangs.size)
  exact further.others id bound (by omega)

theorem Entered.leaf {data : NodeData} {tree : Tree}
    (entered : Entered dom parent next data after)
    (shown : tree.ShownAt after dom.nodes.size) : dom.Gains parent next [tree] after :=
  ⟨[dom.nodes.size], entered.hangs, dom.nodes.size, [], rfl, Nat.le_refl _, shown, rfl⟩

/-- An element is entered, and then what is in it. -/
theorem Entered.element {tag : String} {attributes : List Attribute} {children : List Tree}
    (inside : parent < first.nodes.size)
    (entered : Entered first parent next (.element tag attributes) second)
    (gains : second.Gains first.nodes.size none children third) :
    first.Gains parent next [.element tag attributes children] third := by
  obtain ⟨nodes, hangs, shown⟩ := gains
  have size := entered.size
  have grown := hangs.size
  obtain ⟨node, there, final⟩ := hangs.owner
  cases entered.there.symm.trans there
  have below : insertNodes nodes none [] = nodes := by
    have fresh : ∀ node ∈ nodes, some node ≠ none := fun _ _ => Option.some_ne_none _
    simpa using insertNodes_split fresh []
  rw [below] at final
  refine ⟨[first.nodes.size], ⟨?_, ?_, ?_⟩, first.nodes.size, [], rfl, Nat.le_refl _,
    ⟨_, final, rfl, ?_⟩, rfl⟩
  · omega
  · intro id old other
    rw [hangs.others id (by omega) (by omega)]
    exact entered.hangs.others id old other
  · obtain ⟨owner, before, middle⟩ := entered.hangs.owner
    refine ⟨owner, before, ?_⟩
    rw [hangs.others parent (by omega) (by omega)]
    exact middle
  · rw [← size]
    exact shown

end Dom

/-! New extents -/

namespace Extents

variable {first second third extents after : Extents} {extent : Nat} {filled also : Prop}

/-- No extent that was there changes but one, which is a block. It is empty if it was so and nothing
filled it. -/
structure Fills (before : Extents) (extent : Nat) (filled : Prop) (after : Extents) : Prop where
  size : before.extents.size ≤ after.extents.size
  others : ∀ id : Nat, id < before.extents.size → id ≠ extent →
    after.extents[id]? = before.extents[id]?
  own : ∃ parent ends later, before.extents[extent]? = some (.block parent ends) ∧
    after.extents[extent]? = some (.block parent later) ∧
    (later = none ↔ ends = none ∧ ¬filled)

/-- The extent is a block. -/
def IsBlock (extents : Extents) (extent : Nat) : Prop :=
  ∃ parent ends, extents.extents[extent]? = some (.block parent ends)

theorem Fills.refl (block : extents.IsBlock extent) : extents.Fills extent False extents := by
  obtain ⟨parent, ends, there⟩ := block
  exact ⟨Nat.le_refl _, fun _ _ _ => rfl, parent, ends, ends, there, there, by simp⟩

theorem Fills.trans (early : first.Fills extent filled second)
    (late : second.Fills extent also third) : first.Fills extent (filled ∨ also) third where
  size := Nat.le_trans early.size late.size
  others := by
    intro id inside other
    rw [late.others id (Nat.lt_of_lt_of_le inside early.size) other]
    exact early.others id inside other
  own := by
    obtain ⟨parent, ends, middle, there, between, empty⟩ := early.own
    obtain ⟨_, _, later, here, final, still⟩ := late.own
    cases between.symm.trans here
    refine ⟨parent, ends, later, there, final, still.trans ?_⟩
    rw [empty, not_or, and_assoc]

theorem Fills.congr (fills : extents.Fills extent filled after) (same : filled ↔ also) :
    extents.Fills extent also after := by
  rwa [propext same] at fills

theorem Fills.block (fills : extents.Fills extent filled after) : after.IsBlock extent := by
  obtain ⟨parent, _, later, _, there, _⟩ := fills.own
  exact ⟨parent, later, there⟩

/-- Nothing that was there changes. -/
structure Keeps (before after : Extents) : Prop where
  size : before.extents.size ≤ after.extents.size
  kept : ∀ id : Nat, id < before.extents.size → after.extents[id]? = before.extents[id]?

theorem Keeps.trans (early : first.Keeps second) (late : second.Keeps third) :
    first.Keeps third where
  size := Nat.le_trans early.size late.size
  kept := fun id inside =>
    (late.kept id (Nat.lt_of_lt_of_le inside early.size)).trans (early.kept id inside)

/-- What only fills a newer extent keeps all that was there. -/
theorem Fills.keeps (fills : second.Fills extent filled third) (early : first.Keeps second)
    (newer : first.extents.size ≤ extent) : first.Keeps third where
  size := Nat.le_trans early.size fills.size
  kept := by
    intro id inside
    rw [fills.others id (Nat.lt_of_lt_of_le inside early.size) (by omega)]
    exact early.kept id inside

theorem IsBlock.inside (block : extents.IsBlock extent) : extent < extents.extents.size := by
  obtain ⟨parent, ends, there⟩ := block
  exact (Array.getElem?_eq_some_iff.mp there).1

theorem Keeps.block (keeps : extents.Keeps after) (block : extents.IsBlock extent) :
    after.IsBlock extent := by
  have inside := block.inside
  obtain ⟨parent, ends, there⟩ := block
  exact ⟨parent, ends, (keeps.kept extent inside).trans there⟩

theorem Keeps.fills (keeps : extents.Keeps after) (block : extents.IsBlock extent) :
    extents.Fills extent False after := by
  have inside := block.inside
  obtain ⟨parent, ends, there⟩ := block
  exact ⟨keeps.size, fun id bound _ => keeps.kept id bound, parent, ends, ends, there,
    (keeps.kept extent inside).trans there, by simp⟩

theorem add_keeps (extents : Extents) (fresh : Extent) :
    extents.Keeps (extents.add fresh).2 where
  size := by
    simp [Extents.add]
  kept := by
    intro id inside
    exact (Array.getElem?_push_lt inside).trans (Array.getElem?_eq_getElem inside).symm

theorem add_there (extents : Extents) (fresh : Extent) :
    (extents.add fresh).2.extents[extents.extents.size]? = some fresh :=
  Array.getElem?_push_size

theorem newBlock_block (extents : Extents) (parent : NodeId) :
    (extents.newBlock parent).2.IsBlock extents.extents.size :=
  ⟨parent, none, extents.add_there _⟩

/-- A block is empty unless something filled it. -/
theorem isEmpty_block {parent : NodeId} {ends : Option (Piece × Piece)}
    (there : extents.extents[extent]? = some (.block parent ends)) :
    extents.isEmpty extent = .ok ends.isNone := by
  simp [isEmpty, Extents.extent, there, bind, Except.bind, pure, Except.pure]

theorem isEmpty_list {parent : NodeId} {items : List ExtentId}
    (there : extents.extents[extent]? = some (.list parent items)) :
    extents.isEmpty extent = .ok items.isEmpty := by
  simp [isEmpty, Extents.extent, there, bind, Except.bind, pure, Except.pure]

theorem getElem?_replace (inside : extent < extents.extents.size) (fresh : Extent) (other : Nat) :
    (extents.replace extent fresh).extents[other]? =
      if other = extent then some fresh else extents.extents[other]? := by
  unfold Extents.replace
  rw [Array.getElem?_setIfInBounds]
  by_cases same : other = extent
  · subst same
    simp [inside]
  · simp [same, Ne.symm same]

theorem append_fills {piece : Piece} (block : extents.IsBlock extent)
    (ended : extents.append extent piece = .ok after) : extents.Fills extent True after := by
  have inside := block.inside
  obtain ⟨parent, ends, there⟩ := block
  have appended : ∃ more, after = extents.replace extent (.block parent (some more)) := by
    unfold Extents.append Extents.extent at ended
    rw [there] at ended
    cases ends with
    | none =>
      cases ended
      exact ⟨_, rfl⟩
    | some pieces =>
      cases ended
      exact ⟨_, rfl⟩
  obtain ⟨more, rfl⟩ := appended
  refine ⟨?_, ?_, parent, ends, some more, there, ?_, by simp⟩
  · simp [Extents.replace]
  · intro id bound other
    rw [getElem?_replace inside, if_neg other]
  · rw [getElem?_replace inside, if_pos rfl]

end Extents

end LiveTemplate
