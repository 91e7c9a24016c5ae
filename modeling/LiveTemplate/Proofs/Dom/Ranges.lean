import LiveTemplate.Proofs.Dom.Tree
import Mathlib.Data.List.Chain

/-!
Ranges of siblings. In every tree that its changes lead to, a node is in the child list of its
parent, once, and in no other list. So the walk from sibling to sibling finds a range, and moving or
clearing the range edits that range alone, although each step of it looks for its place anew.
-/

namespace LiveTemplate

theorem filter_insertNode {keep : NodeId → Bool} {node : NodeId} {before : Option NodeId}
    (kept : keep node) (stays : ∀ other ∈ before, keep other) (nodes : List NodeId) :
    (insertNode node before nodes).filter keep = insertNode node before (nodes.filter keep) := by
  induction nodes with
  | nil => simp [insertNode, kept]
  | cons first rest ih =>
    by_cases here : some first = before
    · have staying : keep first := stays first here.symm
      simp [insertNode, here, kept, staying]
    · by_cases staying : keep first
      · simp [insertNode, here, staying, ih]
      · simp [insertNode, here, staying, ih]

/-- A node that goes in front of the nodes of `right`. -/
theorem insertNode_between (node : NodeId) {left right : List NodeId}
    (distinct : (left ++ right).Nodup) :
    insertNode node right.head? (left ++ right) = left ++ node :: right := by
  cases right with
  | nil =>
    rw [List.append_nil]
    exact insertNode_end nofun
  | cons next rest =>
    refine insertNode_before fun member => ?_
    exact (List.nodup_append.mp distinct).2.2 next member next List.mem_cons_self rfl

theorem perm_insertNode (node : NodeId) (before : Option NodeId) (nodes : List NodeId) :
    (insertNode node before nodes).Perm (node :: nodes) := by
  induction nodes with
  | nil => rfl
  | cons first rest ih =>
    unfold insertNode
    split
    · rfl
    · exact (ih.cons first).trans (.swap node first rest)

namespace Dom

variable {dom before after : Dom} {id other parent : NodeId} {next : Option NodeId}

/-! Parents and child lists agree -/

/-- A node is in the child list of its parent and in no other, and nowhere twice. -/
structure Consistent (dom : Dom) : Prop where
  distinct : ∀ parent nodes, dom.children parent = .ok nodes → nodes.Nodup
  listed : ∀ parent nodes, dom.children parent = .ok nodes → ∀ id,
    id ∈ nodes ↔ dom.parent id = .ok (some parent)
  around : ∀ id parent, dom.parent id = .ok (some parent) →
    ∃ nodes, dom.children parent = .ok nodes

/-- `after` is the tree `dom` with `change` made to each of its nodes. -/
def Remade (dom : Dom) (change : NodeId → Node → Node) (after : Dom) : Prop :=
  ∀ id : NodeId, after.nodes[id]? = dom.nodes[id]?.map (change id)

namespace Remade

variable {change : NodeId → Node → Node}

theorem replace {node fresh : Node} (there : dom.nodes[id]? = some node)
    (here : change id node = fresh)
    (others : ∀ (other : NodeId) (old : Node), other ≠ id → dom.nodes[other]? = some old →
      change other old = old) : dom.Remade change (dom.replace id fresh) := by
  intro other
  rw [getElem?_replace (Array.getElem?_eq_some_iff.mp there).1]
  split
  · rename_i same
    rw [same, there, Option.map_some, here]
  · rename_i elsewhere
    cases found : dom.nodes[other]? with
    | none => rfl
    | some old => rw [Option.map_some, others other old elsewhere found]

theorem trans {between : Dom} (second : NodeId → Node → Node) (early : dom.Remade change between)
    (late : between.Remade second after) :
    dom.Remade (fun id node => second id (change id node)) after := by
  intro id
  rw [late id, early id, Option.map_map]
  rfl

theorem there {node : Node} (remade : dom.Remade change after) (found : dom.nodes[id]? = some node) :
    after.nodes[id]? = some (change id node) := by
  rw [remade id, found, Option.map_some]

theorem origin {node : Node} (remade : dom.Remade change after)
    (found : after.nodes[id]? = some node) :
    ∃ old, dom.nodes[id]? = some old ∧ change id old = node := by
  rw [remade id] at found
  exact Option.map_eq_some_iff.mp found

theorem children_ok {nodes : List NodeId} (remade : dom.Remade change after) :
    after.children id = .ok nodes ↔
      ∃ node, dom.nodes[id]? = some node ∧ (change id node).children = nodes := by
  rw [Dom.children_ok, remade id]
  cases dom.nodes[id]? <;> simp

theorem parent_ok {found : Option NodeId} (remade : dom.Remade change after) :
    after.parent id = .ok found ↔
      ∃ node, dom.nodes[id]? = some node ∧ (change id node).parent = found := by
  rw [Dom.parent_ok, remade id]
  cases dom.nodes[id]? <;> simp

end Remade

/-- What a node is after `id` left the child list that it was in. -/
def leave (id other : NodeId) (node : Node) : Node :=
  { node with
    parent := if other = id then none else node.parent
    children := node.children.filter (· ≠ id) }

/-- What a node that does not list `id` is after `id` went under `parent`. -/
def enter (parent id : NodeId) (next : Option NodeId) (other : NodeId) (node : Node) : Node :=
  { node with
    parent := if other = id then some parent else node.parent
    children := if other = parent then insertNode id next node.children else node.children }

/-- What a node is after `id` left its list and went under `parent`. -/
def transfer (parent id : NodeId) (next : Option NodeId) (other : NodeId) (node : Node) : Node :=
  enter parent id next other (leave id other node)

theorem filter_absent {nodes : List NodeId} (absent : id ∉ nodes) : nodes.filter (· ≠ id) = nodes := by
  refine List.filter_eq_self.mpr fun child member => decide_eq_true ?_
  rintro rfl
  exact absent member

namespace Consistent

/-- Neither has the count of the changes. -/
theorem counted (consistent : dom.Consistent) (mutations : Nat) :
    Consistent { dom with mutations } :=
  ⟨consistent.distinct, consistent.listed, consistent.around⟩

theorem absent (consistent : dom.Consistent) {node : Node} (there : dom.nodes[other]? = some node)
    (elsewhere : dom.parent id ≠ .ok (some other)) : id ∉ node.children := by
  have listed := consistent.listed other node.children (children_ok.mpr ⟨node, there, rfl⟩)
  exact fun member => elsewhere ((listed id).mp member)

theorem left (consistent : dom.Consistent) (left : dom.Remade (leave id) after) :
    after.Consistent := by
  have parents : ∀ other found, after.parent other = .ok (some found) ↔
      other ≠ id ∧ dom.parent other = .ok (some found) := by
    intro other found
    rw [left.parent_ok, parent_ok]
    by_cases own : other = id <;> simp [leave, own]
  constructor
  · intro parent nodes found
    obtain ⟨node, there, rfl⟩ := left.children_ok.mp found
    exact (consistent.distinct parent _ (children_ok.mpr ⟨node, there, rfl⟩)).filter _
  · intro parent nodes found other
    obtain ⟨node, there, rfl⟩ := left.children_ok.mp found
    rw [parents, ← consistent.listed parent _ (children_ok.mpr ⟨node, there, rfl⟩)]
    simp [leave, and_comm]
  · intro other parent found
    obtain ⟨nodes, listed⟩ := consistent.around other parent ((parents other parent).mp found).2
    obtain ⟨node, there, -⟩ := children_ok.mp listed
    exact ⟨_, left.children_ok.mpr ⟨node, there, rfl⟩⟩

theorem entered (consistent : dom.Consistent) (detached : dom.parent id = .ok none)
    (inside : parent < dom.nodes.size) (entered : dom.Remade (enter parent id next) after) :
    after.Consistent := by
  have parents : ∀ other found, after.parent other = .ok (some found) ↔
      other = id ∧ found = parent ∨ dom.parent other = .ok (some found) := by
    intro other found
    rw [entered.parent_ok, parent_ok]
    by_cases own : other = id
    · obtain ⟨node, there, free⟩ := parent_ok.mp detached
      simp [enter, own, there, free, eq_comm]
    · simp [enter, own]
  have fresh : ∀ nodes, dom.children parent = .ok nodes → id ∉ nodes := by
    intro nodes listed member
    rw [consistent.listed parent nodes listed, detached] at member
    cases member
  have lists : ∀ other nodes, after.children other = .ok nodes → ∃ old,
      dom.children other = .ok old ∧ nodes = if other = parent then insertNode id next old else old := by
    intro other nodes found
    obtain ⟨node, there, rfl⟩ := entered.children_ok.mp found
    exact ⟨_, children_ok.mpr ⟨node, there, rfl⟩, rfl⟩
  constructor
  · intro other nodes found
    obtain ⟨old, listed, rfl⟩ := lists other nodes found
    have distinct := consistent.distinct other old listed
    split
    · rename_i same
      rw [(perm_insertNode id next old).nodup_iff]
      exact List.nodup_cons.mpr ⟨fresh old (same ▸ listed), distinct⟩
    · exact distinct
  · intro other nodes found child
    obtain ⟨old, listed, rfl⟩ := lists other nodes found
    rw [parents, ← consistent.listed other old listed]
    split
    · rename_i same
      simp [(perm_insertNode id next old).mem_iff, same]
    · rename_i elsewhere
      simp [elsewhere]
  · intro other found known
    have there : found < dom.nodes.size := by
      rcases (parents other found).mp known with ⟨-, rfl⟩ | known
      · exact inside
      · obtain ⟨nodes, listed⟩ := consistent.around other found known
        obtain ⟨node, there, -⟩ := children_ok.mp listed
        exact (Array.getElem?_eq_some_iff.mp there).1
    exact ⟨_, entered.children_ok.mpr ⟨_, Array.getElem?_eq_getElem there, rfl⟩⟩

/-- A node leaves its place, and nothing else moves. -/
theorem detach (consistent : dom.Consistent) (there : id < dom.nodes.size) :
    ∃ after, dom.detach id = .ok after ∧ dom.Remade (leave id) after ∧ after.Consistent := by
  obtain ⟨node, found⟩ : ∃ node, dom.nodes[id]? = some node := ⟨_, Array.getElem?_eq_getElem there⟩
  have known : dom.parent id = .ok node.parent := parent_ok.mpr ⟨node, found, rfl⟩
  suffices ∃ after, dom.detach id = .ok after ∧ dom.Remade (leave id) after by
    obtain ⟨after, ended, left⟩ := this
    exact ⟨after, ended, left, consistent.left left⟩
  unfold Dom.detach
  rw [node_ok.mpr found]
  dsimp only [bind, Except.bind]
  cases under : node.parent with
  | none =>
    rw [under] at known
    refine ⟨dom, rfl, fun other => ?_⟩
    cases here : dom.nodes[other]? with
    | none => rfl
    | some old =>
      have elsewhere : dom.parent id ≠ .ok (some other) := by
        rw [known]
        exact nofun
      rw [Option.map_some, leave, filter_absent (consistent.absent here elsewhere)]
      split
      · rename_i own
        rw [own, found] at here
        cases here
        rw [← under]
      · rfl
  | some parent =>
    rw [under] at known
    obtain ⟨nodes, listed⟩ := consistent.around id parent known
    obtain ⟨owner, inside, -⟩ := children_ok.mp listed
    have cut : dom.Remade (fun other old =>
        { old with parent := if other = id then none else old.parent })
        (dom.replace id { node with parent := none }) :=
      .replace found (by rw [if_pos rfl]) fun other old elsewhere _ => by rw [if_neg elsewhere]
    have still := cut.there inside
    simp only [node_ok.mpr still]
    refine ⟨_, rfl, cut.trans (fun _ old =>
      { old with children := old.children.filter (· ≠ id) }) (.replace still rfl ?_)⟩
    intro other late different here
    obtain ⟨old, before, rfl⟩ := cut.origin here
    have elsewhere : dom.parent id ≠ .ok (some other) := by
      rw [known]
      rintro ⟨⟩
      exact different rfl
    simp only [filter_absent (consistent.absent before elsewhere)]

/-- A node leaves its place and gets another, and nothing else moves. -/
theorem insert (consistent : dom.Consistent) (there : id < dom.nodes.size)
    (inside : parent < dom.nodes.size) (next : Option NodeId) :
    ∃ after, dom.insert parent id next = .ok after ∧
      dom.Remade (transfer parent id next) after ∧ after.Consistent := by
  obtain ⟨first, detached, left, agreeing⟩ := consistent.detach there
  obtain ⟨node, found⟩ : ∃ node, dom.nodes[id]? = some node := ⟨_, Array.getElem?_eq_getElem there⟩
  obtain ⟨owner, held⟩ : ∃ owner, dom.nodes[parent]? = some owner :=
    ⟨_, Array.getElem?_eq_getElem inside⟩
  have around := left.there held
  have listed : first.Remade (fun other old => { old with
      children := if other = parent then insertNode id next old.children else old.children })
      (first.replace parent { leave id parent owner with
        children := insertNode id next (leave id parent owner).children }) :=
    .replace around (by rw [if_pos rfl]) fun other old elsewhere _ => by rw [if_neg elsewhere]
  have moved := listed.there (left.there found)
  have placed : Dom.Remade _ (fun other old =>
      { old with parent := if other = id then some parent else old.parent }) _ :=
    .replace moved (by rw [if_pos rfl]) fun other old elsewhere _ => by rw [if_neg elsewhere]
  have entered := listed.trans _ placed
  have free : first.parent id = .ok none :=
    left.parent_ok.mpr ⟨node, found, by rw [leave, if_pos rfl]⟩
  unfold Dom.insert
  simp only [detached, node_ok.mpr around, node_ok.mpr moved, bind, Except.bind, pure, Except.pure]
  refine ⟨_, rfl, left.trans _ entered, ?_⟩
  exact agreeing.entered free (Array.getElem?_eq_some_iff.mp around).1 entered

theorem remove (consistent : dom.Consistent) (under : dom.parent id = .ok (some parent)) :
    ∃ after, dom.remove parent id = .ok after ∧ dom.Remade (leave id) after ∧
      after.Consistent := by
  obtain ⟨node, there, -⟩ := parent_ok.mp under
  obtain ⟨after, detached, left, consistent⟩ :=
    consistent.detach (Array.getElem?_eq_some_iff.mp there).1
  unfold Dom.remove
  simp only [under, detached, bind, Except.bind, pure, Except.pure, if_true]
  exact ⟨_, rfl, left, consistent.counted _⟩

/-- What nodes hold has no part in where they are. -/
theorem rewritten (consistent : dom.Consistent) {node : Node} (there : dom.nodes[id]? = some node)
    (data : NodeData) : (dom.replace id { node with data }).Consistent := by
  have remade : dom.Remade (fun other old => if other = id then { old with data } else old)
      (dom.replace id { node with data }) :=
    .replace there (by rw [if_pos rfl]) fun other old elsewhere _ => by rw [if_neg elsewhere]
  have children : ∀ other nodes, (dom.replace id { node with data }).children other = .ok nodes ↔
      dom.children other = .ok nodes := by
    intro other nodes
    rw [remade.children_ok, children_ok]
    by_cases own : other = id <;> simp [own]
  have parents : ∀ other found, (dom.replace id { node with data }).parent other = .ok found ↔
      dom.parent other = .ok found := by
    intro other found
    rw [remade.parent_ok, parent_ok]
    by_cases own : other = id <;> simp [own]
  constructor
  · exact fun parent nodes found => consistent.distinct parent nodes ((children _ _).mp found)
  · intro parent nodes found other
    rw [parents]
    exact consistent.listed parent nodes ((children _ _).mp found) other
  · intro other parent found
    obtain ⟨nodes, listed⟩ := consistent.around other parent ((parents _ _).mp found)
    exact ⟨nodes, (children _ _).mpr listed⟩

theorem setData (consistent : dom.Consistent) {node : Node} (there : dom.nodes[id]? = some node)
    (data : NodeData) : (dom.setData id node data).Consistent := by
  have rewritten := consistent.rewritten there data
  unfold Dom.setData
  dsimp only
  split
  · exact rewritten.counted _
  · exact rewritten

theorem create (consistent : dom.Consistent) (data : NodeData) :
    (dom.create data).2.Consistent := by
  have places : ∀ other : NodeId, (dom.create data).2.nodes[other]? =
      if other = dom.nodes.size then some { data } else dom.nodes[other]? :=
    fun other => Array.getElem?_push
  have parents : ∀ other found, (dom.create data).2.parent other = .ok (some found) ↔
      dom.parent other = .ok (some found) := by
    intro other found
    rw [parent_ok, parent_ok, places]
    by_cases own : other = dom.nodes.size <;> simp [own]
  have children : ∀ other nodes, (dom.create data).2.children other = .ok nodes →
      dom.children other = .ok nodes ∨ other = dom.nodes.size ∧ nodes = [] := by
    intro other nodes found
    obtain ⟨node, there, rfl⟩ := children_ok.mp found
    rw [places] at there
    split at there
    · rename_i own
      cases there
      exact .inr ⟨own, rfl⟩
    · exact .inl (children_ok.mpr ⟨node, there, rfl⟩)
  constructor
  · intro parent nodes found
    rcases children parent nodes found with listed | ⟨-, rfl⟩
    · exact consistent.distinct parent nodes listed
    · exact List.nodup_nil
  · intro parent nodes found other
    rw [parents]
    rcases children parent nodes found with listed | ⟨rfl, rfl⟩
    · exact consistent.listed parent nodes listed other
    · simp only [List.not_mem_nil, false_iff]
      intro under
      obtain ⟨nodes, listed⟩ := consistent.around other _ under
      obtain ⟨node, there, -⟩ := children_ok.mp listed
      exact absurd (Array.getElem?_eq_some_iff.mp there).1 (Nat.lt_irrefl _)
  · intro other parent found
    obtain ⟨nodes, listed⟩ := consistent.around other parent ((parents other parent).mp found)
    exact ⟨nodes, children_create data listed⟩

theorem fresh : Consistent {} := by
  have only : ∀ (id : NodeId) (node : Node), ({} : Dom).nodes[id]? = some node →
      node = { data := .document } := by
    intro id node there
    obtain ⟨inside, same⟩ := Array.getElem?_eq_some_iff.mp there
    obtain rfl : id = 0 := Nat.lt_one_iff.mp inside
    exact same.symm
  constructor
  · intro parent nodes found
    obtain ⟨node, there, rfl⟩ := children_ok.mp found
    rw [only parent node there]
    exact List.nodup_nil
  · intro parent nodes found id
    obtain ⟨node, there, rfl⟩ := children_ok.mp found
    rw [only parent node there, parent_ok]
    simp only [List.not_mem_nil, false_iff]
    rintro ⟨other, here, under⟩
    rw [only id other here] at under
    cases under
  · intro id parent found
    obtain ⟨node, there, under⟩ := parent_ok.mp found
    rw [only id node there] at under
    cases under

end Consistent

/-- A change that a tree offers to those who hold it. -/
inductive Changes : Dom → Dom → Prop
  | create (dom : Dom) (data : NodeData) : Changes dom (dom.create data).2
  | setAttribute {dom after : Dom} {id : NodeId} {fresh : Attribute}
      (ended : dom.setAttribute id fresh = .ok after) : Changes dom after
  | removeAttribute {dom after : Dom} {id : NodeId} {name : String} {space : Option String}
      (ended : dom.removeAttribute id name space = .ok after) : Changes dom after
  | setContent {dom after : Dom} {id : NodeId} {content : String}
      (ended : dom.setContent id content = .ok after) : Changes dom after
  | insert {dom after : Dom} {parent id : NodeId} {next : Option NodeId}
      (ended : dom.insert parent id next = .ok after) : Changes dom after
  | remove {dom after : Dom} {parent id : NodeId}
      (ended : dom.remove parent id = .ok after) : Changes dom after
  | resetMutations (dom : Dom) : Changes dom dom.resetMutations

/-- A tree that changes lead to from the empty document. -/
inductive Reachable : Dom → Prop
  | fresh : Reachable {}
  | changed {before after : Dom} (reachable : Reachable before) (changes : Changes before after) :
      Reachable after

theorem node_of_bind {α : Type} {result : α} {rest : Node → Except Defect α}
    (ended : (dom.node id >>= rest) = .ok result) :
    ∃ node, dom.nodes[id]? = some node ∧ rest node = .ok result := by
  cases found : dom.node id with
  | error defect =>
    rw [found] at ended
    cases ended
  | ok node =>
    rw [found] at ended
    exact ⟨node, node_ok.mp found, ended⟩

theorem Consistent.insert_inside (consistent : dom.Consistent)
    (ended : dom.insert parent id next = .ok after) :
    id < dom.nodes.size ∧ parent < dom.nodes.size := by
  unfold Dom.insert at ended
  cases detached : dom.detach id with
  | error defect =>
    rw [detached] at ended
    cases ended
  | ok first =>
    rw [detached] at ended
    obtain ⟨owner, held, -⟩ := node_of_bind ended
    obtain ⟨node, found, -⟩ := node_of_bind detached
    have there := (Array.getElem?_eq_some_iff.mp found).1
    obtain ⟨_, same, left, -⟩ := consistent.detach there
    cases Except.ok.inj (same.symm.trans detached)
    obtain ⟨old, inside, -⟩ := left.origin held
    exact ⟨there, (Array.getElem?_eq_some_iff.mp inside).1⟩

theorem Consistent.changed (consistent : dom.Consistent) (changes : Changes dom after) :
    after.Consistent := by
  cases changes with
  | create data => exact consistent.create data
  | setAttribute ended =>
    obtain ⟨node, there, ended⟩ := node_of_bind ended
    split at ended
    · exact Except.ok.inj ended ▸ consistent.setData there _
    · cases ended
  | removeAttribute ended =>
    obtain ⟨node, there, ended⟩ := node_of_bind ended
    split at ended <;> exact Except.ok.inj ended ▸ consistent.setData there _
  | setContent ended =>
    obtain ⟨node, there, ended⟩ := node_of_bind ended
    have written := fun data => (consistent.rewritten there data).counted (dom.mutations + 1)
    dsimp only at ended
    split at ended
    iterate 3 exact Except.ok.inj ended ▸ written _
    cases ended
  | insert ended =>
    obtain ⟨there, inside⟩ := consistent.insert_inside ended
    obtain ⟨_, same, -, consistent⟩ := consistent.insert there inside _
    exact Except.ok.inj (same.symm.trans ended) ▸ consistent
  | remove ended =>
    obtain ⟨_, same, -, consistent⟩ := consistent.remove (remove_ok ended).1
    exact Except.ok.inj (same.symm.trans ended) ▸ consistent
  | resetMutations => exact consistent.counted _

theorem Reachable.consistent (reachable : Reachable dom) : dom.Consistent := by
  induction reachable with
  | fresh => exact .fresh
  | changed _ changes ih => exact ih.changed changes

/-! Edits of a range -/

def data (dom : Dom) (id : NodeId) : Except Defect NodeData := return (← dom.node id).data

/-- What an edit of a range did: `parent` has the children `nodes`, the nodes of the range are under
`place`, and all else is as it was. -/
structure Edited (dom : Dom) (parent : NodeId) (range : List NodeId) (place : Option NodeId)
    (nodes : List NodeId) (after : Dom) : Prop where
  around : after.children parent = .ok nodes
  placed : ∀ id ∈ range, after.parent id = .ok place
  parents : ∀ id, id ∉ range → after.parent id = dom.parent id
  children : ∀ id, id ≠ parent → after.children id = dom.children id
  data : ∀ id, after.data id = dom.data id

namespace Edited

variable {range : List NodeId} {place : Option NodeId} {nodes : List NodeId}

theorem nothing (around : dom.children parent = .ok nodes) : dom.Edited parent [] place nodes dom :=
  ⟨around, by simp, fun _ _ => rfl, fun _ _ => rfl, fun _ => rfl⟩

theorem seq {between : Dom} {early late : List NodeId} {some : List NodeId}
    (first : dom.Edited parent early place some between)
    (second : between.Edited parent late place nodes after) :
    dom.Edited parent (early ++ late) place nodes after where
  around := second.around
  placed := by
    intro id member
    by_cases again : id ∈ late
    · exact second.placed id again
    · rw [second.parents id again]
      exact first.placed id ((List.mem_append.mp member).resolve_right again)
  parents := by
    intro id outside
    simp only [List.mem_append, not_or] at outside
    rw [second.parents id outside.2, first.parents id outside.1]
  children := fun id other => (second.children id other).trans (first.children id other)
  data := fun id => (second.data id).trans (first.data id)

/-- One node was edited. -/
theorem of_remade {change : NodeId → Node → Node} {owner : Node} (remade : dom.Remade change after)
    (there : id < dom.nodes.size) (held : dom.nodes[parent]? = some owner)
    (same : ∀ (other : NodeId) (node : Node), dom.nodes[other]? = some node →
      (change other node).data = node.data ∧
      (other ≠ id → (change other node).parent = node.parent) ∧
      (other ≠ parent → (change other node).children = node.children))
    (placed : ∀ node, (change id node).parent = place) :
    dom.Edited parent [id] place (change parent owner).children after where
  around := remade.children_ok.mpr ⟨owner, held, rfl⟩
  placed := by
    intro other member
    obtain rfl := List.mem_singleton.mp member
    exact remade.parent_ok.mpr ⟨_, Array.getElem?_eq_getElem there, placed _⟩
  parents := by
    intro other outside
    unfold Dom.parent Dom.node
    rw [remade other]
    cases found : dom.nodes[other]? with
    | none => rfl
    | some node =>
      exact congrArg Except.ok ((same other node found).2.1 fun own => outside (by simp [own]))
  children := by
    intro other elsewhere
    unfold Dom.children Dom.node
    rw [remade other]
    cases found : dom.nodes[other]? with
    | none => rfl
    | some node => exact congrArg Except.ok ((same other node found).2.2 elsewhere)
  data := by
    intro other
    unfold Dom.data Dom.node
    rw [remade other]
    cases found : dom.nodes[other]? with
    | none => rfl
    | some node => exact congrArg Except.ok (same other node found).1

end Edited

theorem filter_nothing (nodes : List NodeId) : nodes.filter (· ∉ []) = nodes :=
  List.filter_eq_self.mpr fun _ _ => by simp

theorem filter_cons (id : NodeId) (range nodes : List NodeId) :
    nodes.filter (· ∉ id :: range) = (nodes.filter (· ≠ id)).filter (· ∉ range) := by
  rw [List.filter_filter]
  refine List.filter_congr fun node _ => ?_
  simp only [List.mem_cons, not_or, Bool.decide_and]
  exact Bool.and_comm _ _

namespace Consistent

variable {nodes : List NodeId}

theorem remove_edits (consistent : dom.Consistent) (under : dom.parent id = .ok (some parent))
    (around : dom.children parent = .ok nodes) :
    ∃ after, dom.remove parent id = .ok after ∧
      dom.Edited parent [id] none (nodes.filter (· ≠ id)) after ∧ after.Consistent := by
  obtain ⟨after, removed, left, agreeing⟩ := consistent.remove under
  obtain ⟨node, there, -⟩ := parent_ok.mp under
  obtain ⟨owner, held, rfl⟩ := children_ok.mp around
  refine ⟨after, removed, .of_remade left (Array.getElem?_eq_some_iff.mp there).1 held ?_ ?_, agreeing⟩
  · refine fun other old found => ⟨rfl, fun elsewhere => if_neg elsewhere, fun elsewhere => ?_⟩
    refine filter_absent (consistent.absent found ?_)
    rw [under]
    rintro ⟨⟩
    exact elsewhere rfl
  · exact fun node => if_pos rfl

theorem insert_edits (consistent : dom.Consistent) (under : dom.parent id = .ok (some parent))
    (around : dom.children parent = .ok nodes) (next : Option NodeId) :
    ∃ after, dom.insert parent id next = .ok after ∧
      dom.Edited parent [id] (some parent) (insertNode id next (nodes.filter (· ≠ id))) after ∧
      after.Consistent := by
  obtain ⟨node, found, -⟩ := parent_ok.mp under
  obtain ⟨owner, held, rfl⟩ := children_ok.mp around
  have there := (Array.getElem?_eq_some_iff.mp found).1
  obtain ⟨after, inserted, moved, agreeing⟩ :=
    consistent.insert there (Array.getElem?_eq_some_iff.mp held).1 next
  have edited : dom.Edited parent [id] (some parent)
      (transfer parent id next parent owner).children after := by
    refine .of_remade moved there held ?_ fun node => if_pos rfl
    refine fun other old found => ⟨rfl, fun elsewhere => ?_, fun elsewhere => ?_⟩
    · simp only [transfer, enter, leave, if_neg elsewhere]
    · simp only [transfer, enter, leave, if_neg elsewhere]
      refine filter_absent (consistent.absent found ?_)
      rw [under]
      rintro ⟨⟩
      exact elsewhere rfl
  rw [transfer, enter, if_pos rfl] at edited
  exact ⟨after, inserted, edited, agreeing⟩

/-- The nodes of a list are taken out of the child list that they are all in. -/
theorem removes_edit (range : List NodeId) : ∀ {dom : Dom} {nodes : List NodeId},
    dom.Consistent → dom.children parent = .ok nodes → range.Nodup →
    (∀ id ∈ range, dom.parent id = .ok (some parent)) →
    ∃ after, range.foldlM (fun dom id => dom.remove parent id) dom = .ok after ∧
      dom.Edited parent range none (nodes.filter (· ∉ range)) after ∧ after.Consistent := by
  induction range with
  | nil =>
    intro dom nodes consistent around _ _
    exact ⟨dom, rfl, .nothing (by rw [filter_nothing, around]), consistent⟩
  | cons id rest ih =>
    intro dom nodes consistent around distinct under
    obtain ⟨apart, distinct⟩ := List.nodup_cons.mp distinct
    obtain ⟨between, removed, edited, agreeing⟩ :=
      consistent.remove_edits (under id List.mem_cons_self) around
    obtain ⟨after, ended, more, agreed⟩ := ih agreeing edited.around distinct fun other member => by
      rw [edited.parents other fun own => apart (List.mem_singleton.mp own ▸ member)]
      exact under other (List.mem_cons_of_mem _ member)
    refine ⟨after, ?_, ?_, agreed⟩
    · rw [List.foldlM_cons, removed]
      exact ended
    · rw [filter_cons]
      exact edited.seq more

/-- The nodes of a list go, one after the other, in front of one that is none of them. The induction
is on those still to go: without them, the child list is what it will be without those to come. -/
theorem inserts_edit (range : List NodeId) {right : List NodeId} (apart : ∀ node ∈ right.head?, node ∉ range) :
    ∀ {dom : Dom} {nodes left : List NodeId}, dom.Consistent → dom.children parent = .ok nodes →
    range.Nodup → (∀ id ∈ range, dom.parent id = .ok (some parent)) →
    nodes.filter (· ∉ range) = left ++ right →
    ∃ after, range.foldlM (fun dom id => dom.insert parent id right.head?) dom = .ok after ∧
      dom.Edited parent range (some parent) (left ++ range ++ right) after ∧ after.Consistent := by
  induction range with
  | nil =>
    intro dom nodes left consistent around _ _ others
    rw [filter_nothing] at others
    exact ⟨dom, rfl, .nothing (by rw [List.append_nil, ← others, around]), consistent⟩
  | cons id rest ih =>
    intro dom nodes left consistent around distinct under others
    obtain ⟨fresh, distinct⟩ := List.nodup_cons.mp distinct
    have later : ∀ node ∈ right.head?, node ∉ rest :=
      fun node member inside => apart node member (List.mem_cons_of_mem _ inside)
    obtain ⟨between, inserted, edited, agreeing⟩ :=
      consistent.insert_edits (under id List.mem_cons_self) around right.head?
    have next : (insertNode id right.head? (nodes.filter (· ≠ id))).filter (· ∉ rest) =
        (left ++ [id]) ++ right := by
      rw [filter_insertNode (by simpa using fresh) (by simpa using later), ← filter_cons, others,
        insertNode_between, List.append_assoc]
      · rfl
      · rw [← others]
        exact (consistent.distinct parent nodes around).filter _
    obtain ⟨after, ended, more, agreed⟩ :=
      ih later agreeing edited.around distinct (fun other member => by
        rw [edited.parents other fun own => fresh (List.mem_singleton.mp own ▸ member)]
        exact under other (List.mem_cons_of_mem _ member)) next
    refine ⟨after, ?_, ?_, agreed⟩
    · rw [List.foldlM_cons, inserted]
      exact ended
    · simpa using edited.seq more

end Consistent

theorem nextSibling_eq {front back : List NodeId} (under : dom.parent id = .ok (some parent))
    (around : dom.children parent = .ok (front ++ id :: back)) (distinct : id ∉ front) :
    dom.nextSibling id = .ok back.head? := by
  obtain ⟨node, there, isUnder⟩ := parent_ok.mp under
  have following : (front ++ id :: back).dropWhile (· ≠ id) = id :: back := by
    rw [List.dropWhile_append_of_pos, List.dropWhile_cons_of_neg (by simp)]
    intro other member
    refine decide_eq_true ?_
    rintro rfl
    exact distinct member
  unfold Dom.nextSibling
  simp only [node_ok.mpr there, isUnder, around, following, bind, Except.bind, pure, Except.pure,
    List.drop_one, List.tail_cons]

/-- The walk from sibling to sibling goes through a range in its order. -/
theorem Consistent.walks (consistent : dom.Consistent) {back : List NodeId} (range : List NodeId) :
    ∀ {front : List NodeId}, dom.children parent = .ok (front ++ range ++ back) →
      range.IsChain fun id next => dom.nextSibling id = .ok (some next) := by
  induction range with
  | nil => exact fun _ => .nil
  | cons id rest ih =>
    intro front around
    have shifted : dom.children parent = .ok ((front ++ [id]) ++ rest ++ back) := by
      rw [around]
      simp
    cases rest with
    | nil => exact .singleton id
    | cons next rest =>
      refine .cons_cons ?_ (ih shifted)
      rw [List.append_assoc] at around
      have distinct := List.nodup_append.mp (consistent.distinct parent _ around)
      refine nextSibling_eq ?_ around fun member => ?_
      · exact (consistent.listed parent _ around id).mp (by simp)
      · exact distinct.2.2 id member id List.mem_cons_self rfl

theorem split_at {nodes : List NodeId} {next : Option NodeId} (there : ∀ node ∈ next, node ∈ nodes) :
    ∃ left right, nodes = left ++ right ∧ right.head? = next := by
  cases next with
  | none => exact ⟨nodes, [], by simp, rfl⟩
  | some node =>
    obtain ⟨left, right, same⟩ := List.append_of_mem (there node rfl)
    exact ⟨left, node :: right, same, rfl⟩

theorem filter_range {front range back : List NodeId} (distinct : (front ++ range ++ back).Nodup) :
    (front ++ range ++ back).filter (· ∉ range) = front ++ back := by
  obtain ⟨inner, -, outer⟩ := List.nodup_append.mp distinct
  have before : front.filter (· ∉ range) = front := List.filter_eq_self.mpr fun node member =>
    decide_eq_true fun inside => (List.nodup_append.mp inner).2.2 node member node inside rfl
  have within : range.filter (· ∉ range) = [] :=
    List.filter_eq_nil_iff.mpr fun node member => by simp [member]
  have after : back.filter (· ∉ range) = back := List.filter_eq_self.mpr fun node member =>
    decide_eq_true fun inside => outer node (List.mem_append_right _ inside) node member rfl
  rw [List.filter_append, List.filter_append, before, within, after, List.append_nil]

/-- Moving and clearing a range of siblings edits that range and nothing else. The walk from sibling
to sibling goes through the range. The range can go in front of any other child, or to the end, and
it can be taken out, and then the child that followed it is told. While this is done every node is
in the child list of its parent, once, and in no other. -/
theorem range_edited_alone (reachable : dom.Reachable) {front range back : List NodeId}
    {first last : NodeId} (around : dom.children parent = .ok (front ++ range ++ back))
    (head : range.head? = some first) (tail : range.getLast? = some last) :
    (range.IsChain fun id next => dom.nextSibling id = .ok (some next)) ∧
    (∀ next : Option NodeId, (∀ node ∈ next, node ∈ front ++ back) → ∃ left right after,
      front ++ back = left ++ right ∧ right.head? = next ∧
      dom.moveBefore parent first last next = .ok after ∧
      dom.Edited parent range (some parent) (left ++ range ++ right) after ∧
      ∀ moved, moved <+: range → ∃ between,
        moved.foldlM (fun dom id => dom.insert parent id next) dom = .ok between ∧
        between.Consistent) ∧
    ∃ after, dom.clear parent first last = .ok (after, back.head?) ∧
      dom.Edited parent range none (front ++ back) after ∧
      ∀ cleared, cleared <+: range → ∃ between,
        cleared.foldlM (fun dom id => dom.remove parent id) dom = .ok between ∧
        between.Consistent := by
  have consistent := reachable.consistent
  have distinct := consistent.distinct parent _ around
  have under : ∀ id ∈ range, dom.parent id = .ok (some parent) := fun id member =>
    (consistent.listed parent _ around id).mp (by simp [member])
  have spanned := span_range around distinct (under first (List.mem_of_head? head)) head tail
  have inner : range.Nodup :=
    distinct.sublist ((List.sublist_append_right _ _).trans (List.sublist_append_left _ _))
  have others := filter_range distinct
  refine ⟨consistent.walks range around, fun next there => ?_, ?_⟩
  · have apart : ∀ node ∈ next, node ∈ (front ++ range ++ back).filter (· ∉ range) := by
      rw [others]
      exact there
    obtain ⟨left, right, split, rfl⟩ := split_at there
    obtain ⟨after, moved, edited, -⟩ := consistent.inserts_edit range
      (fun node member => by simpa using (List.mem_filter.mp (apart node member)).2)
      around inner under (others.trans split)
    refine ⟨left, right, after, split, rfl, ?_, edited, fun moved part => ?_⟩
    · unfold Dom.moveBefore
      rw [spanned]
      exact moved
    · -- The nodes that were moved so far are a range to be moved themselves.
      have still : ∀ node ∈ right.head?, node ∉ moved := fun node member inside => by
        simpa [part.subset inside] using (List.mem_filter.mp (apart node member)).2
      have there : ∀ node ∈ right.head?, node ∈ (front ++ range ++ back).filter (· ∉ moved) :=
        fun node member => List.mem_filter.mpr
          ⟨(List.mem_filter.mp (apart node member)).1, by simpa using still node member⟩
      obtain ⟨early, late, cut, same⟩ := split_at there
      rw [← same] at still ⊢
      obtain ⟨between, ended, -, agreed⟩ := consistent.inserts_edit moved still around
        (inner.sublist part.sublist) (fun id member => under id (part.subset member)) cut
      exact ⟨between, ended, agreed⟩
  · obtain ⟨after, removed, edited, -⟩ := consistent.removes_edit range around inner under
    rw [others] at edited
    refine ⟨after, ?_, edited, fun cleared part => ?_⟩
    · obtain ⟨start, split⟩ := List.getLast?_eq_some_iff.mp tail
      have follows : dom.nextSibling last = .ok back.head? := by
        have parted : front ++ range ++ back = (front ++ start) ++ last :: back := by simp [split]
        rw [parted] at around distinct
        refine nextSibling_eq (under last (List.mem_of_getLast? tail)) around fun member => ?_
        exact (List.nodup_append.mp distinct).2.2 last member last List.mem_cons_self rfl
      unfold Dom.clear
      simp only [follows, spanned, removed, bind, Except.bind, pure, Except.pure]
    · obtain ⟨between, ended, -, agreed⟩ := consistent.removes_edit cleared around
        (inner.sublist part.sublist) fun id member => under id (part.subset member)
      exact ⟨between, ended, agreed⟩

/-- Four texts under the document. -/
def row : Dom where
  nodes := #[⟨.document, none, [1, 2, 3, 4]⟩, ⟨.text "a", some 0, []⟩, ⟨.text "b", some 0, []⟩,
    ⟨.text "c", some 0, []⟩, ⟨.text "d", some 0, []⟩]
  mutations := 4

theorem row_reachable : row.Reachable := by
  have appended : ∀ {before after : Dom} (content : String), before.Reachable →
      (before.create (.text content)).2.insert document before.nodes.size none = .ok after →
      after.Reachable :=
    fun content reachable ended => .changed (.changed reachable (.create _ _)) (.insert ended)
  have first := appended "a" .fresh rfl
  have second := appended "b" first rfl
  have third := appended "c" second rfl
  exact appended "d" third rfl

theorem range_edited_alone_row :
    (∃ after, row.moveBefore 0 2 3 (some 1) = .ok after ∧
      row.Edited 0 [2, 3] (some 0) [2, 3, 1, 4] after) ∧
    ∃ after, row.clear 0 2 3 = .ok (after, some 4) ∧ row.Edited 0 [2, 3] none [1, 4] after := by
  have around : row.children 0 = .ok ([1] ++ [2, 3] ++ [4]) := rfl
  obtain ⟨-, moves, after, cleared, edited, -⟩ := range_edited_alone row_reachable around rfl rfl
  refine ⟨?_, after, cleared, edited⟩
  obtain ⟨left, right, after, split, head, moved, edited, -⟩ := moves (some 1) (by simp)
  refine ⟨after, moved, ?_⟩
  cases left with
  | nil =>
    rw [← show [1, 4] = right from split] at edited
    exact edited
  | cons node rest =>
    have behind : [4] = rest ++ right := (List.cons.inj split).2
    have member := List.mem_append_right rest (List.mem_of_head? head)
    rw [← behind] at member
    simp at member

end Dom

end LiveTemplate
