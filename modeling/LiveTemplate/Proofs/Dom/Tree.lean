import LiveTemplate.Dom.Basic

/-!
Where nodes are. What is taken out of a child list leaves the others of it and all other lists as they
were, and a range of siblings is walked from its first node to its last.
-/

namespace LiveTemplate

theorem insertNode_end {node : NodeId} {before : Option NodeId} {nodes : List NodeId}
    (absent : ∀ other ∈ before, other ∉ nodes) : insertNode node before nodes = nodes ++ [node] := by
  induction nodes with
  | nil => rfl
  | cons first rest ih =>
    have different : some first ≠ before := by
      intro same
      exact absent first same.symm List.mem_cons_self
    rw [insertNode, if_neg different, List.cons_append, ih]
    exact fun other held member => absent other held (List.mem_cons_of_mem _ member)

theorem insertNode_before {node other : NodeId} {front back : List NodeId}
    (absent : other ∉ front) :
    insertNode node (some other) (front ++ other :: back) = front ++ node :: other :: back := by
  induction front with
  | nil => simp [insertNode]
  | cons first rest ih =>
    simp only [List.mem_cons, not_or] at absent
    have different : some first ≠ some other := by
      intro same
      exact absent.1 (Option.some.inj same).symm
    rw [List.cons_append, insertNode, if_neg different, ih absent.2]
    rfl

namespace Dom

variable {dom before after : Dom} {id other parent : NodeId}

theorem children_ok {nodes : List NodeId} :
    dom.children id = .ok nodes ↔ ∃ node, dom.nodes[id]? = some node ∧ node.children = nodes := by
  unfold Dom.children Dom.node
  cases dom.nodes[id]? <;> simp [bind, Except.bind, pure, Except.pure]

theorem parent_ok {found : Option NodeId} :
    dom.parent id = .ok found ↔ ∃ node, dom.nodes[id]? = some node ∧ node.parent = found := by
  unfold Dom.parent Dom.node
  cases dom.nodes[id]? <;> simp [bind, Except.bind, pure, Except.pure]

theorem node_ok {node : Node} : dom.node id = .ok node ↔ dom.nodes[id]? = some node := by
  unfold Dom.node
  cases dom.nodes[id]? <;> simp

theorem getElem?_replace {node : Node} (there : id < dom.nodes.size) :
    (dom.replace id node).nodes[other]? = if other = id then some node else dom.nodes[other]? := by
  unfold Dom.replace
  rw [Array.getElem?_setIfInBounds]
  by_cases same : other = id
  · subst same
    simp [there]
  · simp [same, Ne.symm same]

theorem children_create {nodes : List NodeId} (data : NodeData)
    (listed : dom.children id = .ok nodes) : (dom.create data).2.children id = .ok nodes := by
  obtain ⟨node, there, same⟩ := children_ok.mp listed
  refine children_ok.mpr ⟨node, ?_, same⟩
  have bound := (Array.getElem?_eq_some_iff.mp there).1
  change (dom.nodes.push _)[id]? = some node
  rw [Array.getElem?_push, if_neg (Nat.ne_of_lt bound)]
  exact there

/-! Taking nodes out -/

/-- A node is taken out of the child list it is in. -/
structure Detached (before : Dom) (id : NodeId) (after : Dom) : Prop where
  parent : after.parent id = .ok none
  parents : ∀ other found, other ≠ id → before.parent other = .ok found →
    after.parent other = .ok found
  children : ∀ around nodes, before.children around = .ok nodes →
    before.parent id ≠ .ok (some around) → after.children around = .ok nodes
  left : ∀ around nodes, before.children around = .ok nodes →
    before.parent id = .ok (some around) → after.children around = .ok (nodes.filter (· ≠ id))

theorem detach_ok (ended : dom.detach id = .ok after) : Detached dom id after := by
  unfold Dom.detach at ended
  cases found : dom.node id with
  | error defect =>
    rw [found] at ended
    cases ended
  | ok node =>
    have there := node_ok.mp found
    have bound := (Array.getElem?_eq_some_iff.mp there).1
    have known : dom.parent id = .ok node.parent := parent_ok.mpr ⟨node, there, rfl⟩
    rw [found] at ended
    dsimp only [bind, Except.bind] at ended
    cases under : node.parent with
    | none =>
      rw [under] at ended known
      rw [← Except.ok.inj ended]
      refine ⟨known, fun _ _ _ here => here, fun _ _ here _ => here, fun around nodes _ false => ?_⟩
      rw [known] at false
      cases false
    | some parent =>
      rw [under] at ended known
      dsimp only at ended
      cases around : (dom.replace id { node with parent := none }).node parent with
      | error defect =>
        rw [around] at ended
        cases ended
      | ok owner =>
        rw [around] at ended
        have here := node_ok.mp around
        have inside := (Array.getElem?_eq_some_iff.mp here).1
        rw [← Except.ok.inj ended]
        rw [getElem?_replace bound] at here
        have places : ∀ other : NodeId,
            ((dom.replace id { node with parent := none }).replace parent
              { owner with children := owner.children.filter (· ≠ id) }).nodes[other]? =
            if other = parent then some { owner with children := owner.children.filter (· ≠ id) }
            else if other = id then some { node with parent := none } else dom.nodes[other]? := by
          intro other
          rw [getElem?_replace inside, getElem?_replace bound]
        refine ⟨?_, ?_, ?_, ?_⟩
        · refine parent_ok.mpr ?_
          rw [places]
          by_cases same : id = parent
          · rw [if_pos same.symm] at here
            rw [if_pos same]
            cases here
            exact ⟨_, rfl, rfl⟩
          · rw [if_neg same, if_pos rfl]
            exact ⟨_, rfl, rfl⟩
        · intro other found different there
          obtain ⟨old, oldThere, rfl⟩ := parent_ok.mp there
          refine parent_ok.mpr ?_
          rw [places]
          by_cases same : other = parent
          · rw [if_pos same]
            rw [← same, if_neg different, oldThere] at here
            cases here
            exact ⟨_, rfl, rfl⟩
          · rw [if_neg same, if_neg different]
            exact ⟨old, oldThere, rfl⟩
        · intro other nodes there elsewhere
          obtain ⟨old, oldThere, rfl⟩ := children_ok.mp there
          refine children_ok.mpr ?_
          rw [places]
          have different : other ≠ parent := by
            rintro rfl
            exact elsewhere known
          rw [if_neg different]
          by_cases same : other = id
          · rw [same, node_ok.mp found] at oldThere
            cases oldThere
            rw [if_pos same]
            exact ⟨_, rfl, rfl⟩
          · rw [if_neg same]
            exact ⟨old, oldThere, rfl⟩
        · intro other nodes there under
          rw [known] at under
          cases under
          obtain ⟨old, oldThere, rfl⟩ := children_ok.mp there
          refine children_ok.mpr ?_
          rw [places, if_pos rfl]
          by_cases same : parent = id
          · rw [if_pos same] at here
            cases here
            rw [same, node_ok.mp found] at oldThere
            cases oldThere
            exact ⟨_, rfl, rfl⟩
          · rw [if_neg same, oldThere] at here
            cases here
            exact ⟨_, rfl, rfl⟩

theorem remove_ok (ended : dom.remove parent id = .ok after) :
    dom.parent id = .ok (some parent) ∧ Detached dom id after := by
  unfold Dom.remove at ended
  cases under : dom.parent id with
  | error defect =>
    rw [under] at ended
    cases ended
  | ok found =>
    rw [under] at ended
    dsimp only [bind, Except.bind] at ended
    split at ended
    · rename_i same
      cases taken : dom.detach id with
      | error defect =>
        rw [taken] at ended
        cases ended
      | ok first =>
        rw [taken] at ended
        have left := detach_ok taken
        rw [← Except.ok.inj ended]
        exact ⟨by rw [same], left.parent, left.parents, left.children, left.left⟩
    · cases ended

/-! Ranges of siblings -/

theorem span_range {first last : NodeId} {front nodes back : List NodeId}
    (around : dom.children parent = .ok (front ++ nodes ++ back))
    (distinct : (front ++ nodes ++ back).Nodup) (under : dom.parent first = .ok (some parent))
    (head : nodes.head? = some first) (tail : nodes.getLast? = some last) :
    dom.span first last = .ok nodes := by
  obtain ⟨rest, rfl⟩ : ∃ rest, nodes = first :: rest := by
    cases nodes with
    | nil => cases head
    | cons node rest =>
      cases head
      exact ⟨rest, rfl⟩
  have nodup := distinct
  simp only [List.append_assoc, List.cons_append, List.nodup_append, List.nodup_cons,
    List.mem_append, List.mem_cons, not_or] at nodup
  have notFront : first ∉ front := fun member => nodup.2.2 first member first (.inl rfl) rfl
  have notRest : first ∉ rest := nodup.2.1.1.1
  unfold Dom.span
  by_cases same : first = last
  · rw [if_pos same]
    have short : rest = [] := by
      cases rest with
      | nil => rfl
      | cons next others =>
        rw [List.getLast?_cons_cons] at tail
        exact absurd (same ▸ List.mem_of_getLast? tail) notRest
    rw [short]
    rfl
  · obtain ⟨init, split⟩ : ∃ init, first :: rest = init ++ [last] :=
      List.getLast?_eq_some_iff.mp tail
    have notInit : last ∉ init := by
      have whole : (first :: rest).Nodup := by
        refine distinct.sublist ?_
        exact (List.sublist_append_right _ _).trans (List.sublist_append_left _ _)
      rw [split, List.nodup_append] at whole
      exact fun member => whole.2.2 last member last List.mem_cons_self rfl
    have following : (front ++ (first :: rest) ++ back).dropWhile (· ≠ first) =
        init ++ last :: back := by
      rw [List.append_assoc, List.dropWhile_append_of_pos]
      · rw [List.cons_append, List.dropWhile_cons_of_neg (by simp), ← List.cons_append, split,
          List.append_assoc]
        rfl
      · intro other member
        refine decide_eq_true ?_
        rintro rfl
        exact notFront member
    have before : (init ++ last :: back).takeWhile (· ≠ last) = init := by
      rw [List.takeWhile_append_of_pos]
      · rw [List.takeWhile_cons_of_neg (by simp), List.append_nil]
      · intro other member
        refine decide_eq_true ?_
        rintro rfl
        exact notInit member
    simp only [if_neg same, under, around, following, bind, Except.bind, pure, Except.pure]
    rw [if_pos (List.mem_append_right _ List.mem_cons_self), before, split]

end Dom

end LiveTemplate
