import LiveTemplate.Proofs.Meaning.Tellings

/-!
Statements that show a node: text, comments and appended expressions. A value that may change is
recorded on the way, which makes no difference to what is shown.
-/

namespace LiveTemplate

open Effects

theorem Stage.Sees.on {stage : Stage} {scope : Scope} {machine : Machine} {frame : Frame}
    (sees : stage.Sees scope) (keeps : stage.machine.world.scopes.Keeps machine.world.scopes)
    (alike : stage.frame.Twin frame) : (stage.on machine frame).Sees scope where
  scope := by
    change machine.world.scopes.get frame.scope = .ok scope
    rw [alike.scope]
    exact keeps.kept _ _ sees.scope
  ambient := by
    obtain ⟨rest, visible⟩ := sees.ambient
    exact ⟨rest, alike.ambient.trans visible⟩

namespace Running

variable {scene : Scene} {machine middle other after : Machine} {spot : Spot}

/-- A value that is shown is sampled: read, and asked for its tag. -/
theorem sample_ok {reference : Reference} {cache : Cache} {dynamic : Bool}
    (made : newCache scene reference machine = .ok cache middle)
    (asked : isDynamic scene cache other = .ok dynamic after) (same : other.store = middle.store) :
    reference.sample scene.helpers machine.store = .ok cache.last after.store := by
  obtain ⟨store, read, rfl⟩ := reading_ok.mp made
  obtain ⟨tag, _, tagged, ended⟩ := bind_ok.mp asked
  obtain ⟨later, found, rfl⟩ := reading_ok.mp tagged
  obtain ⟨-, rfl⟩ := pure_ok.mp ended
  rw [same] at found
  unfold Reference.sample
  exact (bind_of_ok read).trans (bind_of_ok found)

/-- Asking changes nothing but the store. -/
theorem newCache_ok {reference : Reference} {cache : Cache}
    (made : newCache scene reference machine = .ok cache middle) :
    ∃ store, middle = { machine with world.page.store := store } := by
  obtain ⟨store, -, same⟩ := reading_ok.mp made
  exact ⟨store, same.symm⟩

theorem isDynamic_ok {cache : Cache} {dynamic : Bool}
    (asked : isDynamic scene cache machine = .ok dynamic after) :
    ∃ store, after = { machine with world.page.store := store } := by
  obtain ⟨tag, _, tagged, ended⟩ := bind_ok.mp asked
  obtain ⟨store, -, same⟩ := reading_ok.mp tagged
  obtain ⟨-, rfl⟩ := pure_ok.mp ended
  exact ⟨store, same.symm⟩

theorem popReference_ok {reference expected : Reference} {rest : List Operand}
    (top : machine.operands = .reference expected :: rest)
    (ended : popReference machine = .ok reference after) :
    reference = expected ∧ after = { machine with operands := rest } := by
  obtain ⟨operand, _, popped, ended⟩ := bind_ok.mp ended
  have popped := modifyGet_ok.mp popped
  rw [top] at popped
  cases popped
  obtain ⟨rfl, rfl⟩ := pure_ok.mp ended
  exact ⟨rfl, rfl⟩

/-- Something may be recorded. -/
theorem recordIf_ok {dynamic : Bool} {update : Update} (offers : machine.Offers spot)
    (ended : (if dynamic = true then record update else pure ()) machine = .ok () after) :
    machine.Shows spot [] after ∧ machine.Stays after ∧ after.store = machine.store := by
  split at ended
  · exact record_shows offers ended
  · obtain ⟨-, rfl⟩ := pure_ok.mp ended
    exact ⟨.nothing offers ⟨rfl, rfl, rfl, rfl⟩ rfl rfl rfl, .refl _, rfl⟩

/-- Markup is put in a block of its own. -/
theorem appendRaw_ok {markup : String} {extent : ExtentId} {node : NodeId} {begun shown : Machine}
    (offers : machine.Offers spot) (began : pushBlock machine = .ok extent begun)
    (appended : appendNode (.raw markup) begun = .ok node shown)
    (ended : popExtent shown = .ok () after) :
    machine.Shows spot [.raw markup] after ∧ machine.Stays after ∧ after.store = machine.store := by
  obtain ⟨encloses, stays, builders, store⟩ := pushBlock_ok offers.under began
  obtain ⟨dom, extents, rfl, -, entered, fills⟩ := appendNode_ok (encloses.offers offers.under) appended
  have leaf : (Tree.raw markup).ShownAt dom begun.world.page.dom.nodes.size :=
    ⟨_, entered.there, rfl⟩
  have shows : begun.Shows (spot.within extent) [.raw markup] (begun.showing dom extents) :=
    ⟨⟨entered.leaf leaf, fills.congr (by simp), .refl _, rfl⟩, rfl, rfl, rfl⟩
  obtain ⟨filled, whole, staysToo, same, storeToo, ended⟩ :=
    popExtent_ok offers.under (encloses.shows offers.under shows) ended
  obtain ⟨gains, elements, trackers, staysLast, sameLast, storeLast⟩ :=
    popTracker_ok offers whole (Tree.filled_ne_nil _) ended
  refine ⟨⟨gains, elements, trackers, ?_⟩, ?_, ?_⟩
  · exact congrArg (List.modifyHead Builder.bare) ((sameLast.trans same).trans builders)
  · exact stays.trans ⟨(staysToo.trans staysLast).frames, (staysToo.trans staysLast).operands⟩
  · exact (storeLast.trans storeToo).trans store

theorem dynamicContent_ok {trusted : Bool} {reference : Reference} {rest : List Operand}
    (offers : machine.Offers spot) (top : machine.operands = .reference reference :: rest)
    (ended : dynamicContent scene trusted machine = .ok () after) :
    ∃ value, reference.sample scene.helpers machine.store = .ok value after.store ∧
      machine.Shows spot [if trusted then .raw value.content else .text value.content] after ∧
      after.frames = machine.frames ∧ after.operands = rest := by
  obtain ⟨popped, _, taken, ended⟩ := bind_ok.mp ended
  obtain ⟨rfl, rfl⟩ := popReference_ok top taken
  obtain ⟨cache, _, made, ended⟩ := bind_ok.mp ended
  obtain ⟨store, rfl⟩ := newCache_ok made
  obtain ⟨dynamic, sampled, asked, ended⟩ := bind_ok.mp ended
  have told := sample_ok made asked rfl
  obtain ⟨later, same⟩ := isDynamic_ok asked
  have start : machine.Shows spot [] sampled := by
    subst same
    exact .nothing offers ⟨rfl, rfl, rfl, rfl⟩ rfl rfl rfl
  have frames : sampled.frames = machine.frames := by
    subst same
    rfl
  have operands : sampled.operands = rest := by
    subst same
    rfl
  have offered := start.offers offers
  have whole : ∀ {tree : Tree} {shown : Machine}, sampled.Shows spot [tree] shown →
      sampled.Stays shown → shown.store = sampled.store →
      ∀ update, (if dynamic = true then record update else pure ()) shown = .ok () after →
        after.store = sampled.store ∧ machine.Shows spot [tree] after ∧
          after.frames = machine.frames ∧ after.operands = rest := by
    intro tree shown shows stays store update ended
    obtain ⟨records, staysToo, storeToo⟩ := recordIf_ok (shows.offers offered) ended
    have both := stays.trans staysToo
    refine ⟨storeToo.trans store, ?_, both.frames.trans frames, both.operands.trans operands⟩
    exact start.trans offers (shows.trans offered records)
  refine ⟨cache.last, ?_⟩
  cases trusted with
  | true =>
    obtain ⟨extent, begun, began, ended⟩ := bind_ok.mp ended
    obtain ⟨node, appended, added, ended⟩ := bind_ok.mp ended
    obtain ⟨_, left, popped, ended⟩ := bind_ok.mp ended
    obtain ⟨shows, stays, store⟩ := appendRaw_ok offered began added popped
    obtain ⟨kept, result⟩ := whole shows stays store _ ended
    exact ⟨kept ▸ told, result⟩
  | false =>
    obtain ⟨node, appended, added, ended⟩ := bind_ok.mp ended
    have leaf : ∀ (dom : Dom) (id : Nat) (node : Node), dom.nodes[id]? = some node →
        node.data = .text cache.last.content → (Tree.text cache.last.content).ShownAt dom id :=
      fun _ _ node there same => ⟨node, there, same⟩
    obtain ⟨shows, stays, store⟩ := appendNode_shows offered leaf added
    obtain ⟨kept, result⟩ := whole shows stays store _ ended
    exact ⟨kept ▸ told, result⟩

end Running

namespace Code

open Stage

variable {stage : Stage} {place : Place} {scope : Scope} {before : Draft} {spot : Spot}

/-- A statement that shows one node with a content of its own. -/
theorem node_spoken (offers : stage.machine.Offers spot) {op : Op} {data : String → NodeData}
    {tree : String → Tree} (content : String) (real : op ≠ .noop)
    (steps : ∀ handle, Running.step stage.scene ⟨op, handle, 0, 0⟩ = (do
      let _ ← Running.appendNode (data (← Running.string stage.scene handle))))
    (leaf : ∀ (dom : Dom) (id : Nat) (node : Node), dom.nodes[id]? = some node →
      node.data = data content → (tree content).ShownAt dom id) :
    stage.Says before (do Writing.emit op (← Writing.string content)) [] spot
      (pure [tree content]) := by
  refine Acts.string fun handle middle _ there => ?_
  refine Acts.emit real fun within position operands stats after stepped => ?_
  rw [steps] at stepped
  obtain ⟨_, _, asked, stepped⟩ := bind_ok.mp stepped
  cases (Running.lookUp_eq (within.pool.string there) _).symm.trans asked
  obtain ⟨node, _, appended, stepped⟩ := bind_ok.mp stepped
  obtain ⟨-, rfl⟩ := pure_ok.mp stepped
  obtain ⟨shows, stays, store⟩ := Running.appendNode_shows (offers.having _ _ _) leaf appended
  exact .pure ⟨stage.frame, shows.of_having, .refl _, store, stays.frames, stays.operands⟩

theorem text_spoken (offers : stage.machine.Offers spot) (content : String) :
    stage.Says before (statement place (.text content)) [] spot (pure [.text content]) :=
  node_spoken offers content (by decide) (fun _ => rfl) fun _ _ node there same => ⟨node, there, same⟩

theorem comment_spoken (offers : stage.machine.Offers spot) (content : String) :
    stage.Says before (statement place (.comment content)) [] spot (pure [.comment content]) :=
  node_spoken offers content (by decide) (fun _ => rfl) fun _ _ node there same => ⟨node, there, same⟩

theorem append_spoken (small : stage.scene.program.pool.Small) (entry : place.names.OfEntry)
    (sees : stage.Sees scope) (offers : stage.machine.Offers spot) (value : Expression)
    (trusted : Bool) :
    stage.Says before (statement place (.append value trusted)) [] spot (do
      let value ← Telling.reading
        ((value.reference (place.surroundings scope)).sample stage.scene.helpers)
      return [if trusted then .raw value.content else .text value.content]) := by
  refine Acts.turns (expression_turns small entry sees value) (.emit _ _ _ _) fun middle => ?_
  refine Acts.emit (by decide) fun _ position operands stats after stepped => ?_
  have same : (trusted.toNat ≠ 0 : Bool) = trusted := by cases trusted <;> rfl
  have stepped : Running.dynamicContent stage.scene (trusted.toNat ≠ 0)
    (stage.machineAt position _ stats) = .ok () after := stepped
  rw [same] at stepped
  obtain ⟨shown, sampled, shows, frames, left⟩ :=
    Running.dynamicContent_ok (offers.having _ _ _) rfl stepped
  exact .read sampled (.pure ⟨stage.frame, shows.of_having, .refl _, rfl, frames, left⟩)

end Code

end LiveTemplate
