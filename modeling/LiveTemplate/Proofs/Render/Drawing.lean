import LiveTemplate.Proofs.Defects
import LiveTemplate.Proofs.Render.Inspection
import LiveTemplate.Render.Refresh

/-!
Drawing: whatever a render does to the tree, to extents and to the elements that are open. None of
it reads, binds, queues a hook or touches a frame or a region, so that laws about those need not
look into it.
-/

namespace LiveTemplate

/-- The worlds differ in the tree and in extents at most. -/
structure World.Draws (before after : World) : Prop where
  store : after.page.store = before.page.store
  scopes : after.scopes = before.scopes
  transaction : after.transaction = before.transaction
  stats : after.stats = before.stats
  instances : after.instances = before.instances

/-- The machines differ in what they draw at most. -/
structure Machine.Draws (before after : Machine) : Prop where
  world : before.world.Draws after.world
  frames : after.frames = before.frames
  operands : after.operands = before.operands
  builders : after.builders = before.builders
  groups : after.groups = before.groups

/-- A defect that drawing may run into. -/
def Fault.IsDrawn (fault : Fault) : Prop :=
  ∃ defect, fault = .broken defect ∧ defect.keepsScopes = true

theorem World.Draws.refl (world : World) : world.Draws world := ⟨rfl, rfl, rfl, rfl, rfl⟩

theorem World.Draws.trans {first second third : World} (early : first.Draws second)
    (late : second.Draws third) : first.Draws third :=
  ⟨late.store.trans early.store, late.scopes.trans early.scopes,
    late.transaction.trans early.transaction, late.stats.trans early.stats,
    late.instances.trans early.instances⟩

theorem Machine.Draws.refl (machine : Machine) : machine.Draws machine :=
  ⟨.refl _, rfl, rfl, rfl, rfl⟩

theorem Machine.Draws.trans {first second third : Machine} (early : first.Draws second)
    (late : second.Draws third) : first.Draws third :=
  ⟨early.world.trans late.world, late.frames.trans early.frames,
    late.operands.trans early.operands, late.builders.trans early.builders,
    late.groups.trans early.groups⟩

/-- Nothing but drawing has been done since `start`. -/
def World.drawing (start : World) : Law World where
  holds := start.Draws
  moves _ _ := True
  ends fault world := fault.IsDrawn ∧ start.Draws world
  refl _ := trivial
  trans _ _ := trivial

def Machine.drawing (start : Machine) : Law Machine where
  holds := start.Draws
  moves _ _ := True
  ends fault machine := fault.IsDrawn ∧ start.Draws machine
  refl _ := trivial
  trans _ _ := trivial

/-- A computation that only draws keeps every law that does not look at the drawing. -/
theorem Law.Goes.of_draws {law : Law Machine} {machine : Machine} {α : Type} {action : Running α}
    {post : α → Machine → Prop} (draws : machine.drawing.Goes machine action post)
    (well : ∀ after, machine.Draws after → law.holds after ∧ law.moves machine after)
    (badly : ∀ fault after, fault.IsDrawn → machine.Draws after → law.ends fault after) :
    law.Goes machine action post := by
  refine .intro (fun result after ended => ?_) fun fault after ended => ?_
  · obtain ⟨drawn, -, right⟩ := draws.of_ok ended
    obtain ⟨holds, moves⟩ := well after drawn
    exact ⟨holds, moves, right⟩
  · obtain ⟨usual, drawn⟩ := draws.of_error ended
    exact badly fault after usual drawn

/-! On the page -/

namespace Render

variable {start world : World} {α β : Type} {last : β → World → Prop}

theorem drawing_lookUp (draws : start.Draws world) {outcome : Except Defect α}
    {next : α → Render β} (ends : EndsIn Defect.keepsScopes outcome)
    (rest : ∀ value, outcome = .ok value → start.drawing.Goes world (next value) last) :
    start.drawing.Goes world (liftM outcome >>= next) last :=
  .orElse (fun defect failed => ⟨⟨defect, rfl, ends defect failed⟩, draws⟩) rest

theorem drawing_find (draws : start.Draws world) {outcome : Except Defect α}
    {next : α → Render β} (ends : PlainlyEnds outcome)
    (rest : ∀ value, outcome = .ok value → start.drawing.Goes world (next value) last) :
    start.drawing.Goes world (liftM outcome >>= next) last :=
  drawing_lookUp draws (ends.mono Defect.keepsScopes_of_isPlain) rest

theorem setDom_draws (draws : start.Draws world) (dom : Dom) :
    start.drawing.Goes world (setDom dom) fun _ _ => True :=
  ⟨⟨draws.store, draws.scopes, draws.transaction, draws.stats, draws.instances⟩, trivial, trivial⟩

theorem setExtents_draws (draws : start.Draws world) (extents : Extents) :
    start.drawing.Goes world (setExtents extents) fun _ _ => True :=
  ⟨⟨draws.store, draws.scopes, draws.transaction, draws.stats, draws.instances⟩, trivial, trivial⟩

theorem createNode_draws (draws : start.Draws world) (data : NodeData) :
    start.drawing.Goes world (createNode data) fun _ _ => True :=
  ⟨⟨draws.store, draws.scopes, draws.transaction, draws.stats, draws.instances⟩, trivial, trivial⟩

theorem newBlock_draws (draws : start.Draws world) (parent : NodeId) :
    start.drawing.Goes world (newBlock parent) fun _ _ => True :=
  ⟨⟨draws.store, draws.scopes, draws.transaction, draws.stats, draws.instances⟩, trivial, trivial⟩

theorem newList_draws (draws : start.Draws world) (parent : NodeId) :
    start.drawing.Goes world (newList parent) fun _ _ => True :=
  ⟨⟨draws.store, draws.scopes, draws.transaction, draws.stats, draws.instances⟩, trivial, trivial⟩

theorem dom_bind {law : Law World} {next : Dom → Render β}
    (rest : law.Goes world (next world.page.dom) last) : law.Goes world (dom >>= next) last := rest

theorem extents_bind {law : Law World} {next : Extents → Render β}
    (rest : law.Goes world (next world.extents) last) : law.Goes world (extents >>= next) last :=
  rest

theorem savepoint_eq (world : World) :
    Render.savepoint world = match world.transaction with
      | some transaction => .ok transaction.savepoint world
      | none => .error (.failed .noTransaction) world := by
  unfold savepoint
  refine (Effects.bind_of_ok rfl).trans ?_
  cases world.transaction <;> rfl

theorem savepoint_bind {law : Law World} {next : Savepoint → Render β}
    (ends : law.ends (.failed .noTransaction) world)
    (rest : ∀ savepoint, law.Goes world (next savepoint) last) :
    law.Goes world (savepoint >>= next) last := by
  have asked := savepoint_eq world
  cases there : world.transaction with
  | some transaction => exact .asked (asked.trans (by rw [there])) (rest _)
  | none => exact .refused (asked.trans (by rw [there])) ends

theorem clear_draws (draws : start.Draws world) (extent : ExtentId) :
    start.drawing.Goes world (clear extent) fun _ _ => True := by
  refine extents_bind ?_
  split
  · exact .pure draws trivial
  · refine dom_bind (extents_bind ?_)
    refine drawing_find draws .parent fun parent _ => ?_
    exact drawing_lookUp draws Dom.clear_keepsScopes fun cleared _ => setDom_draws draws _

theorem applyAttribute_draws (draws : start.Draws world) (element : NodeId) (name : String)
    (space : Option String) (value : Value) :
    start.drawing.Goes world (applyAttribute element name space value) fun _ _ => True := by
  refine dom_bind ?_
  split
  · exact drawing_find draws .removeAttribute fun dom _ => setDom_draws draws dom
  · exact drawing_find draws .removeAttribute fun dom _ => setDom_draws draws dom
  · exact drawing_find draws .removeAttribute fun dom _ => setDom_draws draws dom
  · exact drawing_find draws .setAttribute fun dom _ => setDom_draws draws dom
  · exact drawing_find draws .setAttribute fun dom _ => setDom_draws draws dom

theorem replaceRaw_draws (draws : start.Draws world) (extent : ExtentId) (markup : String) :
    start.drawing.Goes world (Refresh.replaceRaw extent markup) fun _ _ => True := by
  refine extents_bind (drawing_find draws .parent fun parent _ => ?_)
  refine .bind (createNode_draws draws _) fun node _ draws _ _ => dom_bind ?_
  refine drawing_find draws .insert fun dom _ => ?_
  refine .bind (setDom_draws draws dom) fun _ _ draws _ _ => ?_
  refine .bind (clear_draws draws extent) fun _ _ draws _ _ => ?_
  refine .bind (newBlock_draws draws parent) fun fresh _ draws _ _ => extents_bind ?_
  refine drawing_find draws .append fun extents _ => ?_
  exact drawing_find draws .takeOver fun extents _ => setExtents_draws draws extents

end Render

/-! In a machine -/

namespace Running

variable {start machine : Machine} {α β : Type} {last : β → Machine → Prop}

theorem draw (draws : start.Draws machine) {action : Render α} {post : α → World → Prop}
    (goes : machine.world.drawing.Goes machine.world action post) :
    start.drawing.Goes machine (liftM action) fun _ _ => True := by
  refine .intro (fun result after ended => ?_) fun fault after ended => ?_
  · obtain ⟨world, done, rfl⟩ := lift_ok.mp ended
    exact ⟨draws.trans ⟨(goes.of_ok done).1, rfl, rfl, rfl, rfl⟩, trivial, trivial⟩
  · obtain ⟨world, failed, rfl⟩ := lift_error.mp ended
    obtain ⟨usual, drawn⟩ := goes.of_error failed
    exact ⟨usual, draws.trans ⟨drawn, rfl, rfl, rfl, rfl⟩⟩

theorem drawing_broken (draws : start.Draws machine) {defect : Defect}
    (keeps : defect.keepsScopes = true) {post : α → Machine → Prop} :
    start.drawing.Goes machine (broken defect) post :=
  .throw ⟨⟨defect, rfl, keeps⟩, draws⟩

theorem drawing_find (draws : start.Draws machine) {outcome : Except Defect α}
    {next : α → Running β} (ends : PlainlyEnds outcome)
    (rest : ∀ value, outcome = .ok value → start.drawing.Goes machine (next value) last) :
    start.drawing.Goes machine (liftM outcome >>= next) last :=
  .orElse (fun defect failed =>
    ⟨⟨defect, rfl, Defect.keepsScopes_of_isPlain (ends defect failed)⟩, draws⟩) rest

theorem setDom_draws (draws : start.Draws machine) (dom : Dom) :
    start.drawing.Goes machine (liftM (Render.setDom dom)) fun _ _ => True :=
  draw draws (Render.setDom_draws (.refl _) dom)

theorem setExtents_draws (draws : start.Draws machine) (extents : Extents) :
    start.drawing.Goes machine (liftM (Render.setExtents extents)) fun _ _ => True :=
  draw draws (Render.setExtents_draws (.refl _) extents)

theorem place_bind (draws : start.Draws machine) {next : NodeId × Option NodeId → Running β}
    (rest : ∀ found, start.drawing.Goes machine (next found) last) :
    start.drawing.Goes machine (place >>= next) last := by
  refine .through (fun _ after => after = machine) ?_ ?_
  · refine .get_bind ?_
    split
    · exact .pure draws rfl
    · exact drawing_broken draws rfl
  · rintro found _ _ _ rfl
    exact rest found

theorem didAppend_draws (draws : start.Draws machine) (piece : Piece) :
    start.drawing.Goes machine (didAppend piece) fun _ _ => True := by
  refine .get_bind ?_
  split
  · exact drawing_find draws .append fun extents _ => setExtents_draws draws extents
  · exact .pure draws trivial
  · exact drawing_broken draws rfl
  · exact drawing_broken draws rfl

theorem insert_draws (draws : start.Draws machine) (node : NodeId) :
    start.drawing.Goes machine (insert node) fun _ _ => True := by
  refine place_bind draws fun found => ?_
  refine drawing_find draws .insert fun dom _ => ?_
  exact .bind (setDom_draws draws dom) fun _ _ draws _ _ => didAppend_draws draws _

theorem appendNode_draws (draws : start.Draws machine) (data : NodeData) :
    start.drawing.Goes machine (appendNode data) fun _ _ => True := by
  refine .bind (draw draws (Render.createNode_draws (.refl _) data)) fun node _ draws _ _ => ?_
  exact .bind (insert_draws draws node) fun _ _ draws _ _ => .pure draws trivial

theorem openElement_draws (draws : start.Draws machine) (tag : String) :
    start.drawing.Goes machine (openElement tag) fun _ _ => True := by
  refine .get_bind ?_
  dsimp only
  split
  · exact drawing_broken draws rfl
  · refine .bind (draw draws (Render.createNode_draws (.refl _) _)) fun element _ draws _ _ => ?_
    exact ⟨⟨draws.world, draws.frames, draws.operands, draws.builders, draws.groups⟩, trivial,
      trivial⟩

theorem setAttribute_draws (draws : start.Draws machine) (name value : String)
    (space : Option String) :
    start.drawing.Goes machine (setAttribute name value space) fun _ _ => True := by
  refine constructing_bind ⟨⟨_, rfl, rfl⟩, draws⟩ fun element _ => ?_
  exact drawing_find draws .setAttribute fun dom _ => setDom_draws draws dom

theorem flushElement_draws (draws : start.Draws machine) :
    start.drawing.Goes machine flushElement fun _ _ => True := by
  refine constructing_bind ⟨⟨_, rfl, rfl⟩, draws⟩ fun element _ => ?_
  refine .modify_bind trivial ?_
  refine .bind (insert_draws ?_ element) fun _ _ draws _ _ => ?_
  · exact ⟨draws.world, draws.frames, draws.operands, draws.builders, draws.groups⟩
  · exact ⟨⟨draws.world, draws.frames, draws.operands, draws.builders, draws.groups⟩, trivial,
      trivial⟩

theorem closeElement_draws (draws : start.Draws machine) :
    start.drawing.Goes machine closeElement fun _ _ => True := by
  refine .get_bind ?_
  split
  · refine .modify_bind trivial (.get_bind ?_)
    have still : ∀ elements, start.Draws { machine with elements } := fun _ =>
      ⟨draws.world, draws.frames, draws.operands, draws.builders, draws.groups⟩
    split
    · exact .throw ⟨⟨.outOfRange, rfl, rfl⟩, still _⟩
    · exact ⟨⟨draws.world, draws.frames, draws.operands, draws.builders, draws.groups⟩, trivial,
        trivial⟩
    · exact .pure (still _) trivial
  · exact drawing_broken draws rfl

theorem track_draws (draws : start.Draws machine) (tracker : Tracker) :
    start.drawing.Goes machine (track tracker) fun _ _ => True :=
  ⟨⟨draws.world, draws.frames, draws.operands, draws.builders, draws.groups⟩, trivial, trivial⟩

theorem pushBlock_draws (draws : start.Draws machine) :
    start.drawing.Goes machine pushBlock fun _ _ => True := by
  refine place_bind draws fun found => ?_
  refine .bind (draw draws (Render.newBlock_draws (.refl _) _)) fun extent _ draws _ _ => ?_
  exact .bind (track_draws draws _) fun _ _ draws _ _ => .pure draws trivial

theorem pushList_draws (draws : start.Draws machine) :
    start.drawing.Goes machine pushList fun _ _ => True := by
  refine place_bind draws fun found => ?_
  refine .bind (draw draws (Render.newList_draws (.refl _) _)) fun extent _ draws _ _ => ?_
  exact .bind (track_draws draws _) fun _ _ draws _ _ => .pure draws trivial

theorem popTracker_draws (draws : start.Draws machine) :
    start.drawing.Goes machine popTracker fun _ _ => True := by
  have ending : ∀ {machine : Machine} (extent : ExtentId), start.Draws machine →
      start.drawing.Goes machine (do
        unless ← (← Render.extents).isEmpty extent do didAppend (.extent extent))
        fun _ _ => True := by
    intro machine extent draws
    refine drawing_find draws .isEmpty fun empty _ => ?_
    split
    · exact .pure draws trivial
    · exact didAppend_draws draws _
  refine .get_bind ?_
  split
  · refine .modify_bind trivial ?_
    have still : ∀ trackers, start.Draws { machine with trackers } := fun _ =>
      ⟨draws.world, draws.frames, draws.operands, draws.builders, draws.groups⟩
    split
    · exact drawing_find (still _) .addItem fun extents _ => setExtents_draws (still _) extents
    · exact ending _ (still _)
    · exact ending _ (still _)
  · exact drawing_broken draws rfl

theorem popExtent_draws (draws : start.Draws machine) :
    start.drawing.Goes machine popExtent fun _ _ => True := by
  refine .get_bind ?_
  split
  · refine drawing_find draws .isEmpty fun empty _ => ?_
    dsimp only
    split
    · exact .bind (appendNode_draws draws _) fun _ _ draws _ _ => popTracker_draws draws
    · exact popTracker_draws draws
  · exact popTracker_draws draws

theorem rootExtent_bind (draws : start.Draws machine) {next : ExtentId → Running β}
    (rest : ∀ extent, start.Draws machine → start.drawing.Goes machine (next extent) last) :
    start.drawing.Goes machine (rootExtent >>= next) last := by
  refine .through (fun _ after => after = machine) (.get_bind ?_) ?_
  · split
    · exact .pure draws rfl
    · exact drawing_broken draws rfl
  · rintro extent _ _ _ rfl
    exact rest extent draws

theorem demand (draws : start.Draws machine) {condition : Prop} [Decidable condition]
    {defect : Defect} (keeps : defect.keepsScopes = true) {next : Running α}
    {post : α → Machine → Prop} (rest : start.drawing.Goes machine next post) :
    start.drawing.Goes machine
      (if condition then next else do
        broken defect
        next) post := by
  split
  · exact rest
  · have stops : start.drawing.Goes machine (broken defect : Running Unit) fun _ _ => False :=
      .throw ⟨⟨defect, rfl, keeps⟩, draws⟩
    exact Law.Goes.bind stops fun _ _ _ _ => False.elim

theorem rootContent_draws {builders : List Builder} {extent : ExtentId}
    (draws : start.Draws machine) :
    start.drawing.Goes machine (match builders with
      | [.root content] => return (extent, content)
      | _ => broken .rootRegionLost) fun output _ => builders = [.root output.2] := by
  split
  · exact .pure draws rfl
  · exact drawing_broken draws rfl

/-- The end of a run draws a comment at most. -/
theorem finish_draws (machine : Machine) :
    machine.drawing.Goes machine finish fun output _ =>
      machine.builders = [.root output.2] := by
  have draws := Machine.Draws.refl machine
  refine .get_bind (demand draws rfl (demand draws rfl (demand draws rfl ?_)))
  refine rootExtent_bind draws fun extent draws => ?_
  refine drawing_find draws .isEmpty fun empty _ => ?_
  dsimp only
  split
  · exact .bind (appendNode_draws draws _) fun _ _ draws _ _ => rootContent_draws draws
  · exact rootContent_draws draws

end Running

end LiveTemplate
