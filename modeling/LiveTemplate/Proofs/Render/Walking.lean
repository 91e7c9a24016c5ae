import Mathlib.Data.List.InsertIdx
import LiveTemplate.Proofs.Iteration.Abiding
import LiveTemplate.Proofs.Render.Passing

/-!
A walk through rendered output: regions, the lists and groups in them, and regions rendered again. On
every way that a walk can take, what was calm stays so, and what was gone through to the end is calm.
-/

namespace LiveTemplate

open Effects

namespace Scene.Orderly

variable {scene : Scene} {known : Reference → Prop} {world : World} (orderly : scene.Orderly known)

include orderly

/-! Regions -/

/-- What is rendered stands and is calm up to now. -/
theorem renderRegion {captured : Captured} (slice : Slice) (parent : NodeId) (before : Option NodeId)
    (bound : world.Known scene known) (held : captured.Held (.kept scene known) world.page.store) :
    (scene.passing known world.page.store).Goes world
      (Region.render scene captured slice parent before) fun output after =>
        Update.Stand scene known after.page.store output.2.updates ∧
          Update.AllCalm scene after.page.store output.2.updates (.tick world.page.store.clock) := by
  have gives : (Stock.kept scene known).Gives (.watching scene known) _ _ :=
    Stock.kept_gives world.page.store
  have resumed := passes (orderly.sound.resume supplies slice parent before
    ⟨.refl _, bound.last gives⟩ (held.last gives))
  have known : (scene.passing known world.page.store).holds world := ⟨.refl _, bound⟩
  refine Render.savepoint_bind known fun savepoint => ?_
  refine .bind (Stock.renders_attempt resumed) fun outcome after holds _ rendered => ?_
  split
  · rename_i output
    obtain ⟨leaves, held⟩ := rendered output rfl
    have made := Update.Stand.of_rendered held
    rw [leaves.clock] at made
    exact .pure holds made
  · exact .bind (sheds (World.Sheds.modify (fun _ => rfl) fun _ => rfl) holds)
      fun _ _ holds _ _ => .throw holds

/-- A region that could be rendered again is current. -/
theorem renderAgain {region : Region} (bound : world.Known scene known)
    (stand : Update.Stand scene known world.page.store [.region region]) :
    (scene.passing known world.page.store).Goes world (region.renderAgain scene)
      fun result after => Update.Passed scene known world.page.store [.region region]
        after.page.store [.region result.1] (result.2 = none) := by
  obtain ⟨captured, updates⟩ := Update.Stand.region_iff.mp stand
  have holds : (scene.passing known world.page.store).holds world := ⟨.refl _, bound⟩
  refine Render.extents_bind (.orElse (fun _ _ => holds) fun parent _ => ?_)
  refine .bind (Stock.renders_attempt (orderly.renderRegion region.slice parent _ bound captured))
    fun outcome after holds leads rendered => ?_
  split
  · exact .pure holds ((Update.Passed.same stand leads).weaken nofun)
  · rename_i extent content
    obtain ⟨made, calm⟩ := rendered (extent, content) rfl
    refine .bind (sheds (World.Sheds.clear _) holds) fun _ second holds _ same => ?_
    refine .bind (sheds region.content.teardown_sheds holds) fun _ third holds _ same' => ?_
    refine Render.extents_bind (.orElse (fun _ _ => holds) fun extents _ => ?_)
    refine drawn ?_ holds fun last same'' => ?_
    · exact World.Sheds.of_drawing fun world => Render.setExtents_draws (.refl world) extents
    · rw [same'', same', same]
      exact .of_calm (Update.Stand.region_iff.mpr ⟨captured.last leads.lasts.toGives, made⟩)
        (Update.allCalm_region.mpr calm)

end Scene.Orderly

/-- However an update is refreshed, a pass is made over it. -/
def Scene.PassesOver (scene : Scene) (known : Reference → Prop)
    (refresh : Update → Render (Update × Outcome)) : Prop :=
  ∀ (world : World) (update : Update), world.Known scene known →
    Update.Stand scene known world.page.store [update] →
    (scene.passing known world.page.store).Goes world (refresh update)
      fun result after => Update.Passed scene known world.page.store [update] after.page.store
        [result.1] (result.2 = .current)

namespace Scene.PassesOver

variable {scene : Scene} {known : Reference → Prop} {world : World}
  {refresh : Update → Render (Update × Outcome)} (passing : scene.PassesOver known refresh)

include passing

theorem goThrough {updates : List Update} (bound : world.Known scene known)
    (stand : Update.Stand scene known world.page.store updates) :
    (scene.passing known world.page.store).Goes world (Region.goThrough refresh updates)
      fun result after => Update.Passed scene known world.page.store updates after.page.store
        result.1 (result.2 = .current) := by
  induction updates generalizing world with
  | nil => exact .pure ⟨.refl _, bound⟩ (.of_calm stand nofun)
  | cons update rest ih =>
    obtain ⟨first, others⟩ := Update.Stand.cons_iff.mp stand
    refine .bind (passing world update bound first) fun result between holds leads passed => ?_
    split
    · refine .bind (Stock.renders_since (ih holds.2 (others.lead leads)) holds.1)
        fun result after holds leads' passed' => ?_
      exact .pure holds (((passed.lead leads').append (passed'.since leads)).weaken (by simp))
    · rename_i outcome current
      exact .pure holds ((passed.append (.same others leads)).weaken (by simpa using current))

theorem refresh_region (orderly : scene.Orderly known) {region : Region}
    (bound : world.Known scene known)
    (stand : Update.Stand scene known world.page.store [.region region]) :
    (scene.passing known world.page.store).Goes world (region.refresh scene refresh)
      fun result after => Update.Passed scene known world.page.store [.region region]
        after.page.store [.region result.1] (result.2 = none) := by
  obtain ⟨captured, updates⟩ := Update.Stand.region_iff.mp stand
  refine .bind (passing.goThrough bound updates) fun result between holds leads passed => ?_
  obtain ⟨updates', outcome⟩ := result
  have walked : Update.Passed scene known world.page.store [.region region] between.page.store
      [.region { region with content := { region.content with updates := updates' } }]
      (outcome = .current) := by
    refine ⟨Update.Stand.region_iff.mpr ⟨captured.last leads.lasts.toGives, passed.stand⟩,
      fun bound below calm => ?_, fun current => ?_⟩
    · exact Update.allCalm_region.mpr (passed.stays bound below (Update.allCalm_region.mp calm))
    · exact Update.allCalm_region.mpr (passed.calms current)
  have again := (Stock.renders_since (orderly.renderAgain holds.2 walked.stand) holds.1).mono
    fun _ _ _ _ rendered => walked.trans rendered leads
  cases outcome with
  | current => exact .pure holds (walked.weaken (by simp))
  | outdated => exact again
  | raised error =>
    dsimp only
    split
    · exact again
    · exact .pure holds (walked.weaken nofun)
  | propagated error => exact .pure holds (walked.weaken nofun)

theorem refreshItems (orderly : scene.Orderly known) {items : List (Key × Region)}
    (bound : world.Known scene known)
    (stand : Update.Stand scene known world.page.store (Update.regions items)) :
    (scene.passing known world.page.store).Goes world
      (ListRegion.refreshItems (Region.refresh scene refresh) items)
      fun result after => Update.Passed scene known world.page.store (Update.regions items)
        after.page.store (Update.regions result.1) (result.2 = .current) := by
  induction items generalizing world with
  | nil => exact .pure ⟨.refl _, bound⟩ (.of_calm stand nofun)
  | cons item rest ih =>
    obtain ⟨key, region⟩ := item
    obtain ⟨first, others⟩ := Update.Stand.cons_iff.mp stand
    refine .bind (passing.refresh_region orderly bound first) fun result between holds leads passed => ?_
    split
    · refine .bind (Stock.renders_since (ih holds.2 (others.lead leads)) holds.1)
        fun result after holds leads' passed' => ?_
      exact .pure holds (((passed.lead leads').append (passed'.since leads)).weaken (by simp))
    · exact .pure holds ((passed.append (.same others leads)).weaken nofun)

end Scene.PassesOver

/-! Lists -/

namespace ListRegion.Syncing

variable {state after : Syncing} {α : Type} {action : Render α}

theorem lift_ok {result : α} :
    (liftM action : EStateM Fault Syncing α) state = .ok result after ↔
      ∃ world, action state.world = .ok result world ∧ { state with world } = after := by
  change onWorld action state = _ ↔ _
  unfold onWorld
  cases action state.world with
  | ok value world => simp [and_assoc]
  | error fault world => simp

theorem lift_error {fault : Fault} :
    (liftM action : EStateM Fault Syncing α) state = .error fault after ↔
      ∃ world, action state.world = .error fault world ∧ { state with world } = after := by
  change onWorld action state = _ ↔ _
  unfold onWorld
  cases action state.world with
  | ok value world => simp
  | error fault world => simp [and_assoc]

end ListRegion.Syncing

/-- What is asked of the items of a list while it is synchronised: they stand, and they are calm up to
each of some revisions. -/
def Region.Settled (scene : Scene) (known : Reference → Prop) (bounds : Revision → Prop)
    (store : Store) (region : Region) : Prop :=
  Update.Stand scene known store [.region region] ∧
    ∀ bound, bounds bound → Update.AllCalm scene store [.region region] bound

/-- A synchronisation is a part of a pass. All items are settled. -/
def Scene.syncing (scene : Scene) (known : Reference → Prop) (bounds : Revision → Prop)
    (start : Store) : Law ListRegion.Syncing where
  holds state := (scene.passing known start).holds state.world ∧
    ∀ item ∈ state.items, item.2.Settled scene known bounds state.world.page.store
  moves before after := before.world.page.store.Leads after.world.page.store
  ends _ state := (scene.passing known start).holds state.world ∧
    ∀ item ∈ state.items, item.2.Settled scene known bounds state.world.page.store
  refl _ := .refl _
  trans := .trans

section Syncing

variable {scene : Scene} {known : Reference → Prop} {bounds : Revision → Prop} {start : Store}
  {state : ListRegion.Syncing} {α : Type}

theorem Region.Settled.lead {region : Region} {before after : Store}
    (settled : region.Settled scene known bounds before) (leads : before.Leads after) :
    region.Settled scene known bounds after :=
  ⟨settled.1.lead leads, fun bound good => (settled.2 bound good).lead leads⟩

/-- A part of a pass that leaves the items alone. -/
theorem Scene.syncing_lift {action : Render α} {post : α → World → Prop}
    (holds : (scene.syncing known bounds start).holds state)
    (goes : (scene.passing known state.world.page.store).Goes state.world action post) :
    (scene.syncing known bounds start).Goes state (liftM action)
      fun result after => after.items = state.items ∧ post result after.world := by
  obtain ⟨holds, settled⟩ := holds
  refine .intro (fun result after ended => ?_) fun fault after failed => ?_
  · obtain ⟨world, done, rfl⟩ := ListRegion.Syncing.lift_ok.mp ended
    obtain ⟨here, moves, right⟩ := goes.of_ok done
    exact ⟨⟨⟨holds.1.trans here.1, here.2⟩, fun item member => (settled item member).lead moves⟩,
      moves, rfl, right⟩
  · obtain ⟨world, done, rfl⟩ := ListRegion.Syncing.lift_error.mp failed
    have here := goes.of_error done
    exact ⟨⟨holds.1.trans here.1, here.2⟩, fun item member => (settled item member).lead here.1⟩

/-- Items may be changed for others that are settled. -/
theorem Scene.syncing_put (holds : (scene.syncing known bounds start).holds state)
    {items : List (Key × Region)}
    (settled : ∀ item ∈ items, item.2.Settled scene known bounds state.world.page.store) :
    (scene.syncing known bounds start).Goes state
      (modify fun state => { state with items } : EStateM Fault ListRegion.Syncing Unit)
      fun _ after => after = { state with items } :=
  ⟨⟨holds.1, settled⟩, .refl _, rfl⟩

/-- The cells of an item that is to be inserted are there. -/
def Edit.Fits (edit : Edit) (store : Store) : Prop :=
  ∀ refs before, edit = .insert refs before →
    refs.value < store.cells.size ∧ refs.memo < store.cells.size

theorem Scene.Orderly.item_held (orderly : scene.Orderly known) {refs : ItemRefs} {store : Store}
    (value : refs.value < store.cells.size) (memo : refs.memo < store.cells.size) :
    refs.invocation.Held (.kept scene known) store := by
  have cell : ∀ id, id < store.cells.size →
      (Stock.kept scene known).reference store (.cell id) := fun id bound =>
    ⟨orderly.cell id, by simpa [Reference.Over, Reference.sources] using bound⟩
  refine ⟨?_, by simp [ItemRefs.invocation], by simp [ItemRefs.invocation]⟩
  simpa [ItemRefs.invocation] using ⟨cell _ value, cell _ memo⟩

/-- An edit of a list leaves settled items. -/
theorem Scene.Orderly.apply (orderly : scene.Orderly known) {list : ListRegion}
    (anchor : Option NodeId) {edit : Edit} (bound : state.world.Known scene known)
    (settled : ∀ item ∈ state.items, item.2.Settled scene known bounds state.world.page.store)
    (captured : list.captured.Held (.kept scene known) state.world.page.store)
    (below : ∀ bound, bounds bound → bound.le (.tick state.world.page.store.clock) = true)
    (fits : edit.Fits state.world.page.store) :
    (scene.syncing known bounds state.world.page.store).Goes state
      (list.apply scene anchor edit) fun _ _ => True := by
  have holds : (scene.syncing known bounds state.world.page.store).holds state :=
    ⟨⟨.refl _, bound⟩, settled⟩
  unfold ListRegion.apply
  refine .get_bind (.asked rfl ?_)
  cases edit with
  | retain refs => exact .pure holds trivial
  | insert refs before =>
    refine .orElse (fun _ _ => holds) fun parent _ => ?_
    obtain ⟨value, memo⟩ := fits refs before rfl
    have given := orderly.item_held value memo
    have captured' : Captured.Held (.kept scene known) state.world.page.store
        { list.captured with registers := { list.captured.registers with invocation := refs.invocation } } :=
      ⟨⟨captured.registers.operand, given, captured.registers.condition⟩, captured.locals,
        captured.ambient⟩
    refine .bind (Scene.syncing_lift holds (orderly.renderRegion list.itemSlice parent _ bound captured'))
      fun output after holds leads rendered => ?_
    obtain ⟨same, made, calm⟩ := rendered
    have fresh : Region.Settled scene known bounds after.world.page.store ⟨list.itemSlice,
        { list.captured with registers := { list.captured.registers with invocation := refs.invocation } },
        output.1, output.2⟩ :=
      ⟨Update.Stand.region_iff.mpr ⟨captured'.last leads.lasts.toGives, made⟩,
        fun bound good => Update.allCalm_region.mpr (calm.mono (below bound good))⟩
    have good : ∀ {store : Store}, after.world.page.store.Leads store →
        ∀ items : List (Key × Region), (∀ item ∈ items, item ∈ state.items) →
        ∀ index, ∀ item ∈ items.insertIdx index (refs.key, _),
          item.2.Settled scene known bounds store := fun leads items among index item member =>
      (List.eq_or_mem_of_mem_insertIdx member).elim (fun same => same ▸ fresh.lead leads)
        fun member => (holds.2 item (same ▸ among item member)).lead leads
    have among : ∀ old, ∀ item ∈ state.items.eraseIdx old, item ∈ state.items :=
      fun old item member => List.mem_of_mem_eraseIdx member
    dsimp only
    split
    · exact (Scene.syncing_put holds (good (.refl _) _ (fun _ => id) _)).mono
        fun _ _ _ _ _ => trivial
    · rename_i old found
      refine .bind (Scene.syncing_put holds fun item member => ?_) fun _ between holds _ same' => ?_
      · exact holds.2 item (same ▸ among old item member)
      subst same'
      split
      · refine .bind (Scene.syncing_lift holds (sheds (Region.remove_sheds _) ⟨.refl _, holds.1.2⟩))
          fun _ last holds leads _ => ?_
        exact (Scene.syncing_put holds (good leads _ (among old) _)).mono fun _ _ _ _ _ => trivial
      · exact (Scene.syncing_put holds (good (.refl _) _ (among old) _)).mono
          fun _ _ _ _ _ => trivial
  | move refs before =>
    dsimp only
    split
    · exact .pure holds trivial
    · rename_i index found
      split
      · rename_i key region there
        have put : ∀ {after : ListRegion.Syncing},
            (scene.syncing known bounds state.world.page.store).holds after →
            state.world.page.store.Leads after.world.page.store → ∀ target,
            (scene.syncing known bounds state.world.page.store).Goes after (modify fun after =>
              { after with items := (state.items.eraseIdx index).insertIdx target (key, region) } :
                EStateM Fault ListRegion.Syncing Unit)
              fun _ _ => True := by
          intro after holds leads target
          refine (Scene.syncing_put holds fun item member => ?_).mono fun _ _ _ _ _ => trivial
          rcases List.eq_or_mem_of_mem_insertIdx member with rfl | member
          · exact (settled _ (List.mem_of_getElem? there)).lead leads
          · exact (settled item (List.mem_of_mem_eraseIdx member)).lead leads
        split
        · refine .asked rfl (.orElse (fun _ _ => holds) fun parent _ => ?_)
          refine .orElse (fun _ _ => holds) fun dom _ => ?_
          refine .bind (Scene.syncing_lift holds (sheds ?_ ⟨.refl _, bound⟩))
            fun _ last holds leads _ => put holds leads _
          exact World.Sheds.of_drawing fun world => Render.setDom_draws (.refl world) dom
        · exact put holds (.refl _) _
      · exact .pure holds trivial
  | delete key =>
    refine .bind (Scene.syncing_put holds fun item member => ?_) fun _ between holds _ same => ?_
    · exact settled item (List.mem_of_mem_filter member)
    subst same
    split
    · exact (Scene.syncing_lift holds (sheds (Region.remove_sheds _) ⟨.refl _, holds.1.2⟩)).mono
        fun _ _ _ _ _ => trivial
    · exact .pure holds trivial
  | done =>
    refine .orElse (fun _ _ => holds) fun extents _ => ?_
    refine (Scene.syncing_lift holds (sheds ?_ ⟨.refl _, bound⟩)).mono fun _ _ _ _ _ => trivial
    exact World.Sheds.of_drawing fun world => Render.setExtents_draws (.refl world) extents

theorem Scene.syncing_reading {reading : Reading α} {post : α → Store → Prop}
    (holds : (scene.syncing known bounds start).holds state)
    (goes : state.world.page.store.leading.Goes state.world.page.store reading post) :
    (scene.syncing known bounds start).Goes state
      (ListRegion.Syncing.onWorld (Render.onPage (Page.reading reading)))
      fun result after => post result after.world.page.store :=
  (Scene.syncing_lift holds (Stock.renders_reading (fun later => (Store.Leads.lasts later).toGives)
    holds.1.2 goes)).mono fun _ _ _ _ right => right.2

/-- Whatever the items of a list are synchronised with, they stay settled. -/
theorem Scene.Orderly.abides (orderly : scene.Orderly known) {list : ListRegion}
    (anchor : Option NodeId) (captured : list.captured.Held (.kept scene known) start)
    (keyed : list.keyed.Held (.kept scene known) start)
    (below : ∀ bound, bounds bound → bound.le (.tick start.clock) = true) :
    (list.target scene anchor).Abides (scene.syncing known bounds start) scene.helpers list.keyed
      fun state edit => edit.Fits state.world.page.store where
  takes := fun {state} holds => by
    have keyed := (keyed.last holds.1.1.lasts.toGives).last (Stock.kept_gives _)
    exact (Scene.syncing_reading holds (Store.leading_of_leaving
      (orderly.sound.takePass (.refl _) keyed))).mono fun _ _ _ _ _ => trivial
  finds := fun {state} holds => Scene.syncing_reading holds (Store.artifacts_leads list.keyed.list)
  meets := fun {state} walk element holds =>
    (Scene.syncing_reading holds (Store.meet_leads (.refl _) walk element)).mono
      fun result after _ _ right edit there refs before same => right refs before (same ▸ there)
  keeps := fun {state} synced holds => Scene.syncing_reading holds
    (Store.changeArtifacts_leads list.keyed.list fun current => { synced with pending := current.pending })
  accepts := fun {state} edit holds fits => by
    have goes := orderly.apply anchor holds.1.2 holds.2 (captured.last holds.1.1.lasts.toGives)
      (fun bound good => Revision.le_trans (below bound good) holds.1.1.tick_le) fits
    have since : ∀ {after : ListRegion.Syncing},
        (scene.syncing known bounds state.world.page.store).holds after →
        (scene.syncing known bounds start).holds after ∧
          state.world.page.store.Leads after.world.page.store :=
      fun there => ⟨⟨⟨holds.1.1.trans there.1.1, there.1.2⟩, there.2⟩, there.1.1⟩
    exact SyncTarget.accept_goes goes (fun _ there _ => since there)
      fun _ _ there => ⟨(since there).1, fun _ => since there⟩
  deletes := nofun
  done := nofun
  refuses := fun _ holds => holds

end Syncing

/-- What is left of a list that was to be brought in step. -/
structure ListRegion.Resynced (scene : Scene) (known : Reference → Prop) (before : Store)
    (list : ListRegion) (after : Store) (result : ListRegion × Outcome) : Prop where
  passed : Update.Passed scene known before [.list list] after [.list result.1] False
  inStep : result.2 = .current →
    Reading.Calm after (result.1.keyed.tag scene.helpers) result.1.last (.tick before.clock)

namespace Scene.Orderly

variable {scene : Scene} {known : Reference → Prop} {world : World} (orderly : scene.Orderly known)

include orderly

/-- A synchronisation passes over the items, whether it comes to its end or not. -/
theorem sync {list : ListRegion} (anchor : Option NodeId) (bound : world.Known scene known)
    (stand : Update.Stand scene known world.page.store [.list list]) :
    (scene.passing known world.page.store).Goes world (list.sync scene anchor)
      fun result after => (∃ items, result.1 = { list with items }) ∧
        Update.Passed scene known world.page.store (Update.regions list.items) after.page.store
          (Update.regions result.1.items) False := by
  obtain ⟨captured, keyed, tells, items⟩ := Update.Stand.list_iff.mp stand
  let bounds : Revision → Prop := fun bound => bound.le (.tick world.page.store.clock) = true ∧
    Update.AllCalm scene world.page.store (Update.regions list.items) bound
  have passed : ∀ {state : ListRegion.Syncing},
      (scene.syncing known bounds world.page.store).holds state →
      Update.Passed scene known world.page.store (Update.regions list.items) state.world.page.store
        (Update.regions state.items) False := by
    rintro state ⟨-, settled⟩
    refine ⟨Update.Stand.forall_iff.mpr ?_, fun bound below calm => Update.allCalm_iff.mpr ?_, nofun⟩
    · exact List.forall_mem_map.mpr fun item member => (settled item member).1
    · exact List.forall_mem_map.mpr fun item member => (settled item member).2 bound ⟨below, calm⟩
  have start : (scene.syncing known bounds world.page.store).holds ⟨world, list.items⟩ := by
    refine ⟨⟨.refl _, bound⟩, fun item member => ⟨?_, fun bound good => ?_⟩⟩
    · exact Update.Stand.forall_iff.mp items _ (List.mem_map_of_mem member)
    · exact Update.allCalm_iff.mp good.2 _ (List.mem_map_of_mem member)
  have synced := (orderly.abides anchor captured keyed
    fun bound (good : bounds bound) => good.1).sync start
  unfold Law.Goes at synced ⊢
  unfold ListRegion.sync
  revert synced
  cases (list.target scene anchor).sync scene.helpers list.keyed ⟨world, list.items⟩ with
  | ok result state =>
    rintro ⟨holds, -, -⟩
    exact ⟨holds.1, holds.1.1, ⟨state.items, rfl⟩, passed holds⟩
  | error fault state =>
    intro ends
    cases fault with
    | failed error => exact ⟨ends.1, ends.1.1, ⟨state.items, rfl⟩, passed ends⟩
    | broken defect => exact ends.1

theorem resync (always : Bool) {list : ListRegion} (bound : world.Known scene known)
    (stand : Update.Stand scene known world.page.store [.list list]) :
    (scene.passing known world.page.store).Goes world (list.resync scene always)
      fun result after => list.Resynced scene known world.page.store after.page.store result := by
  obtain ⟨captured, keyed, tells, items⟩ := Update.Stand.list_iff.mp stand
  have passing : ∀ {after : Store}, world.page.store.Leads after →
      Update.Passed scene known world.page.store [.list list] after [.list list] False := .same stand
  unfold ListRegion.resync
  extract_lets rest
  have goes : ∀ {between : World} (unchanged : Bool),
      (scene.passing known world.page.store).holds between →
      (unchanged = true → Reading.Calm between.page.store (list.keyed.tag scene.helpers) list.last
        (.tick world.page.store.clock)) →
      (scene.passing known world.page.store).Goes between (rest unchanged) fun result after =>
        list.Resynced scene known world.page.store after.page.store result := by
    intro between unchanged holds calm
    dsimp -zeta only [rest]
    split
    · rename_i same
      exact .pure holds ⟨passing holds.1, fun _ => calm same⟩
    refine .asked rfl ?_
    have there := keyed.2.2.within holds.1.toWithin
    have presence := (orderly.obeys _ keyed.2.1).quiet there
    have empty : between.page.store.leaving.Goes between.page.store
        (list.keyed.isEmpty scene.helpers) fun _ _ => True :=
      .bind presence fun value _ leaves _ _ => .pure leaves trivial
    refine .bind (Stock.renders_since (Stock.renders_attempt (reading holds.2 empty)) holds.1)
      fun outcome first holds' leads _ => ?_
    rcases outcome with error | empty
    · exact .pure holds' ⟨passing holds'.1, nofun⟩
    cases empty with
    | true => exact .pure holds' ⟨passing holds'.1, nofun⟩
    | false =>
    refine Render.dom_bind (Render.extents_bind ?_)
    extract_lets synced
    have finishes : ∀ anchor, (scene.passing known world.page.store).Goes first (synced anchor)
        fun result after => list.Resynced scene known world.page.store after.page.store result := by
      intro anchor
      dsimp only [synced]
      refine .bind (Stock.renders_since (orderly.sync anchor holds'.2 (stand.lead holds'.1)) holds'.1)
        fun result last holds'' leads' done => ?_
      obtain ⟨⟨items, same⟩, passed⟩ := done
      obtain ⟨list', refusal⟩ := result
      subst same
      have leads := holds''.1
      have passed := passed.since holds'.1
      have stands : ∀ {revision : Revision}, Update.Stand scene known last.page.store
          [.list { list with items, last := revision }] := Update.Stand.list_iff.mpr
        ⟨captured.last leads.lasts.toGives, keyed.last leads.lasts.toGives,
          tells.last leads.toWithin, passed.stand⟩
      cases refusal with
      | none =>
        refine .pure holds'' ⟨⟨stands, fun bound below calm => ?_, nofun⟩, fun _ => ?_⟩
        · exact Update.allCalm_list.mpr ⟨.inl (Revision.le_trans below holds.1.tick_le),
            passed.stays bound below (Update.allCalm_list.mp calm).2⟩
        · exact .inl holds.1.tick_le
      | some error =>
        refine Render.extents_bind (.orElse (fun _ _ => holds'') fun extents _ => ?_)
        refine drawn ?_ holds'' fun after same => ⟨⟨same ▸ stands, fun bound below calm => ?_, nofun⟩, nofun⟩
        · exact World.Sheds.of_drawing fun world => Render.setExtents_draws (.refl world) extents
        · obtain ⟨own, items⟩ := Update.allCalm_list.mp calm
          rw [same]
          exact Update.allCalm_list.mpr ⟨own.lead leads, passed.stays bound below items⟩
    split
    · exact .orElse (fun _ _ => holds') fun anchor _ => finishes anchor
    · exact .asked rfl (finishes none)
  split
  · exact .asked rfl (goes false ⟨.refl _, bound⟩ nofun)
  · refine .bind (reading bound (tells.quiet (.refl _)).ran) fun tag between holds leads told => ?_
    obtain ⟨leaves, told, -⟩ := told
    exact .asked rfl (goes _ holds fun valid => .of_valid tells told valid)

end Scene.Orderly

theorem Scene.PassesOver.refresh_list {scene : Scene} {known : Reference → Prop} {world : World}
    {refresh : Update → Render (Update × Outcome)} (passing : scene.PassesOver known refresh)
    (orderly : scene.Orderly known) (always : Bool) {list : ListRegion}
    (bound : world.Known scene known)
    (stand : Update.Stand scene known world.page.store [.list list]) :
    (scene.passing known world.page.store).Goes world (list.refresh scene always refresh)
      fun result after => Update.Passed scene known world.page.store [.list list] after.page.store
        [.list result.1] (result.2 = .current) := by
  refine .bind (orderly.resync always bound stand) fun result between holds leads synced => ?_
  obtain ⟨list', outcome⟩ := result
  obtain ⟨captured, keyed, tells, items⟩ := Update.Stand.list_iff.mp synced.passed.stand
  cases outcome with
  | current =>
    refine .bind (Stock.renders_since (passing.refreshItems orderly holds.2 items) holds.1)
      fun result after holds' leads' passed => ?_
    refine .pure holds' ⟨Update.Stand.list_iff.mpr ⟨captured.last leads'.lasts.toGives,
      keyed.last leads'.lasts.toGives, tells.last leads'.toWithin, passed.stand⟩,
      fun bound below calm => ?_, fun current => ?_⟩
    · obtain ⟨own, items⟩ := Update.allCalm_list.mp (synced.passed.stays bound below calm)
      exact Update.allCalm_list.mpr ⟨own.lead leads',
        passed.stays bound (Revision.le_trans below leads.tick_le) items⟩
    · exact Update.allCalm_list.mpr ⟨(synced.inStep rfl).lead leads',
        (passed.calms current).mono leads.tick_le⟩
  | outdated => exact .pure holds (synced.passed.weaken nofun)
  | raised error => exact .pure holds (synced.passed.weaken nofun)
  | propagated error => exact .pure holds (synced.passed.weaken nofun)

/-- Whatever is brought up to date, a pass is made over it. -/
theorem Scene.Orderly.passesOver {scene : Scene} {known : Reference → Prop}
    (orderly : scene.Orderly known) (always : Bool) (depth : Nat) :
    scene.PassesOver known (Refresh.update scene always depth) := by
  induction depth with
  | zero => exact fun world update bound stand => ⟨.refl _, bound⟩
  | succ depth ih =>
    intro world update bound stand
    have leaf : update.IsLeaf → (scene.passing known world.page.store).Goes world
        (Refresh.update scene always (depth + 1) update) fun result after =>
          Update.Passed scene known world.page.store [update] after.page.store [result.1]
            (result.2 = .current) := by
      intro leaf
      rw [Refresh.update_leaf leaf]
      have carried := orderly.carryOut always leaf bound (stand.held update List.mem_cons_self)
      refine .bind (Stock.renders_attempt carried) fun outcome after holds leads passed => ?_
      split
      · rename_i updated stale
        exact .pure holds ((passed (updated, stale) rfl).weaken (by cases stale <;> simp))
      · exact .pure holds ((Update.Passed.same stand leads).weaken nofun)
    cases update with
    | group last members =>
      obtain ⟨since, members', calm⟩ := Update.Stand.group_iff.mp stand
      have held := Update.allHeld_iff.mpr members'.held
      have tells := Reading.Tells.combineM held.tell
      refine .bind (reading bound (tells.quiet (.refl _)).ran) fun tag between holds leads told => ?_
      obtain ⟨leaves, told, -⟩ := told
      refine .asked rfl ?_
      split
      · rename_i valid
        have fresh := calm.fresh held ⟨tag, _, told, (Bool.and_eq_true _ _ ▸ valid).1⟩
        refine .pure holds (.of_calm (stand.lead leads) (Update.allCalm_group.mpr ?_))
        exact fun watch inside =>
          ((fresh watch inside).calm (held.watched watch inside)).lead leads
      · refine .asked rfl ?_
        refine .bind (Stock.renders_since (ih.goThrough holds.2 (members'.lead leads)) holds.1)
          fun result after holds' leads' passed => ?_
        have passed' := passed.since leads
        split
        · refine .pure holds' ⟨Update.Stand.group_iff.mpr
            ⟨leads'.tick_le, passed.stand, passed.calms rfl⟩, fun bound below calm => ?_, fun _ => ?_⟩
          · exact Update.allCalm_group.mpr (passed'.stays bound below (Update.allCalm_group.mp calm))
          · exact Update.allCalm_group.mpr (passed'.calms rfl)
        · rename_i outdated
          refine .pure holds' ⟨Update.Stand.group_iff.mpr
            ⟨Revision.le_trans since holds'.1.tick_le, passed.stand, passed'.stays last since calm⟩,
            fun bound below calm => ?_, fun current => absurd current (by simpa using outdated)⟩
          exact Update.allCalm_group.mpr (passed'.stays bound below (Update.allCalm_group.mp calm))
    | region region =>
      refine .bind (ih.refresh_region orderly bound stand) fun result after holds _ passed => ?_
      split
      · exact .pure holds (passed.weaken (by simp))
      · exact .pure holds (passed.weaken nofun)
    | list list =>
      exact .bind (ih.refresh_list orderly always bound stand)
        fun result after holds _ passed => .pure holds passed
    | text | raw | attr | assert | component | layout | modifier => exact leaf trivial

end LiveTemplate
