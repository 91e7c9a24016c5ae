import LiveTemplate.Proofs.Render.Watches
import LiveTemplate.Render.Refresh

/-!
What a pass over rendered output does to what is watched. Whatever was calm up to some revision stays
so, however far the pass comes. What it has gone through to the end is calm up to the time when it
began.
-/

namespace LiveTemplate

open Effects

/-! Renders in a law of their own beginning -/

namespace Stock

variable {stock : Stock} {world : World} {α : Type}

theorem renders_since {start : Store} {action : Render α} {post : α → World → Prop}
    (goes : (stock.renders world.page.store).Goes world action post)
    (later : stock.later start world.page.store) : (stock.renders start).Goes world action post := by
  refine .intro (fun result after ended => ?_) fun fault after failed => ?_
  · obtain ⟨holds, moves, right⟩ := goes.of_ok ended
    exact ⟨⟨stock.trans later holds.1, holds.2⟩, moves, right⟩
  · obtain ⟨later', held⟩ := goes.of_error failed
    exact ⟨stock.trans later later', held⟩

/-- What failed has left a later store as well. -/
theorem renders_attempt {action : Render α} {post : α → World → Prop}
    (goes : (stock.renders world.page.store).Goes world action post) :
    (stock.renders world.page.store).Goes world (Render.attempt action)
      fun outcome after => ∀ value, outcome = .ok value → post value after := by
  unfold Law.Goes at goes ⊢
  unfold Render.attempt
  revert goes
  cases action world with
  | ok value after =>
    rintro ⟨holds, moves, right⟩
    refine ⟨holds, moves, ?_⟩
    rintro _ ⟨⟩
    exact right
  | error fault after =>
    cases fault with
    | failed error => exact fun ends => ⟨ends, ends.1, nofun⟩
    | broken defect => exact id

theorem renders_reading {reading : Reading α} {post : α → Store → Prop}
    (lasts : ∀ {after}, stock.later world.page.store after →
      stock.Gives stock world.page.store after)
    (held : world.scopes.Held stock world.page.store)
    (goes : (stock.readings world.page.store).Goes world.page.store reading post) :
    (stock.renders world.page.store).Goes world (liftM reading)
      fun result after => post result after.page.store := by
  refine .intro (fun result after ended => ?_) fun fault after failed => ?_
  · obtain ⟨store, done, rfl⟩ := Render.reading_ok.mp ended
    obtain ⟨later, moves, right⟩ := goes.of_ok done
    exact ⟨⟨later, held.last (lasts later)⟩, moves, right⟩
  · obtain ⟨store, done, rfl⟩ := Render.reading_error.mp failed
    have later := goes.of_error done
    exact ⟨later, held.last (lasts later)⟩

/-- What neither reads nor binds. -/
theorem renders_sheds {action : Render α} (sustains : Sustains World.Sheds action)
    (held : world.scopes.Held stock world.page.store) :
    (stock.renders world.page.store).Goes world action
      fun _ after => after.page.store = world.page.store := by
  have kept : ∀ {after : World}, world.Sheds after →
      stock.later world.page.store after.page.store ∧
        after.scopes.Held stock after.page.store := by
    rintro after ⟨store, scopes⟩
    rw [store]
    exact ⟨stock.refl _, fun id scope there => held id scope (scopes id scope there)⟩
  refine .intro (fun result after ended => ?_) fun fault after failed => ?_
  · have shed := sustains.of_ok ended
    exact ⟨kept shed, (kept shed).1, shed.store⟩
  · exact kept (sustains.of_error failed)

end Stock

/-! What a pass makes of updates -/

/-- What a pass leaves of some updates: they stand, they are as calm as they were, and if none was
out of date they are calm up to the time before. -/
structure Update.Passed (scene : Scene) (known : Reference → Prop) (before : Store)
    (old : List Update) (after : Store) (new : List Update) (current : Prop) : Prop where
  stand : Stand scene known after new
  stays : ∀ bound, bound.le (.tick before.clock) = true → AllCalm scene before old bound →
    AllCalm scene after new bound
  calms : current → AllCalm scene after new (.tick before.clock)

namespace Update

variable {scene : Scene} {known : Reference → Prop} {first second third : Store}
  {update update' : Update} {updates updates' rest rest' : List Update} {current : Prop}

namespace Passed

/-- Updates that were not looked at. -/
theorem same (stand : Stand scene known first updates) (leads : first.Leads second) :
    Passed scene known first updates second updates False :=
  ⟨stand.lead leads, fun _ _ calm => calm.lead leads, False.elim⟩

/-- Updates that are calm up to the time before. -/
theorem of_calm (stand : Stand scene known second updates')
    (calm : AllCalm scene second updates' (.tick first.clock)) :
    Passed scene known first updates second updates' current :=
  ⟨stand, fun _ below _ => calm.mono below, fun _ => calm⟩

theorem weaken {later : Prop} (passed : Passed scene known first updates second updates' current)
    (weaker : later → current) : Passed scene known first updates second updates' later :=
  ⟨passed.stand, passed.stays, fun given => passed.calms (weaker given)⟩

theorem since (passed : Passed scene known second updates third updates' current)
    (leads : first.Leads second) : Passed scene known first updates third updates' current where
  stand := passed.stand
  stays := fun bound below calm => passed.stays bound
    (Revision.le_trans below leads.tick_le) (calm.lead leads)
  calms := fun given => (passed.calms given).mono leads.tick_le

theorem lead (passed : Passed scene known first updates second updates' current)
    (leads : second.Leads third) : Passed scene known first updates third updates' current where
  stand := passed.stand.lead leads
  stays := fun bound below calm => (passed.stays bound below calm).lead leads
  calms := fun given => (passed.calms given).lead leads

/-- A pass after another. -/
theorem trans {also : Prop} (early : Passed scene known first updates second updates' current)
    (late : Passed scene known second updates' third rest also) (leads : first.Leads second) :
    Passed scene known first updates third rest also where
  stand := late.stand
  stays := fun bound below calm => late.stays bound
    (Revision.le_trans below leads.tick_le) (early.stays bound below calm)
  calms := fun given => (late.calms given).mono leads.tick_le

theorem append {also : Prop}
    (head : Passed scene known first updates second updates' current)
    (tail : Passed scene known first rest second rest' also) :
    Passed scene known first (updates ++ rest) second (updates' ++ rest') (current ∧ also) where
  stand := Stand.append_iff.mpr ⟨head.stand, tail.stand⟩
  stays := fun bound below calm => by
    obtain ⟨one, two⟩ := allCalm_append.mp calm
    exact allCalm_append.mpr ⟨head.stays bound below one, tail.stays bound below two⟩
  calms := fun given => allCalm_append.mpr ⟨head.calms given.1, tail.calms given.2⟩

end Passed

end Update

/-- An update that is no group, region or list. -/
def Update.IsLeaf : Update → Prop
  | .group .. | .region _ | .list _ => False
  | _ => True

theorem Update.IsLeaf.groups {update : Update} (leaf : update.IsLeaf) : update.groups = [] := by
  cases update <;> first | exact leaf.elim | simp [Update.groups]

theorem Refresh.update_leaf {scene : Scene} {always : Bool} {depth : Nat} {update : Update}
    (leaf : update.IsLeaf) : Refresh.update scene always (depth + 1) update = (do
      match ← Render.attempt (carryOut scene always update) with
      | .ok (updated, stale) => return (updated, if stale then Outcome.outdated else .current)
      | .error error => return (update, .raised error)) := by
  cases update <;> first | exact leaf.elim | rfl

/-- An update that keeps nothing but a cache. -/
structure Update.Wraps (helpers : Helpers) (wrap : Cache → Update) : Prop where
  held : ∀ stock store cache, (wrap cache).Held stock store helpers ↔ cache.Held stock store helpers
  watches : ∀ cache, (wrap cache).watches helpers = [(cache.tag helpers, cache.revision)]
  groups : ∀ cache, (wrap cache).groups = []

namespace Update.Wraps

variable {helpers : Helpers}

theorem text (node : NodeId) : Wraps helpers (.text node) :=
  ⟨fun _ _ _ => by rw [Update.Held], fun _ => by rw [Update.watches], fun _ => by simp [Update.groups]⟩

theorem raw (extent : ExtentId) : Wraps helpers (.raw extent) :=
  ⟨fun _ _ _ => by rw [Update.Held], fun _ => by rw [Update.watches], fun _ => by simp [Update.groups]⟩

theorem attr (element : NodeId) (name : String) (space : Option String) :
    Wraps helpers (.attr element name space) :=
  ⟨fun _ _ _ => by rw [Update.Held], fun _ => by rw [Update.watches], fun _ => by simp [Update.groups]⟩

theorem assert : Wraps helpers .assert :=
  ⟨fun _ _ _ => by rw [Update.Held], fun _ => by rw [Update.watches], fun _ => by simp [Update.groups]⟩

end Update.Wraps

/-! Steps of a pass -/

/-- A pass leaves a later store in which all that is bound is known. -/
abbrev Scene.passing (scene : Scene) (known : Reference → Prop) (start : Store) : Law World :=
  (Stock.kept scene known).renders start

/-- All that is bound is known. -/
abbrev World.Known (scene : Scene) (known : Reference → Prop) (world : World) : Prop :=
  world.scopes.Held (.kept scene known) world.page.store

namespace Scene.Orderly

variable {scene : Scene} {known : Reference → Prop} {world : World} {α : Type}

theorem supplies : (Stock.watching scene known).Supplies scene.program := by
  intro position instruction _
  unfold Instruction.Stocked
  split <;> first | trivial | exact fun _ _ _ => trivial | exact fun _ _ _ _ => trivial

/-- Whatever is done while rendering is a step of a pass. -/
theorem passes {action : Render α} {post : α → World → Prop}
    (goes : ((Stock.watching scene known).renders world.page.store).Goes world action post) :
    (scene.passing known world.page.store).Goes world action
      fun result after => world.page.store.Leaves after.page.store ∧ post result after := by
  have bound : ∀ {after : World}, after.scopes.Held (.watching scene known) after.page.store →
      after.Known scene known :=
    fun {after} held => held.last (Store.Leaves.refl after.page.store).yields.toGives
  refine .intro (fun result after ended => ?_) fun fault after failed => ?_
  · obtain ⟨⟨leaves, held⟩, -, right⟩ := goes.of_ok ended
    exact ⟨⟨.of_leaves leaves, bound held⟩, .of_leaves leaves, leaves, right⟩
  · obtain ⟨leaves, held⟩ := goes.of_error failed
    exact ⟨.of_leaves leaves, bound held⟩

theorem reading {reading : Reading α} {post : α → Store → Prop} (held : world.Known scene known)
    (goes : world.page.store.leaving.Goes world.page.store reading post) :
    (scene.passing known world.page.store).Goes world (liftM reading)
      fun result after => world.page.store.Leaves after.page.store ∧
        post result after.page.store :=
  Stock.renders_reading (fun later => (Store.Leads.lasts later).toGives) held
    (Store.leading_of_leaving goes)

variable (orderly : scene.Orderly known)

include orderly

theorem revalidate {store : Store} {cache : Cache}
    (held : cache.Held (.kept scene known) store scene.helpers) :
    store.leaving.Goes store (cache.revalidate scene.helpers) fun result after =>
      result.1.reference = cache.reference ∧
        Reading.Calm after (result.1.tag scene.helpers) result.1.revision (.tick store.clock) := by
  have tells : (cache.tag scene.helpers).Tells store := held.watch
  refine .bind (tells.quiet (.refl store)).ran fun tag between leaves _ told => ?_
  refine .get_bind ?_
  split
  · rename_i valid
    exact .pure leaves ⟨rfl, .of_valid tells told.1 valid⟩
  · refine .get_bind ?_
    have calm := Reading.Calm.of_noted tells told.1
    have good := held.reference.2.within leaves.toWithin
    refine .bind (((orderly.obeys _ held.reference.1).quiet good).since leaves)
      fun value after leaves moves _ => ?_
    have calm := calm.lead (.of_leaves moves)
    split
    · exact .pure leaves ⟨rfl, calm⟩
    · exact .pure leaves ⟨rfl, calm⟩

theorem isStale {store : Store} {cache : Cache}
    (held : cache.Held (.kept scene known) store scene.helpers) :
    store.leaving.Goes store (cache.isStale scene.helpers) fun result after =>
      (result.1.reference = cache.reference ∧
        Reading.Calm after (result.1.tag scene.helpers) result.1.revision (.tick store.clock)) ∨
      result = (cache, true) := by
  have tells : (cache.tag scene.helpers).Tells store := held.watch
  refine .bind (tells.quiet (.refl store)).ran fun tag between leaves _ told => ?_
  refine .get_bind ?_
  split
  · rename_i valid
    exact .pure leaves (.inl ⟨rfl, .of_valid tells told.1 valid⟩)
  · refine .get_bind ?_
    have calm := Reading.Calm.of_noted tells told.1
    have good := held.reference.2.within leaves.toWithin
    refine .bind (((orderly.obeys _ held.reference.1).quiet good).since leaves)
      fun value after leaves moves _ => ?_
    split
    · exact .pure leaves (.inl ⟨rfl, calm.lead (.of_leaves moves)⟩)
    · exact .pure leaves (.inr rfl)

omit orderly in
/-- What neither reads nor binds. -/
theorem sheds {action : Render α} {start : Store} (sustains : Sustains World.Sheds action)
    (holds : (scene.passing known start).holds world) :
    (scene.passing known start).Goes world action
      fun _ after => after.page.store = world.page.store :=
  Stock.renders_since (Stock.renders_sheds sustains holds.2) holds.1

omit orderly in
/-- What draws and hands on what is there. -/
theorem drawn {action : Render Unit} {result : α} {post : α → World → Prop} {start : Store}
    (sustains : Sustains World.Sheds action) (holds : (scene.passing known start).holds world)
    (good : ∀ after : World, after.page.store = world.page.store → post result after) :
    (scene.passing known start).Goes world (do
      action
      return result) post :=
  .bind (sheds sustains holds) fun _ after holds _ same => .pure holds (good after same)

omit orderly in
theorem leaf_stands {store : Store} {update : Update}
    (held : update.Held (.kept scene known) store scene.helpers) (groups : update.groups = []) :
    Update.Stand scene known store [update] := by
  refine ⟨List.forall_mem_singleton.mpr held, fun group member => ?_⟩
  obtain ⟨_, among, inside⟩ := Update.mem_allGroups.mp member
  obtain rfl := List.mem_singleton.mp among
  rw [groups] at inside
  cases inside

omit orderly in
/-- An update without groups in it that is calm up to the time before. -/
theorem leaf_passed {first second : Store} {update update' : Update} {current : Prop}
    (held : update'.Held (.kept scene known) second scene.helpers) (groups : update'.groups = [])
    (calm : ∀ watch ∈ update'.watches scene.helpers,
      Reading.Calm second watch.1 watch.2 (.tick first.clock)) :
    Update.Passed scene known first [update] second [update'] current := by
  have calm' : Update.AllCalm scene second [update'] (.tick first.clock) := by
    intro watch member
    obtain ⟨_, among, inside⟩ := Update.mem_allWatches.mp member
    obtain rfl := List.mem_singleton.mp among
    exact calm watch inside
  exact .of_calm (leaf_stands held groups) calm'

omit orderly in
theorem cached {wrap : Cache → Update} (wraps : Update.Wraps scene.helpers wrap) {first second : Store}
    {cache cache' : Cache} {update : Update} {current : Prop}
    (held : cache.Held (.kept scene known) first scene.helpers) (leads : first.Leads second)
    (same : cache'.reference = cache.reference)
    (calm : Reading.Calm second (cache'.tag scene.helpers) cache'.revision (.tick first.clock)) :
    Update.Passed scene known first [update] second [wrap cache'] current := by
  have still := held.last leads.lasts
  refine leaf_passed ((wraps.held _ _ _).mpr ⟨same ▸ still.reference, ?_⟩) (wraps.groups cache') ?_
  · change Reading.Tells second (cache'.reference.tag scene.helpers)
    rw [same]
    exact still.watch
  · rw [wraps.watches]
    exact List.forall_mem_singleton.mpr calm

theorem revalidated {wrap : Cache → Update} (wraps : Update.Wraps scene.helpers wrap) {cache : Cache}
    (bound : world.Known scene known)
    (held : cache.Held (.kept scene known) world.page.store scene.helpers)
    {next : Cache × Option Value → Render α} {post : α → World → Prop}
    (rest : ∀ cache' changed between, (scene.passing known world.page.store).holds between →
      Update.Passed scene known world.page.store [wrap cache] between.page.store [wrap cache']
        (false = false) →
      (scene.passing known world.page.store).Goes between (next (cache', changed)) post) :
    (scene.passing known world.page.store).Goes world
      (liftM (cache.revalidate scene.helpers) >>= next) post := by
  refine .bind (reading bound (orderly.revalidate held)) fun result between holds leads fresh => ?_
  obtain ⟨-, same, calm⟩ := fresh
  exact rest result.1 result.2 between holds (cached wraps held leads same calm)

omit orderly in
theorem onPage {action : EStateM Fault Page α} {good : α → Page → Prop} {start : Store}
    (holds : (scene.passing known start).holds world)
    (outcome : world.page.Outcome Store.Leaves action good) :
    (scene.passing known start).Goes world (liftM action)
      fun result after => good result after.page := by
  have kept : ∀ {page : Page}, world.page.store.Leaves page.store →
      (scene.passing known start).holds { world with page } := fun leaves =>
    ⟨holds.1.trans (.of_leaves leaves), holds.2.last (Store.Leads.of_leaves leaves).lasts.toGives⟩
  unfold Page.Outcome at outcome
  refine .intro (fun result after ended => ?_) fun fault after failed => ?_
  · obtain ⟨page, done, rfl⟩ := Render.onPage_ok.mp ended
    rw [done] at outcome
    exact ⟨kept outcome.1, .of_leaves outcome.1, outcome.2⟩
  · obtain ⟨page, done, rfl⟩ := Render.onPage_error.mp failed
    rw [done] at outcome
    exact kept outcome

omit orderly in
theorem hooked {action : StateM Page Unit} {start : Store}
    (holds : (scene.passing known start).holds world)
    (leaves : world.page.store.Leaves (action.run world.page).2.store) :
    (scene.passing known start).Goes world (Render.hook action) fun _ _ => True := by
  refine ⟨⟨holds.1.trans (.of_leaves leaves), ?_⟩, .of_leaves leaves, trivial⟩
  exact holds.2.last (Store.Leads.of_leaves leaves).lasts.toGives

theorem carryOut (always : Bool) {subject : Update} (leaf : subject.IsLeaf)
    (bound : world.Known scene known)
    (held : subject.Held (.kept scene known) world.page.store scene.helpers) :
    (scene.passing known world.page.store).Goes world (Refresh.carryOut scene always subject)
      fun result after => Update.Passed scene known world.page.store [subject] after.page.store
        [result.1] (result.2 = false) := by
  have settled : ∀ {between : World} {update : Update},
      (scene.passing known world.page.store).holds between →
      Update.Passed scene known world.page.store [subject] between.page.store [update]
        (false = false) →
      ∀ {action : Render Unit}, Sustains World.Sheds action →
      (scene.passing known world.page.store).Goes between (do
        action
        return (update, false)) fun result after =>
          Update.Passed scene known world.page.store [subject] after.page.store [result.1]
            (result.2 = false) :=
    fun holds passed _ sustains => drawn sustains holds fun after same => by rwa [same]
  cases subject with
  | text node cache =>
    rw [Update.Held] at held
    refine orderly.revalidated (.text node) bound held fun cache' changed between holds passed => ?_
    dsimp only
    split
    · exact .asked rfl (.orElse (fun _ _ => holds) fun dom _ => settled holds passed
        (World.Sheds.of_drawing fun world => Render.setDom_draws (.refl world) dom))
    · exact .pure holds passed
  | raw extent cache =>
    rw [Update.Held] at held
    refine orderly.revalidated (.raw extent) bound held fun cache' changed between holds passed => ?_
    dsimp only
    split
    · exact settled holds passed
        (World.Sheds.of_drawing fun world => Render.replaceRaw_draws (.refl world) extent _)
    · exact .pure holds passed
  | attr element name space cache =>
    rw [Update.Held] at held
    refine orderly.revalidated (.attr element name space) bound held
      fun cache' changed between holds passed => ?_
    dsimp only
    split
    · exact settled holds passed (World.Sheds.of_drawing fun world =>
        Render.applyAttribute_draws (.refl world) element name space _)
    · exact .pure holds passed
  | assert cache =>
    have stand := leaf_stands held leaf.groups
    rw [Update.Held] at held
    refine .bind (reading bound (orderly.isStale held)) fun result between holds leads fresh => ?_
    obtain ⟨cache', stale⟩ := result
    obtain ⟨-, ⟨same, calm⟩ | same⟩ := fresh
    · exact .pure holds (cached .assert held leads same calm)
    · cases same
      exact .pure holds ((Update.Passed.same stand leads).weaken (by simp))
  | component component invocation last =>
    rw [Update.Held] at held
    obtain ⟨given, tag, watch⟩ := held
    have tells : (invocation.tag scene.helpers).Tells world.page.store :=
      orderly.sound.invocation_tells (given.last (Stock.kept_gives _))
    refine .bind (reading bound (tells.quiet (.refl _)).ran) fun found between holds leads told => ?_
    obtain ⟨leaves, told, -⟩ := told
    have told : Update.tag scene.helpers (.component component invocation last) world.page.store =
        .ok (Tag.combine [found, component.tag]) between.page.store := by
      rw [Update.tag]
      exact bind_of_ok told
    have passed : ∀ {after : World} {revision : Revision},
        world.page.store.Leads after.page.store →
        Reading.Calm after.page.store (Update.tag scene.helpers
          (.component component invocation last)) revision (.tick world.page.store.clock) →
        Update.Passed scene known world.page.store [.component component invocation last]
          after.page.store [.component component invocation revision] (false = false) := by
      intro after revision leads calm
      have lasts : (Stock.kept scene known).Lasts _ _ := leads.lasts
      refine leaf_passed ?_ (by simp [Update.groups]) ?_
      · rw [Update.Held]
        exact ⟨given.last lasts.toGives, lasts.tag _ tag, lasts.watch _ _ watch⟩
      · rw [Update.watches]
        exact List.forall_mem_singleton.mpr calm
    refine .asked rfl ?_
    split
    · rename_i valid
      exact .pure holds (passed holds.1 (.of_valid watch told (Bool.and_eq_true _ _ ▸ valid).1))
    · refine .asked rfl ?_
      have calm := Reading.Calm.of_noted watch told
      refine .bind (onPage holds (orderly.update component invocation between.page))
        fun _ after holds moves _ => .pure holds (passed holds.1 (calm.lead moves))
  | layout component extent =>
    refine Render.extents_bind ?_
    have leaves := orderly.didUpdateLayout component (world.extents.first? extent)
      (world.extents.last? extent) world.page
    refine .bind (hooked ⟨.refl _, bound⟩ leaves) fun _ between holds leads _ => ?_
    refine settled holds (leaf_passed (held.last leads.lasts) ?_ ?_) (World.Sheds.queue _)
    · simp [Update.groups]
    · simp [Update.watches]
  | modifier modifier invocation last =>
    rw [Update.Held] at held
    obtain ⟨given, watch⟩ := held
    have passed : ∀ {after : World} {revision : Revision},
        world.page.store.Leads after.page.store →
        Reading.Calm after.page.store (invocation.tag scene.helpers) revision
          (.tick world.page.store.clock) →
        Update.Passed scene known world.page.store [.modifier modifier invocation last]
          after.page.store [.modifier modifier invocation revision] (false = false) := by
      intro after revision leads calm
      have lasts : (Stock.kept scene known).Lasts _ _ := leads.lasts
      refine leaf_passed ?_ (by simp [Update.groups]) ?_
      · rw [Update.Held]
        exact ⟨given.last lasts.toGives, lasts.watch _ _ watch⟩
      · rw [Update.watches]
        exact List.forall_mem_singleton.mpr calm
    refine .bind (reading bound (watch.quiet (.refl _)).ran) fun found between holds leads told => ?_
    obtain ⟨leaves, told, -⟩ := told
    refine .asked rfl ?_
    split
    · rename_i valid
      exact .pure holds (passed holds.1 (.of_valid watch told valid))
    · exact .asked rfl (settled holds (passed holds.1 (.of_noted watch told)) (World.Sheds.queue _))
  | group | region | list => exact leaf.elim

end Scene.Orderly

end LiveTemplate
