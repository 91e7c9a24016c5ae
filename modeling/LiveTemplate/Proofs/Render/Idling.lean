import LiveTemplate.Proofs.Render.Passing

/-!
Walks over what is current. If all that updates watch validates, a walk through them finds nothing to
do: it draws nothing, runs no program and leaves the updates as they are, but for the time at which
the groups in them were last gone through.
-/

namespace LiveTemplate

open Effects

/-! What is left of updates without the times of their groups -/

mutual

def Content.undated : Content → Content
  | ⟨updates, scopes, owned⟩ => ⟨Update.allUndated updates, scopes, owned⟩

/-- The update without the times at which the groups in it were last gone through. -/
def Update.undated : Update → Update
  | .group _ members => .group .constant (Update.allUndated members)
  | .region ⟨slice, captured, extent, content⟩ =>
    .region ⟨slice, captured, extent, content.undated⟩
  | .list ⟨slice, captured, keyed, last, extent, items⟩ =>
    .list ⟨slice, captured, keyed, last, extent, Update.itemsUndated items⟩
  | leaf => leaf

def Update.allUndated : List Update → List Update
  | [] => []
  | update :: rest => update.undated :: Update.allUndated rest

def Update.itemsUndated : List (Key × Region) → List (Key × Region)
  | [] => []
  | (key, ⟨slice, captured, extent, content⟩) :: rest =>
    (key, ⟨slice, captured, extent, content.undated⟩) :: Update.itemsUndated rest

end

def Region.undated (region : Region) : Region := { region with content := region.content.undated }

def ListRegion.undated (list : ListRegion) : ListRegion :=
  { list with items := Update.itemsUndated list.items }

theorem Update.undated_region (region : Region) :
    (Update.region region).undated = .region region.undated := by
  obtain ⟨slice, captured, extent, content⟩ := region
  rw [undated]
  rfl

theorem Update.undated_list (list : ListRegion) :
    (Update.list list).undated = .list list.undated := by
  obtain ⟨slice, captured, keyed, last, extent, items⟩ := list
  rw [undated]
  rfl

theorem Update.itemsUndated_cons (key : Key) (region : Region) (items : List (Key × Region)) :
    itemsUndated ((key, region) :: items) = (key, region.undated) :: itemsUndated items := by
  obtain ⟨slice, captured, extent, content⟩ := region
  rw [itemsUndated]
  rfl

mutual

def Content.height : Content → Nat
  | ⟨updates, _, _⟩ => Update.allHeight updates

/-- How many levels of updates there are, that one included. -/
def Update.height : Update → Nat
  | .group _ members => Update.allHeight members + 1
  | .region ⟨_, _, _, content⟩ => content.height + 1
  | .list ⟨_, _, _, _, _, items⟩ => Update.itemsHeight items + 1
  | _ => 1

def Update.allHeight : List Update → Nat
  | [] => 0
  | update :: rest => max update.height (Update.allHeight rest)

def Update.itemsHeight : List (Key × Region) → Nat
  | [] => 0
  | (_, ⟨_, _, _, content⟩) :: rest => max content.height (Update.itemsHeight rest)

end

theorem Update.height_region (region : Region) :
    (Update.region region).height = region.content.height + 1 := by
  obtain ⟨slice, captured, extent, content⟩ := region
  rw [height]

theorem Update.height_list (list : ListRegion) :
    (Update.list list).height = itemsHeight list.items + 1 := by
  obtain ⟨slice, captured, keyed, last, extent, items⟩ := list
  rw [height]

theorem Update.itemsHeight_cons (key : Key) (region : Region) (items : List (Key × Region)) :
    itemsHeight ((key, region) :: items) = max region.content.height (itemsHeight items) := by
  obtain ⟨slice, captured, extent, content⟩ := region
  rw [itemsHeight]

theorem Update.height_pos (update : Update) : 0 < update.height := by
  cases update with
  | region region =>
    rw [height_region]
    exact Nat.succ_pos _
  | list list =>
    rw [height_list]
    exact Nat.succ_pos _
  | _ => simp [height]

/-! Worlds in which nothing happens -/

/-- Nothing can be seen to have happened, and nothing was run. Components may be told that they were
looked at when the transaction is committed. -/
structure World.Quiet (before after : World) : Prop where
  leaves : before.page.store.Leaves after.page.store
  dom : after.page.dom = before.page.dom
  extents : after.extents = before.extents
  scopes : after.scopes = before.scopes
  stats : after.stats = before.stats
  instances : after.instances = before.instances
  transaction : ∃ components, after.transaction = before.transaction.map fun transaction =>
    { transaction with updated := transaction.updated ++ components }

namespace World.Quiet

theorem refl (world : World) : world.Quiet world :=
  ⟨.refl _, rfl, rfl, rfl, rfl, rfl, [], by simp⟩

theorem trans {first second third : World} (early : first.Quiet second) (late : second.Quiet third) :
    first.Quiet third := by
  obtain ⟨components, early'⟩ := early.transaction
  obtain ⟨others, late'⟩ := late.transaction
  refine ⟨early.leaves.trans late.leaves, late.dom.trans early.dom, late.extents.trans early.extents,
    late.scopes.trans early.scopes, late.stats.trans early.stats,
    late.instances.trans early.instances, components ++ others, ?_⟩
  rw [late', early', Option.map_map]
  simp [Function.comp_def]

theorem of_leaves {world : World} {store : Store} (leaves : world.page.store.Leaves store) :
    world.Quiet { world with page.store := store } :=
  ⟨leaves, rfl, rfl, rfl, rfl, rfl, [], by simp⟩

end World.Quiet

/-- A computation that ends well and does nothing, while a transaction is open. -/
def World.staying : Law World where
  holds world := world.transaction.isSome
  moves := World.Quiet
  ends _ _ := False
  refl := World.Quiet.refl
  trans := World.Quiet.trans

/-- Updates of which the tags can be worked out, and that watch nothing that has changed. -/
structure Update.Idle (scene : Scene) (known : Reference → Prop) (bound : Revision) (store : Store)
    (updates : List Update) : Prop where
  held : ∀ update ∈ updates, update.Held (.kept scene known) store scene.helpers
  tags : ∀ telling ∈ Update.tags scene.helpers updates, Reading.Fresh store telling bound
  watches : ∀ watch ∈ Update.allWatches scene.helpers updates, Reading.Fresh store watch.1 watch.2

namespace Update.Idle

variable {scene : Scene} {known : Reference → Prop} {bound : Revision} {store after : Store}
  {updates rest : List Update}

theorem leave (idle : Idle scene known bound store updates) (leaves : store.Leaves after) :
    Idle scene known bound after updates where
  held := fun update member => (idle.held update member).last (Store.Leads.of_leaves leaves).lasts
  tags := fun telling member => (idle.tags telling member).leave
    ((Update.allHeld_iff.mpr idle.held).tell telling member) leaves
  watches := fun watch inside => (idle.watches watch inside).leave
    ((Update.allHeld_iff.mpr idle.held).watched watch inside) leaves

theorem append_iff : Idle scene known bound store (updates ++ rest) ↔
    Idle scene known bound store updates ∧ Idle scene known bound store rest := by
  constructor
  · rintro ⟨held, tags, watches⟩
    rw [tags_append] at tags
    rw [allWatches_append] at watches
    obtain ⟨held, held'⟩ := List.forall_mem_append.mp held
    obtain ⟨tags, tags'⟩ := List.forall_mem_append.mp tags
    obtain ⟨watches, watches'⟩ := List.forall_mem_append.mp watches
    exact ⟨⟨held, tags, watches⟩, ⟨held', tags', watches'⟩⟩
  · rintro ⟨⟨held, tags, watches⟩, ⟨held', tags', watches'⟩⟩
    refine ⟨List.forall_mem_append.mpr ⟨held, held'⟩, ?_, ?_⟩
    · rw [tags_append]
      exact List.forall_mem_append.mpr ⟨tags, tags'⟩
    · rw [allWatches_append]
      exact List.forall_mem_append.mpr ⟨watches, watches'⟩

theorem cons_iff {update : Update} : Idle scene known bound store (update :: rest) ↔
    Idle scene known bound store [update] ∧ Idle scene known bound store rest :=
  @append_iff scene known bound store [update] rest

theorem tag {update : Update} (idle : Idle scene known bound store [update]) :
    Reading.Fresh store (update.tag scene.helpers) bound :=
  idle.tags _ (by rw [Update.tags]; exact List.mem_cons_self)

theorem group {last : Revision} (idle : Idle scene known bound store [.group last updates]) :
    Idle scene known bound store updates := by
  have tag := idle.tag
  obtain ⟨held, tags, watches⟩ := idle
  have held := held _ List.mem_cons_self
  rw [Update.Held] at held
  rw [Update.tag] at tag
  rw [allWatches_group] at watches
  exact ⟨Update.allHeld_iff.mp held.2, tag.member held.2.tell, watches⟩

theorem region {region : Region} (idle : Idle scene known bound store [.region region]) :
    Idle scene known bound store region.content.updates := by
  have tag := idle.tag
  obtain ⟨held, tags, watches⟩ := idle
  obtain ⟨-, held⟩ := region.held_iff.mp (held _ List.mem_cons_self)
  rw [tag_region, Content.tag_eq] at tag
  rw [allWatches_region] at watches
  exact ⟨held, tag.member (Update.allHeld_iff.mpr held).tell, watches⟩

theorem list {list : ListRegion} (idle : Idle scene known bound store [.list list]) :
    Reading.Fresh store (list.keyed.tag scene.helpers) list.last ∧
      Idle scene known bound store (regions list.items) := by
  have tag := idle.tag
  obtain ⟨held, tags, watches⟩ := idle
  obtain ⟨-, keyed, tells, held⟩ := list.held_iff.mp (held _ List.mem_cons_self)
  have held := regions_held.mpr held
  rw [tag_list] at tag
  rw [allWatches_list] at watches
  obtain ⟨own, watches⟩ := List.forall_mem_cons.mp watches
  refine ⟨own, held, ?_, watches⟩
  exact (List.forall_mem_cons.mp (tag.member (List.forall_mem_cons.mpr
    ⟨tells, (Update.allHeld_iff.mpr held).tell⟩))).2

end Update.Idle

/-! Updates without others in them -/

namespace World

variable {world : World} {α β : Type} {last : β → World → Prop}

/-- A reading that leaves the cells alone. -/
theorem staying_reading {reading : Reading α} {next : α → Render β} {value : α} {store : Store}
    (done : reading world.page.store = .ok value store) (leaves : world.page.store.Leaves store)
    (rest : staying.Goes { world with page.store := store } (next value) last) :
    staying.Goes world (liftM reading >>= next) last :=
  .stepped (Render.reading_ok.mpr ⟨store, done, rfl⟩) (.of_leaves leaves) rest

theorem staying_fresh {telling : Reading Tag} {noted : Revision} {next : Tag → Render β}
    (tells : telling.Tells world.page.store) (fresh : telling.Fresh world.page.store noted)
    (rest : ∀ tag store, world.page.store.Leaves store → store.validates tag noted = true →
      staying.Goes { world with page.store := store } (next tag) last) :
    staying.Goes world (liftM telling >>= next) last := by
  obtain ⟨tag, store, told, valid⟩ := fresh
  have leaves := tells.leaves (.refl _) told
  exact staying_reading told leaves (rest tag store leaves valid)

theorem staying_queue {component : Component} {next : Unit → Render β}
    (inside : world.transaction.isSome)
    (rest : ∀ transaction, staying.Goes { world with transaction := some transaction } (next ()) last) :
    staying.Goes world (Render.queue (Transaction.didUpdate component) >>= next) last := by
  obtain ⟨transaction, there⟩ := Option.isSome_iff_exists.mp inside
  have queued : Render.queue (Transaction.didUpdate component) world =
      .ok () { world with transaction := some (transaction.didUpdate component) } := by
    refine (bind_of_ok rfl).trans ?_
    rw [there]
    rfl
  refine .stepped queued ⟨.refl _, rfl, rfl, rfl, rfl, rfl, [component], ?_⟩ (rest _)
  rw [there]
  rfl

theorem staying_attempt {action : Render α} {post : α → World → Prop}
    (goes : staying.Goes world action post) :
    staying.Goes world (Render.attempt action) fun outcome after =>
      ∃ value, outcome = .ok value ∧ post value after := by
  unfold Law.Goes at goes ⊢
  unfold Render.attempt
  revert goes
  cases action world with
  | ok value after => exact fun ⟨inside, quiet, right⟩ => ⟨inside, quiet, value, rfl, right⟩
  | error fault after => exact False.elim

end World

section Caches

variable {helpers : Helpers} {store : Store} {cache : Cache}
  (tells : (cache.tag helpers).Tells store) (fresh : (cache.tag helpers).Fresh store cache.revision)

include tells fresh

theorem Cache.revalidate_fresh :
    ∃ last, cache.revalidate helpers store = .ok (cache, none) last ∧ store.Leaves last := by
  obtain ⟨tag, last, told, valid⟩ := fresh
  refine ⟨last, (bind_of_ok told).trans ?_, tells.leaves (.refl _) told⟩
  refine (bind_of_ok rfl).trans ?_
  rw [if_pos valid]
  rfl

theorem Cache.isStale_fresh :
    ∃ last, cache.isStale helpers store = .ok (cache, false) last ∧ store.Leaves last := by
  obtain ⟨tag, last, told, valid⟩ := fresh
  refine ⟨last, (bind_of_ok told).trans ?_, tells.leaves (.refl _) told⟩
  refine (bind_of_ok rfl).trans ?_
  rw [if_pos valid]
  rfl

end Caches

theorem Scene.Orderly.carryOut_idle {scene : Scene} {known : Reference → Prop}
    (orderly : scene.Orderly known) {bound : Revision} {world : World} {update : Update}
    (leaf : update.IsLeaf) (idle : Update.Idle scene known bound world.page.store [update])
    (inside : world.transaction.isSome) :
    World.staying.Goes world (Refresh.carryOut scene false update)
      fun result _ => result = (update, false) := by
  have held := idle.held update List.mem_cons_self
  have watches := idle.watches
  rw [Update.allWatches, Update.allWatches, List.append_nil] at watches
  cases update with
  | text node cache =>
    rw [Update.Held] at held
    rw [Update.watches] at watches
    obtain ⟨last, done, leaves⟩ := Cache.revalidate_fresh held.watch (watches _ List.mem_cons_self)
    exact World.staying_reading done leaves (.pure inside rfl)
  | raw extent cache =>
    rw [Update.Held] at held
    rw [Update.watches] at watches
    obtain ⟨last, done, leaves⟩ := Cache.revalidate_fresh held.watch (watches _ List.mem_cons_self)
    exact World.staying_reading done leaves (.pure inside rfl)
  | attr element name space cache =>
    rw [Update.Held] at held
    rw [Update.watches] at watches
    obtain ⟨last, done, leaves⟩ := Cache.revalidate_fresh held.watch (watches _ List.mem_cons_self)
    exact World.staying_reading done leaves (.pure inside rfl)
  | assert cache =>
    rw [Update.Held] at held
    rw [Update.watches] at watches
    obtain ⟨last, done, leaves⟩ := Cache.isStale_fresh held.watch (watches _ List.mem_cons_self)
    exact World.staying_reading done leaves (.pure inside rfl)
  | component component invocation last =>
    rw [Update.Held] at held
    rw [Update.watches] at watches
    obtain ⟨tag, store, told, valid⟩ := watches _ List.mem_cons_self
    have leaves := held.2.2.leaves (.refl _) told
    rw [Update.tag] at told
    obtain ⟨own, _, ran, same⟩ := bind_ok.mp told
    obtain ⟨rfl, rfl⟩ := pure_ok.mp same
    refine World.staying_reading ran leaves (.asked rfl ?_)
    rw [if_pos (by simpa using valid)]
    exact .pure inside rfl
  | layout component extent =>
    refine Render.extents_bind ?_
    have leaves := orderly.didUpdateLayout component (world.extents.first? extent)
      (world.extents.last? extent) world.page
    have dom := orderly.didUpdateLayout_dom component (world.extents.first? extent)
      (world.extents.last? extent) world.page
    refine .stepped rfl ⟨leaves, dom, rfl, rfl, rfl, rfl, [], by simp⟩ ?_
    exact World.staying_queue inside fun transaction => .pure rfl rfl
  | modifier modifier invocation last =>
    rw [Update.Held] at held
    rw [Update.watches] at watches
    refine World.staying_fresh held.2 (watches _ List.mem_cons_self) fun tag store leaves valid => ?_
    refine .asked rfl ?_
    rw [if_pos valid]
    exact .pure inside rfl
  | group | region | list => exact leaf.elim

/-! Walks -/

/-- Refreshing an idle update that is not too high does nothing. -/
def Scene.PassesBy (scene : Scene) (known : Reference → Prop) (bound : Revision) (depth : Nat)
    (refresh : Update → Render (Update × Outcome)) : Prop :=
  ∀ (world : World) (update : Update), update.height ≤ depth →
    Update.Idle scene known bound world.page.store [update] → world.transaction.isSome →
    World.staying.Goes world (refresh update) fun result _ =>
      result.2 = .current ∧ result.1.undated = update.undated

namespace Scene.PassesBy

variable {scene : Scene} {known : Reference → Prop} {bound : Revision} {depth : Nat} {world : World}
  {refresh : Update → Render (Update × Outcome)} (quiet : scene.PassesBy known bound depth refresh)

include quiet

theorem goThrough {updates : List Update} (low : Update.allHeight updates ≤ depth)
    (idle : Update.Idle scene known bound world.page.store updates)
    (inside : world.transaction.isSome) :
    World.staying.Goes world (Region.goThrough refresh updates) fun result _ =>
      result.2 = .current ∧ Update.allUndated result.1 = Update.allUndated updates := by
  induction updates generalizing world with
  | nil => exact .pure inside ⟨rfl, rfl⟩
  | cons update rest ih =>
    rw [Update.allHeight, Nat.max_le] at low
    obtain ⟨first, others⟩ := Update.Idle.cons_iff.mp idle
    refine .bind (quiet world update low.1 first inside) fun result between inside same found => ?_
    obtain ⟨update', outcome⟩ := result
    obtain ⟨rfl, undated⟩ := found
    refine .bind (ih low.2 (others.leave same.leaves) inside) fun result after inside _ found' => ?_
    refine .pure inside ⟨found'.1, ?_⟩
    rw [Update.allUndated, Update.allUndated, undated, found'.2]

theorem refresh_region {region : Region} (low : region.content.height ≤ depth)
    (idle : Update.Idle scene known bound world.page.store [.region region])
    (inside : world.transaction.isSome) :
    World.staying.Goes world (region.refresh scene refresh) fun result _ =>
      result.2 = none ∧ result.1.undated = region.undated := by
  obtain ⟨slice, captured, extent, updates, scopes, owned⟩ := region
  rw [Content.height] at low
  refine .bind (quiet.goThrough low idle.region inside) fun result between inside _ found => ?_
  obtain ⟨updates', outcome⟩ := result
  obtain ⟨rfl, undated⟩ := found
  refine .pure inside ⟨rfl, ?_⟩
  rw [Region.undated, Region.undated, Content.undated, Content.undated, undated]

theorem refreshItems {items : List (Key × Region)} (low : Update.itemsHeight items ≤ depth)
    (idle : Update.Idle scene known bound world.page.store (Update.regions items))
    (inside : world.transaction.isSome) :
    World.staying.Goes world (ListRegion.refreshItems (Region.refresh scene refresh) items)
      fun result _ => result.2 = .current ∧
        Update.itemsUndated result.1 = Update.itemsUndated items := by
  induction items generalizing world with
  | nil => exact .pure inside ⟨rfl, rfl⟩
  | cons item rest ih =>
    obtain ⟨key, region⟩ := item
    rw [Update.itemsHeight_cons, Nat.max_le] at low
    obtain ⟨first, others⟩ := Update.Idle.cons_iff.mp idle
    refine .bind (quiet.refresh_region low.1 first inside) fun result between inside same found => ?_
    obtain ⟨region', failure⟩ := result
    obtain ⟨rfl, undated⟩ := found
    refine .bind (ih low.2 (others.leave same.leaves) inside) fun result after inside _ found' => ?_
    refine .pure inside ⟨found'.1, ?_⟩
    rw [Update.itemsUndated_cons, Update.itemsUndated_cons, undated, found'.2]

theorem refresh_list {list : ListRegion} (low : Update.itemsHeight list.items ≤ depth)
    (idle : Update.Idle scene known bound world.page.store [.list list])
    (inside : world.transaction.isSome) :
    World.staying.Goes world (list.refresh scene false refresh) fun result _ =>
      result.2 = .current ∧ result.1.undated = list.undated := by
  obtain ⟨-, -, tells, -⟩ := list.held_iff.mp (idle.held _ List.mem_cons_self)
  obtain ⟨own, items⟩ := idle.list
  refine .through (fun result _ => result = (list, .current)) ?_ ?_
  · unfold ListRegion.resync
    extract_lets rest
    refine World.staying_fresh tells own fun tag store leaves valid => .asked rfl ?_
    rw [valid]
    exact .pure inside rfl
  · rintro _ between inside same rfl
    refine .bind (quiet.refreshItems low (items.leave same.leaves) inside)
      fun result after inside _ found => .pure inside ⟨found.1, ?_⟩
    rw [ListRegion.undated, ListRegion.undated, found.2]

end Scene.PassesBy

/-- A walk through what is idle does nothing. -/
theorem Scene.Orderly.passesBy {scene : Scene} {known : Reference → Prop}
    (orderly : scene.Orderly known) (bound : Revision) (depth : Nat) :
    scene.PassesBy known bound depth (Refresh.update scene false depth) := by
  induction depth with
  | zero =>
    intro world update low
    exact absurd low (Nat.not_le.mpr update.height_pos)
  | succ depth ih =>
    intro world update low idle inside
    have leaf : update.IsLeaf → World.staying.Goes world (Refresh.update scene false (depth + 1) update)
        fun result _ => result.2 = .current ∧ result.1.undated = update.undated := by
      intro leaf
      rw [Refresh.update_leaf leaf]
      refine .bind (World.staying_attempt (orderly.carryOut_idle leaf idle inside))
        fun outcome after inside _ carried => ?_
      obtain ⟨_, rfl, rfl⟩ := carried
      exact .pure inside ⟨rfl, rfl⟩
    cases update with
    | group last members =>
      rw [Update.height, Nat.add_le_add_iff_right] at low
      have held := idle.held _ List.mem_cons_self
      rw [Update.Held] at held
      have tag := idle.tag
      rw [Update.tag] at tag
      refine World.staying_fresh (.combineM held.2.tell) tag fun tag store leaves _ => .asked rfl ?_
      split
      · exact .pure inside ⟨rfl, rfl⟩
      · refine .asked rfl (.bind (ih.goThrough low (idle.group.leave leaves) inside)
          fun result after inside _ found => ?_)
        obtain ⟨members', outcome⟩ := result
        obtain ⟨rfl, undated⟩ := found
        refine .pure inside ⟨rfl, ?_⟩
        rw [Update.undated, Update.undated, undated]
    | region region =>
      rw [Update.height_region, Nat.add_le_add_iff_right] at low
      refine .bind (ih.refresh_region low idle inside) fun result after inside _ found => ?_
      obtain ⟨region', failure⟩ := result
      obtain ⟨rfl, undated⟩ := found
      refine .pure inside ⟨rfl, ?_⟩
      rw [Update.undated_region, Update.undated_region, undated]
    | list list =>
      rw [Update.height_list, Nat.add_le_add_iff_right] at low
      refine .bind (ih.refresh_list low idle inside) fun result after inside _ found => ?_
      refine .pure inside ⟨found.1, ?_⟩
      rw [Update.undated_list, Update.undated_list, found.2]
    | text | raw | attr | assert | component | layout | modifier => exact leaf trivial

end LiveTemplate
