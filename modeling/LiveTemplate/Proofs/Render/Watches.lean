import LiveTemplate.Proofs.Reactive.Obedience
import LiveTemplate.Proofs.Render.Groups
import LiveTemplate.Proofs.Render.Supplied

/-!
What the updates of rendered output watch. A host is faithful if its references obey their tags, and
if bringing a component up to date changes none. It is orderly if nothing else that it does while a
page is rendered changes a reference either. All that is rendered for an orderly host watches tags of
which everything up to now is noted.
-/

namespace LiveTemplate

open Effects

/-- References of some kind over what there is. What is watched is calm up to now. -/
def Stock.watching (scene : Scene) (known : Reference → Prop) : Stock where
  later := Store.Leaves
  refl := .refl
  trans := .trans
  reference store reference := known reference ∧ reference.Over store
  tag store tag := ∀ id ∈ tag.cells, id < store.cells.size
  tells store telling := telling.Tells store
  watch store telling noted := telling.Tells store ∧
    Reading.Calm store telling noted (.tick store.clock)
  since store revision := revision.le (.tick store.clock) = true
  block _ := True
  included _ := True
  layout _ := True
  maker name manager := scene.host.registry.component? name = some manager

/-- The outcome of what the host does on a page, and what becomes of the store however it ends. -/
def Page.Outcome {α : Type} (moves : Store → Store → Prop) (action : EStateM Fault Page α)
    (page : Page) (good : α → Page → Prop) : Prop :=
  match action page with
  | .ok result after => moves page.store after.store ∧ good result after
  | .error _ after => moves page.store after.store

namespace Page.Outcome

variable {α : Type} {page : Page} {action : EStateM Fault Page α} {good : α → Page → Prop}

theorem goes {scene : Scene} {known : Reference → Prop} {start : Store}
    (outcome : page.Outcome Store.Leaves action good) (leaves : start.Leaves page.store) :
    ((Stock.watching scene known).pages start).Goes page action good := by
  unfold Page.Outcome at outcome
  unfold Law.Goes
  revert outcome
  cases action page with
  | ok result after => exact fun outcome => ⟨leaves.trans outcome.1, outcome.1, outcome.2⟩
  | error fault after => exact fun outcome => leaves.trans outcome

theorem mono {early late : Store → Store → Prop} {other : α → Page → Prop}
    (outcome : page.Outcome early action good) (moves : ∀ {before after}, early before after →
      late before after) (weaker : ∀ result after, good result after → other result after) :
    page.Outcome late action other := by
  unfold Page.Outcome at outcome ⊢
  revert outcome
  cases action page with
  | ok result after => exact fun outcome => ⟨moves outcome.1, weaker result after outcome.2⟩
  | error fault after => exact moves

theorem both {early late : Store → Store → Prop} {other : α → Page → Prop}
    (first : page.Outcome early action good) (second : page.Outcome late action other) :
    page.Outcome late action good := by
  unfold Page.Outcome at first second ⊢
  revert first second
  cases action page with
  | ok result after => exact fun first second => ⟨second.1, first.2⟩
  | error fault after => exact fun _ second => second

end Page.Outcome

/-- All references of a host are of some kind that obeys its tags. -/
structure Scene.Obedient (scene : Scene) (known : Reference → Prop) : Prop where
  obeys : ∀ reference, known reference → reference.Obeys scene.helpers
  names : ∀ reference, known reference → ∀ name ∈ reference.names, name.Obeys scene.helpers
  const : ∀ value, known (.const value)
  cell : ∀ id, known (.cell id)
  property : ∀ parent key, known parent → known (.property parent key)
  concat : ∀ parts, (∀ part ∈ parts, known part) → known (.concat parts)
  condition : ∀ inner holds, holds = Value.truthy ∨ holds = scene.host.holds → known inner →
    known (.condition inner holds)
  presence : ∀ list source keyFor, known source → known (.presence list source keyFor)
  helper : ∀ name positional named, (∀ part ∈ positional, known part) →
    (∀ entry ∈ named, known entry.2) → known (.helper name positional named)
  dynamicVar : ∀ ambient name, (∀ entry ∈ ambient, known entry.2) → known name →
    known (.dynamicVar ambient name)
  iterable : ∀ source key iterable, known source → scene.host.iterable source key = .ok iterable →
    known iterable.source ∧ ∀ store, source.Over store → iterable.source.Over store

/-- An obedient host that changes no reference when it brings a component up to date. Whatever else it
does may change them, as long as the change is stamped. -/
structure Scene.Faithful (scene : Scene) (known : Reference → Prop) : Prop
    extends scene.Obedient known where
  create : ∀ name manager, scene.host.registry.component? name = some manager →
    ∀ (page : Page) (invocation : Invocation) (ambient : Variables),
    invocation.Held (.watching scene known) page.store →
    Variables.Held (.watching scene known) page.store ambient →
    page.Outcome Store.Leads (manager.create name invocation ambient) fun made after =>
      (known made.1 ∧ made.1.Over after.store) ∧ ∀ id ∈ made.2.cells, id < after.store.cells.size
  modifier : ∀ name manager, scene.host.registry.modifier? name = some manager →
    ∀ modifier (page : Page), page.Outcome Store.Leads (manager.create modifier) fun _ _ => True
  didCreateElement : ∀ component element (page : Page), page.store.Leads
    (((Running.managerOf scene component).didCreateElement component element).run page).2.store
  didRenderLayout : ∀ component first last (page : Page), page.store.Leads
    (((Running.managerOf scene component).didRenderLayout component first last).run page).2.store
  update : ∀ component invocation (page : Page), page.Outcome Store.Leaves
    ((Running.managerOf scene component).update component invocation) fun _ _ => True
  didUpdateLayout : ∀ component first last (page : Page), page.store.Leaves
    (((Running.managerOf scene component).didUpdateLayout component first last).run page).2.store
  committed : ∀ (transaction : Transaction) (page : Page), page.store.Leads
    ((transaction.run scene.host.registry.hooks).run page).2.store

/-- A faithful host that changes no reference while a page is rendered, and draws nothing of its own
when it is told that the output of a component was brought up to date. What it does when a
transaction is committed is up to it. -/
structure Scene.Orderly (scene : Scene) (known : Reference → Prop) : Prop
    extends scene.Faithful known where
  create_leaves : ∀ name manager, scene.host.registry.component? name = some manager →
    ∀ (page : Page) (invocation : Invocation) (ambient : Variables),
    invocation.Held (.watching scene known) page.store →
    Variables.Held (.watching scene known) page.store ambient →
    page.Outcome Store.Leaves (manager.create name invocation ambient) fun _ _ => True
  modifier_leaves : ∀ name manager, scene.host.registry.modifier? name = some manager →
    ∀ modifier (page : Page), page.Outcome Store.Leaves (manager.create modifier) fun _ _ => True
  didCreateElement_leaves : ∀ component element (page : Page), page.store.Leaves
    (((Running.managerOf scene component).didCreateElement component element).run page).2.store
  didRenderLayout_leaves : ∀ component first last (page : Page), page.store.Leaves
    (((Running.managerOf scene component).didRenderLayout component first last).run page).2.store
  didUpdateLayout_dom : ∀ component first last (page : Page),
    (((Running.managerOf scene component).didUpdateLayout component first last).run page).2.dom =
      page.dom

namespace Scene.Orderly

variable {scene : Scene} {known : Reference → Prop} (orderly : scene.Orderly known)

include orderly

theorem tells {store : Store} {reference : Reference} (good : known reference)
    (rests : reference.Over store) : (reference.tag scene.helpers).Tells store :=
  reference.tag_tells rests (orderly.names reference good)

theorem sound : (Stock.watching scene known).Sound scene where
  lasts := fun leaves => {
    reference := fun reference held => ⟨held.1, held.2.within leaves.toWithin⟩
    tag := fun tag held id member => Nat.lt_of_lt_of_le (held id member) leaves.cells
    watch := fun tag noted held => ⟨held.1.last leaves.toWithin, by
      have calm := held.2.lead (.of_leaves leaves)
      rwa [← leaves.clock] at calm⟩
    since := fun revision held => by
      change revision.le _ = true at held
      rwa [← leaves.clock] at held
    block := fun _ => id
    included := fun _ => id
    layout := fun _ => id
    maker := fun _ _ => id }
  closed := {
    const := fun value => ⟨orderly.const value, by simp [Reference.Over, Reference.sources]⟩
    property := fun key held => ⟨orderly.property _ key held.1, held.2⟩
    concat := fun held => ⟨orderly.concat _ fun part member => (held part member).1,
      Reference.over_all fun part member => (held part member).2⟩
    condition := fun which held => ⟨orderly.condition _ _ which held.1, held.2⟩
    helper := fun name places names => ⟨orderly.helper name _ _
        (fun part member => (places part member).1) fun entry member => (names entry member).1,
      (Reference.over_all fun part member => (places part member).2).append
        (Reference.over_named fun entry member => (names entry member).2)⟩
    dynamicVar := fun visible held => ⟨orderly.dynamicVar _ _
        (fun entry member => (visible entry member).1) held.1,
      Reference.Origin.Exist.append held.2
        (Reference.over_named fun entry member => (visible entry member).2)⟩
    maker := id }
  reads := fun leaves held => ((orderly.obeys _ held.1).quiet held.2).since leaves
  follows := fun leaves held =>
    ((held.quiet (.refl _)).mono fun _ _ _ _ _ => trivial).since leaves
  tells := fun held => orderly.tells held.1 held.2
  tellsAll := fun held => .combineM held
  tellsBoth := fun held good => held.both (.pure good)
  watches := fun held told => ⟨held.last (held.leaves (.refl _) told).toWithin, by
    have calm := Reading.Calm.of_noted held told
    rwa [← (held.leaves (.refl _) told).clock] at calm⟩
  watchesNow := fun held => ⟨held, .inl (Revision.le_refl _)⟩
  constant := fun store => Revision.constant_le _
  now := fun store => Revision.le_refl _
  newList := fun store => .newList store
  setList := fun store => .setList store
  newCell := fun store => .newCell store
  cell := fun bound => ⟨orderly.cell _, by simpa [Reference.Over, Reference.sources] using bound⟩
  presence := fun keyFor held bound => ⟨orderly.presence _ _ keyFor held.1,
    have listed : Reference.Origin.Exist [.list _] _ := ⟨by simp, by simpa using bound⟩
    listed.append held.2⟩
  iterable := fun held found =>
    let given := orderly.iterable _ _ _ held.1 found
    ⟨given.1, given.2 _ held.2⟩
  component := fun leaves made given visible =>
    ((orderly.create _ _ made _ _ _ given visible).both
      (orderly.create_leaves _ _ made _ _ _ given visible)).goes leaves
  modifier := fun leaves found _ => (orderly.modifier_leaves _ _ found _ _).goes leaves
  didCreateElement := orderly.didCreateElement_leaves
  didRenderLayout := orderly.didRenderLayout_leaves

end Scene.Orderly

/-! Between two passes -/

/-- The same kind of references, whatever may have changed since they were watched. -/
def Stock.kept (scene : Scene) (known : Reference → Prop) : Stock :=
  { Stock.watching scene known with
    later := Store.Leads
    refl := .refl
    trans := .trans
    watch := fun store telling _ => telling.Tells store }

variable {scene : Scene} {known : Reference → Prop} {store after : Store}

theorem Store.Leaves.yields (leaves : store.Leaves after) :
    (Stock.watching scene known).Yields (.kept scene known) store after where
  reference := fun reference held => ⟨held.1, held.2.within leaves.toWithin⟩
  tag := fun tag held id member => Nat.lt_of_lt_of_le (held id member) leaves.cells
  watch := fun tag noted held => held.1.last leaves.toWithin
  since := fun revision held => by
    change revision.le _ = true at held
    rwa [← leaves.clock] at held
  block := fun _ => id
  included := fun _ => id
  layout := fun _ => id
  maker := fun _ _ => id

theorem Stock.kept_gives (store : Store) :
    (Stock.kept scene known).Gives (.watching scene known) store store where
  reference := fun _ => id
  block := fun _ => id
  included := fun _ => id
  layout := fun _ => id
  maker := fun _ _ => id

theorem Store.Leads.lasts (leads : store.Leads after) :
    (Stock.kept scene known).Lasts store after where
  reference := fun _ held => ⟨held.1, held.2.within leads.toWithin⟩
  tag := fun _ held id member => Nat.lt_of_lt_of_le (held id member) leads.cells
  watch := fun _ _ held => Reading.Tells.last held leads.toWithin
  since := fun _ held => Revision.le_trans held leads.tick_le
  block := fun _ => id
  included := fun _ => id
  layout := fun _ => id
  maker := fun _ _ => id

/-! The tags of updates -/

mutual

/-- The tags of all updates that are held can be watched. -/
theorem Content.Held.tells : ∀ {content : Content},
    content.Held (.kept scene known) store scene.helpers → (content.tag scene.helpers).Tells store
  | ⟨_, _, _⟩, held => by
    rw [Content.Held] at held
    rw [Content.tag]
    exact .combineM (Update.AllHeld.tell held)

theorem Update.Held.tells : ∀ {update : Update},
    update.Held (.kept scene known) store scene.helpers → (update.tag scene.helpers).Tells store
  | .text .., held | .raw .., held | .attr .., held | .assert _, held => by
    rw [Update.Held] at held
    rw [Update.tag]
    exact held.watch
  | .component .., held => by
    rw [Update.Held] at held
    exact held.2.2
  | .layout .., _ => by
    rw [Update.tag]
    exact .pure (by simp [Tag.cells])
  | .modifier .., held => by
    rw [Update.Held] at held
    rw [Update.tag]
    exact held.2
  | .group .., held => by
    rw [Update.Held] at held
    rw [Update.tag]
    exact .combineM (Update.AllHeld.tell held.2)
  | .region ⟨_, _, _, _⟩, held => by
    rw [Update.Held] at held
    rw [Update.tag]
    exact Content.Held.tells held.2
  | .list ⟨_, _, _, _, _, _⟩, held => by
    rw [Update.Held] at held
    rw [Update.tag]
    exact .combineM (List.forall_mem_cons.mpr ⟨held.2.2.1, Update.ItemsHeld.tell held.2.2.2⟩)

theorem Update.AllHeld.tell : ∀ {updates : List Update},
    Update.AllHeld (.kept scene known) store scene.helpers updates →
    ∀ telling ∈ Update.tags scene.helpers updates, telling.Tells store
  | [], _ => by simp [Update.tags]
  | _ :: _, held => by
    rw [Update.AllHeld] at held
    rw [Update.tags]
    exact List.forall_mem_cons.mpr ⟨Update.Held.tells held.1, Update.AllHeld.tell held.2⟩

theorem Update.ItemsHeld.tell : ∀ {items : List (Key × Region)},
    Update.ItemsHeld (.kept scene known) store scene.helpers items →
    ∀ telling ∈ Update.itemTags scene.helpers items, telling.Tells store
  | [], _ => by simp [Update.itemTags]
  | (_, ⟨_, _, _, _⟩) :: _, held => by
    rw [Update.ItemsHeld] at held
    rw [Update.itemTags]
    exact List.forall_mem_cons.mpr
      ⟨Content.Held.tells held.1.2, Update.ItemsHeld.tell held.2⟩

end

section Fresh

variable {bound : Revision}

mutual

/-- If the tag of updates validates, so does all that they watch. -/
theorem Content.Held.fresh : ∀ {content : Content},
    content.Held (.kept scene known) store scene.helpers →
    Reading.Fresh store (content.tag scene.helpers) bound →
    ∀ watch ∈ content.watches scene.helpers, Reading.Fresh store watch.1 bound
  | ⟨_, _, _⟩, held, fresh => by
    rw [Content.Held] at held
    rw [Content.tag] at fresh
    rw [Content.watches]
    exact Update.AllHeld.fresh held (fresh.member (Update.AllHeld.tell held))

theorem Update.Held.fresh : ∀ {update : Update},
    update.Held (.kept scene known) store scene.helpers →
    Reading.Fresh store (update.tag scene.helpers) bound →
    ∀ watch ∈ update.watches scene.helpers, Reading.Fresh store watch.1 bound
  | .text .., _, fresh | .raw .., _, fresh | .attr .., _, fresh | .assert _, _, fresh
  | .modifier .., _, fresh => by
    rw [Update.tag] at fresh
    rw [Update.watches]
    exact List.forall_mem_singleton.mpr fresh
  | .component .., _, fresh => by
    rw [Update.watches]
    exact List.forall_mem_singleton.mpr fresh
  | .layout .., _, _ => by
    rw [Update.watches]
    exact nofun
  | .group .., held, fresh => by
    rw [Update.Held] at held
    rw [Update.tag] at fresh
    rw [Update.watches]
    exact Update.AllHeld.fresh held.2 (fresh.member (Update.AllHeld.tell held.2))
  | .region ⟨_, _, _, _⟩, held, fresh => by
    rw [Update.Held] at held
    rw [Update.tag] at fresh
    rw [Update.watches]
    exact Content.Held.fresh held.2 fresh
  | .list ⟨_, _, _, _, _, _⟩, held, fresh => by
    rw [Update.Held] at held
    rw [Update.tag] at fresh
    rw [Update.watches]
    obtain ⟨own, items⟩ := List.forall_mem_cons.mp (fresh.member
      (List.forall_mem_cons.mpr ⟨held.2.2.1, Update.ItemsHeld.tell held.2.2.2⟩))
    exact List.forall_mem_cons.mpr ⟨own, Update.ItemsHeld.fresh held.2.2.2 items⟩

theorem Update.AllHeld.fresh : ∀ {updates : List Update},
    Update.AllHeld (.kept scene known) store scene.helpers updates →
    (∀ telling ∈ Update.tags scene.helpers updates, Reading.Fresh store telling bound) →
    ∀ watch ∈ Update.allWatches scene.helpers updates, Reading.Fresh store watch.1 bound
  | [], _, _ => nofun
  | _ :: _, held, fresh => by
    rw [Update.AllHeld] at held
    rw [Update.tags] at fresh
    rw [Update.allWatches]
    obtain ⟨first, rest⟩ := List.forall_mem_cons.mp fresh
    exact List.forall_mem_append.mpr
      ⟨Update.Held.fresh held.1 first, Update.AllHeld.fresh held.2 rest⟩

theorem Update.ItemsHeld.fresh : ∀ {items : List (Key × Region)},
    Update.ItemsHeld (.kept scene known) store scene.helpers items →
    (∀ telling ∈ Update.itemTags scene.helpers items, Reading.Fresh store telling bound) →
    ∀ watch ∈ Update.itemWatches scene.helpers items, Reading.Fresh store watch.1 bound
  | [], _, _ => nofun
  | (_, ⟨_, _, _, _⟩) :: _, held, fresh => by
    rw [Update.ItemsHeld] at held
    rw [Update.itemTags] at fresh
    rw [Update.itemWatches]
    obtain ⟨first, rest⟩ := List.forall_mem_cons.mp fresh
    exact List.forall_mem_append.mpr
      ⟨Content.Held.fresh held.1.2 first, Update.ItemsHeld.fresh held.2 rest⟩

end

end Fresh

/-- What stands between two passes: the references are known, and what the members of a group watch
is calm up to the revision of the group. -/
structure Update.Stand (scene : Scene) (known : Reference → Prop) (store : Store)
    (updates : List Update) : Prop where
  held : ∀ update ∈ updates, update.Held (.kept scene known) store scene.helpers
  settled : ∀ group ∈ Update.allGroups updates,
    ∀ watch ∈ Update.allWatches scene.helpers group.2,
      Reading.Calm store watch.1 watch.2 group.1

/-- All that the updates watch is calm up to some revision. -/
def Update.AllCalm (scene : Scene) (store : Store) (updates : List Update) (bound : Revision) :
    Prop :=
  ∀ watch ∈ Update.allWatches scene.helpers updates, Reading.Calm store watch.1 watch.2 bound

namespace Update

variable {updates rest : List Update} {bound lower : Revision}

theorem AllCalm.lead (calm : AllCalm scene store updates bound) (leads : store.Leads after) :
    AllCalm scene after updates bound :=
  fun watch inside => (calm watch inside).lead leads

theorem AllCalm.mono (calm : AllCalm scene store updates bound) (below : lower.le bound = true) :
    AllCalm scene store updates lower :=
  fun watch inside => (calm watch inside).mono below

theorem allCalm_append : AllCalm scene store (updates ++ rest) bound ↔
    AllCalm scene store updates bound ∧ AllCalm scene store rest bound := by
  simp only [AllCalm, allWatches_append, List.forall_mem_append]

theorem allCalm_iff : AllCalm scene store updates bound ↔
    ∀ update ∈ updates, AllCalm scene store [update] bound := by
  simp only [AllCalm, mem_allWatches, List.mem_singleton, exists_eq_left]
  exact ⟨fun calm update among watch inside => calm watch ⟨update, among, inside⟩,
    fun calm watch ⟨update, among, inside⟩ => calm update among watch inside⟩

theorem allCalm_group {last : Revision} :
    AllCalm scene store [.group last updates] bound ↔ AllCalm scene store updates bound := by
  rw [AllCalm, AllCalm, allWatches_group]

theorem allCalm_region {region : Region} :
    AllCalm scene store [.region region] bound ↔
      AllCalm scene store region.content.updates bound := by
  rw [AllCalm, AllCalm, allWatches_region]

theorem allCalm_list {list : ListRegion} :
    AllCalm scene store [.list list] bound ↔
      Reading.Calm store (list.keyed.tag scene.helpers) list.last bound ∧
        AllCalm scene store (regions list.items) bound := by
  rw [AllCalm, AllCalm, allWatches_list, List.forall_mem_cons]

/-- If the tag of a group validates, so does all that its members watch. -/
theorem AllCalm.fresh {last : Revision} (calm : AllCalm scene store updates last)
    (held : AllHeld (.kept scene known) store scene.helpers updates)
    (fresh : Reading.Fresh store (Tag.combineM (tags scene.helpers updates)) last) :
    ∀ watch ∈ allWatches scene.helpers updates, Reading.Fresh store watch.1 watch.2 :=
  fun watch inside => (held.fresh (fresh.member held.tell) watch inside).of_calm
    (held.watched watch inside) (calm watch inside)

namespace Stand

theorem lead (stand : Stand scene known store updates) (leads : store.Leads after) :
    Stand scene known after updates where
  held := fun update member => (stand.held update member).last leads.lasts
  settled := fun group member watch inside => (stand.settled group member watch inside).lead leads

theorem nil : Stand scene known store [] := ⟨nofun, nofun⟩

theorem append_iff : Stand scene known store (updates ++ rest) ↔
    Stand scene known store updates ∧ Stand scene known store rest := by
  constructor
  · rintro ⟨held, settled⟩
    rw [allGroups_append] at settled
    obtain ⟨first, second⟩ := List.forall_mem_append.mp held
    obtain ⟨third, fourth⟩ := List.forall_mem_append.mp settled
    exact ⟨⟨first, third⟩, ⟨second, fourth⟩⟩
  · rintro ⟨first, second⟩
    refine ⟨List.forall_mem_append.mpr ⟨first.held, second.held⟩, ?_⟩
    rw [allGroups_append]
    exact List.forall_mem_append.mpr ⟨first.settled, second.settled⟩

theorem cons_iff {update : Update} : Stand scene known store (update :: rest) ↔
    Stand scene known store [update] ∧ Stand scene known store rest :=
  @append_iff scene known store [update] rest

theorem forall_iff : Stand scene known store updates ↔
    ∀ update ∈ updates, Stand scene known store [update] := by
  induction updates with
  | nil => exact ⟨fun _ => nofun, fun _ => nil⟩
  | cons update updates ih => rw [cons_iff, ih, List.forall_mem_cons]

theorem group_iff {last : Revision} : Stand scene known store [.group last updates] ↔
    last.le (.tick store.clock) = true ∧ Stand scene known store updates ∧
      AllCalm scene store updates last := by
  constructor
  · rintro ⟨held, settled⟩
    have held := held _ List.mem_cons_self
    rw [Update.Held] at held
    rw [allGroups_group] at settled
    obtain ⟨own, settled⟩ := List.forall_mem_cons.mp settled
    exact ⟨held.1, ⟨Update.allHeld_iff.mp held.2, settled⟩, own⟩
  · rintro ⟨since, stand, own⟩
    refine ⟨List.forall_mem_singleton.mpr ?_, ?_⟩
    · rw [Update.Held]
      exact ⟨since, Update.allHeld_iff.mpr stand.held⟩
    · rw [allGroups_group]
      exact List.forall_mem_cons.mpr ⟨own, stand.settled⟩

theorem region_iff {region : Region} : Stand scene known store [.region region] ↔
    region.captured.Held (.kept scene known) store ∧
      Stand scene known store region.content.updates := by
  constructor
  · rintro ⟨each, settled⟩
    rw [allGroups_region] at settled
    obtain ⟨captured, each⟩ := region.held_iff.mp (each _ List.mem_cons_self)
    exact ⟨captured, each, settled⟩
  · rintro ⟨captured, each, settled⟩
    refine ⟨List.forall_mem_singleton.mpr (region.held_iff.mpr ⟨captured, each⟩), ?_⟩
    rwa [allGroups_region]

theorem list_iff {list : ListRegion} : Stand scene known store [.list list] ↔
    list.captured.Held (.kept scene known) store ∧ list.keyed.Held (.kept scene known) store ∧
      (list.keyed.tag scene.helpers).Tells store ∧
      Stand scene known store (regions list.items) := by
  constructor
  · rintro ⟨each, settled⟩
    rw [allGroups_list] at settled
    obtain ⟨captured, keyed, tells, each⟩ :=
      (ListRegion.held_iff list).mp (each _ List.mem_cons_self)
    exact ⟨captured, keyed, tells, regions_held.mpr each, settled⟩
  · rintro ⟨captured, keyed, tells, each, settled⟩
    refine ⟨List.forall_mem_singleton.mpr
      ((ListRegion.held_iff list).mpr ⟨captured, keyed, tells, regions_held.mp each⟩), ?_⟩
    rwa [allGroups_list]

/-- What was rendered a moment ago is calm up to now. -/
theorem of_rendered {content : Content}
    (held : content.Held (.watching scene known) store scene.helpers) :
    Stand scene known store content.updates ∧
      Update.AllCalm scene store content.updates (.tick store.clock) := by
  have each := Content.held_iff.mp held
  have calm : ∀ {members : List Update},
      Update.AllHeld (.watching scene known) store scene.helpers members →
      Update.AllCalm scene store members (.tick store.clock) :=
    fun held watch inside => (held.watched watch inside).2
  refine ⟨⟨fun update member => (each update member).last (Store.Leaves.refl store).yields,
    fun group member watch inside => ?_⟩, calm (Update.allHeld_iff.mpr each)⟩
  rw [← Content.groups_eq] at member
  obtain ⟨since, members⟩ := held.grouped group member
  exact (calm members watch inside).mono since

end Stand

end Update

end LiveTemplate
