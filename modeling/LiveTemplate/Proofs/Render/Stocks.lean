import LiveTemplate.Proofs.Render.Routine
import LiveTemplate.Proofs.Render.Shedding

/-!
A run holds nothing but what is in stock. What the machine is given is in stock to begin with, and
whatever it builds, reads or is handed by the host is in stock as well, if the host keeps to it.
-/

namespace LiveTemplate

open Effects

/-- Whatever is read leaves a later store, however the reading ends. -/
def Stock.readings (stock : Stock) (start : Store) : Law Store where
  holds := stock.later start
  moves := stock.later
  ends _ := stock.later start
  refl := stock.refl
  trans := stock.trans

def Stock.pages (stock : Stock) (start : Store) : Law Page where
  holds page := stock.later start page.store
  moves before after := stock.later before.store after.store
  ends _ page := stock.later start page.store
  refl _ := stock.refl _
  trans := stock.trans

/-- What is built and read of things in stock, and what the host makes of them, is in stock. -/
structure Stock.Sound (scene : Scene) (stock : Stock) : Prop where
  lasts : ∀ {before after}, stock.later before after → stock.Lasts before after
  closed : stock.Closed scene.host
  reads : ∀ {start store reference}, stock.later start store → stock.reference store reference →
    (stock.readings start).Goes store (reference.read scene.helpers) fun _ _ => True
  follows : ∀ {start store telling}, stock.later start store → stock.tells store telling →
    (stock.readings start).Goes store telling fun _ _ => True
  tells : ∀ {store reference}, stock.reference store reference →
    stock.tells store (reference.tag scene.helpers)
  tellsAll : ∀ {store tellings}, (∀ telling ∈ tellings, stock.tells store telling) →
    stock.tells store (Tag.combineM tellings)
  tellsBoth : ∀ {store telling tag}, stock.tells store telling → stock.tag store tag →
    stock.tells store (do return Tag.combine [← telling, tag])
  watches : ∀ {store telling tag after}, stock.tells store telling →
    telling store = .ok tag after → stock.watch after telling (after.revisionOf tag)
  watchesNow : ∀ {store telling}, stock.tells store telling →
    stock.watch store telling (.tick store.clock)
  constant : ∀ store, stock.since store .constant
  now : ∀ store, stock.since store (.tick store.clock)
  newList : ∀ store : Store, stock.later store { store with lists := store.lists.push {} }
  setList : ∀ (store : Store) list artifacts,
    stock.later store { store with lists := store.lists.setIfInBounds list artifacts }
  newCell : ∀ (store : Store) value,
    stock.later store { store with cells := store.cells.push ⟨value, store.clock⟩ }
  cell : ∀ {store : Store} {id}, id < store.cells.size → stock.reference store (.cell id)
  presence : ∀ {store source list} keyFor, stock.reference store source →
    list < store.lists.size → stock.reference store (.presence list source keyFor)
  iterable : ∀ {store source key iterable}, stock.reference store source →
    scene.host.iterable source key = .ok iterable → stock.reference store iterable.source
  component : ∀ {start page name manager invocation ambient}, stock.later start page.store →
    stock.maker name manager →
    invocation.Held stock page.store → Variables.Held stock page.store ambient →
    (stock.pages start).Goes page (manager.create name invocation ambient) fun made page =>
      stock.reference page.store made.1 ∧ stock.tag page.store made.2
  modifier : ∀ {start page manager modifier}, stock.later start page.store →
    scene.host.registry.modifier? modifier.name = some manager →
    modifier.invocation.Held stock page.store →
    (stock.pages start).Goes page (manager.create modifier) fun _ _ => True
  didCreateElement : ∀ component element (page : Page),
    stock.later page.store
      (((Running.managerOf scene component).didCreateElement component element).run page).2.store
  didRenderLayout : ∀ component first last (page : Page),
    stock.later page.store
      (((Running.managerOf scene component).didRenderLayout component first last).run page).2.store

/-- All that the machine holds is in stock. -/
structure Machine.Held (scene : Scene) (stock : Stock) (start : Store) (machine : Machine) :
    Prop where
  later : stock.later start machine.store
  frames : ∀ frame ∈ machine.frames, frame.Held stock machine.store
  operands : ∀ operand ∈ machine.operands, operand.Held stock machine.store
  scopes : machine.world.scopes.Held stock machine.store
  builders : ∀ builder ∈ machine.builders, builder.Held stock machine.store scene.helpers

/-- A run holds what is in stock, and leaves a later store however it ends. -/
def Stock.law (scene : Scene) (stock : Stock) (start : Store) : Law Machine where
  holds := Machine.Held scene stock start
  moves before after := stock.later before.store after.store
  ends _ machine := stock.later start machine.store ∧
    machine.world.scopes.Held stock machine.store
  refl _ := stock.refl _
  trans := stock.trans

theorem Machine.Held.ends {scene : Scene} {stock : Stock} {start : Store} {machine : Machine}
    (held : machine.Held scene stock start) :
    stock.later start machine.store ∧ machine.world.scopes.Held stock machine.store :=
  ⟨held.later, held.scopes⟩

namespace Stock.Sound

variable {scene : Scene} {stock : Stock}

variable (sound : stock.Sound scene) {start : Store} {machine : Machine} {α β : Type}

include sound

theorem gives {before after : Store} (later : stock.later before after) :
    stock.Gives stock before after := (sound.lasts later).toGives

/-- The store is a later one and the rest is as it was. -/
theorem held_later {store : Store} (held : machine.Held scene stock start)
    (later : stock.later machine.store store) :
    Machine.Held scene stock start
      { machine with world.page.store := store } where
  later := stock.trans held.later later
  frames := fun frame member => (held.frames frame member).last (sound.gives later)
  operands := fun operand member => (held.operands operand member).last (sound.gives later)
  scopes := held.scopes.last (sound.gives later)
  builders := fun builder member => (held.builders builder member).last (sound.lasts later)

theorem reading {action : Reading α} {post : α → Store → Prop}
    (held : machine.Held scene stock start)
    (goes : (stock.readings machine.store).Goes machine.store action post) :
    (stock.law scene start).Goes machine (liftM action) fun result after => post result after.store := by
  refine .intro (fun result after ended => ?_) fun fault after ended => ?_
  · obtain ⟨store, done, rfl⟩ := Running.reading_ok.mp ended
    obtain ⟨later, -, right⟩ := goes.of_ok done
    exact ⟨sound.held_later held later, later, right⟩
  · obtain ⟨store, failed, rfl⟩ := Running.reading_error.mp ended
    have later := goes.of_error failed
    exact ⟨stock.trans held.later later, held.scopes.last (sound.gives later)⟩

theorem onPage {action : EStateM Fault Page α} {post : α → Page → Prop}
    (held : machine.Held scene stock start)
    (goes : (stock.pages machine.store).Goes machine.world.page action post) :
    (stock.law scene start).Goes machine (liftM action)
      fun result after => post result after.world.page := by
  refine .intro (fun result after ended => ?_) fun fault after ended => ?_
  · obtain ⟨page, done, rfl⟩ := Running.onPage_ok.mp ended
    obtain ⟨later, -, right⟩ := goes.of_ok done
    have still := sound.held_later held later
    exact ⟨⟨still.later, still.frames, still.operands, still.scopes, still.builders⟩, later, right⟩
  · obtain ⟨page, failed, rfl⟩ := Running.onPage_error.mp ended
    have later := goes.of_error failed
    exact ⟨stock.trans held.later later, held.scopes.last (sound.gives later)⟩

omit sound in
/-- Drawing is no concern of a stock. -/
theorem draws {action : Running α} {post : α → Machine → Prop}
    (held : machine.Held scene stock start) (goes : machine.drawing.Goes machine action post) :
    (stock.law scene start).Goes machine action post := by
  refine goes.of_draws (fun after drawn => ?_) fun fault after _ drawn => ?_
  · have same : after.store = machine.store := drawn.world.store
    have later : stock.later machine.store after.store := same ▸ stock.refl _
    refine ⟨⟨same ▸ held.later, ?_, ?_, ?_, ?_⟩, later⟩
    · rw [drawn.frames, same]
      exact held.frames
    · rw [drawn.operands, same]
      exact held.operands
    · rw [drawn.world.scopes, same]
      exact held.scopes
    · rw [drawn.builders, same]
      exact held.builders
  · change stock.later start after.store ∧ after.world.scopes.Held stock after.store
    rw [show after.store = machine.store from drawn.world.store, drawn.world.scopes]
    exact held.ends

/-! Readings -/

theorem references_tell {references : List Reference} {store : Store}
    (held : ∀ reference ∈ references, stock.reference store reference) :
    ∀ telling ∈ Reference.tags scene.helpers references, stock.tells store telling := by
  induction references with
  | nil => simp [Reference.tags]
  | cons reference rest ih =>
    obtain ⟨first, others⟩ := List.forall_mem_cons.mp held
    exact List.forall_mem_cons.mpr ⟨sound.tells first, ih others⟩

theorem named_tell {named : List (String × Reference)} {store : Store}
    (held : ∀ entry ∈ named, stock.reference store entry.2) :
    ∀ telling ∈ (Reference.namedTags scene.helpers named).map Prod.snd,
      stock.tells store telling := by
  induction named with
  | nil => simp [Reference.namedTags]
  | cons entry rest ih =>
    obtain ⟨name, reference⟩ := entry
    obtain ⟨first, others⟩ := List.forall_mem_cons.mp held
    exact List.forall_mem_cons.mpr ⟨sound.tells first, ih others⟩

theorem invocation_tells {invocation : Invocation} {store : Store}
    (held : invocation.Held stock store) :
    stock.tells store (invocation.tag scene.helpers) := by
  refine sound.tellsAll fun telling member => ?_
  rcases List.mem_append.mp member with member | member
  · exact sound.references_tell held.positional telling member
  · exact sound.named_tell held.named telling member

/-- A telling with what may be watched from then on. -/
theorem noted {store : Store} {telling : Reading Tag} (later : stock.later start store)
    (tells : stock.tells store telling) :
    (stock.readings start).Goes store telling fun tag after =>
      stock.watch after telling (after.revisionOf tag) := by
  have told := sound.follows later tells
  refine .intro (fun tag after ended => ?_) fun fault after failed => told.of_error failed
  obtain ⟨later, moves, -⟩ := told.of_ok ended
  exact ⟨later, moves, sound.watches tells ended⟩

theorem ofReference {store : Store} {reference : Reference} (later : stock.later start store)
    (held : stock.reference store reference) :
    (stock.readings start).Goes store (Cache.ofReference scene.helpers reference)
      fun cache after => cache.Held stock after scene.helpers := by
  refine .bind (sound.noted later (sound.tells held)) fun tag after later moves watched => ?_
  have held := (sound.lasts moves).reference _ held
  refine .get_bind ?_
  refine .bind (sound.reads later held) fun value last later moves _ => ?_
  exact .pure later ⟨(sound.lasts moves).reference _ held, (sound.lasts moves).watch _ _ watched⟩

theorem takePass {store : Store} {keyed : KeyedList} (later : stock.later start store)
    (held : keyed.Held stock store) :
    (stock.readings start).Goes store (keyed.takePass scene.helpers) fun _ _ => True := by
  refine .through (fun _ after => after = store) ?_ ?_
  · refine .get_bind ?_
    split
    · exact .pure later rfl
    · exact later
  · rintro artifacts _ _ _ rfl
    split
    · refine .modify_bind (sound.setList _ _ _) (.pure ?_ trivial)
      exact stock.trans later (sound.setList _ _ _)
    · refine .bind (sound.reads later held.1) fun value _ later _ _ => ?_
      unfold Reading.lift
      split
      · exact .pure later trivial
      · exact later

theorem newRefs {store : Store} (item : PassItem) (later : stock.later start store) :
    (stock.readings start).Goes store item.newRefs fun refs after =>
      refs.invocation.Held stock after := by
  have made : ∀ {store : Store} (value : Value), stock.later start store →
      (stock.readings start).Goes store (Reading.newCell value) fun id after =>
        stock.reference after (.cell id) := by
    intro store value later
    refine ⟨stock.trans later (sound.newCell store value), sound.newCell store value, ?_⟩
    exact sound.cell (by simp)
  refine .bind (made item.value later) fun value _ later _ first => ?_
  refine .bind (made item.memo later) fun memo _ later moves second => ?_
  refine .pure later ⟨?_, nofun, nofun⟩
  simpa [ItemRefs.invocation] using ⟨(sound.lasts moves).reference _ first, second⟩

theorem next {store : Store} {walk : FirstPass} (later : stock.later start store)
    (held : walk.keyed.Held stock store) :
    (stock.readings start).Goes store (walk.next scene.helpers) fun result after =>
      result.1.keyed.Held stock after ∧ ∀ refs ∈ result.2, refs.invocation.Held stock after := by
  have advance : ∀ {store : Store} (pass : Pass), stock.later start store →
      walk.keyed.Held stock store →
      (stock.readings start).Goes store (walk.record pass) fun result after =>
        result.1.keyed.Held stock after ∧ ∀ refs ∈ result.2, refs.invocation.Held stock after := by
    intro store pass later held
    cases pass with
    | nil => exact .pure later ⟨held, by simp⟩
    | cons item rest =>
      refine .bind (sound.newRefs item later) fun refs between later moves given => ?_
      have held := held.last (sound.gives moves)
      refine .through (fun _ after => after = between) ?_ ?_
      · refine .get_bind ?_
        split
        · exact .pure later rfl
        · exact later
      · rintro artifacts after _ _ rfl
        have moves := sound.setList after walk.keyed.list (artifacts.append refs)
        refine .modify_bind moves (.pure (stock.trans later moves) ⟨held.last (sound.gives moves), ?_⟩)
        rintro _ ⟨⟩
        exact given.last (sound.gives moves)
  rw [FirstPass.next_eq]
  cases walk.rest with
  | some pass => exact advance pass later held
  | none =>
    refine .bind (sound.takePass later held) fun pass after later moves _ => ?_
    exact advance pass later (held.last (sound.gives moves))

theorem ofIterable {store : Store} {source : Reference} {key : String} {iterable : Iterable}
    (later : stock.later start store) (held : stock.reference store source)
    (found : scene.host.iterable source key = .ok iterable) :
    (stock.readings start).Goes store (KeyedList.ofIterable iterable) fun keyed after =>
      keyed.Held stock after := by
  have moves := sound.newList store
  have held := (sound.lasts moves).reference _ (sound.iterable held found)
  refine ⟨stock.trans later moves, moves, held, sound.presence _ held ?_⟩
  simp

/-! What a machine does to what it holds -/

/-- A hook that leaves a later store. -/
theorem hooked {action : StateM Page Unit} (held : machine.Held scene stock start)
    (later : stock.later machine.store (action.run machine.world.page).2.store) :
    (stock.law scene start).Goes machine (liftM (Render.hook action)) fun _ _ => True := by
  have still := sound.held_later held later
  exact ⟨⟨still.later, still.frames, still.operands, still.scopes, still.builders⟩, later, trivial⟩

omit sound in
/-- A computation that neither reads nor binds keeps what is held. -/
theorem sheds {action : Render α} (sustains : Sustains World.Sheds action)
    (held : machine.Held scene stock start) :
    (stock.law scene start).Goes machine (liftM action) fun _ _ => True := by
  refine .intro (fun result after ended => ?_) fun fault after ended => ?_
  · obtain ⟨world, done, rfl⟩ := Running.lift_ok.mp ended
    obtain ⟨store, scopes⟩ := sustains.of_ok done
    have same : ({ machine with world } : Machine).store = machine.store := store
    refine ⟨⟨?_, ?_, ?_, ?_, ?_⟩, ?_, trivial⟩
    · exact same ▸ held.later
    · exact same ▸ held.frames
    · exact same ▸ held.operands
    · exact same ▸ fun id scope there => held.scopes id scope (scopes id scope there)
    · exact same ▸ held.builders
    · change stock.later machine.store world.page.store
      exact store ▸ stock.refl _
  · obtain ⟨world, failed, rfl⟩ := Running.lift_error.mp ended
    obtain ⟨store, scopes⟩ := sustains.of_error failed
    change stock.later start world.page.store ∧ world.scopes.Held stock world.page.store
    rw [store]
    exact ⟨held.later, fun id scope there => held.scopes id scope (scopes id scope there)⟩

omit sound in
theorem setBuilders {builders : List Builder} (held : machine.Held scene stock start)
    (good : ∀ builder ∈ builders, builder.Held stock machine.store scene.helpers) :
    Machine.Held scene stock start { machine with builders } :=
  { held with builders := good }

omit sound in
theorem setGroups (groups : List (Nat × Nat)) (held : machine.Held scene stock start) :
    Machine.Held scene stock start { machine with groups } :=
  ⟨held.later, held.frames, held.operands, held.scopes, held.builders⟩

omit sound in
theorem broken {defect : Defect} {post : α → Machine → Prop}
    (held : machine.Held scene stock start) :
    (stock.law scene start).Goes machine (Running.broken defect) post :=
  .throw held.ends

omit sound in
theorem modifyContent {change : Content → Content} (held : machine.Held scene stock start)
    (good : ∀ content : Content, content.Held stock machine.store scene.helpers →
      (change content).Held stock machine.store scene.helpers) :
    (stock.law scene start).Goes machine (Running.modifyContent change) fun _ _ => True := by
  have builders := held.builders
  refine .get_bind ?_
  split
  · rename_i content outer shape
    rw [shape] at builders
    obtain ⟨first, others⟩ := List.forall_mem_cons.mp builders
    refine ⟨setBuilders held (List.forall_mem_cons.mpr ⟨good content first, others⟩), ?_, trivial⟩
    exact stock.refl _
  · rename_i slice captured extent key content outer shape
    rw [shape] at builders
    obtain ⟨first, others⟩ := List.forall_mem_cons.mp builders
    refine ⟨setBuilders held
      (List.forall_mem_cons.mpr ⟨⟨first.1, good content first.2⟩, others⟩), ?_, trivial⟩
    exact stock.refl _
  · exact broken held
  · exact broken held

omit sound in
theorem record {update : Update} (held : machine.Held scene stock start)
    (good : update.Held stock machine.store scene.helpers) :
    (stock.law scene start).Goes machine (Running.record update) fun _ _ => True := by
  refine modifyContent held fun content contentHeld => ?_
  rw [Content.held_iff] at contentHeld ⊢
  intro other member
  rcases List.mem_append.mp member with member | member
  · exact contentHeld other member
  · exact List.mem_singleton.mp member ▸ good

omit sound in
theorem own (owned : Owned) (held : machine.Held scene stock start) :
    (stock.law scene start).Goes machine (Running.own owned) fun _ _ => True :=
  modifyContent held fun _ contentHeld =>
    Content.held_iff.mpr fun update member => Content.held_iff.mp contentHeld update member

omit sound in
theorem ownScope (scope : ScopeId) (held : machine.Held scene stock start) :
    (stock.law scene start).Goes machine (Running.ownScope scope) fun _ _ => True :=
  modifyContent held fun _ contentHeld =>
    Content.held_iff.mpr fun update member => Content.held_iff.mp contentHeld update member

omit sound in
theorem scope (held : machine.Held scene stock start) :
    (stock.law scene start).Goes machine Running.scope fun scope after =>
      after = machine ∧ scope.Held stock machine.store :=
  Running.scope_goes held.ends (fun _ _ _ _ => held.ends) fun _ _ scope _ there =>
    ⟨held, rfl, held.scopes _ scope there⟩

omit sound in
theorem modifyScope {change : Scope → Scope} (held : machine.Held scene stock start)
    (good : ∀ scope : Scope, scope.Held stock machine.store →
      (change scope).Held stock machine.store) :
    (stock.law scene start).Goes machine (Running.modifyScope change) fun _ _ => True := by
  refine Running.modifyScope_goes held.ends (fun _ _ _ _ => held.ends)
    fun frame outer scope _ there => ?_
  refine ⟨{ held with scopes := fun id kept found => ?_ }, stock.refl _, trivial⟩
  rw [Scopes.get_ok] at found
  dsimp only at found
  rw [Array.getElem?_setIfInBounds] at found
  split at found
  · split at found
    · cases found
      exact good scope (held.scopes _ scope there)
    · cases found
  · exact held.scopes id kept (Scopes.get_ok.mpr found)

theorem dynamic {cache : Cache} (held : machine.Held scene stock start)
    (good : cache.Held stock machine.store scene.helpers) :
    (stock.law scene start).Goes machine (Running.isDynamic scene cache) fun _ _ => True := by
  have telling := sound.tells good.reference
  refine .bind (sound.reading held (sound.follows (stock.refl _) telling)) fun _ _ held _ _ => ?_
  exact .pure held trivial

theorem showRaw {cache : Cache} (content : String) (dynamic : Bool)
    (held : machine.Held scene stock start)
    (good : cache.Held stock machine.store scene.helpers) :
    (stock.law scene start).Goes machine (Running.showRaw content dynamic cache)
      fun _ _ => True := by
  refine .bind (draws held (Running.pushBlock_draws (.refl _))) fun extent _ held one _ => ?_
  refine .bind (draws held (Running.appendNode_draws (.refl _) _)) fun _ _ held two _ => ?_
  refine .bind (draws held (Running.popExtent_draws (.refl _))) fun _ _ held three _ => ?_
  split
  · refine record held ?_
    rw [Update.Held]
    exact good.last (sound.lasts (stock.trans (stock.trans one two) three))
  · exact .pure held trivial

theorem attach {name : String} {manager : ModifierManager} {invocation : Invocation}
    (held : machine.Held scene stock start)
    (found : scene.host.registry.modifier? name = some manager)
    (given : invocation.Held stock machine.store) :
    (stock.law scene start).Goes machine (Running.attach scene name manager invocation)
      fun _ _ => True := by
  refine .bind (sheds World.Sheds.newInstance held) fun id _ held moves _ => ?_
  have given := given.last (sound.gives moves)
  refine Running.constructing_bind held.ends fun element _ => ?_
  refine .bind (sound.onPage held (sound.modifier (stock.refl _) found given))
    fun _ _ held moves _ => ?_
  have given := given.last (sound.gives moves)
  refine .bind (sheds (World.Sheds.queue _) held) fun _ _ held moves _ => ?_
  have given := given.last (sound.gives moves)
  refine .bind (own _ held) fun _ _ held moves _ => ?_
  have given := given.last (sound.gives moves)
  refine .bind (sound.reading held (sound.follows (stock.refl _) (sound.invocation_tells given)))
    fun tag _ held moves _ => ?_
  have given := given.last (sound.gives moves)
  split
  · exact .pure held trivial
  · refine .bind (sound.reading held (sound.noted (stock.refl _) (sound.invocation_tells given)))
      fun tag after held moves watched => ?_
    have given := given.last (sound.gives moves)
    refine .get_bind (record held ?_)
    rw [Update.Held]
    exact ⟨given, watched⟩

theorem createdElement (held : machine.Held scene stock start) :
    (stock.law scene start).Goes machine (Running.didCreateElement scene) fun _ _ => True := by
  refine Running.frame_bind held.ends fun frame outer _ => ?_
  split
  · exact broken held
  · rename_i component _ _
    refine Running.constructing_bind held.ends fun element _ => ?_
    exact sound.hooked held (sound.didCreateElement component element machine.world.page)

/-- What a stock makes of the steps of a routine instruction. -/
def routine (start : Store) : Running.Routine scene (stock.law scene start) stock where
  cached store cache := cache.Held stock store scene.helpers
  leaf store update := update.Held stock store scene.helpers
  target _ := True
  closed := sound.closed
  lasts := sound.lasts
  cacheLasts moves _ held := held.last (sound.lasts moves)
  fails held _ := held.ends
  stops held _ _ := held.ends
  frames held := held.frames
  operands held := held.operands
  scope held := scope held
  setOperands operands held good :=
    ⟨{ held with operands := good }, stock.refl _⟩
  setFrame held shape fresh _ := by
    refine ⟨{ held with frames := List.forall_mem_cons.mpr ⟨fresh, fun frame member => ?_⟩ },
      stock.refl _⟩
    exact held.frames frame (shape ▸ List.mem_cons_of_mem _ member)
  goto held shape _ := by
    refine ⟨{ held with frames := List.forall_mem_cons.mpr ⟨?_, fun frame member => ?_⟩ },
      stock.refl _⟩
    · have frameHeld := held.frames _ (shape ▸ List.mem_cons_self)
      exact ⟨frameHeld.registers, frameHeld.locals, frameHeld.ambient, frameHeld.iterator,
        frameHeld.partialBlock, frameHeld.definition⟩
    · exact held.frames frame (shape ▸ List.mem_cons_of_mem _ member)
  cache held good := sound.reading held (sound.ofReference (stock.refl _) good)
  dynamic held good := sound.dynamic held good
  read held good := sound.reading held (sound.reads (stock.refl _) good)
  next held good := sound.reading held (sound.next (stock.refl _) good)
  iterable held good found := sound.reading held (sound.ofIterable (stock.refl _) good found)
  textLeaf _ held := by rwa [Update.Held]
  attrLeaf _ _ _ held := by rwa [Update.Held]
  assertLeaf held := by rwa [Update.Held]
  record held good := record held good
  showRaw content dynamic held good := sound.showRaw content dynamic held good
  appendNode data held := draws held (Running.appendNode_draws (.refl _) data)
  openElement tag held := draws held (Running.openElement_draws (.refl _) tag)
  setAttribute name value space held :=
    draws held (Running.setAttribute_draws (.refl _) name value space)
  applyAttribute element name space value held := draws held
    (Running.draw (.refl _) (Render.applyAttribute_draws (.refl _) element name space value))
  flushElement held := draws held (Running.flushElement_draws (.refl _))
  closeElement held := draws held (Running.closeElement_draws (.refl _))
  attach held found given := sound.attach held found given
  didCreateElement held := sound.createdElement held

end Stock.Sound

end LiveTemplate
