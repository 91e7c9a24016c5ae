import LiveTemplate.Proofs.Render.Inspection

/-!
What a machine holds: the references and the handles of blocks that its operands, frames, scopes and
updates consist of. A stock says which of them may be held. Whatever is built from what is in stock
is in stock as well.
-/

namespace LiveTemplate

structure Stock where
  /-- How a store may come after an earlier one. -/
  later : Store → Store → Prop
  refl : ∀ store, later store store
  trans : ∀ {first second third}, later first second → later second third → later first third
  reference : Store → Reference → Prop
  /-- The tag of what a component does not tell by its arguments. -/
  tag : Store → Tag → Prop
  /-- A reading of a tag that may be watched. -/
  tells : Store → Reading Tag → Prop
  /-- What an update may watch, and since when. -/
  watch : Store → Reading Tag → Revision → Prop
  /-- Since when the updates of a component may be said to be current. -/
  since : Store → Revision → Prop
  /-- A block that is passed to a layout or run where it was written. -/
  block : Handle → Prop
  /-- A block that is run as a partial. -/
  included : Handle → Prop
  layout : Handle → Prop
  /-- How the components of some name are made. -/
  maker : String → ComponentManager → Prop

/-- References that a machine builds from references in stock are in stock. -/
structure Stock.Closed (stock : Stock) (host : Host) : Prop where
  const : ∀ {store} value, stock.reference store (.const value)
  property : ∀ {store parent} key, stock.reference store parent →
    stock.reference store (.property parent key)
  concat : ∀ {store parts}, (∀ part ∈ parts, stock.reference store part) →
    stock.reference store (.concat parts)
  condition : ∀ {store inner holds}, holds = Value.truthy ∨ holds = host.holds →
    stock.reference store inner → stock.reference store (.condition inner holds)
  helper : ∀ {store positional named} name, (∀ part ∈ positional, stock.reference store part) →
    (∀ entry ∈ named, stock.reference store entry.2) →
    stock.reference store (.helper name positional named)
  dynamicVar : ∀ {store ambient name}, (∀ entry ∈ ambient, stock.reference store entry.2) →
    stock.reference store name → stock.reference store (.dynamicVar ambient name)
  maker : ∀ {name manager}, host.registry.component? name = some manager → stock.maker name manager

/-- The references and blocks in stock at one time are in the other stock at another time. -/
structure Stock.Gives (stock other : Stock) (before after : Store) : Prop where
  reference : ∀ reference, stock.reference before reference → other.reference after reference
  block : ∀ handle, stock.block handle → other.block handle
  included : ∀ handle, stock.included handle → other.included handle
  layout : ∀ handle, stock.layout handle → other.layout handle
  maker : ∀ name manager, stock.maker name manager → other.maker name manager

/-- All that is in stock at one time is in the other stock at another time. -/
structure Stock.Yields (stock other : Stock) (before after : Store) : Prop
    extends Stock.Gives stock other before after where
  tag : ∀ tag, stock.tag before tag → other.tag after tag
  watch : ∀ tag noted, stock.watch before tag noted → other.watch after tag noted
  since : ∀ revision, stock.since before revision → other.since after revision

/-- Whatever is in stock at one time is so at the other. -/
abbrev Stock.Lasts (stock : Stock) (before after : Store) : Prop := stock.Yields stock before after

section Held

variable (stock : Stock) (store : Store)

def Variables.Held (entries : Variables) : Prop :=
  ∀ entry ∈ entries, stock.reference store entry.2

structure Invocation.Held (invocation : Invocation) : Prop where
  positional : ∀ reference ∈ invocation.positional, stock.reference store reference
  named : ∀ entry ∈ invocation.named, stock.reference store entry.2
  blocks : ∀ entry ∈ invocation.blocks, ∀ handle ∈ entry.2, stock.block handle

structure Registers.Held (registers : Registers) : Prop where
  operand : ∀ reference ∈ registers.operand, stock.reference store reference
  invocation : registers.invocation.Held stock store
  condition : ∀ reference ∈ registers.condition, stock.reference store reference

structure Captured.Held (captured : Captured) : Prop where
  registers : captured.registers.Held stock store
  locals : ∀ reference, some reference ∈ captured.locals → stock.reference store reference
  ambient : Variables.Held stock store captured.ambient

def KeyedList.Held (keyed : KeyedList) : Prop :=
  stock.reference store keyed.iterable.source ∧ stock.reference store keyed.presence

structure Frame.Held (frame : Frame) : Prop where
  registers : frame.registers.Held stock store
  locals : ∀ reference, some reference ∈ frame.locals → stock.reference store reference
  ambient : ∀ visible ∈ frame.ambient, Variables.Held stock store visible
  iterator : ∀ iterator ∈ frame.iterator, iterator.keyed.Held stock store
  partialBlock : ∀ handle ∈ frame.partialBlock, stock.included handle
  definition : ∀ definition ∈ frame.definition,
    stock.maker definition.1 definition.2.1 ∧ stock.layout definition.2.2

def Operand.Held : Operand → Prop
  | .reference source => stock.reference store source
  | .arguments invocation => invocation.Held stock store
  | .block given => ∀ handle ∈ given, stock.block handle

def Slot.Held : Slot → Prop
  | .unbound => True
  | .reference source => stock.reference store source
  | .block given => ∀ handle ∈ given, stock.block handle
  | .passed invocation => invocation.Held stock store

structure Scope.Held (scope : Scope) : Prop where
  slots : ∀ slot ∈ scope.slots, slot.Held stock store
  this : stock.reference store scope.this

variable (helpers : Helpers)

structure Cache.Held (cache : Cache) : Prop where
  reference : stock.reference store cache.reference
  watch : stock.watch store (cache.tag helpers) cache.revision

mutual

def Content.Held : Content → Prop
  | ⟨updates, _, _⟩ => Update.AllHeld updates

def Update.Held : Update → Prop
  | .text _ cache | .raw _ cache | .attr _ _ _ cache | .assert cache => cache.Held stock store helpers
  | .component component invocation last => invocation.Held stock store ∧
      stock.tag store component.tag ∧
      stock.watch store (Update.tag helpers (.component component invocation last)) last
  | .layout .. => True
  | .modifier _ invocation last => invocation.Held stock store ∧
      stock.watch store (invocation.tag helpers) last
  | .group last members => stock.since store last ∧ Update.AllHeld members
  | .region ⟨_, captured, _, content⟩ => captured.Held stock store ∧ content.Held
  | .list ⟨_, captured, keyed, last, _, items⟩ => captured.Held stock store ∧
      keyed.Held stock store ∧ stock.watch store (keyed.tag helpers) last ∧ Update.ItemsHeld items

def Update.AllHeld : List Update → Prop
  | [] => True
  | update :: rest => update.Held ∧ Update.AllHeld rest

def Update.ItemsHeld : List (Key × Region) → Prop
  | [] => True
  | (_, ⟨_, captured, _, content⟩) :: rest => (captured.Held stock store ∧ content.Held) ∧
      Update.ItemsHeld rest

end

def Region.Held (region : Region) : Prop :=
  region.captured.Held stock store ∧ region.content.Held stock store helpers

def Builder.Held : Builder → Prop
  | .root content => content.Held stock store helpers
  | .region _ captured _ _ content => captured.Held stock store ∧ content.Held stock store helpers
  | .list given => Update.Held stock store helpers (.list given)

def Scopes.Held (scopes : Scopes) : Prop :=
  ∀ id scope, scopes.get id = .ok scope → scope.Held stock store

end Held

section Nested

variable {stock : Stock} {store : Store} {helpers : Helpers}

theorem Update.allHeld_iff {updates : List Update} :
    AllHeld stock store helpers updates ↔ ∀ update ∈ updates, update.Held stock store helpers := by
  induction updates with
  | nil => simp [AllHeld]
  | cons update rest ih => rw [AllHeld, ih, List.forall_mem_cons]

theorem Update.itemsHeld_iff {items : List (Key × Region)} :
    ItemsHeld stock store helpers items ↔ ∀ item ∈ items, item.2.Held stock store helpers := by
  induction items with
  | nil => simp [ItemsHeld]
  | cons item rest ih =>
    obtain ⟨key, slice, captured, extent, content⟩ := item
    rw [ItemsHeld, ih, List.forall_mem_cons]
    rfl

theorem Content.held_iff {content : Content} :
    content.Held stock store helpers ↔
      ∀ update ∈ content.updates, update.Held stock store helpers := by
  obtain ⟨updates, scopes, owned⟩ := content
  rw [Content.Held, Update.allHeld_iff]

theorem Region.held_iff (region : Region) :
    Update.Held stock store helpers (.region region) ↔ region.captured.Held stock store ∧
      ∀ update ∈ region.content.updates, update.Held stock store helpers := by
  obtain ⟨slice, captured, extent, content⟩ := region
  rw [Update.Held, Content.held_iff]

theorem ListRegion.held_iff (list : ListRegion) :
    Update.Held stock store helpers (.list list) ↔ list.captured.Held stock store ∧
      list.keyed.Held stock store ∧ stock.watch store (list.keyed.tag helpers) list.last ∧
      ∀ item ∈ list.items, item.2.Held stock store helpers := by
  obtain ⟨slice, captured, keyed, last, extent, items⟩ := list
  rw [Update.Held, Update.itemsHeld_iff]

theorem Builder.held_list (list : ListRegion) :
    Builder.Held stock store helpers (.list list) ↔ list.captured.Held stock store ∧
      list.keyed.Held stock store ∧ stock.watch store (list.keyed.tag helpers) list.last ∧
      ∀ item ∈ list.items, item.2.Held stock store helpers :=
  ListRegion.held_iff list

end Nested

section Lasting

variable {stock other : Stock} {before after : Store}

theorem Variables.Held.last {entries : Variables} (held : Variables.Held stock before entries)
    (gives : stock.Gives other before after) : Variables.Held other after entries :=
  fun entry member => gives.reference _ (held entry member)

theorem Invocation.Held.last {invocation : Invocation} (held : invocation.Held stock before)
    (gives : stock.Gives other before after) : invocation.Held other after where
  positional := fun reference member => gives.reference _ (held.positional reference member)
  named := fun entry member => gives.reference _ (held.named entry member)
  blocks := fun entry member handle given => gives.block handle (held.blocks entry member handle given)

theorem Registers.Held.last {registers : Registers} (held : registers.Held stock before)
    (gives : stock.Gives other before after) : registers.Held other after where
  operand := fun reference member => gives.reference _ (held.operand reference member)
  invocation := held.invocation.last gives
  condition := fun reference member => gives.reference _ (held.condition reference member)

theorem Captured.Held.last {captured : Captured} (held : captured.Held stock before)
    (gives : stock.Gives other before after) : captured.Held other after where
  registers := held.registers.last gives
  locals := fun reference member => gives.reference _ (held.locals reference member)
  ambient := held.ambient.last gives

theorem KeyedList.Held.last {keyed : KeyedList} (held : keyed.Held stock before)
    (gives : stock.Gives other before after) : keyed.Held other after :=
  ⟨gives.reference _ held.1, gives.reference _ held.2⟩

theorem Frame.Held.last {frame : Frame} (held : frame.Held stock before)
    (gives : stock.Gives other before after) : frame.Held other after where
  registers := held.registers.last gives
  locals := fun reference member => gives.reference _ (held.locals reference member)
  ambient := fun visible member => (held.ambient visible member).last gives
  iterator := fun iterator member => (held.iterator iterator member).last gives
  partialBlock := fun handle given => gives.included handle (held.partialBlock handle given)
  definition := fun definition given =>
    ⟨gives.maker _ _ (held.definition definition given).1,
      gives.layout _ (held.definition definition given).2⟩

theorem Operand.Held.last {operand : Operand} (held : operand.Held stock before)
    (gives : stock.Gives other before after) : operand.Held other after := by
  cases operand with
  | reference reference => exact gives.reference _ held
  | arguments invocation => exact Invocation.Held.last held gives
  | block given => exact fun handle there => gives.block handle (held handle there)

theorem Slot.Held.last {slot : Slot} (held : slot.Held stock before)
    (gives : stock.Gives other before after) : slot.Held other after := by
  cases slot with
  | unbound => trivial
  | reference reference => exact gives.reference _ held
  | block given => exact fun handle there => gives.block handle (held handle there)
  | passed invocation => exact Invocation.Held.last held gives

theorem Scope.Held.last {scope : Scope} (held : scope.Held stock before)
    (gives : stock.Gives other before after) : scope.Held other after where
  slots := fun slot member => (held.slots slot member).last gives
  this := gives.reference _ held.this

theorem Cache.Held.last {cache : Cache} {helpers : Helpers}
    (held : cache.Held stock before helpers) (yields : stock.Yields other before after) :
    cache.Held other after helpers :=
  ⟨yields.reference _ held.reference, yields.watch _ _ held.watch⟩

mutual

theorem Content.Held.last {helpers : Helpers} (yields : stock.Yields other before after) :
    ∀ {content : Content}, content.Held stock before helpers → content.Held other after helpers
  | ⟨_, _, _⟩, held => by
    rw [Content.Held] at held ⊢
    exact Update.AllHeld.last yields held

theorem Update.Held.last {helpers : Helpers} (yields : stock.Yields other before after) :
    ∀ {update : Update}, update.Held stock before helpers → update.Held other after helpers
  | .text .., held | .raw .., held | .attr .., held | .assert _, held => by
    rw [Update.Held] at held ⊢
    exact held.last yields
  | .component .., held => by
    rw [Update.Held] at held ⊢
    exact ⟨held.1.last yields.toGives, yields.tag _ held.2.1, yields.watch _ _ held.2.2⟩
  | .layout .., _ => by
    rw [Update.Held]
    trivial
  | .modifier .., held => by
    rw [Update.Held] at held ⊢
    exact ⟨held.1.last yields.toGives, yields.watch _ _ held.2⟩
  | .group .., held => by
    rw [Update.Held] at held ⊢
    exact ⟨yields.since _ held.1, Update.AllHeld.last yields held.2⟩
  | .region ⟨_, _, _, _⟩, held => by
    rw [Update.Held] at held ⊢
    exact ⟨held.1.last yields.toGives, Content.Held.last yields held.2⟩
  | .list ⟨_, _, _, _, _, _⟩, held => by
    rw [Update.Held] at held ⊢
    exact ⟨held.1.last yields.toGives, held.2.1.last yields.toGives, yields.watch _ _ held.2.2.1,
      Update.ItemsHeld.last yields held.2.2.2⟩

theorem Update.AllHeld.last {helpers : Helpers} (yields : stock.Yields other before after) :
    ∀ {updates : List Update}, Update.AllHeld stock before helpers updates →
      Update.AllHeld other after helpers updates
  | [], _ => trivial
  | _ :: _, held => ⟨Update.Held.last yields held.1, Update.AllHeld.last yields held.2⟩

theorem Update.ItemsHeld.last {helpers : Helpers} (yields : stock.Yields other before after) :
    ∀ {items : List (Key × Region)}, Update.ItemsHeld stock before helpers items →
      Update.ItemsHeld other after helpers items
  | [], _ => trivial
  | (_, ⟨_, _, _, _⟩) :: _, held =>
    ⟨⟨held.1.1.last yields.toGives, Content.Held.last yields held.1.2⟩, Update.ItemsHeld.last yields held.2⟩

end

theorem Region.Held.last {region : Region} {helpers : Helpers}
    (held : region.Held stock before helpers) (yields : stock.Yields other before after) :
    region.Held other after helpers :=
  ⟨held.1.last yields.toGives, held.2.last yields⟩

theorem Builder.Held.last {builder : Builder} {helpers : Helpers}
    (held : builder.Held stock before helpers) (yields : stock.Yields other before after) :
    builder.Held other after helpers := by
  cases builder with
  | root content => exact Content.Held.last yields held
  | region slice captured extent key content => exact ⟨held.1.last yields.toGives, held.2.last yields⟩
  | list list => exact Update.Held.last yields held

theorem Scopes.Held.last {scopes : Scopes} (held : scopes.Held stock before)
    (gives : stock.Gives other before after) : scopes.Held other after :=
  fun id scope there => (held id scope there).last gives

end Lasting

/-! What is looked up in what is held -/

section LookUps

variable {stock : Stock} {store : Store}

theorem Invocation.Held.nth {invocation : Invocation} (held : invocation.Held stock store)
    (position : Nat) : ∀ reference ∈ invocation.nth? position, stock.reference store reference :=
  fun reference found => held.positional reference (List.mem_of_getElem? found)

theorem Invocation.Held.get {invocation : Invocation} (held : invocation.Held stock store)
    (name : String) : ∀ reference ∈ invocation.get? name, stock.reference store reference :=
  fun reference found => held.named (name, reference) (Entries.mem_of_get? found)

theorem Invocation.Held.block {invocation : Invocation} (held : invocation.Held stock store)
    (name : String) : ∀ handle ∈ invocation.block? name, stock.block handle := by
  intro handle found
  unfold Invocation.block? at found
  cases given : Entries.get? name invocation.blocks with
  | none => simp [given] at found
  | some block =>
    rw [given] at found
    exact held.blocks (name, block) (Entries.mem_of_get? given) handle found

/-- Dynamic variables are bound to arguments. -/
theorem Variables.Held.bind {invocation : Invocation} {ambient : Variables}
    (held : Variables.Held stock store ambient) (given : invocation.Held stock store)
    (names : List String) :
    Variables.Held stock store (names.foldl (Running.bindVariable invocation) ambient) := by
  induction names generalizing ambient with
  | nil => exact held
  | cons name names ih =>
    refine ih ?_
    unfold Running.bindVariable
    split
    · rename_i reference found
      intro entry member
      rcases Entries.mem_put member with rfl | member
      · exact given.get name reference found
      · exact held entry member
    · exact held

theorem Scope.Held.slot {scope : Scope} (held : scope.Held stock store) (symbol : Symbol) :
    (scope.slot symbol).Held stock store := by
  unfold Scope.slot
  cases found : scope.slots[symbol]? with
  | none => trivial
  | some slot => exact held.slots slot (List.mem_of_getElem? found)

theorem Scope.Held.bind {scope : Scope} (held : scope.Held stock store) (symbol : Symbol)
    {slot : Slot} (good : slot.Held stock store) : (scope.bind symbol slot).Held stock store := by
  refine ⟨fun other member => ?_, held.this⟩
  rcases List.mem_or_eq_of_mem_set member with member | same
  · rcases List.mem_append.mp member with member | member
    · exact held.slots other member
    · rw [List.eq_of_mem_replicate member]
      trivial
  · exact same ▸ good

theorem Scope.Held.reference {scope : Scope} {host : Host} (held : scope.Held stock store)
    (closed : stock.Closed host)
    (symbol : Symbol) : stock.reference store (scope.reference symbol) := by
  have there := held.slot symbol
  unfold Scope.reference
  split
  · rename_i reference found
    rw [found] at there
    exact there
  · exact closed.const _

theorem Scope.Held.block {scope : Scope} (held : scope.Held stock store) (symbol : Symbol) :
    ∀ handle ∈ scope.block? symbol, stock.block handle := by
  have there := held.slot symbol
  unfold Scope.block?
  split
  · rename_i block found
    rw [found] at there
    exact there
  · exact fun handle found => absurd found (by simp)

theorem Scope.Held.passed {scope : Scope} (held : scope.Held stock store) (symbol : Symbol) :
    ∀ invocation ∈ scope.passed? symbol, invocation.Held stock store := by
  have there := held.slot symbol
  unfold Scope.passed?
  split
  · rename_i invocation found
    rw [found] at there
    rintro _ ⟨⟩
    exact there
  · exact fun handle found => absurd found (by simp)

end LookUps

end LiveTemplate
