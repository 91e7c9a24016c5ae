import LiveTemplate.Compile.Compilation
import LiveTemplate.Proofs.Compile.Statements

/-!
The state of a compilation while names are resolved. Whatever is asked for is registered before it
is referred to, and a block has code unless it is being compiled or waits in the queue.
-/

namespace LiveTemplate

open Effects

theorem Registered.mono {blocks more : Nat} {handle : Handle} (registered : Registered blocks handle)
    (grown : blocks ≤ more) : Registered more handle :=
  ⟨registered.1, Nat.le_trans registered.2 grown⟩

theorem Resolved.Known.mono {blocks more : Nat} {code : Resolved} (known : code.Known blocks)
    (grown : blocks ≤ more) : code.Known more := by
  cases code with
  | block name params named template inverse =>
    exact ⟨fun handle member => (known.1 handle member).mono grown,
      fun handle member => (known.2 handle member).mono grown⟩
  | component name layout params named attrs template inverse =>
    obtain ⟨layout, attrs, template, inverse⟩ := known
    exact ⟨layout.mono grown, fun handle member => (attrs handle member).mono grown,
      fun handle member => (template handle member).mono grown,
      fun handle member => (inverse handle member).mono grown⟩
  | partialBlock handle => exact Registered.mono known grown
  | dynamicPartial name names handles =>
    exact fun handle member => (known handle member).mono grown
  | _ => trivial

/-- Statements whose blocks are all registered. -/
def KnownCode (blocks : Nat) (code : List Resolved) : Prop :=
  ∀ statement ∈ code, statement.Known blocks

theorem KnownCode.mono {blocks more : Nat} {code : List Resolved} (known : KnownCode blocks code)
    (grown : blocks ≤ more) : KnownCode more code :=
  fun statement member => (known statement member).mono grown

theorem KnownCode.append {blocks : Nat} {first last : List Resolved}
    (early : KnownCode blocks first) (late : KnownCode blocks last) :
    KnownCode blocks (first ++ last) := by
  intro statement member
  rcases List.mem_append.mp member with member | member
  · exact early statement member
  · exact late statement member

theorem KnownCode.single {blocks : Nat} {statement : Resolved} (known : statement.Known blocks) :
    KnownCode blocks [statement] := by
  intro other member
  rw [List.mem_singleton.mp member]
  exact known

def Source.Known (blocks : Nat) : Source → Prop
  | .inline _ code => KnownCode blocks code
  | _ => True

theorem Source.Known.mono {blocks more : Nat} {source : Source} (known : source.Known blocks)
    (grown : blocks ≤ more) : source.Known more := by
  cases source with
  | inline table code => exact KnownCode.mono known grown
  | _ => trivial

/-! Registered blocks -/

namespace BlockPool

/-- What is registered under a handle: a block, or nothing yet. -/
def At (pool : BlockPool) (handle : Handle) (entry : Option CompiledBlock) : Prop :=
  Pool.find "block" pool.blocks handle = .ok entry

variable {pool : BlockPool} {handle other : Handle} {entry : Option CompiledBlock}

theorem at_iff : pool.At handle entry ↔ 0 < handle ∧ pool.blocks[handle - 1]? = some entry :=
  Pool.find_ok

theorem block_ok {block : CompiledBlock} :
    pool.block handle = .ok block ↔ pool.At handle (some block) := by
  unfold BlockPool.block At
  cases Pool.find "block" pool.blocks handle with
  | error defect => simp [bind, Except.bind]
  | ok entry =>
    cases entry with
    | none => simp [bind, Except.bind, throw, throwThe, MonadExceptOf.throw]
    | some block => simp [bind, Except.bind, pure, Except.pure]

theorem At.registered (there : pool.At handle entry) : Registered pool.blocks.size handle := by
  obtain ⟨positive, found⟩ := at_iff.mp there
  have bound := (Array.getElem?_eq_some_iff.mp found).1
  exact ⟨positive, Nat.le_of_pred_lt bound⟩

theorem at_of_registered (registered : Registered pool.blocks.size handle) :
    ∃ entry, pool.At handle entry := by
  have bound : handle - 1 < pool.blocks.size :=
    Nat.sub_one_lt_of_le registered.1 registered.2
  refine ⟨pool.blocks[handle - 1], at_iff.mpr ⟨registered.1, ?_⟩⟩
  rw [Array.getElem?_eq_getElem bound]

theorem At.unique {another : Option CompiledBlock} (there : pool.At handle entry)
    (too : pool.At handle another) : entry = another := by
  unfold At at there too
  rw [there] at too
  exact Except.ok.inj too

theorem reserve_at : pool.reserve.2.At handle entry ↔
    pool.At handle entry ∨ handle = pool.blocks.size + 1 ∧ entry = none := by
  rw [at_iff, at_iff, BlockPool.reserve]
  simp only [Array.getElem?_push]
  constructor
  · rintro ⟨positive, found⟩
    split at found
    · have last : handle = pool.blocks.size + 1 := (Nat.sub_eq_iff_eq_add positive).mp ‹_›
      exact .inr ⟨last, (Option.some.inj found).symm⟩
    · exact .inl ⟨positive, found⟩
  · rintro (⟨positive, found⟩ | ⟨rfl, rfl⟩)
    · have bound := (Array.getElem?_eq_some_iff.mp found).1
      rw [if_neg (Nat.ne_of_lt bound)]
      exact ⟨positive, found⟩
    · exact ⟨Nat.succ_pos _, by simp⟩

theorem complete_at {block : CompiledBlock} (there : pool.At handle entry) :
    ∀ (other : Handle) (found : Option CompiledBlock), (pool.complete handle block).At other found ↔
      other = handle ∧ found = some block ∨ other ≠ handle ∧ pool.At other found := by
  intro other found
  obtain ⟨positive, here⟩ := at_iff.mp there
  have bound := (Array.getElem?_eq_some_iff.mp here).1
  rw [at_iff, at_iff, BlockPool.complete]
  simp only [Array.getElem?_setIfInBounds]
  by_cases same : other = handle
  · subst same
    simp [positive, bound, eq_comm]
  · have apart : 0 < other → handle - 1 ≠ other - 1 := fun valid equal =>
      same (Nat.pred_inj valid positive equal.symm)
    constructor
    · rintro ⟨valid, written⟩
      rw [if_neg (apart valid)] at written
      exact .inr ⟨same, valid, written⟩
    · rintro (⟨equal, -⟩ | ⟨-, valid, written⟩)
      · exact absurd equal same
      · rw [if_neg (apart valid)]
        exact ⟨valid, written⟩

end BlockPool

/-! The invariant of resolution -/

namespace Compilation

/-- How many blocks are registered. -/
def registered (state : Compilation) : Nat := state.blocks.blocks.size

/-- The handles of the queue, after those of the blocks being compiled. -/
def awaited (state : Compilation) (busy : List Handle) : List Handle :=
  busy ++ state.queue.map Prod.fst

/-- The blocks without code are being compiled or wait in the queue, and nothing refers to a block
that is not registered. -/
structure Ready (state : Compilation) (busy : List Handle) : Prop where
  tables : state.tables.Sound
  waits : ∀ handle, state.blocks.At handle none ↔ handle ∈ state.awaited busy
  distinct : (state.awaited busy).Nodup
  sources : ∀ entry ∈ state.queue, entry.2.Known state.registered
  layouts : ∀ entry ∈ state.layouts, ∀ handle ∈ entry.2, Registered state.registered handle
  partials : ∀ entry ∈ state.partials, Registered state.registered entry.2

/-- No code is written, and nothing that is registered is lost. -/
structure Extends (before after : Compilation) : Prop where
  program : after.program = before.program
  pool : after.pool = before.pool
  tables : before.tables.Grows after.tables
  blocks : before.registered ≤ after.registered
  written : ∀ handle block,
    after.blocks.At handle (some block) ↔ before.blocks.At handle (some block)

theorem Extends.refl (state : Compilation) : state.Extends state :=
  ⟨rfl, rfl, .refl _, Nat.le_refl _, fun _ _ => Iff.rfl⟩

theorem Extends.trans {first second third : Compilation} (early : first.Extends second)
    (late : second.Extends third) : first.Extends third where
  program := late.program.trans early.program
  pool := late.pool.trans early.pool
  tables := early.tables.trans late.tables
  blocks := Nat.le_trans early.blocks late.blocks
  written handle block := (late.written handle block).trans (early.written handle block)

end Compilation

/-- With at least so many blocks registered, the computation keeps the state ready, and its result
is good for the blocks that are registered then. -/
def Resolves {α : Type} (blocks : Nat) (action : Resolving α) (good : α → Nat → Prop) : Prop :=
  ∀ before busy, blocks ≤ before.registered → before.Ready busy →
    ∀ result after, action before = .ok result after →
      after.Ready busy ∧ before.Extends after ∧ good result after.registered

namespace Resolves

variable {α β : Type} {blocks : Nat}

theorem pure {result : α} {good : α → Nat → Prop} (right : ∀ more, blocks ≤ more → good result more) :
    Resolves blocks (Pure.pure result) good := by
  intro before busy bound ready other after ended
  obtain ⟨rfl, rfl⟩ := pure_ok.mp ended
  exact ⟨ready, .refl _, right _ bound⟩

theorem bind {first : Resolving α} {next : α → Resolving β} {good : α → Nat → Prop}
    {last : β → Nat → Prop} (early : Resolves blocks first good)
    (late : ∀ value more, blocks ≤ more → good value more → Resolves more (next value) last) :
    Resolves blocks (first >>= next) last := by
  intro before busy bound ready result after ended
  obtain ⟨value, between, one, two⟩ := bind_ok.mp ended
  obtain ⟨stillReady, extended, right⟩ := early before busy bound ready value between one
  have grown := Nat.le_trans bound extended.blocks
  obtain ⟨lastReady, further, final⟩ :=
    late value between.registered grown right between busy (Nat.le_refl _) stillReady result after two
  exact ⟨lastReady, extended.trans further, final⟩

theorem throw {fault : CompileFault} {good : α → Nat → Prop} :
    Resolves blocks (MonadExcept.throw fault : Resolving α) good :=
  fun _ _ _ _ _ _ ended => absurd ended throw_ok

theorem reject {error : CompileError} {good : α → Nat → Prop} :
    Resolves blocks (Resolving.reject error : Resolving α) good :=
  throw

theorem rejectBy (outcome : Except CompileError α) :
    Resolves blocks (Resolving.rejectBy outcome) fun _ _ => True := by
  cases outcome with
  | ok value => exact pure fun _ _ => trivial
  | error error => exact reject

theorem enqueue {source : Source} (known : source.Known blocks) :
    Resolves blocks (Resolving.enqueue source) fun handle more => Registered more handle := by
  intro before busy bound ready handle after ended
  have changed := modifyGet_ok.mp ended
  cases changed
  have grown : (before.blocks.blocks.push none).size = before.registered + 1 := Array.size_push _
  refine ⟨⟨ready.tables, ?_, ?_, ?_, ?_, ?_⟩, ⟨rfl, rfl, .refl _, ?_, ?_⟩, ?_⟩
  · intro handle
    change before.blocks.reserve.2.At handle none ↔
      handle ∈ busy ++ (before.queue ++ [_]).map Prod.fst
    rw [BlockPool.reserve_at, ready.waits handle, Compilation.awaited]
    simp only [List.mem_append, List.map_append, List.map_cons, List.map_nil, List.mem_singleton,
      and_true, or_assoc]
  · change (busy ++ (before.queue ++ [_]).map Prod.fst).Nodup
    rw [List.map_append, ← List.append_assoc]
    refine List.nodup_append.mpr ⟨ready.distinct, by simp, ?_⟩
    intro handle member fresh last equal
    have old := ((ready.waits handle).mpr member).registered
    rw [equal, List.mem_singleton.mp last] at old
    exact absurd old.2 (Nat.not_succ_le_self _)
  · intro entry member
    change entry.2.Known (before.blocks.blocks.push none).size
    rw [grown]
    rcases List.mem_append.mp member with old | new
    · exact (ready.sources entry old).mono (Nat.le_succ _)
    · rw [List.mem_singleton.mp new]
      exact known.mono (Nat.le_succ_of_le bound)
  · intro entry member handle held
    change Registered (before.blocks.blocks.push none).size handle
    rw [grown]
    exact (ready.layouts entry member handle held).mono (Nat.le_succ _)
  · intro entry member
    change Registered (before.blocks.blocks.push none).size entry.2
    rw [grown]
    exact (ready.partials entry member).mono (Nat.le_succ _)
  · change _ ≤ (before.blocks.blocks.push none).size
    rw [grown]
    exact Nat.le_succ _
  · intro handle block
    change before.blocks.reserve.2.At handle (some block) ↔ _
    rw [BlockPool.reserve_at]
    simp
  · change Registered (before.blocks.blocks.push none).size _
    rw [grown]
    exact ⟨Nat.succ_pos _, Nat.le_refl _⟩

theorem layoutFor (resolver : Resolver) (name : String) :
    Resolves blocks (Resolving.layoutFor resolver name)
      fun found more => ∀ handle ∈ found, Registered more handle := by
  intro before busy bound ready result after ended
  obtain ⟨state, between, got, ended⟩ := bind_ok.mp ended
  obtain ⟨rfl, rfl⟩ := get_ok.mp got
  cases known : before.layouts.lookup name with
  | some found =>
    rw [known] at ended
    obtain ⟨rfl, rfl⟩ := pure_ok.mp ended
    refine ⟨ready, .refl _, fun handle held => ?_⟩
    exact ready.layouts (name, found) (mem_of_lookup known) handle held
  | none =>
    rw [known] at ended
    obtain ⟨found, between, asked, ended⟩ := bind_ok.mp ended
    obtain ⟨_, last, noted, ended⟩ := bind_ok.mp ended
    obtain ⟨rfl, rfl⟩ := pure_ok.mp ended
    have changed := modify_ok.mp noted
    have registers : Resolves blocks
        ((resolver.layout? name).mapM fun template => Resolving.enqueue (.layout template))
        fun found more => ∀ handle ∈ found, Registered more handle := by
      cases resolver.layout? name with
      | none => exact pure fun more _ handle held => absurd held (Option.not_mem_none handle)
      | some template =>
        have source : (Source.layout template).Known blocks := trivial
        refine bind (enqueue source) fun fresh more _ registered => pure fun later grown => ?_
        rintro _ ⟨⟩
        exact registered.mono grown
    obtain ⟨stillReady, extended, right⟩ := registers before busy bound ready _ _ asked
    rw [← changed]
    refine ⟨⟨stillReady.tables, stillReady.waits, stillReady.distinct, stillReady.sources, ?_,
      stillReady.partials⟩, ⟨extended.program, extended.pool, extended.tables, extended.blocks,
      extended.written⟩, right⟩
    intro entry member handle held
    rcases List.mem_cons.mp member with rfl | member
    · exact right handle held
    · exact stillReady.layouts entry member handle held

theorem partialFor (resolver : Resolver) (table : TableId) (name : String) :
    Resolves blocks (Resolving.partialFor resolver table name)
      fun handle more => Registered more handle := by
  intro before busy bound ready result after ended
  obtain ⟨state, between, got, ended⟩ := bind_ok.mp ended
  obtain ⟨rfl, rfl⟩ := get_ok.mp got
  cases known : before.partials.lookup (name, table) with
  | some handle =>
    rw [known] at ended
    obtain ⟨rfl, rfl⟩ := pure_ok.mp ended
    exact ⟨ready, .refl _, ready.partials _ (mem_of_lookup known)⟩
  | none =>
    rw [known] at ended
    cases written : resolver.partial? name with
    | none =>
      rw [written] at ended
      exact absurd ended throw_ok
    | some template =>
      rw [written] at ended
      obtain ⟨handle, between, asked, ended⟩ := bind_ok.mp ended
      obtain ⟨_, last, noted, ended⟩ := bind_ok.mp ended
      obtain ⟨rfl, rfl⟩ := pure_ok.mp ended
      have changed := modify_ok.mp noted
      have registers : Resolves blocks (Resolving.enqueue (.includedIn table template))
          fun handle more => Registered more handle := enqueue trivial
      obtain ⟨stillReady, extended, right⟩ := registers before busy bound ready _ _ asked
      rw [← changed]
      refine ⟨⟨stillReady.tables, stillReady.waits, stillReady.distinct, stillReady.sources,
        stillReady.layouts, ?_⟩, ⟨extended.program, extended.pool, extended.tables,
        extended.blocks, extended.written⟩, right⟩
      intro entry member
      rcases List.mem_cons.mp member with rfl | member
      · exact right
      · exact stillReady.partials entry member

theorem withTables {before after : Compilation} {tables : SymbolTables} {busy : List Handle}
    (ready : before.Ready busy) (sound : tables.Sound) (grows : before.tables.Grows tables)
    (changed : { before with tables } = after) : after.Ready busy ∧ before.Extends after := by
  rw [← changed]
  exact ⟨⟨sound, ready.waits, ready.distinct, ready.sources, ready.layouts, ready.partials⟩,
    ⟨rfl, rfl, grows, Nat.le_refl _, fun _ _ => Iff.rfl⟩⟩

theorem newTable (parent : TableId) (locals : List String) :
    Resolves blocks (Resolving.newTable parent locals) fun _ _ => True := by
  intro before busy bound ready result after ended
  obtain ⟨state, between, got, ended⟩ := bind_ok.mp ended
  obtain ⟨rfl, rfl⟩ := get_ok.mp got
  obtain ⟨⟨table, tables⟩, between, made, ended⟩ := bind_ok.mp ended
  cases added : before.tables.block parent locals with
  | error defect =>
    rw [added] at made
    exact absurd made throw_ok
  | ok grown =>
    rw [added] at made
    obtain ⟨rfl, rfl⟩ := pure_ok.mp made
    obtain ⟨_, last, noted, ended⟩ := bind_ok.mp ended
    obtain ⟨rfl, rfl⟩ := pure_ok.mp ended
    obtain ⟨stillReady, extended⟩ := withTables ready (ready.tables.block added) (.block added)
      (modify_ok.mp noted)
    exact ⟨stillReady, extended, trivial⟩

end Resolves

end LiveTemplate
