import LiveTemplate.Compile.Program
import LiveTemplate.Proofs.Compile.Resolution
import LiveTemplate.Proofs.Program.Blocks
import Mathlib.Algebra.Group.Nat.Defs

/-!
Compiled programs are well formed. The queue is worked off block by block: each one gets the code
between the end of the program so far and its new end, so that the slices of the blocks follow one
another and leave no gap.
-/

namespace LiveTemplate

open Effects

namespace CompiledProgram

/-- How many blocks the program has. -/
def registered (compiled : CompiledProgram) : Nat := compiled.blocks.blocks.size

/-- The code of a block stands in its slice and refers to what there is in the program. -/
def Holds (compiled : CompiledProgram) (block : CompiledBlock) (code : Shape) : Prop :=
  ∃ view, compiled.tables.view block.table = .ok view ∧
    Shape.Stands compiled.program ⟨compiled.pool, compiled.registered, view.size, block.locals⟩
      block.slice code

/-- Every block that is compiled stands in the program, and nothing else does. -/
structure Built (compiled : CompiledProgram) : Prop where
  stands : ∀ handle block, compiled.blocks.block handle = .ok block →
    ∃ code, compiled.Holds block code
  covers : ∀ position, position < compiled.program.length →
    ∃ handle block, compiled.blocks.block handle = .ok block ∧ block.slice.contains position = true
  apart : ∀ handle other block another, compiled.blocks.block handle = .ok block →
    compiled.blocks.block other = .ok another → handle ≠ other →
    block.slice.stop ≤ another.slice.start ∨ another.slice.stop ≤ block.slice.start

end CompiledProgram

namespace Compilation

/-- The program as far as it is compiled. -/
def soFar (state : Compilation) : CompiledProgram :=
  { program := state.program, pool := state.pool, blocks := state.blocks, tables := state.tables,
    entries := [] }

/-- One block is written at the end of the program. -/
structure Wrote (before : Compilation) (block : CompiledBlock) (after : Compilation) : Prop where
  program : before.program.Keeps after.program
  pool : before.pool.Grows after.pool
  tables : before.tables.Grows after.tables
  blocks : before.registered ≤ after.registered
  written : ∀ handle other,
    after.blocks.At handle (some other) ↔ before.blocks.At handle (some other)
  slice : block.slice = ⟨before.program.length, after.program.length⟩
  holds : ∃ code, after.soFar.Holds block code

theorem Extends.wrote {before between after : Compilation} {block : CompiledBlock}
    (extended : before.Extends between) (wrote : between.Wrote block after) :
    before.Wrote block after where
  program := by
    rw [← extended.program]
    exact wrote.program
  pool := by
    rw [← extended.pool]
    exact wrote.pool
  tables := extended.tables.trans wrote.tables
  blocks := Nat.le_trans extended.blocks wrote.blocks
  written handle other := (wrote.written handle other).trans (extended.written handle other)
  slice := by
    rw [← extended.program]
    exact wrote.slice
  holds := wrote.holds

/-- With at least so many blocks registered, the computation writes one block. -/
def Compiles (blocks : Nat) (action : Resolving CompiledBlock) : Prop :=
  ∀ before busy, blocks ≤ before.registered → before.Ready busy →
    ∀ block after, action before = .ok block after →
      after.Ready busy ∧ before.Wrote block after

theorem Compiles.bind {α : Type} {first : Resolving α} {next : α → Resolving CompiledBlock}
    {good : α → Nat → Prop} {blocks : Nat} (early : Resolves blocks first good)
    (late : ∀ value more, blocks ≤ more → good value more → Compiles more (next value)) :
    Compiles blocks (first >>= next) := by
  intro before busy bound ready block after ended
  obtain ⟨value, between, one, two⟩ := bind_ok.mp ended
  obtain ⟨stillReady, extended, right⟩ := early before busy bound ready value between one
  have grown := Nat.le_trans bound extended.blocks
  obtain ⟨lastReady, wrote⟩ :=
    late value _ grown right between busy (Nat.le_refl _) stillReady block after two
  exact ⟨lastReady, extended.wrote wrote⟩

theorem write_ok {resolver : Resolver} {table : TableId} {code : Code.Place → Writing Unit}
    {before after : Compilation} {block : CompiledBlock}
    (ended : write resolver table code before = .ok block after) :
    ∃ view draft, before.tables.view table = .ok view ∧
      Writing.codeOf (code ⟨resolver, view⟩) { program := before.program, pool := before.pool } =
        .ok (block.slice, block.locals) draft ∧
      block.table = table ∧ block.params = view.params ∧
      after = { before with program := draft.program, pool := draft.pool } := by
  obtain ⟨state, between, got, ended⟩ := bind_ok.mp ended
  obtain ⟨rfl, rfl⟩ := get_ok.mp got
  obtain ⟨names, between, viewed, ended⟩ := bind_ok.mp ended
  cases found : before.tables.view table with
  | error defect =>
    rw [found] at viewed
    exact absurd viewed throw_ok
  | ok view =>
    rw [found] at viewed
    obtain ⟨rfl, rfl⟩ := pure_ok.mp viewed
    cases done : Writing.codeOf (code ⟨resolver, view⟩)
        { program := before.program, pool := before.pool } with
    | error fault draft =>
      rw [done] at ended
      exact absurd ended throw_ok
    | ok result draft =>
      obtain ⟨slice, locals⟩ := result
      rw [done] at ended
      obtain ⟨_, last, noted, ended⟩ := bind_ok.mp ended
      obtain ⟨rfl, rfl⟩ := pure_ok.mp ended
      exact ⟨view, draft, rfl, done, rfl, rfl, (modify_ok.mp noted).symm⟩

theorem Compiles.write {blocks : Nat} {resolver : Resolver} {table : TableId}
    {code : Code.Place → Writing Unit}
    (writes : ∀ (place : Code.Place) (setting : Setting), place.Fits setting →
      setting.level = false → blocks ≤ setting.blocks →
      ∀ inside, setting.Writes inside (code place)) :
    Compiles blocks (write resolver table code) := by
  intro before busy bound ready block after ended
  obtain ⟨view, draft, found, done, same, -, rfl⟩ := write_ok ended
  let setting : Setting := ⟨before.registered, view.size, false⟩
  have fits : Code.Place.Fits ⟨resolver, view⟩ setting := ⟨ready.tables.view table view found, rfl⟩
  obtain ⟨program, pool, place, shape, stands⟩ :=
    setting.codeOf_ok (writes _ setting fits rfl bound) done
  refine ⟨⟨ready.tables, ready.waits, ready.distinct, ready.sources, ready.layouts,
    ready.partials⟩, program, pool, .refl _, Nat.le_refl _, fun _ _ => Iff.rfl, place, shape,
    view, ?_, stands⟩
  rw [same]
  exact found

/-- The code of a template's statements refers to registered blocks. -/
theorem resolved_resolves {resolver : Resolver} (template : Template) (table : TableId) {blocks : Nat} :
    Resolves blocks (resolved resolver template table) fun code more =>
      (∀ first ∈ code.1, KnownCode more first) ∧ KnownCode more code.2 := by
  have prelude : Resolves blocks
      (template.prelude.mapM (Resolved.within resolver template table))
      fun code more => ∀ first ∈ code, KnownCode more first := by
    cases template.prelude with
    | none => exact .pure fun _ _ => nofun
    | some statements =>
      refine .bind (Resolved.within_resolves resolver template table statements) ?_
      intro code more _ known
      refine .pure fun _ grown => ?_
      rintro _ ⟨⟩
      exact known.mono grown
  refine .bind prelude fun code _ _ first => ?_
  refine .bind (Resolved.within_resolves resolver template table _) fun body _ grown known => ?_
  exact .pure fun _ further => ⟨fun other held => (first other held).mono (Nat.le_trans grown further),
    known.mono further⟩

theorem addTable_resolves {add : SymbolTables → TableId × SymbolTables}
    (sound : ∀ tables : SymbolTables, tables.Sound → (add tables).2.Sound)
    (grows : ∀ tables : SymbolTables, tables.Grows (add tables).2) {blocks : Nat} :
    Resolves blocks (addTable add) fun _ _ => True := by
  intro before busy bound ready result after ended
  have changed := modifyGet_ok.mp ended
  obtain ⟨stillReady, extended⟩ := Resolves.withTables ready (sound _ ready.tables) (grows _)
    (congrArg Prod.snd changed)
  exact ⟨stillReady, extended, trivial⟩

/-- Each source is compiled to one block. -/
theorem resolved_compiles {resolver : Resolver} (template : Template) (table : TableId)
    {blocks : Nat} :
    Compiles blocks (do
      let (prelude, body) ← resolved resolver template table
      write resolver table fun place => Code.entry place prelude body) := by
  refine .bind (resolved_resolves template table) fun code _ _ both => ?_
  exact .write fun place setting fits loose grown inside => Code.entry_writes fits loose
    (fun first held => (both.1 first held).mono grown) (both.2.mono grown)

theorem compileSource_compiles {resolver : Resolver} {source : Source} {blocks : Nat}
    (known : source.Known blocks) : Compiles blocks (compileSource resolver source) := by
  cases source with
  | entry template =>
    unfold compileSource
    refine .bind (addTable_resolves (fun _ sound => sound.entry) fun _ => .add _) ?_
    intro entry _ _ _
    dsimp only
    split
    · exact resolved_compiles template _
    · exact .bind (.newTable entry _) fun table _ _ _ => resolved_compiles template table
  | inline table code =>
    exact .write fun place setting fits loose grown inside =>
      Code.inline_writes fits loose (known.mono grown)
  | layout template =>
    unfold compileSource
    refine .bind (addTable_resolves (fun _ sound => sound.layout _ _ _) fun _ => .add _) ?_
    intro table _ _ _
    refine .bind (resolved_resolves template table) fun code _ _ both => ?_
    exact .write fun place setting fits loose grown inside => Code.layout_writes fits loose
      (fun first held => (both.1 first held).mono grown) (both.2.mono grown)
  | includedIn table template =>
    unfold compileSource
    refine .bind (Resolved.within_resolves resolver template table _) fun code _ _ known => ?_
    intro before busy bound ready block after ended
    obtain ⟨written, between, wrote, ended⟩ := bind_ok.mp ended
    obtain ⟨rfl, rfl⟩ := pure_ok.mp ended
    have writes : Compiles before.registered (write resolver table fun place =>
        Code.statements place code) :=
      .write fun place setting fits loose grown inside =>
        Code.statements_writes fits loose code ((known.mono bound).mono grown)
    obtain ⟨stillReady, program, pool, tables, blocks, others, slice, holds⟩ :=
      writes before busy (Nat.le_refl _) ready written between wrote
    exact ⟨stillReady, program, pool, tables, blocks, others, slice, holds⟩

/-! The queue -/

/-- The block that was written is put into the pool. -/
theorem Built.complete {before after : Compilation} {handle : Handle} {block : CompiledBlock}
    (built : before.soFar.Built) (wrote : before.Wrote block after)
    (waits : after.blocks.At handle none) :
    CompiledProgram.Built
      (soFar { after with blocks := after.blocks.complete handle block }) := by
  have size : (after.blocks.complete handle block).blocks.size = after.registered :=
    Array.size_setIfInBounds
  have either : ∀ other found, (after.blocks.complete handle block).block other = .ok found →
      other = handle ∧ found = block ∨
        other ≠ handle ∧ before.soFar.blocks.block other = .ok found := by
    intro other found there
    rcases (BlockPool.complete_at waits other _).mp (BlockPool.block_ok.mp there) with
      ⟨rfl, same⟩ | ⟨apart, old⟩
    · exact .inl ⟨rfl, Option.some.inj same⟩
    · exact .inr ⟨apart, BlockPool.block_ok.mpr ((wrote.written other found).mp old)⟩
  have kept : ∀ other found, before.soFar.blocks.block other = .ok found →
      (after.blocks.complete handle block).block other = .ok found := by
    intro other found there
    have old := (wrote.written other found).mpr (BlockPool.block_ok.mp there)
    have apart : other ≠ handle := by
      rintro rfl
      cases waits.unique old
    exact BlockPool.block_ok.mpr ((BlockPool.complete_at waits other _).mpr (.inr ⟨apart, old⟩))
  have inside : ∀ other found, before.soFar.blocks.block other = .ok found →
      found.slice.stop ≤ before.program.length := by
    intro other found there
    obtain ⟨code, view, -, stands⟩ := built.stands other found there
    exact stands.stop_le_length
  have placed := wrote.slice
  refine ⟨?_, ?_, ?_⟩
  · intro other found there
    rcases either other found there with ⟨-, rfl⟩ | ⟨-, old⟩
    · obtain ⟨code, view, known, stands⟩ := wrote.holds
      refine ⟨code, view, known, stands.grow (fun _ _ here _ => here) ?_ rfl⟩
      exact ⟨.refl _, Nat.le_of_eq size.symm, Nat.le_refl _, Nat.le_refl _⟩
    · obtain ⟨code, view, known, stands⟩ := built.stands other found old
      obtain ⟨later, knownLater, grown⟩ := wrote.tables _ view known
      refine ⟨code, later, knownLater, stands.grow wrote.program ⟨wrote.pool, ?_, grown, ?_⟩ rfl⟩
      · exact Nat.le_trans wrote.blocks (Nat.le_of_eq size.symm)
      · exact Nat.le_refl _
  · intro position bound
    by_cases early : position < before.program.length
    · obtain ⟨other, found, there, contained⟩ := built.covers position early
      exact ⟨other, found, kept other found there, contained⟩
    · refine ⟨handle, block, ?_, ?_⟩
      · exact BlockPool.block_ok.mpr ((BlockPool.complete_at waits handle _).mpr (.inl ⟨rfl, rfl⟩))
      · rw [placed]
        have late : position < after.program.length := bound
        simpa [Slice.contains] using And.intro (Nat.le_of_not_lt early) late
  · intro one two first second there too distinct
    rcases either one first there with ⟨rfl, rfl⟩ | ⟨-, old⟩
    · rcases either two second too with ⟨rfl, -⟩ | ⟨-, old⟩
      · exact absurd rfl distinct
      · right
        rw [placed]
        exact inside two second old
    · rcases either two second too with ⟨rfl, rfl⟩ | ⟨-, other⟩
      · left
        rw [placed]
        exact inside one first old
      · exact built.apart one two first second old other distinct

/-- Nothing is left to be compiled. -/
structure Finished (state : Compilation) : Prop where
  ready : state.Ready []
  queue : state.queue = []
  built : state.soFar.Built

theorem Finished.empty : Finished {} where
  ready := {
    tables := .empty
    waits := by
      intro handle
      rw [BlockPool.at_iff]
      simp [awaited]
    distinct := by simp [awaited]
    sources := by simp
    layouts := by simp
    partials := by simp }
  queue := rfl
  built := {
    stands := by
      intro handle block there
      have found := (BlockPool.at_iff.mp (BlockPool.block_ok.mp there)).2
      simp [soFar] at found
    covers := by
      intro position bound
      exact absurd bound (Nat.not_lt_zero _)
    apart := by
      intro handle other block another there
      have found := (BlockPool.at_iff.mp (BlockPool.block_ok.mp there)).2
      simp [soFar] at found }

theorem Built.extended {before after : Compilation} (built : before.soFar.Built)
    (extended : before.Extends after) : after.soFar.Built := by
  have same : ∀ handle block, after.soFar.blocks.block handle = .ok block ↔
      before.soFar.blocks.block handle = .ok block := by
    intro handle block
    rw [BlockPool.block_ok, BlockPool.block_ok]
    exact extended.written handle block
  refine ⟨?_, ?_, ?_⟩
  · intro handle block there
    obtain ⟨code, view, known, stands⟩ := built.stands handle block ((same handle block).mp there)
    obtain ⟨later, knownLater, grown⟩ := extended.tables _ view known
    refine ⟨code, later, knownLater, stands.grow ?_ ⟨?_, extended.blocks, grown, ?_⟩ rfl⟩
    · change before.program.Keeps after.program
      rw [extended.program]
      exact fun _ _ here _ => here
    · change before.pool.Grows after.pool
      rw [extended.pool]
      exact .refl _
    · exact Nat.le_refl _
  · intro position bound
    change position < after.program.length at bound
    rw [extended.program] at bound
    obtain ⟨handle, block, there, contained⟩ := built.covers position bound
    exact ⟨handle, block, (same handle block).mpr there, contained⟩
  · intro one two first second there too
    exact built.apart one two first second ((same one first).mp there) ((same two second).mp too)

theorem Ready.take {state : Compilation} {handle : Handle} {source : Source}
    {rest : List (Handle × Source)} (ready : state.Ready [])
    (waiting : state.queue = (handle, source) :: rest) :
    Ready { state with queue := rest } [handle] ∧ source.Known state.registered := by
  refine ⟨⟨ready.tables, ?_, ?_, ?_, ready.layouts, ready.partials⟩, ?_⟩
  · intro other
    simpa [awaited, waiting] using ready.waits other
  · simpa [awaited, waiting] using ready.distinct
  · intro other member
    exact ready.sources other (waiting ▸ List.mem_cons_of_mem _ member)
  · exact ready.sources (handle, source) (waiting ▸ List.mem_cons_self)

theorem Ready.complete {state : Compilation} {handle : Handle} (block : CompiledBlock)
    (ready : state.Ready [handle]) :
    Ready { state with blocks := state.blocks.complete handle block } [] ∧
      (state.blocks.complete handle block).blocks.size = state.registered := by
  have waits : state.blocks.At handle none := (ready.waits handle).mpr List.mem_cons_self
  have size : (state.blocks.complete handle block).blocks.size = state.registered :=
    Array.size_setIfInBounds
  have distinct := ready.distinct
  rw [awaited, List.singleton_append, List.nodup_cons] at distinct
  refine ⟨⟨ready.tables, ?_, distinct.2, ?_, ?_, ?_⟩, size⟩
  · intro other
    refine (BlockPool.complete_at waits other none).trans ?_
    rw [ready.waits other]
    simp only [awaited, List.singleton_append, List.mem_cons, List.nil_append, reduceCtorEq,
      and_false, false_or]
    constructor
    · rintro ⟨apart, rfl | member⟩
      · exact absurd rfl apart
      · exact member
    · intro member
      refine ⟨?_, .inr member⟩
      rintro rfl
      exact distinct.1 member
  · intro other member
    change other.2.Known (state.blocks.complete handle block).blocks.size
    rw [size]
    exact ready.sources other member
  · intro other member held present
    change Registered (state.blocks.complete handle block).blocks.size held
    rw [size]
    exact ready.layouts other member held present
  · intro other member
    change Registered (state.blocks.complete handle block).blocks.size other.2
    rw [size]
    exact ready.partials other member

/-- The first block of the queue is compiled, and then the others. -/
theorem drain_next {resolver : Resolver} {limit : Nat} {before after : Compilation}
    {handle : Handle} {source : Source} {rest : List (Handle × Source)}
    (ended : drain resolver (limit + 1) before = .ok () after)
    (waiting : before.queue = (handle, source) :: rest) :
    ∃ block written,
      compileSource resolver source { before with queue := rest } = .ok block written ∧
      drain resolver limit { written with blocks := written.blocks.complete handle block } =
        .ok () after := by
  obtain ⟨state, between, got, ended⟩ := bind_ok.mp ended
  obtain ⟨rfl, rfl⟩ := get_ok.mp got
  rw [waiting] at ended
  obtain ⟨_, taken, removed, ended⟩ := bind_ok.mp ended
  obtain ⟨block, written, compiled, ended⟩ := bind_ok.mp ended
  obtain ⟨_, completed, put, ended⟩ := bind_ok.mp ended
  have taken_eq := modify_ok.mp removed
  have completed_eq := modify_ok.mp put
  subst taken_eq completed_eq
  exact ⟨block, written, compiled, ended⟩

theorem drain_empty {resolver : Resolver} {limit : Nat} {before after : Compilation}
    (ended : drain resolver (limit + 1) before = .ok () after) (waiting : before.queue = []) :
    before = after := by
  obtain ⟨state, between, got, ended⟩ := bind_ok.mp ended
  obtain ⟨rfl, rfl⟩ := get_ok.mp got
  rw [waiting] at ended
  exact (pure_ok.mp ended).2

theorem drain_finishes {resolver : Resolver} (limit : Nat) {before after : Compilation}
    (ready : before.Ready []) (built : before.soFar.Built)
    (ended : drain resolver limit before = .ok () after) :
    after.Finished ∧ before.registered ≤ after.registered := by
  induction limit generalizing before with
  | zero => exact absurd ended throw_ok
  | succ limit ih =>
    cases waiting : before.queue with
    | nil =>
      obtain rfl := drain_empty ended waiting
      exact ⟨⟨ready, waiting, built⟩, Nat.le_refl _⟩
    | cons entry rest =>
      obtain ⟨handle, source⟩ := entry
      obtain ⟨block, written, compiled, ended⟩ := drain_next ended waiting
      obtain ⟨busy, known⟩ := ready.take waiting
      obtain ⟨stillBusy, wrote⟩ := compileSource_compiles known { before with queue := rest }
        [handle] (Nat.le_refl _) busy block written compiled
      obtain ⟨readyAgain, size⟩ := stillBusy.complete block
      have waits : written.blocks.At handle none :=
        (stillBusy.waits handle).mpr List.mem_cons_self
      have builtBefore : CompiledProgram.Built (soFar { before with queue := rest }) := built
      obtain ⟨finished, grown⟩ := ih readyAgain (Built.complete builtBefore wrote waits) ended
      refine ⟨finished, Nat.le_trans wrote.blocks (Nat.le_trans (Nat.le_of_eq size.symm) grown)⟩

theorem addEntry_finishes {resolver : Resolver} {template : Template}
    {before after : Compilation} {handle : Handle} (finished : before.Finished)
    (ended : addEntry resolver template before = .ok handle after) :
    after.Finished ∧ before.registered ≤ after.registered ∧ Registered after.registered handle := by
  obtain ⟨entry, queued, asked, ended⟩ := bind_ok.mp ended
  obtain ⟨_, drained, worked, ended⟩ := bind_ok.mp ended
  obtain ⟨rfl, rfl⟩ := pure_ok.mp ended
  have source : (Source.entry template).Known before.registered := trivial
  obtain ⟨ready, extended, registered⟩ :=
    Resolves.enqueue source before [] (Nat.le_refl _) finished.ready _ _ asked
  obtain ⟨finishes, grown⟩ := drain_finishes _ ready (Built.extended finished.built extended) worked
  exact ⟨finishes, Nat.le_trans extended.blocks grown, registered.mono grown⟩

theorem addEntries_finish {resolver : Resolver} (templates : List Template)
    {before after : Compilation} {entries : List Handle} (finished : before.Finished)
    (ended : templates.mapM (addEntry resolver) before = .ok entries after) :
    after.Finished ∧ before.registered ≤ after.registered ∧
      ∀ handle ∈ entries, Registered after.registered handle := by
  induction templates generalizing before entries with
  | nil =>
    obtain ⟨rfl, rfl⟩ := pure_ok.mp ended
    exact ⟨finished, Nat.le_refl _, by simp⟩
  | cons template rest ih =>
    rw [List.mapM_cons] at ended
    obtain ⟨handle, between, added, ended⟩ := bind_ok.mp ended
    obtain ⟨handles, last, others, ended⟩ := bind_ok.mp ended
    obtain ⟨rfl, rfl⟩ := pure_ok.mp ended
    obtain ⟨first, early, registered⟩ := addEntry_finishes finished added
    obtain ⟨lastly, late, every⟩ := ih first others
    refine ⟨lastly, Nat.le_trans early late, fun other member => ?_⟩
    rcases List.mem_cons.mp member with rfl | member
    · exact registered.mono late
    · exact every other member

end Compilation

/-- When nothing is left to be compiled, every registered block is compiled. -/
theorem Compilation.Finished.compiled {state : Compilation} (finished : state.Finished)
    (handle : Handle) (member : Registered state.registered handle) :
    ∃ block, state.blocks.block handle = .ok block := by
  obtain ⟨entry, there⟩ := BlockPool.at_of_registered member
  cases entry with
  | some block => exact ⟨block, BlockPool.block_ok.mpr there⟩
  | none =>
    have waits := (finished.ready.waits handle).mp there
    simp [Compilation.awaited, finished.queue] at waits

/-- A compilation that succeeds ends when nothing is left to be compiled. -/
theorem compile_finishes {resolver : Resolver} {templates : List Template}
    {compiled : CompiledProgram} (ended : compile resolver templates = .ok compiled) :
    ∃ state : Compilation, state.Finished ∧
      compiled = { state.soFar with entries := compiled.entries } ∧
      ∀ handle ∈ compiled.entries, Registered state.registered handle := by
  unfold compile at ended
  cases run : templates.mapM (Compilation.addEntry resolver) {} with
  | error fault state =>
    rw [run] at ended
    cases ended
  | ok entries state =>
    rw [run] at ended
    have finishes := Compilation.addEntries_finish templates .empty run
    cases ended
    exact ⟨state, finishes.1, rfl, finishes.2.2⟩

/-- Its blocks are all compiled, and nothing else is in it. -/
theorem compile_built {resolver : Resolver} {templates : List Template} {compiled : CompiledProgram}
    (ended : compile resolver templates = .ok compiled) :
    compiled.Built ∧
      (∀ handle, Registered compiled.registered handle →
        ∃ block, compiled.blocks.block handle = .ok block) ∧
      ∀ handle ∈ compiled.entries, Registered compiled.registered handle := by
  obtain ⟨state, finished, same, registered⟩ := compile_finishes ended
  rw [same]
  exact ⟨⟨finished.built.stands, finished.built.covers, finished.built.apart⟩, finished.compiled,
    registered⟩

namespace CompiledProgram

/-- What a run may rely on. -/
structure WellFormed (compiled : CompiledProgram) : Prop where
  /-- Every block has code. -/
  complete : ∀ handle, Registered compiled.registered handle →
    ∃ block, compiled.blocks.block handle = .ok block
  entries : ∀ handle ∈ compiled.entries, Registered compiled.registered handle
  inside : ∀ handle block, compiled.blocks.block handle = .ok block →
    block.slice.start < block.slice.stop ∧ block.slice.stop ≤ compiled.program.length
  /-- The slices of the blocks leave no gap. -/
  covers : ∀ position, position < compiled.program.length →
    ∃ handle block, compiled.blocks.block handle = .ok block ∧ block.slice.contains position = true
  /-- No two blocks share a position. -/
  disjoint : ∀ handle other block another position, compiled.blocks.block handle = .ok block →
    compiled.blocks.block other = .ok another → block.slice.contains position = true →
    another.slice.contains position = true → handle = other
  reserves : ∀ handle block, compiled.blocks.block handle = .ok block →
    compiled.program.fetch block.slice.start =
      .ok { op := .reserveLocals, first := block.locals }
  releases : ∀ handle block, compiled.blocks.block handle = .ok block →
    compiled.program.fetch (block.slice.stop - 1) = .ok { op := .releaseLocals }
  locals : ∀ handle block position instruction, compiled.blocks.block handle = .ok block →
    block.slice.contains position = true → compiled.program.fetch position = .ok instruction →
    instruction.op = .putLocal ∨ instruction.op = .pushLocal → instruction.first < block.locals
  /-- Every placeholder is filled in. -/
  filled : ∀ position instruction, compiled.program.fetch position = .ok instruction →
    instruction.op ≠ .noop
  jumps : ∀ handle block position instruction, compiled.blocks.block handle = .ok block →
    block.slice.contains position = true → compiled.program.fetch position = .ok instruction →
    instruction.op.isJump = true → block.slice.contains instruction.first = true
  /-- A region ends with an exit, and no jump in it goes further than to that exit. -/
  regions : ∀ position instruction, compiled.program.fetch position = .ok instruction →
    instruction.op = .enter ∨ instruction.op = .enterWithKey →
    ∃ region, compiled.pool.slice instruction.first = .ok region ∧
      compiled.program.Encloses region
  operands : ∀ handle block position instruction, compiled.blocks.block handle = .ok block →
    block.slice.contains position = true → compiled.program.fetch position = .ok instruction →
    ∃ view, compiled.tables.view block.table = .ok view ∧
      instruction.Refers ⟨compiled.pool, compiled.registered, view.size, block.locals⟩

theorem fetch_ok {program : Program} {position : Nat} {instruction : Instruction} :
    program.fetch position = .ok instruction ↔
      program.instructions[position]? = some instruction := by
  unfold Program.fetch
  cases program.instructions[position]? <;> simp

/-- Wherever a slice is kept, code of some shape stands in it. -/
theorem Built.opens {compiled : CompiledProgram} (built : compiled.Built) {position : Nat}
    {instruction : Instruction} (here : compiled.program.fetch position = .ok instruction)
    (opens : instruction.op.opensSlice = true) {slice : Slice}
    (kept : compiled.pool.slice instruction.first = .ok slice) :
    ∃ code : Shape, code.Formed ∧
      code.Placed compiled.program compiled.pool slice.start slice.stop := by
  have found := fetch_ok.mp here
  obtain ⟨handle, block, there, contained⟩ :=
    built.covers position (Array.getElem?_eq_some_iff.mp found).1
  obtain ⟨code, view, -, stands⟩ := built.stands handle block there
  have bounds : block.slice.start ≤ position ∧ position < block.slice.stop := by
    simpa [Slice.contains] using contained
  by_cases first : position = block.slice.start
  · subst first
    exact Program.OpensAt.of_other stands.reserve rfl instruction slice found opens kept
  by_cases last : position = block.slice.stop - 1
  · subst last
    exact Program.OpensAt.of_other stands.release rfl instruction slice found opens kept
  · exact stands.placed.opens stands.formed position (by omega) (by omega) instruction slice found
      opens kept

/-- What stands at a position of a block. -/
theorem Holds.at {compiled : CompiledProgram} {block : CompiledBlock} {code : Shape}
    (holds : compiled.Holds block code) (small : compiled.pool.Small) {position : Nat}
    (contained : block.slice.contains position = true) {instruction : Instruction}
    (here : compiled.program.fetch position = .ok instruction) :
    (∃ view, compiled.tables.view block.table = .ok view ∧
      instruction.Refers ⟨compiled.pool, compiled.registered, view.size, block.locals⟩) ∧
    instruction.op ≠ .noop ∧
    (instruction.op.isJump = true → block.slice.contains instruction.first = true) ∧
    (instruction.op = .enter ∨ instruction.op = .enterWithKey →
      ∃ region, compiled.pool.slice instruction.first = .ok region ∧
        compiled.program.Encloses region) := by
  obtain ⟨view, known, stands⟩ := holds
  have bounds : block.slice.start ≤ position ∧ position < block.slice.stop := by
    simpa [Slice.contains] using contained
  have found := fetch_ok.mp here
  by_cases first : position = block.slice.start
  · rw [first, stands.reserve] at found
    cases found
    exact ⟨⟨view, known, trivial⟩, by simp, by simp [Op.isJump], by simp⟩
  by_cases last : position = block.slice.stop - 1
  · rw [last, stands.release] at found
    cases found
    exact ⟨⟨view, known, trivial⟩, by simp, by simp [Op.isJump], by simp⟩
  obtain ⟨other, there, admits⟩ := stands.admits position (by omega) (by omega)
  rw [found] at there
  cases there
  refine ⟨⟨view, known, admits.refers small⟩, admits.real, fun jumps => ?_, admits.encloses⟩
  have target := admits.stays jumps
  simp only [Slice.contains, Bool.and_eq_true, decide_eq_true_eq]
  omega

end CompiledProgram

/-- Every compilation that succeeds yields a well-formed program. -/
theorem compile_wellFormed {resolver : Resolver} {templates : List Template}
    {compiled : CompiledProgram} (ended : compile resolver templates = .ok compiled)
    (small : compiled.pool.strings.size < 2 ^ 30) : compiled.WellFormed := by
  obtain ⟨built, complete, entries⟩ := compile_built ended
  have few : compiled.pool.Small := by
    have limit : Primitive.maxNumber = 2 ^ 30 - 1 := by decide
    unfold Pool.Small
    omega
  have covered : ∀ position instruction, compiled.program.fetch position = .ok instruction →
      ∃ handle block, compiled.blocks.block handle = .ok block ∧
        block.slice.contains position = true := by
    intro position instruction here
    have bound := (Array.getElem?_eq_some_iff.mp (CompiledProgram.fetch_ok.mp here)).1
    exact built.covers position bound
  refine {
    complete, entries, covers := built.covers, inside := ?inside, disjoint := ?disjoint,
    reserves := ?reserves, releases := ?releases, locals := ?locals, filled := ?filled,
    jumps := ?jumps, regions := ?regions, operands := ?operands }
  case inside =>
    intro handle block there
    obtain ⟨code, view, -, stands⟩ := built.stands handle block there
    exact ⟨stands.start_lt_stop, stands.stop_le_length⟩
  case disjoint =>
    intro handle other block another position there too contained within
    have one : block.slice.start ≤ position ∧ position < block.slice.stop := by
      simpa [Slice.contains] using contained
    have two : another.slice.start ≤ position ∧ position < another.slice.stop := by
      simpa [Slice.contains] using within
    refine Decidable.byContradiction fun distinct => ?_
    have apart := built.apart handle other block another there too distinct
    omega
  case reserves =>
    intro handle block there
    obtain ⟨code, view, -, stands⟩ := built.stands handle block there
    exact CompiledProgram.fetch_ok.mpr stands.reserve
  case releases =>
    intro handle block there
    obtain ⟨code, view, -, stands⟩ := built.stands handle block there
    exact CompiledProgram.fetch_ok.mpr stands.release
  case locals =>
    intro handle block position instruction there contained here either
    obtain ⟨code, holds⟩ := built.stands handle block there
    obtain ⟨⟨view, -, refers⟩, -⟩ := holds.at few contained here
    obtain ⟨op, first, second, third⟩ := instruction
    rcases either with rfl | rfl
    · exact refers
    · exact refers
  case filled =>
    intro position instruction here
    obtain ⟨handle, block, there, contained⟩ := covered position instruction here
    obtain ⟨code, holds⟩ := built.stands handle block there
    exact (holds.at few contained here).2.1
  case jumps =>
    intro handle block position instruction there contained here
    obtain ⟨code, holds⟩ := built.stands handle block there
    exact (holds.at few contained here).2.2.1
  case regions =>
    intro position instruction here
    obtain ⟨handle, block, there, contained⟩ := covered position instruction here
    obtain ⟨code, holds⟩ := built.stands handle block there
    exact (holds.at few contained here).2.2.2
  case operands =>
    intro handle block position instruction there contained here
    obtain ⟨code, holds⟩ := built.stands handle block there
    exact (holds.at few contained here).1

/-- Shows each item of a list. -/
def listTemplate : Template where
  block := .of [.block ⟨"each", []⟩ [.unknown ⟨"items", []⟩] [("key", .literal (.text "id"))]
    (some (.inline (.of [.append (.get ⟨"item", ["name"]⟩) false] ["item"]))) none] []
  prelude := none
  named := []
  yields := []
  hasPartials := false
  blocks := []
  description := .null

/-- Knows no names but the ones that are built in. -/
def plainResolver : Resolver where
  hasHelper _ := false
  hasModifier _ := false
  layout? _ := none
  partial? _ := none
  partialNames := []

theorem compile_wellFormed_list :
    ∃ compiled, compile plainResolver [listTemplate] = .ok compiled ∧
      compiled.pool.strings.size = 4 ∧ compiled.program.length = 23 ∧ compiled.WellFormed := by
  have succeeds : (match compile plainResolver [listTemplate] with
    | .ok compiled => compiled.pool.strings.size == 4 && compiled.program.length == 23
    | .error _ => false) = true := by decide +kernel
  generalize outcome : compile plainResolver [listTemplate] = result at succeeds
  cases result with
  | error fault => cases succeeds
  | ok compiled =>
    obtain ⟨strings, length⟩ := Bool.and_eq_true_iff.mp succeeds
    have few : compiled.pool.strings.size = 4 := eq_of_beq strings
    have small : compiled.pool.strings.size < 2 ^ 30 := by
      rw [few]
      decide
    exact ⟨compiled, rfl, few, eq_of_beq length, compile_wellFormed outcome small⟩

end LiveTemplate
