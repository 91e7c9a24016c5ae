import Mathlib.Data.List.Nodup
import Mathlib.Data.List.Range
import Mathlib.Tactic.IntervalCases
import LiveTemplate.Proofs.Program.Tables

/-!
Names and their slots. Tables are made one after another, blocks of several programs in any order,
and every block takes its slots from the table of its program. The slots of one program are
distinct, a name keeps the slot that it was given, and a block parameter is found in the innermost
block that declares it.
-/

namespace LiveTemplate

/-- A table that is made. -/
inductive TableStep where
  | entry
  | layout (named yields : List String) (hasPartials : Bool)
  | block (parent : TableId) (locals : List String)
  deriving Repr, DecidableEq

namespace SymbolTables

def perform (tables : SymbolTables) : TableStep → Except Defect (TableId × SymbolTables)
  | .entry => .ok tables.entry
  | .layout named yields hasPartials => .ok (tables.layout named yields hasPartials)
  | .block parent locals => tables.block parent locals

def performAll : List TableStep → SymbolTables → Except Defect SymbolTables
  | [], tables => .ok tables
  | step :: rest, tables => do
    let (_, grown) ← tables.perform step
    performAll rest grown

end SymbolTables

/-- Seen from a table, the innermost block that declares the name is `block`, and the first of its
parameters of that name is the one at `place`. -/
inductive Declares (steps : List TableStep) (name : String) : TableId → TableId → Nat → Prop
  | here {id parent place : Nat} {locals : List String}
      (made : steps[id]? = some (.block parent locals))
      (first : locals.idxOf? name = some place) : Declares steps name id id place
  | around {id parent block place : Nat} {locals : List String}
      (made : steps[id]? = some (.block parent locals)) (absent : name ∉ locals)
      (outer : Declares steps name parent block place) : Declares steps name id block place

/-- A block that does not declare the name leaves it to the block around it. -/
theorem declares_iff {steps : List TableStep} {name : String} {id parent : TableId}
    {locals : List String} (written : steps[id]? = some (.block parent locals)) {block place : Nat} :
    Declares steps name id block place ↔ block = id ∧ locals.idxOf? name = some place ∨
      name ∉ locals ∧ Declares steps name parent block place := by
  constructor
  · intro declares
    cases declares with
    | here made first =>
      cases written.symm.trans made
      exact .inl ⟨rfl, first⟩
    | around made absent outer =>
      cases written.symm.trans made
      exact .inr ⟨absent, outer⟩
  · rintro (⟨rfl, first⟩ | ⟨absent, outer⟩)
    · exact .here written first
    · exact .around written absent outer

/-- What a program hands out a slot for. -/
inductive Handout where
  /-- The argument that is written at the place, whether or not its name is written again. -/
  | argument (place : Nat)
  | yield (name : String)
  | partialArgs
  /-- The parameter of the block that is written at the place. -/
  | param (block : TableId) (place : Nat)
  deriving Repr, DecidableEq

/-- What the table of this number hands out, apart from arguments. -/
def SymbolTable.handouts (table : SymbolTable) (id : TableId) : List (Handout × Symbol) :=
  table.yields.map (fun (name, slot) => (.yield name, slot)) ++
    table.locals.zipIdx.map (fun ((_, slot), place) => (.param id place, slot)) ++
    table.partialArgs.toList.map fun slot => (.partialArgs, slot)

def SymbolTable.slots (table : SymbolTable) : List Symbol :=
  (table.yields ++ table.locals).map Prod.snd ++ table.partialArgs.toList

theorem SymbolTable.handouts_snd (table : SymbolTable) (id : TableId) :
    (table.handouts id).map Prod.snd = table.slots := by
  have params : (table.locals.zipIdx.map fun ((_, slot), _) => slot) = table.locals.map Prod.snd := by
    rw [← List.zipIdx_map_fst 0 table.locals, List.map_map, List.zipIdx_map_fst]
    rfl
  simp only [handouts, slots, List.map_append, List.map_map]
  congr 2
  · exact List.map_id _

/-- How many arguments the step declares, counting a name as often as it is written. -/
def TableStep.arguments : TableStep → Nat
  | .layout named _ _ => named.length
  | _ => 0

/-- How many arguments the program declares. -/
def argumentsOf (steps : List TableStep) (program : TableId) : Nat :=
  (steps[program]?).elim 0 TableStep.arguments

theorem argumentsOf_concat {steps : List TableStep} {step : TableStep} {program : TableId}
    (bound : program < steps.length) :
    argumentsOf (steps ++ [step]) program = argumentsOf steps program := by
  rw [argumentsOf, List.getElem?_append_left bound]
  rfl

theorem argumentsOf_last (steps : List TableStep) (step : TableStep) :
    argumentsOf (steps ++ [step]) steps.length = step.arguments := by
  rw [argumentsOf, List.getElem?_concat_length]
  rfl

namespace SymbolTables

/-- What is handed out in a program, for its arguments, in its own table and in every block in it. -/
def handouts (steps : List TableStep) (tables : SymbolTables) (program : TableId) :
    List (Handout × Symbol) :=
  (List.range (argumentsOf steps program)).map (fun place => (.argument place, place)) ++
    tables.tables.toList.zipIdx.flatMap fun (table, id) =>
      if table.program = program then table.handouts id else []

/-- The slots handed out in the tables of a program. -/
def slots (tables : SymbolTables) (program : TableId) : List Symbol :=
  tables.tables.toList.flatMap fun table => if table.program = program then table.slots else []

theorem handouts_snd (steps : List TableStep) (tables : SymbolTables) (program : TableId) :
    (tables.handouts steps program).map Prod.snd =
      List.range (argumentsOf steps program) ++ tables.slots program := by
  have forget : ∀ entry : SymbolTable × TableId, (if entry.1.program = program then
        entry.1.handouts entry.2 else []).map Prod.snd =
      if entry.1.program = program then entry.1.slots else [] := by
    intro entry
    split
    · exact entry.1.handouts_snd entry.2
    · rfl
  rw [handouts, List.map_append, List.map_map, slots, List.map_flatMap]
  simp only [forget]
  rw [← List.zipIdx_map_fst 0 tables.tables.toList, List.flatMap_map, List.zipIdx_map_fst]
  exact congrArg (· ++ _) (List.map_id _)

/-- The slots of each program are distinct, and they are slots of the program's scope. -/
def Separate (tables : SymbolTables) (steps : List TableStep) : Prop :=
  ∀ (id : TableId) (table : SymbolTable), tables.tables[id]? = some table → table.program = id →
    (List.range (argumentsOf steps id) ++ tables.slots id).Nodup ∧
      ∀ slot ∈ List.range (argumentsOf steps id) ++ tables.slots id, slot < table.size

/-- A table is the same but for the number of slots of its program. -/
def Extends (before after : SymbolTables) : Prop :=
  ∀ (id : TableId) (table : SymbolTable), before.tables[id]? = some table → ∃ later : SymbolTable,
    after.tables[id]? = some later ∧ table.size ≤ later.size ∧
      later = { table with size := later.size }

namespace Extends

theorem refl (tables : SymbolTables) : tables.Extends tables :=
  fun _ table found => ⟨table, found, Nat.le_refl _, rfl⟩

theorem trans {first second third : SymbolTables} (early : first.Extends second)
    (late : second.Extends third) : first.Extends third := by
  intro id table found
  obtain ⟨middle, there, bound, same⟩ := early id table found
  obtain ⟨last, final, further, alike⟩ := late id middle there
  refine ⟨last, final, Nat.le_trans bound further, ?_⟩
  rw [alike, same]

theorem add (tables : SymbolTables) (table : SymbolTable) : tables.Extends (tables.add table).2 :=
  fun _ found there => ⟨found, getElem?_push_of_some there, Nat.le_refl _, rfl⟩

theorem widen {tables : SymbolTables} {id : TableId} {program : SymbolTable} (more : Nat)
    (here : tables.tables[id]? = some program) : tables.Extends (tables.widen id program more) :=
  fun _ _ there => getElem?_widen more here there

end Extends

/-! What is made -/

/-- The table of a layout. -/
def laidOut (id : TableId) (named yields : List String) (hasPartials : Bool) : SymbolTable :=
  let blocks := ((yields ++ [attrsBlock]).map canonicalYield).eraseDups
  let size := named.length + blocks.length
  { kind := .layout
    program := id
    named := argumentSlots named
    yields := blocks.zipIdx named.length
    partialArgs := if hasPartials then some size else none
    size := if hasPartials then size + 1 else size }

/-- The table of a block whose slots are counted on from `first`. -/
def nestedIn (around : SymbolTable) (parent : TableId) (locals : List String) (first : Symbol) :
    SymbolTable where
  kind := .block
  program := around.program
  parent := some parent
  locals := locals.zipIdx first
  enclosing := around.locals ++ around.enclosing

@[simp] theorem nestedIn_program (around : SymbolTable) (parent : TableId) (locals : List String)
    (first : Symbol) : (nestedIn around parent locals first).program = around.program := rfl

/-- What the table that a step made holds, whatever the size of its program is by now. -/
def Made (tables : SymbolTables) (id : TableId) (table : SymbolTable) : TableStep → Prop
  | .entry => table = { kind := .entry, program := id, size := table.size }
  | .layout named yields hasPartials =>
      table = { laidOut id named yields hasPartials with size := table.size }
  | .block parent locals => parent < id ∧ ∃ around first, tables.tables[parent]? = some around ∧
      table = { nestedIn around parent locals first with size := table.size }

theorem Made.extends {tables later : SymbolTables} (grows : tables.Extends later) {id : TableId}
    {table : SymbolTable} {step : TableStep} (made : tables.Made id table step) (size : Nat) :
    later.Made id { table with size := size } step := by
  cases step with
  | entry =>
    have same : table = { kind := .entry, program := id, size := table.size } := made
    rw [same]
    rfl
  | layout named yields hasPartials =>
    have same : table = { laidOut id named yields hasPartials with size := table.size } := made
    rw [same]
    rfl
  | block parent locals =>
    obtain ⟨before, around, first, found, same⟩ := made
    obtain ⟨wider, there, -, alike⟩ := grows parent around found
    refine ⟨before, wider, first, there, ?_⟩
    rw [same, alike]
    rfl

/-- The tables are those that the steps made, in their order. -/
structure Recorded (steps : List TableStep) (tables : SymbolTables) : Prop where
  count : tables.tables.size = steps.length
  made : ∀ id step, steps[id]? = some step → ∃ table,
    tables.tables[id]? = some table ∧ tables.Made id table step

namespace Recorded

variable {steps : List TableStep} {tables : SymbolTables}

theorem empty : Recorded [] {} := ⟨rfl, by simp⟩

theorem step_of (recorded : Recorded steps tables) {id : TableId} {table : SymbolTable}
    (found : tables.tables[id]? = some table) :
    ∃ step, steps[id]? = some step ∧ tables.Made id table step := by
  have bound := (Array.getElem?_eq_some_iff.mp found).1
  rw [recorded.count] at bound
  have there := List.getElem?_eq_getElem bound
  obtain ⟨same, holds, made⟩ := recorded.made id _ there
  rw [found] at holds
  cases holds
  exact ⟨_, there, made⟩

/-- The program of a table is a table that belongs to itself and that is no block. -/
theorem program_of (recorded : Recorded steps tables) (id : TableId) (table : SymbolTable)
    (found : tables.tables[id]? = some table) : ∃ program,
      tables.tables[table.program]? = some program ∧ program.program = table.program ∧
        program.kind ≠ .block ∧ (table.kind ≠ .block → table.program = id) := by
  -- The program of a block is that of the table around it, which was made before.
  induction id using Nat.strongRecOn generalizing table with
  | _ id ih =>
    obtain ⟨step, -, made⟩ := recorded.step_of found
    cases step with
    | entry =>
      have same : table = { kind := .entry, program := id, size := table.size } := made
      have own : table.program = id := by rw [same]
      refine ⟨table, by rw [own]; exact found, by rw [own], by rw [same]; simp, fun _ => own⟩
    | layout named yields hasPartials =>
      have same : table = { laidOut id named yields hasPartials with size := table.size } := made
      have own : table.program = id := by rw [same]; rfl
      refine ⟨table, by rw [own]; exact found, by rw [own], by rw [same]; simp [laidOut],
        fun _ => own⟩
    | block parent locals =>
      obtain ⟨before, around, first, there, same⟩ := made
      obtain ⟨program, owner, own, kind, -⟩ := ih parent before around there
      have inherited : table.program = around.program := by
        rw [same]
        rfl
      rw [inherited]
      refine ⟨program, owner, own, kind, fun other => ?_⟩
      rw [same] at other
      exact absurd rfl other

/-- One more table is made at the end. -/
theorem add (recorded : Recorded steps tables) {step : TableStep} {table : SymbolTable}
    (made : (tables.add table).2.Made tables.tables.size table step) :
    Recorded (steps ++ [step]) (tables.add table).2 := by
  refine ⟨?_, fun id other found => ?_⟩
  · have size : (tables.add table).2.tables.size = tables.tables.size + 1 := Array.size_push _
    rw [size, recorded.count, List.length_append, List.length_singleton]
  · rw [List.getElem?_append] at found
    split at found
    · obtain ⟨old, there, before⟩ := recorded.made id other found
      exact ⟨old, getElem?_push_of_some there, before.extends (.add tables table) old.size⟩
    · rename_i outside
      have bound := (List.getElem?_eq_some_iff.mp found).1
      have last : id = steps.length := Nat.le_antisymm
        (Nat.sub_eq_zero_iff_le.mp (Nat.lt_one_iff.mp bound)) (Nat.not_lt.mp outside)
      rw [last, ← recorded.count] at found ⊢
      rw [recorded.count, Nat.sub_self] at found
      cases found
      exact ⟨table, Array.getElem?_push_size, made⟩

theorem widen (recorded : Recorded steps tables) {id : TableId} {program : SymbolTable}
    (more : Nat) (here : tables.tables[id]? = some program) :
    Recorded steps (tables.widen id program more) := by
  refine ⟨?_, fun other step found => ?_⟩
  · rw [← recorded.count]
    exact Array.size_setIfInBounds
  · obtain ⟨old, there, made⟩ := recorded.made other step found
    obtain ⟨wide, final, -, same⟩ := getElem?_widen more here there
    refine ⟨wide, final, ?_⟩
    rw [same]
    exact made.extends (.widen more here) wide.size

end Recorded

/-! Slots are handed out once -/

theorem slots_add (tables : SymbolTables) (table : SymbolTable) (program : TableId) :
    (tables.add table).2.slots program =
      tables.slots program ++ if table.program = program then table.slots else [] := by
  have pushed : (tables.add table).2.tables.toList = tables.tables.toList ++ [table] :=
    Array.toList_push
  rw [slots, pushed, List.flatMap_append, List.flatMap_singleton, slots]

theorem slots_widen {tables : SymbolTables} {id : TableId} {wide : SymbolTable} (more : Nat)
    (here : tables.tables[id]? = some wide) (program : TableId) :
    (tables.widen id wide more).slots program = tables.slots program := by
  have written : (tables.widen id wide more).tables.toList =
      tables.tables.toList.set id { wide with size := wide.size + more } :=
    Array.toList_setIfInBounds
  obtain ⟨bound, there⟩ := Array.getElem?_eq_some_iff.mp here
  rw [slots, written, List.flatMap_def, List.map_set, slots, List.flatMap_def]
  congr 1
  apply List.ext_getElem?
  intro other
  rw [List.getElem?_set]
  split
  · subst other
    simp [bound, there, SymbolTable.slots]
  · rfl

theorem argumentSlots_concat (names : List String) (name : String) :
    argumentSlots (names ++ [name]) =
      (argumentSlots names).filter (·.1 ≠ name) ++ [(name, names.length)] := by
  simp [argumentSlots, List.zipIdx_append, List.foldl_append]

theorem mem_argumentSlots (names : List String) (name : String) :
    name ∈ (argumentSlots names).map Prod.fst ↔ name ∈ names := by
  induction names using List.reverseRecOn with
  | nil => simp [argumentSlots]
  | append_singleton rest last ih =>
    rw [argumentSlots_concat, List.map_append, List.mem_append, List.mem_append, ← ih]
    by_cases same : name = last <;> simp [same]

/-- Slots counted on from a bound are not among those below it. -/
theorem nodup_append_range' {old : List Symbol} (bound : Nat) (distinct : old.Nodup)
    (below : ∀ slot ∈ old, slot < bound) (count : Nat) :
    (old ++ List.range' bound count).Nodup ∧
      ∀ slot ∈ old ++ List.range' bound count, slot < bound + count := by
  constructor
  · refine distinct.append List.nodup_range' fun slot before after => ?_
    exact absurd (List.mem_range'_1.mp after).1 (Nat.not_le.mpr (below slot before))
  · intro slot member
    rcases List.mem_append.mp member with before | after
    · exact Nat.lt_of_lt_of_le (below slot before) (Nat.le_add_right _ _)
    · exact (List.mem_range'_1.mp after).2

theorem Recorded.slots_outside {steps : List TableStep} {tables : SymbolTables}
    (recorded : Recorded steps tables) : tables.slots tables.tables.size = [] := by
  refine List.flatMap_eq_nil_iff.mpr fun table member => if_neg fun own => ?_
  obtain ⟨id, bound, there⟩ := List.getElem_of_mem member
  obtain ⟨program, owner, -⟩ := recorded.program_of id table
    (Array.getElem?_eq_some_iff.mpr ⟨by simpa using bound, by simpa using there⟩)
  rw [own] at owner
  exact absurd (Array.getElem?_eq_some_iff.mp owner).1 (Nat.lt_irrefl _)

namespace Separate

variable {steps : List TableStep} {tables : SymbolTables}

/-- A table that is its own program brings its own slots. -/
theorem add (separate : tables.Separate steps) (recorded : Recorded steps tables)
    {table : SymbolTable} {step : TableStep} (own : table.program = tables.tables.size)
    (fresh : (List.range step.arguments ++ table.slots).Nodup ∧
      ∀ slot ∈ List.range step.arguments ++ table.slots, slot < table.size) :
    (tables.add table).2.Separate (steps ++ [step]) := by
  intro id found there itself
  rw [slots_add]
  rcases getElem?_of_push there with old | ⟨rfl, rfl⟩
  · have bound := (Array.getElem?_eq_some_iff.mp old).1
    have other : table.program ≠ id := by
      rw [own]
      exact (Nat.ne_of_lt bound).symm
    rw [if_neg other, List.append_nil, argumentsOf_concat (recorded.count ▸ bound)]
    exact separate id found old itself
  · rw [if_pos own, recorded.slots_outside, List.nil_append, recorded.count, argumentsOf_last]
    exact fresh

/-- A block takes the slots that come next in its program. -/
theorem block (separate : tables.Separate steps) (recorded : Recorded steps tables)
    {view : SymbolView} {parent : TableId} (found : tables.view parent = .ok view)
    (locals : List String) :
    ((tables.widen view.table.program view.program locals.length).add
      (nestedIn view.table parent locals view.size)).2.Separate
        (steps ++ [.block parent locals]) := by
  obtain ⟨-, owner⟩ := view_ok.mp found
  have bound := (Array.getElem?_eq_some_iff.mp owner).1
  intro id table there itself
  rw [slots_add, slots_widen _ owner]
  rcases getElem?_of_push there with old | ⟨rfl, rfl⟩
  · have before : id < steps.length := by
      have inside := (Array.getElem?_eq_some_iff.mp old).1
      rw [← recorded.count]
      simpa [SymbolTables.widen] using inside
    rw [argumentsOf_concat before]
    rw [SymbolTables.widen, Array.getElem?_setIfInBounds] at old
    split at old
    · rename_i same
      rw [← same] at itself
      rw [← same, nestedIn_program, if_pos rfl]
      cases old
      obtain ⟨distinct, below⟩ := separate _ view.program owner itself
      have taken := nodup_append_range' _ distinct below locals.length
      simpa [SymbolTable.slots, nestedIn, SymbolView.size, List.zipIdx_map_snd] using taken
    · rename_i other
      rw [nestedIn_program, if_neg other, List.append_nil]
      exact separate id table old itself
  · refine absurd itself (Nat.ne_of_lt ?_)
    rw [nestedIn_program]
    simpa [SymbolTables.widen] using bound

end Separate

/-! The run -/

variable {steps : List TableStep} {tables : SymbolTables}

/-- A table is found again after more was added. -/
theorem Extends.view {before after : SymbolTables} (grows : before.Extends after) {id : TableId}
    {view : SymbolView} (found : before.view id = .ok view) : ∃ later,
      after.view id = .ok later ∧ view.size ≤ later.size ∧
        later.table = { view.table with size := later.table.size } ∧
        later.program = { view.program with size := later.program.size } := by
  obtain ⟨there, owner⟩ := view_ok.mp found
  obtain ⟨table, tableThere, -, same⟩ := grows id _ there
  obtain ⟨program, programThere, size, alike⟩ := grows _ _ owner
  refine ⟨⟨table, program⟩, view_ok.mpr ⟨tableThere, ?_⟩, size, same, alike⟩
  rw [same]
  exact programThere

theorem lookup_zipIdx (names : List String) (first : Nat) (name : String) :
    (names.zipIdx first).lookup name = (names.idxOf? name).map (first + ·) := by
  induction names generalizing first with
  | nil => rfl
  | cons head rest ih =>
    rw [List.zipIdx_cons, List.idxOf?_cons, List.lookup_cons, ih]
    by_cases same : name = head
    · simp [same]
    · have other : (head == name) = false := by simpa using Ne.symm same
      have apart : (name == head) = false := by simpa using same
      rw [apart, other]
      simp only [Bool.false_eq_true, if_false, Option.map_map]
      congr 1
      funext place
      exact Nat.succ_add_eq_add_succ first place

/-- The table of a block holds its own parameters, and those of the block around it. -/
theorem Recorded.block_of (recorded : Recorded steps tables) {id parent : TableId}
    {locals : List String} (written : steps[id]? = some (.block parent locals)) {view : SymbolView}
    (found : tables.view id = .ok view) : parent < id ∧ ∃ first outer,
      tables.view parent = .ok outer ∧ outer.program = view.program ∧
        outer.table.program = view.table.program ∧ view.table.locals = locals.zipIdx first ∧
          view.table.enclosing = outer.table.locals ++ outer.table.enclosing := by
  obtain ⟨there, owner⟩ := view_ok.mp found
  obtain ⟨table, same, before, around, first, aroundThere, made⟩ := recorded.made id _ written
  cases there.symm.trans same
  have inherited : view.table.program = around.program := by
    rw [made]
    rfl
  rw [inherited] at owner
  refine ⟨before, first, ⟨around, view.program⟩, view_ok.mpr ⟨aroundThere, owner⟩, rfl,
    inherited.symm, ?_, ?_⟩
  · rw [made]
    rfl
  · rw [made]
    rfl

/-- Only blocks have parameters. -/
theorem Recorded.local_of_program (recorded : Recorded steps tables) {id : TableId}
    {view : SymbolView} (found : tables.view id = .ok view)
    (outermost : ∀ parent locals, steps[id]? ≠ some (.block parent locals)) (name : String) :
    view.local? name = none := by
  obtain ⟨step, written, made⟩ := recorded.step_of (view_ok.mp found).1
  cases step with
  | entry =>
    have same : view.table = { kind := .entry, program := id, size := view.table.size } := made
    rw [SymbolView.local?, same]
    rfl
  | layout named yields hasPartials =>
    have same : view.table =
      { laidOut id named yields hasPartials with size := view.table.size } := made
    rw [SymbolView.local?, same]
    rfl
  | block parent locals => exact absurd written (outermost parent locals)

/-- A block parameter is found in the innermost block that declares it. -/
theorem Recorded.local_iff (recorded : Recorded steps tables) (name : String) (symbol : Symbol)
    (id : TableId) (view : SymbolView) (found : tables.view id = .ok view) :
    view.local? name = some symbol ↔ ∃ block place inner, Declares steps name id block place ∧
      tables.view block = .ok inner ∧ inner.table.program = view.table.program ∧
        inner.params[place]? = some symbol := by
  -- Blocks are nested in blocks that were made before them.
  induction id using Nat.strongRecOn generalizing view with
  | _ id ih =>
    by_cases nested : ∃ parent locals, steps[id]? = some (.block parent locals)
    · obtain ⟨parent, locals, written⟩ := nested
      obtain ⟨before, first, outer, around, program, owner, own, enclosing⟩ :=
        recorded.block_of written found
      have looked : view.local? name =
          ((locals.idxOf? name).map (first + ·)).or (outer.local? name) := by
        rw [SymbolView.local?, own, enclosing, List.lookup_append, lookup_zipIdx]
        rfl
      have params : view.params = List.range' first locals.length := by
        rw [SymbolView.params, own, List.zipIdx_map_snd]
      rw [looked]
      simp only [declares_iff written]
      cases here : locals.idxOf? name with
      | some place =>
        have bound : place < locals.length := (List.idxOf?_eq_some_iff.mp here).1
        have member : name ∈ locals := List.isSome_idxOf?.mp (by rw [here]; rfl)
        have slot : view.params[place]? = some (first + place) := by
          rw [params, List.getElem?_range' bound, Nat.one_mul]
        rw [Option.map_some, Option.some_or]
        constructor
        · rintro same
          exact ⟨id, place, view, .inl ⟨rfl, rfl⟩, found, rfl, slot.trans same⟩
        · rintro ⟨block, other, inner, ⟨rfl, again⟩ | ⟨absent, -⟩, there, -, answer⟩
          · cases again
            cases there.symm.trans found
            exact slot.symm.trans answer
          · exact absurd member absent
      | none =>
        have absent := List.idxOf?_eq_none_iff.mp here
        rw [Option.map_none, Option.none_or, ih parent before outer around]
        constructor
        · rintro ⟨block, place, inner, declares, there, same, answer⟩
          exact ⟨block, place, inner, .inr ⟨absent, declares⟩, there, same.trans owner, answer⟩
        · rintro ⟨block, place, inner, ⟨-, again⟩ | ⟨-, further⟩, there, same, answer⟩
          · cases again
          · exact ⟨block, place, inner, further, there, same.trans owner.symm, answer⟩
    · have outermost : ∀ parent locals, steps[id]? ≠ some (.block parent locals) :=
        fun parent locals written => nested ⟨parent, locals, written⟩
      rw [recorded.local_of_program found outermost name]
      refine iff_of_false (by simp) ?_
      rintro ⟨block, place, inner, declares, -⟩
      cases declares with
      | here made _ => exact outermost _ _ made
      | around made _ _ => exact outermost _ _ made

/-- The program of a table is what the step that made it says. -/
theorem Recorded.made_of (recorded : Recorded steps tables) {id : TableId} {view : SymbolView}
    (found : tables.view id = .ok view) {step : TableStep}
    (written : steps[view.table.program]? = some step) :
    tables.Made view.table.program view.program step := by
  obtain ⟨-, owner⟩ := view_ok.mp found
  obtain ⟨table, same, made⟩ := recorded.made _ _ written
  cases owner.symm.trans same
  exact made

theorem Recorded.own_of (recorded : Recorded steps tables) {id : TableId} {view : SymbolView}
    (found : tables.view id = .ok view) : view.program.program = view.table.program := by
  obtain ⟨there, owner⟩ := view_ok.mp found
  obtain ⟨program, same, own, -⟩ := recorded.program_of id _ there
  cases owner.symm.trans same
  exact own

/-- Everything in a layout sees its arguments. -/
theorem Recorded.named_of (recorded : Recorded steps tables) {id : TableId} {view : SymbolView}
    (found : tables.view id = .ok view) {named yields : List String} {hasPartials : Bool}
    (written : steps[view.table.program]? = some (.layout named yields hasPartials))
    (name : String) : view.named? name = (argumentSlots named).lookup name := by
  have laid : view.program = { laidOut view.table.program named yields hasPartials with
    size := view.program.size } := recorded.made_of found written
  rw [SymbolView.named?, laid]
  rfl

/-- A layout has the arguments and the blocks that it was made with, and everything in it sees
them. -/
theorem Recorded.layout_of (recorded : Recorded steps tables) {id : TableId} {view : SymbolView}
    (found : tables.view id = .ok view) {named yields : List String} {hasPartials : Bool}
    (written : steps[view.table.program]? = some (.layout named yields hasPartials)) :
    (∀ name, (view.named? name).isSome ↔ name ∈ named) ∧
      (∀ name, (view.yield? name).isSome ↔
        canonicalYield name ∈ (yields ++ [attrsBlock]).map canonicalYield) ∧
      view.partialArgs.isSome = hasPartials := by
  have laid : view.program = { laidOut view.table.program named yields hasPartials with
    size := view.program.size } := recorded.made_of found written
  refine ⟨fun name => ?_, fun name => ?_, ?_⟩
  · rw [recorded.named_of found written, List.lookup_isSome_iff, ← mem_argumentSlots, List.mem_map]
    simp only [beq_iff_eq]
    simp only [eq_comm]
  · have blocks : view.yield? name = (((yields ++ [attrsBlock]).map canonicalYield).eraseDups.zipIdx
        named.length).lookup (canonicalYield name) := by
      rw [SymbolView.yield?, laid]
      rfl
    rw [blocks, lookup_zipIdx, Option.isSome_map, List.isSome_idxOf?, List.mem_eraseDups]
  · rw [SymbolView.partialArgs, laid]
    cases hasPartials <;> rfl

theorem lookup_filter_ne {slots : List (String × Symbol)} {name other : String}
    (apart : name ≠ other) :
    (slots.filter (·.1 ≠ other)).lookup name = slots.lookup name := by
  induction slots with
  | nil => rfl
  | cons first rest ih =>
    obtain ⟨called, slot⟩ := first
    by_cases same : called = other
    · have skipped : (name == called) = false := by simpa [same] using apart
      rw [List.filter_cons_of_neg (by simpa using same), ih, List.lookup_cons, skipped]
    · rw [List.filter_cons_of_pos (by simpa using same), List.lookup_cons, List.lookup_cons, ih]

/-- An argument stands for the slot of the last place where its name is written. -/
theorem lookup_argumentSlots (names : List String) (name : String) (symbol : Symbol) :
    (argumentSlots names).lookup name = some symbol ↔
      names[symbol]? = some name ∧ name ∉ names.drop (symbol + 1) := by
  induction names using List.reverseRecOn with
  | nil => simp [argumentSlots]
  | append_singleton rest last ih =>
    rw [argumentSlots_concat, List.lookup_append]
    by_cases same : name = last
    · subst same
      have removed : ((argumentSlots rest).filter (·.1 ≠ name)).lookup name = none :=
        List.lookup_eq_none_iff.mpr fun entry member => by
          simpa using Ne.symm (of_decide_eq_true (List.mem_filter.mp member).2)
      rw [removed, Option.none_or, List.lookup_cons_self]
      constructor
      · intro last
        cases last
        exact ⟨List.getElem?_concat_length, by simp⟩
      · rintro ⟨here, last⟩
        have bound := (List.getElem?_eq_some_iff.mp here).1
        rw [List.length_append, List.length_singleton] at bound
        refine congrArg some (Nat.le_antisymm (Nat.not_lt.mp fun early => last ?_)
          (Nat.le_of_lt_succ bound))
        rw [List.drop_append_of_le_length early]
        exact List.mem_append_right _ List.mem_cons_self
    · have skipped : (name == last) = false := by simpa using same
      rw [lookup_filter_ne same, List.lookup_cons, skipped, List.lookup_nil, Option.or_none, ih]
      have here : (rest ++ [last])[symbol]? = some name ↔ rest[symbol]? = some name := by
        rw [List.getElem?_append]
        split
        · rfl
        · rename_i outside
          rw [List.getElem?_eq_none (Nat.not_lt.mp outside)]
          refine iff_of_false (fun found => ?_) nofun
          exact same (List.mem_singleton.mp (List.mem_of_getElem? found))
      rw [here]
      refine and_congr_right fun there => ?_
      have bound := (List.getElem?_eq_some_iff.mp there).1
      rw [List.drop_append_of_le_length bound, List.mem_append, List.mem_singleton,
        or_iff_left same]

theorem mem_handouts {id : TableId} {table : SymbolTable} (found : tables.tables[id]? = some table)
    {entry : Handout × Symbol} (member : entry ∈ table.handouts id) :
    entry ∈ tables.handouts steps table.program := by
  refine List.mem_append_right _ (List.mem_flatMap.mpr ⟨(table, id), ?_, ?_⟩)
  · rw [List.mem_zipIdx_iff_getElem?]
    simpa using found
  · dsimp only
    rwa [if_pos rfl]

/-- What was handed out in a program, as the lookups from its tables tell it. The slot of an argument
is what its name stands for as long as no further argument is written. -/
inductive Handed (steps : List TableStep) (tables : SymbolTables) (program : TableId) :
    Handout → Symbol → Prop
  | argument {named yields : List String} {hasPartials : Bool} {place : Nat} {name : String}
      {symbol : Symbol} (made : steps[program]? = some (.layout named yields hasPartials))
      (written : named[place]? = some name)
      (given : (argumentSlots (named.take (place + 1))).lookup name = some symbol) :
      Handed steps tables program (.argument place) symbol
  | yield {id : TableId} {view : SymbolView} {name : String} {symbol : Symbol}
      (found : tables.view id = .ok view) (inside : view.table.program = program)
      (given : view.yield? name = some symbol) :
      Handed steps tables program (.yield (canonicalYield name)) symbol
  | partialArgs {id : TableId} {view : SymbolView} {symbol : Symbol}
      (found : tables.view id = .ok view) (inside : view.table.program = program)
      (given : view.partialArgs = some symbol) :
      Handed steps tables program .partialArgs symbol
  | param {block : TableId} {view : SymbolView} {place : Nat} {symbol : Symbol}
      (found : tables.view block = .ok view) (inside : view.table.program = program)
      (given : view.params[place]? = some symbol) :
      Handed steps tables program (.param block place) symbol

/-- An argument is handed out the slot of its place. -/
theorem handed_argument {program : TableId} {named yields : List String} {hasPartials : Bool}
    (made : steps[program]? = some (.layout named yields hasPartials)) {place : Nat}
    {symbol : Symbol} : Handed steps tables program (.argument place) symbol ↔
      symbol = place ∧ place < named.length := by
  constructor
  · rintro (⟨again, written, given⟩)
    cases made.symm.trans again
    obtain ⟨here, last⟩ := (lookup_argumentSlots _ _ _).mp given
    have bound := (List.getElem?_eq_some_iff.mp here).1
    rw [List.length_take] at bound
    refine ⟨Nat.le_antisymm (by omega) (Nat.not_lt.mp fun early => last ?_),
      (List.getElem?_eq_some_iff.mp written).1⟩
    refine List.mem_of_getElem? (i := place - (symbol + 1)) ?_
    rw [List.getElem?_drop, Nat.add_sub_cancel' early, List.getElem?_take_of_lt (Nat.lt_succ_self _)]
    exact written
  · rintro ⟨rfl, bound⟩
    have written := List.getElem?_eq_getElem bound
    refine .argument made written ((lookup_argumentSlots _ _ _).mpr ⟨?_, ?_⟩)
    · rw [List.getElem?_take_of_lt (Nat.lt_succ_self _)]
      exact written
    · rw [List.drop_take, Nat.sub_self, List.take_zero]
      exact List.not_mem_nil

theorem Recorded.mem_handouts (recorded : Recorded steps tables) {program : TableId}
    {one : Handout} {symbol : Symbol} (handed : Handed steps tables program one symbol) :
    (one, symbol) ∈ tables.handouts steps program := by
  have ofProgram : ∀ {id : TableId} {view : SymbolView}, tables.view id = .ok view →
      view.table.program = program → (one, symbol) ∈ view.program.handouts program →
        (one, symbol) ∈ tables.handouts steps program := by
    rintro id view found rfl member
    have among : (one, symbol) ∈ tables.handouts steps _ :=
      SymbolTables.mem_handouts (view_ok.mp found).2 member
    rwa [recorded.own_of found] at among
  cases handed with
  | argument made written given =>
    have handed : Handed steps tables program _ symbol := .argument made written given
    obtain ⟨rfl, bound⟩ := (handed_argument made).mp handed
    refine List.mem_append_left _ (List.mem_map_of_mem (List.mem_range.mpr ?_))
    rw [argumentsOf, made]
    exact bound
  | yield found inside given =>
    refine ofProgram found inside (List.mem_append_left _ (List.mem_append_left _ ?_))
    exact List.mem_map_of_mem (f := fun (name, slot) => (Handout.yield name, slot))
      (mem_of_lookup given)
  | partialArgs found inside given =>
    refine ofProgram found inside (List.mem_append_right _ ?_)
    exact List.mem_map_of_mem (f := fun slot => (Handout.partialArgs, slot))
      (Option.mem_toList.mpr given)
  | @param block view place _ found inside given =>
    subst inside
    refine SymbolTables.mem_handouts (view_ok.mp found).1
      (List.mem_append_left _ (List.mem_append_right _ ?_))
    rw [SymbolView.params, List.getElem?_map] at given
    obtain ⟨entry, here, rfl⟩ := Option.map_eq_some_iff.mp given
    exact List.mem_map.mpr ⟨(entry, place), List.mem_zipIdx_iff_getElem?.mpr here, rfl⟩

/-- Every layout can be asked for the attributes that it was invoked with. -/
theorem Recorded.attributes (recorded : Recorded steps tables) {id : TableId} {view : SymbolView}
    (found : tables.view id = .ok view) (layout : view.programKind = .layout) :
    (view.yield? attrsBlock).isSome := by
  obtain ⟨-, owner⟩ := view_ok.mp found
  obtain ⟨step, written, made⟩ := recorded.step_of owner
  cases step with
  | entry =>
    have same : view.program =
      { kind := .entry, program := view.table.program, size := view.program.size } := made
    rw [SymbolView.programKind, same] at layout
    cases layout
  | layout named yields hasPartials =>
    refine ((recorded.layout_of found written).2.1 attrsBlock).mpr ?_
    exact List.mem_map_of_mem (List.mem_append_right _ List.mem_cons_self)
  | block parent locals =>
    obtain ⟨-, around, first, -, same⟩ := made
    rw [SymbolView.programKind, same] at layout
    cases layout

theorem Recorded.arguments_of (recorded : Recorded steps tables) {id : TableId} {view : SymbolView}
    (found : tables.view id = .ok view) {named yields : List String} {hasPartials : Bool}
    (written : steps[view.table.program]? = some (.layout named yields hasPartials))
    (name : String) (symbol : Symbol) : view.named? name = some symbol ↔
      ∃ place, named[place]? = some name ∧ name ∉ named.drop (place + 1) ∧
        Handed steps tables view.table.program (.argument place) symbol := by
  rw [recorded.named_of found written, lookup_argumentSlots]
  simp only [handed_argument written]
  constructor
  · rintro ⟨here, last⟩
    exact ⟨symbol, here, last, rfl, (List.getElem?_eq_some_iff.mp here).1⟩
  · rintro ⟨place, here, last, rfl, -⟩
    exact ⟨here, last⟩

/-- An entry point declares nothing itself. -/
theorem Recorded.bare (recorded : Recorded steps tables) {id : TableId} {view : SymbolView}
    (found : tables.view id = .ok view) (written : steps[view.table.program]? = some .entry) :
    (∀ name, view.named? name = none ∧ view.yield? name = none) ∧ view.partialArgs = none := by
  have plain : view.program =
    { kind := .entry, program := view.table.program, size := view.program.size } :=
      recorded.made_of found written
  rw [SymbolView.partialArgs, plain]
  refine ⟨fun name => ?_, rfl⟩
  rw [SymbolView.named?, SymbolView.yield?, plain]
  exact ⟨rfl, rfl⟩

/-- A table that is no block is a program of its own. -/
theorem Recorded.outermost (recorded : Recorded steps tables) {id : TableId} {view : SymbolView}
    (found : tables.view id = .ok view)
    (unnested : ∀ parent locals, steps[id]? ≠ some (.block parent locals)) :
    view.table.program = id := by
  have there := (view_ok.mp found).1
  obtain ⟨-, -, -, -, itself⟩ := recorded.program_of id _ there
  refine itself fun nested => ?_
  obtain ⟨step, written, made⟩ := recorded.step_of there
  cases step with
  | entry =>
    have same : view.table = { kind := .entry, program := id, size := view.table.size } := made
    rw [same] at nested
    cases nested
  | layout named yields hasPartials =>
    have same : view.table =
      { laidOut id named yields hasPartials with size := view.table.size } := made
    rw [same] at nested
    cases nested
  | block parent locals => exact unnested parent locals written

/-- What the names of a table stand for after the steps. -/
structure Resolves (steps : List TableStep) (tables : SymbolTables) (id : TableId)
    (view : SymbolView) : Prop where
  /-- A block belongs to the program of the table that it is nested in. -/
  inside : ∀ parent locals, steps[id]? = some (.block parent locals) →
    ∃ around, tables.view parent = .ok around ∧ view.table.program = around.table.program
  outermost : (∀ parent locals, steps[id]? ≠ some (.block parent locals)) →
    view.table.program = id
  /-- No slot of the program was handed out for two things. -/
  distinct : ∀ one other symbol, Handed steps tables view.table.program one symbol →
    Handed steps tables view.table.program other symbol → one = other
  below : ∀ one symbol, Handed steps tables view.table.program one symbol → symbol < view.size
  /-- A block parameter is the first of its name in the innermost block that declares the name. -/
  lexical : ∀ name symbol, view.local? name = some symbol ↔ ∃ block place inner,
    Declares steps name id block place ∧ tables.view block = .ok inner ∧
      inner.table.program = view.table.program ∧ inner.params[place]? = some symbol
  params : ∀ parent locals, steps[id]? = some (.block parent locals) →
    view.params.length = locals.length
  inverse : view.yield? "else" = view.yield? "inverse"
  /-- Every argument of a layout has a slot, and its name stands for that of the last one. -/
  arguments : ∀ named yields hasPartials,
    steps[view.table.program]? = some (.layout named yields hasPartials) →
      (∀ place, (∃ symbol, Handed steps tables view.table.program (.argument place) symbol) ↔
        place < named.length) ∧
      ∀ name symbol, view.named? name = some symbol ↔ ∃ place, named[place]? = some name ∧
        name ∉ named.drop (place + 1) ∧
          Handed steps tables view.table.program (.argument place) symbol
  declared : ∀ named yields hasPartials,
    steps[view.table.program]? = some (.layout named yields hasPartials) →
      (∀ name, (view.named? name).isSome ↔ name ∈ named) ∧
        (∀ name, (view.yield? name).isSome ↔
          canonicalYield name ∈ (yields ++ [attrsBlock]).map canonicalYield) ∧
        view.partialArgs.isSome = hasPartials
  bare : steps[view.table.program]? = some .entry →
    (∀ name, view.named? name = none ∧ view.yield? name = none) ∧ view.partialArgs = none
  attributes : view.programKind = .layout → (view.yield? attrsBlock).isSome

theorem Recorded.resolves (recorded : Recorded steps tables) (separate : tables.Separate steps)
    {id : TableId} {view : SymbolView} (found : tables.view id = .ok view) :
    Resolves steps tables id view := by
  obtain ⟨distinct, below⟩ := separate _ _ (view_ok.mp found).2 (recorded.own_of found)
  rw [← handouts_snd] at distinct below
  exact {
    inside := fun parent locals written => by
      obtain ⟨-, -, outer, around, -, same, -⟩ := recorded.block_of written found
      exact ⟨outer, around, same.symm⟩
    outermost := recorded.outermost found
    distinct := fun one other symbol first second => congrArg Prod.fst
      (List.inj_on_of_nodup_map distinct (recorded.mem_handouts first)
        (recorded.mem_handouts second) rfl)
    below := fun one symbol handed => below symbol
      (List.mem_map_of_mem (f := Prod.snd) (recorded.mem_handouts handed))
    lexical := fun name symbol => recorded.local_iff name symbol id view found
    params := fun parent locals written => by
      obtain ⟨-, first, -, -, -, -, own, -⟩ := recorded.block_of written found
      rw [SymbolView.params, own, List.length_map, List.length_zipIdx]
    inverse := rfl
    arguments := fun named yields hasPartials written =>
      ⟨fun place => by simp [handed_argument written], recorded.arguments_of found written⟩
    declared := fun _ _ _ written => recorded.layout_of found written
    bare := recorded.bare found
    attributes := recorded.attributes found }

end SymbolTables

/-- Every name still stands for what it stood for, and no slot of the program is gone. -/
structure SymbolView.Keeps (before after : SymbolView) : Prop where
  locals : ∀ name, after.local? name = before.local? name
  named : ∀ name, after.named? name = before.named? name
  yields : ∀ name, after.yield? name = before.yield? name
  partialArgs : after.partialArgs = before.partialArgs
  params : after.params = before.params
  kind : after.programKind = before.programKind
  program : after.table.program = before.table.program
  size : before.size ≤ after.size

namespace SymbolTables

variable {steps : List TableStep} {tables later : SymbolTables}

theorem Extends.keeps (grows : tables.Extends later) {id : TableId} {view : SymbolView}
    (found : tables.view id = .ok view) :
    ∃ after, later.view id = .ok after ∧ view.Keeps after := by
  obtain ⟨⟨table, program⟩, there, size, same, alike⟩ := grows.view found
  refine ⟨⟨table, program⟩, there, ?_⟩
  dsimp only at same alike
  constructor
  · intro name
    rw [SymbolView.local?, same]
    rfl
  · intro name
    rw [SymbolView.named?, alike]
    rfl
  · intro name
    rw [SymbolView.yield?, alike]
    rfl
  · rw [SymbolView.partialArgs, alike]
    rfl
  · rw [SymbolView.params, same]
    rfl
  · rw [SymbolView.programKind, alike]
    rfl
  · rw [same]
  · exact size

end SymbolTables

end LiveTemplate
