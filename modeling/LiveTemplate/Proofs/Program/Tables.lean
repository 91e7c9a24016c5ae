import LiveTemplate.Program.Symbols

/-!
Symbol tables as a program grows. Every name stands for a slot of its program, and the number of
slots of a program only rises while blocks are added to it.
-/

namespace LiveTemplate

/-- The slots that names stand for are slots of the program. -/
structure SymbolView.Sound (view : SymbolView) : Prop where
  locals : ∀ entry ∈ view.table.locals, entry.2 < view.size
  enclosing : ∀ entry ∈ view.table.enclosing, entry.2 < view.size
  named : ∀ entry ∈ view.program.named, entry.2 < view.size
  yields : ∀ entry ∈ view.program.yields, entry.2 < view.size
  partialArgs : ∀ bag ∈ view.program.partialArgs, bag < view.size

theorem mem_of_lookup {α β : Type} [BEq α] [LawfulBEq α] {entries : List (α × β)} {key : α}
    {value : β} (found : entries.lookup key = some value) : (key, value) ∈ entries := by
  obtain ⟨first, rest, rfl, -⟩ := List.lookup_eq_some_iff.mp found
  exact List.mem_append_right _ List.mem_cons_self

namespace SymbolView.Sound

variable {view : SymbolView} {name : String} {symbol : Symbol}

theorem local_lt (sound : view.Sound) (found : view.local? name = some symbol) :
    symbol < view.size := by
  rcases List.mem_append.mp (mem_of_lookup found) with member | member
  · exact sound.locals _ member
  · exact sound.enclosing _ member

theorem named_lt (sound : view.Sound) (found : view.named? name = some symbol) :
    symbol < view.size :=
  sound.named _ (mem_of_lookup found)

theorem yield_lt (sound : view.Sound) (found : view.yield? name = some symbol) :
    symbol < view.size :=
  sound.yields _ (mem_of_lookup found)

end SymbolView.Sound

namespace SymbolTables

theorem table_ok {tables : SymbolTables} {id : TableId} {table : SymbolTable} :
    tables.table id = .ok table ↔ tables.tables[id]? = some table := by
  unfold SymbolTables.table
  cases found : tables.tables[id]? <;> simp

theorem view_ok {tables : SymbolTables} {id : TableId} {view : SymbolView} :
    tables.view id = .ok view ↔ tables.tables[id]? = some view.table ∧
      tables.tables[view.table.program]? = some view.program := by
  obtain ⟨table, program⟩ := view
  unfold SymbolTables.view
  cases found : tables.table id with
  | error defect =>
    have absent : tables.tables[id]? ≠ some table := by
      intro there
      rw [table_ok.mpr there] at found
      cases found
    simp [bind, Except.bind, absent]
  | ok first =>
    rw [table_ok.mp found]
    cases owner : tables.table first.program with
    | error defect =>
      have absent : tables.tables[first.program]? ≠ some program := by
        intro there
        rw [table_ok.mpr there] at owner
        cases owner
      simp only [bind, Except.bind, owner, reduceCtorEq, Option.some.injEq, false_iff]
      rintro ⟨rfl, there⟩
      exact absent there
    | ok second =>
      simp only [bind, Except.bind, owner, pure, Except.pure, Except.ok.injEq, SymbolView.mk.injEq,
        Option.some.injEq]
      constructor
      · rintro ⟨rfl, rfl⟩
        exact ⟨rfl, table_ok.mp owner⟩
      · rintro ⟨rfl, there⟩
        rw [table_ok.mp owner] at there
        exact ⟨rfl, Option.some.inj there⟩

/-- Every table belongs to a program, and its names stand for slots of that program. -/
structure Sound (tables : SymbolTables) : Prop where
  owned : ∀ (id : TableId) (table : SymbolTable), tables.tables[id]? = some table →
    table.program < tables.tables.size
  view : ∀ id view, tables.view id = .ok view → view.Sound

/-- No table is lost, and no program loses slots. -/
def Grows (before after : SymbolTables) : Prop :=
  ∀ id view, before.view id = .ok view →
    ∃ later, after.view id = .ok later ∧ view.size ≤ later.size

theorem Grows.refl (tables : SymbolTables) : tables.Grows tables :=
  fun _ view found => ⟨view, found, Nat.le_refl _⟩

theorem Grows.trans {first second third : SymbolTables} (early : first.Grows second)
    (late : second.Grows third) : first.Grows third := by
  intro id view found
  obtain ⟨middle, there, bound⟩ := early id view found
  obtain ⟨last, final, further⟩ := late id middle there
  exact ⟨last, final, Nat.le_trans bound further⟩

theorem Sound.empty : ({} : SymbolTables).Sound where
  owned := by simp
  view := by
    intro id view found
    have there := (view_ok.mp found).1
    simp at there

variable {tables : SymbolTables}

theorem getElem?_of_push {table found : SymbolTable} {id : TableId}
    (there : (tables.tables.push table)[id]? = some found) :
    tables.tables[id]? = some found ∨ id = tables.tables.size ∧ table = found := by
  rw [Array.getElem?_push] at there
  split at there
  · exact .inr ⟨‹_›, Option.some.inj there⟩
  · exact .inl there

theorem getElem?_push_of_some {table found : SymbolTable} {id : TableId}
    (there : tables.tables[id]? = some found) :
    (tables.tables.push table)[id]? = some found := by
  have bound := (Array.getElem?_eq_some_iff.mp there).1
  rw [Array.getElem?_push, if_neg (Nat.ne_of_lt bound)]
  exact there

theorem Grows.add (table : SymbolTable) : tables.Grows (tables.add table).2 := by
  intro id view found
  obtain ⟨there, owner⟩ := view_ok.mp found
  refine ⟨view, view_ok.mpr ⟨?_, ?_⟩, Nat.le_refl _⟩
  · exact getElem?_push_of_some there
  · exact getElem?_push_of_some owner

theorem Sound.add (sound : tables.Sound) {table : SymbolTable}
    (owned : table.program ≤ tables.tables.size)
    (fits : ∀ program, (tables.tables.push table)[table.program]? = some program →
      SymbolView.Sound ⟨table, program⟩) : (tables.add table).2.Sound where
  owned := by
    intro id found there
    have size : (tables.add table).2.tables.size = tables.tables.size + 1 := Array.size_push _
    rw [size]
    rcases getElem?_of_push there with old | ⟨-, rfl⟩
    · exact Nat.lt_succ_of_lt (sound.owned id found old)
    · exact Nat.lt_succ_of_le owned
  view := by
    intro id view found
    obtain ⟨there, owner⟩ := view_ok.mp found
    rcases getElem?_of_push there with old | ⟨-, same⟩
    · rcases getElem?_of_push owner with first | ⟨outside, -⟩
      · exact sound.view id view (view_ok.mpr ⟨old, first⟩)
      · have inside := sound.owned id _ old
        exact absurd outside (Nat.ne_of_lt inside)
    · obtain ⟨_, program⟩ := view
      subst same
      exact fits program owner

/-! Slots of a program -/

theorem argumentSlots_lt (names : List String) :
    ∀ entry ∈ argumentSlots names, entry.2 < names.length := by
  have folded : ∀ (written : List (String × Nat)) (slots : List (String × Symbol)),
      (∀ entry ∈ written, entry.2 < names.length) → (∀ entry ∈ slots, entry.2 < names.length) →
      ∀ entry ∈ written.foldl (fun slots slot =>
        slots.filter (fun other => other.1 ≠ slot.1) ++ [slot]) slots,
        entry.2 < names.length := by
    intro written
    induction written with
    | nil => exact fun _ _ slots => slots
    | cons first rest ih =>
      intro slots every kept
      refine ih _ (fun entry member => every entry (List.mem_cons_of_mem _ member)) ?_
      intro entry member
      rcases List.mem_append.mp member with old | new
      · exact kept entry (List.mem_filter.mp old).1
      · rw [List.mem_singleton.mp new]
        exact every first List.mem_cons_self
  refine folded names.zipIdx [] (fun entry member => ?_) (by simp)
  exact List.snd_lt_of_mem_zipIdx member

theorem zipIdx_lt {names : List String} {first : Nat} :
    ∀ entry ∈ names.zipIdx first, entry.2 < first + names.length := by
  intro entry member
  have bound := List.snd_lt_add_of_mem_zipIdx member
  omega

theorem Sound.entry (sound : tables.Sound) : tables.entry.2.Sound := by
  refine sound.add (Nat.le_refl _) fun program there => ?_
  rw [Array.getElem?_push_size] at there
  cases there
  exact ⟨by simp, by simp, by simp, by simp, by simp⟩

theorem Sound.layout (sound : tables.Sound) (named yields : List String) (hasPartials : Bool) :
    (tables.layout named yields hasPartials).2.Sound := by
  refine sound.add (Nat.le_refl _) fun program there => ?_
  rw [Array.getElem?_push_size] at there
  cases there
  have room : ∀ size : Nat, size ≤ if hasPartials then size + 1 else size := by
    intro size
    split <;> omega
  refine ⟨by simp, by simp, ?_, ?_, ?_⟩
  · intro entry member
    have bound := argumentSlots_lt named entry member
    exact Nat.lt_of_lt_of_le bound (Nat.le_trans (Nat.le_add_right _ _) (room _))
  · exact fun entry member => Nat.lt_of_lt_of_le (zipIdx_lt entry member) (room _)
  · intro bag member
    cases hasPartials with
    | false => cases member
    | true =>
      cases member
      exact Nat.lt_succ_self _

/-! Blocks take fresh slots -/

/-- A program is given more slots. -/
def widen (tables : SymbolTables) (id : TableId) (program : SymbolTable) (more : Nat) :
    SymbolTables :=
  ⟨tables.tables.setIfInBounds id { program with size := program.size + more }⟩

section Widen

variable {id : TableId} {program : SymbolTable} {more : Nat}

theorem getElem?_of_widen (here : tables.tables[id]? = some program) {other : TableId}
    {found : SymbolTable} (there : (tables.widen id program more).tables[other]? = some found) :
    ∃ old : SymbolTable, tables.tables[other]? = some old ∧ old.size ≤ found.size ∧
      found = { old with size := found.size } := by
  rw [widen, Array.getElem?_setIfInBounds] at there
  split at there
  · subst id
    split at there
    · cases there
      exact ⟨program, here, Nat.le_add_right _ _, rfl⟩
    · cases there
  · exact ⟨found, there, Nat.le_refl _, rfl⟩

theorem getElem?_widen (more : Nat) (here : tables.tables[id]? = some program) {other : TableId}
    {old : SymbolTable} (there : tables.tables[other]? = some old) :
    ∃ found : SymbolTable, (tables.widen id program more).tables[other]? = some found ∧
      old.size ≤ found.size ∧ found = { old with size := found.size } := by
  have bound := (Array.getElem?_eq_some_iff.mp there).1
  rw [widen, Array.getElem?_setIfInBounds]
  split
  · subst id
    rw [here] at there
    cases there
    rw [if_pos bound]
    exact ⟨_, rfl, Nat.le_add_right _ _, rfl⟩
  · exact ⟨old, there, Nat.le_refl _, rfl⟩

theorem Grows.widen (here : tables.tables[id]? = some program) :
    tables.Grows (tables.widen id program more) := by
  intro other view found
  obtain ⟨there, owner⟩ := view_ok.mp found
  obtain ⟨table, tableThere, -, same⟩ := getElem?_widen more here there
  obtain ⟨wide, wideThere, size, -⟩ := getElem?_widen more here owner
  refine ⟨⟨table, wide⟩, view_ok.mpr ⟨tableThere, ?_⟩, size⟩
  rw [same]
  exact wideThere

theorem Sound.widen (sound : tables.Sound) (here : tables.tables[id]? = some program) :
    (tables.widen id program more).Sound where
  owned := by
    intro other found there
    obtain ⟨old, oldThere, -, same⟩ := getElem?_of_widen here there
    have owned := sound.owned other old oldThere
    rw [same]
    simpa [SymbolTables.widen] using owned
  view := by
    intro other view found
    obtain ⟨there, owner⟩ := view_ok.mp found
    obtain ⟨table, tableThere, -, same⟩ := getElem?_of_widen here there
    obtain ⟨wide, wideThere, size, alike⟩ := getElem?_of_widen here owner
    rw [same] at wideThere
    have before := sound.view other ⟨table, wide⟩ (view_ok.mpr ⟨tableThere, wideThere⟩)
    obtain ⟨first, second⟩ := view
    dsimp only at same alike size
    rw [same, alike]
    refine ⟨?_, ?_, ?_, ?_, ?_⟩
    · exact fun entry member => Nat.lt_of_lt_of_le (before.locals entry member) size
    · exact fun entry member => Nat.lt_of_lt_of_le (before.enclosing entry member) size
    · exact fun entry member => Nat.lt_of_lt_of_le (before.named entry member) size
    · exact fun entry member => Nat.lt_of_lt_of_le (before.yields entry member) size
    · exact fun bag member => Nat.lt_of_lt_of_le (before.partialArgs bag member) size

end Widen

theorem block_ok {parent id : TableId} {locals : List String} {grown : SymbolTables}
    (added : tables.block parent locals = .ok (id, grown)) :
    ∃ view, tables.view parent = .ok view ∧
      grown = ((tables.widen view.table.program view.program locals.length).add {
        kind := .block
        program := view.table.program
        parent := some parent
        locals := locals.zipIdx view.program.size
        enclosing := view.table.locals ++ view.table.enclosing }).2 := by
  unfold SymbolTables.block at added
  cases found : tables.table parent with
  | error defect =>
    rw [found] at added
    cases added
  | ok around =>
    cases owner : tables.table around.program with
    | error defect =>
      simp only [found, owner, bind, Except.bind, reduceCtorEq] at added
    | ok program =>
      simp only [found, owner, bind, Except.bind, pure, Except.pure, Except.ok.injEq] at added
      refine ⟨⟨around, program⟩, view_ok.mpr ⟨table_ok.mp found, table_ok.mp owner⟩, ?_⟩
      exact (congrArg Prod.snd added).symm

theorem Grows.block {parent id : TableId} {locals : List String} {grown : SymbolTables}
    (added : tables.block parent locals = .ok (id, grown)) : tables.Grows grown := by
  obtain ⟨view, found, rfl⟩ := block_ok added
  exact (Grows.widen (view_ok.mp found).2).trans (.add _)

theorem Sound.block (sound : tables.Sound) {parent id : TableId} {locals : List String}
    {grown : SymbolTables} (added : tables.block parent locals = .ok (id, grown)) :
    grown.Sound := by
  obtain ⟨view, found, rfl⟩ := block_ok added
  obtain ⟨there, owner⟩ := view_ok.mp found
  have around := sound.view parent view found
  have bound := (Array.getElem?_eq_some_iff.mp owner).1
  refine (sound.widen owner).add ?_ fun program written => ?_
  · simpa [SymbolTables.widen] using Nat.le_of_lt bound
  · have wide : program =
        { view.program with size := view.program.size + locals.length } := by
      rw [Array.getElem?_push] at written
      have inside : view.table.program ≠
          (tables.widen view.table.program view.program locals.length).tables.size := by
        simpa [SymbolTables.widen] using Nat.ne_of_lt bound
      rw [if_neg inside, SymbolTables.widen, Array.getElem?_setIfInBounds, if_pos rfl,
        if_pos bound] at written
      exact (Option.some.inj written).symm
    have size : view.size ≤ view.program.size + locals.length := Nat.le_add_right _ _
    rw [wide]
    refine ⟨?_, ?_, ?_, ?_, ?_⟩
    · exact fun entry member => zipIdx_lt entry member
    · intro entry member
      rcases List.mem_append.mp member with own | outer
      · exact Nat.lt_of_lt_of_le (around.locals entry own) size
      · exact Nat.lt_of_lt_of_le (around.enclosing entry outer) size
    · exact fun entry member => Nat.lt_of_lt_of_le (around.named entry member) size
    · exact fun entry member => Nat.lt_of_lt_of_le (around.yields entry member) size
    · exact fun bag member => Nat.lt_of_lt_of_le (around.partialArgs bag member) size

end SymbolTables

end LiveTemplate
