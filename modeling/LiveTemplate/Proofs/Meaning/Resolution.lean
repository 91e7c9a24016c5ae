import LiveTemplate.Proofs.Compile.Program
import LiveTemplate.Proofs.Meaning.Preparation
import LiveTemplate.Proofs.Meaning.Scopes

/-!
Resolving phrases. No name in them is that of a component, so that nothing but nested blocks is put
into the queue, and each nested block gets a table of names inside of that of the block around it.
-/

namespace LiveTemplate

open Effects

/-! Tables -/

namespace SymbolTables

/-- No table is lost, and all that changes of one is how many slots its program has. -/
def Keeps (before after : SymbolTables) : Prop :=
  ∀ (id : Nat) (table : SymbolTable), before.tables[id]? = some table →
    ∃ size, after.tables[id]? = some { table with size }

theorem Keeps.refl (tables : SymbolTables) : tables.Keeps tables :=
  fun _ table there => ⟨table.size, there⟩

theorem Keeps.trans {first second third : SymbolTables} (early : first.Keeps second)
    (late : second.Keeps third) : first.Keeps third := by
  intro id table there
  obtain ⟨size, there⟩ := early id table there
  obtain ⟨more, there⟩ := late id _ there
  exact ⟨more, there⟩

theorem Keeps.add (tables : SymbolTables) (table : SymbolTable) :
    tables.Keeps (tables.add table).2 :=
  fun _ old there => ⟨old.size, getElem?_push_of_some there⟩

/-- The table of a block with parameters, inside of that of another one. -/
def Nests (tables : SymbolTables) (inner outer : TableId) (params : List String) : Prop :=
  ∃ own around, tables.tables[inner]? = some own ∧ tables.tables[outer]? = some around ∧
    own.program = around.program ∧ own.enclosing = around.locals ++ around.enclosing ∧
    ∃ first, own.locals = params.zipIdx first ∧
      ∀ entry ∈ around.locals ++ around.enclosing, entry.2 < first

theorem Nests.keep {before after : SymbolTables} {inner outer : TableId} {params : List String}
    (nests : before.Nests inner outer params) (keeps : before.Keeps after) :
    after.Nests inner outer params := by
  obtain ⟨own, around, here, there, same⟩ := nests
  obtain ⟨size, here⟩ := keeps _ _ here
  obtain ⟨more, there⟩ := keeps _ _ there
  exact ⟨_, _, here, there, same⟩

theorem Nests.view {tables : SymbolTables} {inner outer : TableId} {params : List String}
    {own around : SymbolView} (nests : tables.Nests inner outer params)
    (here : tables.view inner = .ok own) (there : tables.view outer = .ok around) :
    own.Nests around params := by
  obtain ⟨table, other, found, foundToo, program, enclosing, fresh⟩ := nests
  obtain ⟨mine, owner⟩ := view_ok.mp here
  obtain ⟨theirs, ownerToo⟩ := view_ok.mp there
  cases found.symm.trans mine
  cases foundToo.symm.trans theirs
  rw [program] at owner
  exact ⟨Option.some.inj (owner.symm.trans ownerToo), enclosing, fresh⟩

theorem Keeps.widen {tables : SymbolTables} {id : TableId} {program : SymbolTable} (more : Nat)
    (here : tables.tables[id]? = some program) : tables.Keeps (tables.widen id program more) := by
  intro other old there
  obtain ⟨found, later, -, same⟩ := getElem?_widen more here there
  rw [same] at later
  exact ⟨_, later⟩

theorem getElem?_add (tables : SymbolTables) (table : SymbolTable) :
    (tables.add table).2.tables[tables.tables.size]? = some table := by
  simp [add]

theorem block_id {tables grown : SymbolTables} {inner outer : TableId} {params : List String}
    (added : tables.block outer params = .ok (inner, grown)) : inner = tables.tables.size := by
  unfold SymbolTables.block at added
  cases found : tables.table outer with
  | error defect =>
    rw [found] at added
    cases added
  | ok around =>
    cases owner : tables.table around.program with
    | error defect =>
      simp only [found, owner, bind, Except.bind, reduceCtorEq] at added
    | ok program =>
      simp only [found, owner, bind, Except.bind, pure, Except.pure, Except.ok.injEq] at added
      have size := congrArg Prod.fst added
      simpa [add] using size.symm

theorem block_nests {tables grown : SymbolTables} {inner outer : TableId} {params : List String}
    (sound : tables.Sound) (added : tables.block outer params = .ok (inner, grown)) :
    tables.Keeps grown ∧ grown.Nests inner outer params := by
  have fresh := block_id added
  obtain ⟨view, found, rfl⟩ := block_ok added
  obtain ⟨there, owner⟩ := view_ok.mp found
  have around := sound.view outer view found
  have wide := Keeps.widen params.length owner
  refine ⟨wide.trans (.add _ _), ?_⟩
  obtain ⟨size, still⟩ := wide outer view.table there
  have last := getElem?_add (tables.widen view.table.program view.program params.length) {
    kind := .block
    program := view.table.program
    parent := some outer
    locals := params.zipIdx view.program.size
    enclosing := view.table.locals ++ view.table.enclosing }
  have same : (tables.widen view.table.program view.program params.length).tables.size =
    tables.tables.size := Array.size_setIfInBounds
  rw [same, ← fresh] at last
  refine ⟨_, _, last, getElem?_push_of_some still, rfl, rfl, view.program.size, rfl, ?_⟩
  intro entry member
  rcases List.mem_append.mp member with own | outer
  · exact around.locals entry own
  · exact around.enclosing entry outer

/-- The table of a template that is rendered on its own. -/
def Heads (tables : SymbolTables) (id : TableId) (params : List String) : Prop :=
  ∃ own program, tables.tables[id]? = some own ∧ tables.tables[own.program]? = some program ∧
    SymbolView.Heads ⟨own, program⟩ params

theorem Heads.keep {before after : SymbolTables} {id : TableId} {params : List String}
    (heads : before.Heads id params) (keeps : before.Keeps after) : after.Heads id params := by
  obtain ⟨own, program, there, owner, heads⟩ := heads
  obtain ⟨size, there⟩ := keeps _ _ there
  obtain ⟨more, owner⟩ := keeps _ _ owner
  obtain ⟨⟨kind, yields, bag⟩, enclosing, locals⟩ := heads
  exact ⟨_, _, there, owner, ⟨kind, yields, bag⟩, enclosing, locals⟩

theorem Heads.view {tables : SymbolTables} {id : TableId} {params : List String}
    {names : SymbolView} (heads : tables.Heads id params) (found : tables.view id = .ok names) :
    names.Heads params := by
  obtain ⟨own, program, there, owner, heads⟩ := heads
  obtain ⟨mine, theirs⟩ := view_ok.mp found
  cases there.symm.trans mine
  cases owner.symm.trans theirs
  exact heads

/-- The parameters of a template get a table of their own. -/
theorem Nests.heads {tables : SymbolTables} {inner outer : TableId} {params : List String}
    (nests : tables.Nests inner outer params) (heads : tables.Heads outer []) :
    tables.Heads inner params := by
  obtain ⟨own, around, here, there, same, enclosing, first, locals, -⟩ := nests
  obtain ⟨found, program, foundHere, owner, heads⟩ := heads
  cases there.symm.trans foundHere
  obtain ⟨other, none⟩ := heads.locals
  have nothing : own.enclosing = [] := by
    rw [enclosing, none, heads.enclosing]
    rfl
  have entry := heads.entry
  exact ⟨own, program, here, same ▸ owner, ⟨entry.kind, entry.yields, entry.partialArgs⟩, nothing,
    first, locals⟩

end SymbolTables

/-! What is gathered on the way -/

namespace Compilation

/-- Nothing that was asked for is a component. -/
structure Plain (state : Compilation) : Prop where
  tables : state.tables.Sound
  layouts : ∀ entry ∈ state.layouts, entry.2 = none

/-- Nested blocks were put into the queue, and nothing else was. -/
structure Gathers (before after : Compilation) : Prop where
  tables : before.tables.Keeps after.tables
  queue : ∃ more, after.queue = before.queue ++ more ∧
    ∀ entry ∈ more, ∃ table code, entry.2 = .inline table code

/-- The blocks that wait to be written. -/
def naming (state : Compilation) : Naming TableId where
  block handle names code := (handle, .inline names code) ∈ state.queue
  nests := state.tables.Nests

variable {first second third : Compilation}

theorem Gathers.quiet (tables : first.tables.Keeps second.tables)
    (queue : second.queue = first.queue) : first.Gathers second :=
  ⟨tables, [], queue.trans (List.append_nil _).symm, by simp⟩

theorem Gathers.refl (state : Compilation) : state.Gathers state := .quiet (.refl _) rfl

theorem Gathers.trans (early : first.Gathers second) (late : second.Gathers third) :
    first.Gathers third := by
  obtain ⟨more, queue, inlines⟩ := early.queue
  obtain ⟨others, queueToo, inlinesToo⟩ := late.queue
  refine ⟨early.tables.trans late.tables, more ++ others, ?_, fun entry member => ?_⟩
  · rw [queueToo, queue, List.append_assoc]
  · exact (List.mem_append.mp member).elim (inlines entry) (inlinesToo entry)

theorem Gathers.moves (gathers : first.Gathers second) : first.naming.Moves second.naming Eq where
  block handle inner code waits := by
    obtain ⟨more, queue, -⟩ := gathers.queue
    refine ⟨inner, rfl, ?_⟩
    change _ ∈ second.queue
    rw [queue]
    exact List.mem_append_left _ waits
  nests inner outer params known around nests same alike := by
    subst same alike
    exact SymbolTables.Nests.keep nests gathers.tables

end Compilation

namespace Resolving

variable {resolver : Resolver} {before after : Compilation}

theorem layoutFor_none {name : String} {found : Option Handle} (absent : resolver.layout? name = none)
    (plain : before.Plain) (ended : layoutFor resolver name before = .ok found after) :
    found = none ∧ after.Plain ∧ before.Gathers after := by
  obtain ⟨state, _, got, ended⟩ := bind_ok.mp ended
  obtain ⟨rfl, rfl⟩ := get_ok.mp got
  cases known : before.layouts.lookup name with
  | some entry =>
    rw [known] at ended
    obtain ⟨rfl, rfl⟩ := pure_ok.mp ended
    exact ⟨plain.layouts _ (mem_of_lookup known), plain, .refl _⟩
  | none =>
    rw [known, absent] at ended
    obtain ⟨result, _, asked, ended⟩ := bind_ok.mp ended
    obtain ⟨rfl, rfl⟩ := pure_ok.mp asked
    obtain ⟨_, _, noted, ended⟩ := bind_ok.mp ended
    obtain ⟨rfl, rfl⟩ := pure_ok.mp ended
    have changed := modify_ok.mp noted
    subst changed
    refine ⟨rfl, ⟨plain.tables, fun entry member => ?_⟩, .quiet (.refl _) rfl⟩
    rcases List.mem_cons.mp member with rfl | member
    · rfl
    · exact plain.layouts entry member

theorem newTable_ok {table parent : TableId} {locals : List String} (plain : before.Plain)
    (ended : newTable parent locals before = .ok table after) :
    after.Plain ∧ before.Gathers after ∧ after.tables.Nests table parent locals := by
  obtain ⟨state, _, got, ended⟩ := bind_ok.mp ended
  obtain ⟨rfl, rfl⟩ := get_ok.mp got
  obtain ⟨made, _, added, ended⟩ := bind_ok.mp ended
  cases result : before.tables.block parent locals with
  | error defect =>
    rw [result] at added
    exact absurd added throw_ok
  | ok grown =>
    rw [result] at added
    obtain ⟨rfl, rfl⟩ := pure_ok.mp added
    obtain ⟨_, _, noted, ended⟩ := bind_ok.mp ended
    obtain ⟨rfl, rfl⟩ := pure_ok.mp ended
    have changed := modify_ok.mp noted
    subst changed
    obtain ⟨keeps, nests⟩ := SymbolTables.block_nests plain.tables result
    exact ⟨⟨plain.tables.block result, plain.layouts⟩, .quiet keeps rfl, nests⟩

theorem enqueue_ok {table : TableId} {code : List Resolved} {handle : Handle}
    (plain : before.Plain) (ended : enqueue (.inline table code) before = .ok handle after) :
    after.Plain ∧ before.Gathers after ∧ after.naming.block handle table code := by
  have changed := modifyGet_ok.mp ended
  cases changed
  refine ⟨⟨plain.tables, plain.layouts⟩, ⟨.refl _, [_], rfl, ?_⟩, ?_⟩
  · intro entry member
    rw [List.mem_singleton.mp member]
    exact ⟨table, code, rfl⟩
  · exact List.mem_append_right _ List.mem_cons_self

end Resolving

/-! Statements -/

namespace Resolved

open Compilation Resolving

section Statements

variable {resolver : Resolver} {elsewhere : Nat → TableId → Resolving Handle} {table : TableId}
  {before after : Compilation} {code : List Resolved}

theorem appended_ok {value : Expression} {trusted : Bool} (content : value.IsContent resolver)
    (plain : before.Plain)
    (ended : appended resolver table value trusted before = .ok code after) :
    code = [.append value trusted] ∧ after.Plain ∧ before.Gathers after := by
  unfold appended at ended
  split at ended
  · cases content
  · cases content
  · cases content
  · rename_i name params named first second
    have absent : resolver.layout? name = none := by
      simpa [Expression.IsContent, first, second] using content
    obtain ⟨found, between, asked, ended⟩ := bind_ok.mp ended
    obtain ⟨rfl, plain, gathers⟩ := layoutFor_none absent plain asked
    obtain ⟨rfl, rfl⟩ := pure_ok.mp ended
    exact ⟨rfl, plain, gathers⟩
  · rename_i name first
    split at ended
    · obtain ⟨rfl, rfl⟩ := pure_ok.mp ended
      exact ⟨rfl, plain, .refl _⟩
    · rename_i other
      have absent : resolver.layout? name = none := by
        simpa [Expression.IsContent, first, other] using content
      obtain ⟨found, between, asked, ended⟩ := bind_ok.mp ended
      obtain ⟨rfl, plain, gathers⟩ := layoutFor_none absent plain asked
      obtain ⟨rfl, rfl⟩ := pure_ok.mp ended
      exact ⟨rfl, plain, gathers⟩
  · obtain ⟨rfl, rfl⟩ := pure_ok.mp ended
    exact ⟨rfl, plain, .refl _⟩

theorem ofStatements_append (first last : List Statement) :
    ofStatements resolver elsewhere table (first ++ last) = (do
      let early ← ofStatements resolver elsewhere table first
      let late ← ofStatements resolver elsewhere table last
      return early ++ late) := by
  induction first with
  | nil => simp [ofStatements]
  | cons statement rest ih =>
    rw [List.cons_append, ofStatements, ofStatements, ih]
    simp only [bind_assoc, pure_bind, List.append_assoc]

theorem ofAttributes_eq (attributes : List Statement) :
    ofAttributes resolver elsewhere table attributes =
      ofStatements resolver elsewhere table
        (attributes.filter fun statement => !isArgument statement) := by
  induction attributes with
  | nil => simp [ofAttributes, ofStatements]
  | cons statement rest ih =>
    rw [ofAttributes]
    split
    · rename_i argument
      rw [ih]
      simp [argument]
    · rename_i other
      rw [ih]
      simp [other, ofStatements]

theorem attributeOf_eq {name : String} {value : Expression} {space : Option String}
    {trusting : Bool} (computed : value.isLiteral = false) :
    attributeOf name value space trusting = .dynamicAttr name value space trusting := by
  cases value <;> first | rfl | cases computed

theorem decorations_ok : ∀ (attributes : List Decoration) {written : List Statement}
    {before after : Compilation} {code : List Resolved},
    Decoration.AllSpelled attributes written →
    ofStatements resolver elsewhere table written before = .ok code after →
    Decoration.Resolves attributes code ∧ before = after
  | [], _, _, _, _, rfl, ended => by
    obtain ⟨rfl, rfl⟩ := pure_ok.mp ended
    exact ⟨rfl, rfl⟩
  | .static name value space :: rest, _, _, _, _, spelled, ended => by
    obtain ⟨_, tail, rfl, others, rfl⟩ := spelled
    obtain ⟨first, _, one, ended⟩ := bind_ok.mp ended
    obtain ⟨rfl, rfl⟩ := pure_ok.mp one
    obtain ⟨last, _, two, ended⟩ := bind_ok.mp ended
    obtain ⟨rfl, rfl⟩ := pure_ok.mp ended
    obtain ⟨resolves, rfl⟩ := decorations_ok rest others two
    exact ⟨⟨last, resolves, rfl⟩, rfl⟩
  | .dynamic name value space :: rest, _, _, _, _, spelled, ended => by
    obtain ⟨_, tail, ⟨computed, trusting, rfl⟩, others, rfl⟩ := spelled
    obtain ⟨first, _, one, ended⟩ := bind_ok.mp ended
    obtain ⟨rfl, rfl⟩ := pure_ok.mp one
    obtain ⟨last, _, two, ended⟩ := bind_ok.mp ended
    obtain ⟨rfl, rfl⟩ := pure_ok.mp ended
    obtain ⟨resolves, rfl⟩ := decorations_ok rest others two
    rw [attributeOf_eq computed]
    exact ⟨⟨trusting, last, resolves, rfl⟩, rfl⟩

end Statements

/-! Phrases -/

section Phrases

variable {resolver : Resolver} {template : Template}

/-- A block that is written elsewhere is resolved as if it were written here. -/
theorem ofBlockRef_ok {depth : Nat} {table : TableId} {written : BlockRef} {block : Block}
    {handle : Handle} {before after : Compilation} (found : template.block? written = .ok block)
    (ended : ofBlockRef resolver (blockAt resolver template depth) table written before =
      .ok handle after) :
    ∃ depth, ofBlock resolver (blockAt resolver template depth) table block before =
      .ok handle after := by
  cases written with
  | inline inner =>
    cases found
    exact ⟨depth, ended⟩
  | index position =>
    cases depth with
    | zero =>
      obtain ⟨_, _, -, ended⟩ := bind_ok.mp ended
      exact absurd ended throw_ok
    | succ depth =>
      obtain ⟨other, between, asked, ended⟩ := bind_ok.mp ended
      rw [found] at asked
      obtain ⟨rfl, rfl⟩ := pure_ok.mp asked
      exact ⟨depth, ended⟩

/-- What resolving leaves behind: the phrases are prepared. -/
structure Prepares (before after : Compilation) (prepared : Naming TableId → Prop) : Prop where
  plain : after.Plain
  gathers : before.Gathers after
  prepared : prepared after.naming

/-- An element between the statements that open and close it. -/
theorem ofElement_ok {elsewhere : Nat → TableId → Resolving Handle} {table : TableId}
    {tag : String} {params : List String} {written inside : List Statement}
    {before after : Compilation} {code : List Resolved}
    (ended : ofStatements resolver elsewhere table
      (.openElement tag params :: written ++ .flushElement :: inside ++ [.closeElement]) before =
        .ok code after) :
    ∃ early late between, ofStatements resolver elsewhere table written before = .ok early between ∧
      ofStatements resolver elsewhere table inside between = .ok late after ∧
      code = .openElement tag :: early ++ .flushElement :: late ++ [.closeElement] := by
  rw [ofStatements_append, ofStatements_append] at ended
  obtain ⟨most, ending, one, ended⟩ := bind_ok.mp ended
  obtain ⟨close, _, last, ended⟩ := bind_ok.mp ended
  cases ended
  cases last
  obtain ⟨opened, between, first, one⟩ := bind_ok.mp one
  obtain ⟨filled, _, second, one⟩ := bind_ok.mp one
  cases one
  obtain ⟨_, _, opens, first⟩ := bind_ok.mp first
  cases opens
  obtain ⟨early, _, first, done⟩ := bind_ok.mp first
  cases done
  obtain ⟨_, _, flushes, second⟩ := bind_ok.mp second
  cases flushes
  obtain ⟨late, _, second, done⟩ := bind_ok.mp second
  cases done
  exact ⟨early, late, between, first, second, rfl⟩

/-- A block statement, whose name is not that of a component. -/
theorem ofBlockStatement_ok {elsewhere : Nat → TableId → Resolving Handle} {table : TableId}
    {name : String} {params : List Expression} {named : Named} {block inverse : Option BlockRef}
    {before after : Compilation} {code : List Resolved} (absent : resolver.layout? name = none)
    (ended : ofStatements resolver elsewhere table [.block ⟨name, []⟩ params named block inverse]
      before = .ok code after) :
    ∃ yes no first second,
      ofBlockRef? resolver elsewhere table block before = .ok yes first ∧
      ofBlockRef? resolver elsewhere table inverse first = .ok no second ∧
      (second.Plain → after.Plain ∧ second.Gathers after ∧
        code = [.block name params named yes no]) := by
  obtain ⟨only, last, one, ended⟩ := bind_ok.mp ended
  cases ended
  obtain ⟨yes, first, yields, one⟩ := bind_ok.mp one
  obtain ⟨no, second, fails, one⟩ := bind_ok.mp one
  refine ⟨yes, no, first, second, yields, fails, fun plain => ?_⟩
  obtain ⟨found, asked, layout, one⟩ := bind_ok.mp one
  obtain ⟨rfl, plain, gathers⟩ := layoutFor_none absent plain layout
  cases one
  exact ⟨plain, gathers, rfl⟩

mutual

theorem prepare : ∀ (phrase : Phrase) {statements : List Statement} {depth : Nat} {table : TableId}
    {before after : Compilation} {code : List Resolved}, phrase.Spelled template resolver statements →
    before.Plain →
    ofStatements resolver (blockAt resolver template depth) table statements before = .ok code after →
    Prepares before after fun naming => phrase.Prepared naming table code
  | .text content, _, _, _, _, _, _, rfl, plain, ended => by
    cases ended
    exact ⟨plain, .refl _, rfl⟩
  | .comment content, _, _, _, _, _, _, rfl, plain, ended => by
    cases ended
    exact ⟨plain, .refl _, rfl⟩
  | .append value trusted, _, _, _, _, _, _, spelled, plain, ended => by
    obtain ⟨content, rfl⟩ := spelled
    obtain ⟨first, between, one, ended⟩ := bind_ok.mp ended
    cases ended
    obtain ⟨rfl, plain, gathers⟩ := appended_ok content plain one
    exact ⟨plain, gathers, rfl⟩
  | .element tag attributes children, statements, depth, table, before, after, code, spelled, plain,
      ended => by
    obtain ⟨written, inside, spelled, own | called⟩ := spelled
    · obtain ⟨params, decorated, rfl⟩ := own
      obtain ⟨early, late, between, one, two, rfl⟩ := ofElement_ok ended
      obtain ⟨resolves, rfl⟩ := decorations_ok attributes decorated one
      have within := prepareAll children spelled plain two
      exact ⟨within.plain, within.gathers, early, late, resolves, within.prepared, rfl⟩
    · obtain ⟨absent, decorated, args, locals, rfl⟩ := called
      obtain ⟨first, between, one, ended⟩ := bind_ok.mp ended
      cases ended
      obtain ⟨found, asked, layout, one⟩ := bind_ok.mp one
      obtain ⟨rfl, plain, gathers⟩ := layoutFor_none absent plain layout
      obtain ⟨early, _, attributed, one⟩ := bind_ok.mp one
      obtain ⟨late, _, two, one⟩ := bind_ok.mp one
      cases one
      rw [ofAttributes_eq] at attributed
      obtain ⟨resolves, rfl⟩ := decorations_ok attributes decorated attributed
      have within := prepareAll children spelled plain two
      refine ⟨within.plain, gathers.trans within.gathers, early, late, resolves, within.prepared, ?_⟩
      simp
  | .conditional param named truthy falsy, statements, depth, table, before, after, code, spelled,
      plain, ended => by
    obtain ⟨name, block, inverse, absent, rfl, either⟩ := spelled
    obtain ⟨yes, no, first, second, one, two, rest⟩ := ofBlockStatement_ok absent ended
    rcases either with ⟨name, yields, fails⟩ | ⟨rfl, fails, yields⟩
    · have early := preparePassage truthy yields plain one
      have late := preparePassage falsy fails early.plain two
      obtain ⟨plain, gathers, rfl⟩ := rest late.plain
      refine ⟨plain, (early.gathers.trans late.gathers).trans gathers, yes, no, ?_, ?_, ?_⟩
      · exact early.prepared.move (late.gathers.trans gathers).moves truthy rfl
      · exact late.prepared.move gathers.moves falsy rfl
      · rcases name with rfl | rfl
        · exact .inl rfl
        · exact .inr (.inl rfl)
    · have early := preparePassage falsy fails plain one
      have late := preparePassage truthy yields early.plain two
      obtain ⟨plain, gathers, rfl⟩ := rest late.plain
      refine ⟨plain, (early.gathers.trans late.gathers).trans gathers, no, yes, ?_, ?_, ?_⟩
      · exact late.prepared.move gathers.moves truthy rfl
      · exact early.prepared.move (late.gathers.trans gathers).moves falsy rfl
      · exact .inr (.inr rfl)
  | .each source named item empty, statements, depth, table, before, after, code, spelled, plain,
      ended => by
    obtain ⟨block, inverse, absent, rfl, tells, fails⟩ := spelled
    obtain ⟨yes, no, first, second, one, two, rest⟩ := ofBlockStatement_ok absent ended
    have early := preparePassage item tells plain one
    have late := preparePassage empty fails early.plain two
    obtain ⟨plain, gathers, rfl⟩ := rest late.plain
    refine ⟨plain, (early.gathers.trans late.gathers).trans gathers, yes, no, ?_, ?_, rfl⟩
    · exact early.prepared.move (late.gathers.trans gathers).moves item rfl
    · exact late.prepared.move gathers.moves empty rfl

theorem prepareAll : ∀ (phrases : List Phrase) {statements : List Statement} {depth : Nat}
    {table : TableId} {before after : Compilation} {code : List Resolved},
    Phrase.AllSpelled template resolver phrases statements → before.Plain →
    ofStatements resolver (blockAt resolver template depth) table statements before = .ok code after →
    Prepares before after fun naming => Phrase.AllPrepared naming table phrases code
  | [], _, _, _, _, _, _, rfl, plain, ended => by
    cases ended
    exact ⟨plain, .refl _, rfl⟩
  | phrase :: rest, _, depth, table, before, after, code, spelled, plain, ended => by
    obtain ⟨head, tail, first, others, rfl⟩ := spelled
    rw [ofStatements_append] at ended
    obtain ⟨early, between, one, ended⟩ := bind_ok.mp ended
    obtain ⟨late, _, two, ended⟩ := bind_ok.mp ended
    obtain ⟨rfl, rfl⟩ := pure_ok.mp ended
    have begins := prepare phrase first plain one
    have goesOn := prepareAll rest others begins.plain two
    refine ⟨goesOn.plain, begins.gathers.trans goesOn.gathers, early, late, ?_, goesOn.prepared, rfl⟩
    exact begins.prepared.move goesOn.gathers.moves phrase rfl

theorem preparePassage : ∀ (passage : Option Passage) {ref : Option BlockRef} {depth : Nat}
    {table : TableId} {before after : Compilation} {handle : Option Handle},
    Passage.Spelled template resolver passage ref → before.Plain →
    ofBlockRef? resolver (blockAt resolver template depth) table ref before = .ok handle after →
    Prepares before after fun naming => Passage.Prepared naming table passage handle
  | none, _, _, _, _, _, _, rfl, plain, ended => by
    cases ended
    exact ⟨plain, .refl _, rfl⟩
  | some (.of params body), _, depth, table, before, after, handle, spelled, plain, ended => by
    obtain ⟨written, statements, rfl, found, spelled⟩ := spelled
    obtain ⟨block, _, one, ended⟩ := bind_ok.mp ended
    obtain ⟨rfl, rfl⟩ := pure_ok.mp ended
    obtain ⟨depth, one⟩ := ofBlockRef_ok found one
    obtain ⟨inner, opened, made, one⟩ := bind_ok.mp one
    obtain ⟨code, resolved, two, queued⟩ := bind_ok.mp one
    obtain ⟨plain, gathers, nests⟩ := newTable_ok plain made
    have inside := prepareAll body spelled plain two
    obtain ⟨plain, more, waits⟩ := enqueue_ok inside.plain queued
    refine ⟨plain, (gathers.trans inside.gathers).trans more, block, inner, code, rfl, waits, ?_, ?_⟩
    · exact nests.keep (inside.gathers.trans more).tables
    · exact inside.prepared.move more.moves body rfl

end

end Phrases

end Resolved

end LiveTemplate