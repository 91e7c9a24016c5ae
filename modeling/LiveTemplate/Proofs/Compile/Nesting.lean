import Mathlib.Data.List.Perm.Subperm
import Mathlib.Logic.Relation
import LiveTemplate.Compile.Program
import LiveTemplate.Proofs.Compile.Compilation

/-!
Whether resolving comes to an end. A block that is written where it is used is smaller than the
statement around it, but one that is referred to by its position may refer to any other, and to itself.
As long as no chain of references comes back to where it was, resolving ends with a result or with an
error of the template; along a chain that does come back it never ends, however deep it may go.
-/

namespace LiveTemplate

open Effects

mutual

/-- The positions of the blocks that a statement refers to. -/
def Statement.positions : Statement → List Nat
  | .block _ _ _ template inverse =>
    BlockRef.positions? template ++ BlockRef.positions? inverse
  | .component _ attrs _ body => Statement.allPositions attrs ++ body.positions
  | _ => []

def Statement.allPositions : List Statement → List Nat
  | [] => []
  | statement :: rest => statement.positions ++ Statement.allPositions rest

def Block.positions : Block → List Nat
  | .of statements _ => Statement.allPositions statements

def BlockRef.positions : BlockRef → List Nat
  | .index position => [position]
  | .inline block => block.positions

def BlockRef.positions? : Option BlockRef → List Nat
  | none => []
  | some ref => ref.positions

end

/-- The block at the one position refers to the other. -/
def Template.Refers (template : Template) (position other : Nat) : Prop :=
  ∃ block, template.blocks[position]? = some block ∧ other ∈ block.positions

/-- No chain of references comes back to where it began. -/
def Template.Acyclic (template : Template) : Prop :=
  ∀ position, ¬Relation.TransGen template.Refers position position

namespace SymbolTables

/-- The table and that of its program are there. -/
def Known (tables : SymbolTables) (table : TableId) : Prop := ∃ view, tables.view table = .ok view

variable {tables more : SymbolTables} {table : TableId}

theorem Known.grow (known : tables.Known table) (grows : tables.Grows more) : more.Known table := by
  obtain ⟨view, found⟩ := known
  obtain ⟨later, there, -⟩ := grows table view found
  exact ⟨later, there⟩

/-- A block finds room in every table that is known, and its own table is known then. -/
theorem Known.block (known : tables.Known table) (locals : List String) :
    ∃ inner grown, tables.block table locals = .ok (inner, grown) ∧ grown.Known inner := by
  obtain ⟨⟨around, program⟩, found⟩ := known
  obtain ⟨there, owner⟩ := view_ok.mp found
  have added : tables.block table locals = .ok ((tables.widen around.program program locals.length).add {
      kind := .block
      program := around.program
      parent := some table
      locals := locals.zipIdx program.size
      enclosing := around.locals ++ around.enclosing }) := by
    unfold SymbolTables.block
    rw [table_ok.mpr there]
    change (tables.table around.program >>= _) = _
    rw [table_ok.mpr owner]
    rfl
  obtain ⟨wide, wideThere, -⟩ := getElem?_widen locals.length owner owner
  refine ⟨_, _, added, ⟨_, wide⟩, view_ok.mpr ⟨Array.getElem?_push_size, ?_⟩⟩
  exact getElem?_push_of_some wideThere

end SymbolTables

/-! Computations that end -/

/-- From any state with at least the tables of `base`, the computation ends with a result, or with an
error of the template. -/
def Settles {α : Type} (base : SymbolTables) (action : Resolving α)
    (good : α → SymbolTables → Prop) : Prop :=
  ∀ state, base.Grows state.tables →
    (∀ result after, action state = .ok result after →
      state.tables.Grows after.tables ∧ good result after.tables) ∧
    ∀ fault after, action state = .error fault after → ∃ error, fault = .rejected error

namespace Settles

variable {α β : Type} {base : SymbolTables} {good : α → SymbolTables → Prop}

theorem pure {result : α} (right : ∀ more, base.Grows more → good result more) :
    Settles base (Pure.pure result) good := by
  refine fun state grows => ⟨fun other after ended => ?_, fun _ _ ended => absurd ended pure_error⟩
  obtain ⟨rfl, rfl⟩ := pure_ok.mp ended
  exact ⟨.refl _, right _ grows⟩

theorem reject {error : CompileError} : Settles base (Resolving.reject error : Resolving α) good :=
  fun _ _ => ⟨fun _ _ ended => absurd ended throw_ok,
    fun _ _ ended => ⟨error, (throw_error.mp ended).1.symm⟩⟩

theorem rejectBy (outcome : Except CompileError α) :
    Settles base (Resolving.rejectBy outcome) fun result _ => outcome = .ok result := by
  cases outcome with
  | ok value => exact pure fun _ _ => rfl
  | error error => exact reject

theorem bind {first : Resolving α} {next : α → Resolving β} {last : β → SymbolTables → Prop}
    (early : Settles base first good)
    (late : ∀ value more, base.Grows more → good value more → Settles more (next value) last) :
    Settles base (first >>= next) last := by
  intro state grows
  constructor
  · intro result after ended
    obtain ⟨value, between, one, two⟩ := bind_ok.mp ended
    obtain ⟨grown, right⟩ := (early state grows).1 value between one
    obtain ⟨further, final⟩ :=
      (late value between.tables (grows.trans grown) right between (.refl _)).1 result after two
    exact ⟨grown.trans further, final⟩
  · intro fault after ended
    rcases bind_error.mp ended with failed | ⟨value, between, one, failed⟩
    · exact (early state grows).2 fault after failed
    · obtain ⟨grown, right⟩ := (early state grows).1 value between one
      exact (late value between.tables (grows.trans grown) right between (.refl _)).2 fault after failed

theorem get {next : Compilation → Resolving β} {last : β → SymbolTables → Prop}
    (late : ∀ state, base.Grows state.tables → Settles state.tables (next state) last) :
    Settles base (MonadState.get >>= next) last :=
  fun state grows => late state grows state (.refl _)

/-- A change of the state that leaves the tables alone. -/
theorem modify {change : Compilation → Compilation}
    (still : ∀ state, (change state).tables = state.tables) :
    Settles base (modifyGet fun state => ((), change state)) fun _ _ => True := by
  refine fun state _ => ⟨fun _ after ended => ?_, fun _ _ ended => absurd ended modify_error⟩
  rw [← modify_ok.mp ended, still]
  exact ⟨.refl _, trivial⟩

theorem enqueue (source : Source) : Settles base (Resolving.enqueue source) fun _ _ => True := by
  refine fun state _ => ⟨fun _ after ended => ?_, fun _ _ ended => nomatch ended⟩
  cases modifyGet_ok.mp ended
  exact ⟨.refl _, trivial⟩

theorem layoutFor (resolver : Resolver) (name : String) :
    Settles base (Resolving.layoutFor resolver name) fun _ _ => True := by
  refine .get fun state _ => ?_
  cases state.layouts.lookup name with
  | some found => exact .pure fun _ _ => trivial
  | none =>
    have asked : Settles state.tables
        ((resolver.layout? name).mapM fun template => Resolving.enqueue (.layout template))
        fun _ _ => True := by
      cases resolver.layout? name with
      | none => exact .pure fun _ _ => trivial
      | some template => exact .bind (.enqueue _) fun _ _ _ _ => .pure fun _ _ => trivial
    refine .bind asked fun found _ _ _ => .bind (.modify fun _ => rfl) fun _ _ _ _ => ?_
    exact .pure fun _ _ => trivial

theorem partialFor (resolver : Resolver) (table : TableId) (name : String) :
    Settles base (Resolving.partialFor resolver table name) fun _ _ => True := by
  refine .get fun state _ => ?_
  cases state.partials.lookup (name, table) with
  | some handle => exact .pure fun _ _ => trivial
  | none =>
    cases resolver.partial? name with
    | none => exact .reject
    | some template =>
      refine .bind (.enqueue _) fun handle _ _ _ => .bind (.modify fun _ => rfl) fun _ _ _ _ => ?_
      exact .pure fun _ _ => trivial

theorem newTable {parent : TableId} (known : base.Known parent) (locals : List String) :
    Settles base (Resolving.newTable parent locals) fun table more => more.Known table := by
  intro state grows
  obtain ⟨table, grown, added, inner⟩ := (known.grow grows).block locals
  have ended : Resolving.newTable parent locals state = .ok table { state with tables := grown } := by
    unfold Resolving.newTable
    refine (bind_of_ok rfl).trans ?_
    rw [added]
    rfl
  constructor
  · intro result after same
    cases ended.symm.trans same
    exact ⟨.block added, inner⟩
  · intro fault after same
    cases ended.symm.trans same

theorem mapM {action : α → Resolving β} (items : List α)
    (settles : ∀ item more, base.Grows more → Settles more (action item) fun _ _ => True) :
    Settles base (items.mapM action) fun _ _ => True := by
  induction items generalizing base with
  | nil => exact .pure fun _ _ => trivial
  | cons item items ih =>
    rw [List.mapM_cons]
    refine .bind (settles item base (.refl _)) fun _ more grown _ => ?_
    refine .bind (ih fun other later further => settles other later (grown.trans further))
      fun _ _ _ _ => .pure fun _ _ => trivial

end Settles

namespace Resolved

open Resolving

variable {resolver : Resolver} {base : SymbolTables} {elsewhere : Nat → TableId → Resolving Handle}

theorem partialCall_settles (table : TableId) (params : List Expression) :
    Settles base (partialCall resolver table params) fun _ _ => True := by
  unfold partialCall
  split
  · exact .reject
  · exact .bind (.partialFor resolver table _) fun _ _ _ _ => .pure fun _ _ => trivial
  · exact .bind (.mapM _ fun name _ _ => .partialFor resolver table name) fun _ _ _ _ =>
      .pure fun _ _ => trivial

theorem appended_settles (table : TableId) (value : Expression) (trusted : Bool) :
    Settles base (appended resolver table value trusted) fun _ _ => True := by
  unfold appended
  split
  · exact .bind (partialCall_settles table _) fun _ _ _ _ => .pure fun _ _ => trivial
  · exact .pure fun _ _ => trivial
  · exact .pure fun _ _ => trivial
  · refine .bind (.layoutFor resolver _) fun found _ _ _ => ?_
    cases found <;> exact .pure fun _ _ => trivial
  · split
    · exact .pure fun _ _ => trivial
    · refine .bind (.layoutFor resolver _) fun found _ _ _ => ?_
      cases found <;> exact .pure fun _ _ => trivial
  · exact .pure fun _ _ => trivial

/-- The block at a position is resolved from any table that is known. -/
def Follows (base : SymbolTables) (elsewhere : Nat → TableId → Resolving Handle) (position : Nat) : Prop :=
  ∀ more table, base.Grows more → more.Known table →
    Settles more (elsewhere position table) fun _ _ => True

theorem Follows.grow {more : SymbolTables} {position : Nat} (follows : Follows base elsewhere position)
    (grows : base.Grows more) : Follows more elsewhere position :=
  fun later table further known => follows later table (grows.trans further) known

theorem allPositions_follow {more : SymbolTables} {positions : List Nat}
    (follow : ∀ position ∈ positions, Follows base elsewhere position) (grows : base.Grows more) :
    ∀ position ∈ positions, Follows more elsewhere position :=
  fun position member => (follow position member).grow grows

mutual

/-- A statement is resolved if the blocks are that it refers to. -/
theorem ofStatement_settles : ∀ (statement : Statement) {base : SymbolTables} {table : TableId},
    base.Known table → (∀ position ∈ statement.positions, Follows base elsewhere position) →
      Settles base (ofStatement resolver elsewhere table statement) fun _ _ => True
  | .text _, _, _, _, _ | .comment _, _, _, _, _ | .openElement _ _, _, _, _, _
  | .flushElement, _, _, _, _ | .closeElement, _, _, _, _ | .staticAttr _ _ _, _, _, _, _
  | .dynamicAttr _ _ _ _, _, _, _, _ | .yield _ _, _, _, _, _ => .pure fun _ _ => trivial
  | .staticArg _ _, _, _, _, _ | .dynamicArg _ _, _, _, _, _ => .reject
  | .append value trusted, _, table, _, _ => appended_settles table value trusted
  | .modifier path params named, _, _, _, _ => by
    unfold ofStatement
    split
    · exact .pure fun _ _ => trivial
    · exact .reject
  | .block path params named template inverse, base, table, known, follow => by
    rw [Statement.positions, List.forall_mem_append] at follow
    unfold ofStatement
    split
    · refine .bind (ofBlockRef?_settles template known follow.1) fun _ more grown _ => ?_
      refine .bind (ofBlockRef?_settles inverse (known.grow grown)
        (allPositions_follow follow.2 grown)) fun _ _ _ _ => ?_
      refine .bind (.layoutFor resolver _) fun found _ _ _ => ?_
      cases found <;> exact .pure fun _ _ => trivial
    · exact .reject
  | .component tag attrs args body, base, table, known, follow => by
    rw [Statement.positions, List.forall_mem_append] at follow
    unfold ofStatement
    refine .bind (.layoutFor resolver tag) fun found more grown _ => ?_
    have known := known.grow grown
    have attrsFollow := allPositions_follow follow.1 grown
    have bodyFollow := allPositions_follow follow.2 grown
    cases found with
    | none =>
      refine .bind (ofAttributes_settles attrs known attrsFollow) fun _ _ further _ => ?_
      refine .bind (ofBody_settles body (known.grow further) (allPositions_follow bodyFollow further))
        fun _ _ _ _ => .pure fun _ _ => trivial
    | some handle =>
      have invoked : ∀ {later : SymbolTables} (shadow : Option Handle) (named : Named),
          more.Grows later → Settles later (if body.statements.isEmpty = true then do
              let template ← Pure.pure none
              Pure.pure [component tag handle [] named shadow template none]
            else do
              let block ← ofBlock resolver elsewhere table body
              let template ← Pure.pure (some block)
              Pure.pure [component tag handle [] named shadow template none]) fun _ _ => True := by
        intro later shadow named further
        split
        · exact .pure fun _ _ => trivial
        · exact .bind (ofBlock_settles body (known.grow further)
            (allPositions_follow bodyFollow further)) fun _ _ _ _ => .pure fun _ _ => trivial
      dsimp only
      split
      · exact invoked none _ (.refl _)
      · refine .bind (.newTable known []) fun inner _ one within => ?_
        refine .bind (ofAttributes_settles attrs within (allPositions_follow attrsFollow one))
          fun code _ two _ => ?_
        exact .bind (.enqueue _) fun block _ three _ =>
          invoked (some block) _ (one.trans (two.trans three))

theorem ofStatements_settles : ∀ (statements : List Statement) {base : SymbolTables} {table : TableId},
    base.Known table →
      (∀ position ∈ Statement.allPositions statements, Follows base elsewhere position) →
      Settles base (ofStatements resolver elsewhere table statements) fun _ _ => True
  | [], _, _, _, _ => .pure fun _ _ => trivial
  | statement :: rest, base, table, known, follow => by
    rw [Statement.allPositions, List.forall_mem_append] at follow
    unfold ofStatements
    refine .bind (ofStatement_settles statement known follow.1) fun _ _ grown _ => ?_
    exact .bind (ofStatements_settles rest (known.grow grown) (allPositions_follow follow.2 grown))
      fun _ _ _ _ => .pure fun _ _ => trivial

theorem ofAttributes_settles : ∀ (statements : List Statement) {base : SymbolTables} {table : TableId},
    base.Known table →
      (∀ position ∈ Statement.allPositions statements, Follows base elsewhere position) →
      Settles base (ofAttributes resolver elsewhere table statements) fun _ _ => True
  | [], _, _, _, _ => .pure fun _ _ => trivial
  | statement :: rest, base, table, known, follow => by
    rw [Statement.allPositions, List.forall_mem_append] at follow
    unfold ofAttributes
    split
    · exact ofAttributes_settles rest known follow.2
    · refine .bind (ofStatement_settles statement known follow.1) fun _ _ grown _ => ?_
      exact .bind (ofAttributes_settles rest (known.grow grown) (allPositions_follow follow.2 grown))
        fun _ _ _ _ => .pure fun _ _ => trivial

theorem ofBody_settles : ∀ (body : Block) {base : SymbolTables} {table : TableId},
    base.Known table → (∀ position ∈ body.positions, Follows base elsewhere position) →
      Settles base (ofBody resolver elsewhere table body) fun _ _ => True
  | .of statements _, _, _, known, follow => ofStatements_settles statements known follow

theorem ofBlock_settles : ∀ (body : Block) {base : SymbolTables} {table : TableId},
    base.Known table → (∀ position ∈ body.positions, Follows base elsewhere position) →
      Settles base (ofBlock resolver elsewhere table body) fun _ _ => True
  | .of statements locals, base, table, known, follow => by
    unfold ofBlock
    refine .bind (.newTable known locals) fun inner _ grown within => ?_
    refine .bind (ofStatements_settles statements within (allPositions_follow follow grown))
      fun code _ _ _ => ?_
    exact .enqueue _

theorem ofBlockRef_settles : ∀ (ref : BlockRef) {base : SymbolTables} {table : TableId},
    base.Known table → (∀ position ∈ ref.positions, Follows base elsewhere position) →
      Settles base (ofBlockRef resolver elsewhere table ref) fun _ _ => True
  | .index position, base, table, known, follow =>
    follow position List.mem_cons_self base table (.refl _) known
  | .inline written, _, _, known, follow => ofBlock_settles written known follow

theorem ofBlockRef?_settles : ∀ (ref : Option BlockRef) {base : SymbolTables} {table : TableId},
    base.Known table → (∀ position ∈ BlockRef.positions? ref, Follows base elsewhere position) →
      Settles base (ofBlockRef? resolver elsewhere table ref) fun _ _ => True
  | none, _, _, _, _ => .pure fun _ _ => trivial
  | some ref, _, _, known, follow => by
    unfold ofBlockRef?
    exact .bind (ofBlockRef_settles ref known follow) fun _ _ _ _ => .pure fun _ _ => trivial

end

variable {template : Template}

theorem getElem?_of_found {position : Nat} {found : Block}
    (right : template.block? (.index position) = .ok found) :
    template.blocks[position]? = some found := by
  unfold Template.block? at right
  dsimp only at right
  split at right
  · cases right
    assumption
  · cases right

/-- The blocks that lead to a position, none of them twice. -/
structure Way (template : Template) (way : List Nat) (position : Nat) : Prop where
  once : way.Nodup
  there : ∀ earlier ∈ way, earlier < template.blocks.length
  leads : ∀ earlier ∈ way, Relation.TransGen template.Refers earlier position

namespace Way

variable {way : List Nat} {position next : Nat} {found : Block}

theorem extend (passed : Way template way position) (acyclic : template.Acyclic)
    (here : template.blocks[position]? = some found) : (position :: way).Nodup ∧
      ∀ earlier ∈ position :: way, earlier < template.blocks.length := by
  have new : position ∉ way := fun member => acyclic position (passed.leads position member)
  have inside := (List.getElem?_eq_some_iff.mp here).1
  exact ⟨List.nodup_cons.mpr ⟨new, passed.once⟩, List.forall_mem_cons.mpr ⟨inside, passed.there⟩⟩

theorem step (passed : Way template way position) (acyclic : template.Acyclic)
    (refers : template.Refers position next) : Way template (position :: way) next := by
  obtain ⟨found, here, -⟩ := id refers
  obtain ⟨once, there⟩ := passed.extend acyclic here
  refine ⟨once, there, List.forall_mem_cons.mpr ⟨.single refers, fun earlier member => ?_⟩⟩
  exact (passed.leads earlier member).tail refers

/-- There are no more blocks on the way than the template has. -/
theorem length_lt (passed : Way template way position) (acyclic : template.Acyclic)
    (here : template.blocks[position]? = some found) : way.length < template.blocks.length := by
  obtain ⟨once, there⟩ := passed.extend acyclic here
  have among : position :: way ⊆ List.range template.blocks.length :=
    fun earlier member => List.mem_range.mpr (there earlier member)
  have bounded := (List.subperm_of_subset once among).length_le
  rwa [List.length_cons, List.length_range] at bounded

end Way

/-- The depth is not used up before the way comes to its end. -/
theorem blockAt_follows (acyclic : template.Acyclic) (depth position : Nat) (way : List Nat)
    (passed : Way template way position) (enough : template.blocks.length ≤ way.length + depth) :
    Follows base (blockAt resolver template depth) position := by
  intro more table grows known
  induction depth generalizing base more position way table with
  | zero =>
    unfold blockAt
    refine .bind (.rejectBy _) fun found _ _ right => ?_
    have shorter := passed.length_lt acyclic (getElem?_of_found right)
    omega
  | succ depth ih =>
    unfold blockAt
    refine .bind (.rejectBy _) fun found later grown right => ?_
    refine ofBlock_settles found (known.grow grown) fun next member => ?_
    have refers : template.Refers position next := ⟨found, getElem?_of_found right, member⟩
    have further := passed.step acyclic refers
    exact fun last inner grows known =>
      ih next (position :: way) further (by rw [List.length_cons]; omega) last inner grows known

/-- Resolving ends when no chain of references comes back to where it began. -/
theorem within_settles (acyclic : template.Acyclic) {table : TableId} (known : base.Known table)
    (statements : List Statement) :
    Settles base (within resolver template table statements) fun _ _ => True :=
  ofStatements_settles statements known fun position _ =>
    blockAt_follows acyclic _ position [] ⟨.nil, by simp, by simp⟩ (by simp)

/-! Chains that come back -/

/-- At least once, the block at the position is resolved. -/
def Reached (elsewhere : Nat → TableId → Resolving Handle) (position : Nat) : Prop :=
  ∃ table before handle after, elsewhere position table before = .ok handle after

theorem positions_of_isArgument {statement : Statement} (argument : isArgument statement = true) :
    statement.positions = [] := by
  cases statement <;> first | rfl | cases argument

theorem allPositions_of_isArgument {statements : List Statement}
    (arguments : statements.all isArgument = true) : Statement.allPositions statements = [] := by
  induction statements with
  | nil => rfl
  | cons statement rest ih =>
    rw [List.all_cons, Bool.and_eq_true] at arguments
    rw [Statement.allPositions, positions_of_isArgument arguments.1, ih arguments.2]
    rfl

mutual

/-- A statement is only resolved when each of the blocks is that it refers to. -/
theorem reached_of_ofStatement : ∀ (statement : Statement) {table : TableId} {before after : Compilation}
    {code : List Resolved}, ofStatement resolver elsewhere table statement before = .ok code after →
      ∀ position ∈ statement.positions, Reached elsewhere position
  | .text _, _, _, _, _, _ | .comment _, _, _, _, _, _ | .openElement _ _, _, _, _, _, _
  | .flushElement, _, _, _, _, _ | .closeElement, _, _, _, _, _ | .staticAttr _ _ _, _, _, _, _, _
  | .dynamicAttr _ _ _ _, _, _, _, _, _ | .yield _ _, _, _, _, _, _ | .staticArg _ _, _, _, _, _, _
  | .dynamicArg _ _, _, _, _, _, _ | .append _ _, _, _, _, _, _ | .modifier _ _ _, _, _, _, _, _ =>
    fun _ member => by simp [Statement.positions] at member
  | .block path params named template inverse, table, before, after, code, ended => by
    rw [Statement.positions, List.forall_mem_append]
    unfold ofStatement at ended
    split at ended
    · obtain ⟨_, _, one, rest⟩ := bind_ok.mp ended
      obtain ⟨_, _, two, -⟩ := bind_ok.mp rest
      exact ⟨reached_of_ofBlockRef? template one, reached_of_ofBlockRef? inverse two⟩
    · exact absurd ended throw_ok
  | .component tag attrs args body, table, before, after, code, ended => by
    rw [Statement.positions, List.forall_mem_append]
    unfold ofStatement at ended
    obtain ⟨found, _, -, ended⟩ := bind_ok.mp ended
    cases found with
    | none =>
      obtain ⟨_, _, one, rest⟩ := bind_ok.mp ended
      obtain ⟨_, _, two, -⟩ := bind_ok.mp rest
      exact ⟨reached_of_ofAttributes attrs one, reached_of_ofBody body two⟩
    | some handle =>
      have inside : ∀ {state : Compilation} (shadow : Option Handle) (named : Named),
          (if body.statements.isEmpty = true then do
              let template ← Pure.pure none
              Pure.pure [component tag handle [] named shadow template none]
            else do
              let block ← ofBlock resolver elsewhere table body
              let template ← Pure.pure (some block)
              Pure.pure [component tag handle [] named shadow template none]) state = .ok code after →
            ∀ position ∈ body.positions, Reached elsewhere position := by
        intro state shadow named ended
        split at ended
        · obtain ⟨statements, locals⟩ := body
          cases List.isEmpty_iff.mp ‹_›
          exact fun _ member => absurd member List.not_mem_nil
        · obtain ⟨_, _, inner, -⟩ := bind_ok.mp ended
          exact reached_of_ofBlock body inner
      dsimp only at ended
      split at ended
      · rw [allPositions_of_isArgument ‹_›]
        exact ⟨fun _ member => absurd member List.not_mem_nil, inside none _ ended⟩
      · obtain ⟨_, _, -, ended⟩ := bind_ok.mp ended
        obtain ⟨_, _, one, ended⟩ := bind_ok.mp ended
        obtain ⟨block, _, -, ended⟩ := bind_ok.mp ended
        exact ⟨reached_of_ofAttributes attrs one, inside (some block) _ ended⟩

theorem reached_of_ofStatements : ∀ (statements : List Statement) {table : TableId}
    {before after : Compilation} {code : List Resolved},
    ofStatements resolver elsewhere table statements before = .ok code after →
      ∀ position ∈ Statement.allPositions statements, Reached elsewhere position
  | [], _, _, _, _, _ => fun _ member => absurd member List.not_mem_nil
  | statement :: rest, table, before, after, code, ended => by
    rw [Statement.allPositions, List.forall_mem_append]
    unfold ofStatements at ended
    obtain ⟨_, _, one, ended⟩ := bind_ok.mp ended
    obtain ⟨_, _, two, -⟩ := bind_ok.mp ended
    exact ⟨reached_of_ofStatement statement one, reached_of_ofStatements rest two⟩

theorem reached_of_ofAttributes : ∀ (statements : List Statement) {table : TableId}
    {before after : Compilation} {code : List Resolved},
    ofAttributes resolver elsewhere table statements before = .ok code after →
      ∀ position ∈ Statement.allPositions statements, Reached elsewhere position
  | [], _, _, _, _, _ => fun _ member => absurd member List.not_mem_nil
  | statement :: rest, table, before, after, code, ended => by
    rw [Statement.allPositions, List.forall_mem_append]
    unfold ofAttributes at ended
    split at ended
    · rw [positions_of_isArgument ‹_›]
      exact ⟨fun _ member => absurd member List.not_mem_nil, reached_of_ofAttributes rest ended⟩
    · obtain ⟨_, _, one, ended⟩ := bind_ok.mp ended
      obtain ⟨_, _, two, -⟩ := bind_ok.mp ended
      exact ⟨reached_of_ofStatement statement one, reached_of_ofAttributes rest two⟩

theorem reached_of_ofBody : ∀ (body : Block) {table : TableId} {before after : Compilation}
    {code : List Resolved}, ofBody resolver elsewhere table body before = .ok code after →
      ∀ position ∈ body.positions, Reached elsewhere position
  | .of statements _, _, _, _, _, ended => reached_of_ofStatements statements ended

theorem reached_of_ofBlock : ∀ (body : Block) {table : TableId} {before after : Compilation}
    {handle : Handle}, ofBlock resolver elsewhere table body before = .ok handle after →
      ∀ position ∈ body.positions, Reached elsewhere position
  | .of statements _, _, _, _, _, ended => by
    unfold ofBlock at ended
    obtain ⟨_, _, -, ended⟩ := bind_ok.mp ended
    obtain ⟨_, _, inner, -⟩ := bind_ok.mp ended
    exact reached_of_ofStatements statements inner

theorem reached_of_ofBlockRef : ∀ (ref : BlockRef) {table : TableId} {before after : Compilation}
    {handle : Handle}, ofBlockRef resolver elsewhere table ref before = .ok handle after →
      ∀ position ∈ ref.positions, Reached elsewhere position
  | .index _, _, _, _, _, ended => List.forall_mem_singleton.mpr ⟨_, _, _, _, ended⟩
  | .inline written, _, _, _, _, ended => reached_of_ofBlock written ended

theorem reached_of_ofBlockRef? : ∀ (ref : Option BlockRef) {table : TableId} {before after : Compilation}
    {handle : Option Handle}, ofBlockRef? resolver elsewhere table ref before = .ok handle after →
      ∀ position ∈ BlockRef.positions? ref, Reached elsewhere position
  | none, _, _, _, _, _ => fun _ member => absurd member List.not_mem_nil
  | some ref, _, _, _, _, ended => by
    unfold ofBlockRef? at ended
    obtain ⟨_, _, inner, -⟩ := bind_ok.mp ended
    exact reached_of_ofBlockRef ref inner

end

/-- The chain of references goes on one level below. -/
theorem Reached.next {depth position other : Nat}
    (reached : Reached (blockAt resolver template depth) position)
    (refers : template.Refers position other) :
    ∃ below, depth = below + 1 ∧ Reached (blockAt resolver template below) other := by
  obtain ⟨table, before, handle, after, ended⟩ := reached
  obtain ⟨found, here, member⟩ := refers
  have right : template.block? (.index position) = .ok found := by
    unfold Template.block?
    dsimp only
    rw [here]
  unfold blockAt at ended
  rw [right] at ended
  cases depth with
  | zero => exact absurd ended throw_ok
  | succ below => exact ⟨below, rfl, reached_of_ofBlock found ended other member⟩

/-- No depth is enough for a block that some chain of references comes back to. -/
theorem not_reached_of_cycle {position : Nat} (cycle : Relation.TransGen template.Refers position position)
    (depth : Nat) : ¬Reached (blockAt resolver template depth) position := by
  induction depth using Nat.strongRecOn generalizing position with
  | ind depth ih =>
    intro reached
    obtain ⟨next, refers, back⟩ := Relation.TransGen.head'_iff.mp cycle
    obtain ⟨below, rfl, later⟩ := reached.next refers
    exact ih below (Nat.lt_succ_self below) (.tail' back refers) later

/-- Statements are only resolved when no chain of references that begins with one of them runs into a
circle. -/
theorem acyclic_of_within {statements : List Statement} {table : TableId} {before after : Compilation}
    {code : List Resolved} (ended : within resolver template table statements before = .ok code after)
    {position other : Nat} (member : position ∈ Statement.allPositions statements)
    (leads : Relation.ReflTransGen template.Refers position other) :
    ¬Relation.TransGen template.Refers other other := by
  have begun := reached_of_ofStatements statements ended position member
  have reached : ∃ depth, Reached (blockAt resolver template depth) other := by
    induction leads with
    | refl => exact ⟨_, begun⟩
    | tail _ refers ih =>
      obtain ⟨depth, reached⟩ := ih
      obtain ⟨below, -, later⟩ := reached.next refers
      exact ⟨below, later⟩
  obtain ⟨depth, reached⟩ := reached
  exact fun cycle => not_reached_of_cycle cycle depth reached

end Resolved

/-- A condition that is written inside itself. -/
example :
    let again : Statement := .block ⟨"if", []⟩ [.unknown ⟨"open", []⟩] [] (some (.index 0)) none
    let template : Template := {
      block := .of [again] []
      prelude := none
      named := []
      yields := []
      hasPartials := false
      blocks := [.of [.text "more", again] []]
      description := .null }
    compile ⟨fun _ => false, fun _ => false, fun _ => none, fun _ => none, []⟩ [template] =
      .error (.broken .endless) := rfl

end LiveTemplate
