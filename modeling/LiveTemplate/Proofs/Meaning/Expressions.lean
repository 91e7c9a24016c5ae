import LiveTemplate.Proofs.Compile.Expressions
import LiveTemplate.Proofs.Meaning.Phrases
import LiveTemplate.Proofs.Render.Endings

/-!
The code of an expression pushes the reference that the expression stands for. What is written is
followed into the program that it becomes a part of, and from there into a run: `Stage.Turns` says
of a piece of the code generator that a run which gets to its code gets past it, with other operands
on the stack.
-/

namespace LiveTemplate

open Effects Running

/-! What is written, in the program -/

/-- All that is written in the draft is in the program. -/
structure Draft.Within (draft : Draft) (compiled : CompiledProgram) : Prop where
  program : draft.program.Keeps compiled.program
  pool : draft.pool.Grows compiled.pool

theorem Draft.Within.of_grows {before after : Draft} {compiled : CompiledProgram}
    (within : after.Within compiled) (grows : before.Grows after) : before.Within compiled :=
  ⟨grows.program.trans within.program, grows.pool.trans within.pool⟩

namespace Writing

variable {before after : Draft}

theorem pooled_there {α : Type} {add : Pool → α × Pool} {result : α}
    (ended : pooled add before = .ok result after) (grows : ∀ pool : Pool, pool.Grows (add pool).2) :
    before.Grows after ∧ after.scopes = before.scopes ∧ after.program = before.program ∧
      add before.pool = (result, after.pool) := by
  obtain ⟨rfl, rfl⟩ := pooled_ok.mp ended
  exact ⟨⟨fun _ _ here _ => here, Nat.le_refl _, grows _, Nat.le_refl _⟩, rfl, rfl, rfl⟩

theorem string_there {content : String} {handle : Handle}
    (ended : string content before = .ok handle after) :
    before.Grows after ∧ after.scopes = before.scopes ∧ after.program = before.program ∧
      after.pool.string handle = .ok content := by
  obtain ⟨grows, scopes, program, added⟩ :=
    pooled_there ended fun pool => pool.intern_grows content
  have there := before.pool.intern_string content
  rw [added] at there
  exact ⟨grows, scopes, program, there⟩

end Writing

/-! A stretch of a run -/

/-- One frame of a run that comes to its end. -/
structure Stage where
  scene : Scene
  machine : Machine
  frame : Frame
  outer : List Frame
  last : Machine

namespace Stage

/-- The machine at a place of the frame's code. -/
def machineAt (stage : Stage) (place : Nat) (operands : List Operand) (stats : Stats) : Machine :=
  stage.machine.having (stage.frame.go place :: stage.outer) operands stats

/-- The run gets to the place with these operands. -/
def Reaches (stage : Stage) (place : Nat) (operands : List Operand) : Prop :=
  ∃ stats, Ends stage.scene (stage.machineAt place operands stats) stage.last

/-- What the code writes takes operands from the stack and puts others there, and does nothing
else. -/
def Turns (stage : Stage) (before : Draft) (action : Writing Unit) (taken given : List Operand) :
    Prop :=
  ∀ after, action before = .ok () after →
    before.Grows after ∧ after.scopes = before.scopes ∧
      (after.Within stage.scene.program → after.program.length ≤ stage.frame.slice.stop →
        ∀ operands, stage.Reaches before.program.length (taken ++ operands) →
          stage.Reaches after.program.length (given ++ operands))

namespace Turns

variable {stage : Stage} {before : Draft} {taken between given : List Operand}

theorem pure : stage.Turns before (Pure.pure ()) taken taken := by
  intro after ended
  obtain ⟨-, rfl⟩ := pure_ok.mp ended
  exact ⟨.refl _, rfl, fun _ _ _ reaches => reaches⟩

theorem reject {error : CompileError} : stage.Turns before (Writing.reject error) taken given :=
  fun _ ended => absurd ended throw_ok

theorem seq {first next : Writing Unit} (early : stage.Turns before first taken between)
    (late : ∀ middle, before.Grows middle → stage.Turns middle next between given) :
    stage.Turns before (first >>= fun _ => next) taken given := by
  intro after ended
  obtain ⟨_, middle, one, two⟩ := bind_ok.mp ended
  obtain ⟨grows, scopes, turns⟩ := early middle one
  obtain ⟨further, scopesToo, turnsToo⟩ := late middle grows after two
  refine ⟨grows.trans further, scopesToo.trans scopes, fun within bound operands reaches => ?_⟩
  exact turnsToo within bound operands
    (turns (within.of_grows further) (Nat.le_trans further.length bound) operands reaches)

/-- What lies further down stays where it is. -/
theorem frame {action : Writing Unit} (turns : stage.Turns before action taken given)
    (below : List Operand) : stage.Turns before action (taken ++ below) (given ++ below) := by
  intro after ended
  obtain ⟨grows, scopes, moves⟩ := turns after ended
  refine ⟨grows, scopes, fun within bound operands reaches => ?_⟩
  rw [List.append_assoc] at reaches ⊢
  exact moves within bound _ reaches

/-- Constants are added on the way. -/
theorem pooled {α : Type} {add : Pool → α × Pool} {next : α → Writing Unit}
    (grows : ∀ pool : Pool, pool.Grows (add pool).2)
    (late : ∀ value middle, before.Grows middle → add before.pool = (value, middle.pool) →
      stage.Turns middle (next value) taken given) :
    stage.Turns before (Writing.pooled add >>= next) taken given := by
  intro after ended
  obtain ⟨value, middle, one, two⟩ := bind_ok.mp ended
  obtain ⟨added, scopes, program, result⟩ := Writing.pooled_there one grows
  obtain ⟨further, scopesToo, turns⟩ := late value middle added result after two
  refine ⟨added.trans further, scopesToo.trans scopes, ?_⟩
  rwa [program] at turns

theorem string {content : String} {next : Handle → Writing Unit}
    (late : ∀ handle middle, before.Grows middle → middle.pool.string handle = .ok content →
      stage.Turns middle (next handle) taken given) :
    stage.Turns before (Writing.string content >>= next) taken given := by
  refine pooled (fun pool => pool.intern_grows content) fun handle middle grows added => ?_
  refine late handle middle grows ?_
  have there := before.pool.intern_string content
  rwa [added] at there

/-- One instruction, which may fail. -/
theorem emit_of {op : Op} {first second third : Nat} (real : op ≠ .noop)
    (steps : before.Within stage.scene.program → ∀ place operands stats after,
      Running.step stage.scene ⟨op, first, second, third⟩
        (stage.machineAt place (taken ++ operands) stats) = .ok () after →
      after = stage.machineAt place (given ++ operands) stats) :
    stage.Turns before (Writing.emit op first second third) taken given := by
  intro after ended
  obtain ⟨grows, scopes, length, -, -, here⟩ := Writing.emit_ok ended
  refine ⟨grows, scopes, fun within bound operands reaches => ?_⟩
  obtain ⟨stats, ends⟩ := reaches
  have there := within.program _ _ here real
  have inside : before.program.length < stage.frame.slice.stop := by omega
  obtain ⟨later, final, stepped, rest⟩ := Ends.step ends inside there
  have result := steps (within.of_grows grows) _ _ _ _ stepped
  rw [length]
  exact ⟨later, result ▸ rest⟩

/-- One instruction. -/
theorem emit {op : Op} {first second third : Nat} (real : op ≠ .noop)
    (steps : before.Within stage.scene.program → ∀ place operands stats,
      Running.step stage.scene ⟨op, first, second, third⟩
        (stage.machineAt place (taken ++ operands) stats) =
          .ok () (stage.machineAt place (given ++ operands) stats)) :
    stage.Turns before (Writing.emit op first second third) taken given :=
  emit_of real fun within place operands stats _ stepped =>
    (EStateM.Result.ok.inj ((steps within place operands stats).symm.trans stepped)).2.symm

end Turns

end Stage

/-! Operands -/

/-- References on the stack, the last of them on top. -/
abbrev Operand.references (references : List Reference) : List Operand :=
  (references.map Operand.reference).reverse

namespace Running

variable {machine : Machine} {frames : List Frame} {operands : List Operand} {stats : Stats}

theorem popReference_eq {reference : Reference} :
    popReference (machine.having frames (.reference reference :: operands) stats) =
      .ok reference (machine.having frames operands stats) :=
  rfl

theorem popMany_eq (references : List Reference) :
    ∀ kept, popMany references.length kept
        (machine.having frames (references.map .reference ++ operands) stats) =
      .ok (references.reverse ++ kept) (machine.having frames operands stats) := by
  induction references with
  | nil => exact fun kept => rfl
  | cons reference rest ih =>
    intro kept
    refine (bind_of_ok rfl).trans ?_
    rw [List.reverse_cons, List.append_assoc]
    exact ih (reference :: kept)

theorem popReferences_eq (references : List Reference) :
    popReferences references.length
        (machine.having frames (Operand.references references ++ operands) stats) =
      .ok references (machine.having frames operands stats) := by
  unfold popReferences
  refine (bind_of_ok rfl).trans ?_
  have enough : ¬(machine.having frames (Operand.references references ++ operands)
      stats).operands.length < references.length := by
    simp [Machine.having]
  rw [if_neg enough]
  have popped : popMany references.reverse.length [] (machine.having frames
      (references.reverse.map Operand.reference ++ operands) stats) = _ :=
    popMany_eq references.reverse []
  rwa [List.length_reverse, List.reverse_reverse, List.append_nil, List.map_reverse] at popped

variable {scene : Scene}

theorem lookUp_eq {α : Type} {found : Except Defect α} {value : α} (same : found = .ok value)
    (machine : Machine) : (liftM found : Running α) machine = .ok value machine := by
  rw [same]
  rfl

theorem collectArguments_eq {handle : Handle} {names : List String}
    (written : scene.program.pool.stringArray handle = .ok names)
    (positional named : List Reference) (many : names.length = named.length) :
    collectArguments scene positional.length handle
        (machine.having frames
          (Operand.references named ++ (Operand.references positional ++ operands)) stats) =
      .ok { positional, named := names.zip named } (machine.having frames operands stats) := by
  unfold collectArguments
  refine (bind_of_ok (lookUp_eq written _)).trans ?_
  rw [many]
  refine (bind_of_ok (popReferences_eq named)).trans ?_
  exact (bind_of_ok (popReferences_eq positional)).trans rfl

end Running

/-! References of several expressions -/

theorem Operand.references_cons (reference : Reference) (rest : List Reference) :
    Operand.references (reference :: rest) =
      Operand.references rest ++ [.reference reference] := by
  rw [Operand.references, List.map_cons, List.reverse_cons]

namespace Expression

variable (around : Surroundings)

theorem references_length (values : List Expression) :
    (references around values).length = values.length := by
  induction values with
  | nil => rfl
  | cons first rest ih => rw [references, List.length_cons, List.length_cons, ih]

theorem namedReferences_length (named : List (String × Expression)) :
    (namedReferences around named).length = named.length := by
  induction named with
  | nil => rfl
  | cons first rest ih => rw [namedReferences, List.length_cons, List.length_cons, ih]

theorem zip_namedReferences (named : List (String × Expression)) :
    (named.map Prod.fst).zip ((namedReferences around named).map Prod.snd) =
      namedReferences around named := by
  induction named with
  | nil => rfl
  | cons first rest ih => rw [namedReferences, List.map_cons, List.map_cons, List.zip_cons_cons, ih]

theorem reference_helper {name : String} {params : List Expression} {named : Named}
    (other : name = "-get-dynamic-var" → False) :
    reference around (.helper ⟨name, []⟩ params named) =
      .helper name (references around params) (namedReferences around named) := by
  unfold reference
  split
  · rename_i same
    cases same
    exact (other rfl).elim
  · rename_i same
    cases same
    rfl

end Expression

/-! The names of a block -/

/-- The block is one of an entry point: there is nothing that a layout would be given. -/
structure SymbolView.OfEntry (names : SymbolView) : Prop where
  kind : names.program.kind = .entry
  yields : names.program.yields = []
  partialArgs : names.program.partialArgs = none

/-- What the parameters of the block and of those around it are bound to. -/
def SymbolView.bindings (names : SymbolView) (scope : Scope) : List (String × Reference) :=
  (names.table.locals ++ names.table.enclosing).map fun entry => (entry.1, scope.reference entry.2)

theorem SymbolView.bindings_lookup (names : SymbolView) (scope : Scope) (name : String) :
    (names.bindings scope).lookup name = (names.local? name).map scope.reference := by
  unfold SymbolView.bindings SymbolView.local?
  induction names.table.locals ++ names.table.enclosing with
  | nil => rfl
  | cons entry rest ih =>
    obtain ⟨other, symbol⟩ := entry
    rw [List.map_cons, List.lookup_cons, List.lookup_cons, ih]
    cases name == other <;> rfl

def Code.Place.surroundings (place : Code.Place) (scope : Scope) : Surroundings where
  hasHelper := place.resolver.hasHelper
  this := scope.this
  bindings := place.names.bindings scope

/-- What the code of the frame can see. -/
structure Stage.Sees (stage : Stage) (scope : Scope) : Prop where
  scope : stage.machine.world.scopes.get stage.frame.scope = .ok scope
  ambient : ∃ rest, stage.frame.ambient = [] :: rest

section Asking

variable {stage : Stage} {scope : Scope} {place : Nat} {operands : List Operand} {stats : Stats}

theorem Stage.Sees.scope_eq (sees : stage.Sees scope) :
    Running.scope (stage.machineAt place operands stats) =
      .ok scope (stage.machineAt place operands stats) := by
  refine (bind_of_ok rfl).trans ((bind_of_ok rfl).trans ?_)
  exact lookUp_eq sees.scope _

theorem Stage.Sees.ambient_eq (sees : stage.Sees scope) :
    Running.ambient (stage.machineAt place operands stats) =
      .ok [] (stage.machineAt place operands stats) := by
  obtain ⟨rest, visible⟩ := sees.ambient
  refine (bind_of_ok rfl).trans ?_
  dsimp only [Frame.go]
  rw [visible]
  rfl

end Asking

/-! The code of expressions -/

namespace Code

open Stage

section Expressions

variable {stage : Stage} {place : Place} {scope : Scope} {before : Draft}

/-- What a literal stands for. -/
def Stands (pool : Pool) (literal : Primitive) (value : Value) : Prop :=
  match literal with
  | .number content => value = .int (Int64.ofNat content)
  | .text handle => ∃ content, pool.string handle = .ok content ∧ value = .text content
  | .bool content => value = .bool content
  | .null => value = .null
  | .undefined => value = .undefined

theorem literalOf_eq {scene : Scene} {literal : Primitive} {value : Value}
    (stands : Stands scene.program.pool literal value) (machine : Machine) :
    literalOf scene literal machine = .ok value machine := by
  cases literal with
  | text handle =>
    obtain ⟨content, there, rfl⟩ := stands
    exact bind_of_ok (lookUp_eq there machine)
  | number content => exact congrArg (EStateM.Result.ok · machine) stands.symm
  | bool content => exact congrArg (EStateM.Result.ok · machine) stands.symm
  | null => exact congrArg (EStateM.Result.ok · machine) stands.symm
  | undefined => exact congrArg (EStateM.Result.ok · machine) stands.symm

theorem Stands.grow {first second : Pool} {literal : Primitive} {value : Value}
    (stands : Stands first literal value) (grows : first.Grows second) :
    Stands second literal value := by
  cases literal with
  | text handle =>
    obtain ⟨content, there, same⟩ := stands
    exact ⟨content, grows.string there, same⟩
  | _ => exact stands

theorem decode_ok {pool : Pool} (small : pool.Small) {literal : Primitive} {value : Value}
    (stands : Stands pool literal value) {operand : Nat} (encoded : literal.encode = .ok operand) :
    Primitive.decode operand = .ok literal := by
  refine Primitive.decode_encode encoded fun handle same => ?_
  subst same
  obtain ⟨content, there, -⟩ := stands
  have has : (Referents.mk pool 0 0 0).HasString handle := ⟨content, there⟩
  exact Nat.le_trans has.le_size small

theorem primitive_turns (small : stage.scene.program.pool.Small) {literal : Primitive}
    {value : Value} (stands : Stands before.pool literal value) :
    stage.Turns before (primitive literal) [] [.reference (.const value)] := by
  intro after ended
  obtain ⟨operand, middle, known, emitted⟩ := bind_ok.mp ended
  obtain ⟨encoded, rfl⟩ := Writing.sound_ok.mp known
  refine Turns.emit (by decide) (fun within place operands stats => ?_) after emitted
  have final := stands.grow within.pool
  refine (bind_of_ok (lookUp_eq (decode_ok small final encoded) _)).trans ?_
  exact bind_of_ok (literalOf_eq final _)

theorem literal_turns (small : stage.scene.program.pool.Small) (value : Value) :
    stage.Turns before (literal value) [] [.reference (.const value)] := by
  have pooled : ∀ value : Value, stage.Turns before (do
      Writing.emit .pushImmediate (← Writing.pooled (Pool.addValue · value))) []
        [.reference (.const value)] := by
    intro value
    refine Turns.pooled (fun pool => pool.addValue_grows value) fun handle middle _ added => ?_
    refine Turns.emit (by decide) fun within place operands stats => ?_
    have there := before.pool.addValue_value value
    rw [added] at there
    exact bind_of_ok (lookUp_eq (within.pool.value there) _)
  cases value with
  | undefined => exact primitive_turns small rfl
  | null => exact primitive_turns small rfl
  | bool value => exact primitive_turns small rfl
  | text content =>
    exact Turns.string fun handle middle _ there => primitive_turns small ⟨content, there, rfl⟩
  | int value =>
    change stage.Turns before (if 0 ≤ value.toInt ∧ value.toInt ≤ Primitive.maxNumber then
      primitive (.number value.toInt.toNat) else _) _ _
    split
    · rename_i range
      refine primitive_turns small ?_
      rw [Stands, ← Int64.ofInt_eq_ofNat, Int.toNat_of_nonneg range.1, Int64.ofInt_toInt]
    · exact pooled _
  | float value => exact pooled _
  | list storage items => exact pooled _
  | map storage entries => exact pooled _

theorem keys_turns (path : List String) {reference : Reference} :
    stage.Turns before (keys path) [.reference reference] [.reference (reference.along path)] := by
  induction path generalizing before reference with
  | nil => exact Turns.pure
  | cons key rest ih =>
    refine Turns.string fun handle middle _ there => ?_
    refine Turns.seq (Turns.emit (by decide) fun within place operands stats => ?_) fun _ _ => ih
    refine (bind_of_ok popReference_eq).trans ?_
    exact bind_of_ok (lookUp_eq (within.pool.string there) _)

theorem onlyParam_ok {α : Type} {name : String} {params : List α} {param : α} {after : Draft}
    (ended : onlyParam name params before = .ok param after) :
    params = [param] ∧ before = after := by
  unfold onlyParam at ended
  split at ended
  · obtain ⟨rfl, rfl⟩ := pure_ok.mp ended
    exact ⟨rfl, rfl⟩
  · exact absurd ended throw_ok

theorem selfPath_turns (sees : stage.Sees scope) (path : List String) :
    stage.Turns before (selfPath path) [] [.reference (scope.this.along path)] :=
  Turns.seq (Turns.emit (by decide) fun _ _ _ _ => bind_of_ok sees.scope_eq)
    fun _ _ => keys_turns path

theorem symbolPath_turns (sees : stage.Sees scope) (symbol : Symbol) (path : List String) :
    stage.Turns before (symbolPath symbol path) []
      [.reference ((scope.reference symbol).along path)] :=
  Turns.seq (Turns.emit (by decide) fun _ _ _ _ => bind_of_ok sees.scope_eq)
    fun _ _ => keys_turns path

/-- An entry point is given no blocks. -/
theorem hasBlock_turns (small : stage.scene.program.pool.Small) (entry : place.names.OfEntry)
    (op : Op) (name : String) :
    stage.Turns before (hasBlock place op name) [] [.reference (.const (.bool false))] := by
  have absent : place.names.yield? name = none := by
    rw [SymbolView.yield?, entry.yields]
    rfl
  have bag : place.names.partialArgs = none := entry.partialArgs
  unfold hasBlock
  rw [absent, bag]
  exact primitive_turns small rfl

/-- The names of an array of strings, of which there may be none. -/
theorem argumentList_ok {op : Op} {positional : Nat} {names : List String} {after : Draft}
    (ended : argumentList op positional names before = .ok () after) :
    ∃ handle middle, before.Grows middle ∧ middle.scopes = before.scopes ∧
      middle.program = before.program ∧ middle.pool.stringArray handle = .ok names ∧
      Writing.emit op positional handle 0 middle = .ok () after := by
  unfold argumentList at ended
  cases names with
  | nil => exact ⟨0, before, .refl _, rfl, rfl, rfl, ended⟩
  | cons name rest =>
    obtain ⟨handle, middle, made, emitted⟩ := bind_ok.mp ended
    obtain ⟨grows, scopes, program, added⟩ :=
      Writing.pooled_there made fun pool => pool.addStrings_grows (name :: rest)
    have there := before.pool.addStrings_stringArray (name :: rest)
    rw [added] at there
    exact ⟨handle, middle, grows, scopes, program, there, emitted⟩

/-- The arguments become one operand. -/
theorem pushArgs_turns (positional named : List Reference) {names : List String}
    (many : names.length = named.length) :
    stage.Turns before (argumentList .pushArgs positional.length names)
      (Operand.references named ++ Operand.references positional)
      [.arguments { positional, named := names.zip named }] := by
  intro after ended
  obtain ⟨handle, middle, grows, scopes, program, there, emitted⟩ := argumentList_ok ended
  have emits : stage.Turns middle (Writing.emit .pushArgs positional.length handle)
      (Operand.references named ++ Operand.references positional)
      [.arguments { positional, named := names.zip named }] := by
    refine Turns.emit (by decide) fun within place operands stats => ?_
    rw [List.append_assoc]
    exact bind_of_ok (collectArguments_eq (within.pool.stringArray there) _ _ many)
  obtain ⟨further, scopesToo, turns⟩ := emits after emitted
  rw [program] at turns
  exact ⟨grows.trans further, scopesToo.trans scopes, turns⟩

theorem call_turns (name : String) (invocation : Invocation) :
    stage.Turns before (call name) [.arguments invocation]
      [.reference (.helper name invocation.positional invocation.named)] := by
  refine Turns.string fun handle middle _ there => ?_
  refine Turns.emit_of (by decide) fun within place operands stats after stepped => ?_
  obtain ⟨_, between, asked, stepped⟩ := bind_ok.mp stepped
  cases (lookUp_eq (within.pool.string there) _).symm.trans asked
  obtain ⟨given, popped, taken, stepped⟩ := bind_ok.mp stepped
  cases taken
  cases found : stage.scene.host.registry.helper? name with
  | none =>
    rw [found] at stepped
    exact absurd stepped throw_ok
  | some helper =>
    rw [found] at stepped
    exact (modify_ok.mp stepped).symm

/-- The code of a path whose first name may be a parameter. -/
theorem path_turns (sees : stage.Sees scope) (path : Path) {otherwise : Writing Unit}
    {missing : Reference} (turns : stage.Turns before otherwise [] [.reference missing]) :
    stage.Turns before (match place.names.local? path.head with
      | some symbol => symbolPath symbol path.tail
      | none => otherwise) []
      [.reference (match (place.surroundings scope).bindings.lookup path.head with
        | some reference => reference.along path.tail
        | none => missing)] := by
  rw [Place.surroundings, SymbolView.bindings_lookup]
  cases place.names.local? path.head with
  | some symbol => exact symbolPath_turns sees symbol path.tail
  | none => exact turns

theorem get_turns (sees : stage.Sees scope) (path : Path) :
    stage.Turns before (expression place (.get path)) []
      [.reference (Expression.reference (place.surroundings scope) (.get path))] := by
  unfold expression Expression.reference
  rw [Place.surroundings, SymbolView.bindings_lookup]
  cases place.names.local? path.head with
  | some symbol => exact symbolPath_turns sees symbol path.tail
  | none => exact Turns.reject

theorem unknown_turns (sees : stage.Sees scope) (path : Path) :
    stage.Turns before (expression place (.unknown path)) []
      [.reference (Expression.reference (place.surroundings scope) (.unknown path))] := by
  unfold expression Expression.reference
  by_cases called : (path.tail.isEmpty && place.resolver.hasHelper path.head) = true
  · have alike : (path.tail.isEmpty && (place.surroundings scope).hasHelper path.head) = true :=
      called
    rw [if_pos called, if_pos alike]
    exact Turns.seq (pushArgs_turns [] [] rfl) fun _ _ => call_turns path.head _
  · have alike : ¬(path.tail.isEmpty && (place.surroundings scope).hasHelper path.head) = true :=
      called
    rw [if_neg called, if_neg alike]
    exact path_turns sees path (selfPath_turns sees _)

theorem argument_turns (entry : place.names.OfEntry) (path : Path) {given : List Operand} :
    stage.Turns before (expression place (.argument path)) [] given := by
  have other : ¬place.names.programKind = .layout := by
    rw [SymbolView.programKind, entry.kind]
    decide
  unfold expression
  rw [if_neg other]
  exact fun after ended => absurd ended throw_ok

mutual

theorem expression_turns (small : stage.scene.program.pool.Small) (entry : place.names.OfEntry)
    (sees : stage.Sees scope) :
    ∀ (value : Expression) {before : Draft},
      stage.Turns before (expression place value) []
        [.reference (value.reference (place.surroundings scope))]
  | .literal value, _ => literal_turns small value
  | .undefined, _ => primitive_turns small rfl
  | .get path, _ => get_turns sees path
  | .selfGet path, _ => selfPath_turns sees _
  | .unknown path, _ => unknown_turns sees path
  | .argument path, _ => argument_turns entry path
  | .concat parts, _ => by
    refine Turns.seq (expressions_turns small entry sees parts) fun middle _ => ?_
    rw [← Expression.references_length (place.surroundings scope)]
    exact Turns.emit (by decide) fun _ _ _ _ => bind_of_ok (popReferences_eq _)
  | .hasBlock name, _ => hasBlock_turns small entry _ name
  | .hasBlockParams name, _ => hasBlock_turns small entry _ name
  | .helper path params named, before => by
    unfold expression
    split
    · refine fun after ended => ?_
      obtain ⟨_, middle, asked, ended⟩ := bind_ok.mp ended
      obtain ⟨only, same⟩ := onlyParam_ok asked
      subst only same
      refine Turns.seq (expressions_turns small entry sees [_]) (fun _ _ => ?_) after ended
      refine Turns.emit (by decide) fun _ _ _ _ => ?_
      refine (bind_of_ok popReference_eq).trans ?_
      exact bind_of_ok sees.ambient_eq
    · rename_i name other
      rw [Expression.reference_helper _ other]
      by_cases known : place.resolver.hasHelper name = true
      · rw [if_pos known]
        refine Turns.seq (expressions_turns small entry sees params) fun _ _ => ?_
        refine Turns.seq ((namedExpressions_turns small entry sees named).frame _) fun _ _ => ?_
        rw [← Expression.references_length (place.surroundings scope) params]
        refine Turns.seq (pushArgs_turns _ _ ?_) fun _ _ => ?_
        · rw [List.length_map, List.length_map, Expression.namedReferences_length]
        · rw [Expression.zip_namedReferences]
          exact call_turns name _
      · rw [if_neg known]
        exact fun after ended => absurd ended throw_ok
    · exact Turns.reject

theorem expressions_turns (small : stage.scene.program.pool.Small) (entry : place.names.OfEntry)
    (sees : stage.Sees scope) :
    ∀ (values : List Expression) {before : Draft},
      stage.Turns before (expressions place values) []
        (Operand.references (Expression.references (place.surroundings scope) values))
  | [], _ => Turns.pure
  | first :: rest, _ => by
    refine Turns.seq (expression_turns small entry sees first) fun _ _ => ?_
    rw [Expression.references, Operand.references_cons]
    exact (expressions_turns small entry sees rest).frame [_]

theorem namedExpressions_turns (small : stage.scene.program.pool.Small)
    (entry : place.names.OfEntry) (sees : stage.Sees scope) :
    ∀ (named : List (String × Expression)) {before : Draft},
      stage.Turns before (namedExpressions place named) []
        (Operand.references
          ((Expression.namedReferences (place.surroundings scope) named).map Prod.snd))
  | [], _ => Turns.pure
  | (_, first) :: rest, _ => by
    refine Turns.seq (expression_turns small entry sees first) fun _ _ => ?_
    rw [Expression.namedReferences, List.map_cons, Operand.references_cons]
    exact (namedExpressions_turns small entry sees rest).frame [_]

end

end Expressions

end Code

end LiveTemplate
