import LiveTemplate.Proofs.Meaning.Stepping
import LiveTemplate.Proofs.Render.Arguments

/-!
What expressions mean, told by recursion over them, and that their code computes it. An expression
is written in some block of an entry point, of a layout or of a partial that either of them calls,
and can ask for what the names of the block are bound to in the scope where the code runs. Its code
pushes one reference, and reading the reference is what the expression means.
-/

namespace LiveTemplate

open Effects Running

/-! What can be asked for -/

/-- What an expression can ask for where it is evaluated. -/
structure Outlook where
  hasHelper : String → Bool
  this : Reference
  /-- The parameters of the blocks around, the innermost first. -/
  locals : List (String × Reference)
  /-- The arguments that a layout declares. -/
  arguments : List (String × Reference)
  /-- The blocks that the invocation of the layout was given. -/
  block? : String → Option CompiledBlock
  /-- The dynamic variables. -/
  ambient : Variables

/-- An argument may be declared with or without its sigil. -/
def Outlook.argument? (around : Outlook) (name : String) : Option Reference :=
  around.arguments.lookup name <|> around.arguments.lookup ("@" ++ bareArgument name)

/-- The property at the end of a path. -/
def Value.along (value : Value) (path : List String) : Value := path.foldl Value.get value

/-- Reads a reference, and then a property of its value. -/
def Reference.follow (helpers : Helpers) (reference : Reference) (path : List String) :
    Reading Value := do
  return (← reference.read helpers).along path

def Helpers.apply (helpers : Helpers) (name : String) (arguments : Arguments) : Reading Value :=
  match helpers name with
  | some helper => helper arguments
  | none => Reading.fail (.unknownHelper name)

/-! Meanings -/

mutual

def Expression.meaning (helpers : Helpers) (around : Outlook) : Expression → Reading Value
  | .literal value => pure value
  | .undefined => pure .undefined
  | .get path =>
    match around.locals.lookup path.head with
    | some reference => reference.follow helpers path.tail
    | none => pure .undefined
  | .selfGet path => around.this.follow helpers path.toList
  | .unknown path =>
    if path.tail.isEmpty && around.hasHelper path.head then helpers.apply path.head {}
    else match around.locals.lookup path.head with
      | some reference => reference.follow helpers path.tail
      | none => around.this.follow helpers path.toList
  | .argument path =>
    match around.argument? path.head with
    | some reference => reference.follow helpers path.tail
    | none => pure .undefined
  | .concat parts => do
    let values ← (meanings helpers around parts).mapM id
    return .text (String.join (values.map Value.content))
  | .hasBlock name => pure (.bool (around.block? name).isSome)
  | .hasBlockParams name =>
    pure (.bool ((around.block? name).any fun block => !block.params.isEmpty))
  | .helper path params named =>
    match path with
    | ⟨"-get-dynamic-var", []⟩ => do
      let name ← (meanings helpers around params).headD (pure .undefined)
      match Entries.get? name.content around.ambient with
      | some reference => reference.read helpers
      | none => pure .undefined
    | ⟨name, _⟩ =>
      helpers.apply name ⟨meanings helpers around params, namedMeanings helpers around named⟩

def Expression.meanings (helpers : Helpers) (around : Outlook) :
    List Expression → List (Reading Value)
  | [] => []
  | first :: rest => first.meaning helpers around :: meanings helpers around rest

def Expression.namedMeanings (helpers : Helpers) (around : Outlook) :
    List (String × Expression) → List (String × Reading Value)
  | [] => []
  | (name, first) :: rest =>
    (name, first.meaning helpers around) :: namedMeanings helpers around rest

end

theorem Expression.meaning_helper {helpers : Helpers} {around : Outlook} {name : String}
    {params : List Expression} {named : Named} (other : name = "-get-dynamic-var" → False) :
    meaning helpers around (.helper ⟨name, []⟩ params named) =
      helpers.apply name ⟨meanings helpers around params, namedMeanings helpers around named⟩ := by
  unfold meaning
  split
  · rename_i same
    cases same
    exact (other rfl).elim
  · rename_i same
    cases same
    rfl

namespace Expression

variable (helpers : Helpers) (around : Outlook)

theorem meanings_length (values : List Expression) :
    (meanings helpers around values).length = values.length := by
  induction values with
  | nil => rfl
  | cons first rest ih => simp [meanings, ih]

theorem namedMeanings_names (named : List (String × Expression)) :
    (namedMeanings helpers around named).map Prod.fst = named.map Prod.fst := by
  induction named with
  | nil => rfl
  | cons first rest ih => simp [namedMeanings, ih]

end Expression

/-! What references read -/

theorem Value.undefined_along (path : List String) : Value.undefined.along path = .undefined := by
  induction path with
  | nil => rfl
  | cons key rest ih => exact ih

namespace Reference

variable (helpers : Helpers)

theorem read_along (path : List String) (reference : Reference) :
    (reference.along path).read helpers = reference.follow helpers path := by
  induction path generalizing reference with
  | nil => exact (bind_pure _).symm
  | cons key rest ih =>
    refine (ih (.property reference key)).trans ?_
    unfold follow
    rw [read, bind_assoc]
    rfl

theorem read_helper (name : String) (positional : List Reference)
    (named : List (String × Reference)) :
    (helper name positional named).read helpers =
      helpers.apply name ⟨readers helpers positional, namedReaders helpers named⟩ := by
  rw [read]
  rfl

variable {helpers} in
/-- Names with references are read as the names with what the references mean. -/
theorem namedReaders_zip {references : List Reference} {meanings : List (String × Reading Value)}
    (reads : readers helpers references = meanings.map Prod.snd) :
    namedReaders helpers ((meanings.map Prod.fst).zip references) = meanings := by
  induction meanings generalizing references with
  | nil => rfl
  | cons entry rest ih =>
    cases references with
    | nil => cases reads
    | cons reference others =>
      rw [readers, List.map_cons, List.cons.injEq] at reads
      rw [List.map_cons, List.zip_cons_cons, namedReaders, ih reads.2, reads.1]

/-- The parts are read in order, and their contents joined. -/
theorem readConcat_eq (parts : List (Reading Value)) :
    readConcat parts = (do
      let values ← parts.mapM id
      return .text (String.join (values.map Value.content))) := by
  have joined : ∀ text : String,
      parts.foldlM (fun text part => do return text ++ (← part).content) text = (do
        let values ← parts.mapM id
        return (values.map Value.content).foldl (· ++ ·) text : Reading String) := by
    induction parts with
    | nil => exact fun text => rfl
    | cons part rest ih =>
      intro text
      rw [List.foldlM_cons, List.mapM_cons]
      simp only [bind_assoc, pure_bind, ih]
      rfl
  unfold readConcat
  rw [joined]
  simp [String.join]

end Reference

/-! Names in a scope -/

/-- The block that stands for a name: the one bound to its symbol or, in a partial, the one of that
name among all that the invocation of the layout was given. -/
def SymbolView.given? (names : SymbolView) (scope : Scope) (name : String) : Option Handle :=
  match names.yield? name, names.partialArgs with
  | some symbol, _ => scope.block? symbol
  | none, some bag => (scope.passed? bag).bind (Invocation.block? · name)
  | none, none => none

def Code.Place.outlook (place : Code.Place) (program : CompiledProgram) (scope : Scope)
    (ambient : Variables) : Outlook where
  hasHelper := place.resolver.hasHelper
  this := scope.this
  locals := place.names.bindings scope
  arguments := place.names.program.named.map fun entry => (entry.1, scope.reference entry.2)
  block? name := (place.names.given? scope name).bind fun handle =>
    (program.blocks.block handle).toOption
  ambient

theorem Code.Place.outlook_argument? (place : Code.Place) (program : CompiledProgram)
    (scope : Scope) (ambient : Variables) (name : String) :
    (place.outlook program scope ambient).argument? name =
      (place.names.named? name <|> place.names.named? ("@" ++ bareArgument name)).map
        scope.reference := by
  have found : ∀ name : String, (place.outlook program scope ambient).arguments.lookup name =
      (place.names.named? name).map scope.reference := by
    intro name
    unfold outlook SymbolView.named?
    induction place.names.program.named with
    | nil => rfl
    | cons entry rest ih =>
      obtain ⟨other, symbol⟩ := entry
      rw [List.map_cons, List.lookup_cons, List.lookup_cons]
      cases name == other with
      | true => rfl
      | false => exact ih
  unfold Outlook.argument?
  rw [found, found]
  cases place.names.named? name <;> rfl

/-- What the code of a frame can see, and that it can count on all that it was compiled for: each
helper that was known is there, and each block that was passed on. -/
structure Stage.Views (stage : Stage) (place : Code.Place) (scope : Scope) (visible : Variables) :
    Prop where
  found : stage.machine.world.scopes.get stage.frame.scope = .ok scope
  ambient : ∃ rest, stage.frame.ambient = visible :: rest
  helpers : ∀ name, place.resolver.hasHelper name = true →
    ∃ helper, stage.scene.host.registry.helper? name = some helper
  blocks : ∀ name handle, place.names.given? scope name = some handle →
    ∃ block, stage.scene.program.blocks.block handle = .ok block
  small : stage.scene.program.pool.Small

section Asking

variable {stage : Stage} {place : Code.Place} {scope : Scope} {visible : Variables} {next : Nat}
  {operands : List Operand} {stats : Stats}

theorem Stage.Views.scope_eq (views : stage.Views place scope visible) :
    Running.scope (stage.machineAt next operands stats) =
      .ok scope (stage.machineAt next operands stats) := by
  refine (bind_of_ok rfl).trans ((bind_of_ok rfl).trans ?_)
  exact lookUp_eq views.found _

theorem Stage.Views.ambient_eq (views : stage.Views place scope visible) :
    Running.ambient (stage.machineAt next operands stats) =
      .ok visible (stage.machineAt next operands stats) := by
  obtain ⟨rest, shown⟩ := views.ambient
  refine (bind_of_ok rfl).trans ?_
  dsimp only [Frame.go]
  rw [shown]
  rfl

end Asking

/-! The code of expressions -/

namespace Stage

variable {stage : Stage}

/-- What the code writes pushes one reference with this meaning. -/
def Yields (stage : Stage) (action : Writing Unit) (meaning : Reading Value) : Prop :=
  ∃ reference : Reference, reference.read stage.scene.helpers = meaning ∧
    ∀ before, stage.Carries before action [] [.reference reference]

/-- What the code writes pushes references with these meanings, the last of them on top. -/
def YieldsAll (stage : Stage) (action : Writing Unit) (meanings : List (Reading Value)) : Prop :=
  ∃ references : List Reference, Reference.readers stage.scene.helpers references = meanings ∧
    ∀ before, stage.Carries before action [] (Operand.references references)

theorem YieldsAll.nil : stage.YieldsAll (pure ()) [] := ⟨[], rfl, fun _ => Carries.pure⟩

theorem YieldsAll.cons {first rest : Writing Unit} {meaning : Reading Value}
    {meanings : List (Reading Value)} (early : stage.Yields first meaning)
    (late : stage.YieldsAll rest meanings) :
    stage.YieldsAll (first >>= fun _ => rest) (meaning :: meanings) := by
  obtain ⟨reference, rfl, one⟩ := early
  obtain ⟨references, rfl, others⟩ := late
  refine ⟨reference :: references, rfl, fun before => ?_⟩
  rw [Operand.references_cons]
  exact (one before).seq fun middle _ => (others middle).frame [_]

end Stage

namespace Code

open Stage

variable {stage : Stage} {place : Place} {scope : Scope} {visible : Variables}

/-- The outlook from the stage. -/
abbrev Place.seen (place : Place) (stage : Stage) (scope : Scope) (visible : Variables) : Outlook :=
  place.outlook stage.scene.program scope visible

theorem primitive_carries (small : stage.scene.program.pool.Small) {before : Draft}
    {literal : Primitive} {value : Value} (stands : Stands before.pool literal value) :
    stage.Carries before (primitive literal) [] [.reference (.const value)] := by
  intro after ended
  obtain ⟨operand, middle, known, emitted⟩ := bind_ok.mp ended
  obtain ⟨encoded, rfl⟩ := Writing.sound_ok.mp known
  refine Carries.emit (by decide) (fun within place operands stats => ?_) after emitted
  have final := stands.grow within.pool
  refine (bind_of_ok (lookUp_eq (decode_ok small final encoded) _)).trans ?_
  exact bind_of_ok (literalOf_eq final _)

theorem primitive_yields (small : stage.scene.program.pool.Small) {literal : Primitive}
    {value : Value} (stands : ∀ pool, Stands pool literal value) :
    stage.Yields (primitive literal) (pure value) :=
  ⟨.const value, rfl, fun _ => primitive_carries small (stands _)⟩

/-- A literal stands for itself, whether an operand can hold it or the pool has to. -/
theorem literal_yields (small : stage.scene.program.pool.Small) (value : Value) :
    stage.Yields (literal value) (pure value) := by
  refine ⟨.const value, rfl, fun before => ?_⟩
  have pooled : stage.Carries before (do
      Writing.emit .pushImmediate (← Writing.pooled (Pool.addValue · value))) []
        [.reference (.const value)] := by
    apply Carries.pooled (fun pool => pool.addValue_grows value)
    intro handle middle _ added
    apply Carries.emit (by decide)
    intro within place operands stats
    have there := before.pool.addValue_value value
    rw [added] at there
    exact bind_of_ok (lookUp_eq (within.pool.value there) _)
  cases value with
  | undefined => exact primitive_carries small rfl
  | null => exact primitive_carries small rfl
  | bool value => exact primitive_carries small rfl
  | text content =>
    apply Carries.string
    intro handle middle _ there
    exact primitive_carries small ⟨content, there, rfl⟩
  | int value =>
    change stage.Carries before (if 0 ≤ value.toInt ∧ value.toInt ≤ Primitive.maxNumber then
      primitive (.number value.toInt.toNat) else _) _ _
    split
    · rename_i range
      apply primitive_carries small
      rw [Stands, ← Int64.ofInt_eq_ofNat, Int.toNat_of_nonneg range.1, Int64.ofInt_toInt]
    · exact pooled
  | float value => exact pooled
  | list storage items => exact pooled
  | map storage entries => exact pooled

theorem keys_carries (path : List String) {before : Draft} {reference : Reference} :
    stage.Carries before (keys path) [.reference reference]
      [.reference (reference.along path)] := by
  induction path generalizing before reference with
  | nil => exact Carries.pure
  | cons key rest ih =>
    apply Carries.string
    intro handle middle _ there
    apply Carries.seq (Carries.emit (by decide) fun within place operands stats => ?_) fun _ _ => ih
    refine (bind_of_ok popReference_eq).trans ?_
    exact bind_of_ok (lookUp_eq (within.pool.string there) _)

theorem selfPath_yields (views : stage.Views place scope visible) (path : List String) :
    stage.Yields (selfPath path) (scope.this.follow stage.scene.helpers path) := by
  refine ⟨scope.this.along path, Reference.read_along _ _ _, fun before => ?_⟩
  exact Carries.seq (Carries.emit (by decide) fun _ _ _ _ => bind_of_ok views.scope_eq)
    fun _ _ => keys_carries path

theorem symbolPath_yields (views : stage.Views place scope visible) (symbol : Symbol)
    (path : List String) :
    stage.Yields (symbolPath symbol path)
      ((scope.reference symbol).follow stage.scene.helpers path) := by
  refine ⟨(scope.reference symbol).along path, Reference.read_along _ _ _, fun before => ?_⟩
  exact Carries.seq (Carries.emit (by decide) fun _ _ _ _ => bind_of_ok views.scope_eq)
    fun _ _ => keys_carries path

/-- A path that may begin with the parameter of a block. -/
theorem path_yields (views : stage.Views place scope visible) (path : Path)
    {otherwise : Writing Unit} {missing : Reading Value}
    (yields : stage.Yields otherwise missing) :
    stage.Yields (match place.names.local? path.head with
      | some symbol => symbolPath symbol path.tail
      | none => otherwise)
      (match (place.seen stage scope visible).locals.lookup path.head with
        | some reference => reference.follow stage.scene.helpers path.tail
        | none => missing) := by
  have same : (place.seen stage scope visible).locals.lookup path.head =
      (place.names.local? path.head).map scope.reference := place.names.bindings_lookup scope _
  rw [same]
  cases place.names.local? path.head with
  | some symbol => exact symbolPath_yields views symbol path.tail
  | none => exact yields

/-! Arguments -/

/-- The arguments become one operand. -/
theorem pushArgs_carries (positional named : List Reference) {names : List String} {before : Draft}
    (many : names.length = named.length) :
    stage.Carries before (argumentList .pushArgs positional.length names)
      (Operand.references named ++ Operand.references positional)
      [.arguments { positional, named := names.zip named }] := by
  intro after ended
  obtain ⟨handle, middle, grows, -, program, there, emitted⟩ := argumentList_ok ended
  have emits : stage.Carries middle (Writing.emit .pushArgs positional.length handle)
      (Operand.references named ++ Operand.references positional)
      [.arguments { positional, named := names.zip named }] := by
    apply Carries.emit (by decide)
    intro within place operands stats
    rw [List.append_assoc]
    exact bind_of_ok (collectArguments_eq (within.pool.stringArray there) _ _ many)
  obtain ⟨further, carries⟩ := emits after emitted
  rw [program] at carries
  exact ⟨grows.trans further, carries⟩

theorem call_carries (views : stage.Views place scope visible) {name : String}
    (known : place.resolver.hasHelper name = true) (invocation : Invocation) {before : Draft} :
    stage.Carries before (call name) [.arguments invocation]
      [.reference (.helper name invocation.positional invocation.named)] := by
  obtain ⟨helper, found⟩ := views.helpers name known
  apply Carries.string
  intro handle middle _ there
  apply Carries.emit (by decide)
  intro within place operands stats
  refine (bind_of_ok (lookUp_eq (within.pool.string there) _)).trans ((bind_of_ok rfl).trans ?_)
  rw [found]
  rfl

/-! Blocks -/

theorem lookupBlock_symbol (views : stage.Views place scope visible) (symbol : Symbol)
    {next : Nat} {operands : List Operand} {stats : Stats} :
    lookupBlock stage.scene symbol 0 (stage.machineAt next operands stats) =
      .ok (scope.block? symbol) (stage.machineAt next operands stats) :=
  bind_of_ok views.scope_eq

theorem lookupBlock_name (views : stage.Views place scope visible) (bag : Symbol) {handle : Handle}
    {name : String} (there : stage.scene.program.pool.string handle = .ok name) {next : Nat}
    {operands : List Operand} {stats : Stats} :
    lookupBlock stage.scene bag handle (stage.machineAt next operands stats) =
      .ok ((scope.passed? bag).bind (Invocation.block? · name))
        (stage.machineAt next operands stats) := by
  have some : handle ≠ 0 := Nat.ne_of_gt (Pool.find_ok.mp there).1
  refine (bind_of_ok views.scope_eq).trans ?_
  rw [if_neg some]
  exact bind_of_ok (lookUp_eq there _)

/-- An instruction that asks something about the block of a name. There is none to ask about outside
of layouts and of what they call. -/
theorem hasBlock_yields (views : stage.Views place scope visible) {op : Op} {name : String}
    {verdict : Bool} (real : op ≠ .noop)
    (asks : ∀ first second machine,
      lookupBlock stage.scene first second machine =
        .ok (place.names.given? scope name) machine →
      Running.step stage.scene ⟨op, first, second, 0⟩ machine = pushConst (.bool verdict) machine)
    (absent : place.names.given? scope name = none → verdict = false) :
    stage.Yields (hasBlock place op name) (pure (.bool verdict)) := by
  unfold hasBlock
  unfold SymbolView.given? at asks absent
  cases yields : place.names.yield? name with
  | some symbol =>
    rw [yields] at asks
    refine ⟨.const (.bool verdict), rfl, fun before => ?_⟩
    apply Carries.emit real
    intro _ place operands stats
    exact asks symbol 0 _ (lookupBlock_symbol views symbol)
  | none =>
    cases given : place.names.partialArgs with
    | some bag =>
      rw [yields, given] at asks
      refine ⟨.const (.bool verdict), rfl, fun before => ?_⟩
      apply Carries.string
      intro handle middle _ there
      apply Carries.emit real
      intro within place operands stats
      exact asks bag handle _ (lookupBlock_name views bag (within.pool.string there))
    | none =>
      rw [yields, given] at absent
      rw [absent rfl]
      exact primitive_yields views.small fun _ => rfl

/-- What is passed on for a name is a block of the program. -/
theorem block?_cases (views : stage.Views place scope visible) (name : String) :
    place.names.given? scope name = none ∧ (place.seen stage scope visible).block? name = none ∨
    ∃ handle block, place.names.given? scope name = some handle ∧
      stage.scene.program.blocks.block handle = .ok block ∧
      (place.seen stage scope visible).block? name = some block := by
  unfold Place.seen Place.outlook
  dsimp only
  cases given : place.names.given? scope name with
  | none => exact .inl ⟨rfl, rfl⟩
  | some handle =>
    obtain ⟨block, found⟩ := views.blocks name handle given
    refine .inr ⟨handle, block, rfl, found, ?_⟩
    rw [Option.bind_some, found]
    rfl

theorem presence_yields (views : stage.Views place scope visible) (name : String) :
    stage.Yields (expression place (.hasBlock name))
      ((Expression.hasBlock name).meaning stage.scene.helpers
        (place.seen stage scope visible)) := by
  unfold expression Expression.meaning
  apply hasBlock_yields views (by decide)
  · intro first second machine looked
    refine (bind_of_ok looked).trans ?_
    rcases block?_cases views name with ⟨none, absent⟩ | ⟨handle, block, given, -, found⟩
    · rw [none, absent]
      rfl
    · rw [given, found]
      rfl
  · intro none
    rcases block?_cases views name with ⟨-, absent⟩ | ⟨handle, block, given, -⟩
    · rw [absent]
      rfl
    · rw [none] at given
      cases given

theorem blockParams_yields (views : stage.Views place scope visible) (name : String) :
    stage.Yields (expression place (.hasBlockParams name))
      ((Expression.hasBlockParams name).meaning stage.scene.helpers
        (place.seen stage scope visible)) := by
  unfold expression Expression.meaning
  apply hasBlock_yields views (by decide)
  · intro first second machine looked
    refine (bind_of_ok looked).trans ?_
    rcases block?_cases views name with ⟨none, absent⟩ | ⟨handle, block, given, here, found⟩
    · rw [none, absent]
      rfl
    · rw [given, found]
      refine bind_of_ok ?_
      exact bind_of_ok (lookUp_eq here machine)
  · intro none
    rcases block?_cases views name with ⟨-, absent⟩ | ⟨handle, block, given, -⟩
    · rw [absent]
      rfl
    · rw [none] at given
      cases given

/-! Every expression -/

theorem argument_yields (views : stage.Views place scope visible) (path : Path) :
    stage.Yields (expression place (.argument path))
      ((Expression.argument path).meaning stage.scene.helpers
        (place.seen stage scope visible)) := by
  unfold expression Expression.meaning
  rw [Place.outlook_argument?]
  dsimp only
  by_cases layout : place.names.programKind = .layout
  · rw [if_pos layout]
    cases place.names.named? path.head <|> place.names.named? ("@" ++ bareArgument path.head) with
    | some symbol => exact symbolPath_yields views symbol path.tail
    | none =>
      refine ⟨(Reference.const .undefined).along path.tail, ?_, fun before => ?_⟩
      · rw [Reference.read_along, Reference.follow, Reference.read, pure_bind,
          Value.undefined_along]
        rfl
      · exact Carries.seq (primitive_carries views.small rfl) fun _ _ => keys_carries path.tail
  · rw [if_neg layout]
    cases place.names.named? path.head <|> place.names.named? ("@" ++ bareArgument path.head) with
    | some symbol =>
      exact ⟨(scope.reference symbol).along path.tail, Reference.read_along _ _ _,
        fun _ => Carries.refused⟩
    | none => exact ⟨.const .undefined, rfl, fun _ => Carries.refused⟩

theorem unknown_yields (views : stage.Views place scope visible) (path : Path) :
    stage.Yields (expression place (.unknown path))
      ((Expression.unknown path).meaning stage.scene.helpers (place.seen stage scope visible)) := by
  unfold expression Expression.meaning
  by_cases called : (path.tail.isEmpty && place.resolver.hasHelper path.head) = true
  · have alike : (path.tail.isEmpty &&
        (place.seen stage scope visible).hasHelper path.head) = true := called
    rw [if_pos called, if_pos alike]
    refine ⟨.helper path.head [] [], rfl, fun before => ?_⟩
    apply Carries.seq (pushArgs_carries [] [] rfl)
    intro _ _
    exact call_carries views (Bool.and_eq_true_iff.mp called).2 _
  · have alike : ¬(path.tail.isEmpty &&
        (place.seen stage scope visible).hasHelper path.head) = true := called
    rw [if_neg called, if_neg alike]
    exact path_yields views path (selfPath_yields views path.toList)

theorem concat_yields {parts : List Expression} {meanings : List (Reading Value)}
    (all : stage.YieldsAll (expressions place parts) meanings)
    (many : meanings.length = parts.length) :
    stage.Yields (do
        expressions place parts
        Writing.emit .concat parts.length)
      (do return .text (String.join ((← meanings.mapM id).map Value.content))) := by
  obtain ⟨references, rfl, carries⟩ := all
  refine ⟨.concat references, ?_, fun before => ?_⟩
  · rw [Reference.read, Reference.readConcat_eq]
  · apply Carries.seq (carries before)
    intro middle _
    rw [← many, Reference.readers_eq_map, List.length_map]
    exact Carries.emit (by decide) fun _ _ _ _ => bind_of_ok (popReferences_eq _)

/-- Dynamic variables are those that can be seen where the code runs. -/
theorem dynamicVar_yields (views : stage.Views place scope visible) {params : List Expression}
    {meanings : List (Reading Value)} (many : meanings.length = params.length)
    (all : stage.YieldsAll (expressions place params) meanings) :
    stage.Yields (do
        let _ ← onlyParam "-get-dynamic-var" params
        expressions place params
        Writing.emit .getDynamicVar)
      (do
        let name ← meanings.headD (pure .undefined)
        match Entries.get? name.content visible with
        | some reference => reference.read stage.scene.helpers
        | none => pure .undefined) := by
  obtain ⟨references, rfl, carries⟩ := all
  rw [Reference.readers_eq_map, List.length_map] at many
  refine ⟨.dynamicVar visible (references.headD (.const .undefined)), ?_, fun before => ?_⟩
  · have first : (Reference.readers stage.scene.helpers references).headD (pure .undefined) =
        (references.headD (.const .undefined)).read stage.scene.helpers := by
      cases references <;> rfl
    rw [first, Reference.read]
    refine bind_congr fun name => ?_
    dsimp only
    rw [(Reference.get?_named name.content visible).1]
    cases Entries.get? name.content visible <;> rfl
  · intro after ended
    obtain ⟨param, middle, asked, ended⟩ := bind_ok.mp ended
    obtain ⟨rfl, rfl⟩ := onlyParam_ok asked
    obtain ⟨name, rfl⟩ : ∃ name, references = [name] := List.length_eq_one_iff.mp many
    refine Carries.seq (carries before) (fun _ _ => ?_) after ended
    apply Carries.emit (by decide)
    intro within place operands stats
    refine (bind_of_ok popReference_eq).trans ?_
    exact bind_of_ok views.ambient_eq

theorem helper_yields (views : stage.Views place scope visible) {name : String}
    {params : List Expression} {named : Named} {meanings : List (Reading Value)}
    {namedMeanings : List (String × Reading Value)}
    (names : namedMeanings.map Prod.fst = named.map Prod.fst)
    (many : meanings.length = params.length)
    (all : stage.YieldsAll (expressions place params) meanings)
    (others : stage.YieldsAll (namedExpressions place named) (namedMeanings.map Prod.snd)) :
    stage.Yields (do
        unless place.resolver.hasHelper name do Writing.reject (.unknownHelper name)
        expressions place params
        namedExpressions place named
        argumentList .pushArgs params.length (named.map Prod.fst)
        call name)
      (stage.scene.helpers.apply name ⟨meanings, namedMeanings⟩) := by
  obtain ⟨references, rfl, carries⟩ := all
  obtain ⟨namedReferences, reads, carriesToo⟩ := others
  have manyToo : (named.map Prod.fst).length = namedReferences.length := by
    have lengths := congrArg List.length reads
    rw [Reference.readers_eq_map] at lengths
    simpa [← names] using lengths.symm
  refine ⟨.helper name references ((named.map Prod.fst).zip namedReferences), ?_, fun before => ?_⟩
  · rw [Reference.read_helper, ← names, Reference.namedReaders_zip reads]
  · by_cases known : place.resolver.hasHelper name = true
    · rw [if_pos known]
      apply Carries.seq (carries before)
      intro _ _
      apply Carries.seq ((carriesToo _).frame _)
      intro _ _
      rw [← many, Reference.readers_eq_map, List.length_map]
      exact Carries.seq (pushArgs_carries _ _ manyToo) fun _ _ => call_carries views known _
    · rw [if_neg known]
      exact Carries.refused

/-- No helper has a path for its name. -/
theorem unknownHelper_yields {name : String} {error : CompileError} {params : List Expression}
    {named : Named} {meanings : List (Reading Value)}
    {namedMeanings : List (String × Reading Value)}
    (all : stage.YieldsAll (expressions place params) meanings)
    (others : stage.YieldsAll (namedExpressions place named) (namedMeanings.map Prod.snd)) :
    stage.Yields (Writing.reject error)
      (stage.scene.helpers.apply name ⟨meanings, namedMeanings⟩) := by
  obtain ⟨references, rfl, -⟩ := all
  obtain ⟨namedReferences, reads, -⟩ := others
  refine ⟨.helper name references ((namedMeanings.map Prod.fst).zip namedReferences), ?_,
    fun _ => Carries.reject⟩
  rw [Reference.read_helper, Reference.namedReaders_zip reads]

mutual

theorem expression_yields (views : stage.Views place scope visible) : ∀ value : Expression,
    stage.Yields (expression place value)
      (value.meaning stage.scene.helpers (place.seen stage scope visible))
  | .literal value => by
    unfold expression Expression.meaning
    exact literal_yields views.small value
  | .undefined => by
    unfold expression Expression.meaning
    exact primitive_yields views.small fun _ => rfl
  | .get path => by
    unfold expression Expression.meaning
    exact path_yields views path ⟨.const .undefined, rfl, fun _ => Carries.reject⟩
  | .selfGet path => by
    unfold expression Expression.meaning
    exact selfPath_yields views path.toList
  | .unknown path => unknown_yields views path
  | .argument path => argument_yields views path
  | .concat parts => by
    unfold expression Expression.meaning
    exact concat_yields (expressions_yield views parts) (Expression.meanings_length _ _ parts)
  | .hasBlock name => presence_yields views name
  | .hasBlockParams name => blockParams_yields views name
  | .helper path params named => by
    have all := expressions_yield views params
    have others := namedExpressions_yield views named
    unfold expression
    split
    · exact dynamicVar_yields views (Expression.meanings_length _ _ params) all
    · rename_i name other
      rw [Expression.meaning_helper other]
      exact helper_yields views (Expression.namedMeanings_names _ _ named)
        (Expression.meanings_length _ _ params) all others
    · rename_i notVariable notHelper
      unfold Expression.meaning
      split
      · exact (notVariable rfl).elim
      · exact unknownHelper_yields all others

theorem expressions_yield (views : stage.Views place scope visible) :
    ∀ values : List Expression, stage.YieldsAll (expressions place values)
      (Expression.meanings stage.scene.helpers (place.seen stage scope visible) values)
  | [] => by
    unfold expressions Expression.meanings
    exact .nil
  | first :: rest => by
    unfold expressions Expression.meanings
    exact .cons (expression_yields views first) (expressions_yield views rest)

theorem namedExpressions_yield (views : stage.Views place scope visible) :
    ∀ named : List (String × Expression), stage.YieldsAll (namedExpressions place named)
      ((Expression.namedMeanings stage.scene.helpers (place.seen stage scope visible) named).map
        Prod.snd)
  | [] => by
    unfold namedExpressions Expression.namedMeanings
    exact .nil
  | (_, first) :: rest => by
    unfold namedExpressions Expression.namedMeanings
    exact .cons (expression_yields views first) (namedExpressions_yield views rest)

end

/-- The code of an expression computes it. From wherever the code begins, a run carries out as many
instructions as were written and has then one more reference on the stack, while nothing else has
changed but where the frame stands and how many instructions there were. Reading the reference is
what the expression means with the names of the place bound as they are in the scope. The helpers
that the compiler knew are registered, and the blocks in the scope are blocks of the program. -/
theorem expression_computes {scene : Scene} {place : Place} {value : Expression}
    {before after : Draft} {machine : Machine} {frame : Frame} {outer : List Frame} {scope : Scope}
    {visible : Variables} {further : List Variables}
    (accepted : expression place value before = .ok () after)
    (within : after.Within scene.program) (small : scene.program.pool.strings.size < 2 ^ 30)
    (running : machine.frames = frame :: outer) (next : frame.next = before.program.length)
    (inside : after.program.length ≤ frame.slice.stop)
    (found : machine.world.scopes.get frame.scope = .ok scope)
    (ambient : frame.ambient = visible :: further)
    (helpers : ∀ name, place.resolver.hasHelper name = true →
      (scene.host.registry.helper? name).isSome = true)
    (blocks : ∀ name handle, place.names.given? scope name = some handle →
      ∃ block, scene.program.blocks.block handle = .ok block) :
    ∃ reference : Reference,
      (∀ limit, run scene (limit + (after.program.length - before.program.length)) machine =
        run scene limit { machine with
          frames := { frame with next := after.program.length } :: outer
          operands := .reference reference :: machine.operands
          world := { machine.world with
            stats := { machine.world.stats with
              instructions := machine.world.stats.instructions +
                (after.program.length - before.program.length) } } }) ∧
      reference.read scene.helpers =
        value.meaning scene.helpers (place.outlook scene.program scope visible) := by
  let stage : Stage := { scene, machine, frame, outer, last := machine }
  have views : stage.Views place scope visible := {
    found := found
    ambient := ⟨further, ambient⟩
    helpers := fun name known => Option.isSome_iff_exists.mp (helpers name known)
    blocks := blocks
    small := Nat.le_sub_one_of_lt small }
  obtain ⟨reference, reads, carries⟩ := expression_yields views value
  obtain ⟨-, steps⟩ := carries before after accepted
  refine ⟨reference, ?_, reads⟩
  have starts : stage.machineAt before.program.length ([] ++ machine.operands)
      machine.world.stats = machine := by
    rw [← next]
    change { machine with frames := frame :: outer } = machine
    rw [← running]
  have leads := steps within inside machine.operands machine.world.stats
  rw [starts] at leads
  exact leads

/-- A block with a parameter, in a layout with an argument and a block. -/
def grovePlace : Place where
  resolver := {
    hasHelper := fun name => name = "first"
    hasModifier := fun _ => false
    layout? := fun _ => none
    partial? := fun _ => none
    partialNames := [] }
  names := {
    table := { kind := .block, program := 0, parent := some 0, locals := [("tree", 2)] }
    program := { kind := .layout, program := 0, named := [("@title", 0)],
                 yields := [("default", 1)], size := 3 } }

def groveScope : Scope where
  slots := [.reference (.const (.text "Trees")), .block (some 1),
            .reference (.const (.text "elm"))]
  this := .const .null

/-- Numbers on both sides of what an operand can hold, an argument, a parameter, a call, and a block
to ask for. -/
def groveValue : Expression := .concat [
  .literal (.int 1073741823), .literal (.int 1073741824), .literal (.int (-1)),
  .argument ⟨"title", []⟩, .get ⟨"tree", ["length"]⟩,
  .helper ⟨"first", []⟩ [.unknown ⟨"tree", []⟩, .selfGet ⟨"tree", []⟩] [("or", .undefined)],
  .hasBlock "default"]

def groveDraft : Draft :=
  match expression grovePlace groveValue {} with
  | .ok () draft => draft
  | .error _ draft => draft

def groveScene : Scene where
  host := { registry := { helpers := [("first", fun arguments => arguments.nth 0)] } }
  program := {
    program := groveDraft.program
    pool := groveDraft.pool
    blocks := ⟨#[some ⟨⟨0, 0⟩, 0, [], 0⟩]⟩
    tables := {}
    entries := [] }

/-- About to evaluate the expression. -/
def groveMachine : Machine where
  world := { scopes := ⟨#[some groveScope], []⟩ }
  frames := [{ next := 0, slice := ⟨0, groveDraft.program.length⟩, scope := 0, ambient := [[]] }]
  elements := []
  trackers := []

theorem expression_computes_grove :
    ∃ reference : Reference,
      (∀ limit, run groveScene (limit + 14) groveMachine =
        run groveScene limit { groveMachine with
          frames := groveMachine.frames.map fun frame => { frame with next := 14 }
          operands := [.reference reference]
          world := { groveMachine.world with stats := { instructions := 14 } } }) ∧
      (match reference.read groveScene.helpers {} with
        | .ok value _ => value.text?
        | .error _ _ => none) = some "10737418231073741824-1Trees3elmtrue" := by
  have accepted : expression grovePlace groveValue {} = .ok () groveDraft := by
    have succeeds : succeeds (expression grovePlace groveValue {}) = true := by decide +kernel
    unfold groveDraft
    cases outcome : expression grovePlace groveValue {} with
    | ok result draft => rfl
    | error fault draft =>
      rw [outcome] at succeeds
      cases succeeds
  have many : groveDraft.program.length = 14 := by decide +kernel
  have given : ∀ name handle, grovePlace.names.given? groveScope name = some handle →
      ∃ block, groveScene.program.blocks.block handle = .ok block := by
    intro name handle found
    have symbol : grovePlace.names.yield? name = some 1 ∨ grovePlace.names.yield? name = none := by
      unfold SymbolView.yield? grovePlace
      dsimp only
      rw [List.lookup_cons]
      cases canonicalYield name == "default" <;> simp
    unfold SymbolView.given? at found
    rcases symbol with here | absent
    · rw [here] at found
      cases found
      exact ⟨_, rfl⟩
    · rw [absent] at found
      cases found
  have within : groveDraft.Within groveScene.program :=
    ⟨fun _ _ here _ => here, .refl _⟩
  have helpers : ∀ name, grovePlace.resolver.hasHelper name = true →
      (groveScene.host.registry.helper? name).isSome = true := by
    intro name known
    obtain rfl : name = "first" := of_decide_eq_true known
    rfl
  obtain ⟨reference, leads, reads⟩ := @expression_computes groveScene grovePlace groveValue {}
    groveDraft groveMachine _ [] groveScope [] [] accepted within (by decide +kernel) rfl rfl
    (Nat.le_refl _) rfl rfl helpers given
  refine ⟨reference, ?_, ?_⟩
  · have counted : groveMachine.world.stats.instructions +
        (groveDraft.program.length - ({} : Draft).program.length) = groveDraft.program.length :=
      Nat.zero_add _
    rw [counted] at leads
    rw [← many]
    exact leads
  · rw [reads]
    decide +kernel

end Code

end LiveTemplate
