import LiveTemplate.Proofs.Template.Omission

/-!
What holds of whatever was read: a path has at least one name, a hash as many names as values, and a
literal is null, a boolean, a number or a text, at any depth. Names and values of a hash are read
from two lists that are as long as each other, and a path from a list that is not empty.
-/

namespace LiveTemplate

/-- A value that JSON writes without brackets. -/
def Value.IsScalar : Value → Prop
  | .null | .bool _ | .int _ | .float _ | .text _ => True
  | .undefined | .list .. | .map .. => False

/-- What later stages take for granted of an expression. -/
inductive Expression.Sound : Expression → Prop where
  | unknown {path : Path} (named : path.toList ≠ []) : Sound (.unknown path)
  | argument {path : Path} (named : path.toList ≠ []) : Sound (.argument path)
  | get {path : Path} (named : path.toList ≠ []) : Sound (.get path)
  | selfGet {path : Path} (named : path.toList ≠ []) : Sound (.selfGet path)
  | concat {parts : List Expression} (each : ∀ part ∈ parts, Sound part) : Sound (.concat parts)
  | hasBlock (name : String) : Sound (.hasBlock name)
  | hasBlockParams (name : String) : Sound (.hasBlockParams name)
  | helper {path : Path} {params : List Expression} {named : Named} (called : path.toList ≠ [])
    (each : ∀ param ∈ params, Sound param)
    (paired : (named.map Prod.fst).length = (named.map Prod.snd).length)
    (values : ∀ entry ∈ named, Sound entry.2) : Sound (.helper path params named)
  | undefined : Sound .undefined
  | literal {value : Value} (scalar : value.IsScalar) : Sound (.literal value)

/-- The arguments of a call are sound, those by name as many as their names. -/
structure Expression.SoundCall (params : List Expression) (named : Named) : Prop where
  each : ∀ param ∈ params, param.Sound
  paired : (named.map Prod.fst).length = (named.map Prod.snd).length
  values : ∀ entry ∈ named, entry.2.Sound

/-- What later stages take for granted of a statement. -/
inductive Statement.Sound : Statement → Prop where
  | text (content : String) : Sound (.text content)
  | comment (content : String) : Sound (.comment content)
  | append {value : Expression} (trusted : Bool) (sound : value.Sound) :
    Sound (.append value trusted)
  | modifier {path : Path} {params : List Expression} {named : Named} (called : path.toList ≠ [])
    (arguments : Expression.SoundCall params named) : Sound (.modifier path params named)
  | block {path : Path} {params : List Expression} {named : Named}
    {template inverse : Option BlockRef} (called : path.toList ≠ [])
    (arguments : Expression.SoundCall params named)
    (inside : ∀ body, template = some (.inline body) → ∀ inner ∈ body.statements, Sound inner)
    (otherwise : ∀ body, inverse = some (.inline body) → ∀ inner ∈ body.statements, Sound inner) :
    Sound (.block path params named template inverse)
  | component (tag : String) {attrs : List Statement} {args : Named} {body : Block}
    (decorations : ∀ attr ∈ attrs, Sound attr) (arguments : Expression.SoundCall [] args)
    (inside : ∀ inner ∈ body.statements, Sound inner) : Sound (.component tag attrs args body)
  | openElement (tag : String) (params : List String) : Sound (.openElement tag params)
  | flushElement : Sound .flushElement
  | closeElement : Sound .closeElement
  | staticAttr (name value : String) (space : Option String) : Sound (.staticAttr name value space)
  | dynamicAttr (name : String) {value : Expression} (space : Option String) (trusting : Bool)
    (sound : value.Sound) : Sound (.dynamicAttr name value space trusting)
  | staticArg (name : String) {value : Expression} (sound : value.Sound) :
    Sound (.staticArg name value)
  | dynamicArg (name : String) {value : Expression} (sound : value.Sound) :
    Sound (.dynamicArg name value)
  | yield (name : String) {params : List Expression} (each : ∀ param ∈ params, param.Sound) :
    Sound (.yield name params)

/-- The values inside an array or an object. -/
def Json.parts : Json → List Json
  | .array items => items
  | .object members => members.map Prod.snd
  | _ => []

theorem Json.sizeOf_part {json part : Json} (member : part ∈ json.parts) :
    sizeOf part < sizeOf json := by
  cases json with
  | array items =>
    have smaller : sizeOf part < sizeOf items := List.sizeOf_lt_of_mem member
    simp only [Json.array.sizeOf_spec]
    omega
  | object members =>
    obtain ⟨⟨name, value⟩, inside, rfl⟩ := List.mem_map.mp member
    have smaller := List.sizeOf_lt_of_mem inside
    simp only [Prod.mk.sizeOf_spec] at smaller
    simp only [Json.object.sizeOf_spec]
    omega
  | null | bool | int | float | text => exact absurd member List.not_mem_nil

/-- What holds of a value if it holds of all inside of it holds of every value. -/
theorem Json.by_parts {motive : Json → Prop}
    (step : ∀ json : Json, (∀ part ∈ json.parts, motive part) → motive json) (json : Json) :
    motive json :=
  step json fun part _ => Json.by_parts step part
termination_by sizeOf json
decreasing_by exact Json.sizeOf_part ‹_›

namespace Template

/-- If anything is read, it is like this. -/
structure Ensures {α : Type} (outcome : Compiling α) (post : α → Prop) : Prop where
  of_ok : ∀ result, outcome = .ok result → post result

namespace Ensures

variable {α β : Type} {post : α → Prop} {last : β → Prop}

theorem ok {value : α} (holds : post value) : Ensures (.ok value) post := by
  constructor
  intro result same
  cases same
  exact holds

theorem error {problem : CompileError} : Ensures (.error problem) post := ⟨nofun⟩

theorem bind {first : Compiling α} {next : α → Compiling β} (early : Ensures first post)
    (late : ∀ value, post value → Ensures (next value) last) : Ensures (first >>= next) last := by
  cases first with
  | ok value => exact late value (early.of_ok value rfl)
  | error problem => exact error

theorem map {first : Compiling α} {change : α → β} (early : Ensures first post)
    (late : ∀ value, post value → last (change value)) : Ensures (change <$> first) last := by
  cases first with
  | ok value => exact ok (late value (early.of_ok value rfl))
  | error problem => exact error

theorem after {first : Compiling α} {next : α → Compiling β}
    (late : ∀ value, Ensures (next value) last) : Ensures (first >>= next) last := by
  cases first with
  | ok value => exact late value
  | error problem => exact error

theorem always {first : Compiling α} {change : α → β} (late : ∀ value, last (change value)) :
    Ensures (change <$> first) last := by
  cases first with
  | ok value => exact ok (late value)
  | error problem => exact error

end Ensures

/-! Paths and hashes -/

theorem textsIn_ok {context : String} {items : List Json} {names : List String}
    (read : textsIn context items = .ok names) : items = names.map .text := by
  induction items generalizing names with
  | nil =>
    cases read
    rfl
  | cons item rest ih =>
    cases item with
    | text name =>
      rw [textsIn] at read
      cases others : textsIn context rest with
      | error problem =>
        rw [others] at read
        cases read
      | ok more =>
        rw [others] at read
        cases read
        rw [ih others]
        rfl
    | _ => cases read

/-- A path is read from a list of names, of which there is at least one. -/
theorem pathAt_ok {context : String} {position : Nat} {items : List Json} {path : Path}
    (read : pathAt context position items = .ok path) :
    ∃ rest, items = .array (path.toList.map .text) :: rest ∧ path.toList ≠ [] := by
  cases items with
  | nil => cases read
  | cons value rest =>
    rw [pathAt] at read
    cases value with
    | array names =>
      cases found : textsIn context names with
      | error problem =>
        rw [texts, found] at read
        cases read
      | ok names' =>
        rw [texts, found] at read
        have written := textsIn_ok found
        cases names' with
        | nil => cases read
        | cons head tail =>
          cases read
          refine ⟨rest, ?_, List.cons_ne_nil head tail⟩
          rw [written]
          rfl
    | _ => cases read

/-- A hash is read from a list of names and one of values, which are as long as each other. -/
theorem hashOf_ok {context : String} {json : Json} {named : Named}
    (read : hashOf context json = .ok named) :
    json = .null ∧ named = [] ∨ ∃ names values, json = .array [names, values] ∧
      texts context names = .ok (named.map Prod.fst) ∧
      paramList context values = .ok (named.map Prod.snd) := by
  unfold hashOf at read
  split at read
  · cases read
    exact .inl ⟨rfl, rfl⟩
  · rename_i names values
    cases known : texts context names with
    | error problem =>
      rw [known] at read
      cases read
    | ok keys =>
      cases given : paramList context values with
      | error problem =>
        rw [known, given] at read
        cases read
      | ok references =>
        rw [known, given] at read
        change pairUp context keys references = .ok named at read
        unfold pairUp at read
        split at read
        · rename_i many
          cases read
          refine .inr ⟨names, values, rfl, ?_, ?_⟩
          · rw [List.map_fst_zip (Nat.le_of_eq many), known]
          · rw [List.map_snd_zip (Nat.le_of_eq many.symm), given]
        · cases read
  · cases read

theorem path_named (path : Path) : path.toList ≠ [] := List.cons_ne_nil path.head path.tail

theorem hash_paired (named : Named) :
    (named.map Prod.fst).length = (named.map Prod.snd).length := by
  simp only [List.length_map]

/-! All that is read -/

/-- Whatever is read from the value is sound, as which part of a template it may be read. -/
structure Wholesome (json : Json) : Prop where
  expression : Ensures (Template.expression json) Expression.Sound
  params : ∀ context, Ensures (paramList context json) fun params => ∀ param ∈ params, param.Sound
  hash : ∀ context, Ensures (hashOf context json) fun named => ∀ entry ∈ named, entry.2.Sound
  statement : Ensures (Template.statement json) Statement.Sound
  statements : Ensures (statementList json) fun statements => ∀ inner ∈ statements, inner.Sound
  block : Ensures (blockRef json) fun ref =>
    ∀ body, ref = some (.inline body) → ∀ inner ∈ body.statements, inner.Sound
  memberStatements : ∀ members name, json = .object members →
    Ensures (Template.memberStatements name members) fun statements =>
      ∀ inner ∈ statements, inner.Sound
  memberHash : ∀ members context name, json = .object members →
    Ensures (Template.memberHash context name members) fun named =>
      ∀ entry ∈ named, entry.2.Sound

section Parts

variable {context : String} {items rest : List Json} {members : List (String × Json)}

theorem expressions_sound (inside : ∀ item ∈ items, Wholesome item) :
    Ensures (expressions items) fun values => ∀ value ∈ values, value.Sound := by
  induction items with
  | nil =>
    rw [expressions]
    exact .ok (List.forall_mem_nil _)
  | cons item rest ih =>
    rw [expressions]
    apply Ensures.bind (inside item List.mem_cons_self).expression
    intro first sound
    apply Ensures.bind (ih fun other member => inside other (List.mem_cons_of_mem _ member))
    intro others soundToo
    exact .ok (List.forall_mem_cons.mpr ⟨sound, soundToo⟩)

theorem statements_sound (inside : ∀ item ∈ items, Wholesome item) :
    Ensures (statements items) fun values => ∀ value ∈ values, value.Sound := by
  induction items with
  | nil =>
    rw [statements]
    exact .ok (List.forall_mem_nil _)
  | cons item rest ih =>
    rw [statements]
    apply Ensures.bind (inside item List.mem_cons_self).statement
    intro first sound
    apply Ensures.bind (ih fun other member => inside other (List.mem_cons_of_mem _ member))
    intro others soundToo
    exact .ok (List.forall_mem_cons.mpr ⟨sound, soundToo⟩)

theorem statementList_sound (json : Json) (inside : ∀ part ∈ json.parts, Wholesome part) :
    Ensures (statementList json) fun values => ∀ value ∈ values, value.Sound := by
  unfold statementList
  split
  · exact statements_sound inside
  · exact .ok (List.forall_mem_nil _)

theorem paramList_sound (json : Json) (inside : ∀ part ∈ json.parts, Wholesome part) :
    Ensures (paramList context json) fun values => ∀ value ∈ values, value.Sound := by
  unfold paramList
  split
  · exact .ok (List.forall_mem_nil _)
  · exact expressions_sound inside
  · exact .error

theorem hashOf_sound (json : Json) (inside : ∀ part ∈ json.parts, Wholesome part) :
    Ensures (hashOf context json) fun named => ∀ entry ∈ named, entry.2.Sound := by
  constructor
  intro named read entry member
  rcases hashOf_ok read with ⟨rfl, rfl⟩ | ⟨names, values, rfl, -, given⟩
  · exact absurd member List.not_mem_nil
  · have values := (inside values (by simp [Json.parts])).params context
    exact values.of_ok _ given _ (List.mem_map_of_mem member)

theorem params_sound (inside : ∀ item ∈ rest, Wholesome item) :
    Ensures (params context rest) fun values => ∀ value ∈ values, value.Sound := by
  cases rest with
  | nil =>
    rw [params]
    exact .ok (List.forall_mem_nil _)
  | cons value rest =>
    rw [params]
    exact (inside value List.mem_cons_self).params context

theorem hash_sound (inside : ∀ item ∈ rest, Wholesome item) :
    Ensures (hash context rest) fun named => ∀ entry ∈ named, entry.2.Sound := by
  cases rest with
  | nil =>
    rw [hash]
    exact .ok (List.forall_mem_nil _)
  | cons value rest =>
    rw [hash]
    exact (inside value List.mem_cons_self).hash context

theorem call_sound (inside : ∀ item ∈ rest, Wholesome item) :
    Ensures (call context rest) fun given => Expression.SoundCall given.1 given.2 := by
  rw [ReadsRest.call_eq]
  apply Ensures.bind (params_sound inside)
  intro params sound
  apply Ensures.bind (hash_sound fun item member => inside item (List.mem_of_mem_drop member))
  intro named soundToo
  exact .ok ⟨sound, hash_paired named, soundToo⟩

/-- What an object has under a name is one of its parts. -/
theorem lookup_parts {name : String} {value : Json} (found : members.lookup name = some value) :
    value ∈ (Json.object members).parts := by
  obtain ⟨before, others, rfl, -⟩ := List.lookup_eq_some_iff.mp found
  simp [Json.parts]

theorem memberStatements_sound {name : String}
    (inside : ∀ part ∈ (Json.object members).parts, Wholesome part) :
    Ensures (memberStatements name members) fun values => ∀ value ∈ values, value.Sound := by
  rw [memberStatements_eq]
  cases found : members.lookup name with
  | none => exact .ok (List.forall_mem_nil _)
  | some value => exact (inside value (lookup_parts found)).statements

theorem memberHash_sound {name : String}
    (inside : ∀ part ∈ (Json.object members).parts, Wholesome part) :
    Ensures (memberHash context name members) fun named => ∀ entry ∈ named, entry.2.Sound := by
  unfold memberHash
  cases found : members.lookup name with
  | none => exact .ok (List.forall_mem_nil _)
  | some value => exact (inside value (lookup_parts found)).hash context

theorem blockRef_sound (json : Json) (inside : ∀ part ∈ json.parts, Wholesome part) :
    Ensures (blockRef json) fun ref =>
      ∀ body, ref = some (.inline body) → ∀ inner ∈ body.statements, inner.Sound := by
  unfold blockRef
  split
  · exact .ok fun _ same => absurd same (by simp)
  · split
    · exact .ok fun _ same => absurd same (by simp)
    · exact .error
  · exact .error
  · apply Ensures.bind (memberStatements_sound inside)
    intro statements sound
    apply Ensures.after
    intro locals
    apply Ensures.ok
    rintro body same
    cases same
    exact sound
  · exact .error

theorem first_block_sound (inside : ∀ item ∈ items, Wholesome item) :
    Ensures (blockRef (items.headD .null)) fun ref =>
      ∀ body, ref = some (.inline body) → ∀ inner ∈ body.statements, inner.Sound := by
  cases items with
  | nil =>
    rw [List.headD_nil, blockRef]
    exact .ok fun _ same => absurd same (by simp)
  | cons item rest => exact (inside item List.mem_cons_self).block

theorem branches_sound (inside : ∀ item ∈ rest, Wholesome item) :
    Ensures (branches rest) fun both =>
      (∀ body, both.1 = some (.inline body) → ∀ inner ∈ body.statements, inner.Sound) ∧
      ∀ body, both.2 = some (.inline body) → ∀ inner ∈ body.statements, inner.Sound := by
  rw [ReadsRest.branches_eq]
  apply Ensures.bind (first_block_sound inside)
  intro template sound
  apply Ensures.bind (first_block_sound fun item member =>
    inside item (List.mem_of_mem_drop member))
  intro inverse soundToo
  exact .ok ⟨sound, soundToo⟩

theorem ofInt_isScalar (value : Int) : (Value.ofInt value).IsScalar := by
  unfold Value.ofInt
  split
  · exact trivial
  · exact trivial

theorem expression_sound (json : Json) (inside : ∀ part ∈ json.parts, Wholesome part) :
    Ensures (expression json) Expression.Sound := by
  unfold expression
  split
  · exact .error
  · exact .error
  · rename_i head rest
    have within : ∀ item ∈ rest, Wholesome item := fun item member =>
      inside item (List.mem_cons_of_mem head member)
    apply Ensures.after
    intro tag
    split
    · exact .always fun path => .unknown (path_named path)
    · exact .always fun path => .argument (path_named path)
    · exact .always fun path => .get (path_named path)
    · exact .always fun path => .selfGet (path_named path)
    · exact (params_sound within).map fun parts each => .concat each
    · exact .always fun name => .hasBlock name
    · exact .always fun name => .hasBlockParams name
    · split
      · exact .error
      · rename_i path others
        apply Ensures.after
        intro path
        apply Ensures.map (call_sound fun item member =>
          within item (List.mem_cons_of_mem _ member))
        rintro ⟨params, named⟩ given
        exact .helper (path_named path) given.each given.paired given.values
    · exact .ok .undefined
    · exact .error
  · exact .ok (.literal trivial)
  · exact .ok (.literal trivial)
  · exact .ok (.literal (ofInt_isScalar _))
  · exact .ok (.literal trivial)
  · exact .ok (.literal trivial)

theorem argumentValue_sound (inside : ∀ item ∈ rest, Wholesome item) :
    Ensures (argumentValue context rest) Expression.Sound := by
  unfold argumentValue
  split
  · exact (inside _ (by simp)).expression
  · exact .error

theorem block_sound (inside : ∀ item ∈ rest, Wholesome item) :
    Ensures (statement (.array (.text "block" :: rest))) Statement.Sound := by
  cases rest with
  | nil => exact .error
  | cons path rest =>
    have within : ∀ item ∈ rest, Wholesome item := fun item member =>
      inside item (List.mem_cons_of_mem _ member)
    rw [statement_block]
    apply Ensures.after
    intro path
    apply Ensures.bind (call_sound within)
    intro _ given
    apply Ensures.map (branches_sound fun item member => within item (List.mem_of_mem_drop member))
    intro _ nested
    exact .block (path_named path) given nested.1 nested.2

theorem component_sound (inside : ∀ item ∈ rest, Wholesome item) :
    Ensures (statement (.array (.text "component" :: rest))) Statement.Sound := by
  match rest with
  | [] => exact .error
  | [_] => exact .error
  | name :: .object members :: _ =>
    have within := inside (.object members) (List.mem_cons_of_mem _ List.mem_cons_self)
    rw [statement_component]
    apply Ensures.bind (within.memberStatements _ _ rfl)
    intro attrs decorations
    apply Ensures.after
    intro tag
    apply Ensures.bind (within.memberHash _ _ _ rfl)
    intro args values
    apply Ensures.bind (within.memberStatements _ _ rfl)
    intro statements sound
    exact .always fun locals => .component tag decorations ⟨nofun, hash_paired args, values⟩ sound
  | _ :: .null :: _ | _ :: .bool _ :: _ | _ :: .int _ :: _ | _ :: .float _ :: _
  | _ :: .text _ :: _ | _ :: .array _ :: _ => exact .error

/-- An array with a tag, of which all after the tag is wholesome. -/
theorem tagged_sound {tag : String} (inside : ∀ item ∈ rest, Wholesome item) :
    Ensures (statement (.array (.text tag :: rest))) Statement.Sound := by
  by_cases nests : tag = "block"
  · rw [nests]
    exact block_sound inside
  by_cases invokes : tag = "component"
  · rw [invokes]
    exact component_sound inside
  -- The recursion is over the array, so that it unfolds before the tag is known.
  delta statement
  conv => arg 1; whnf
  split
  · exact .always fun content => .text content
  · exact .always fun content => .comment content
  -- append
  · cases rest with
    | nil => exact .error
    | cons value rest =>
      exact (inside value List.mem_cons_self).expression.map fun _ sound => .append _ sound
  -- modifier
  · cases rest with
    | nil => exact .error
    | cons path rest =>
      apply Ensures.after
      intro path
      apply Ensures.map (call_sound fun item member => inside item (List.mem_cons_of_mem _ member))
      intro _ given
      exact .modifier (path_named path) given
  · exact absurd rfl nests
  · exact absurd rfl invokes
  -- open-element
  · apply Ensures.after
    intro name
    split
    · exact .always fun params => .openElement name params
    · exact .ok (.openElement name [])
  · exact .ok .flushElement
  · exact .ok .closeElement
  -- static-attr
  · match rest with
    | [] => exact .error
    | [_] => exact .error
    | name :: value :: rest =>
      apply Ensures.after
      intro value
      cases value with
      | literal value => exact .after fun name => .always fun space => .staticAttr _ _ _
      | _ => exact .error
  -- dynamic-attr
  · apply Ensures.after
    intro name
    split
    · apply Ensures.bind (inside _ (by simp)).expression
      intro value sound
      exact .always fun space => .dynamicAttr _ _ _ sound
    · exact .error
  -- trusting-attr
  · apply Ensures.after
    intro name
    split
    · apply Ensures.bind (inside _ (by simp)).expression
      intro value sound
      exact .always fun space => .dynamicAttr _ _ _ sound
    · exact .error
  -- static-arg
  · exact .after fun name => (argumentValue_sound inside).map fun _ sound => .staticArg name sound
  -- dynamic-arg
  · exact .after fun name => (argumentValue_sound inside).map fun _ sound => .dynamicArg name sound
  -- yield
  · apply Ensures.after
    intro name
    apply Ensures.map (params_sound fun item member => inside item (List.mem_of_mem_drop member))
    intro _ each
    exact .yield name each
  · exact .error

theorem statement_sound (json : Json) (inside : ∀ part ∈ json.parts, Wholesome part) :
    Ensures (statement json) Statement.Sound := by
  cases json with
  | array items =>
    cases items with
    | nil => exact .error
    | cons head rest =>
      cases head with
      | text tag =>
        apply tagged_sound
        intro item member
        exact inside item (List.mem_cons_of_mem _ member)
      | _ => exact .error
  | _ => exact .error

end Parts

theorem wholesome (json : Json) : Wholesome json := by
  induction json using Json.by_parts with
  | step json inside =>
    exact {
      expression := expression_sound json inside
      params := fun context => paramList_sound json inside
      hash := fun context => hashOf_sound json inside
      statement := statement_sound json inside
      statements := statementList_sound json inside
      block := blockRef_sound json inside
      memberStatements := fun members name same =>
        memberStatements_sound fun part member => inside part (same ▸ member)
      memberHash := fun members context name same =>
        memberHash_sound fun part member => inside part (same ▸ member) }

/-- Leaving optional parts out or writing null for them makes no difference to whether a statement
or an expression is accepted, nor to what is read. All that is accepted is sound, a path is that of
a list of at least one name, and a hash pairs the names of one list with the values of another one,
of which there are as many. -/
theorem reads_omitted_as_null :
    (∀ json filled, Fills .statement json filled →
      ∀ result, statement json = .ok result ↔ statement filled = .ok result) ∧
    (∀ json filled, Fills .expression json filled →
      ∀ result, expression json = .ok result ↔ expression filled = .ok result) ∧
    (∀ json result, statement json = .ok result → result.Sound) ∧
    (∀ json result, expression json = .ok result → result.Sound) ∧
    (∀ context position items path, pathAt context position items = .ok path →
      ∃ rest, items = .array (path.toList.map .text) :: rest ∧ path.toList ≠ []) ∧
    ∀ context json named, hashOf context json = .ok named →
      json = .null ∧ named = [] ∨ ∃ names values, json = .array [names, values] ∧
        texts context names = .ok (named.map Prod.fst) ∧
        paramList context values = .ok (named.map Prod.snd) := by
  refine ⟨?_, ?_, ?_, ?_, ?_, ?_⟩
  · intro json filled fills
    exact fills.reads
  · intro json filled fills
    exact fills.reads
  · intro json
    exact (wholesome json).statement.of_ok
  · intro json
    exact (wholesome json).expression.of_ok
  · intro context position items path
    exact pathAt_ok
  · intro context json named
    exact hashOf_ok

/-- `["append", ["helper", ["h"]]]`, and the same with null for the parameters and the hash of the
helper and for the flag. -/
theorem reads_omitted_call_as_null :
    let named := Json.array [.text "h"]
    let short := Json.array [.text "append", .array [.text "helper", named]]
    let long := Json.array [.text "append", .array [.text "helper", named, .null, .null], .null]
    let read := Statement.append (.helper ⟨"h", []⟩ [] []) false
    Fills .statement short long ∧ statement short = .ok read ∧ statement long = .ok read ∧
      read.Sound := by
  have call : FillsRest (Position.ofExpression "helper") [.array [.text "h"]]
      [.array [.text "h"], .null, .null] := .needed (.same _ _) (.null (.null (.same _ _)))
  have whole := Fills.statement "append" (.needed (.expression "helper" call) (.null (.same _ _)))
  have read : statement (.array [.text "append", .array [.text "helper", .array [.text "h"]]]) =
      .ok (.append (.helper ⟨"h", []⟩ [] []) false) := rfl
  obtain ⟨alike, -, sound, -⟩ := reads_omitted_as_null
  exact ⟨whole, read, (alike _ _ whole _).mp read, sound _ _ read⟩

end Template

end LiveTemplate
