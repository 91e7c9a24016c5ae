import Mathlib.Data.List.Forall2
import LiveTemplate.Template.Reader

/-!
Parts of statements and expressions that may be left out. `Position.ofStatement` and
`Position.ofExpression` list what follows the tag of an array. `Fills` says that some optional
parts, at the end of arrays or among the members of objects, were left out of one JSON value and are
null in another. Both are read as the same statement or expression, or are both refused.
-/

namespace LiveTemplate.Template

/-! What may be left out -/

/-- What a part of an array, or a member of an object, is read as. -/
inductive Part where
  /-- A text, a path, a flag or anything else of which no part can be left out. -/
  | plain
  | expression
  | params
  | hash
  | statement
  | statements
  | block
  | body

/-- A position of an array that begins with a tag. -/
inductive Position where
  | needed (part : Part)
  | optional (part : Part)

def Position.ofExpression : String → List Position
  | "concat" => [.optional .params]
  | "helper" => [.needed .plain, .optional .params, .optional .hash]
  | _ => []

def Position.ofStatement : String → List Position
  | "append" => [.needed .expression, .optional .plain]
  | "modifier" => [.needed .plain, .optional .params, .optional .hash]
  | "block" =>
    [.needed .plain, .optional .params, .optional .hash, .optional .block, .optional .block]
  | "component" => [.needed .plain, .needed .body]
  | "open-element" => [.needed .plain, .optional .plain]
  | "static-attr" => [.needed .plain, .needed .expression, .optional .plain]
  | "dynamic-attr" => [.needed .plain, .needed .expression, .optional .plain]
  | "trusting-attr" => [.needed .plain, .needed .expression, .optional .plain]
  | "static-arg" => [.needed .plain, .needed .expression]
  | "dynamic-arg" => [.needed .plain, .needed .expression]
  | "yield" => [.needed .plain, .optional .params]
  | _ => []

/-- The members of a block that is written where it is used, and of the body of a component. All of
them are optional. -/
def Part.member? : Part → String → Option Part
  | .block, "statements" | .body, "statements" | .body, "attrs" => some .statements
  | .block, "locals" | .body, "locals" => some .plain
  | .body, "args" => some .hash
  | _, _ => none

mutual

/-- The second value is the first one, but for optional parts that are left out of the first and
null in the second, however deep they lie. -/
inductive Fills : Part → Json → Json → Prop where
  | same (part : Part) (json : Json) : Fills part json json
  | expression (tag : String) {rest filled : List Json}
    (fills : FillsRest (Position.ofExpression tag) rest filled) :
    Fills .expression (.array (.text tag :: rest)) (.array (.text tag :: filled))
  | statement (tag : String) {rest filled : List Json}
    (fills : FillsRest (Position.ofStatement tag) rest filled) :
    Fills .statement (.array (.text tag :: rest)) (.array (.text tag :: filled))
  | params {items filled : List Json} (fills : FillsEach .expression items filled) :
    Fills .params (.array items) (.array filled)
  | hash (names : Json) {values filled : Json} (fills : Fills .params values filled) :
    Fills .hash (.array [names, values]) (.array [names, filled])
  | statements {items filled : List Json} (fills : FillsEach .statement items filled) :
    Fills .statements (.array items) (.array filled)
  | block {members filled : List (String × Json)}
    (fills : ∀ name, FillsMember (Part.block.member? name) (members.lookup name)
      (filled.lookup name)) :
    Fills .block (.object members) (.object filled)
  | body {members filled : List (String × Json)}
    (fills : ∀ name, FillsMember (Part.body.member? name) (members.lookup name)
      (filled.lookup name)) :
    Fills .body (.object members) (.object filled)

/-- So are the rests of two arrays with these positions. -/
inductive FillsRest : List Position → List Json → List Json → Prop where
  | same (positions : List Position) (rest : List Json) : FillsRest positions rest rest
  | needed {part : Part} {positions : List Position} {json filled : Json} {rest more : List Json}
    (first : Fills part json filled) (others : FillsRest positions rest more) :
    FillsRest (.needed part :: positions) (json :: rest) (filled :: more)
  | optional {part : Part} {positions : List Position} {json filled : Json} {rest more : List Json}
    (first : Fills part json filled) (others : FillsRest positions rest more) :
    FillsRest (.optional part :: positions) (json :: rest) (filled :: more)
  | null {part : Part} {positions : List Position} {more : List Json}
    (others : FillsRest positions [] more) :
    FillsRest (.optional part :: positions) [] (.null :: more)

/-- So are the items of two lists. -/
inductive FillsEach : Part → List Json → List Json → Prop where
  | nil (part : Part) : FillsEach part [] []
  | cons {part : Part} {json filled : Json} {rest more : List Json}
    (first : Fills part json filled) (others : FillsEach part rest more) :
    FillsEach part (json :: rest) (filled :: more)

/-- So are the members of one name in two objects. -/
inductive FillsMember : Option Part → Option Json → Option Json → Prop where
  | same (part : Option Part) (found : Option Json) : FillsMember part found found
  | there {part : Part} {json filled : Json} (first : Fills part json filled) :
    FillsMember (some part) (some json) (some filled)
  | null (part : Part) : FillsMember (some part) none (some .null)

end

/-! Agreement of what is read -/

/-- Both are read with one result, or neither is. -/
def Agrees {α : Type} (first second : Compiling α) : Prop :=
  ∀ result, first = .ok result ↔ second = .ok result

namespace Agrees

variable {α β : Type} {first second : Compiling α}

theorem refl (outcome : Compiling α) : Agrees outcome outcome := fun _ => .rfl

theorem bind {next also : α → Compiling β} (early : Agrees first second)
    (late : ∀ value, Agrees (next value) (also value)) :
    Agrees (first >>= next) (second >>= also) := by
  cases first with
  | ok value =>
    obtain rfl := (early value).mp rfl
    exact late value
  | error problem =>
    cases second with
    | ok value => cases (early value).mpr rfl
    | error other => exact fun result => ⟨nofun, nofun⟩

theorem after {next also : α → Compiling β} (late : ∀ value, Agrees (next value) (also value)) :
    Agrees (first >>= next) (first >>= also) :=
  (Agrees.refl first).bind late

end Agrees

/-- The statements under a name of an object. Anything but an array has none. -/
def statementList : Json → Compiling (List Statement)
  | .array items => statements items
  | _ => .ok []

theorem memberStatements_eq (name : String) (members : List (String × Json)) :
    memberStatements name members = match members.lookup name with
      | some value => statementList value
      | none => .ok [] := by
  induction members with
  | nil => rfl
  | cons member rest ih =>
    obtain ⟨other, value⟩ := member
    by_cases same : other = name
    · subst same
      cases value <;> simp [memberStatements, statementList]
    · have apart : (name == other) = false := by
        simpa using fun equal : name = other => same equal.symm
      cases value <;> simp [memberStatements, List.lookup_cons, same, apart, ih]

/-- Two objects whose members are read alike as the body of a component. -/
structure BodyReads (members filled : List (String × Json)) : Prop where
  attrs : Agrees (memberStatements "attrs" members) (memberStatements "attrs" filled)
  args : ∀ context, Agrees (memberHash context "args" members) (memberHash context "args" filled)
  statements : Agrees (memberStatements "statements" members) (memberStatements "statements" filled)
  locals : ∀ context,
    Agrees (memberTexts context "locals" members) (memberTexts context "locals" filled)

/-- Two values are read alike where such a part is expected. -/
def Part.Reads : Part → Json → Json → Prop
  | .plain, json, filled => json = filled
  | .expression, json, filled => Agrees (Template.expression json) (Template.expression filled)
  | .params, json, filled => ∀ context, Agrees (paramList context json) (paramList context filled)
  | .hash, json, filled => ∀ context, Agrees (hashOf context json) (hashOf context filled)
  | .statement, json, filled => Agrees (Template.statement json) (Template.statement filled)
  | .statements, json, filled => Agrees (statementList json) (statementList filled)
  | .block, json, filled => Agrees (blockRef json) (blockRef filled)
  | .body, json, filled => json = filled ∨ ∃ members more,
      json = .object members ∧ filled = .object more ∧ BodyReads members more

theorem Part.Reads.refl (part : Part) (json : Json) : part.Reads json json := by
  cases part with
  | plain => exact Eq.refl json
  | body => exact Or.inl rfl
  | params => exact fun context => Agrees.refl _
  | hash => exact fun context => Agrees.refl _
  | expression => exact Agrees.refl _
  | statement => exact Agrees.refl _
  | statements => exact Agrees.refl _
  | block => exact Agrees.refl _

/-- The rests of two arrays whose parts are read alike. -/
inductive ReadsRest : List Position → List Json → List Json → Prop where
  | same (positions : List Position) (rest : List Json) : ReadsRest positions rest rest
  | needed {part : Part} {positions : List Position} {json filled : Json} {rest more : List Json}
    (first : part.Reads json filled) (others : ReadsRest positions rest more) :
    ReadsRest (.needed part :: positions) (json :: rest) (filled :: more)
  | optional {part : Part} {positions : List Position} {json filled : Json} {rest more : List Json}
    (first : part.Reads json filled) (others : ReadsRest positions rest more) :
    ReadsRest (.optional part :: positions) (json :: rest) (filled :: more)
  | null {part : Part} {positions : List Position} {more : List Json}
    (others : ReadsRest positions [] more) :
    ReadsRest (.optional part :: positions) [] (.null :: more)

namespace ReadsRest

variable {positions : List Position} {rest more : List Json}

theorem nil (reads : ReadsRest [] rest more) : rest = more := by
  cases reads
  rfl

/-- A part that has to be there is in both arrays or in neither. -/
theorem needed_first {part : Part} (reads : ReadsRest (.needed part :: positions) rest more) :
    rest = [] ∧ more = [] ∨ ∃ json filled others left, rest = json :: others ∧
      more = filled :: left ∧ part.Reads json filled ∧ ReadsRest positions others left := by
  cases reads with
  | same =>
    cases rest with
    | nil => exact .inl ⟨rfl, rfl⟩
    | cons json rest => exact .inr ⟨_, _, _, _, rfl, rfl, .refl _ _, .same _ _⟩
  | needed first others => exact .inr ⟨_, _, _, _, rfl, rfl, first, others⟩

theorem plain_first (reads : ReadsRest (.needed .plain :: positions) rest more) :
    rest = [] ∧ more = [] ∨ ∃ json others left, rest = json :: others ∧ more = json :: left ∧
      ReadsRest positions others left := by
  rcases reads.needed_first with none | ⟨json, filled, others, left, here, there, first, reads⟩
  · exact .inl none
  · obtain rfl : json = filled := first
    exact .inr ⟨json, others, left, here, there, reads⟩

/-- An optional part that nothing can be left out of is the same, or is null in the second. -/
theorem optional_plain (reads : ReadsRest [.optional .plain] rest more) :
    rest = more ∨ rest = [] ∧ more = [.null] := by
  cases reads with
  | same => exact .inl rfl
  | optional first others =>
    have same : _ = _ := first
    rw [same, others.nil]
    exact .inl rfl
  | null others =>
    rw [← others.nil]
    exact .inr ⟨rfl, rfl⟩

/-- A part of which nothing can be left out, and then an expression. -/
theorem valued (reads : ReadsRest (.needed .plain :: .needed .expression :: positions) rest more) :
    rest = more ∨ ∃ name json filled others left,
      rest = name :: json :: others ∧ more = name :: filled :: left ∧
      Agrees (Template.expression json) (Template.expression filled) ∧
      ReadsRest positions others left := by
  rcases reads.plain_first with ⟨rfl, rfl⟩ | ⟨name, others, left, rfl, rfl, later⟩
  · exact .inl rfl
  · rcases later.needed_first with ⟨rfl, rfl⟩ | ⟨json, filled, others, left, rfl, rfl, first, last⟩
    · exact .inl rfl
    · exact .inr ⟨name, json, filled, others, left, rfl, rfl, first, last⟩

theorem drop {part : Part} (reads : ReadsRest (.optional part :: positions) rest more) :
    ReadsRest positions (rest.drop 1) (more.drop 1) := by
  cases reads with
  | same => exact .same _ _
  | optional _ others => exact others
  | null others => exact others

theorem params (reads : ReadsRest (.optional .params :: positions) rest more) (context : String) :
    Agrees (Template.params context rest) (Template.params context more) := by
  cases reads with
  | same => exact .refl _
  | optional first others =>
    unfold Template.params
    exact first context
  | null others =>
    unfold Template.params paramList
    exact .refl _

theorem hash (reads : ReadsRest (.optional .hash :: positions) rest more) (context : String) :
    Agrees (Template.hash context rest) (Template.hash context more) := by
  cases reads with
  | same => exact .refl _
  | optional first others =>
    unfold Template.hash
    exact first context
  | null others =>
    unfold Template.hash hashOf
    exact .refl _

theorem call_eq (context : String) (rest : List Json) :
    Template.call context rest = (do
      let params ← Template.params context rest
      return (params, ← Template.hash context (rest.drop 1))) := by
  cases rest with
  | nil =>
    rw [Template.call, Template.params]
    rfl
  | cons value rest =>
    rw [Template.call, Template.params]
    rfl

theorem call (reads : ReadsRest (.optional .params :: .optional .hash :: positions) rest more)
    (context : String) : Agrees (Template.call context rest) (Template.call context more) := by
  rw [call_eq, call_eq]
  exact (reads.params context).bind fun _ => (reads.drop.hash context).bind fun _ => .refl _

theorem textAt? (reads : ReadsRest [.optional .plain] rest more) (context : String)
    (position : Nat) :
    Agrees (Template.textAt? context position rest) (Template.textAt? context position more) := by
  rcases reads.optional_plain with rfl | ⟨rfl, rfl⟩
  · exact .refl _
  · exact .refl _

theorem block_first (reads : ReadsRest (.optional .block :: positions) rest more) :
    Agrees (blockRef (rest.headD .null)) (blockRef (more.headD .null)) := by
  cases reads with
  | same => exact .refl _
  | optional first others => exact first
  | null others => exact .refl _

theorem branches_eq (rest : List Json) :
    Template.branches rest = (do
      let template ← blockRef (rest.headD .null)
      return (template, ← blockRef ((rest.drop 1).headD .null))) := by
  match rest with
  | [] => rw [Template.branches]; rfl
  | [template] => rw [Template.branches]; rfl
  | template :: inverse :: _ => rw [Template.branches]; rfl

theorem branches (reads : ReadsRest [.optional .block, .optional .block] rest more) :
    Agrees (Template.branches rest) (Template.branches more) := by
  rw [branches_eq, branches_eq]
  exact reads.block_first.bind fun _ => reads.drop.block_first.bind fun _ => .refl _

end ReadsRest

/-! Expressions -/

variable {rest more : List Json}

theorem expression_concat (rest : List Json) :
    expression (.array (.text "concat" :: rest)) = (do return .concat (← params "concat" rest)) := by
  rfl

theorem expression_helper (path : Json) (rest : List Json) :
    expression (.array (.text "helper" :: path :: rest)) = (do
      let path ← pathAt "helper" 1 [path]
      let (params, named) ← call "helper" rest
      return .helper path params named) := by
  rfl

theorem expression_agrees {tag : String}
    (reads : ReadsRest (Position.ofExpression tag) rest more) :
    Agrees (expression (.array (.text tag :: rest))) (expression (.array (.text tag :: more))) := by
  unfold Position.ofExpression at reads
  split at reads
  · rw [expression_concat, expression_concat]
    exact (reads.params _).bind fun _ => .refl _
  · rcases reads.plain_first with ⟨rfl, rfl⟩ | ⟨path, others, left, rfl, rfl, later⟩
    · exact .refl _
    · rw [expression_helper, expression_helper]
      exact .after fun _ => (later.call _).bind fun _ => .refl _
  · rw [reads.nil]
    exact .refl _

/-! Statements -/

theorem statement_append (value : Json) (rest : List Json) :
    statement (.array (.text "append" :: value :: rest)) = (do
      return .append (← expression value) (flag rest)) := by
  rfl

theorem statement_modifier (path : Json) (rest : List Json) :
    statement (.array (.text "modifier" :: path :: rest)) = (do
      let path ← pathAt "modifier" 1 [path]
      let (params, named) ← call "modifier" rest
      return .modifier path params named) := by
  rfl

theorem statement_block (path : Json) (rest : List Json) :
    statement (.array (.text "block" :: path :: rest)) = (do
      let path ← pathAt "block" 1 [path]
      let (params, named) ← call "block" rest
      let (template, inverse) ← branches (rest.drop 2)
      return .block path params named template inverse) := by
  match rest with
  | [] => rfl
  | [_] => rfl
  | _ :: _ :: _ => rfl

theorem statement_component (name : Json) (members : List (String × Json)) (rest : List Json) :
    statement (.array (.text "component" :: name :: .object members :: rest)) = (do
      let attrs ← memberStatements "attrs" members
      let name ← textAt "component" 1 [name]
      let args ← memberHash "component" "args" members
      let body ← memberStatements "statements" members
      return .component name attrs args (.of body (← memberTexts "locals" "locals" members))) := by
  rfl

theorem statement_openElement (name locals : Json) (rest : List Json) :
    statement (.array (.text "open-element" :: name :: locals :: rest)) = (do
      let name ← textAt "open-element" 1 [name]
      return .openElement name (← texts "open-element" locals)) := by
  cases name <;> rfl

theorem statement_staticAttr (name value : Json) (rest : List Json) :
    statement (.array (.text "static-attr" :: name :: value :: rest)) = (do
      match ← expression value with
      | .literal value =>
        return .staticAttr (← textAt "static-attr" 1 [name]) value.content
          (← textAt? "static-attr" 3 rest)
      | other =>
        refuse "static-attr" s!"static attribute value must be a literal, got {other.shown}") := by
  rfl

theorem statement_dynamicAttr (name value : Json) (rest : List Json) :
    statement (.array (.text "dynamic-attr" :: name :: value :: rest)) = (do
      let name ← textAt "dynamic-attr" 1 [name]
      return .dynamicAttr name (← expression value) (← textAt? "dynamic-attr" 3 rest) false) := by
  cases name <;> rfl

theorem statement_trustingAttr (name value : Json) (rest : List Json) :
    statement (.array (.text "trusting-attr" :: name :: value :: rest)) = (do
      let name ← textAt "trusting-attr" 1 [name]
      return .dynamicAttr name (← expression value) (← textAt? "trusting-attr" 3 rest) true) := by
  cases name <;> rfl

theorem statement_staticArg (name value : Json) (rest : List Json) :
    statement (.array (.text "static-arg" :: name :: value :: rest)) = (do
      let name ← textAt "static-arg" 1 [name]
      return .staticArg name (← expression value)) := by
  cases name <;> rfl

theorem statement_dynamicArg (name value : Json) (rest : List Json) :
    statement (.array (.text "dynamic-arg" :: name :: value :: rest)) = (do
      let name ← textAt "dynamic-arg" 1 [name]
      return .dynamicArg name (← expression value)) := by
  cases name <;> rfl

theorem statement_yield (name : Json) (rest : List Json) :
    statement (.array (.text "yield" :: name :: rest)) = (do
      let name ← textAt "yield" 1 [name]
      return .yield name (← params "yield" rest)) := by
  cases name <;> rfl

theorem statement_agrees {tag : String} (reads : ReadsRest (Position.ofStatement tag) rest more) :
    Agrees (statement (.array (.text tag :: rest))) (statement (.array (.text tag :: more))) := by
  unfold Position.ofStatement at reads
  split at reads
  -- append
  · rcases reads.needed_first with ⟨rfl, rfl⟩ | ⟨_, _, others, left, rfl, rfl, first, later⟩
    · exact .refl _
    · rw [statement_append, statement_append]
      refine Agrees.bind first fun _ => ?_
      rcases later.optional_plain with rfl | ⟨rfl, rfl⟩
      · exact .refl _
      · exact .refl _
  -- modifier
  · rcases reads.plain_first with ⟨rfl, rfl⟩ | ⟨path, others, left, rfl, rfl, later⟩
    · exact .refl _
    · rw [statement_modifier, statement_modifier]
      exact .after fun _ => (later.call _).bind fun _ => .refl _
  -- block
  · rcases reads.plain_first with ⟨rfl, rfl⟩ | ⟨path, others, left, rfl, rfl, later⟩
    · exact .refl _
    · rw [statement_block, statement_block]
      refine .after fun _ => (later.call _).bind fun _ => ?_
      have branched := later.drop.drop
      rw [List.drop_drop, List.drop_drop] at branched
      exact branched.branches.bind fun _ => .refl _
  -- component
  · rcases reads.plain_first with ⟨rfl, rfl⟩ | ⟨name, others, left, rfl, rfl, later⟩
    · exact .refl _
    · rcases later.needed_first with ⟨rfl, rfl⟩ | ⟨_, _, others, left, rfl, rfl, first, last⟩
      · exact .refl _
      · rw [← last.nil]
        rcases first with rfl | ⟨members, more, rfl, rfl, same⟩
        · exact .refl _
        · rw [statement_component, statement_component]
          exact same.attrs.bind fun _ => .after fun _ => (same.args _).bind fun _ =>
            same.statements.bind fun _ => (same.locals _).bind fun _ => .refl _
  -- open-element
  · rcases reads.plain_first with ⟨rfl, rfl⟩ | ⟨name, others, left, rfl, rfl, later⟩
    · exact .refl _
    · rcases later.optional_plain with rfl | ⟨rfl, rfl⟩
      · exact .refl _
      · rw [statement_openElement]
        exact .after fun _ => .refl _
  -- static-attr
  · rcases reads.valued with rfl | ⟨name, _, _, others, left, rfl, rfl, first, later⟩
    · exact .refl _
    · rw [statement_staticAttr, statement_staticAttr]
      refine Agrees.bind first fun value => ?_
      cases value with
      | literal value => exact .after fun _ => (later.textAt? _ _).bind fun _ => .refl _
      | _ => exact .refl _
  -- dynamic-attr
  · rcases reads.valued with rfl | ⟨name, _, _, others, left, rfl, rfl, first, later⟩
    · exact .refl _
    · rw [statement_dynamicAttr, statement_dynamicAttr]
      exact .after fun _ => Agrees.bind first fun _ => (later.textAt? _ _).bind fun _ => .refl _
  -- trusting-attr
  · rcases reads.valued with rfl | ⟨name, _, _, others, left, rfl, rfl, first, later⟩
    · exact .refl _
    · rw [statement_trustingAttr, statement_trustingAttr]
      exact .after fun _ => Agrees.bind first fun _ => (later.textAt? _ _).bind fun _ => .refl _
  -- static-arg
  · rcases reads.valued with rfl | ⟨name, _, _, others, left, rfl, rfl, first, later⟩
    · exact .refl _
    · rw [statement_staticArg, statement_staticArg]
      exact .after fun _ => Agrees.bind first fun _ => .refl _
  -- dynamic-arg
  · rcases reads.valued with rfl | ⟨name, _, _, others, left, rfl, rfl, first, later⟩
    · exact .refl _
    · rw [statement_dynamicArg, statement_dynamicArg]
      exact .after fun _ => Agrees.bind first fun _ => .refl _
  -- yield
  · rcases reads.plain_first with ⟨rfl, rfl⟩ | ⟨name, others, left, rfl, rfl, later⟩
    · exact .refl _
    · rw [statement_yield, statement_yield]
      exact .after fun _ => (later.params _).bind fun _ => .refl _
  -- nothing can be left out of any other
  · rw [reads.nil]
    exact .refl _

/-! However deep -/

theorem expressions_agree {items filled : List Json}
    (reads : List.Forall₂ Part.expression.Reads items filled) :
    Agrees (expressions items) (expressions filled) := by
  induction reads with
  | nil => exact .refl _
  | cons first _ ih =>
    rw [expressions, expressions]
    exact Agrees.bind first fun _ => ih.bind fun _ => .refl _

theorem statements_agree {items filled : List Json}
    (reads : List.Forall₂ Part.statement.Reads items filled) :
    Agrees (statements items) (statements filled) := by
  induction reads with
  | nil => exact .refl _
  | cons first _ ih =>
    rw [statements, statements]
    exact Agrees.bind first fun _ => ih.bind fun _ => .refl _

/-- What two objects have under one name, read alike. -/
inductive ReadsMember : Option Part → Option Json → Option Json → Prop where
  | same (part : Option Part) (found : Option Json) : ReadsMember part found found
  | there {part : Part} {json filled : Json} (first : part.Reads json filled) :
    ReadsMember (some part) (some json) (some filled)
  | null (part : Part) : ReadsMember (some part) none (some .null)

section Members

variable {name : String} {members filled : List (String × Json)}

theorem memberStatements_agree
    (reads : ReadsMember (some .statements) (members.lookup name) (filled.lookup name)) :
    Agrees (memberStatements name members) (memberStatements name filled) := by
  rw [memberStatements_eq, memberStatements_eq]
  generalize members.lookup name = json, filled.lookup name = other at reads
  cases reads with
  | same => exact .refl _
  | there first => exact first
  | null => exact .refl _

theorem memberHash_agree (context : String)
    (reads : ReadsMember (some .hash) (members.lookup name) (filled.lookup name)) :
    Agrees (memberHash context name members) (memberHash context name filled) := by
  unfold memberHash
  generalize members.lookup name = json, filled.lookup name = other at reads
  cases reads with
  | same => exact .refl _
  | there first => exact first context
  | null =>
    dsimp only
    rw [hashOf]
    exact .refl _

theorem memberTexts_agree (context : String)
    (reads : ReadsMember (some .plain) (members.lookup name) (filled.lookup name)) :
    Agrees (memberTexts context name members) (memberTexts context name filled) := by
  unfold memberTexts
  generalize members.lookup name = json, filled.lookup name = other at reads
  cases reads with
  | same => exact .refl _
  | there first =>
    rw [show _ = _ from first]
    exact .refl _
  | null => exact .refl _

theorem blockRef_agrees
    (reads : ∀ name, ReadsMember (Part.block.member? name) (members.lookup name)
      (filled.lookup name)) :
    Agrees (blockRef (.object members)) (blockRef (.object filled)) := by
  rw [blockRef, blockRef]
  exact (memberStatements_agree (reads "statements")).bind fun _ =>
    (memberTexts_agree _ (reads "locals")).bind fun _ => .refl _

theorem body_agrees
    (reads : ∀ name, ReadsMember (Part.body.member? name) (members.lookup name)
      (filled.lookup name)) : BodyReads members filled where
  attrs := memberStatements_agree (reads "attrs")
  args context := memberHash_agree context (reads "args")
  statements := memberStatements_agree (reads "statements")
  locals context := memberTexts_agree context (reads "locals")

end Members

mutual

theorem Fills.reads {part : Part} {json filled : Json} : Fills part json filled →
    part.Reads json filled
  | .same _ _ => .refl _ _
  | .expression _ fills => expression_agrees fills.reads
  | .statement _ fills => statement_agrees fills.reads
  | .params fills => fun context => by
    rw [paramList, paramList]
    exact expressions_agree fills.reads
  | .hash names fills => fun context => by
    rw [hashOf, hashOf]
    exact .after fun _ => (fills.reads context).bind fun _ => .refl _
  | .statements fills => statements_agree fills.reads
  | .block fills => blockRef_agrees fun name => (fills name).reads
  | .body fills => .inr ⟨_, _, rfl, rfl, body_agrees fun name => (fills name).reads⟩

theorem FillsRest.reads {positions : List Position} {rest more : List Json} :
    FillsRest positions rest more → ReadsRest positions rest more
  | .same _ _ => .same _ _
  | .needed first others => .needed first.reads others.reads
  | .optional first others => .optional first.reads others.reads
  | .null others => .null others.reads

theorem FillsEach.reads {part : Part} {items filled : List Json} :
    FillsEach part items filled → List.Forall₂ part.Reads items filled
  | .nil _ => .nil
  | .cons first others => .cons first.reads others.reads

theorem FillsMember.reads {part : Option Part} {json filled : Option Json} :
    FillsMember part json filled → ReadsMember part json filled
  | .same _ _ => .same _ _
  | .there first => .there first.reads
  | .null _ => .null _

end

end LiveTemplate.Template
