import LiveTemplate.Compile.Code
import LiveTemplate.Proofs.Program.Emission
import LiveTemplate.Proofs.Program.Tables

/-!
The code of expressions. It consists of plain instructions whose operands refer to constants that
were added on the way and to slots that the names of the block stand for.
-/

namespace LiveTemplate

open Effects

namespace Primitive

theorem decode_encode {literal : Primitive} {operand : Nat} (encoded : literal.encode = .ok operand)
    (small : ∀ handle, literal = .text handle → handle ≤ maxNumber) :
    decode operand = .ok literal := by
  have limit : maxNumber = 2 ^ 30 - 1 := by decide
  cases literal with
  | number value =>
    by_cases bound : value ≤ maxNumber
    · have same : value = operand := by
        simpa [encode, bound] using encoded
      subst same
      have low : value < 2 ^ 30 := by omega
      have kind : value >>> 30 = 0 := by
        rw [Nat.shiftRight_eq_div_pow]
        exact Nat.div_eq_of_lt low
      have rest : value &&& maxNumber = value := by
        rw [limit, Nat.and_two_pow_sub_one_eq_mod]
        exact Nat.mod_eq_of_lt low
      unfold decode
      rw [kind, rest]
      rfl
    · simp [encode, bound] at encoded
  | text handle =>
    cases encoded
    have bound := small handle rfl
    have low : handle < 2 ^ 30 := by omega
    have sum : flagged 1 handle = 2 ^ 30 + handle := by
      unfold flagged
      rw [← Nat.shiftLeft_add_eq_or_of_lt low]
      rfl
    have kind : flagged 1 handle >>> 30 = 1 := by
      rw [sum, Nat.shiftRight_eq_div_pow]
      omega
    have rest : flagged 1 handle &&& maxNumber = handle := by
      rw [sum, limit, Nat.and_two_pow_sub_one_eq_mod]
      omega
    unfold decode
    rw [kind, rest]
    rfl
  | bool value =>
    cases encoded
    cases value <;> rfl
  | null =>
    cases encoded
    rfl
  | undefined =>
    cases encoded
    rfl

end Primitive

theorem Referents.HasString.le_size {there : Referents} {handle : Handle}
    (has : there.HasString handle) : handle ≤ there.pool.strings.size := by
  obtain ⟨content, found⟩ := has
  have bound := (Array.getElem?_eq_some_iff.mp (Pool.find_ok.mp found).2).1
  exact Nat.le_of_pred_lt bound

namespace Code

open Setting

/-- Code for this place may refer to the slots of its program. -/
structure Place.Fits (place : Place) (setting : Setting) : Prop where
  names : place.names.Sound
  symbols : setting.symbols = place.names.size

theorem Place.Fits.inner {place : Place} {setting : Setting} (fits : place.Fits setting) :
    place.Fits setting.inner :=
  ⟨fits.names, fits.symbols⟩

theorem Place.Fits.lt {place : Place} {setting : Setting} (fits : place.Fits setting)
    {symbol : Symbol} (bound : symbol < place.names.size) : symbol < setting.symbols := by
  rw [fits.symbols]
  exact bound

section Expressions

variable {setting : Setting} {before : Draft}

theorem primitive_writes {value : Primitive}
    (text : ∀ handle, value = .text handle → (setting.referents before).HasString handle) :
    setting.Writes before (primitive value) := by
  have encodes : setting.Emits before (Writing.sound value.encode)
      fun operand draft => value.encode = .ok operand ∧ draft = before := by
    intro operand after ended
    obtain ⟨encoded, rfl⟩ := Writing.sound_ok.mp ended
    exact ⟨⟨.nil, .nil (.refl _) rfl rfl⟩, encoded, rfl⟩
  refine Emits.bind encodes ?_
  rintro operand _ - ⟨encoded, rfl⟩
  refine Emits.emit rfl (fun _ => rfl) fun small => ⟨value, ?_, text⟩
  exact Primitive.decode_encode encoded fun handle same =>
    Nat.le_trans (text handle same).le_size small

theorem literal_writes (value : Value) : setting.Writes before (literal value) := by
  have pooled : ∀ value : Value, setting.Writes before (do
      Writing.emit .pushImmediate (← Writing.pooled (Pool.addValue · value))) := by
    intro value
    have added : setting.Emits before (Writing.pooled (Pool.addValue · value))
        fun handle draft => draft.pool.value handle = .ok value :=
      Emits.pooled (fun pool => pool.addValue_grows value) (before.pool.addValue_value value)
    refine Emits.bind added fun handle draft _ found => ?_
    exact Emits.emit rfl (fun _ => rfl) fun _ => ⟨value, found⟩
  cases value with
  | undefined => exact primitive_writes nofun
  | null => exact primitive_writes nofun
  | bool value => exact primitive_writes nofun
  | text content =>
    refine Emits.bind (Emits.string content) fun handle draft _ has => ?_
    refine primitive_writes fun other same => ?_
    cases same
    exact has
  | int value =>
    change setting.Writes before (if 0 ≤ value.toInt ∧ value.toInt ≤ Primitive.maxNumber then
      primitive (.number value.toInt.toNat) else _)
    split
    · exact primitive_writes nofun
    · exact pooled _
  | float value => exact pooled _
  | list storage items => exact pooled _
  | map storage entries => exact pooled _

theorem keys_writes (path : List String) : setting.Writes before (keys path) := by
  induction path generalizing before with
  | nil => exact Emits.pure trivial
  | cons key rest ih =>
    refine Emits.bind (Emits.string key) fun handle draft _ has => ?_
    exact Emits.bind (Emits.emit rfl (fun _ => rfl) fun _ => has) fun _ _ _ _ => ih

theorem selfPath_writes (path : List String) : setting.Writes before (selfPath path) :=
  Emits.bind (Emits.emit rfl (fun _ => rfl) fun _ => trivial) fun _ _ _ _ => keys_writes path

theorem symbolPath_writes {symbol : Symbol} (bound : symbol < setting.symbols)
    (path : List String) : setting.Writes before (symbolPath symbol path) :=
  Emits.bind (Emits.emit rfl (fun _ => rfl) fun _ => bound) fun _ _ _ _ => keys_writes path

theorem hasBlock_writes {place : Place} (fits : place.Fits setting) {op : Op}
    (asks : op = .hasBlock ∨ op = .hasBlockParams) (name : String) :
    setting.Writes before (hasBlock place op name) := by
  have emitted : ∀ {draft : Draft} {symbol handle : Nat}, symbol < setting.symbols →
      (handle = 0 ∨ (setting.referents draft).HasString handle) →
      setting.Writes draft (Writing.emit op symbol handle) := by
    intro draft symbol handle bound either
    rcases asks with rfl | rfl
    · exact Emits.emit rfl (fun _ => rfl) fun _ => ⟨bound, either⟩
    · exact Emits.emit rfl (fun _ => rfl) fun _ => ⟨bound, either⟩
  unfold hasBlock
  cases found : place.names.yield? name with
  | some symbol => exact emitted (fits.lt (fits.names.yield_lt found)) (.inl rfl)
  | none =>
    cases bag : place.names.partialArgs with
    | some bag' =>
      refine Emits.bind (Emits.string name) fun handle draft _ has => ?_
      exact emitted (fits.lt (fits.names.partialArgs _ bag)) (.inr has)
    | none => exact primitive_writes nofun

theorem onlyParam_emits {α : Type} (name : String) (params : List α) :
    setting.Emits before (onlyParam name params) fun _ _ => True := by
  unfold onlyParam
  split
  · exact Emits.pure trivial
  · exact Emits.reject

theorem argumentList_writes {op : Op} (takes : op = .pushArgs ∨ op = .putArgs) (positional : Nat)
    (names : List String) : setting.Writes before (argumentList op positional names) := by
  have emitted : ∀ {draft : Draft} {handle : Nat},
      (handle = 0 ∨ (setting.referents draft).HasStrings handle) →
      setting.Writes draft (Writing.emit op positional handle) := by
    intro draft handle either
    rcases takes with rfl | rfl
    · exact Emits.emit rfl (fun _ => rfl) fun _ => either
    · exact Emits.emit rfl (fun _ => rfl) fun _ => either
  unfold argumentList
  split
  · exact emitted (.inl rfl)
  · exact Emits.bind (Emits.strings names) fun handle draft _ has => emitted (.inr has)

theorem call_writes (name : String) : setting.Writes before (call name) :=
  Emits.bind (Emits.string name) fun _ _ _ has => Emits.emit rfl (fun _ => rfl) fun _ => has

theorem path_writes {place : Place} (fits : place.Fits setting) (path : Path)
    {otherwise : Writing Unit} (writes : setting.Writes before otherwise) :
    setting.Writes before (match place.names.local? path.head with
      | some symbol => symbolPath symbol path.tail
      | none => otherwise) := by
  cases found : place.names.local? path.head with
  | some symbol => exact symbolPath_writes (fits.lt (fits.names.local_lt found)) path.tail
  | none => exact writes

/-- What is only written under a condition. -/
theorem guarded_writes {condition : Prop} [Decidable condition] {error : CompileError}
    {next : Unit → Writing Unit} (writes : setting.Writes before (next ())) :
    setting.Writes before
      (if condition then next () else Writing.reject error >>= next) := by
  by_cases holds : condition
  · rw [if_pos holds]
    exact writes
  · rw [if_neg holds]
    exact fun _ _ ended => absurd ended throw_ok

theorem argument_writes {place : Place} (fits : place.Fits setting) (path : Path) :
    setting.Writes before (expression place (.argument path)) := by
  unfold expression
  refine guarded_writes ?_
  cases found : (place.names.named? path.head <|>
      place.names.named? ("@" ++ bareArgument path.head)) with
  | some symbol =>
    have bound : symbol < place.names.size := by
      cases plain : place.names.named? path.head with
      | some other =>
        rw [plain] at found
        cases found
        exact fits.names.named_lt plain
      | none =>
        rw [plain] at found
        exact fits.names.named_lt found
    exact Emits.bind (Emits.emit rfl (fun _ => rfl) fun _ => fits.lt bound)
      fun _ _ _ _ => keys_writes _
  | none => exact Emits.bind (primitive_writes nofun) fun _ _ _ _ => keys_writes _

mutual

theorem expression_writes {place : Place} (fits : place.Fits setting) :
    ∀ (value : Expression) {before : Draft}, setting.Writes before (expression place value)
  | .literal value, _ => literal_writes value
  | .undefined, _ => primitive_writes nofun
  | .get path, _ => path_writes fits path Emits.reject
  | .selfGet path, _ => selfPath_writes _
  | .unknown path, before => by
    unfold expression
    split
    · exact Emits.bind (argumentList_writes (.inl rfl) 0 []) fun _ _ _ _ => call_writes _
    · exact path_writes fits path (selfPath_writes _)
  | .argument path, _ => argument_writes fits path
  | .concat parts, _ =>
    Emits.bind (expressions_writes fits parts) fun _ _ _ _ =>
      Emits.emit rfl (fun _ => rfl) fun _ => trivial
  | .hasBlock name, _ => hasBlock_writes fits (.inl rfl) name
  | .hasBlockParams name, _ => hasBlock_writes fits (.inr rfl) name
  | .helper path params named, before => by
    have called : ∀ {draft : Draft} (name : String), setting.Writes draft (do
        expressions place params
        namedExpressions place named
        argumentList .pushArgs params.length (named.map Prod.fst)
        call name) := fun name =>
      Emits.bind (expressions_writes fits params) fun _ _ _ _ =>
        Emits.bind (namedExpressions_writes fits named) fun _ _ _ _ =>
          Emits.bind (argumentList_writes (.inl rfl) _ _) fun _ _ _ _ => call_writes name
    unfold expression
    split
    · refine Emits.bind (onlyParam_emits _ params) fun _ _ _ _ => ?_
      exact Emits.bind (expressions_writes fits params) fun _ _ _ _ =>
        Emits.emit rfl (fun _ => rfl) fun _ => trivial
    · exact guarded_writes (called _)
    · exact Emits.reject

theorem expressions_writes {place : Place} (fits : place.Fits setting) :
    ∀ (values : List Expression) {before : Draft},
      setting.Writes before (expressions place values)
  | [], _ => Emits.pure trivial
  | first :: rest, _ =>
    Emits.bind (expression_writes fits first) fun _ _ _ _ => expressions_writes fits rest

theorem namedExpressions_writes {place : Place} (fits : place.Fits setting) :
    ∀ (named : List (String × Expression)) {before : Draft},
      setting.Writes before (namedExpressions place named)
  | [], _ => Emits.pure trivial
  | (_, first) :: rest, _ =>
    Emits.bind (expression_writes fits first) fun _ _ _ _ => namedExpressions_writes fits rest

end

end Expressions

end Code

end LiveTemplate
