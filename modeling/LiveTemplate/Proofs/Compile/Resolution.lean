import LiveTemplate.Compile.Resolution
import LiveTemplate.Proofs.Compile.Compilation

/-!
Resolved statements refer to registered blocks only. Nested blocks, layouts and partials are all in
the queue before a statement with their handles is made.
-/

namespace LiveTemplate

namespace Resolves

variable {blocks : Nat}

theorem mapM {α β : Type} {action : α → Resolving β} {good : β → Nat → Prop}
    (resolves : ∀ item {more : Nat}, Resolves more (action item) good)
    (stays : ∀ result {early late : Nat}, early ≤ late → good result early → good result late)
    (items : List α) :
    Resolves blocks (items.mapM action) fun results more => ∀ result ∈ results, good result more := by
  induction items generalizing blocks with
  | nil => exact pure fun _ _ => by simp
  | cons first rest ih =>
    rw [List.mapM_cons]
    refine bind (resolves first) fun head more _ right => ?_
    refine bind ih fun tail later grown others => pure fun last further => ?_
    intro result member
    rcases List.mem_cons.mp member with rfl | member
    · exact stays _ (Nat.le_trans grown further) right
    · exact stays _ further (others result member)

theorem known_code {code : List Resolved} (known : KnownCode blocks code) :
    Resolves blocks (Pure.pure code) fun result more => KnownCode more result :=
  pure fun _ grown => known.mono grown

end Resolves

namespace Resolved

open Resolving

section

variable {resolver : Resolver} {blocks : Nat} (table : TableId)

theorem partialCall_resolves (params : List Expression) :
    Resolves blocks (partialCall resolver table params) fun code more => code.Known more := by
  have called : ∀ name : Expression, Resolves blocks (do
      let handles ← resolver.partialNames.mapM (partialFor resolver table)
      return dynamicPartial name resolver.partialNames handles) fun code more =>
        code.Known more := by
    intro name
    refine .bind (.mapM (fun item => .partialFor resolver table item) ?_ _) ?_
    · exact fun _ _ _ grown registered => registered.mono grown
    · exact fun handles _ _ registered => .pure fun _ grown handle member =>
        (registered handle member).mono grown
  unfold partialCall
  split
  · exact .reject
  · exact .bind (.partialFor resolver table _) fun _ _ _ registered =>
      .pure fun _ grown => registered.mono grown
  · exact called _

theorem appended_resolves (value : Expression) (trusted : Bool) :
    Resolves blocks (appended resolver table value trusted) fun code more =>
      KnownCode more code := by
  have plain : ∀ {more : Nat}, Resolves more (Pure.pure [append value trusted])
      fun code more => KnownCode more code := .known_code (.single trivial)
  have invoked : ∀ {more : Nat} (name : String) {layout : Handle} (params : List Expression)
      (named : Named), Registered more layout →
      Resolves more (Pure.pure [component name layout params named none none none])
        fun code more => KnownCode more code := fun _ _ _ _ registered =>
    .known_code (.single ⟨registered, nofun, nofun, nofun⟩)
  unfold appended
  split
  · exact .bind (partialCall_resolves table _) fun _ _ _ known => .known_code (.single known)
  · exact .known_code (fun _ member => absurd member List.not_mem_nil)
  · exact .known_code (fun _ member => absurd member List.not_mem_nil)
  · refine .bind (.layoutFor resolver _) fun found more _ registered => ?_
    cases found with
    | none => exact plain
    | some layout => exact invoked _ _ _ (registered layout rfl)
  · split
    · exact plain
    · refine .bind (.layoutFor resolver _) fun found more _ registered => ?_
      cases found with
      | none => exact plain
      | some layout => exact invoked _ _ _ (registered layout rfl)
  · exact plain

end

/-! Nested blocks -/

section

variable {resolver : Resolver} {elsewhere : Nat → TableId → Resolving Handle}

/-- Blocks that are written elsewhere in the template are registered too. -/
def Registers (elsewhere : Nat → TableId → Resolving Handle) : Prop :=
  ∀ (position : Nat) (table : TableId) {blocks : Nat},
    Resolves blocks (elsewhere position table) fun handle more => Registered more handle

mutual

theorem ofStatement_resolves (registers : Registers elsewhere) (table : TableId) :
    ∀ (statement : Statement) {blocks : Nat},
      Resolves blocks (ofStatement resolver elsewhere table statement)
        fun code more => KnownCode more code
  | .text content, _ => .known_code (.single trivial)
  | .comment content, _ => .known_code (.single trivial)
  | .append value trusted, _ => appended_resolves table value trusted
  | .modifier path params named, _ => by
    unfold ofStatement
    split
    · exact .known_code (.single trivial)
    · exact .reject
  | .block path params named template inverse, _ => by
    unfold ofStatement
    split
    · refine .bind (ofBlockRef?_resolves registers table template) fun handle _ _ first => ?_
      refine .bind (ofBlockRef?_resolves registers table inverse) fun other _ grown second => ?_
      refine .bind (.layoutFor resolver _) fun found _ further layout => ?_
      have both := Nat.le_trans grown further
      cases found with
      | none =>
        exact .known_code (.single ⟨fun handle held => (first handle held).mono both,
          fun handle held => (second handle held).mono further⟩)
      | some handle =>
        exact .known_code (.single ⟨layout handle rfl, nofun,
          fun handle held => (first handle held).mono both,
          fun handle held => (second handle held).mono further⟩)
    · exact .reject
  | .component tag attrs args body, _ => by
    unfold ofStatement
    refine .bind (.layoutFor resolver tag) fun found _ _ layout => ?_
    cases found with
    | none =>
      refine .bind (ofAttributes_resolves registers table attrs) fun first _ _ known => ?_
      refine .bind (ofBody_resolves registers table body) fun content _ grown inner => ?_
      refine .known_code (.append (.append (.append (.append ?_ ?_) ?_) inner) ?_)
      · exact .single trivial
      · exact known.mono grown
      · exact .single trivial
      · exact .single trivial
    | some handle =>
      have invoked : ∀ {more : Nat} (shadow : Option Handle) (named : Named),
          Registered more handle → (∀ given ∈ shadow, Registered more given) →
          Resolves more (if body.statements.isEmpty = true then do
              let template ← Pure.pure none
              Pure.pure [component tag handle [] named shadow template none]
            else do
              let block ← ofBlock resolver elsewhere table body
              let template ← Pure.pure (some block)
              Pure.pure [component tag handle [] named shadow template none])
            fun code more => KnownCode more code := by
        intro more shadow named called given
        split
        · exact .known_code (.single ⟨called, given, nofun, nofun⟩)
        · refine .bind (ofBlock_resolves registers table body) fun block _ grown written => ?_
          refine .known_code (.single ⟨called.mono grown, ?_, ?_, nofun⟩)
          · exact fun other held => (given other held).mono grown
          · rintro _ ⟨⟩
            exact written
      have called := layout handle rfl
      dsimp only
      split
      · exact invoked none _ called nofun
      · refine .bind (.newTable table []) fun inner _ one _ => ?_
        refine .bind (ofAttributes_resolves registers inner attrs) fun code _ two known => ?_
        have source : (Source.inline inner code).Known _ := known
        refine .bind (.enqueue source) fun block _ three shown => ?_
        refine invoked (some block) _ (called.mono (Nat.le_trans one (Nat.le_trans two three))) ?_
        rintro _ ⟨⟩
        exact shown
  | .openElement tag _, _ => .known_code (.single trivial)
  | .flushElement, _ => .known_code (.single trivial)
  | .closeElement, _ => .known_code (.single trivial)
  | .staticAttr name value space, _ => .known_code (.single trivial)
  | .dynamicAttr name value space trusting, _ => by
    unfold ofStatement attributeOf
    split
    · exact .known_code (.single trivial)
    · exact .known_code (.single trivial)
  | .staticArg name _, _ => .reject
  | .dynamicArg name _, _ => .reject
  | .yield name params, _ => .known_code (.single trivial)

theorem ofStatements_resolves (registers : Registers elsewhere) (table : TableId) :
    ∀ (statements : List Statement) {blocks : Nat},
      Resolves blocks (ofStatements resolver elsewhere table statements)
        fun code more => KnownCode more code
  | [], _ => .known_code (fun _ member => absurd member List.not_mem_nil)
  | statement :: rest, _ => by
    unfold ofStatements
    refine .bind (ofStatement_resolves registers table statement) fun first _ _ known => ?_
    refine .bind (ofStatements_resolves registers table rest) fun last _ grown others => ?_
    exact .known_code ((known.mono grown).append others)

theorem ofAttributes_resolves (registers : Registers elsewhere) (table : TableId) :
    ∀ (statements : List Statement) {blocks : Nat},
      Resolves blocks (ofAttributes resolver elsewhere table statements)
        fun code more => KnownCode more code
  | [], _ => .known_code (fun _ member => absurd member List.not_mem_nil)
  | statement :: rest, _ => by
    unfold ofAttributes
    split
    · exact ofAttributes_resolves registers table rest
    · refine .bind (ofStatement_resolves registers table statement) fun first _ _ known => ?_
      refine .bind (ofAttributes_resolves registers table rest) fun last _ grown others => ?_
      exact .known_code ((known.mono grown).append others)

theorem ofBody_resolves (registers : Registers elsewhere) (table : TableId) :
    ∀ (body : Block) {blocks : Nat}, Resolves blocks (ofBody resolver elsewhere table body)
      fun code more => KnownCode more code
  | .of statements _, _ => ofStatements_resolves registers table statements

theorem ofBlock_resolves (registers : Registers elsewhere) (table : TableId) :
    ∀ (body : Block) {blocks : Nat}, Resolves blocks (ofBlock resolver elsewhere table body)
      fun handle more => Registered more handle
  | .of statements locals, _ => by
    unfold ofBlock
    refine .bind (.newTable table locals) fun inner _ _ _ => ?_
    refine .bind (ofStatements_resolves registers inner statements) fun code _ _ known => ?_
    have source : (Source.inline inner code).Known _ := known
    exact .enqueue source

theorem ofBlockRef_resolves (registers : Registers elsewhere) (table : TableId) :
    ∀ (ref : BlockRef) {blocks : Nat}, Resolves blocks (ofBlockRef resolver elsewhere table ref)
      fun handle more => Registered more handle
  | .index position, _ => registers position table
  | .inline written, _ => ofBlock_resolves registers table written

theorem ofBlockRef?_resolves (registers : Registers elsewhere) (table : TableId) :
    ∀ (ref : Option BlockRef) {blocks : Nat},
      Resolves blocks (ofBlockRef? resolver elsewhere table ref)
        fun found more => ∀ handle ∈ found, Registered more handle
  | none, _ => .pure fun _ _ => nofun
  | some ref, _ => by
    unfold ofBlockRef?
    refine .bind (ofBlockRef_resolves registers table ref) fun handle _ _ registered => ?_
    refine .pure fun _ grown => ?_
    rintro _ ⟨⟩
    exact registered.mono grown

end

end

theorem blockAt_registers (resolver : Resolver) (template : Template) (depth : Nat) :
    Registers (blockAt resolver template depth) := by
  induction depth with
  | zero =>
    intro position table blocks
    exact .bind (.rejectBy _) fun _ _ _ _ => .throw
  | succ depth ih =>
    intro position table blocks
    exact .bind (.rejectBy _) fun found _ _ _ => ofBlock_resolves ih table found

theorem within_resolves (resolver : Resolver) (template : Template) (table : TableId)
    (statements : List Statement) {blocks : Nat} :
    Resolves blocks (within resolver template table statements)
      fun code more => KnownCode more code :=
  ofStatements_resolves (blockAt_registers resolver template _) table statements

end Resolved

end LiveTemplate
