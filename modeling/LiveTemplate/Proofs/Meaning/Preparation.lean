import LiveTemplate.Compile.Resolved
import LiveTemplate.Proofs.Meaning.Phrases

/-!
What phrases become when their names are resolved: statements with handles of the blocks nested in
them. This is said once for a compilation under way, whose blocks wait to be written, and for a
program in which they have been.
-/

namespace LiveTemplate

/-- The code of attributes. -/
def Decoration.Resolves : List Decoration → List Resolved → Prop
  | [], code => code = []
  | .static name value space :: rest, code => ∃ tail, Decoration.Resolves rest tail ∧
      code = .staticAttr name value space :: tail
  | .dynamic name value space :: rest, code => ∃ trusting tail, Decoration.Resolves rest tail ∧
      code = .dynamicAttr name value space trusting :: tail

/-- What handles stand for, and which names blocks have. -/
structure Naming (ν : Type) where
  /-- The handle is that of a block with these names and statements. -/
  block : Handle → ν → List Resolved → Prop
  /-- The names of a block with parameters are these, inside of a block with those. -/
  nests : ν → ν → List String → Prop

mutual

/-- The statements that a phrase has become in a block with these names. -/
def Phrase.Prepared {ν : Type} (naming : Naming ν) (names : ν) : Phrase → List Resolved → Prop
  | .text content, code => code = [.text content]
  | .comment content, code => code = [.comment content]
  | .append value trusted, code => code = [.append value trusted]
  | .element tag attributes children, code => ∃ written inside,
      Decoration.Resolves attributes written ∧ Phrase.AllPrepared naming names children inside ∧
      code = .openElement tag :: written ++ .flushElement :: inside ++ [.closeElement]
  | .conditional param named truthy falsy, code => ∃ yes no,
      Passage.Prepared naming names truthy yes ∧ Passage.Prepared naming names falsy no ∧
      (code = [.block "if" [param] named yes no] ∨ code = [.block "with" [param] named yes no] ∨
        code = [.block "unless" [param] named no yes])
  | .each source named item empty, code => ∃ block inverse,
      Passage.Prepared naming names item block ∧ Passage.Prepared naming names empty inverse ∧
      code = [.block "each" [source] named block inverse]

def Phrase.AllPrepared {ν : Type} (naming : Naming ν) (names : ν) :
    List Phrase → List Resolved → Prop
  | [], code => code = []
  | first :: rest, code => ∃ head tail, first.Prepared naming names head ∧
      Phrase.AllPrepared naming names rest tail ∧ code = head ++ tail

def Passage.Prepared {ν : Type} (naming : Naming ν) (names : ν) :
    Option Passage → Option Handle → Prop
  | none, handle => handle = none
  | some (.of params body), handle => ∃ block inner code, handle = some block ∧
      naming.block block inner code ∧ naming.nests inner names params ∧
      Phrase.AllPrepared naming inner body code

end

theorem Passage.Prepared.isNone {ν : Type} {naming : Naming ν} {names : ν}
    {passage : Option Passage} {handle : Option Handle}
    (prepared : Passage.Prepared naming names passage handle) : handle.isNone = passage.isNone := by
  cases passage with
  | none =>
    obtain rfl : handle = none := prepared
    rfl
  | some passage =>
    obtain ⟨params, body⟩ := passage
    obtain ⟨block, inner, code, rfl, -⟩ := prepared
    rfl

/-- The same blocks are known in another way. -/
structure Naming.Moves {ν μ : Type} (first : Naming ν) (second : Naming μ) (alike : ν → μ → Prop) :
    Prop where
  block : ∀ handle inner code, first.block handle inner code →
    ∃ known, alike inner known ∧ second.block handle known code
  nests : ∀ inner outer params known around, first.nests inner outer params →
    alike inner known → alike outer around → second.nests known around params

section Moves

variable {ν μ : Type} {first : Naming ν} {second : Naming μ} {alike : ν → μ → Prop}

mutual

theorem Phrase.Prepared.move (moves : first.Moves second alike) : ∀ (phrase : Phrase)
    {names : ν} {around : μ} {code : List Resolved}, alike names around →
    phrase.Prepared first names code → phrase.Prepared second around code
  | .text _, _, _, _, _, prepared => prepared
  | .comment _, _, _, _, _, prepared => prepared
  | .append _ _, _, _, _, _, prepared => prepared
  | .element _ _ children, _, _, _, same, prepared => by
    obtain ⟨written, inside, resolves, prepared, whole⟩ := prepared
    exact ⟨written, inside, resolves, Phrase.AllPrepared.move moves children same prepared, whole⟩
  | .conditional _ _ truthy falsy, _, _, _, same, prepared => by
    obtain ⟨yes, no, yields, fails, whole⟩ := prepared
    exact ⟨yes, no, Passage.Prepared.move moves truthy same yields,
      Passage.Prepared.move moves falsy same fails, whole⟩
  | .each _ _ item empty, _, _, _, same, prepared => by
    obtain ⟨block, inverse, tells, fails, whole⟩ := prepared
    exact ⟨block, inverse, Passage.Prepared.move moves item same tells,
      Passage.Prepared.move moves empty same fails, whole⟩

theorem Phrase.AllPrepared.move (moves : first.Moves second alike) : ∀ (phrases : List Phrase)
    {names : ν} {around : μ} {code : List Resolved}, alike names around →
    Phrase.AllPrepared first names phrases code → Phrase.AllPrepared second around phrases code
  | [], _, _, _, _, prepared => prepared
  | phrase :: rest, _, _, _, same, prepared => by
    obtain ⟨head, tail, one, others, whole⟩ := prepared
    exact ⟨head, tail, Phrase.Prepared.move moves phrase same one,
      Phrase.AllPrepared.move moves rest same others, whole⟩

theorem Passage.Prepared.move (moves : first.Moves second alike) :
    ∀ (passage : Option Passage) {names : ν} {around : μ} {handle : Option Handle},
    alike names around → Passage.Prepared first names passage handle →
    Passage.Prepared second around passage handle
  | none, _, _, _, _, prepared => prepared
  | some (.of _ body), _, _, _, same, prepared => by
    obtain ⟨block, inner, code, held, there, nests, prepared⟩ := prepared
    obtain ⟨known, similar, found⟩ := moves.block block inner code there
    exact ⟨block, known, code, held, found, moves.nests _ _ _ _ _ nests similar same,
      Phrase.AllPrepared.move moves body similar prepared⟩

end

end Moves

end LiveTemplate
