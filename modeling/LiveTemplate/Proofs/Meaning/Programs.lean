import LiveTemplate.Proofs.Meaning.Resolution
import LiveTemplate.Proofs.Meaning.Statements

/-!
The program of a template. When its own statements have been resolved, all tables are made and
nothing but nested blocks waits. From then on each block that is written stays as it is.
-/

namespace LiveTemplate

open Effects

namespace Compilation

/-- Blocks were written, and all that there was is still there. -/
structure Settles (before after : Compilation) : Prop where
  tables : after.tables = before.tables
  program : before.program.Keeps after.program
  pool : before.pool.Grows after.pool
  blocks : ∀ handle block, before.blocks.block handle = .ok block →
    after.blocks.block handle = .ok block

theorem Settles.refl (state : Compilation) : state.Settles state :=
  ⟨rfl, fun _ _ here _ => here, .refl _, fun _ _ there => there⟩

variable {resolver : Resolver}

/-- Writing a block settles all that there was before it. -/
theorem Wrote.settles {before written : Compilation} {handle : Handle} {block : CompiledBlock}
    (wrote : before.Wrote block written) (tables : written.tables = before.tables)
    (waits : written.blocks.At handle none) :
    before.Settles { written with blocks := written.blocks.complete handle block } := by
  refine ⟨tables, wrote.program, wrote.pool, fun other found there => ?_⟩
  have old := (wrote.written other found).mpr (BlockPool.block_ok.mp there)
  have apart : other ≠ handle := by
    rintro rfl
    cases waits.unique old
  exact BlockPool.block_ok.mpr ((BlockPool.complete_at waits other _).mpr (.inr ⟨apart, old⟩))

end Compilation

/-! The template's own statements -/

/-- The statements of a template with its prelude around them. -/
def Resolved.whole : Option (List Resolved) → List Resolved → List Resolved
  | none, body => body
  | some prelude, body => prelude ++ .flushElement :: body ++ [.closeElement]

theorem KnownCode.whole {blocks : Nat} {prelude : Option (List Resolved)} {body : List Resolved}
    (first : ∀ code ∈ prelude, KnownCode blocks code) (rest : KnownCode blocks body) :
    KnownCode blocks (Resolved.whole prelude body) := by
  cases prelude with
  | none => exact rest
  | some prelude =>
    have inside : KnownCode blocks (.flushElement :: body) :=
      (KnownCode.single trivial : KnownCode blocks [.flushElement]).append rest
    exact ((first prelude rfl).append inside).append (.single trivial)

namespace Compilation

variable {resolver : Resolver}

end Compilation

end LiveTemplate
