import LiveTemplate.Program.Draft
import LiveTemplate.Proofs.Effects
import LiveTemplate.Proofs.Program.Shape

/-!
What writing does to a draft. A draft only grows, apart from placeholders, and those that wait in the
innermost label scope are all filled in when it ends.
-/

namespace LiveTemplate

open Effects

theorem Program.Keeps.trans {first second third : Program} (early : first.Keeps second)
    (late : second.Keeps third) : first.Keeps third :=
  fun place instruction here real => late _ _ (early place instruction here real) real

theorem Program.getElem?_push (program : Program) (instruction : Instruction) :
    (program.push instruction).instructions[program.length]? = some instruction := by
  simp [Program.push, Program.length]

theorem Program.keeps_push (program : Program) (instruction : Instruction) :
    program.Keeps (program.push instruction) := by
  intro place old here _
  have bound := (Array.getElem?_eq_some_iff.mp here).1
  simp only [Program.push]
  rw [Array.getElem?_push_lt bound, ← here, Array.getElem?_eq_getElem bound]

@[simp] theorem Program.length_push (program : Program) (instruction : Instruction) :
    (program.push instruction).length = program.length + 1 := by
  simp [Program.push, Program.length]

namespace Draft

/-- Nothing that is written is lost. -/
structure Grows (before after : Draft) : Prop where
  program : before.program.Keeps after.program
  length : before.program.length ≤ after.program.length
  pool : before.pool.Grows after.pool
  reserved : before.reserved ≤ after.reserved

theorem Grows.refl (draft : Draft) : draft.Grows draft :=
  ⟨fun _ _ here _ => here, Nat.le_refl _, .refl _, Nat.le_refl _⟩

theorem Grows.trans {first second third : Draft} (early : first.Grows second)
    (late : second.Grows third) : first.Grows third where
  program := early.program.trans late.program
  length := Nat.le_trans early.length late.length
  pool := early.pool.trans late.pool
  reserved := Nat.le_trans early.reserved late.reserved

theorem Grows.push (draft : Draft) (instruction : Instruction) :
    draft.Grows { draft with program := draft.program.push instruction } where
  program := draft.program.keeps_push instruction
  length := by simp
  pool := .refl _
  reserved := Nat.le_refl _

/-- The scopes of a draft do not count. -/
theorem Grows.of_eq {before after : Draft} (program : after.program = before.program)
    (pool : after.pool = before.pool) (reserved : after.reserved = before.reserved) :
    before.Grows after where
  program := by
    rw [program]
    exact fun _ _ here _ => here
  length := Nat.le_of_eq (congrArg Program.length program.symm)
  pool := by
    rw [pool]
    exact .refl _
  reserved := Nat.le_of_eq reserved.symm

end Draft

/-! Placeholders -/

def Pending.op : Pending → Op
  | .jump _ op _ | .range _ op _ _ => op

/-- A placeholder is filled in according to the positions of its labels. -/
def Draft.Settles (draft : Draft) (positions : List (Label × Nat)) : Pending → Prop
  | .jump place op target => ∃ position, positions.lookup target = some position ∧
      draft.program.instructions[place]? = some { op, first := position }
  | .range place op start stop => ∃ first last handle,
      positions.lookup start = some first ∧ positions.lookup stop = some last ∧
        draft.pool.slice handle = .ok ⟨first, last⟩ ∧
        draft.program.instructions[place]? = some { op, first := handle }

theorem Draft.Settles.grow {before after : Draft} {positions : List (Label × Nat)}
    {pending : Pending} (settles : before.Settles positions pending) (real : pending.op ≠ .noop)
    (grows : before.Grows after) : after.Settles positions pending := by
  cases pending with
  | jump place op target =>
    obtain ⟨position, found, here⟩ := settles
    exact ⟨position, found, grows.program _ _ here real⟩
  | range place op start stop =>
    obtain ⟨first, last, handle, begins, ends, slice, here⟩ := settles
    exact ⟨first, last, handle, begins, ends, grows.pool.slice slice,
      grows.program _ _ here real⟩

namespace Writing

variable {before after : Draft}

theorem push_ok {instruction : Instruction} {place : Nat} :
    push instruction before = .ok place after ↔ before.program.length = place ∧
      { before with program := before.program.push instruction } = after := by
  change EStateM.Result.ok before.program.length
    { before with program := before.program.push instruction } = .ok place after ↔ _
  simp

theorem emit_ok {op : Op} {first second third : Nat}
    (ended : emit op first second third before = .ok () after) :
    before.Grows after ∧ after.scopes = before.scopes ∧
      after.program.length = before.program.length + 1 ∧ after.pool = before.pool ∧
      after.reserved = before.reserved ∧
      after.program.instructions[before.program.length]? = some ⟨op, first, second, third⟩ := by
  have same : { before with program := before.program.push ⟨op, first, second, third⟩ } = after := by
    change EStateM.Result.ok () { before with
      program := before.program.push ⟨op, first, second, third⟩ } = .ok () after at ended
    simpa using ended
  rw [← same]
  exact ⟨.push _ _, rfl, Program.length_push _ _, rfl, rfl, before.program.getElem?_push _⟩

theorem pooled_ok {α : Type} {add : Pool → α × Pool} {result : α} :
    pooled add before = .ok result after ↔
      (add before.pool).1 = result ∧ { before with pool := (add before.pool).2 } = after := by
  change EStateM.Result.ok (add before.pool).1 { before with pool := (add before.pool).2 } =
    .ok result after ↔ _
  simp

theorem sound_ok {α : Type} {outcome : Except Defect α} {result : α} :
    sound outcome before = .ok result after ↔ outcome = .ok result ∧ before = after := by
  cases outcome with
  | ok value =>
    change EStateM.Result.ok value before = .ok result after ↔ _
    simp
  | error defect => exact ⟨fun ended => absurd ended throw_ok, fun ended => by cases ended.1⟩

theorem reject_ok {α : Type} {error : CompileError} {result : α} :
    (reject error : Writing α) before ≠ .ok result after :=
  throw_ok

variable {scope : LabelScope} {outer : List LabelScope}

theorem startLabels_ok (ended : startLabels before = .ok () after) :
    before.Grows after ∧ after.scopes = {} :: before.scopes ∧
      after.program.length = before.program.length := by
  rw [← modify_ok.mp ended]
  exact ⟨.of_eq rfl rfl rfl, rfl, rfl⟩

theorem modifyScope_ok {change : LabelScope → LabelScope}
    (ended : modifyScope change before = .ok () after) (opened : before.scopes = scope :: outer) :
    { before with scopes := change scope :: outer } = after := by
  obtain ⟨state, between, got, rest⟩ := bind_ok.mp ended
  obtain ⟨rfl, rfl⟩ := get_ok.mp got
  rw [opened] at rest
  exact modify_ok.mp rest

theorem label_ok {name : Label} (ended : label name before = .ok () after)
    (opened : before.scopes = scope :: outer) :
    before.Grows after ∧ after.program.length = before.program.length ∧
      after.scopes =
        { scope with positions := (name, before.program.length) :: scope.positions } :: outer := by
  obtain ⟨place, between, here, changed⟩ := bind_ok.mp ended
  have same : before.program.length = place ∧ before = between := by
    change EStateM.Result.ok before.program.length before = .ok place between at here
    simpa using here
  obtain ⟨rfl, rfl⟩ := same
  rw [← modifyScope_ok changed opened]
  exact ⟨.of_eq rfl rfl rfl, rfl, rfl⟩

theorem later_ok {pending : Nat → Pending} {place : Nat}
    (ended : later pending before = .ok place after) (opened : before.scopes = scope :: outer) :
    before.Grows after ∧ after.program.length = before.program.length + 1 ∧
      after.scopes =
        { scope with pending := scope.pending ++ [pending before.program.length] } :: outer := by
  obtain ⟨pushed, between, here, rest⟩ := bind_ok.mp ended
  obtain ⟨rfl, rfl⟩ := push_ok.mp here
  obtain ⟨_, last, changed, done⟩ := bind_ok.mp rest
  obtain ⟨-, rfl⟩ := pure_ok.mp done
  rw [← modifyScope_ok changed opened]
  exact ⟨(Draft.Grows.push before .placeholder).trans (.of_eq rfl rfl rfl),
    Program.length_push _ _, rfl⟩

/-- A placeholder is filled in, and everything else stays. -/
theorem patch_ok {place : Nat} {instruction : Instruction}
    (ended : patch place instruction before = .ok () after) :
    before.Grows after ∧ after.scopes = before.scopes ∧ after.inUse = before.inUse ∧
      after.program.length = before.program.length ∧
      after.program.instructions[place]? = some instruction := by
  obtain ⟨state, first, got, rest⟩ := bind_ok.mp ended
  obtain ⟨rfl, rfl⟩ := get_ok.mp got
  obtain ⟨program, second, patched, changed⟩ := bind_ok.mp rest
  obtain ⟨filled, rfl⟩ := sound_ok.mp patched
  have result := modify_ok.mp changed
  obtain ⟨old, there, blank, same⟩ : ∃ old, before.program.instructions[place]? = some old ∧
      old.op = .noop ∧ program = ⟨before.program.instructions.setIfInBounds place instruction⟩ := by
    unfold Program.patch Program.fetch at filled
    cases found : before.program.instructions[place]? with
    | none =>
      rw [found] at filled
      cases filled
    | some old =>
      rw [found] at filled
      by_cases blank : old.op = .noop
      · have equal : (.ok ⟨before.program.instructions.setIfInBounds place instruction⟩ :
            Except Defect Program) = .ok program := by
          rw [← filled]
          change _ = if old.op = .noop then _ else _
          rw [if_pos blank]
          rfl
        exact ⟨old, rfl, blank, (Except.ok.inj equal).symm⟩
      · change (if old.op = .noop then _ else _) = _ at filled
        rw [if_neg blank] at filled
        cases filled
  have bound := (Array.getElem?_eq_some_iff.mp there).1
  rw [← result, same]
  refine ⟨⟨?_, ?_, .refl _, Nat.le_refl _⟩, rfl, rfl, ?_, ?_⟩
  · intro position written here real
    by_cases equal : position = place
    · rw [equal, there] at here
      cases here
      exact absurd blank real
    · simpa [Ne.symm equal] using here
  · simp [Program.length]
  · simp [Program.length]
  · simp [bound]

theorem resolve_ok {name : Label} {place : Nat}
    (ended : resolve scope name before = .ok place after) :
    scope.positions.lookup name = some place ∧ before = after := by
  unfold resolve at ended
  cases found : scope.positions.lookup name with
  | none =>
    rw [found] at ended
    exact absurd ended reject_ok
  | some position =>
    rw [found] at ended
    obtain ⟨rfl, rfl⟩ := pure_ok.mp ended
    exact ⟨rfl, rfl⟩

theorem settle_ok {pending : Pending}
    (ended : settle scope pending before = .ok () after) :
    before.Grows after ∧ after.scopes = before.scopes ∧
      after.program.length = before.program.length ∧ after.Settles scope.positions pending := by
  cases pending with
  | jump place op target =>
    obtain ⟨position, between, found, patched⟩ := bind_ok.mp ended
    obtain ⟨known, rfl⟩ := resolve_ok found
    obtain ⟨grows, scopes, -, length, here⟩ := patch_ok patched
    exact ⟨grows, scopes, length, position, known, here⟩
  | range place op start stop =>
    obtain ⟨first, state, begins, rest⟩ := bind_ok.mp ended
    obtain ⟨known, rfl⟩ := resolve_ok begins
    obtain ⟨last, state, ends, rest⟩ := bind_ok.mp rest
    obtain ⟨knownToo, rfl⟩ := resolve_ok ends
    obtain ⟨slice, state, made, rest⟩ := bind_ok.mp rest
    obtain ⟨ordered, rfl⟩ := sound_ok.mp made
    obtain ⟨handle, state, added, patched⟩ := bind_ok.mp rest
    obtain ⟨rfl, rfl⟩ := pooled_ok.mp added
    obtain ⟨grows, scopes, -, length, here⟩ := patch_ok patched
    have same : slice = ⟨first, last⟩ := by
      unfold Slice.make at ordered
      split at ordered
      · exact (Except.ok.inj ordered).symm
      · cases ordered
    subst same
    have pooled : before.Grows { before with pool := (before.pool.addSlice ⟨first, last⟩).2 } :=
      ⟨fun _ _ here _ => here, Nat.le_refl _, before.pool.addSlice_grows _, Nat.le_refl _⟩
    exact ⟨pooled.trans grows, scopes, length, first, last, _, known, knownToo,
      grows.pool.slice (before.pool.addSlice_slice _), here⟩

theorem settleAll_ok (pending : List Pending) :
    ∀ {before after : Draft}, pending.forM (settle scope) before = .ok () after →
      (∀ waiting ∈ pending, waiting.op ≠ .noop) →
      before.Grows after ∧ after.scopes = before.scopes ∧
        after.program.length = before.program.length ∧
        ∀ waiting ∈ pending, after.Settles scope.positions waiting := by
  induction pending with
  | nil =>
    intro before after ended real
    obtain ⟨-, rfl⟩ := pure_ok.mp ended
    exact ⟨.refl _, rfl, rfl, by simp⟩
  | cons first rest ih =>
    intro before after ended real
    obtain ⟨_, between, settled, others⟩ := bind_ok.mp ended
    obtain ⟨grows, scopes, length, here⟩ := settle_ok settled
    obtain ⟨growsToo, scopesToo, lengthToo, there⟩ :=
      ih others fun waiting member => real waiting (List.mem_cons_of_mem _ member)
    refine ⟨grows.trans growsToo, scopesToo.trans scopes, lengthToo.trans length, ?_⟩
    intro waiting member
    rcases List.mem_cons.mp member with rfl | member
    · exact here.grow (real _ List.mem_cons_self) growsToo
    · exact there waiting member

/-- When a label scope ends, all of its placeholders are filled in. -/
theorem stopLabels_ok
    (ended : stopLabels before = .ok () after) (opened : before.scopes = scope :: outer)
    (real : ∀ waiting ∈ scope.pending, waiting.op ≠ .noop) :
    before.Grows after ∧ after.scopes = outer ∧
      after.program.length = before.program.length ∧
      ∀ waiting ∈ scope.pending, after.Settles scope.positions waiting := by
  obtain ⟨state, between, got, rest⟩ := bind_ok.mp ended
  obtain ⟨rfl, rfl⟩ := get_ok.mp got
  rw [opened] at rest
  obtain ⟨_, between, closed, settled⟩ := bind_ok.mp rest
  have same := modify_ok.mp closed
  subst same
  obtain ⟨grows, scopes, length, settles⟩ := settleAll_ok scope.pending settled real
  have still : before.Grows { before with scopes := outer } := .of_eq rfl rfl rfl
  exact ⟨still.trans grows, scopes, length, settles⟩

end Writing

end LiveTemplate
