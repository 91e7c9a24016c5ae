import LiveTemplate.Proofs.Program.Pools

/-!
The shape of code. Compiled code is made of plain instructions, of regions, loops and branches, and
of nothing else: every jump stays within the construct it belongs to. `Shape.Placed` says where in a
program code of some shape stands, and `Shape.Refers` that its operands refer to something.
-/

namespace LiveTemplate

/-! Operands -/

/-- What operands can refer to: constants, registered blocks, slots of the scope and locals. -/
structure Referents where
  pool : Pool
  blocks : Nat
  symbols : Nat
  locals : Nat

namespace Referents

/-- Whatever could be referred to still can. -/
structure Within (before after : Referents) : Prop where
  pool : before.pool.Grows after.pool
  blocks : before.blocks ≤ after.blocks
  symbols : before.symbols ≤ after.symbols
  locals : before.locals ≤ after.locals

variable {there before after : Referents}

def HasString (there : Referents) (handle : Handle) : Prop :=
  ∃ content, there.pool.string handle = .ok content

def HasStrings (there : Referents) (handle : Handle) : Prop :=
  handle ≠ 0 ∧ ∃ contents, there.pool.stringArray handle = .ok contents

def HasBlock (there : Referents) (handle : Handle) : Prop :=
  0 < handle ∧ handle ≤ there.blocks

def HasSymbols (there : Referents) (handle : Handle) : Prop :=
  ∃ symbols, there.pool.array handle = .ok symbols ∧ ∀ symbol ∈ symbols, symbol < there.symbols

def HasBlocks (there : Referents) (handle : Handle) : Prop :=
  ∃ blocks, there.pool.array handle = .ok blocks ∧ ∀ block ∈ blocks, there.HasBlock block

theorem HasString.grow {handle : Handle} (has : before.HasString handle)
    (within : before.Within after) : after.HasString handle := by
  obtain ⟨content, found⟩ := has
  exact ⟨content, within.pool.string found⟩

theorem HasStrings.grow {handle : Handle} (has : before.HasStrings handle)
    (within : before.Within after) : after.HasStrings handle := by
  obtain ⟨nonzero, contents, found⟩ := has
  exact ⟨nonzero, contents, within.pool.stringArray found⟩

theorem HasBlock.grow {handle : Handle} (has : before.HasBlock handle)
    (within : before.Within after) : after.HasBlock handle :=
  ⟨has.1, Nat.le_trans has.2 within.blocks⟩

theorem HasSymbols.grow {handle : Handle} (has : before.HasSymbols handle)
    (within : before.Within after) : after.HasSymbols handle := by
  obtain ⟨symbols, found, bound⟩ := has
  exact ⟨symbols, within.pool.array found, fun symbol member =>
    Nat.lt_of_lt_of_le (bound symbol member) within.symbols⟩

theorem HasBlocks.grow {handle : Handle} (has : before.HasBlocks handle)
    (within : before.Within after) : after.HasBlocks handle := by
  obtain ⟨blocks, found, each⟩ := has
  exact ⟨blocks, within.pool.array found, fun block member => (each block member).grow within⟩

end Referents

/-- The operation stands for itself and does not move the run to another place of its block. -/
def Op.isPlain : Op → Bool
  | .reserveLocals | .releaseLocals | .enter | .exit | .jump | .jumpIf | .jumpUnless | .noop
  | .enterList | .exitList | .enterWithKey | .nextIter | .openComponent | .closeComponent => false
  | _ => true

def Op.isJump : Op → Bool
  | .jump | .jumpIf | .jumpUnless | .nextIter => true
  | _ => false

/-- Neither goes into an element nor leaves one. -/
def Op.isLevel : Op → Bool
  | .flushElement | .closeElement => false
  | _ => true

/-- Every operand refers to something. Zero is an operand only where there may be nothing. -/
def Instruction.Refers (there : Referents) (instruction : Instruction) : Prop :=
  let ⟨op, first, second, third⟩ := instruction
  match op with
  | .text | .comment | .openElement | .getKey | .helper | .modifier => there.HasString first
  | .staticAttr => there.HasString first ∧ there.HasString second ∧
      (third = 0 ∨ there.HasString third)
  | .dynamicAttr => there.HasString first ∧ (second = 0 ∨ there.HasString second)
  | .pushPrimitive => ∃ literal, Primitive.decode first = .ok literal ∧
      ∀ handle, literal = .text handle → there.HasString handle
  | .pushImmediate => ∃ value, there.pool.value first = .ok value
  | .pushSymbol | .getBlock | .bindPartialArgs => first < there.symbols
  | .hasBlock | .hasBlockParams => first < there.symbols ∧ (second = 0 ∨ there.HasString second)
  | .getEvalBlock => first < there.symbols ∧ there.HasString second
  | .pushArgs | .putArgs => second = 0 ∨ there.HasStrings second
  | .bindDynamicScope => there.HasStrings first
  | .bindPositionalArgs => there.HasSymbols first
  | .bindNamedArgs | .bindBlocks => there.HasStrings first ∧ there.HasSymbols second
  | .putLocal | .pushLocal => first < there.locals
  | .enter | .enterList | .enterWithKey => ∃ slice, there.pool.slice first = .ok slice
  | .evaluate | .putPartial => there.HasBlock first
  | .test => ∃ kind, there.pool.function first = .ok kind
  | .putComponent => there.HasString first ∧ there.HasBlock second
  | .openComponent => (first = 0 ∨ there.HasBlock first) ∧ (second = 0 ∨ there.HasBlock second) ∧
      (third = 0 ∨ there.HasBlock third)
  | .putDynamicPartial => there.HasStrings first ∧ there.HasBlocks second
  | _ => True

theorem Instruction.Refers.grow {instruction : Instruction} {before after : Referents}
    (refers : instruction.Refers before) (within : before.Within after) :
    instruction.Refers after := by
  have absent : ∀ {handle : Handle}, handle = 0 ∨ before.HasString handle →
      handle = 0 ∨ after.HasString handle := fun either => either.imp_right (·.grow within)
  have missing : ∀ {handle : Handle}, handle = 0 ∨ before.HasBlock handle →
      handle = 0 ∨ after.HasBlock handle := fun either => either.imp_right (·.grow within)
  obtain ⟨op, first, second, third⟩ := instruction
  cases op with
  | text | comment | openElement | getKey | helper | modifier =>
    exact Referents.HasString.grow refers within
  | staticAttr => exact ⟨refers.1.grow within, refers.2.1.grow within, absent refers.2.2⟩
  | dynamicAttr => exact ⟨refers.1.grow within, absent refers.2⟩
  | pushPrimitive =>
    obtain ⟨literal, decoded, text⟩ := refers
    exact ⟨literal, decoded, fun handle same => (text handle same).grow within⟩
  | pushImmediate =>
    obtain ⟨value, found⟩ := refers
    exact ⟨value, within.pool.value found⟩
  | pushSymbol | getBlock | bindPartialArgs => exact Nat.lt_of_lt_of_le refers within.symbols
  | hasBlock | hasBlockParams =>
    exact ⟨Nat.lt_of_lt_of_le refers.1 within.symbols, absent refers.2⟩
  | getEvalBlock => exact ⟨Nat.lt_of_lt_of_le refers.1 within.symbols, refers.2.grow within⟩
  | pushArgs | putArgs => exact Or.imp_right (Referents.HasStrings.grow · within) refers
  | bindDynamicScope => exact Referents.HasStrings.grow refers within
  | bindPositionalArgs => exact Referents.HasSymbols.grow refers within
  | bindNamedArgs | bindBlocks => exact ⟨refers.1.grow within, refers.2.grow within⟩
  | putLocal | pushLocal => exact Nat.lt_of_lt_of_le refers within.locals
  | enter | enterList | enterWithKey =>
    obtain ⟨slice, found⟩ := refers
    exact ⟨slice, within.pool.slice found⟩
  | evaluate | putPartial => exact Referents.HasBlock.grow refers within
  | test =>
    obtain ⟨kind, found⟩ := refers
    exact ⟨kind, within.pool.function found⟩
  | putComponent => exact ⟨refers.1.grow within, refers.2.grow within⟩
  | openComponent => exact ⟨missing refers.1, missing refers.2.1, missing refers.2.2⟩
  | putDynamicPartial => exact ⟨refers.1.grow within, refers.2.grow within⟩
  | _ => trivial

/-! Shapes -/

/-- What is written stays as it is. A placeholder may be filled in. -/
def Program.Keeps (before after : Program) : Prop :=
  ∀ (place : Nat) (instruction : Instruction), before.instructions[place]? = some instruction →
    instruction.op ≠ .noop → after.instructions[place]? = some instruction

/-- Code from a place on to the end of the construct around it. -/
inductive Shape where
  | nil
  | op (instruction : Instruction) (rest : Shape)
  /-- A region keeps the slice of its body. -/
  | region (slice : Handle) (body rest : Shape)
  /-- The list keeps the slice of the body for its later items. -/
  | loop (list item : Handle) (body rest : Shape)
  /-- A conditional jump past the body. -/
  | skip (op : Op) (body rest : Shape)
  | choice (truthy falsy rest : Shape)
  /-- The invocation of a component, which is closed as soon as its layout is done. -/
  | component (attrs template inverse : Handle) (rest : Shape)
  deriving Repr, DecidableEq

namespace Shape

def append : Shape → Shape → Shape
  | nil, last => last
  | op instruction rest, last => op instruction (rest.append last)
  | region slice body rest, last => region slice body (rest.append last)
  | loop list item body rest, last => loop list item body (rest.append last)
  | skip kind body rest, last => skip kind body (rest.append last)
  | choice truthy falsy rest, last => choice truthy falsy (rest.append last)
  | component attrs template inverse rest, last =>
    component attrs template inverse (rest.append last)

/-- No plain instruction goes into an element or leaves one. -/
def Level : Shape → Prop
  | nil => True
  | op instruction rest => instruction.op.isLevel = true ∧ rest.Level
  | region _ body rest | loop _ _ body rest | skip _ body rest => body.Level ∧ rest.Level
  | choice truthy falsy rest => truthy.Level ∧ falsy.Level ∧ rest.Level
  | component _ _ _ rest => rest.Level

/-- Nothing but starts of blocks. -/
def Calls : Shape → Prop
  | nil => True
  | op instruction rest => instruction.op = .evaluate ∧ rest.Calls
  | _ => False

/-- Plain instructions are plain, elements are only opened and closed outside of all constructs, and
a loop does nothing but start blocks, so that its iterator stays its own. -/
def Formed : Shape → Prop
  | nil => True
  | op instruction rest => instruction.op.isPlain = true ∧ rest.Formed
  | region _ body rest => body.Formed ∧ body.Level ∧ rest.Formed
  | loop _ _ body rest => body.Formed ∧ body.Calls ∧ rest.Formed
  | skip kind body rest =>
    (kind = .jumpIf ∨ kind = .jumpUnless) ∧ body.Formed ∧ body.Level ∧ rest.Formed
  | choice truthy falsy rest =>
    (truthy.Formed ∧ truthy.Level) ∧ (falsy.Formed ∧ falsy.Level) ∧ rest.Formed
  | component _ _ _ rest => rest.Formed

/-- Every operand of a plain instruction refers to something. -/
def Refers (there : Referents) : Shape → Prop
  | nil => True
  | op instruction rest => instruction.Refers there ∧ rest.Refers there
  | region _ body rest | loop _ _ body rest | skip _ body rest =>
    body.Refers there ∧ rest.Refers there
  | choice truthy falsy rest => truthy.Refers there ∧ falsy.Refers there ∧ rest.Refers there
  | component attrs template inverse rest =>
    Instruction.Refers there ⟨.openComponent, attrs, template, inverse⟩ ∧ rest.Refers there

/-- Code of this shape stands in the program from one position up to another. -/
inductive Placed (program : Program) (pool : Pool) : Nat → Shape → Nat → Prop
  | nil (place : Nat) : Placed program pool place nil place
  | op {start stop : Nat} {instruction : Instruction} {rest : Shape}
      (here : program.instructions[start]? = some instruction)
      (after : Placed program pool (start + 1) rest stop) :
      Placed program pool start (op instruction rest) stop
  | region {start leave stop : Nat} {handle : Handle} {body rest : Shape}
      (enter : program.instructions[start]? = some { op := .enter, first := handle })
      (slice : pool.slice handle = .ok ⟨start + 1, leave⟩)
      (inside : Placed program pool (start + 1) body leave)
      (exit : program.instructions[leave]? = some { op := .exit })
      (after : Placed program pool (leave + 1) rest stop) :
      Placed program pool start (region handle body rest) stop
  | loop {start leave stop : Nat} {list item : Handle} {body rest : Shape}
      (enterList : program.instructions[start]? = some { op := .enterList, first := list })
      (listSlice : pool.slice list = .ok ⟨start + 3, leave⟩)
      (next : program.instructions[start + 1]? = some { op := .nextIter, first := leave + 2 })
      (enter : program.instructions[start + 2]? = some { op := .enterWithKey, first := item })
      (slice : pool.slice item = .ok ⟨start + 3, leave⟩)
      (inside : Placed program pool (start + 3) body leave)
      (exit : program.instructions[leave]? = some { op := .exit })
      (again : program.instructions[leave + 1]? = some { op := .jump, first := start + 1 })
      (exitList : program.instructions[leave + 2]? = some { op := .exitList })
      (after : Placed program pool (leave + 3) rest stop) :
      Placed program pool start (loop list item body rest) stop
  | skip {start past stop : Nat} {kind : Op} {body rest : Shape}
      (test : program.instructions[start]? = some { op := kind, first := past })
      (inside : Placed program pool (start + 1) body past)
      (after : Placed program pool past rest stop) :
      Placed program pool start (skip kind body rest) stop
  | choice {start otherwise past stop : Nat} {truthy falsy rest : Shape}
      (test : program.instructions[start]? = some { op := .jumpUnless, first := otherwise + 1 })
      (holds : Placed program pool (start + 1) truthy otherwise)
      (leave : program.instructions[otherwise]? = some { op := .jump, first := past })
      (fails : Placed program pool (otherwise + 1) falsy past)
      (after : Placed program pool past rest stop) :
      Placed program pool start (choice truthy falsy rest) stop
  | component {start stop : Nat} {attrs template inverse : Handle} {rest : Shape}
      (opens : program.instructions[start]? = some ⟨.openComponent, attrs, template, inverse⟩)
      (closes : program.instructions[start + 1]? = some { op := .closeComponent })
      (after : Placed program pool (start + 2) rest stop) :
      Placed program pool start (component attrs template inverse rest) stop

section Laws

variable {there before after : Referents} {first last : Shape}

theorem Calls.level {code : Shape} (calls : code.Calls) : code.Level := by
  induction code with
  | nil => trivial
  | op instruction rest ih =>
    refine ⟨?_, ih calls.2⟩
    rw [calls.1]
    rfl
  | _ => exact calls.elim

theorem Level.append (early : first.Level) (late : last.Level) : (first.append last).Level := by
  induction first with
  | nil => exact late
  | op instruction rest ih => exact ⟨early.1, ih early.2⟩
  | region slice body rest _ ih => exact ⟨early.1, ih early.2⟩
  | loop list item body rest _ ih => exact ⟨early.1, ih early.2⟩
  | skip kind body rest _ ih => exact ⟨early.1, ih early.2⟩
  | choice truthy falsy rest _ _ ih => exact ⟨early.1, early.2.1, ih early.2.2⟩
  | component attrs template inverse rest ih => exact ih early

theorem Formed.append (early : first.Formed) (late : last.Formed) :
    (first.append last).Formed := by
  induction first with
  | nil => exact late
  | op instruction rest ih => exact ⟨early.1, ih early.2⟩
  | region slice body rest _ ih => exact ⟨early.1, early.2.1, ih early.2.2⟩
  | loop list item body rest _ ih => exact ⟨early.1, early.2.1, ih early.2.2⟩
  | skip kind body rest _ ih => exact ⟨early.1, early.2.1, early.2.2.1, ih early.2.2.2⟩
  | choice truthy falsy rest _ _ ih => exact ⟨early.1, early.2.1, ih early.2.2⟩
  | component attrs template inverse rest ih => exact ih early

theorem Refers.append (early : first.Refers there) (late : last.Refers there) :
    (first.append last).Refers there := by
  induction first with
  | nil => exact late
  | op instruction rest ih => exact ⟨early.1, ih early.2⟩
  | region slice body rest _ ih => exact ⟨early.1, ih early.2⟩
  | loop list item body rest _ ih => exact ⟨early.1, ih early.2⟩
  | skip kind body rest _ ih => exact ⟨early.1, ih early.2⟩
  | choice truthy falsy rest _ _ ih => exact ⟨early.1, early.2.1, ih early.2.2⟩
  | component attrs template inverse rest ih => exact ⟨early.1, ih early.2⟩

theorem Refers.grow {code : Shape} (refers : code.Refers before) (within : before.Within after) :
    code.Refers after := by
  induction code with
  | nil => trivial
  | op instruction rest ih => exact ⟨refers.1.grow within, ih refers.2⟩
  | region slice body rest inner ih => exact ⟨inner refers.1, ih refers.2⟩
  | loop list item body rest inner ih => exact ⟨inner refers.1, ih refers.2⟩
  | skip kind body rest inner ih => exact ⟨inner refers.1, ih refers.2⟩
  | choice truthy falsy rest holds fails ih =>
    exact ⟨holds refers.1, fails refers.2.1, ih refers.2.2⟩
  | component attrs template inverse rest ih => exact ⟨refers.1.grow within, ih refers.2⟩

end Laws

namespace Placed

variable {program later : Program} {pool grown : Pool} {start middle stop : Nat}
  {code first last : Shape}

theorem append (early : Placed program pool start first middle)
    (late : Placed program pool middle last stop) :
    Placed program pool start (first.append last) stop := by
  induction early with
  | nil => exact late
  | op here _ ih => exact .op here (ih late)
  | region enter slice inside exit _ _ ih => exact .region enter slice inside exit (ih late)
  | loop enterList listSlice next enter slice inside exit again exitList _ _ ih =>
    exact .loop enterList listSlice next enter slice inside exit again exitList (ih late)
  | skip test inside _ _ ih => exact .skip test inside (ih late)
  | choice test holds leave fails _ _ _ ih => exact .choice test holds leave fails (ih late)
  | component opens closes _ ih => exact .component opens closes (ih late)

/-- Code stays where it is while the program and the pool grow. -/
theorem grow (placed : Placed program pool start code stop) (formed : code.Formed)
    (written : program.Keeps later) (grows : pool.Grows grown) :
    Placed later grown start code stop := by
  induction placed with
  | nil => exact .nil _
  | op here _ ih =>
    refine .op (written _ _ here ?_) (ih formed.2)
    intro equal
    have plain := formed.1
    rw [equal] at plain
    cases plain
  | region enter slice _ exit _ inner ih =>
    exact .region (written _ _ enter nofun) (grows.slice slice) (inner formed.1)
      (written _ _ exit nofun) (ih formed.2.2)
  | loop enterList listSlice next enter slice _ exit again exitList _ inner ih =>
    exact .loop (written _ _ enterList nofun) (grows.slice listSlice) (written _ _ next nofun)
      (written _ _ enter nofun) (grows.slice slice) (inner formed.1) (written _ _ exit nofun)
      (written _ _ again nofun) (written _ _ exitList nofun) (ih formed.2.2)
  | skip test _ _ inner ih =>
    refine .skip (written _ _ test ?_) (inner formed.2.1) (ih formed.2.2.2)
    rcases formed.1 with rfl | rfl <;> exact nofun
  | choice test _ leave _ _ holds fails ih =>
    exact .choice (written _ _ test nofun) (holds formed.1.1) (written _ _ leave nofun)
      (fails formed.2.1.1) (ih formed.2.2)
  | component opens closes _ ih =>
    exact .component (written _ _ opens nofun) (written _ _ closes nofun) (ih formed)

theorem start_le_stop (placed : Placed program pool start code stop) : start ≤ stop := by
  induction placed <;> omega

end Placed

end Shape

end LiveTemplate
