import LiveTemplate.Proofs.Program.Emission

/-!
The code of a block as a whole, and what it says of each single instruction: where it may jump to,
what its operands refer to, and that the region it enters ends with an exit.
-/

namespace LiveTemplate

open Effects

/-! Places of a shape -/

theorem Op.isJump_of_isPlain {op : Op} (plain : op.isPlain = true) : op.isJump = false := by
  cases op <;> first | rfl | cases plain

/-- If the instruction jumps, then to one of the positions from `first` up to and with `last`. -/
def Instruction.StaysIn (first last : Nat) (instruction : Instruction) : Prop :=
  instruction.op.isJump = true → first ≤ instruction.first ∧ instruction.first ≤ last

theorem Instruction.StaysIn.widen {instruction : Instruction} {first last outerFirst outerLast : Nat}
    (stays : instruction.StaysIn first last) (below : outerFirst ≤ first)
    (above : last ≤ outerLast) : instruction.StaysIn outerFirst outerLast := by
  intro jumps
  obtain ⟨low, high⟩ := stays jumps
  exact ⟨Nat.le_trans below low, Nat.le_trans high above⟩

/-- The region ends with an exit, and no jump in it goes further than to that exit. -/
structure Program.Encloses (program : Program) (region : Slice) : Prop where
  ordered : region.start ≤ region.stop
  exit : program.instructions[region.stop]? = some { op := .exit }
  jumps : ∀ position instruction, region.contains position = true →
    program.instructions[position]? = some instruction →
    instruction.StaysIn region.start region.stop

/-- The instruction is sound at its place between `first` and `last`. -/
structure Program.Admits (program : Program) (there : Referents) (first last : Nat)
    (instruction : Instruction) : Prop where
  real : instruction.op ≠ .noop
  stays : instruction.StaysIn first last
  refers : there.pool.Small → instruction.Refers there
  encloses : instruction.op = .enter ∨ instruction.op = .enterWithKey →
    ∃ region, there.pool.slice instruction.first = .ok region ∧ program.Encloses region

namespace Program.Admits

variable {program : Program} {there : Referents} {instruction : Instruction}
  {first last outerFirst outerLast : Nat}

theorem widen (admits : program.Admits there first last instruction) (below : outerFirst ≤ first)
    (above : last ≤ outerLast) : program.Admits there outerFirst outerLast instruction where
  real := admits.real
  stays := admits.stays.widen below above
  refers := admits.refers
  encloses := admits.encloses

theorem of_plain (plain : instruction.op.isPlain = true)
    (refers : there.pool.Small → instruction.Refers there) :
    program.Admits there first last instruction := by
  obtain ⟨op, one, two, three⟩ := instruction
  refine ⟨?_, ?_, refers, ?_⟩
  · rintro rfl
    cases plain
  · intro jumps
    have stays := Op.isJump_of_isPlain plain
    rw [jumps] at stays
    cases stays
  · rintro (rfl | rfl) <;> cases plain

theorem of_jump {kind : Op} {target : Nat}
    (jumps : kind = .jump ∨ kind = .jumpIf ∨ kind = .jumpUnless ∨ kind = .nextIter)
    (low : first ≤ target) (high : target ≤ last) :
    program.Admits there first last { op := kind, first := target } := by
  refine ⟨?_, fun _ => ⟨low, high⟩, fun _ => ?_, ?_⟩
  · rcases jumps with rfl | rfl | rfl | rfl <;> exact nofun
  · rcases jumps with rfl | rfl | rfl | rfl <;> trivial
  · rcases jumps with rfl | rfl | rfl | rfl <;> exact nofun

theorem of_enter {kind : Op} {handle : Handle} {region : Slice}
    (enters : kind = .enter ∨ kind = .enterWithKey)
    (slice : there.pool.slice handle = .ok region) (encloses : program.Encloses region) :
    program.Admits there first last { op := kind, first := handle } := by
  refine ⟨?_, ?_, fun _ => ?_, fun _ => ⟨region, slice, encloses⟩⟩
  · rcases enters with rfl | rfl <;> exact nofun
  · rcases enters with rfl | rfl <;> exact nofun
  · rcases enters with rfl | rfl <;> exact ⟨region, slice⟩

theorem of_leave {kind : Op} (leaves : kind = .exit ∨ kind = .exitList) :
    program.Admits there first last { op := kind } := by
  rcases leaves with rfl | rfl
  · exact ⟨nofun, nofun, fun _ => trivial, nofun⟩
  · exact ⟨nofun, nofun, fun _ => trivial, nofun⟩

end Program.Admits

/-- Each instruction in the slice is sound at its place. -/
def Program.AdmitsAll (program : Program) (there : Referents) (first last : Nat) : Prop :=
  ∀ position, first ≤ position → position < last →
    ∃ instruction, program.instructions[position]? = some instruction ∧
      program.Admits there first last instruction

namespace Shape

variable {program : Program} {there : Referents} {start stop : Nat} {code : Shape}

theorem encloses_of_admits {leave : Nat} (ordered : start ≤ leave)
    (inside : program.AdmitsAll there start leave)
    (exit : program.instructions[leave]? = some { op := .exit }) :
    program.Encloses ⟨start, leave⟩ := by
  refine ⟨ordered, exit, fun position instruction contained here => ?_⟩
  have bounds : start ≤ position ∧ position < leave := by
    simpa [Slice.contains] using contained
  obtain ⟨found, there, admits⟩ := inside position bounds.1 bounds.2
  rw [here] at there
  cases there
  exact admits.stays

/-- Whatever stands in a program as code of some shape is sound at each of its places. -/
theorem Placed.admits (placed : Placed program there.pool start code stop)
    (formed : code.Formed) (refers : there.pool.Small → code.Refers there) :
    program.AdmitsAll there start stop := by
  induction placed with
  | nil => exact fun position low high => absurd low (Nat.not_le_of_gt high)
  | @op start stop instruction rest here after ih =>
    have rest_admits := ih formed.2 fun small => (refers small).2
    have bound := after.start_le_stop
    intro position low high
    rcases Nat.eq_or_lt_of_le low with rfl | later
    · exact ⟨instruction, here, .of_plain formed.1 fun small => (refers small).1⟩
    · obtain ⟨found, there, admits⟩ := rest_admits position later high
      exact ⟨found, there, admits.widen (Nat.le_succ _) (Nat.le_refl _)⟩
  | @region start leave stop handle body rest enter slice inside exit after inner ih =>
    have body_admits := inner formed.1 fun small => (refers small).1
    have rest_admits := ih formed.2.2 fun small => (refers small).2
    have bound := inside.start_le_stop
    have bound' := after.start_le_stop
    intro position low high
    by_cases first : position = start
    · subst first
      exact ⟨_, enter, .of_enter (.inl rfl) slice (encloses_of_admits bound body_admits exit)⟩
    by_cases within : position < leave
    · obtain ⟨found, there, admits⟩ := body_admits position (by omega) within
      exact ⟨found, there, admits.widen (by omega) (by omega)⟩
    by_cases last : position = leave
    · subst last
      exact ⟨_, exit, .of_leave (.inl rfl)⟩
    · obtain ⟨found, there, admits⟩ := rest_admits position (by omega) high
      exact ⟨found, there, admits.widen (by omega) (Nat.le_refl _)⟩
  | @loop start leave stop list item body rest enterList listSlice next enter slice inside exit
      again exitList after inner ih =>
    have body_admits := inner formed.1 fun small => (refers small).1
    have rest_admits := ih formed.2.2 fun small => (refers small).2
    have bound := inside.start_le_stop
    have bound' := after.start_le_stop
    intro position low high
    by_cases first : position = start
    · subst first
      exact ⟨_, enterList, nofun, nofun, fun _ => ⟨_, listSlice⟩, nofun⟩
    by_cases second : position = start + 1
    · subst second
      exact ⟨_, next, .of_jump (.inr (.inr (.inr rfl))) (by omega) (by omega)⟩
    by_cases third : position = start + 2
    · subst third
      exact ⟨_, enter, .of_enter (.inr rfl) slice (encloses_of_admits bound body_admits exit)⟩
    by_cases within : position < leave
    · obtain ⟨found, there, admits⟩ := body_admits position (by omega) within
      exact ⟨found, there, admits.widen (by omega) (by omega)⟩
    by_cases left : position = leave
    · subst left
      exact ⟨_, exit, .of_leave (.inl rfl)⟩
    by_cases repeated : position = leave + 1
    · subst repeated
      exact ⟨_, again, .of_jump (.inl rfl) (by omega) (by omega)⟩
    by_cases last : position = leave + 2
    · subst last
      exact ⟨_, exitList, .of_leave (.inr rfl)⟩
    · obtain ⟨found, there, admits⟩ := rest_admits position (by omega) high
      exact ⟨found, there, admits.widen (by omega) (Nat.le_refl _)⟩
  | @skip start past stop kind body rest test inside after inner ih =>
    have body_admits := inner formed.2.1 fun small => (refers small).1
    have rest_admits := ih formed.2.2.2 fun small => (refers small).2
    have bound := inside.start_le_stop
    have bound' := after.start_le_stop
    intro position low high
    by_cases first : position = start
    · subst first
      have jumps : kind = .jump ∨ kind = .jumpIf ∨ kind = .jumpUnless ∨ kind = .nextIter := by
        rcases formed.1 with rfl | rfl <;> simp
      exact ⟨_, test, .of_jump jumps (by omega) bound'⟩
    by_cases within : position < past
    · obtain ⟨found, there, admits⟩ := body_admits position (by omega) within
      exact ⟨found, there, admits.widen (by omega) bound'⟩
    · obtain ⟨found, there, admits⟩ := rest_admits position (by omega) high
      exact ⟨found, there, admits.widen (by omega) (Nat.le_refl _)⟩
  | @choice start otherwise past stop truthy falsy rest test holds leave fails after first second
      ih =>
    have truthy_admits := first formed.1.1 fun small => (refers small).1
    have falsy_admits := second formed.2.1.1 fun small => (refers small).2.1
    have rest_admits := ih formed.2.2 fun small => (refers small).2.2
    have bound := holds.start_le_stop
    have bound' := fails.start_le_stop
    have bound'' := after.start_le_stop
    intro position low high
    by_cases tested : position = start
    · subst tested
      exact ⟨_, test, .of_jump (.inr (.inr (.inl rfl))) (by omega) (by omega)⟩
    by_cases one : position < otherwise
    · obtain ⟨found, there, admits⟩ := truthy_admits position (by omega) one
      exact ⟨found, there, admits.widen (by omega) (by omega)⟩
    by_cases left : position = otherwise
    · subst left
      exact ⟨_, leave, .of_jump (.inl rfl) (by omega) (by omega)⟩
    by_cases two : position < past
    · obtain ⟨found, there, admits⟩ := falsy_admits position (by omega) two
      exact ⟨found, there, admits.widen (by omega) (by omega)⟩
    · obtain ⟨found, there, admits⟩ := rest_admits position (by omega) high
      exact ⟨found, there, admits.widen (by omega) (Nat.le_refl _)⟩
  | @component start stop attrs template inverse rest opens closes after ih =>
    have rest_admits := ih formed fun small => (refers small).2
    have bound := after.start_le_stop
    intro position low high
    by_cases first : position = start
    · subst first
      exact ⟨_, opens, nofun, nofun, fun small => (refers small).1, nofun⟩
    by_cases second : position = start + 1
    · subst second
      exact ⟨_, closes, nofun, nofun, fun _ => trivial, nofun⟩
    · obtain ⟨found, there, admits⟩ := rest_admits position (by omega) high
      exact ⟨found, there, admits.widen (by omega) (Nat.le_refl _)⟩

end Shape

/-! Slices that are kept -/

/-- Keeps a slice that can be run again on its own. -/
def Op.opensSlice : Op → Bool
  | .enter | .enterList | .enterWithKey => true
  | _ => false

/-- If a slice is kept here, code of some shape stands in it. -/
def Program.OpensAt (program : Program) (pool : Pool) (position : Nat) : Prop :=
  ∀ instruction slice, program.instructions[position]? = some instruction →
    instruction.op.opensSlice = true → pool.slice instruction.first = .ok slice →
    ∃ code : Shape, code.Formed ∧ code.Placed program pool slice.start slice.stop

namespace Program.OpensAt

variable {program : Program} {pool : Pool} {position : Nat}

theorem of_other {instruction : Instruction}
    (here : program.instructions[position]? = some instruction)
    (other : instruction.op.opensSlice = false) : program.OpensAt pool position := by
  intro found slice there opens _
  rw [here] at there
  cases there
  rw [other] at opens
  cases opens

theorem of_placed {instruction : Instruction} {first last : Nat} {code : Shape}
    (here : program.instructions[position]? = some instruction)
    (kept : pool.slice instruction.first = .ok ⟨first, last⟩) (formed : code.Formed)
    (placed : code.Placed program pool first last) : program.OpensAt pool position := by
  intro found slice there _ same
  rw [here] at there
  cases there
  rw [kept] at same
  cases same
  exact ⟨code, formed, placed⟩

end Program.OpensAt

/-- Every slice that is kept in code of some shape is a part of it. -/
theorem Shape.Placed.opens {program : Program} {pool : Pool} {start stop : Nat} {code : Shape}
    (placed : code.Placed program pool start stop) (formed : code.Formed) :
    ∀ position, start ≤ position → position < stop → program.OpensAt pool position := by
  induction placed with
  | nil => exact fun position low high => absurd low (Nat.not_le_of_gt high)
  | @op start stop instruction rest here after ih =>
    intro position low high
    rcases Nat.eq_or_lt_of_le low with rfl | later
    · refine .of_other here ?_
      have plain := formed.1
      cases kind : instruction.op <;> first | rfl | (rw [kind] at plain; cases plain)
    · exact ih formed.2 position later high
  | @region start leave stop handle body rest enter slice inside exit after inner ih =>
    intro position low high
    rcases Nat.eq_or_lt_of_le low with rfl | later
    · exact .of_placed enter slice formed.1 inside
    rcases Nat.lt_trichotomy position leave with within | rfl | later'
    · exact inner formed.1 position later within
    · exact .of_other exit rfl
    · exact ih formed.2.2 position later' high
  | @loop start leave stop list item body rest enterList listSlice next enter slice inside exit
      again exitList after inner ih =>
    intro position low high
    rcases Nat.eq_or_lt_of_le low with rfl | later
    · exact .of_placed enterList listSlice formed.1 inside
    by_cases second : position = start + 1
    · subst second
      exact .of_other next rfl
    by_cases third : position = start + 2
    · subst third
      exact .of_placed enter slice formed.1 inside
    by_cases within : position < leave
    · exact inner formed.1 position (by omega) within
    by_cases left : position = leave
    · subst left
      exact .of_other exit rfl
    by_cases repeated : position = leave + 1
    · subst repeated
      exact .of_other again rfl
    by_cases last : position = leave + 2
    · subst last
      exact .of_other exitList rfl
    · exact ih formed.2.2 position (by omega) high
  | @skip start past stop kind body rest test inside after inner ih =>
    intro position low high
    rcases Nat.eq_or_lt_of_le low with rfl | later
    · refine .of_other test ?_
      rcases formed.1 with rfl | rfl <;> rfl
    by_cases within : position < past
    · exact inner formed.2.1 position later within
    · exact ih formed.2.2.2 position (by omega) high
  | @choice start otherwise past stop truthy falsy rest test holds leave fails after first second
      ih =>
    intro position low high
    rcases Nat.eq_or_lt_of_le low with rfl | later
    · exact .of_other test rfl
    rcases Nat.lt_trichotomy position otherwise with one | rfl | later'
    · exact first formed.1.1 position later one
    · exact .of_other leave rfl
    by_cases two : position < past
    · exact second formed.2.1.1 position later' two
    · exact ih formed.2.2 position (by omega) high
  | @component start stop attrs template inverse rest opens closes after ih =>
    intro position low high
    rcases Nat.eq_or_lt_of_le low with rfl | later
    · exact .of_other opens rfl
    rcases Nat.eq_or_lt_of_le later with rfl | later'
    · exact .of_other closes rfl
    · exact ih formed position later' high

/-! Blocks -/

/-- The code of a block stands in a slice, between the instructions that reserve and release its
locals. -/
structure Shape.Stands (program : Program) (there : Referents) (slice : Slice) (code : Shape) :
    Prop where
  reserve : program.instructions[slice.start]? =
    some { op := .reserveLocals, first := there.locals }
  placed : Placed program there.pool (slice.start + 1) code (slice.stop - 1)
  release : program.instructions[slice.stop - 1]? = some { op := .releaseLocals }
  formed : code.Formed
  refers : there.pool.Small → code.Refers there

namespace Shape.Stands

variable {program later : Program} {there grown : Referents} {slice : Slice} {code : Shape}

theorem start_lt_stop (stands : Stands program there slice code) : slice.start < slice.stop := by
  have bound := stands.placed.start_le_stop
  omega

theorem stop_le_length (stands : Stands program there slice code) :
    slice.stop ≤ program.length := by
  have bound := (Array.getElem?_eq_some_iff.mp stands.release).1
  exact Nat.le_of_pred_lt bound

theorem grow (stands : Stands program there slice code) (written : program.Keeps later)
    (within : there.Within grown) (same : grown.locals = there.locals) :
    Stands later grown slice code where
  reserve := by
    rw [same]
    exact written _ _ stands.reserve nofun
  placed := stands.placed.grow stands.formed written within.pool
  release := written _ _ stands.release nofun
  formed := stands.formed
  refers := fun small => (stands.refers (within.pool.small small)).grow within

/-- Between its first and its last instruction, each one is sound at its place. -/
theorem admits (stands : Stands program there slice code) :
    program.AdmitsAll there (slice.start + 1) (slice.stop - 1) :=
  stands.placed.admits stands.formed stands.refers

end Shape.Stands

/-- What `codeOf` writes is the code of a block. -/
theorem Setting.codeOf_ok {setting : Setting} {body : Writing Unit} {before after : Draft}
    {slice : Slice} {locals : Nat} (writes : ∀ inside, setting.Writes inside body)
    (ended : Writing.codeOf body before = .ok (slice, locals) after) :
    before.program.Keeps after.program ∧ before.pool.Grows after.pool ∧
      slice = ⟨before.program.length, after.program.length⟩ ∧
      ∃ code, Shape.Stands after.program ⟨after.pool, setting.blocks, setting.symbols, locals⟩
        slice code := by
  obtain ⟨_, d0, reset, ended⟩ := bind_ok.mp ended
  have cleared := modify_ok.mp reset
  obtain ⟨start, d1, held, ended⟩ := bind_ok.mp ended
  obtain ⟨here, pushed⟩ := Writing.push_ok.mp held
  obtain ⟨_, d2, inside, ended⟩ := bind_ok.mp ended
  obtain ⟨⟨code, written⟩, -⟩ := writes d1 _ _ inside
  obtain ⟨draft, d3, got, ended⟩ := bind_ok.mp ended
  obtain ⟨rfl, rfl⟩ := get_ok.mp got
  have closed : d2.scopes = [] := by
    rw [written.scopes, ← pushed, ← cleared]
  simp only [closed, List.isEmpty_nil, if_pos] at ended
  obtain ⟨_, d4, patched, ended⟩ := bind_ok.mp ended
  obtain ⟨grows, -, -, length, reserve⟩ := Writing.patch_ok patched
  obtain ⟨_, d5, left, ended⟩ := bind_ok.mp ended
  obtain ⟨further, -, longer, -, -, release⟩ := Writing.emit_ok left
  obtain ⟨stop, d6, asked, ended⟩ := bind_ok.mp ended
  have last : d5.program.length = stop ∧ d5 = d6 := by
    change EStateM.Result.ok d5.program.length d5 = .ok stop d6 at asked
    simpa using asked
  obtain ⟨rfl, rfl⟩ := last
  obtain ⟨same, rfl⟩ := pure_ok.mp ended
  cases same
  have program : d0.program = before.program := by rw [← cleared]
  have pool : d0.pool = before.pool := by rw [← cleared]
  have first : d0.Grows d1 := by
    rw [← pushed]
    exact .push _ _
  have size : d1.program.length = start + 1 := by
    rw [← pushed, ← here]
    exact Program.length_push _ _
  have finished := grows.trans further
  have whole := (first.trans written.grows).trans finished
  refine ⟨program ▸ whole.program, pool ▸ whole.pool, ?_, code, ?_⟩
  · rw [← here, program]
  · refine ⟨further.program _ _ reserve nofun, ?_, ?_, written.formed, fun small => ?_⟩
    · have placed := written.placed.grow written.formed finished.program finished.pool
      rw [size] at placed
      simpa [longer, length] using placed
    · simpa [longer] using release
    · refine (written.refers (finished.pool.small small)).grow ⟨finished.pool, ?_, ?_, ?_⟩
      · exact Nat.le_refl _
      · exact Nat.le_refl _
      · exact Nat.le_refl _

end LiveTemplate
