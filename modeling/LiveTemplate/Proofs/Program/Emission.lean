import LiveTemplate.Proofs.Program.Drafts

/-!
Code that is written. `Setting.Emits` says of a piece of the code generator that what it writes is
code of some shape, and there is one rule for each way to put such pieces together. `Setting.Opens`
says the same of the body of a region, whose jumps to the end of the region are still to be filled
in.
-/

namespace LiveTemplate

open Effects

/-- No handle of a string is too large for the operand of a literal. -/
def Pool.Small (pool : Pool) : Prop := pool.strings.size ≤ Primitive.maxNumber

theorem Pool.Grows.small {before after : Pool} (grows : before.Grows after) (small : after.Small) :
    before.Small :=
  Nat.le_trans grows.strings.size small

/-- What the code that is written may refer to, and whether it has to leave elements alone. -/
structure Setting where
  blocks : Nat
  symbols : Nat
  level : Bool

namespace Setting

variable {setting : Setting} {α β : Type} {before after : Draft}

def referents (setting : Setting) (draft : Draft) : Referents :=
  ⟨draft.pool, setting.blocks, setting.symbols, draft.reserved⟩

theorem within (setting : Setting) (grows : before.Grows after) :
    (setting.referents before).Within (setting.referents after) :=
  ⟨grows.pool, Nat.le_refl _, Nat.le_refl _, grows.reserved⟩

/-- Inside of a construct. -/
def inner (setting : Setting) : Setting := { setting with level := true }

/-- Code of this shape was written. -/
structure Emitted (setting : Setting) (code : Shape) (before after : Draft) : Prop where
  placed : Shape.Placed after.program after.pool before.program.length code after.program.length
  formed : code.Formed
  level : setting.level = true → code.Level
  refers : after.pool.Small → code.Refers (setting.referents after)
  grows : before.Grows after
  scopes : after.scopes = before.scopes

/-- If it ends well, code is written, and the result is good. -/
def Emits (setting : Setting) (before : Draft) (action : Writing α) (good : α → Draft → Prop) :
    Prop :=
  ∀ result after, action before = .ok result after →
    (∃ code, setting.Emitted code before after) ∧ good result after

/-- If it ends well, code is written. -/
abbrev Writes (setting : Setting) (before : Draft) (action : Writing Unit) : Prop :=
  setting.Emits before action fun _ _ => True

namespace Emitted

variable {code first last : Shape} {middle : Draft}

theorem nil (grows : before.Grows after) (length : after.program.length = before.program.length)
    (scopes : after.scopes = before.scopes) : setting.Emitted .nil before after where
  placed := by
    rw [length]
    exact .nil _
  formed := trivial
  level := fun _ => trivial
  refers := fun _ => trivial
  grows := grows
  scopes := scopes

theorem append (early : setting.Emitted first before middle)
    (late : setting.Emitted last middle after) :
    setting.Emitted (first.append last) before after where
  placed := (early.placed.grow early.formed late.grows.program late.grows.pool).append late.placed
  formed := early.formed.append late.formed
  level := fun required => (early.level required).append (late.level required)
  refers := fun small =>
    ((early.refers (late.grows.pool.small small)).grow (setting.within late.grows)).append
      (late.refers small)
  grows := early.grows.trans late.grows
  scopes := late.scopes.trans early.scopes

theorem emit {op : Op} {first second third : Nat} (plain : op.isPlain = true)
    (level : setting.level = true → op.isLevel = true)
    (refers : before.pool.Small →
      Instruction.Refers (setting.referents before) ⟨op, first, second, third⟩)
    (ended : Writing.emit op first second third before = .ok () after) :
    setting.Emitted (.op ⟨op, first, second, third⟩ .nil) before after := by
  obtain ⟨grows, scopes, length, pool, reserved, here⟩ := Writing.emit_ok ended
  have there : setting.referents after = setting.referents before := by
    rw [referents, referents, pool, reserved]
  refine ⟨?_, ⟨plain, trivial⟩, fun required => ⟨level required, trivial⟩, fun small => ?_, grows,
    scopes⟩
  · rw [length]
    exact .op here (.nil _)
  · rw [there]
    exact ⟨refers (pool ▸ small), trivial⟩

end Emitted

namespace Emits

theorem pure {result : α} {good : α → Draft → Prop} (right : good result before) :
    setting.Emits before (Pure.pure result) good := by
  intro other after ended
  obtain ⟨rfl, rfl⟩ := pure_ok.mp ended
  exact ⟨⟨.nil, .nil (.refl _) rfl rfl⟩, right⟩

theorem bind {first : Writing α} {next : α → Writing β} {good : α → Draft → Prop}
    {last : β → Draft → Prop} (early : setting.Emits before first good)
    (late : ∀ value between, before.Grows between → good value between →
      setting.Emits between (next value) last) :
    setting.Emits before (first >>= next) last := by
  intro result after ended
  obtain ⟨value, between, one, two⟩ := bind_ok.mp ended
  obtain ⟨⟨code, written⟩, right⟩ := early value between one
  obtain ⟨⟨more, added⟩, final⟩ := late value between written.grows right result after two
  exact ⟨⟨_, written.append added⟩, final⟩

theorem reject {error : CompileError} {good : α → Draft → Prop} :
    setting.Emits before (Writing.reject error) good :=
  fun _ _ ended => absurd ended Writing.reject_ok

theorem emit {op : Op} {first second third : Nat} (plain : op.isPlain = true)
    (level : setting.level = true → op.isLevel = true)
    (refers : before.pool.Small →
      Instruction.Refers (setting.referents before) ⟨op, first, second, third⟩) :
    setting.Writes before (Writing.emit op first second third) :=
  fun _ _ ended => ⟨⟨_, .emit plain level refers ended⟩, trivial⟩

theorem pooled {add : Pool → α × Pool} (grows : ∀ pool : Pool, pool.Grows (add pool).2)
    {good : α → Draft → Prop}
    (right : good (add before.pool).1 { before with pool := (add before.pool).2 }) :
    setting.Emits before (Writing.pooled add) good := by
  intro result after ended
  obtain ⟨rfl, rfl⟩ := Writing.pooled_ok.mp ended
  have still : before.Grows { before with pool := (add before.pool).2 } :=
    ⟨fun _ _ here _ => here, Nat.le_refl _, grows _, Nat.le_refl _⟩
  exact ⟨⟨.nil, .nil still rfl rfl⟩, right⟩

theorem string (content : String) : setting.Emits before (Writing.string content)
    fun handle draft => (setting.referents draft).HasString handle :=
  pooled (fun pool => pool.intern_grows content) ⟨content, before.pool.intern_string content⟩

theorem strings (contents : List String) : setting.Emits before (Writing.strings contents)
    fun handle draft => (setting.referents draft).HasStrings handle :=
  pooled (fun pool => pool.addStrings_grows contents)
    ⟨Nat.succ_ne_zero _, contents, before.pool.addStrings_stringArray contents⟩

theorem array (items : List Nat) : setting.Emits before (Writing.array items)
    fun handle draft => draft.pool.array handle = .ok items :=
  pooled (fun pool => pool.addArray_grows items) (before.pool.addArray_array items)

/-- The layout of a component runs between the two instructions. -/
theorem component {attrs template inverse : Handle}
    (refers : Instruction.Refers (setting.referents before)
      ⟨.openComponent, attrs, template, inverse⟩) :
    setting.Writes before (do
      Writing.emit .openComponent attrs template inverse
      Writing.emit .closeComponent) := by
  intro result after ended
  obtain ⟨_, middle, opened, ended⟩ := bind_ok.mp ended
  obtain ⟨g1, s1, n1, -, -, opens⟩ := Writing.emit_ok opened
  obtain ⟨g2, s2, n2, -, -, closes⟩ := Writing.emit_ok ended
  rw [n1] at closes
  have grows := g1.trans g2
  refine ⟨⟨.component attrs template inverse .nil, ?_, trivial, fun _ => trivial, fun _ => ?_,
    grows, s2.trans s1⟩, trivial⟩
  · rw [n2, n1]
    exact .component (g2.program _ _ opens nofun) closes (.nil _)
  · exact ⟨refers.grow (setting.within grows), trivial⟩

end Emits

/-! Loops and regions -/

/-- Each placeholder of a loop finds the label it waits for. -/
theorem Emits.loop {body : Writing Unit}
    (writes : ∀ inside after, before.Grows inside → body inside = .ok () after →
      ∃ code : Shape, setting.inner.Emitted code inside after ∧ code.Calls) :
    setting.Writes before (Writing.loop body) := by
  intro result after ended
  obtain ⟨_, d0, opened, ended⟩ := bind_ok.mp ended
  obtain ⟨g0, s0, n0⟩ := Writing.startLabels_ok opened
  obtain ⟨_, d1, listed, ended⟩ := bind_ok.mp ended
  obtain ⟨g1, n1, s1⟩ := Writing.later_ok listed s0
  obtain ⟨_, d2, iterated, ended⟩ := bind_ok.mp ended
  obtain ⟨g2, n2, s2⟩ := Writing.label_ok iterated s1
  obtain ⟨_, d3, advanced, ended⟩ := bind_ok.mp ended
  obtain ⟨g3, n3, s3⟩ := Writing.later_ok advanced s2
  obtain ⟨_, d4, entered, ended⟩ := bind_ok.mp ended
  obtain ⟨g4, n4, s4⟩ := Writing.later_ok entered s3
  obtain ⟨_, d5, begun, ended⟩ := bind_ok.mp ended
  obtain ⟨g5, n5, s5⟩ := Writing.label_ok begun s4
  obtain ⟨_, d6, inside, ended⟩ := bind_ok.mp ended
  have started := ((((g0.trans g1).trans g2).trans g3).trans g4).trans g5
  obtain ⟨code, written, calls⟩ := writes d5 _ started inside
  have s6 := written.scopes.trans s5
  obtain ⟨_, d7, stopped, ended⟩ := bind_ok.mp ended
  obtain ⟨g7, n7, s7⟩ := Writing.label_ok stopped s6
  obtain ⟨_, d8, left, ended⟩ := bind_ok.mp ended
  obtain ⟨g8, s8, n8, -, -, exit⟩ := Writing.emit_ok left
  obtain ⟨_, d9, repeated, ended⟩ := bind_ok.mp ended
  obtain ⟨g9, n9, s9⟩ := Writing.later_ok repeated (s8.trans s7)
  obtain ⟨_, d10, broken, ended⟩ := bind_ok.mp ended
  obtain ⟨g10, n10, s10⟩ := Writing.label_ok broken s9
  obtain ⟨_, d11, closed, ended⟩ := bind_ok.mp ended
  obtain ⟨g11, s11, n11, -, -, exitList⟩ := Writing.emit_ok closed
  obtain ⟨g12, s12, n12, settled⟩ := Writing.stopLabels_ok ended (s11.trans s10) (by
    simp [Pending.op])
  have finished := ((((g7.trans g8).trans g9).trans g10).trans g11).trans g12
  simp only [List.nil_append, List.cons_append, List.forall_mem_cons, Draft.Settles,
    List.lookup_cons, String.reduceBEq, Option.some.injEq, exists_and_left, exists_eq_left', n0, n1, n2,
    n3, n4, n7, n8, n9] at settled
  obtain ⟨⟨list, listSlice, enterList⟩, next, ⟨item, slice, enter⟩, again, -⟩ := settled
  have code_placed := written.placed.grow written.formed finished.program finished.pool
  rw [n5, n4, n3, n2, n1, n0] at code_placed
  have exitHere := (((g9.trans g10).trans g11).trans g12).program _ _ exit (by decide)
  have exitListHere := g12.program _ _ exitList (by decide)
  rw [n7] at exitHere
  rw [n10, n9, n8, n7] at exitListHere
  refine ⟨⟨.loop list item code .nil, ?_, ?_, ?_, ?_, ?_, s12⟩, trivial⟩
  · rw [n12, n11, n10, n9, n8, n7]
    exact .loop enterList listSlice next enter slice code_placed exitHere again exitListHere
      (.nil _)
  · exact ⟨written.formed, calls, trivial⟩
  · exact fun _ => ⟨calls.level, trivial⟩
  · intro small
    refine ⟨?_, trivial⟩
    exact (written.refers (finished.pool.small small)).grow (setting.inner.within finished)
  · exact (started.trans written.grows).trans finished

/-! Regions -/

/-- The body of a region, which begins in a label scope of its own. What it leaves to be filled in
makes code of some shape when the end of the region is where the body ends. -/
def Opens (setting : Setting) (before : Draft) (body : Writing Unit) : Prop :=
  ∀ scope outer after, before.scopes = scope :: outer → body before = .ok () after →
    ∃ pending positions,
      after.scopes = ⟨positions ++ scope.positions, scope.pending ++ pending⟩ :: outer ∧
      before.Grows after ∧ (∀ waiting ∈ pending, waiting.op ≠ .noop) ∧
      positions.lookup "BEGIN" = none ∧
      ∀ final : Draft, after.Grows final →
        (∀ waiting ∈ pending, final.Settles
          (("END", after.program.length) :: (positions ++ scope.positions)) waiting) →
        ∃ code : Shape,
          Shape.Placed final.program final.pool before.program.length code
            after.program.length ∧
          code.Formed ∧ code.Level ∧
          (final.pool.Small → code.Refers (setting.referents final))

namespace Opens

theorem of_writes {body : Writing Unit} (writes : setting.inner.Writes before body) :
    setting.Opens before body := by
  intro scope outer after opened ended
  obtain ⟨⟨code, written⟩, -⟩ := writes _ _ ended
  refine ⟨[], [], ?_, written.grows, by simp, rfl, ?_⟩
  · rw [written.scopes, opened]
    simp
  · intro final grows _
    refine ⟨code, written.placed.grow written.formed grows.program grows.pool, written.formed,
      written.level rfl, fun small => ?_⟩
    exact (written.refers (grows.pool.small small)).grow (setting.within grows)

theorem bind {first : Writing α} {next : α → Writing Unit} {good : α → Draft → Prop}
    (early : setting.inner.Emits before first good)
    (late : ∀ value between, before.Grows between → good value between →
      setting.Opens between (next value)) :
    setting.Opens before (first >>= next) := by
  intro scope outer after opened ended
  obtain ⟨value, between, one, two⟩ := bind_ok.mp ended
  obtain ⟨⟨code, written⟩, right⟩ := early value between one
  obtain ⟨pending, positions, scopes, grows, real, other, fill⟩ :=
    late value between written.grows right _ _ _ (written.scopes.trans opened) two
  refine ⟨pending, positions, scopes, written.grows.trans grows, real, other, ?_⟩
  intro final further settled
  obtain ⟨more, placed, formed, level, refers⟩ := fill final further settled
  have whole := grows.trans further
  refine ⟨code.append more, ?_, written.formed.append formed, (written.level rfl).append level,
    fun small => ?_⟩
  · exact (written.placed.grow written.formed whole.program whole.pool).append placed
  · exact ((written.refers (whole.pool.small small)).grow (setting.within whole)).append
      (refers small)

/-- A jump over the body to the end of the region. -/
theorem skip {kind : Op} {body : Writing Unit} (conditional : kind = .jumpIf ∨ kind = .jumpUnless)
    (writes : ∀ inside, before.Grows inside → setting.inner.Writes inside body) :
    setting.Opens before (do let _ ← Writing.jump kind "END"; body) := by
  intro scope outer after opened ended
  obtain ⟨_, d1, tested, inside⟩ := bind_ok.mp ended
  obtain ⟨g1, n1, s1⟩ := Writing.later_ok tested opened
  obtain ⟨⟨code, written⟩, -⟩ := writes d1 g1 _ _ inside
  refine ⟨[.jump before.program.length kind "END"], [], written.scopes.trans s1,
    g1.trans written.grows, ?_, rfl, ?_⟩
  · rcases conditional with rfl | rfl <;> simp [Pending.op]
  · intro final grows settled
    have test := settled _ List.mem_cons_self
    simp only [Draft.Settles, List.lookup_cons, BEq.rfl, Option.some.injEq, exists_eq_left'] at test
    have placed := written.placed.grow written.formed grows.program grows.pool
    rw [n1] at placed
    refine ⟨.skip kind code .nil, .skip test placed (.nil _), ?_, ?_, fun small => ?_⟩
    · exact ⟨conditional, written.formed, written.level rfl, trivial⟩
    · exact ⟨written.level rfl, trivial⟩
    · exact ⟨(written.refers (grows.pool.small small)).grow (setting.within grows), trivial⟩

/-- Two branches, the second of which ends with the region. -/
theorem choice {truthy falsy : Writing Unit}
    (holds : ∀ inside, before.Grows inside → setting.inner.Writes inside truthy)
    (fails : ∀ inside, before.Grows inside → setting.inner.Writes inside falsy) :
    setting.Opens before (do
      let _ ← Writing.jump .jumpUnless "ELSE"
      truthy
      let _ ← Writing.jump .jump "END"
      Writing.label "ELSE"
      falsy) := by
  intro scope outer after opened ended
  obtain ⟨_, d1, tested, ended⟩ := bind_ok.mp ended
  obtain ⟨g1, n1, s1⟩ := Writing.later_ok tested opened
  obtain ⟨_, d2, one, ended⟩ := bind_ok.mp ended
  obtain ⟨⟨yes, first⟩, -⟩ := holds d1 g1 _ _ one
  have s2 := first.scopes.trans s1
  obtain ⟨_, d3, left, ended⟩ := bind_ok.mp ended
  obtain ⟨g3, n3, s3⟩ := Writing.later_ok left s2
  obtain ⟨_, d4, labelled, two⟩ := bind_ok.mp ended
  obtain ⟨g4, n4, s4⟩ := Writing.label_ok labelled s3
  have between := ((g1.trans first.grows).trans g3).trans g4
  obtain ⟨⟨no, second⟩, -⟩ := fails d4 between _ _ two
  refine ⟨[.jump before.program.length .jumpUnless "ELSE", .jump d2.program.length .jump "END"],
    [("ELSE", d3.program.length)], ?_, between.trans second.grows, ?_, rfl, ?_⟩
  · rw [second.scopes, s4]
    simp
  · simp [Pending.op]
  · intro final grows settled
    simp only [List.forall_mem_cons, Draft.Settles, List.lookup_cons, BEq.rfl, String.reduceBEq,
      List.cons_append, Option.some.injEq, exists_eq_left', n3] at settled
    obtain ⟨test, leave, -⟩ := settled
    have later := ((g3.trans g4).trans second.grows).trans grows
    have placedYes := first.placed.grow first.formed later.program later.pool
    have placedNo := second.placed.grow second.formed grows.program grows.pool
    rw [n1] at placedYes
    rw [n4, n3] at placedNo
    refine ⟨.choice yes no .nil, .choice test placedYes leave placedNo (.nil _), ?_, ?_,
      fun small => ?_⟩
    · exact ⟨⟨first.formed, first.level rfl⟩, ⟨second.formed, second.level rfl⟩, trivial⟩
    · exact ⟨first.level rfl, second.level rfl, trivial⟩
    · exact ⟨(first.refers (later.pool.small small)).grow (setting.within later),
        (second.refers (grows.pool.small small)).grow (setting.within grows), trivial⟩

end Opens

theorem Emits.region {body : Writing Unit}
    (opens : ∀ inside, before.Grows inside → setting.Opens inside body) :
    setting.Writes before (Writing.region body) := by
  intro result after ended
  obtain ⟨_, d0, opened, ended⟩ := bind_ok.mp ended
  obtain ⟨g0, s0, n0⟩ := Writing.startLabels_ok opened
  obtain ⟨_, d1, ranged, ended⟩ := bind_ok.mp ended
  obtain ⟨g1, n1, s1⟩ := Writing.later_ok ranged s0
  obtain ⟨_, d2, begun, ended⟩ := bind_ok.mp ended
  obtain ⟨g2, n2, s2⟩ := Writing.label_ok begun s1
  obtain ⟨_, d3, inside, ended⟩ := bind_ok.mp ended
  have started := (g0.trans g1).trans g2
  obtain ⟨pending, positions, s3, g3, real, other, fill⟩ := opens d2 started _ _ _ s2 inside
  obtain ⟨_, d4, stopped, ended⟩ := bind_ok.mp ended
  obtain ⟨g4, n4, s4⟩ := Writing.label_ok stopped s3
  obtain ⟨_, d5, left, ended⟩ := bind_ok.mp ended
  obtain ⟨g5, s5, n5, -, -, exit⟩ := Writing.emit_ok left
  have every : ∀ waiting ∈ Pending.range d0.program.length .enter "BEGIN" "END" :: pending,
      waiting.op ≠ .noop := by
    intro waiting member
    rcases List.mem_cons.mp member with rfl | member
    · exact (by decide : Op.enter ≠ .noop)
    · exact real waiting member
  obtain ⟨g6, s6, n6, settled⟩ := Writing.stopLabels_ok ended (s5.trans s4) every
  have finished := (g4.trans g5).trans g6
  obtain ⟨code, placed, formed, level, refers⟩ := fill after finished fun waiting member =>
    settled waiting (List.mem_cons_of_mem _ member)
  have enters := settled _ List.mem_cons_self
  simp only [Draft.Settles, List.lookup_cons, String.reduceBEq, List.lookup_append, other,
    Option.none_or, Option.some.injEq, exists_and_left, exists_eq_left', n0, n1] at enters
  obtain ⟨handle, slice, enter⟩ := enters
  have exitHere := g6.program _ _ exit (by decide)
  rw [n4] at exitHere
  rw [n2, n1, n0] at placed
  refine ⟨⟨.region handle code .nil, ?_, ⟨formed, level, trivial⟩, fun _ => ⟨level, trivial⟩,
    fun small => ⟨refers small, trivial⟩, (started.trans g3).trans finished, s6⟩, trivial⟩
  rw [n6, n5, n4]
  exact .region enter slice placed exitHere (.nil _)

end Setting

end LiveTemplate
