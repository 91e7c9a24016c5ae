import LiveTemplate.Proofs.Meaning.Elements

/-!
Where the instructions of regions, branches and loops stand. Their jumps are known when the label
scopes that they belong to have ended.
-/

namespace LiveTemplate

open Effects

/-- Code at `place` that shows the block, if there is one, and goes on at `leave`. -/
def Program.Branch (program : Program) (block : Option Handle) (place leave : Nat) : Prop :=
  match block with
  | none => place = leave
  | some handle => place + 1 ≤ leave ∧
      program.instructions[place]? = some { op := .evaluate, first := handle } ∧
      (place + 1 = leave ∨
        program.instructions[place + 1]? = some { op := .jump, first := leave })

/-- A region from `start` to `leave`. -/
structure Program.Region (program : Program) (start leave : Nat) : Prop where
  enter : ∃ handle, program.instructions[start]? = some { op := .enter, first := handle }
  exit : program.instructions[leave]? = some { op := .exit }

theorem Program.Region.keep {before after : Program} {start leave : Nat}
    (region : before.Region start leave) (keeps : before.Keeps after) :
    after.Region start leave := by
  obtain ⟨⟨handle, enter⟩, exit⟩ := region
  exact ⟨⟨handle, keeps _ _ enter nofun⟩, keeps _ _ exit nofun⟩

namespace Writing

variable {before after : Draft} {body : Writing Unit}

/-- The label scope in which the body of a region starts. -/
def regionScope (start : Nat) : LabelScope where
  positions := [("BEGIN", start + 1)]
  pending := [.range start .enter "BEGIN" "END"]

theorem region_ok (ended : region body before = .ok () after) :
    ∃ inside finished, before.Grows inside ∧
      inside.program.length = before.program.length + 1 ∧
      inside.scopes = regionScope before.program.length :: before.scopes ∧
      body inside = .ok () finished ∧
      ∀ positions pending,
        finished.scopes = ⟨positions, .range before.program.length .enter "BEGIN" "END" :: pending⟩ ::
          before.scopes →
        (∀ waiting ∈ pending, waiting.op ≠ .noop) →
        finished.Grows after ∧ after.scopes = before.scopes ∧
          after.program.length = finished.program.length + 1 ∧
          after.program.Region before.program.length finished.program.length ∧
          ∀ waiting ∈ pending,
            after.Settles (("END", finished.program.length) :: positions) waiting := by
  obtain ⟨_, d0, opened, ended⟩ := bind_ok.mp ended
  obtain ⟨g0, s0, n0⟩ := startLabels_ok opened
  obtain ⟨_, d1, ranged, ended⟩ := bind_ok.mp ended
  obtain ⟨g1, n1, s1⟩ := later_ok ranged s0
  obtain ⟨_, d2, begun, ended⟩ := bind_ok.mp ended
  obtain ⟨g2, n2, s2⟩ := label_ok begun s1
  obtain ⟨_, d3, inside, ended⟩ := bind_ok.mp ended
  refine ⟨d2, d3, (g0.trans g1).trans g2, ?_, ?_, inside, fun positions pending scopes real => ?_⟩
  · omega
  · rw [s2, n1, n0]
    rfl
  obtain ⟨_, d4, stopped, ended⟩ := bind_ok.mp ended
  obtain ⟨g4, n4, s4⟩ := label_ok stopped scopes
  obtain ⟨_, d5, left, ended⟩ := bind_ok.mp ended
  obtain ⟨g5, s5, n5, -, -, exit⟩ := emit_ok left
  have every : ∀ waiting ∈ Pending.range before.program.length .enter "BEGIN" "END" :: pending,
      waiting.op ≠ .noop := by
    intro waiting member
    rcases List.mem_cons.mp member with rfl | member
    · exact (by decide : Op.enter ≠ .noop)
    · exact real waiting member
  obtain ⟨g6, s6, n6, settled⟩ := stopLabels_ok ended (s5.trans s4) every
  obtain ⟨first, last, handle, -, -, -, enter⟩ := settled _ List.mem_cons_self
  have exitHere := g6.program _ _ exit (by decide)
  rw [n4] at exitHere
  refine ⟨(g4.trans g5).trans g6, s6, by omega, ⟨⟨handle, enter⟩, exitHere⟩, ?_⟩
  exact fun waiting member => settled waiting (List.mem_cons_of_mem _ member)

variable {scope : LabelScope} {outer : List LabelScope}

/-- A jump over the rest of a region. -/
theorem skip_ok {kind : Op} {first : Writing Unit} (opened : before.scopes = scope :: outer)
    (keeps : ∀ inside finished, first inside = .ok () finished → finished.scopes = inside.scopes)
    (ended : (do let _ ← jump kind "END"; first) before = .ok () after) :
    ∃ inside, before.Grows inside ∧ inside.program.length = before.program.length + 1 ∧
      first inside = .ok () after ∧
      after.scopes = { scope with
        pending := scope.pending ++ [.jump before.program.length kind "END"] } :: outer := by
  obtain ⟨_, inside, tested, ended⟩ := bind_ok.mp ended
  obtain ⟨grows, length, scopes⟩ := later_ok tested opened
  exact ⟨inside, grows, length, ended, (keeps inside after ended).trans scopes⟩

/-- Two branches, the second of which ends with the region. -/
theorem choice_ok {first second : Writing Unit} (opened : before.scopes = scope :: outer)
    (keeps : ∀ inside finished, first inside = .ok () finished → finished.scopes = inside.scopes)
    (keepsToo : ∀ inside finished, second inside = .ok () finished →
      finished.scopes = inside.scopes)
    (ended : (do
      let _ ← jump .jumpUnless "ELSE"
      first
      let _ ← jump .jump "END"
      label "ELSE"
      second) before = .ok () after) :
    ∃ inside left other, inside.program.length = before.program.length + 1 ∧
      before.Grows inside ∧ first inside = .ok () left ∧ left.Grows other ∧
      other.program.length = left.program.length + 1 ∧ second other = .ok () after ∧
      after.scopes = {
        positions := ("ELSE", other.program.length) :: scope.positions
        pending := scope.pending ++ [.jump before.program.length .jumpUnless "ELSE",
          .jump left.program.length .jump "END"] } :: outer := by
  obtain ⟨_, inside, tested, ended⟩ := bind_ok.mp ended
  obtain ⟨grows, length, scopes⟩ := later_ok tested opened
  obtain ⟨_, left, one, ended⟩ := bind_ok.mp ended
  have still := (keeps inside left one).trans scopes
  obtain ⟨_, jumped, leave, ended⟩ := bind_ok.mp ended
  obtain ⟨grows', length', scopes'⟩ := later_ok leave still
  obtain ⟨_, other, labelled, two⟩ := bind_ok.mp ended
  obtain ⟨grows'', length'', scopes''⟩ := label_ok labelled scopes'
  refine ⟨inside, left, other, length, grows, one, grows'.trans grows'', by omega, two, ?_⟩
  rw [keepsToo other after two, scopes'', length'']
  simp

theorem emit_scopes {op : Op} {first : Nat} : ∀ inside finished : Draft,
    emit op first 0 0 inside = .ok () finished → finished.scopes = inside.scopes :=
  fun _ _ ended => (emit_ok ended).2.1

end Writing

/-- Code that shows one block or the other from `place` up to `leave`. -/
def Program.Choice (program : Program) (truthy falsy : Option Handle) (place leave : Nat) : Prop :=
  (truthy.isNone && falsy.isNone) = true ∧ place = leave ∨
  (truthy.isNone && falsy.isNone) = false ∧ place < leave ∧ ∃ other,
    program.instructions[place]? = some { op := .jumpUnless, first := other } ∧
        program.Branch truthy (place + 1) leave ∧ program.Branch falsy other leave ∨
      program.instructions[place]? = some { op := .jumpIf, first := other } ∧
        program.Branch falsy (place + 1) leave ∧ program.Branch truthy other leave

/-- A loop from `start`, whose items end at `leave`. -/
structure Program.Loop (program : Program) (item : Option Handle) (start leave : Nat) : Prop where
  enterList : ∃ handle, program.instructions[start]? = some { op := .enterList, first := handle }
  next : program.instructions[start + 1]? = some { op := .nextIter, first := leave + 2 }
  enter : ∃ handle,
    program.instructions[start + 2]? = some { op := .enterWithKey, first := handle }
  body : program.Branch item (start + 3) leave
  exit : program.instructions[leave]? = some { op := .exit }
  again : program.instructions[leave + 1]? = some { op := .jump, first := start + 1 }
  exitList : program.instructions[leave + 2]? = some { op := .exitList }

theorem Program.Branch.keep {before after : Program} {block : Option Handle} {place leave : Nat}
    (branch : before.Branch block place leave) (keeps : before.Keeps after) :
    after.Branch block place leave := by
  cases block with
  | none => exact branch
  | some handle =>
    obtain ⟨bound, here, goesOn⟩ := branch
    exact ⟨bound, keeps _ _ here nofun, goesOn.imp_right (keeps _ _ · nofun)⟩

theorem Program.Choice.keep {before after : Program} {truthy falsy : Option Handle}
    {place leave : Nat} (choice : before.Choice truthy falsy place leave)
    (keeps : before.Keeps after) : after.Choice truthy falsy place leave := by
  rcases choice with none | ⟨some, ordered, other, choice⟩
  · exact .inl none
  · refine .inr ⟨some, ordered, other, ?_⟩
    rcases choice with ⟨jump, onTrue, onFalse⟩ | ⟨jump, onFalse, onTrue⟩
    · exact .inl ⟨keeps _ _ jump nofun, onTrue.keep keeps, onFalse.keep keeps⟩
    · exact .inr ⟨keeps _ _ jump nofun, onFalse.keep keeps, onTrue.keep keeps⟩

theorem Program.Choice.le {program : Program} {truthy falsy : Option Handle} {place leave : Nat}
    (choice : program.Choice truthy falsy place leave) : place ≤ leave := by
  rcases choice with ⟨-, same⟩ | ⟨-, ordered, -⟩
  · exact Nat.le_of_eq same
  · exact Nat.le_of_lt ordered

theorem Program.Branch.le {program : Program} {block : Option Handle} {place leave : Nat}
    (branch : program.Branch block place leave) : place ≤ leave := by
  cases block with
  | none => exact Nat.le_of_eq branch
  | some handle => exact Nat.le_trans (Nat.le_succ _) branch.1

theorem Program.Loop.keep {before after : Program} {item : Option Handle} {start leave : Nat}
    (loop : before.Loop item start leave) (keeps : before.Keeps after) :
    after.Loop item start leave := by
  obtain ⟨⟨list, enterList⟩, next, ⟨key, enter⟩, body, exit, again, exitList⟩ := loop
  exact ⟨⟨list, keeps _ _ enterList nofun⟩, keeps _ _ next nofun, ⟨key, keeps _ _ enter nofun⟩,
    body.keep keeps, keeps _ _ exit nofun, keeps _ _ again nofun, keeps _ _ exitList nofun⟩

/-- Code that goes through a list, or shows `empty`, from `place` up to `leave`. -/
def Program.Walk (program : Program) (item empty : Option Handle) (place leave : Nat) : Prop :=
  ∃ other last, program.instructions[place]? = some { op := .jumpUnless, first := other } ∧
    program.Loop item (place + 1) last ∧ last + 3 ≤ leave ∧
    (last + 3 = leave ∨ program.instructions[last + 3]? = some { op := .jump, first := leave }) ∧
    program.Branch empty other leave

theorem Program.Walk.keep {before after : Program} {item empty : Option Handle}
    {place leave : Nat} (walk : before.Walk item empty place leave) (keeps : before.Keeps after) :
    after.Walk item empty place leave := by
  obtain ⟨other, last, jump, loop, bound, goesOn, branch⟩ := walk
  exact ⟨other, last, keeps _ _ jump nofun, loop.keep keeps, bound,
    goesOn.imp_right (keeps _ _ · nofun), branch.keep keeps⟩

theorem Program.Walk.le {program : Program} {item empty : Option Handle} {place leave : Nat}
    (walk : program.Walk item empty place leave) : place ≤ leave := by
  obtain ⟨other, last, -, loop, bound, -, -⟩ := walk
  have ordered := loop.body.le
  omega

namespace Code

open Writing

variable {place : Place} {before after : Draft}

/-- Where the code of a conditional stands. -/
theorem conditional_ok {name : String} {params : List Expression} {named : Named}
    {truthy falsy : Option Handle}
    (ended : conditional place name params named truthy falsy before = .ok () after) :
    ∃ param handle asked pooled tested leave, params = [param] ∧
      arguments place .putArgs params named before = .ok () asked ∧
      asked.Grows pooled ∧ pooled.program.length = asked.program.length ∧
      pooled.pool.function handle =
        .ok (if param.isLiteral = true then .const else .environment) ∧
      emit .test handle 0 0 pooled = .ok () tested ∧
      tested.Grows after ∧ after.program.length = leave + 1 ∧
      after.program.Region tested.program.length leave ∧
      after.program.Choice truthy falsy (tested.program.length + 1) leave := by
  unfold conditional at ended
  obtain ⟨param, same, only, ended⟩ := bind_ok.mp ended
  obtain ⟨rfl, rfl⟩ := onlyParam_ok only
  obtain ⟨_, asked, given, ended⟩ := bind_ok.mp ended
  obtain ⟨handle, pooled, added, ended⟩ := bind_ok.mp ended
  obtain ⟨grown, -, program, found⟩ := pooled_there added fun pool => pool.addFunction_grows _
  obtain ⟨_, tested, test, ended⟩ := bind_ok.mp ended
  have kind : asked.pool.addFunction (if param.isLiteral = true then .const else .environment) =
      (handle, pooled.pool) := by
    cases param <;> exact found
  have there := asked.pool.addFunction_function
    (if param.isLiteral = true then .const else .environment)
  rw [kind] at there
  obtain ⟨inside, finished, grows, length, opened, shown, fill⟩ := region_ok ended
  refine ⟨param, handle, asked, pooled, tested, finished.program.length, rfl, given, grown,
    congrArg Program.length program, there, test, ?_⟩
  cases truthy with
  | none =>
    cases falsy with
    | none =>
      obtain ⟨-, rfl⟩ := pure_ok.mp shown
      obtain ⟨further, -, last, region, -⟩ := fill _ [] opened (by simp)
      exact ⟨grows.trans further, last, region, .inl ⟨rfl, length.symm⟩⟩
    | some falsy =>
      obtain ⟨d1, g1, n1, evaluated, scopes⟩ := skip_ok opened emit_scopes shown
      obtain ⟨g2, -, n2, -, -, here⟩ := emit_ok evaluated
      obtain ⟨g3, -, last, region, settled⟩ := fill _ _ scopes (by simp [Pending.op])
      have jump := settled _ List.mem_cons_self
      simp only [Draft.Settles, List.lookup_cons, BEq.rfl, Option.some.injEq,
        exists_eq_left'] at jump
      have evaluate := g3.program _ _ here (by simp)
      rw [length] at jump
      rw [n1, length] at evaluate
      refine ⟨((grows.trans g1).trans g2).trans g3, last, region, .inr ⟨rfl, by omega, _,
        .inr ⟨jump, ⟨by omega, evaluate, .inl (by omega)⟩, rfl⟩⟩⟩
  | some truthy =>
    cases falsy with
    | none =>
      obtain ⟨d1, g1, n1, evaluated, scopes⟩ := skip_ok opened emit_scopes shown
      obtain ⟨g2, -, n2, -, -, here⟩ := emit_ok evaluated
      obtain ⟨g3, -, last, region, settled⟩ := fill _ _ scopes (by simp [Pending.op])
      have jump := settled _ List.mem_cons_self
      simp only [Draft.Settles, List.lookup_cons, BEq.rfl, Option.some.injEq,
        exists_eq_left'] at jump
      have evaluate := g3.program _ _ here (by simp)
      rw [length] at jump
      rw [n1, length] at evaluate
      refine ⟨((grows.trans g1).trans g2).trans g3, last, region, .inr ⟨rfl, by omega, _,
        .inl ⟨jump, ⟨by omega, evaluate, .inl (by omega)⟩, rfl⟩⟩⟩
    | some falsy =>
      obtain ⟨d1, d2, d3, n1, g1, first, g3, n3, second, scopes⟩ :=
        choice_ok opened emit_scopes emit_scopes shown
      obtain ⟨g2, -, n2, -, -, here⟩ := emit_ok first
      obtain ⟨g4, -, n4, -, -, there⟩ := emit_ok second
      obtain ⟨g5, -, last, region, settled⟩ := fill _ _ scopes (by simp [Pending.op])
      have test := settled _ List.mem_cons_self
      have leave := settled _ (List.mem_cons_of_mem _ List.mem_cons_self)
      simp only [Draft.Settles, List.lookup_cons, BEq.rfl, String.reduceBEq, Option.some.injEq,
        exists_eq_left'] at test leave
      have truthyHere := ((g3.trans g4).trans g5).program _ _ here (by simp)
      have falsyHere := g5.program _ _ there (by simp)
      rw [length] at test
      rw [n1, length] at truthyHere
      rw [n2, n1, length] at leave
      refine ⟨((((grows.trans g1).trans g2).trans g3).trans g4).trans g5, last, region,
        .inr ⟨rfl, by omega, _, .inl ⟨test, ⟨by omega, truthyHere, .inr leave⟩,
          ⟨by omega, falsyHere, .inl (by omega)⟩⟩⟩⟩

/-- A block is shown by one instruction, and no block by none. -/
theorem evaluate_branch {block : Option Handle} (ended : evaluate block before = .ok () after) :
    before.Grows after ∧ after.scopes = before.scopes ∧
      after.program.Branch block before.program.length after.program.length := by
  cases block with
  | none =>
    obtain ⟨-, rfl⟩ := pure_ok.mp ended
    exact ⟨.refl _, rfl, rfl⟩
  | some handle =>
    obtain ⟨grows, scopes, length, -, -, here⟩ := emit_ok ended
    exact ⟨grows, scopes, Nat.le_of_eq length.symm, here, .inl length.symm⟩

/-- Where the code of a loop stands. -/
theorem loop_ok {item : Option Handle} (ended : loop (evaluate item) before = .ok () after) :
    ∃ leave, before.Grows after ∧ after.scopes = before.scopes ∧
      after.program.length = leave + 3 ∧
      after.program.Loop item before.program.length leave := by
  obtain ⟨_, d0, opened, ended⟩ := bind_ok.mp ended
  obtain ⟨g0, s0, n0⟩ := startLabels_ok opened
  obtain ⟨_, d1, listed, ended⟩ := bind_ok.mp ended
  obtain ⟨g1, n1, s1⟩ := later_ok listed s0
  obtain ⟨_, d2, iter, ended⟩ := bind_ok.mp ended
  obtain ⟨g2, n2, s2⟩ := label_ok iter s1
  obtain ⟨_, d3, next, ended⟩ := bind_ok.mp ended
  obtain ⟨g3, n3, s3⟩ := later_ok next s2
  obtain ⟨_, d4, entered, ended⟩ := bind_ok.mp ended
  obtain ⟨g4, n4, s4⟩ := later_ok entered s3
  obtain ⟨_, d5, begun, ended⟩ := bind_ok.mp ended
  obtain ⟨g5, n5, s5⟩ := label_ok begun s4
  obtain ⟨_, d6, inside, ended⟩ := bind_ok.mp ended
  obtain ⟨g6, s6, branch⟩ := evaluate_branch inside
  obtain ⟨_, d7, stopped, ended⟩ := bind_ok.mp ended
  obtain ⟨g7, n7, s7⟩ := label_ok stopped (s6.trans s5)
  obtain ⟨_, d8, left, ended⟩ := bind_ok.mp ended
  obtain ⟨g8, s8, n8, -, -, exit⟩ := emit_ok left
  obtain ⟨_, d9, again, ended⟩ := bind_ok.mp ended
  obtain ⟨g9, n9, s9⟩ := later_ok again (s8.trans s7)
  obtain ⟨_, d10, broken, ended⟩ := bind_ok.mp ended
  obtain ⟨g10, n10, s10⟩ := label_ok broken s9
  obtain ⟨_, d11, listLeft, ended⟩ := bind_ok.mp ended
  obtain ⟨g11, s11, n11, -, -, exitList⟩ := emit_ok listLeft
  obtain ⟨g12, s12, n12, settled⟩ := stopLabels_ok ended (s11.trans s10) (by simp [Pending.op])
  simp only [List.nil_append, List.cons_append, List.forall_mem_cons, Draft.Settles,
    List.lookup_cons, BEq.rfl, String.reduceBEq, Option.some.injEq, exists_eq_left',
    exists_and_left] at settled
  obtain ⟨⟨list, -, enterList⟩, nextHere, ⟨key, -, enter⟩, againHere, -⟩ := settled
  have late := ((g9.trans g10).trans g11).trans g12
  have later := (g7.trans g8).trans late
  have earlier := ((((g0.trans g1).trans g2).trans g3).trans g4).trans g5
  refine ⟨d6.program.length, (earlier.trans g6).trans later, s12, by omega, ?_⟩
  have m1 : d1.program.length = before.program.length + 1 := by omega
  have m2 : d2.program.length = before.program.length + 1 := by omega
  have m3 : d3.program.length = before.program.length + 2 := by omega
  have m5 : d5.program.length = before.program.length + 3 := by omega
  have m8 : d8.program.length = d6.program.length + 1 := by omega
  have m9 : d9.program.length = d6.program.length + 2 := by omega
  have m10 : d10.program.length = d6.program.length + 2 := by omega
  have exitHere := late.program _ _ exit (by simp)
  have exitListHere := g12.program _ _ exitList (by simp)
  have bodyHere := branch.keep later.program
  rw [n0] at enterList
  rw [m2, m9] at nextHere
  rw [m3] at enter
  rw [m5] at bodyHere
  rw [n7] at exitHere
  rw [m8, m1] at againHere
  rw [m10] at exitListHere
  exact ⟨⟨list, enterList⟩, nextHere, ⟨key, enter⟩, bodyHere, exitHere, againHere, exitListHere⟩

theorem loop_scopes {item : Option Handle} : ∀ inside finished : Draft,
    loop (evaluate item) inside = .ok () finished → finished.scopes = inside.scopes := by
  intro inside finished ended
  obtain ⟨leave, -, scopes, -⟩ := loop_ok ended
  exact scopes

/-- Where the code of an `each` stands. -/
theorem each_ok {params : List Expression} {named : Named} {item empty : Option Handle}
    (keeps : ∀ inside asked, arguments place .putArgs params named inside = .ok () asked →
      asked.scopes = inside.scopes)
    (ended : each place params named item empty before = .ok () after) :
    ∃ source inside asked put leave, params = [source] ∧
      inside.program.length = before.program.length + 1 ∧
      arguments place .putArgs params named inside = .ok () asked ∧
      emit .putIterator 0 0 0 asked = .ok () put ∧ put.Grows after ∧
      after.program.length = leave + 1 ∧
      after.program.Region before.program.length leave ∧
      after.program.Walk item empty put.program.length leave := by
  obtain ⟨source, same, only, ended⟩ := bind_ok.mp ended
  obtain ⟨rfl, rfl⟩ := onlyParam_ok only
  obtain ⟨inside, finished, -, length, opened, shown, fill⟩ := region_ok ended
  obtain ⟨_, asked, given, shown⟩ := bind_ok.mp shown
  obtain ⟨_, put, iterates, shown⟩ := bind_ok.mp shown
  have opened := ((emit_ok iterates).2.1.trans (keeps inside asked given)).trans opened
  refine ⟨source, inside, asked, put, finished.program.length, rfl, length, given, iterates, ?_⟩
  cases empty with
  | none =>
    have keepsToo : ∀ inside finished : Draft,
        (loop (evaluate item) >>= fun _ => pure ()) inside = .ok () finished →
          finished.scopes = inside.scopes := by
      rw [bind_pure_unit]
      exact loop_scopes
    obtain ⟨d1, g1, n1, looped, scopes⟩ := skip_ok opened keepsToo shown
    rw [bind_pure_unit] at looped
    obtain ⟨mid, g2, -, n2, loop⟩ := loop_ok looped
    obtain ⟨g3, -, last, region, settled⟩ := fill _ _ scopes (by simp [Pending.op])
    have jump := settled _ List.mem_cons_self
    simp only [Draft.Settles, List.lookup_cons, BEq.rfl, Option.some.injEq, exists_eq_left'] at jump
    have loop := loop.keep g3.program
    rw [n1] at loop
    exact ⟨(g1.trans g2).trans g3, last, region, _, mid, jump, loop, by omega, .inl (by omega), rfl⟩
  | some empty =>
    obtain ⟨d1, d2, d3, n1, g1, first, g3, n3, second, scopes⟩ :=
      choice_ok opened loop_scopes emit_scopes shown
    obtain ⟨mid, g2, -, n2, loop⟩ := loop_ok first
    obtain ⟨g4, -, n4, -, -, there⟩ := emit_ok second
    obtain ⟨g5, -, last, region, settled⟩ := fill _ _ scopes (by simp [Pending.op])
    have test := settled _ List.mem_cons_self
    have leave := settled _ (List.mem_cons_of_mem _ List.mem_cons_self)
    simp only [Draft.Settles, List.lookup_cons, BEq.rfl, String.reduceBEq, Option.some.injEq,
      exists_eq_left'] at test leave
    have later := (g3.trans g4).trans g5
    have loop := loop.keep later.program
    have emptyHere := g5.program _ _ there (by simp)
    rw [n1] at loop
    rw [n2] at leave
    refine ⟨(g1.trans g2).trans later, last, region, _, mid, test, loop, by omega, .inr leave, ?_⟩
    exact ⟨by omega, emptyHere, .inl (by omega)⟩

end Code

end LiveTemplate
