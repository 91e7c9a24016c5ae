import Mathlib.Algebra.Group.Nat.Defs
import Mathlib.Data.List.Nodup
import LiveTemplate.Proofs.Program.Drafts

/-!
Labels and their scopes. Steps that start and end label scopes, give positions to labels, write
placeholders and push instructions are taken in any order. When the innermost scope ends, its
placeholders become instructions with the last positions that its labels were given in it, and
nothing else that was written changes.
-/

namespace LiveTemplate

open Effects

theorem Program.getElem?_push_of_lt (program : Program) (instruction : Instruction) {place : Nat}
    {old : Instruction} (there : program.instructions[place]? = some old) :
    (program.push instruction).instructions[place]? = some old := by
  have bound := (Array.getElem?_eq_some_iff.mp there).1
  rw [Program.push, Array.getElem?_push_lt bound, ← there, Array.getElem?_eq_getElem bound]

def Pending.place : Pending → Nat
  | .jump place _ _ | .range place _ _ _ => place

/-- The labels that a placeholder waits for. -/
def Pending.labels : Pending → List Label
  | .jump _ _ target => [target]
  | .range _ _ start stop => [start, stop]

def Pending.isRange : Pending → Bool
  | .jump .. => false
  | .range .. => true

namespace LabelScope

/-- Every label that is waited for has a position. -/
def Complete (scope : LabelScope) : Prop :=
  ∀ waiting ∈ scope.pending, ∀ name ∈ waiting.labels, (scope.positions.lookup name).isSome

/-- No range ends before it starts. -/
def Ordered (scope : LabelScope) : Prop :=
  ∀ place op start stop, .range place op start stop ∈ scope.pending → ∀ first last,
    scope.positions.lookup start = some first → scope.positions.lookup stop = some last →
      first ≤ last

end LabelScope

namespace Draft

/-- An instruction stands at a place, whatever stood there before. -/
def fill (draft : Draft) (place : Nat) (instruction : Instruction) : Draft :=
  { draft with program := ⟨draft.program.instructions.setIfInBounds place instruction⟩ }

/-- What a placeholder becomes once its labels have these positions. -/
def settled (positions : List (Label × Nat)) (draft : Draft) : Pending → Draft
  | .jump place op target =>
      draft.fill place { op, first := (positions.lookup target).getD 0 }
  | .range place op start stop =>
      { draft with pool := (draft.pool.addSlice
          ⟨(positions.lookup start).getD 0, (positions.lookup stop).getD 0⟩).2 }.fill place
        { op, first := draft.pool.slices.size + 1 }

/-- A placeholder stands at the place. -/
def Blank (draft : Draft) (place : Nat) : Prop :=
  draft.program.instructions[place]? = some .placeholder

variable {draft : Draft}

theorem getElem?_fill_self {place : Nat} (blank : draft.Blank place) (instruction : Instruction) :
    (draft.fill place instruction).program.instructions[place]? = some instruction := by
  have bound := (Array.getElem?_eq_some_iff.mp blank).1
  simp [fill, bound]

theorem getElem?_fill_of_ne {place other : Nat} (apart : place ≠ other)
    (instruction : Instruction) : (draft.fill place instruction).program.instructions[other]? =
      draft.program.instructions[other]? := by
  simp [fill, apart]

theorem getElem?_settled_of_ne {positions : List (Label × Nat)} {waiting : Pending} {place : Nat}
    (apart : waiting.place ≠ place) : (draft.settled positions waiting).program.instructions[place]? =
      draft.program.instructions[place]? := by
  cases waiting with
  | jump => exact getElem?_fill_of_ne apart _
  | range => exact getElem?_fill_of_ne apart _

/-- All placeholders of a scope, one after another. -/
def settledAll (draft : Draft) (positions : List (Label × Nat)) (pending : List Pending) : Draft :=
  pending.foldl (settled positions) draft

theorem getElem?_settledAll (draft : Draft) {positions : List (Label × Nat)}
    (pending : List Pending) {place : Nat}
    (apart : ∀ waiting ∈ pending, waiting.place ≠ place) :
    (draft.settledAll positions pending).program.instructions[place]? =
      draft.program.instructions[place]? := by
  induction pending generalizing draft with
  | nil => rfl
  | cons first rest ih =>
    have later := ih (draft.settled positions first)
      fun waiting member => apart waiting (List.mem_cons_of_mem _ member)
    exact later.trans (getElem?_settled_of_ne (apart first List.mem_cons_self))

end Draft

namespace Writing

variable {before after : Draft} {scope : LabelScope}

theorem patch_blank {place : Nat} (blank : before.Blank place) (instruction : Instruction) :
    patch place instruction before = .ok () (before.fill place instruction) := by
  have patched : before.program.patch place instruction =
      .ok ⟨before.program.instructions.setIfInBounds place instruction⟩ := by
    unfold Program.patch Program.fetch
    rw [blank]
    rfl
  refine bind_ok.mpr ⟨before, before, get_ok.mpr ⟨rfl, rfl⟩, ?_⟩
  exact bind_ok.mpr ⟨_, before, sound_ok.mpr ⟨patched, rfl⟩, modify_ok.mpr rfl⟩

theorem resolve_known {name : Label} {place : Nat}
    (known : scope.positions.lookup name = some place) :
    resolve scope name before = .ok place before := by
  unfold resolve
  rw [known]
  rfl

theorem resolve_unknown {name : Label} (unknown : scope.positions.lookup name = none) :
    resolve scope name before = .error (.rejected (.undefinedLabel name)) before := by
  unfold resolve
  rw [unknown]
  rfl

/-- A placeholder whose labels have positions is filled in. -/
theorem settle_known {waiting : Pending} (blank : before.Blank waiting.place)
    (known : ∀ name ∈ waiting.labels, (scope.positions.lookup name).isSome)
    (ordered : ∀ place op start stop, waiting = .range place op start stop → ∀ first last,
      scope.positions.lookup start = some first → scope.positions.lookup stop = some last →
        first ≤ last) :
    settle scope waiting before = .ok () (before.settled scope.positions waiting) := by
  cases waiting with
  | jump place op target =>
    obtain ⟨position, found⟩ := Option.isSome_iff_exists.mp (known target List.mem_cons_self)
    refine bind_ok.mpr ⟨position, before, resolve_known found, ?_⟩
    rw [Draft.settled, found]
    exact patch_blank blank _
  | range place op start stop =>
    obtain ⟨first, begins⟩ := Option.isSome_iff_exists.mp (known start List.mem_cons_self)
    obtain ⟨last, ends⟩ := Option.isSome_iff_exists.mp
      (known stop (List.mem_cons_of_mem _ List.mem_cons_self))
    have made : Slice.make first last = .ok ⟨first, last⟩ :=
      if_pos (ordered place op start stop rfl first last begins ends)
    refine bind_ok.mpr ⟨first, before, resolve_known begins, ?_⟩
    refine bind_ok.mpr ⟨last, before, resolve_known ends, ?_⟩
    refine bind_ok.mpr ⟨⟨first, last⟩, before, sound_ok.mpr ⟨made, rfl⟩, ?_⟩
    refine bind_ok.mpr ⟨_, _, pooled_ok.mpr ⟨rfl, rfl⟩, ?_⟩
    rw [Draft.settled, begins, ends]
    have still : Draft.Blank { before with pool := (before.pool.addSlice ⟨first, last⟩).2 } place :=
      blank
    exact patch_blank still _

/-- A placeholder with a label that has no position ends the compilation, and nothing has changed
by then. -/
theorem settle_unknown (before : Draft) {waiting : Pending} {name : Label} (member : name ∈ waiting.labels)
    (unknown : scope.positions.lookup name = none) : ∃ missing ∈ waiting.labels,
      scope.positions.lookup missing = none ∧
        settle scope waiting before = .error (.rejected (.undefinedLabel missing)) before := by
  cases waiting with
  | jump place op target =>
    cases List.mem_singleton.mp member
    exact ⟨name, member, unknown, bind_error.mpr (.inl (resolve_unknown unknown))⟩
  | range place op start stop =>
    cases begins : scope.positions.lookup start with
    | none =>
      exact ⟨start, List.mem_cons_self, begins, bind_error.mpr (.inl (resolve_unknown begins))⟩
    | some first =>
      have same : name = stop := by
        rcases List.mem_cons.mp member with rfl | rest
        · rw [unknown] at begins
          cases begins
        · exact List.mem_singleton.mp rest
      subst same
      refine ⟨name, member, unknown, bind_error.mpr (.inr ⟨first, before, resolve_known begins, ?_⟩)⟩
      exact bind_error.mpr (.inl (resolve_unknown unknown))

/-- The placeholders of a scope can be filled in: each has a place of its own, where a placeholder
stands, and no range is inverted. -/
structure Pends (draft : Draft) (scope : LabelScope) (pending : List Pending) : Prop where
  apart : (pending.map Pending.place).Nodup
  blank : ∀ waiting ∈ pending, draft.Blank waiting.place
  ordered : ∀ place op start stop, .range place op start stop ∈ pending → ∀ first last,
    scope.positions.lookup start = some first → scope.positions.lookup stop = some last →
      first ≤ last

theorem Pends.settled {first : Pending} {rest : List Pending}
    (pends : Pends before scope (first :: rest)) :
    Pends (before.settled scope.positions first) scope rest := by
  obtain ⟨fresh, apart⟩ := List.nodup_cons.mp pends.apart
  refine ⟨apart, fun waiting member => ?_, fun place op start stop member =>
    pends.ordered place op start stop (List.mem_cons_of_mem _ member)⟩
  have other : first.place ≠ waiting.place := by
    intro same
    rw [same] at fresh
    exact fresh (List.mem_map_of_mem member)
  rw [Draft.Blank, Draft.getElem?_settled_of_ne other]
  exact pends.blank waiting (List.mem_cons_of_mem _ member)

theorem settle_first {first : Pending} {rest : List Pending}
    (pends : Pends before scope (first :: rest))
    (known : ∀ name ∈ first.labels, (scope.positions.lookup name).isSome) :
    settle scope first before = .ok () (before.settled scope.positions first) := by
  refine settle_known (pends.blank first List.mem_cons_self) known fun place op start stop same => ?_
  exact pends.ordered place op start stop (by simp [same])

theorem settleAll_known (pending : List Pending) (pends : Pends before scope pending)
    (known : ∀ waiting ∈ pending, ∀ name ∈ waiting.labels,
      (scope.positions.lookup name).isSome) :
    pending.forM (settle scope) before = .ok () (before.settledAll scope.positions pending) := by
  induction pending generalizing before with
  | nil => rfl
  | cons first rest ih =>
    refine bind_ok.mpr ⟨(), _, settle_first pends (known first List.mem_cons_self), ?_⟩
    exact ih pends.settled fun waiting member => known waiting (List.mem_cons_of_mem _ member)

/-- The first placeholder with a label that has no position ends the compilation. Those before it
are filled in. -/
theorem settleAll_unknown (pending : List Pending) (pends : Pends before scope pending)
    (unknown : ∃ waiting ∈ pending, ∃ name ∈ waiting.labels, scope.positions.lookup name = none) :
    ∃ waiting ∈ pending, ∃ name ∈ waiting.labels, ∃ filled, scope.positions.lookup name = none ∧
      filled <+: pending ∧ pending.forM (settle scope) before =
        .error (.rejected (.undefinedLabel name)) (before.settledAll scope.positions filled) := by
  induction pending generalizing before with
  | nil =>
    obtain ⟨waiting, member, -⟩ := unknown
    cases member
  | cons first rest ih =>
    by_cases missing : ∃ name ∈ first.labels, scope.positions.lookup name = none
    · obtain ⟨name, member, absent⟩ := missing
      obtain ⟨other, among, without, stuck⟩ := settle_unknown before member absent
      exact ⟨first, List.mem_cons_self, other, among, [], without, List.nil_prefix,
        bind_error.mpr (.inl stuck)⟩
    · have known : ∀ name ∈ first.labels, (scope.positions.lookup name).isSome := by
        intro name member
        refine Option.isSome_iff_ne_none.mpr fun absent => missing ⟨name, member, absent⟩
      obtain ⟨waiting, member, name, among, filled, absent, front, stuck⟩ :=
        ih pends.settled (by
          obtain ⟨waiting, member, name, among, absent⟩ := unknown
          rcases List.mem_cons.mp member with rfl | later
          · exact absurd ⟨name, among, absent⟩ missing
          · exact ⟨waiting, later, name, among, absent⟩)
      refine ⟨waiting, List.mem_cons_of_mem _ member, name, among, first :: filled, absent,
        List.cons_prefix_cons.mpr ⟨rfl, front⟩, ?_⟩
      exact bind_error.mpr (.inr ⟨(), _, settle_first pends known, stuck⟩)

end Writing

/-! A scope that ends -/

/-- What a draft is after its innermost scope has ended well. -/
structure Draft.Resolved (before : Draft) (scope : LabelScope) (after : Draft) : Prop where
  /-- Each jump leads to the last position of its label. -/
  jumps : ∀ place op target, .jump place op target ∈ scope.pending → ∃ position,
    scope.positions.lookup target = some position ∧
      after.program.instructions[place]? = some { op, first := position }
  /-- Each range has a handle of its own, which no slice had before, of the positions between its
  labels. -/
  ranges : ∀ index place op start stop,
    (scope.pending.filter Pending.isRange)[index]? = some (.range place op start stop) →
      ∃ first last, scope.positions.lookup start = some first ∧
        scope.positions.lookup stop = some last ∧
        after.pool.slices[before.pool.slices.size + index]? = some ⟨first, last⟩ ∧
        after.program.instructions[place]? =
          some { op, first := before.pool.slices.size + index + 1 }
  others : ∀ place, (∀ waiting ∈ scope.pending, waiting.place ≠ place) →
    after.program.instructions[place]? = before.program.instructions[place]?
  length : after.program.length = before.program.length
  pool : ∃ fresh, fresh.size = scope.pending.countP Pending.isRange ∧
    after.pool = { before.pool with slices := before.pool.slices ++ fresh }
  scopes : after.scopes = before.scopes.tail
  locals : after.inUse = before.inUse ∧ after.reserved = before.reserved

namespace Draft

theorem settledAll_frame (draft : Draft) (positions : List (Label × Nat)) (pending : List Pending) :
    (draft.settledAll positions pending).scopes = draft.scopes ∧
      (draft.settledAll positions pending).program.length = draft.program.length ∧
      (draft.settledAll positions pending).inUse = draft.inUse ∧
      (draft.settledAll positions pending).reserved = draft.reserved := by
  induction pending generalizing draft with
  | nil => exact ⟨rfl, rfl, rfl, rfl⟩
  | cons first rest ih =>
    obtain ⟨scopes, length, inUse, reserved⟩ := ih (draft.settled positions first)
    refine ⟨scopes.trans ?_, length.trans ?_, inUse.trans ?_, reserved.trans ?_⟩ <;>
      cases first <;> simp [settled, fill, Program.length]

theorem settledAll_pool (draft : Draft) (positions : List (Label × Nat)) (pending : List Pending) :
    ∃ fresh : Array Slice,
    fresh.size = pending.countP Pending.isRange ∧
      (draft.settledAll positions pending).pool =
        { draft.pool with slices := draft.pool.slices ++ fresh } := by
  induction pending generalizing draft with
  | nil => exact ⟨#[], rfl, by simp [settledAll]⟩
  | cons first rest ih =>
    obtain ⟨fresh, size, pool⟩ := ih (draft.settled positions first)
    cases first with
    | jump place op target => exact ⟨fresh, size, pool⟩
    | range place op start stop =>
      refine ⟨#[⟨(positions.lookup start).getD 0, (positions.lookup stop).getD 0⟩] ++ fresh, ?_,
        pool.trans ?_⟩
      · rw [Array.size_append, size, List.countP_cons]
        simp [Pending.isRange, Nat.add_comm]
      · simp only [settled, fill, Pool.addSlice, Array.push_eq_append, Array.append_assoc]

variable {draft : Draft}

/-- What a placeholder became stays when the rest are filled in. -/
theorem getElem?_settledAll_cons {scope : LabelScope} {first : Pending} {rest : List Pending}
    (pends : Writing.Pends draft scope (first :: rest)) :
    (draft.settledAll scope.positions (first :: rest)).program.instructions[first.place]? =
      (draft.settled scope.positions first).program.instructions[first.place]? := by
  refine getElem?_settledAll (draft.settled scope.positions first) rest
    fun waiting member same => ?_
  have fresh := (List.nodup_cons.mp pends.apart).1
  rw [← same] at fresh
  exact fresh (List.mem_map_of_mem member)

theorem settledAll_jump {scope : LabelScope} (pending : List Pending)
    (pends : Writing.Pends draft scope pending) {place : Nat} {op : Op} {target : Label}
    (member : .jump place op target ∈ pending) :
    (draft.settledAll scope.positions pending).program.instructions[place]? =
      some { op, first := (scope.positions.lookup target).getD 0 } := by
  induction pending generalizing draft with
  | nil => cases member
  | cons first rest ih =>
    rcases List.mem_cons.mp member with rfl | later
    · refine (getElem?_settledAll_cons pends).trans ?_
      exact getElem?_fill_self (pends.blank _ List.mem_cons_self) _
    · exact ih pends.settled later

theorem settledAll_range {scope : LabelScope} (pending : List Pending)
    (pends : Writing.Pends draft scope pending) {index place : Nat} {op : Op} {start stop : Label}
    (member : (pending.filter Pending.isRange)[index]? = some (.range place op start stop)) :
    (draft.settledAll scope.positions pending).program.instructions[place]? =
        some { op, first := draft.pool.slices.size + index + 1 } ∧
      (draft.settledAll scope.positions pending).pool.slices[draft.pool.slices.size + index]? =
        some ⟨(scope.positions.lookup start).getD 0, (scope.positions.lookup stop).getD 0⟩ := by
  induction pending generalizing draft index with
  | nil => simp at member
  | cons first rest ih =>
    cases first with
    | jump => exact ih pends.settled member
    | range here first begins ends =>
      rw [List.filter_cons_of_pos rfl] at member
      cases index with
      | zero =>
        cases member
        constructor
        · refine (getElem?_settledAll_cons pends).trans ?_
          have blank := pends.blank _ List.mem_cons_self
          have still : Blank { draft with pool := (draft.pool.addSlice
              ⟨(scope.positions.lookup start).getD 0, (scope.positions.lookup stop).getD 0⟩).2 }
              place := blank
          exact getElem?_fill_self still _
        · obtain ⟨fresh, -, pool⟩ := settledAll_pool
            (draft.settled scope.positions (.range place op start stop)) scope.positions rest
          have slices := congrArg Pool.slices pool
          rw [settledAll, List.foldl_cons, ← settledAll, slices]
          simp only [settled, fill, Pool.addSlice]
          rw [Nat.add_zero, Array.getElem?_append_left (by simp), Array.getElem?_push_size]
      | succ index =>
        have later := ih pends.settled member
        have size : (draft.settled scope.positions (.range here first begins ends)).pool.slices.size =
            draft.pool.slices.size + 1 := Array.size_push _
        have shift : draft.pool.slices.size + 1 + index = draft.pool.slices.size + (index + 1) := by
          omega
        rw [size, shift] at later
        exact later

end Draft

theorem Writing.Pends.resolved {draft : Draft} {scope : LabelScope} {outer : List LabelScope}
    (pends : Writing.Pends draft scope scope.pending) (complete : scope.Complete)
    (opened : draft.scopes = scope :: outer) :
    draft.Resolved scope
      (({ draft with scopes := outer } : Draft).settledAll scope.positions scope.pending) := by
  have still : Writing.Pends { draft with scopes := outer } scope scope.pending :=
    ⟨pends.apart, pends.blank, pends.ordered⟩
  obtain ⟨scopes, length, inUse, reserved⟩ := Draft.settledAll_frame
    { draft with scopes := outer } scope.positions scope.pending
  refine ⟨fun place op target member => ?_, fun index place op start stop member => ?_,
    fun place apart => ?_, length, ?_, ?_, inUse, reserved⟩
  · obtain ⟨position, found⟩ := Option.isSome_iff_exists.mp
      (complete _ member target List.mem_cons_self)
    refine ⟨position, found, ?_⟩
    rw [Draft.settledAll_jump scope.pending still member, found]
    rfl
  · have among := (List.mem_filter.mp (List.mem_of_getElem? member)).1
    obtain ⟨first, begins⟩ := Option.isSome_iff_exists.mp
      (complete _ among start List.mem_cons_self)
    obtain ⟨last, ends⟩ := Option.isSome_iff_exists.mp
      (complete _ among stop (List.mem_cons_of_mem _ List.mem_cons_self))
    obtain ⟨here, slice⟩ := Draft.settledAll_range scope.pending still member
    rw [begins, ends] at slice
    exact ⟨first, last, begins, ends, slice, here⟩
  · exact Draft.getElem?_settledAll _ scope.pending apart
  · exact Draft.settledAll_pool _ _ scope.pending
  · rw [scopes, opened]
    rfl

namespace Writing

variable {draft : Draft} {scope : LabelScope} {outer : List LabelScope}

theorem modifyScope_eq {change : LabelScope → LabelScope} (opened : draft.scopes = scope :: outer) :
    modifyScope change draft = .ok () { draft with scopes := change scope :: outer } := by
  refine (bind_of_ok (get_ok.mpr ⟨rfl, rfl⟩)).trans ?_
  rw [opened]
  rfl

theorem later_eq {pending : Nat → Pending} (opened : draft.scopes = scope :: outer) :
    later pending draft = .ok draft.program.length
      { draft with
        program := draft.program.push .placeholder
        scopes := { scope with pending := scope.pending ++ [pending draft.program.length] } ::
          outer } := by
  refine bind_ok.mpr ⟨_, _, push_ok.mpr ⟨rfl, rfl⟩, ?_⟩
  exact bind_ok.mpr ⟨(), _, modifyScope_eq opened, rfl⟩

theorem stopLabels_eq (opened : draft.scopes = scope :: outer) :
    stopLabels draft = scope.pending.forM (settle scope) { draft with scopes := outer } := by
  refine (bind_of_ok (get_ok.mpr ⟨rfl, rfl⟩)).trans ?_
  rw [opened]
  exact bind_of_ok (modify_ok.mpr rfl)

theorem stopLabels_complete (opened : draft.scopes = scope :: outer)
    (pends : Pends draft scope scope.pending) (complete : scope.Complete) :
    ∃ after, stopLabels draft = .ok () after ∧ draft.Resolved scope after := by
  have still : Pends { draft with scopes := outer } scope scope.pending :=
    ⟨pends.apart, pends.blank, pends.ordered⟩
  refine ⟨_, ?_, pends.resolved complete opened⟩
  rw [stopLabels_eq opened]
  exact settleAll_known scope.pending still complete

theorem stopLabels_incomplete (opened : draft.scopes = scope :: outer)
    (pends : Pends draft scope scope.pending) (incomplete : ¬scope.Complete) :
    ∃ waiting ∈ scope.pending, ∃ name ∈ waiting.labels, ∃ after,
      scope.positions.lookup name = none ∧
        stopLabels draft = .error (.rejected (.undefinedLabel name)) after ∧
        after.scopes = outer ∧ after.program.length = draft.program.length ∧
        after.pool.slices.size ≤ draft.pool.slices.size + scope.pending.countP Pending.isRange ∧
        ∀ place, (∀ waiting ∈ scope.pending, waiting.place ≠ place) →
          after.program.instructions[place]? = draft.program.instructions[place]? := by
  have still : Pends { draft with scopes := outer } scope scope.pending :=
    ⟨pends.apart, pends.blank, pends.ordered⟩
  have unknown : ∃ waiting ∈ scope.pending, ∃ name ∈ waiting.labels,
      scope.positions.lookup name = none := by
    refine Classical.byContradiction fun known => ?_
    refine incomplete fun waiting member name among => Option.isSome_iff_ne_none.mpr fun absent => ?_
    exact known ⟨waiting, member, name, among, absent⟩
  obtain ⟨waiting, member, name, among, filled, absent, front, stuck⟩ :=
    settleAll_unknown scope.pending still unknown
  obtain ⟨scopes, length, -, -⟩ := Draft.settledAll_frame
    { draft with scopes := outer } scope.positions filled
  obtain ⟨fresh, size, pool⟩ := Draft.settledAll_pool
    { draft with scopes := outer } scope.positions filled
  refine ⟨waiting, member, name, among, _, absent, (stopLabels_eq opened).trans stuck, scopes,
    length, ?_, fun place apart => ?_⟩
  · rw [pool, Array.size_append, size]
    exact Nat.add_le_add_left front.sublist.countP_le _
  exact Draft.getElem?_settledAll _ filled fun waiting member => apart waiting (front.subset member)

end Writing

/-! Steps -/

/-- What is done to a draft and its label scopes. -/
inductive LabelStep where
  | start
  | label (name : Label) (place : Nat)
  | jump (op : Op) (target : Label)
  | range (op : Op) (start stop : Label)
  | push (instruction : Instruction)
  | stop
  deriving Repr, DecidableEq

namespace LabelStep

/-- A scope that does not end well is gone all the same, and the steps go on. -/
def perform : LabelStep → Writing Unit
  | start => Writing.startLabels
  | label name place => Writing.labelAt name place
  | jump op target => do let _ ← Writing.jump op target
  | range op begins ends => do let _ ← Writing.range op begins ends
  | push instruction => do let _ ← Writing.push instruction
  | stop => fun draft =>
    match Writing.stopLabels draft with
    | .error (.rejected _) after => .ok () after
    | ended => ended

/-- Whether the step adds to the program. -/
def writes : LabelStep → Bool
  | jump .. | range .. | push _ => true
  | _ => false

def isRange : LabelStep → Bool
  | range .. => true
  | _ => false

def placed? : LabelStep → Option (Label × Nat)
  | label name place => some (name, place)
  | _ => none

/-- The placeholder that the step writes at a place. -/
def waiting? (place : Nat) : LabelStep → Option Pending
  | jump op target => some (.jump place op target)
  | range op begins ends => some (.range place op begins ends)
  | _ => none

end LabelStep

/-! In what follows the latest step comes first. A step that writes finds the program with the
`first` instructions it began with and one for each step before it that wrote. -/

/-- How many label scopes are open. -/
def openScopes : List LabelStep → Nat
  | [] => 0
  | .start :: past => openScopes past + 1
  | .stop :: past => openScopes past - 1
  | _ :: past => openScopes past

/-- The steps taken right in the open scope that `depth` others are inside of, and what length the
program had. -/
def stepsWithin (first : Nat) : Nat → List LabelStep → List (LabelStep × Nat)
  | _, [] => []
  | 0, .start :: _ => []
  | depth + 1, .start :: past => stepsWithin first depth past
  | depth, .stop :: past => stepsWithin first (depth + 1) past
  | 0, step :: past => (step, first + past.countP LabelStep.writes) :: stepsWithin first 0 past
  | depth + 1, _ :: past => stepsWithin first (depth + 1) past

/-- What was recorded in a scope: the positions of its labels, the latest first, and its
placeholders in the order in which they were written. -/
def scopeWithin (first depth : Nat) (past : List LabelStep) : LabelScope where
  positions := (stepsWithin first depth past).filterMap fun (step, _) => step.placed?
  pending := ((stepsWithin first depth past).filterMap fun (step, place) =>
    step.waiting? place).reverse

/-- Every placeholder that was written. -/
def placeholders (first : Nat) : List LabelStep → List Pending
  | [] => []
  | step :: past =>
      (step.waiting? (first + past.countP LabelStep.writes)).toList ++ placeholders first past

/-- Labels are used within a scope and get positions that fit into an operand, a placeholder stands
for an instruction that is none itself, and when a scope ends, no range in it is inverted. -/
def Proper (first : Nat) : List LabelStep → Prop
  | [] => True
  | .start :: past | .push _ :: past => Proper first past
  | .label _ place :: past => 0 < openScopes past ∧ place < 2 ^ 32 ∧ Proper first past
  | .jump op _ :: past | .range op .. :: past =>
      0 < openScopes past ∧ op ≠ .noop ∧ Proper first past
  | .stop :: past => 0 < openScopes past ∧ (scopeWithin first 0 past).Ordered ∧ Proper first past

/-- Every scope that ended had positions for all labels that its placeholders waited for. -/
def EndsWell (first : Nat) : List LabelStep → Prop
  | [] => True
  | .stop :: past => (scopeWithin first 0 past).Complete ∧ EndsWell first past
  | _ :: past => EndsWell first past

/-- The draft and its scopes are what the steps made of them, where there were `old` slices. -/
structure Draft.Tracks (first old : Nat) (past : List LabelStep) (draft : Draft) : Prop where
  length : draft.program.length = first + past.countP LabelStep.writes
  scopes : draft.scopes = (List.range (openScopes past)).map (scopeWithin first · past)
  apart : ((draft.scopes.flatMap LabelScope.pending).map Pending.place).Nodup
  blank : ∀ waiting ∈ draft.scopes.flatMap LabelScope.pending, draft.Blank waiting.place
  /-- A range adds one slice at most, and one that waits has yet to. -/
  slices : draft.pool.slices.size +
    (draft.scopes.flatMap LabelScope.pending).countP Pending.isRange ≤
      old + past.countP LabelStep.isRange

theorem scopes_within (first : Nat) (past : List LabelStep) (inside : 0 < openScopes past) :
    (List.range (openScopes past)).map (scopeWithin first · past) = scopeWithin first 0 past ::
      (List.range (openScopes past - 1)).map fun depth => scopeWithin first (depth + 1) past := by
  obtain ⟨count, same⟩ := Nat.exists_eq_add_of_lt inside
  rw [Nat.zero_add] at same
  rw [same, List.range_succ_eq_map, List.map_cons, List.map_map]
  rfl

section Within

variable {step : LabelStep} (begins : step ≠ .start) (ends : step ≠ .stop) (first : Nat)
  (past : List LabelStep)

include begins ends

theorem openScopes_cons : openScopes (step :: past) = openScopes past := by
  cases step <;> first | rfl | contradiction

theorem scopeWithin_cons_succ (depth : Nat) :
    scopeWithin first (depth + 1) (step :: past) = scopeWithin first (depth + 1) past := by
  cases step <;> first | rfl | contradiction

theorem scopeWithin_cons_zero : scopeWithin first 0 (step :: past) =
    { positions := step.placed?.toList ++ (scopeWithin first 0 past).positions
      pending := (scopeWithin first 0 past).pending ++
        (step.waiting? (first + past.countP LabelStep.writes)).toList } := by
  cases step with
  | start => contradiction
  | stop => contradiction
  | _ => simp [scopeWithin, stepsWithin, LabelStep.placed?, LabelStep.waiting?]

end Within

namespace Draft.Tracks

variable {first old : Nat} {past : List LabelStep} {draft : Draft}

/-- The innermost scope, and those around it. -/
theorem opened (tracks : draft.Tracks first old past) (inside : 0 < openScopes past) :
    draft.scopes = scopeWithin first 0 past ::
      (List.range (openScopes past - 1)).map fun depth => scopeWithin first (depth + 1) past :=
  tracks.scopes.trans (scopes_within first past inside)

theorem pends (tracks : draft.Tracks first old past) (inside : 0 < openScopes past)
    (ordered : (scopeWithin first 0 past).Ordered) :
    Writing.Pends draft (scopeWithin first 0 past) (scopeWithin first 0 past).pending := by
  have opened := tracks.opened inside
  refine ⟨?_, fun waiting member => tracks.blank waiting ?_, ordered⟩
  · have apart := tracks.apart
    rw [opened, List.flatMap_cons, List.map_append] at apart
    exact (List.nodup_append.mp apart).1
  · rw [opened, List.flatMap_cons]
    exact List.mem_append_left _ member

theorem lt_length (tracks : draft.Tracks first old past) {waiting : Pending}
    (member : waiting ∈ draft.scopes.flatMap LabelScope.pending) :
    waiting.place < draft.program.length :=
  (Array.getElem?_eq_some_iff.mp (tracks.blank waiting member)).1

theorem start (tracks : draft.Tracks first old past) :
    ∃ after, LabelStep.start.perform draft = .ok () after ∧
      after.Tracks first old (.start :: past) ∧ after.program = draft.program := by
  refine ⟨{ draft with scopes := {} :: draft.scopes }, rfl,
    ⟨tracks.length, ?_, tracks.apart, tracks.blank, tracks.slices⟩, rfl⟩
  rw [tracks.scopes, openScopes, List.range_succ_eq_map, List.map_cons, List.map_map]
  rfl

theorem label (tracks : draft.Tracks first old past) (inside : 0 < openScopes past) (name : Label)
    (place : Nat) : ∃ after, (LabelStep.label name place).perform draft = .ok () after ∧
      after.Tracks first old (.label name place :: past) ∧ after.program = draft.program := by
  have opened := tracks.opened inside
  refine ⟨_, Writing.modifyScope_eq opened, ⟨tracks.length, ?_, ?_, ?_, ?_⟩, rfl⟩
  · exact (scopes_within first (.label name place :: past) inside).symm
  · have apart := tracks.apart
    rw [opened] at apart
    exact apart
  · have blank := tracks.blank
    rw [opened] at blank
    exact blank
  · have slices := tracks.slices
    rw [opened] at slices
    exact slices

theorem push (tracks : draft.Tracks first old past) (instruction : Instruction) :
    ∃ after, (LabelStep.push instruction).perform draft = .ok () after ∧
      after.Tracks first old (.push instruction :: past) ∧
        after.program = draft.program.push instruction := by
  refine ⟨{ draft with program := draft.program.push instruction }, rfl,
    ⟨?_, ?_, tracks.apart, fun waiting member => ?_, tracks.slices⟩, rfl⟩
  · rw [Program.length_push, tracks.length, List.countP_cons_of_pos rfl, Nat.add_assoc]
  · refine tracks.scopes.trans (List.map_congr_left fun depth _ => ?_)
    cases depth <;> rfl
  · exact draft.program.getElem?_push_of_lt instruction (tracks.blank waiting member)

/-- A placeholder is written for a jump or a range. It goes to the end, where none waits yet. -/
theorem later (tracks : draft.Tracks first old past) (inside : 0 < openScopes past) (step : LabelStep)
    {pending : Nat → Pending} (place : ∀ place, (pending place).place = place)
    (begins : step ≠ .start) (ends : step ≠ .stop) (writes : step.writes = true)
    (places : step.placed? = none) (waits : ∀ place, step.waiting? place = some (pending place))
    (ranges : ∀ place, (pending place).isRange = step.isRange)
    (performed : step.perform = do let _ ← Writing.later pending) :
    ∃ after, step.perform draft = .ok () after ∧ after.Tracks first old (step :: past) ∧
      after.program = draft.program.push .placeholder := by
  have opened := tracks.opened inside
  refine ⟨{ draft with
    program := draft.program.push .placeholder
    scopes := { scopeWithin first 0 past with
      pending := (scopeWithin first 0 past).pending ++ [pending draft.program.length] } ::
        (List.range (openScopes past - 1)).map fun depth => scopeWithin first (depth + 1) past },
    ?_, ⟨?_, ?_, ?_, ?_, ?_⟩, rfl⟩
  · rw [performed]
    exact bind_ok.mpr ⟨_, _, Writing.later_eq opened, rfl⟩
  · rw [Program.length_push, tracks.length, List.countP_cons_of_pos writes, Nat.add_assoc]
  · rw [← openScopes_cons begins ends] at inside
    rw [scopes_within first _ inside, openScopes_cons begins ends,
      scopeWithin_cons_zero begins ends, places, waits, tracks.length]
    simp only [scopeWithin_cons_succ begins ends]
    rfl
  · have apart := tracks.apart
    have fresh : draft.program.length ∉
        (draft.scopes.flatMap LabelScope.pending).map Pending.place := by
      intro member
      obtain ⟨waiting, there, same⟩ := List.mem_map.mp member
      exact absurd same (Nat.ne_of_lt (tracks.lt_length there))
    rw [opened, List.flatMap_cons, List.map_append] at apart fresh
    rw [List.flatMap_cons, List.map_append, List.map_append, List.map_singleton, place,
      List.append_assoc, List.singleton_append]
    exact List.nodup_middle.mpr (List.nodup_cons.mpr ⟨fresh, apart⟩)
  · intro waiting member
    rw [List.flatMap_cons, List.append_assoc, List.singleton_append] at member
    rcases List.mem_append.mp member with early | rest
    · refine draft.program.getElem?_push_of_lt .placeholder (tracks.blank waiting ?_)
      rw [opened, List.flatMap_cons]
      exact List.mem_append_left _ early
    · rcases List.mem_cons.mp rest with rfl | outer
      · rw [Draft.Blank, place]
        exact draft.program.getElem?_push .placeholder
      · refine draft.program.getElem?_push_of_lt .placeholder (tracks.blank waiting ?_)
        rw [opened, List.flatMap_cons]
        exact List.mem_append_right _ outer
  · have slices := tracks.slices
    rw [opened, List.flatMap_cons, List.countP_append] at slices
    rw [List.flatMap_cons, List.countP_append, List.countP_append, List.countP_singleton,
      List.countP_cons, ranges]
    dsimp only at slices ⊢
    omega

/-- A scope ends, well or not. Where none of its placeholders stood, the program stays. -/
theorem stop (tracks : draft.Tracks first old past) (inside : 0 < openScopes past)
    (ordered : (scopeWithin first 0 past).Ordered) :
    ∃ after, LabelStep.stop.perform draft = .ok () after ∧ after.Tracks first old (.stop :: past) ∧
      (∀ place, (∀ waiting ∈ (scopeWithin first 0 past).pending, waiting.place ≠ place) →
        after.program.instructions[place]? = draft.program.instructions[place]?) ∧
      ((scopeWithin first 0 past).Complete → draft.Resolved (scopeWithin first 0 past) after) := by
  have opened := tracks.opened inside
  have pends := tracks.pends inside ordered
  have ended : ∃ after, LabelStep.stop.perform draft = .ok () after ∧
      after.scopes = draft.scopes.tail ∧ after.program.length = draft.program.length ∧
      after.pool.slices.size ≤ draft.pool.slices.size +
        (scopeWithin first 0 past).pending.countP Pending.isRange ∧
      (∀ place, (∀ waiting ∈ (scopeWithin first 0 past).pending, waiting.place ≠ place) →
        after.program.instructions[place]? = draft.program.instructions[place]?) ∧
      ((scopeWithin first 0 past).Complete → draft.Resolved (scopeWithin first 0 past) after) := by
    by_cases complete : (scopeWithin first 0 past).Complete
    · obtain ⟨after, done, resolved⟩ := Writing.stopLabels_complete opened pends complete
      obtain ⟨fresh, size, pool⟩ := resolved.pool
      refine ⟨after, ?_, resolved.scopes, resolved.length, ?_, resolved.others, fun _ => resolved⟩
      · simp only [LabelStep.perform, done]
      · rw [pool, ← size]
        exact Nat.le_of_eq Array.size_append
    · obtain ⟨_, _, _, _, after, _, stuck, scopes, length, few, others⟩ :=
        Writing.stopLabels_incomplete opened pends complete
      refine ⟨after, ?_, ?_, length, few, others, fun complete' => absurd complete' complete⟩
      · simp only [LabelStep.perform, stuck]
      · rw [scopes, opened, List.tail_cons]
  obtain ⟨after, done, scopes, length, few, others, resolved⟩ := ended
  rw [opened, List.tail_cons] at scopes
  have parts := tracks.apart
  rw [opened, List.flatMap_cons, List.map_append] at parts
  obtain ⟨-, apart, separate⟩ := List.nodup_append.mp parts
  refine ⟨after, done, ⟨length.trans tracks.length, ?_, ?_, ?_, ?_⟩, others, resolved⟩
  · rw [scopes, openScopes]
    exact List.map_congr_left fun depth _ => by cases depth <;> rfl
  · rw [scopes]
    exact apart
  · intro waiting member
    rw [scopes] at member
    rw [Draft.Blank, others waiting.place]
    · refine tracks.blank waiting ?_
      rw [opened, List.flatMap_cons]
      exact List.mem_append_right _ member
    · intro other inner
      exact separate _ (List.mem_map_of_mem inner) _ (List.mem_map_of_mem member)
  · have slices := tracks.slices
    rw [opened, List.flatMap_cons, List.countP_append] at slices
    have same : (LabelStep.stop :: past).countP LabelStep.isRange =
        past.countP LabelStep.isRange := List.countP_cons_of_neg (by decide)
    rw [scopes, same]
    omega

/-- One more step is taken. Instructions stay, and a scope that is complete when it ends is
resolved. -/
theorem step (tracks : draft.Tracks first old past) {step : LabelStep}
    (proper : Proper first (step :: past)) :
    ∃ after, step.perform draft = .ok () after ∧ after.Tracks first old (step :: past) ∧
      draft.program.Keeps after.program ∧
      (step = .stop → (scopeWithin first 0 past).Complete →
        draft.Resolved (scopeWithin first 0 past) after) := by
  cases step with
  | start =>
    obtain ⟨after, done, next, same⟩ := tracks.start
    exact ⟨after, done, next, by rw [same]; exact fun _ _ here _ => here, nofun⟩
  | label name place =>
    obtain ⟨after, done, next, same⟩ := tracks.label proper.1 name place
    exact ⟨after, done, next, by rw [same]; exact fun _ _ here _ => here, nofun⟩
  | push instruction =>
    obtain ⟨after, done, next, same⟩ := tracks.push instruction
    exact ⟨after, done, next, by rw [same]; exact draft.program.keeps_push instruction, nofun⟩
  | jump op target =>
    obtain ⟨after, done, next, same⟩ := tracks.later proper.1 (.jump op target)
      (fun _ => rfl) nofun nofun rfl rfl (fun _ => rfl) (fun _ => rfl) rfl
    exact ⟨after, done, next, by rw [same]; exact draft.program.keeps_push .placeholder, nofun⟩
  | range op start stop =>
    obtain ⟨after, done, next, same⟩ := tracks.later proper.1 (.range op start stop)
      (fun _ => rfl) nofun nofun rfl rfl (fun _ => rfl) (fun _ => rfl) rfl
    exact ⟨after, done, next, by rw [same]; exact draft.program.keeps_push .placeholder, nofun⟩
  | stop =>
    obtain ⟨inside, ordered, -⟩ := proper
    obtain ⟨after, done, next, others, resolved⟩ := tracks.stop inside ordered
    refine ⟨after, done, next, fun place instruction here real => ?_, fun _ => resolved⟩
    rw [others place, here]
    rintro waiting member rfl
    have blank := (tracks.pends inside ordered).blank waiting member
    rw [Draft.Blank, here] at blank
    cases blank
    exact real rfl

end Draft.Tracks

/-- The placeholder waits in a scope that is open. -/
def Waits (first : Nat) (past : List LabelStep) (waiting : Pending) : Prop :=
  ∃ depth < openScopes past, waiting ∈ (scopeWithin first depth past).pending

/-- Every placeholder waits still, or an instruction with its operation stands in its place. -/
def Draft.Filled (first : Nat) (past : List LabelStep) (draft : Draft) : Prop :=
  ∀ waiting ∈ placeholders first past, Waits first past waiting ∨ ∃ instruction,
    draft.program.instructions[waiting.place]? = some instruction ∧ instruction.op = waiting.op

theorem Draft.Resolved.filled {before after : Draft} {scope : LabelScope}
    (resolved : before.Resolved scope after) {waiting : Pending} (member : waiting ∈ scope.pending) :
    ∃ instruction, after.program.instructions[waiting.place]? = some instruction ∧
      instruction.op = waiting.op := by
  cases waiting with
  | jump place op target =>
    obtain ⟨position, -, here⟩ := resolved.jumps place op target member
    exact ⟨_, here, rfl⟩
  | range place op start stop =>
    obtain ⟨index, found⟩ := List.getElem?_of_mem
      ((List.mem_filter (p := Pending.isRange)).mpr ⟨member, rfl⟩)
    obtain ⟨_, _, _, _, _, here⟩ := resolved.ranges index place op start stop found
    exact ⟨_, here, rfl⟩

theorem placeholder_real {first : Nat} (past : List LabelStep) (proper : Proper first past) :
    ∀ waiting ∈ placeholders first past, waiting.op ≠ .noop := by
  induction past with
  | nil => exact nofun
  | cons step past ih =>
    intro waiting member
    rcases List.mem_append.mp member with new | old
    · cases step with
      | jump op target =>
        cases List.mem_singleton.mp new
        exact proper.2.1
      | range op start stop =>
        cases List.mem_singleton.mp new
        exact proper.2.1
      | _ => cases new
    · refine ih ?_ waiting old
      cases step with
      | start | push => exact proper
      | label | jump | range | stop => exact proper.2.2

/-- What waits still waits after a step within the scopes. -/
theorem Waits.cons {first : Nat} {past : List LabelStep} {waiting : Pending}
    (waits : Waits first past waiting) {step : LabelStep} (begins : step ≠ .start)
    (ends : step ≠ .stop) : Waits first (step :: past) waiting := by
  obtain ⟨depth, inside, member⟩ := waits
  refine ⟨depth, by rwa [openScopes_cons begins ends], ?_⟩
  cases depth with
  | zero =>
    rw [scopeWithin_cons_zero begins ends]
    exact List.mem_append_left _ member
  | succ depth => rwa [scopeWithin_cons_succ begins ends]

/-- A placeholder that is written waits in the innermost scope. -/
theorem Waits.new {first : Nat} {past : List LabelStep} {step : LabelStep} {waiting : Pending}
    (inside : 0 < openScopes past) (begins : step ≠ .start) (ends : step ≠ .stop)
    (written : step.waiting? (first + past.countP LabelStep.writes) = some waiting) :
    Waits first (step :: past) waiting := by
  refine ⟨0, by rwa [openScopes_cons begins ends], ?_⟩
  rw [scopeWithin_cons_zero begins ends, written]
  exact List.mem_append_right _ List.mem_cons_self

theorem Draft.Filled.step {first : Nat} {past : List LabelStep} {before after : Draft}
    (filled : before.Filled first past) {step : LabelStep} (proper : Proper first (step :: past))
    (earlier : Proper first past) (well : EndsWell first (step :: past))
    (keeps : before.program.Keeps after.program)
    (resolved : step = .stop → (scopeWithin first 0 past).Complete →
      before.Resolved (scopeWithin first 0 past) after) : after.Filled first (step :: past) := by
  intro waiting member
  rcases List.mem_append.mp member with new | old
  · have written := Option.mem_toList.mp new
    cases step with
    | jump => exact .inl (.new proper.1 nofun nofun written)
    | range => exact .inl (.new proper.1 nofun nofun written)
    | _ => cases written
  · rcases filled waiting old with waits | ⟨instruction, here, same⟩
    · cases step with
      | start =>
        obtain ⟨depth, inside, there⟩ := waits
        exact .inl ⟨depth + 1, Nat.succ_lt_succ inside, there⟩
      | stop =>
        obtain ⟨depth, inside, there⟩ := waits
        cases depth with
        | zero => exact .inr ((resolved rfl well.1).filled there)
        | succ depth => exact .inl ⟨depth, Nat.lt_sub_of_add_lt inside, by cases depth <;> exact there⟩
      | _ => exact .inl (waits.cons nofun nofun)
    · refine .inr ⟨instruction, keeps _ _ here ?_, same⟩
      rw [same]
      exact placeholder_real past earlier waiting old

theorem Proper.tail {first : Nat} {step : LabelStep} {past : List LabelStep}
    (proper : Proper first (step :: past)) : Proper first past := by
  cases step with
  | start | push => exact proper
  | label | jump | range | stop => exact proper.2.2

theorem EndsWell.tail {first : Nat} {step : LabelStep} {past : List LabelStep}
    (well : EndsWell first (step :: past)) : EndsWell first past := by
  cases step with
  | stop => exact well.2
  | _ => exact well

/-! Operands -/

theorem mem_stepsWithin {first : Nat} {entry : LabelStep × Nat} (past : List LabelStep) :
    ∀ depth, entry ∈ stepsWithin first depth past → entry.1 ∈ past := by
  intro depth member
  fun_induction stepsWithin first depth past with
  | case1 => cases member
  | case2 => cases member
  | case3 depth past ih => exact List.mem_cons_of_mem _ (ih member)
  | case4 depth past ih => exact List.mem_cons_of_mem _ (ih member)
  | case5 step past _ _ ih =>
    rcases List.mem_cons.mp member with rfl | later
    · exact List.mem_cons_self
    · exact List.mem_cons_of_mem _ (ih later)
  | case6 depth step past _ _ ih => exact List.mem_cons_of_mem _ (ih member)

theorem Proper.place_lt {first : Nat} {past : List LabelStep} (proper : Proper first past)
    {name : Label} {place : Nat} (member : .label name place ∈ past) : place < 2 ^ 32 := by
  induction past with
  | nil => cases member
  | cons step past ih =>
    rcases List.mem_cons.mp member with rfl | earlier
    · exact proper.2.1
    · exact ih proper.tail earlier

/-- The positions of a scope are those that its labels were given. -/
theorem Proper.position_lt {first depth : Nat} {past : List LabelStep} (proper : Proper first past)
    {name : Label} {place : Nat}
    (found : (scopeWithin first depth past).positions.lookup name = some place) :
    place < 2 ^ 32 := by
  obtain ⟨_, _, split, -⟩ := List.lookup_eq_some_iff.mp found
  have entry : (name, place) ∈ (scopeWithin first depth past).positions := by
    rw [split]
    exact List.mem_append_right _ List.mem_cons_self
  obtain ⟨⟨step, _⟩, member, placed⟩ := List.mem_filterMap.mp entry
  have among := mem_stepsWithin past depth member
  cases step with
  | label other there =>
    cases placed
    exact proper.place_lt among
  | _ => cases placed

/-- The operands that were written for a scope fit into 32 bits. -/
def LabelScope.Fits (scope : LabelScope) (after : Draft) : Prop :=
  ∀ waiting ∈ scope.pending, ∀ instruction,
    after.program.instructions[waiting.place]? = some instruction → instruction.first < 2 ^ 32

theorem Draft.Resolved.fits {before after : Draft} {scope : LabelScope}
    (resolved : before.Resolved scope after)
    (places : ∀ name place, scope.positions.lookup name = some place → place < 2 ^ 32)
    (few : before.pool.slices.size + scope.pending.countP Pending.isRange < 2 ^ 32) :
    scope.Fits after := by
  intro waiting member instruction here
  cases waiting with
  | jump place op target =>
    obtain ⟨position, found, written⟩ := resolved.jumps place op target member
    cases here.symm.trans written
    exact places target position found
  | range place op start stop =>
    obtain ⟨index, found⟩ := List.getElem?_of_mem
      ((List.mem_filter (p := Pending.isRange)).mpr ⟨member, rfl⟩)
    obtain ⟨_, _, _, _, _, written⟩ := resolved.ranges index place op start stop found
    cases here.symm.trans written
    have bound := (List.getElem?_eq_some_iff.mp found).1
    rw [← List.countP_eq_length_filter] at bound
    dsimp only
    omega

/-- All steps are taken. -/
theorem perform_all {base : Draft} (closed : base.scopes = []) (past : List LabelStep)
    (proper : Proper base.program.length past) :
    ∃ draft, past.reverse.forM LabelStep.perform base = .ok () draft ∧
      draft.Tracks base.program.length base.pool.slices.size past ∧
      (EndsWell base.program.length past → draft.Filled base.program.length past) := by
  induction past with
  | nil => exact ⟨base, rfl, ⟨rfl, closed, by simp [closed], by simp [closed], by simp [closed]⟩,
      fun _ => nofun⟩
  | cons step past ih =>
    obtain ⟨draft, done, tracks, filled⟩ := ih proper.tail
    obtain ⟨after, stepped, next, keeps, resolved⟩ := tracks.step proper
    refine ⟨after, ?_, next, fun well => ?_⟩
    · rw [List.reverse_cons]
      refine (congrFun List.forM_append base).trans (bind_ok.mpr ⟨(), draft, done, ?_⟩)
      exact bind_ok.mpr ⟨(), after, stepped, rfl⟩
    · exact (filled well.tail).step proper proper.tail well keeps resolved

/-- However label scopes are nested, the innermost one ends well if and only if all labels that its
placeholders wait for have positions in it. Then its jumps lead to the last of these and its ranges
have fresh handles of what is between them, and no other instruction, no older constant and no other
scope changes. Otherwise a label without a position is reported. Once all scopes have ended well,
every placeholder has become an instruction. Operands have 32 bits, which the positions are assumed
to fit into and the slices not to be too many for. -/
theorem labels_resolve_exactly (base : Draft) (closed : base.scopes = []) (past : List LabelStep)
    (proper : Proper base.program.length past)
    (few : base.pool.slices.size + past.countP LabelStep.isRange < 2 ^ 32) :
    ∃ draft, past.reverse.forM LabelStep.perform base = .ok () draft ∧
      draft.program.length = base.program.length + past.countP LabelStep.writes ∧
      draft.scopes =
        (List.range (openScopes past)).map (scopeWithin base.program.length · past) ∧
      (Proper base.program.length (.stop :: past) →
        let scope := scopeWithin base.program.length 0 past
        ((∃ after, Writing.stopLabels draft = .ok () after) ↔ scope.Complete) ∧
        (∀ after, Writing.stopLabels draft = .ok () after →
          draft.Resolved scope after ∧ scope.Fits after) ∧
        (¬scope.Complete → ∃ waiting ∈ scope.pending, ∃ name ∈ waiting.labels,
          scope.positions.lookup name = none ∧ ∃ after, Writing.stopLabels draft =
            .error (.rejected (.undefinedLabel name)) after)) ∧
      (openScopes past = 0 → EndsWell base.program.length past →
        ∀ waiting ∈ placeholders base.program.length past, waiting.op ≠ .noop ∧ ∃ instruction,
          draft.program.instructions[waiting.place]? = some instruction ∧
            instruction.op = waiting.op) := by
  obtain ⟨draft, done, tracks, filled⟩ := perform_all closed past proper
  refine ⟨draft, done, tracks.length, tracks.scopes, fun stops => ?_, fun none well => ?_⟩
  · obtain ⟨inside, ordered, -⟩ := stops
    have opened := tracks.opened inside
    have pends := tracks.pends inside ordered
    by_cases complete : (scopeWithin base.program.length 0 past).Complete
    · obtain ⟨after, ended, resolved⟩ := Writing.stopLabels_complete opened pends complete
      refine ⟨⟨fun _ => complete, fun _ => ⟨after, ended⟩⟩, fun other same => ?_,
        fun incomplete => absurd complete incomplete⟩
      rw [ended] at same
      cases same
      refine ⟨resolved, resolved.fits (fun _ _ => proper.position_lt) ?_⟩
      have slices := tracks.slices
      rw [opened, List.flatMap_cons, List.countP_append] at slices
      omega
    · obtain ⟨waiting, member, name, among, after, absent, stuck, -⟩ :=
        Writing.stopLabels_incomplete opened pends complete
      refine ⟨⟨?_, fun complete' => absurd complete' complete⟩, ?_,
        fun _ => ⟨waiting, member, name, among, absent, after, stuck⟩⟩
      · rintro ⟨other, ended⟩
        rw [stuck] at ended
        cases ended
      · intro other ended
        rw [stuck] at ended
        cases ended
  · intro waiting member
    refine ⟨placeholder_real past proper waiting member, ?_⟩
    rcases filled well waiting member with ⟨depth, inside, -⟩ | there
    · rw [none] at inside
      cases inside
    · exact there

/-- A range in a scope of its own between two jumps, forward and backward, with names that the
scopes share and a label that is moved. -/
theorem labels_of_nested_scopes :
    let past : List LabelStep := [.label "END" 4, .label "END" 7, .jump .jump "BEGIN", .stop,
      .label "END" 2, .label "BEGIN" 1, .range .enter "BEGIN" "END", .start,
      .jump .jumpUnless "END", .label "BEGIN" 0, .push .placeholder, .start]
    Proper 0 (.stop :: past) ∧ past.countP LabelStep.isRange < 2 ^ 32 ∧
      ∃ draft, past.reverse.forM LabelStep.perform {} = .ok () draft ∧
      draft.program.length = 0 + past.countP LabelStep.writes ∧
      draft.scopes = (List.range (openScopes past)).map (scopeWithin 0 · past) ∧
      (Proper 0 (.stop :: past) →
        let scope := scopeWithin 0 0 past
        ((∃ after, Writing.stopLabels draft = .ok () after) ↔ scope.Complete) ∧
        (∀ after, Writing.stopLabels draft = .ok () after →
          draft.Resolved scope after ∧ scope.Fits after) ∧
        (¬scope.Complete → ∃ waiting ∈ scope.pending, ∃ name ∈ waiting.labels,
          scope.positions.lookup name = none ∧ ∃ after, Writing.stopLabels draft =
            .error (.rejected (.undefinedLabel name)) after)) ∧
      (openScopes past = 0 → EndsWell 0 past →
        ∀ waiting ∈ placeholders 0 past, waiting.op ≠ .noop ∧ ∃ instruction,
          draft.program.instructions[waiting.place]? = some instruction ∧
            instruction.op = waiting.op) := by
  intro past
  have outer : (scopeWithin 0 0 past).Ordered := by
    intro place op start stop member
    simp [past, scopeWithin, stepsWithin, LabelStep.waiting?] at member
  have inner : (scopeWithin 0 0 [.label "END" 2, .label "BEGIN" 1, .range .enter "BEGIN" "END",
      .start, .jump .jumpUnless "END", .label "BEGIN" 0, .push .placeholder, .start]).Ordered := by
    intro place op start stop member first last begins ends
    cases List.mem_singleton.mp member
    cases begins
    cases ends
    decide
  have proper : Proper 0 (.stop :: past) :=
    ⟨by decide, outer, by decide, by decide, by decide, by decide, by decide, by decide, by decide,
      inner, by decide, by decide, by decide, by decide, by decide, by decide, by decide, by decide,
      by decide, by decide, trivial⟩
  exact ⟨proper, by decide, labels_resolve_exactly {} rfl past proper.tail (by decide)⟩

end LiveTemplate
