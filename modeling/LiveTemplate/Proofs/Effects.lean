import LiveTemplate.Reactive.Store

/-!
Computations with a state and failures, taken apart. A computation that succeeded is read backwards
through its steps, and a relation between the states before and after, such as "no cell was lost",
is carried through a computation step by step, whether it ends well or not.
-/

namespace LiveTemplate.Effects

variable {ε σ α β : Type}

/-- Whether a computation came to its end. -/
def succeeds : EStateM.Result ε σ α → Bool
  | .ok _ _ => true
  | .error _ _ => false

theorem bind_ok {first : EStateM ε σ α} {next : α → EStateM ε σ β} {before after : σ} {result : β} :
    (first >>= next) before = .ok result after ↔
      ∃ value between, first before = .ok value between ∧ next value between = .ok result after := by
  change EStateM.bind first next before = _ ↔ _
  unfold EStateM.bind
  cases first before with
  | ok value between =>
    constructor
    · intro ended
      exact ⟨value, between, rfl, ended⟩
    · rintro ⟨_, _, same, ended⟩
      cases same
      exact ended
  | error fault between => simp

theorem bind_error {first : EStateM ε σ α} {next : α → EStateM ε σ β} {before after : σ}
    {fault : ε} :
    (first >>= next) before = .error fault after ↔
      first before = .error fault after ∨
        ∃ value between, first before = .ok value between ∧
          next value between = .error fault after := by
  change EStateM.bind first next before = _ ↔ _
  unfold EStateM.bind
  cases first before with
  | ok value between =>
    constructor
    · intro ended
      exact .inr ⟨value, between, rfl, ended⟩
    · rintro (failed | ⟨_, _, same, ended⟩)
      · cases failed
      · cases same
        exact ended
  | error fault between => simp

theorem bind_of_ok {first : EStateM ε σ α} {next : α → EStateM ε σ β} {before between : σ}
    {value : α} (done : first before = .ok value between) :
    (first >>= next) before = next value between := by
  change EStateM.bind first next before = _
  unfold EStateM.bind
  rw [done]

theorem bind_of_error {first : EStateM ε σ α} {next : α → EStateM ε σ β} {before between : σ}
    {fault : ε} (failed : first before = .error fault between) :
    (first >>= next) before = .error fault between := by
  change EStateM.bind first next before = _
  unfold EStateM.bind
  rw [failed]

theorem pure_ok {value result : α} {before after : σ} :
    (pure value : EStateM ε σ α) before = .ok result after ↔ value = result ∧ before = after := by
  change EStateM.Result.ok value before = .ok result after ↔ _
  simp

theorem pure_error {value : α} {before after : σ} {fault : ε} :
    (pure value : EStateM ε σ α) before ≠ .error fault after := by
  intro equal
  change EStateM.Result.ok value before = .error fault after at equal
  cases equal

theorem throw_ok {fault : ε} {result : α} {before after : σ} :
    (throw fault : EStateM ε σ α) before ≠ .ok result after := by
  intro equal
  change EStateM.Result.error fault before = .ok result after at equal
  cases equal

theorem throw_error {fault thrown : ε} {before after : σ} :
    (throw thrown : EStateM ε σ α) before = .error fault after ↔
      thrown = fault ∧ before = after := by
  change EStateM.Result.error thrown before = .error fault after ↔ _
  simp

theorem get_ok {before after result : σ} :
    (get : EStateM ε σ σ) before = .ok result after ↔ before = result ∧ before = after := by
  change EStateM.Result.ok before before = .ok result after ↔ _
  simp

theorem get_error {before after : σ} {fault : ε} :
    (get : EStateM ε σ σ) before ≠ .error fault after := by
  intro equal
  change EStateM.Result.ok before before = .error fault after at equal
  cases equal

theorem modify_ok {change : σ → σ} {before after : σ} :
    (modify change : EStateM ε σ Unit) before = .ok () after ↔ change before = after := by
  change EStateM.Result.ok () (change before) = .ok () after ↔ _
  simp

theorem modify_error {change : σ → σ} {before after : σ} {fault : ε} :
    (modify change : EStateM ε σ Unit) before ≠ .error fault after := by
  intro equal
  change EStateM.Result.ok () (change before) = .error fault after at equal
  cases equal

theorem set_error {fresh before after : σ} {fault : ε} :
    (set fresh : EStateM ε σ Unit) before ≠ .error fault after := by
  intro equal
  change EStateM.Result.ok () fresh = .error fault after at equal
  cases equal

theorem modifyGet_eq (change : σ → α × σ) (before : σ) :
    (modifyGet change : EStateM ε σ α) before = .ok (change before).1 (change before).2 :=
  rfl

theorem modifyGet_ok {change : σ → α × σ} {before after : σ} {result : α} :
    (modifyGet change : EStateM ε σ α) before = .ok result after ↔
      change before = (result, after) := by
  rw [modifyGet_eq]
  simp [Prod.ext_iff]

/-! Relations that a computation sustains -/

/-- However the computation ends, its last state is related to its first. -/
def Sustains (relation : σ → σ → Prop) (action : EStateM ε σ α) : Prop :=
  ∀ before,
    (∀ result after, action before = .ok result after → relation before after) ∧
      ∀ fault after, action before = .error fault after → relation before after

namespace Sustains

variable {relation : σ → σ → Prop}

theorem of_ok {action : EStateM ε σ α} (sustained : Sustains relation action) {before after : σ}
    {result : α} (ended : action before = .ok result after) : relation before after :=
  (sustained before).1 result after ended

theorem of_error {action : EStateM ε σ α} (sustained : Sustains relation action)
    {before after : σ} {fault : ε} (ended : action before = .error fault after) :
    relation before after :=
  (sustained before).2 fault after ended

/-- A computation that changes nothing. -/
theorem of_still (reflexive : ∀ state, relation state state) {action : EStateM ε σ α}
    (still : ∀ before,
      (∃ result, action before = .ok result before) ∨ ∃ fault, action before = .error fault before) :
    Sustains relation action := by
  intro before
  constructor
  · intro result after ended
    rcases still before with ⟨_, same⟩ | ⟨_, same⟩ <;> rw [same] at ended <;> cases ended
    exact reflexive before
  · intro fault after ended
    rcases still before with ⟨_, same⟩ | ⟨_, same⟩ <;> rw [same] at ended <;> cases ended
    exact reflexive before

theorem pure (reflexive : ∀ state, relation state state) (value : α) :
    Sustains relation (pure value : EStateM ε σ α) :=
  of_still reflexive fun _ => .inl ⟨value, rfl⟩

theorem throw (reflexive : ∀ state, relation state state) (fault : ε) :
    Sustains relation (throw fault : EStateM ε σ α) :=
  of_still reflexive fun _ => .inr ⟨fault, rfl⟩

theorem get (reflexive : ∀ state, relation state state) :
    Sustains relation (MonadState.get : EStateM ε σ σ) :=
  of_still reflexive fun before => .inl ⟨before, rfl⟩

theorem modify {change : σ → σ} (related : ∀ state, relation state (change state)) :
    Sustains relation (modify change : EStateM ε σ Unit) := by
  intro before
  refine ⟨fun result after ended => ?_, fun fault after ended => absurd ended modify_error⟩
  rw [← modify_ok.mp ended]
  exact related before

theorem modifyGet {change : σ → α × σ} (related : ∀ state, relation state (change state).2) :
    Sustains relation (MonadStateOf.modifyGet change : EStateM ε σ α) := by
  intro before
  constructor
  · intro result after ended
    have changed := modifyGet_ok.mp ended
    simpa [changed] using related before
  · intro fault after ended
    cases ended

theorem bind (transitive : ∀ {first second third : σ},
      relation first second → relation second third → relation first third)
    {first : EStateM ε σ α} {next : α → EStateM ε σ β} (head : Sustains relation first)
    (tail : ∀ value, Sustains relation (next value)) : Sustains relation (first >>= next) := by
  intro before
  constructor
  · intro result after ended
    obtain ⟨value, between, early, late⟩ := bind_ok.mp ended
    exact transitive (head.of_ok early) ((tail value).of_ok late)
  · intro fault after ended
    rcases bind_error.mp ended with early | ⟨value, between, early, late⟩
    · exact head.of_error early
    · exact transitive (head.of_ok early) ((tail value).of_error late)

end Sustains

/-! Two computations side by side -/

section Agreement

variable {α' β' : Type}

/-- From related states the two computations end in related states, both with alike results or both
with one fault. -/
def Agree (relation : σ → σ → Prop) (alike : α → α' → Prop) (left : EStateM ε σ α)
    (right : EStateM ε σ α') : Prop :=
  ∀ state other, relation state other →
    match left state, right other with
    | .ok value after, .ok value' after' => alike value value' ∧ relation after after'
    | .error fault after, .error fault' after' => fault = fault' ∧ relation after after'
    | _, _ => False

namespace Agree

variable {relation : σ → σ → Prop} {alike : α → α' → Prop} {also : β → β' → Prop}

theorem pure {value : α} {value' : α'} (agreed : alike value value') :
    Agree relation alike (pure value : EStateM ε σ α) (Pure.pure value') :=
  fun _ _ related => ⟨agreed, related⟩

theorem throw (fault : ε) :
    Agree relation alike (throw fault : EStateM ε σ α) (MonadExcept.throw fault) :=
  fun _ _ related => ⟨rfl, related⟩

theorem get :
    Agree relation relation (MonadState.get : EStateM ε σ σ) (MonadState.get : EStateM ε σ σ) :=
  fun _ _ related => ⟨related, related⟩

theorem modify {change change' : σ → σ}
    (kept : ∀ state other, relation state other → relation (change state) (change' other)) :
    Agree relation (fun _ _ => True) (modify change : EStateM ε σ Unit) (MonadStateOf.modifyGet fun state => ((), change' state)) :=
  fun _ _ related => ⟨trivial, kept _ _ related⟩

theorem mono {left : EStateM ε σ α} {right : EStateM ε σ α'} {other : α → α' → Prop}
    (agreed : Agree relation alike left right)
    (weaker : ∀ value value', alike value value' → other value value') :
    Agree relation other left right := by
  intro state state' related
  have ended := agreed state state' related
  revert ended
  cases left state <;> cases right state'
  · exact fun ended => ⟨weaker _ _ ended.1, ended.2⟩
  · exact id
  · exact id
  · exact id

theorem bind {first : EStateM ε σ α} {first' : EStateM ε σ α'} {next : α → EStateM ε σ β}
    {next' : α' → EStateM ε σ β'} (head : Agree relation alike first first')
    (tail : ∀ value value', alike value value' → Agree relation also (next value) (next' value')) :
    Agree relation also (first >>= next) (first' >>= next') := by
  intro state other related
  have begun := head state other related
  change match EStateM.bind first next state, EStateM.bind first' next' other with
    | .ok value after, .ok value' after' => also value value' ∧ relation after after'
    | .error fault after, .error fault' after' => fault = fault' ∧ relation after after'
    | _, _ => False
  unfold EStateM.bind
  cases ended : first state with
  | ok value after =>
    cases ended' : first' other with
    | ok value' after' =>
      rw [ended, ended'] at begun
      exact tail value value' begun.1 after after' begun.2
    | error fault after' => simp [ended, ended'] at begun
  | error fault after =>
    cases ended' : first' other with
    | ok value' after' => simp [ended, ended'] at begun
    | error fault' after' => simpa only [ended, ended'] using begun

section Ended

variable {left : EStateM ε σ α} {right : EStateM ε σ α'} {state other after : σ}

theorem of_ok (agreed : Agree relation alike left right) (related : relation state other) {value : α}
    (ended : left state = .ok value after) :
    ∃ value' after', right other = .ok value' after' ∧ alike value value' ∧ relation after after' := by
  have both := agreed state other related
  rw [ended] at both
  cases ended' : right other with
  | ok value' after' =>
    rw [ended'] at both
    exact ⟨value', after', rfl, both⟩
  | error fault after' =>
    rw [ended'] at both
    exact both.elim

theorem of_error (agreed : Agree relation alike left right) (related : relation state other) {fault : ε}
    (ended : left state = .error fault after) :
    ∃ after', right other = .error fault after' ∧ relation after after' := by
  have both := agreed state other related
  rw [ended] at both
  cases ended' : right other with
  | ok value' after' =>
    rw [ended'] at both
    exact both.elim
  | error fault' after' =>
    rw [ended'] at both
    obtain ⟨rfl, related⟩ := both
    exact ⟨after', rfl, related⟩

end Ended

end Agree

end Agreement

/-! Computations that may break, but do not fail -/

/-- An error of the computation is a defect, never a failure to report. -/
def Unfailing (action : EStateM Fault σ α) : Prop :=
  ∀ before fault after, action before = .error fault after → ∃ defect, fault = .broken defect

namespace Unfailing

theorem pure (value : α) : Unfailing (Pure.pure value : EStateM Fault σ α) :=
  fun _ _ _ ended => absurd ended pure_error

theorem broken (defect : Defect) : Unfailing (MonadExcept.throw (.broken defect) : EStateM Fault σ α) :=
  fun _ _ _ ended => ⟨defect, (throw_error.mp ended).1.symm⟩

theorem get : Unfailing (MonadState.get : EStateM Fault σ σ) :=
  fun _ _ _ ended => absurd ended get_error

theorem set (state : σ) : Unfailing (MonadStateOf.set state : EStateM Fault σ Unit) :=
  fun _ _ _ ended => absurd ended set_error

theorem modify (change : σ → σ) : Unfailing (modifyGet (fun state => ((), change state)) : EStateM Fault σ Unit) :=
  fun _ _ _ ended => absurd ended modify_error

theorem bind {first : EStateM Fault σ α} {next : α → EStateM Fault σ β} (head : Unfailing first)
    (tail : ∀ value, Unfailing (next value)) : Unfailing (first >>= next) := by
  intro before fault after ended
  rcases bind_error.mp ended with failed | ⟨value, between, -, failed⟩
  · exact head _ _ _ failed
  · exact tail value _ _ _ failed

theorem not_failed {action : EStateM Fault σ α} (unfailing : Unfailing action) {before after : σ}
    {error : RenderError} : action before ≠ .error (.failed error) after := by
  intro ended
  obtain ⟨defect, impossible⟩ := unfailing _ _ _ ended
  cases impossible

end Unfailing

end LiveTemplate.Effects
