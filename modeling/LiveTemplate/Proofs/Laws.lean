import LiveTemplate.Proofs.Effects
import LiveTemplate.Render.Machine

/-!
Laws that computations keep. A law says what holds of the state whenever a step ends well, how a
later state may differ from an earlier one, and in which states a computation may give up. A
computation is taken apart at a given state: each rule tells from the first step what is left to be
shown of the rest.
-/

namespace LiveTemplate

structure Law (σ : Type) where
  /-- What holds whenever a step has ended well. -/
  holds : σ → Prop
  /-- How a state may come after an earlier one. -/
  moves : σ → σ → Prop
  /-- How a computation may end without a result. -/
  ends : Fault → σ → Prop
  refl : ∀ state, moves state state
  trans : ∀ {first second third}, moves first second → moves second third → moves first third

/-- From `before` the computation ends well in a state for which `post` holds, or else as the law
admits it. -/
def Law.Goes {σ α : Type} (law : Law σ) (before : σ) (action : EStateM Fault σ α)
    (post : α → σ → Prop) : Prop :=
  match action before with
  | .ok result after => law.holds after ∧ law.moves before after ∧ post result after
  | .error fault after => law.ends fault after

namespace Law.Goes

variable {σ α β : Type} {law : Law σ} {before : σ} {post : α → σ → Prop} {last : β → σ → Prop}

theorem of_ok {action : EStateM Fault σ α} (goes : law.Goes before action post) {result : α}
    {after : σ} (ended : action before = .ok result after) :
    law.holds after ∧ law.moves before after ∧ post result after := by
  unfold Goes at goes
  rwa [ended] at goes

theorem of_error {action : EStateM Fault σ α} (goes : law.Goes before action post) {fault : Fault}
    {after : σ} (ended : action before = .error fault after) : law.ends fault after := by
  unfold Goes at goes
  rwa [ended] at goes

theorem intro {action : EStateM Fault σ α}
    (well : ∀ result after, action before = .ok result after →
      law.holds after ∧ law.moves before after ∧ post result after)
    (badly : ∀ fault after, action before = .error fault after → law.ends fault after) :
    law.Goes before action post := by
  unfold Goes
  cases ended : action before with
  | ok result after => exact well result after ended
  | error fault after => exact badly fault after ended

theorem mono {action : EStateM Fault σ α} {right : α → σ → Prop}
    (goes : law.Goes before action post)
    (weaker : ∀ result after, law.holds after → law.moves before after → post result after →
      right result after) : law.Goes before action right := by
  refine intro (fun result after ended => ?_) fun fault after ended => goes.of_error ended
  obtain ⟨holds, moves, right⟩ := goes.of_ok ended
  exact ⟨holds, moves, weaker result after holds moves right⟩

/-- The same with the run itself. -/
theorem ran {action : EStateM Fault σ α} (goes : law.Goes before action post) :
    law.Goes before action fun result after =>
      action before = .ok result after ∧ post result after := by
  refine intro (fun result after ended => ?_) fun fault after ended => goes.of_error ended
  obtain ⟨holds, moves, right⟩ := goes.of_ok ended
  exact ⟨holds, moves, ended, right⟩

theorem throw {fault : Fault} (ends : law.ends fault before) :
    law.Goes before (MonadExcept.throw fault : EStateM Fault σ α) post := ends

/-- The outcome of a look-up. -/
theorem orElse {outcome : Except Defect α} {next : α → EStateM Fault σ β}
    (fails : ∀ defect, outcome = .error defect → law.ends (.broken defect) before)
    (rest : ∀ value, outcome = .ok value → law.Goes before (next value) last) :
    law.Goes before (liftM outcome >>= next) last := by
  cases outcome with
  | ok value => exact rest value rfl
  | error defect => exact fails defect rfl

theorem get_bind {next : σ → EStateM Fault σ β} (rest : law.Goes before (next before) last) :
    law.Goes before (MonadState.get >>= next) last := rest

theorem pure {result : α} (holds : law.holds before) (right : post result before) :
    law.Goes before (Pure.pure result) post := ⟨holds, law.refl before, right⟩

theorem bind {first : EStateM Fault σ α} {next : α → EStateM Fault σ β}
    (early : law.Goes before first post)
    (late : ∀ value between, law.holds between → law.moves before between → post value between →
      law.Goes between (next value) last) : law.Goes before (first >>= next) last := by
  refine intro (fun result after ended => ?_) fun fault after ended => ?_
  · obtain ⟨value, between, one, two⟩ := Effects.bind_ok.mp ended
    obtain ⟨held, moved, right⟩ := early.of_ok one
    obtain ⟨holds, moves, wanted⟩ := (late value between held moved right).of_ok two
    exact ⟨holds, law.trans moved moves, wanted⟩
  · rcases Effects.bind_error.mp ended with failed | ⟨value, between, one, failed⟩
    · exact early.of_error failed
    · obtain ⟨held, moved, right⟩ := early.of_ok one
      exact (late value between held moved right).of_error failed

/-- The same with what the first step leaves written out. -/
theorem through {first : EStateM Fault σ α} {next : α → EStateM Fault σ β}
    (between : α → σ → Prop) (early : law.Goes before first between)
    (late : ∀ value after, law.holds after → law.moves before after → between value after →
      law.Goes after (next value) last) : law.Goes before (first >>= next) last :=
  early.bind late

/-- A step whose outcome is known and that changes nothing. -/
theorem asked {first : EStateM Fault σ α} {next : α → EStateM Fault σ β} {value : α}
    (done : first before = .ok value before) (rest : law.Goes before (next value) last) :
    law.Goes before (first >>= next) last := by
  unfold Goes
  rwa [Effects.bind_of_ok done]

/-- A step whose outcome is known. -/
theorem stepped {first : EStateM Fault σ α} {next : α → EStateM Fault σ β} {value : α} {between : σ}
    (done : first before = .ok value between) (moves : law.moves before between)
    (rest : law.Goes between (next value) last) : law.Goes before (first >>= next) last := by
  refine intro (fun result after ended => ?_) fun fault after failed => ?_
  · rw [Effects.bind_of_ok done] at ended
    obtain ⟨holds, later, wanted⟩ := rest.of_ok ended
    exact ⟨holds, law.trans moves later, wanted⟩
  · rw [Effects.bind_of_ok done] at failed
    exact rest.of_error failed

theorem refused {first : EStateM Fault σ α} {next : α → EStateM Fault σ β} {fault : Fault}
    (failed : first before = .error fault before) (ends : law.ends fault before) :
    law.Goes before (first >>= next) last := by
  unfold Goes
  rwa [Effects.bind_of_error failed]

theorem forM {items : List α} {action : α → EStateM Fault σ Unit} (holds : law.holds before)
    (each : ∀ item ∈ items, ∀ state, law.holds state → law.moves before state →
      law.Goes state (action item) fun _ _ => True) :
    law.Goes before (items.forM action) fun _ _ => True := by
  suffices general : ∀ state, law.holds state → law.moves before state →
      law.Goes state (items.forM action) fun _ _ => True from general before holds (law.refl _)
  induction items with
  | nil => exact fun state holds _ => .pure holds trivial
  | cons item rest ih =>
    intro state holds moves
    refine .bind (each item List.mem_cons_self state holds moves) fun _ after holds later _ => ?_
    exact ih (fun other member => each other (List.mem_cons_of_mem _ member)) after holds
      (law.trans moves later)

/-- A change of the state that is lawful, and the rest. -/
theorem modify_bind {change : σ → σ} {next : Unit → EStateM Fault σ β}
    (moves : law.moves before (change before))
    (rest : law.Goes (change before) (next ()) last) :
    law.Goes before ((modifyGet fun state => ((), change state)) >>= next) last := by
  refine intro (fun result after ended => ?_) fun fault after ended => rest.of_error ended
  obtain ⟨holds, later, wanted⟩ := rest.of_ok ended
  exact ⟨holds, law.trans moves later, wanted⟩

end Law.Goes

end LiveTemplate
