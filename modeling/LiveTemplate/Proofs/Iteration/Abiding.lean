import LiveTemplate.Iteration.Sync
import LiveTemplate.Proofs.Laws

/-!
Laws that a synchronisation keeps. If the readings of a walk and the edits of a target keep a law, so
does the synchronisation as a whole, whether the target carries out all edits or refuses one.
-/

namespace LiveTemplate

namespace SyncTarget

variable {σ : Type} {target : SyncTarget σ} {law : Law σ} {helpers : Helpers} {keyed : KeyedList}
  {fit : σ → Edit → Prop} {state : σ}

/-- An edit that is refused may have changed the state as well. -/
theorem accept_goes {edit : Edit} {strict : Law σ} {post : Unit → σ → Prop}
    (goes : strict.Goes state (target.apply edit) post)
    (well : ∀ after, strict.holds after → strict.moves state after →
      law.holds after ∧ law.moves state after)
    (badly : ∀ fault after, strict.ends fault after →
      law.ends fault after ∧ ((∃ error, fault = .failed error) →
        law.holds after ∧ law.moves state after)) :
    law.Goes state (target.accept edit) fun _ _ => True := by
  unfold Law.Goes at goes ⊢
  unfold accept
  revert goes
  cases target.apply edit state with
  | ok result after =>
    rintro ⟨holds, moves, -⟩
    exact ⟨(well after holds moves).1, (well after holds moves).2, trivial⟩
  | error fault after =>
    intro ends
    cases fault with
    | failed error =>
      have kept := (badly _ after ends).2 ⟨error, rfl⟩
      exact ⟨kept.1, kept.2, trivial⟩
    | broken defect => exact (badly _ after ends).1

/-- The steps of a synchronisation keep the law. The edits that a walk asks for are fit to be carried
out. -/
structure Abides (target : SyncTarget σ) (law : Law σ) (helpers : Helpers) (keyed : KeyedList)
    (fit : σ → Edit → Prop) : Prop where
  takes : ∀ {state}, law.holds state →
    law.Goes state (target.onStore (keyed.takePass helpers)) fun _ _ => True
  finds : ∀ {state}, law.holds state →
    law.Goes state (target.onStore (Reading.artifacts keyed.list)) fun _ _ => True
  meets : ∀ {state} (walk : Walk) (element : PassItem), law.holds state →
    law.Goes state (target.onStore (walk.meet element)) fun result after =>
      ∀ edit ∈ result.2, fit after edit
  keeps : ∀ {state} (synced : Artifacts), law.holds state →
    law.Goes state (target.onStore do
      let current ← Reading.artifacts keyed.list
      Reading.setArtifacts keyed.list { synced with pending := current.pending }) fun _ _ => True
  accepts : ∀ {state} edit, law.holds state → fit state edit →
    law.Goes state (target.accept edit) fun _ _ => True
  deletes : ∀ state key, fit state (.delete key)
  done : ∀ state, fit state .done
  refuses : ∀ {state} error, law.holds state → law.ends (.failed error) state

namespace Abides

variable (abides : target.Abides law helpers keyed fit)

include abides

theorem mergePass (pass : Pass) (walk : Walk) (holds : law.holds state) :
    law.Goes state (target.mergePass pass walk) fun _ _ => True := by
  induction pass generalizing walk state with
  | nil => exact .pure holds trivial
  | cons element pass ih =>
    refine .bind (abides.meets walk element holds) fun result between holds _ fits => ?_
    split
    · exact ih _ holds
    · rename_i walk' edit
      refine .bind (abides.accepts edit holds (fits edit rfl)) fun refusal _ holds _ _ => ?_
      split
      · exact ih _ holds
      · exact .pure holds trivial

theorem prune (ahead : List Item) (walk : Walk) (holds : law.holds state) :
    law.Goes state (target.prune ahead walk) fun _ _ => True := by
  induction ahead generalizing walk state with
  | nil => exact .pure holds trivial
  | cons item rest ih =>
    unfold SyncTarget.prune
    split
    · exact ih _ holds
    · refine .bind (abides.accepts _ holds (abides.deletes state item.key)) fun refusal _ holds _ _ => ?_
      split
      · exact ih _ holds
      · exact .pure holds trivial

theorem walkThrough (pass : Pass) (artifacts : Artifacts) (holds : law.holds state) :
    law.Goes state (target.walkThrough pass artifacts) fun _ _ => True := by
  refine .bind (abides.mergePass pass _ holds) fun merged _ holds _ _ => ?_
  dsimp only
  split
  · exact .pure holds trivial
  · refine .bind (abides.prune _ _ holds) fun pruned between holds _ _ => ?_
    split
    · exact .pure holds trivial
    · refine .bind (abides.accepts .done holds (abides.done between)) fun refusal _ holds _ _ => ?_
      exact .pure holds trivial

/-- A synchronisation keeps the law, however it ends. -/
theorem sync (holds : law.holds state) :
    law.Goes state (target.sync helpers keyed) fun _ _ => True := by
  refine .bind (abides.takes holds) fun pass _ holds _ _ => ?_
  refine .bind (abides.finds holds) fun artifacts _ holds _ _ => ?_
  refine .bind (abides.walkThrough pass artifacts holds) fun outcome _ holds _ _ => ?_
  refine .bind (abides.keeps outcome.1 holds) fun _ _ holds _ _ => ?_
  split
  · exact .throw (abides.refuses _ holds)
  · exact .pure holds trivial

end Abides

end SyncTarget

end LiveTemplate
