import LiveTemplate.Proofs.Iteration.History
import LiveTemplate.Proofs.Laws

/-!
Synchronisations that are interrupted. A synchronisation ends at the first insertion that the target
refuses, and what it leaves is a start like any other: the list and the target hold the same keys in
the same order, and nothing marks how far the walk had come. With a target that carries out every
edit a synchronisation always comes to its end, so the next one does what was left undone.
-/

namespace LiveTemplate

open Effects

/-- The cells of the item that the edit is about. -/
def Edit.cells : Edit → List CellId
  | .retain item | .insert item _ | .move item _ => item.cells
  | .delete _ | .done => []

/-! Nothing that a walk asks of the store is refused -/

theorem Reading.updateCell_succeeds {id : CellId} {store : Store} (present : id < store.cells.size)
    (value : Value) : ∃ changed after, updateCell id value store = .ok changed after ∧
      after.cells.size = store.cells.size := by
  have held : readCell id store = .ok store.cells[id].value store := by
    rw [readCell_eq, Array.getElem?_eq_getElem present]
  unfold updateCell
  rw [bind_of_ok held]
  by_cases equal : (store.cells[id].value == value) = true
  · rw [if_pos equal]
    exact ⟨false, store, rfl, rfl⟩
  · rw [if_neg equal]
    exact ⟨true, _, rfl, Array.size_setIfInBounds⟩

namespace Walk

theorem updateRefs_succeeds {refs : ItemRefs} {store : Store}
    (present : ∀ id ∈ refs.cells, id < store.cells.size) (element : PassItem) :
    ∃ after, updateRefs refs element store = .ok () after := by
  obtain ⟨_, between, first, size⟩ :=
    Reading.updateCell_succeeds (present refs.value (by simp [ItemRefs.cells])) element.value
  have memo : refs.memo < between.cells.size :=
    size.symm ▸ present refs.memo (by simp [ItemRefs.cells])
  obtain ⟨_, after, second, -⟩ := Reading.updateCell_succeeds memo element.memo
  refine ⟨after, ?_⟩
  unfold updateRefs
  rw [bind_of_ok first, bind_of_ok second]
  rfl

/-- The item of an element that the index knows is there, and so are its cells. -/
theorem meet_succeeds {walk : Walk} {store : Store}
    (indexed : walk.artifacts.Indexes (walk.items.map Item.face))
    (houses : store.Houses (walk.items.map Item.face)) (element : PassItem) :
    ∃ result after, walk.meet element store = .ok result after := by
  have given : ∀ item ∈ walk.items, ∃ after, updateRefs item.refs element store = .ok () after :=
    fun item member => updateRefs_succeeds
      (fun id inside => houses.bound (List.mem_map_of_mem (f := Item.face) member) inside) element
  unfold meet
  split
  · cases ahead : walk.ahead with
    | nil => exact ⟨_, store, rfl⟩
    | cons current rest =>
      obtain ⟨after, updated⟩ := given current (by simp [items, ahead])
      exact ⟨_, after, bind_of_ok updated⟩
  · cases search : walk.artifacts.get? element.key with
    | none => exact ⟨_, _, rfl⟩
    | some id =>
      dsimp only
      cases spot : walk.items.find? (fun item => decide (item.id = id)) with
      | none =>
        obtain ⟨face, inside, -, number⟩ := (indexed.found _ _).mp search
        obtain ⟨item, member, rfl⟩ := List.mem_map.mp inside
        exact absurd (decide_eq_true number) (List.find?_eq_none.mp spot item member)
      | some found =>
        obtain ⟨after, updated⟩ := given found (List.mem_of_find?_eq_some spot)
        dsimp only
        rw [bind_of_ok updated]
        split
        · exact ⟨_, after, rfl⟩
        · exact ⟨_, after, rfl⟩

/-- The edit for an element is about an item of the walk. -/
theorem Meets.cells_housed {walk next : Walk} {key : Key} {edit : Edit} {store : Store}
    (meets : Meets walk key next (some edit)) (houses : store.Houses (next.items.map Item.face)) :
    ∀ id ∈ edit.cells, id < store.cells.size := by
  suffices about : ∃ item ∈ next.items, edit.cells = item.refs.cells by
    obtain ⟨item, member, same⟩ := about
    rw [same]
    exact fun id inside => houses.bound (List.mem_map_of_mem (f := Item.face) member) inside
  cases meets with
  | @retain current rest ahead same => exact ⟨current.retain, by simp [items], rfl⟩
  | @insert refs fresh same =>
    refine ⟨⟨(walk.artifacts.allocate refs.key).1, refs, true, false⟩, ?_, rfl⟩
    simp [items, insertHere]
  | @move front back found place same passed => exact ⟨found.retain, by simp [items], rfl⟩

end Walk

namespace PlainTarget

variable {σ : Type} {plain : PlainTarget σ} {helpers : Helpers} {keyed : KeyedList}

/-- In the states that are willing, the target carries out every edit about items with cells, and
stays willing. -/
structure Accepts (plain : PlainTarget σ) (willing : σ → Prop) : Prop where
  onStore : ∀ {α : Type} {reading : Reading α} {before after : σ} {result : α}, willing before →
    plain.target.onStore reading before = .ok result after → willing after
  apply : ∀ {edit : Edit} {before : σ}, plain.steady before → willing before →
    (∀ id ∈ edit.cells, id < (plain.store before).cells.size) →
      ∃ after, plain.target.apply edit before = .ok () after ∧ willing after

/-- A step of the target comes to its end, and leaves it willing. -/
def comesThrough (plain : PlainTarget σ) (willing : σ → Prop) : Law σ where
  holds := fun state => plain.steady state ∧ willing state
  moves := fun _ _ => True
  ends := fun _ _ => False
  refl := fun _ => trivial
  trans := fun _ _ => trivial

section Willing

variable {willing : σ → Prop} (accepts : plain.Accepts willing)

include accepts

theorem Accepts.onStore_goes {α : Type} {reading : Reading α} {state : σ}
    (holds : (plain.comesThrough willing).holds state)
    (succeeds : ∃ result after, reading (plain.store state) = .ok result after) :
    (plain.comesThrough willing).Goes state (plain.target.onStore reading) fun _ _ => True := by
  refine .intro (fun result after ended => ?_) fun fault after failed => ?_
  · exact ⟨⟨(plain.onStore_ok ended).2.2.2 holds.1, accepts.onStore holds.2 ended⟩, trivial, trivial⟩
  · obtain ⟨result, later, done⟩ := succeeds
    have read := (plain.onStore_error failed).1
    rw [done] at read
    cases read

theorem Accepts.accept_goes {edit : Edit} {state : σ}
    (holds : (plain.comesThrough willing).holds state)
    (present : ∀ id ∈ edit.cells, id < (plain.store state).cells.size) :
    (plain.comesThrough willing).Goes state (plain.target.accept edit) fun refusal _ =>
      refusal = none := by
  obtain ⟨after, done, stays⟩ := accepts.apply holds.1 holds.2 present
  have accepted : plain.target.accept edit state = .ok none after := by
    unfold SyncTarget.accept
    rw [done]
  unfold Law.Goes
  rw [accepted]
  exact ⟨⟨(plain.apply_ok holds.1 done).2.2.2, stays⟩, trivial, rfl⟩

theorem Accepts.mergePass_goes {old : List Item} (unmarked : ∀ item ∈ old, item.Unmarked)
    (pass : Pass) : ∀ {consumed : Pass} {walk : Walk} {state : σ},
      plain.Midway old consumed walk state → ((consumed ++ pass).map PassItem.key).Nodup →
      (plain.comesThrough willing).holds state →
      (plain.comesThrough willing).Goes state (plain.target.mergePass pass walk) fun result _ =>
        result.2 = none := by
  -- The induction goes along the pass, with `Midway` between two of its elements.
  induction pass with
  | nil => exact fun _ _ holds => .pure holds rfl
  | cons element pass ih =>
    intro consumed walk state midway distinct holds
    have fresh : element.key ∉ consumed.map PassItem.key := by
      rw [List.map_append, List.map_cons] at distinct
      have apart := (List.nodup_cons.mp (List.nodup_middle.mp distinct)).1
      exact fun member => apart (List.mem_append_left _ member)
    have rest : ((consumed ++ [element] ++ pass).map PassItem.key).Nodup := by
      rw [List.append_assoc]
      exact distinct
    refine .bind (accepts.onStore_goes holds
      (Walk.meet_succeeds midway.merged.indexed midway.follows.houses element)).ran ?_
    rintro ⟨next, edit⟩ between holds - ⟨met, -⟩
    have meeting := midway.meet unmarked fresh met
    cases edit with
    | none => exact ih (meeting.step midway unmarked fresh meeting.steady (.refl _) rfl) rest holds
    | some edit =>
      refine .bind (accepts.accept_goes holds (meeting.meets.cells_housed meeting.houses)).ran ?_
      rintro refusal later holds - ⟨accepted, rfl⟩
      obtain ⟨keeps, steady, ⟨-, keys, -⟩ | ⟨refused, -⟩⟩ :=
        plain.accept_ok meeting.steady accepted
      · exact ih (meeting.step midway unmarked fresh steady keeps keys) rest holds
      · cases refused

theorem Accepts.prune_goes (items : List Item) : ∀ {walk : Walk} {state : σ},
    (plain.comesThrough willing).holds state →
    (plain.comesThrough willing).Goes state (plain.target.prune items walk) fun result _ =>
      result.2 = none := by
  induction items with
  | nil => exact fun holds => .pure holds rfl
  | cons item rest ih =>
    intro walk state holds
    unfold SyncTarget.prune
    split
    · exact ih holds
    · refine .bind (accepts.accept_goes holds (by simp [Edit.cells])) ?_
      rintro refusal later holds - rfl
      exact ih holds

theorem Accepts.walkThrough_goes {pass : Pass} {artifacts : Artifacts} {state : σ}
    (settled : plain.Settled artifacts state) (distinct : (pass.map PassItem.key).Nodup)
    (holds : (plain.comesThrough willing).holds state) :
    (plain.comesThrough willing).Goes state (plain.target.walkThrough pass artifacts)
      fun result _ => result.2 = none := by
  have start : plain.Midway artifacts.items [] (.ofArtifacts artifacts) state :=
    ⟨.start settled.indexed settled.unmarked, settled.follows, by simp [Store.Shown]⟩
  refine .bind (accepts.mergePass_goes settled.unmarked pass start distinct holds) ?_
  rintro ⟨walk, refusal⟩ merged holds - rfl
  refine .bind (accepts.prune_goes _ holds) ?_
  rintro ⟨last, refusal⟩ pruned holds - rfl
  refine .bind (accepts.accept_goes holds (by simp [Edit.cells])) ?_
  rintro refusal done holds - rfl
  exact .pure holds rfl

/-- With a target that is willing a synchronisation comes to its end, once there is a pass. -/
theorem Accepts.sync_succeeds (quiet : helpers.Quiet) {before started : σ} {pass : Pass}
    (tracks : plain.Tracks keyed before) (willingly : willing before)
    (taken : plain.target.onStore (keyed.takePass helpers) before = .ok pass started)
    (distinct : (pass.map PassItem.key).Nodup) :
    ∃ after, plain.target.sync helpers keyed before = .ok () after := by
  obtain ⟨artifacts, found, settled⟩ := tracks
  obtain ⟨read, keys, -, steady⟩ := plain.onStore_ok taken
  have spares := (KeyedList.takePass_quiet quiet keyed).of_ok read
  have stays := steady settled.follows.steady
  obtain ⟨later, there, -, settled⟩ := settled.of_spares found spares keys stays
  have goes : (plain.comesThrough willing).Goes before (plain.target.sync helpers keyed)
      fun _ _ => True := by
    refine .stepped taken trivial ?_
    have ready : (plain.comesThrough willing).holds started :=
      ⟨stays, accepts.onStore willingly taken⟩
    refine .bind (accepts.onStore_goes ready ⟨later, _, Reading.artifacts_ok.mpr ⟨there, rfl⟩⟩).ran ?_
    rintro held between ready - ⟨asked, -⟩
    obtain ⟨asked, keys, -, steady⟩ := plain.onStore_ok asked
    obtain ⟨here, same⟩ := Reading.artifacts_ok.mp asked
    cases there.symm.trans here
    obtain ⟨_, again, -, settled⟩ :=
      settled.of_spares there (same ▸ .refl _) keys (steady settled.follows.steady)
    rw [← same] at again
    cases there.symm.trans again
    refine .bind (accepts.walkThrough_goes settled distinct ready).ran ?_
    rintro ⟨synced, refusal⟩ last ready - ⟨walked, rfl⟩
    obtain ⟨kept, -⟩ := walkThrough_ok settled distinct walked
    obtain ⟨current, still, -⟩ := kept.lists (same ▸ there)
    have put : ∃ result stored, (do
        let current ← Reading.artifacts keyed.list
        Reading.setArtifacts keyed.list { synced with pending := current.pending })
          (plain.store last) = .ok result stored :=
      ⟨(), _, bind_of_ok (Reading.artifacts_ok.mpr ⟨still, rfl⟩)⟩
    exact .bind (accepts.onStore_goes ready put) fun _ _ ready _ _ => .pure ready trivial
  unfold Law.Goes at goes
  cases ended : plain.target.sync helpers keyed before with
  | ok done after => exact ⟨after, rfl⟩
  | error fault after => simp [ended, comesThrough] at goes

end Willing

/-- A synchronisation that comes to its end makes the list and the target what its pass says. -/
theorem Tracks.synchronised (quiet : helpers.Quiet) {before started after : σ} {pass : Pass}
    (tracks : plain.Tracks keyed before)
    (taken : plain.target.onStore (keyed.takePass helpers) before = .ok pass started)
    (distinct : (pass.map PassItem.key).Nodup)
    (ended : plain.target.sync helpers keyed before = .ok () after) :
    ∃ synced, (plain.store after).lists[keyed.list]? = some synced ∧
      synced.items.map Item.key = pass.map PassItem.key ∧
      plain.keys after = pass.map PassItem.key := by
  obtain ⟨artifacts, found, settled⟩ := tracks
  have synchronises : plain.Synchronises helpers keyed before after none := ended
  rcases synchronises_cases synchronises with ⟨impossible, -⟩ | ⟨⟨run⟩⟩
  · cases impossible
  have same : run.pass = pass := by
    have both := run.taken.symm.trans taken
    injection both
  obtain ⟨synced, there, settled, outcome, -⟩ := run.settles quiet settled found (same ▸ distinct)
  have keys := (outcome rfl).1
  rw [same] at keys
  refine ⟨synced, there, keys, ?_⟩
  rw [settled.follows.keys, Item.keys_of_faces, keys]

/-- A synchronisation that fails leaves the list and the target with the same keys in the same order,
and no marks. If there was a pass, the target refused to insert one of its elements, whose key is not
mapped then. From there as from every other state that list and target can come to, a
synchronisation that comes to its end makes both what its pass says, and it does come to its end if
the target carries out all edits. -/
theorem sync_resumes (quiet : helpers.Quiet) {before after : σ} {error : RenderError}
    (course : plain.Course helpers keyed before)
    (distinct : ∀ pass started, plain.target.onStore (keyed.takePass helpers) before =
      .ok pass started → (pass.map PassItem.key).Nodup)
    (failed : plain.target.sync helpers keyed before = .error (.failed error) after) :
    (∃ left, (plain.store after).lists[keyed.list]? = some left ∧
      left.items.map Item.key = plain.keys after ∧ (∀ item ∈ left.items, item.Unmarked) ∧
      ∀ pass started, plain.target.onStore (keyed.takePass helpers) before = .ok pass started →
        ∃ key ∈ pass.map PassItem.key, left.get? key = none ∧
          ∃ refused, plain.Refuses key error refused ∧ plain.keys refused = plain.keys after) ∧
    plain.Course helpers keyed after ∧
    ∀ resumed, plain.Course helpers keyed resumed → ∀ pass started,
      plain.target.onStore (keyed.takePass helpers) resumed = .ok pass started →
      (pass.map PassItem.key).Nodup →
        (∀ last, plain.target.sync helpers keyed resumed = .ok () last →
          ∃ synced, (plain.store last).lists[keyed.list]? = some synced ∧
            synced.items.map Item.key = pass.map PassItem.key ∧
            plain.keys last = pass.map PassItem.key) ∧
        ∀ willing, plain.Accepts willing → willing resumed →
          ∃ last, plain.target.sync helpers keyed resumed = .ok () last := by
  have synchronises : plain.Synchronises helpers keyed before after (some error) := failed
  have further := course.synchronised synchronises distinct
  refine ⟨?_, further, ?_⟩
  · rcases synchronises_cases synchronises with ⟨-, fault, untaken⟩ | ⟨⟨run⟩⟩
    · obtain ⟨left, found, settled⟩ := further.tracks quiet
      refine ⟨left, found, ?_, settled.unmarked, fun pass started taken => ?_⟩
      · rw [settled.follows.keys, Item.keys_of_faces]
      · rw [untaken] at taken
        cases taken
    · obtain ⟨artifacts, found, settled⟩ := course.tracks quiet
      obtain ⟨left, there, settled, -, refused⟩ :=
        run.settles quiet settled found (distinct run.pass run.started run.taken)
      refine ⟨left, there, ?_, settled.unmarked, fun pass started taken => ?_⟩
      · rw [settled.follows.keys, Item.keys_of_faces]
      · have same : run.pass = pass := by
          have both := run.taken.symm.trans taken
          injection both
        obtain ⟨key, member, unmapped, refuses⟩ := refused error rfl
        exact ⟨key, same ▸ member, unmapped, run.done, refuses,
          (plain.onStore_ok run.stored).2.1.symm⟩
  · intro resumed course pass started taken distinct
    have tracks := course.tracks quiet
    refine ⟨fun last ended => tracks.synchronised quiet taken distinct ended, ?_⟩
    exact fun willing accepts willingly =>
      accepts.sync_succeeds quiet tracks willingly taken distinct

end PlainTarget

namespace KeyedStore

theorem valuesOf_succeeds {edit : Edit} {store : Store}
    (present : ∀ id ∈ edit.cells, id < store.cells.size) :
    ∃ values, valuesOf edit store = .ok values store := by
  have both : ∀ item : ItemRefs, (∀ id ∈ item.cells, id < store.cells.size) → ∃ values,
      (do return some (← Reading.readCell item.value, ← Reading.readCell item.memo) :
        Reading (Option (Value × Value))) store = .ok values store := by
    intro item present
    have value := present item.value (by simp [ItemRefs.cells])
    have memo := present item.memo (by simp [ItemRefs.cells])
    have first := Reading.readCell_eq item.value store
    have second := Reading.readCell_eq item.memo store
    rw [Array.getElem?_eq_getElem value] at first
    rw [Array.getElem?_eq_getElem memo] at second
    exact ⟨_, (bind_of_ok first).trans (bind_of_ok second)⟩
  cases edit with
  | retain item => exact both item present
  | insert item before => exact both item present
  | move item before => exact both item present
  | delete key => exact ⟨none, rfl⟩
  | done => exact ⟨none, rfl⟩

/-- A list of keys that is to refuse nothing carries out every edit. -/
theorem accepts : plain.Accepts fun state => state.refused = [] where
  onStore := by
    intro α reading before after result willing ended
    rw [(onStore_ok ended).2]
    exact willing
  apply := by
    intro edit before _ willing present
    obtain ⟨values, looked⟩ := valuesOf_succeeds present
    have seen : onStore (valuesOf edit) before = .ok values before := by
      unfold onStore
      rw [show valuesOf edit before.store = .ok values before.store from looked]
    refine ⟨{ before with
      keys := KeyList.edit before.keys edit, edits := ⟨edit, values⟩ :: before.edits }, ?_, willing⟩
    have unlisted : edit.label?.filter (· ∈ before.refused) = none := by
      rw [willing]
      cases edit.label? <;> rfl
    change apply edit before = _
    rw [apply_eq, unlisted]
    exact bind_of_ok seen

end KeyedStore

namespace PlainTarget

/-- The letters again, where the insertion of `c` is to be refused once. -/
def refusingState : KeyedStore :=
  { letterState ["b", "c", "a"] ["a", "b"] with refused := ["insert c"] }

theorem refusingState_steady : KeyedStore.plain.steady refusingState := by
  intro edit label named listed
  obtain rfl : label = "insert c" := by simpa [refusingState] using listed
  have unlike : ∀ word : String, word.toList.head? ≠ some 'i' → word ≠ "" → ∀ rest,
      word ++ rest ≠ "insert c" := by
    intro word first filled rest same
    have letters := congrArg String.toList same
    rw [String.toList_append] at letters
    cases shape : word.toList with
    | nil => exact filled (String.toList_eq_nil_iff.mp shape)
    | cons letter others =>
      rw [shape] at first letters
      exact first (congrArg some (List.cons.inj letters).1)
  have other : ∀ (word : String) (key : Key), word.toList.head? ≠ some 'i' → word ≠ "" →
      "insert c" ∉ key.text?.map (word ++ ·) := by
    intro word key first filled member
    obtain ⟨rest, -, same⟩ := Option.map_eq_some_iff.mp member
    exact unlike word first filled rest same
  cases edit with
  | insert item before => exact ⟨item, before, rfl⟩
  | retain item => exact absurd named (other "retain " item.key (by decide) (by decide))
  | move item before => exact absurd named (other "move " item.key (by decide) (by decide))
  | delete key => exact absurd named (other "delete " key (by decide) (by decide))
  | done => simp [Edit.label?] at named

theorem sync_resumes_letters : ∃ after left last,
    KeyedStore.plain.target.sync (fun _ => none) letters refusingState =
      .error (.failed (.helperFailed "sync" "insert c")) after ∧
    KeyedStore.plain.keys after = [.text "a", .text "b"] ∧
    (KeyedStore.plain.store after).lists[letters.list]? = some left ∧
    left.items.map Item.key = [.text "a", .text "b"] ∧ left.get? (.text "c") = none ∧
    KeyedStore.plain.target.sync (fun _ => none) letters after = .ok () last ∧
    KeyedStore.plain.keys last = [.text "b", .text "c", .text "a"] := by
  have quiet : Helpers.Quiet fun _ => none := fun name call found => absurd found (by simp)
  let pass : Pass := [⟨.text "b", .text "b", .int 0⟩, ⟨.text "c", .text "c", .int 1⟩,
    ⟨.text "a", .text "a", .int 2⟩]
  have nodup : (pass.map PassItem.key).Nodup := by decide
  obtain ⟨after, started, failed, unmapped, willing, taken, again⟩ : ∃ after started,
      KeyedStore.plain.target.sync (fun _ => none) letters refusingState =
        .error (.failed (.helperFailed "sync" "insert c")) after ∧
      (after.store.lists[letters.list]?.map fun left => (left.items.map Item.key,
        left.get? (.text "c"))) = some ([.text "a", .text "b"], none) ∧
      after.refused = [] ∧
      KeyedStore.plain.target.onStore (letters.takePass fun _ => none) refusingState =
        .ok pass started ∧
      ∃ ready, KeyedStore.plain.target.onStore (letters.takePass fun _ => none) after =
        .ok pass ready := ⟨_, _, rfl, rfl, rfl, rfl, _, rfl⟩
  have distinct : ∀ pass started, KeyedStore.plain.target.onStore
      (letters.takePass fun _ => none) refusingState = .ok pass started →
        (pass.map PassItem.key).Nodup := by
    intro other later same
    rw [taken] at same
    cases same
    exact nodup
  have course : KeyedStore.plain.Course (fun _ => none) letters refusingState :=
    letters_history.course.elsewhere ⟨.refl _, rfl, refusingState_steady⟩
  obtain ⟨⟨left, there, keys, -⟩, further, resumes⟩ := sync_resumes quiet course distinct failed
  obtain ⟨ready, again⟩ := again
  obtain ⟨whole, comesToItsEnd⟩ := resumes after further pass ready again nodup
  obtain ⟨last, ended⟩ := comesToItsEnd _ KeyedStore.accepts willing
  obtain ⟨-, -, -, same⟩ := whole last ended
  change after.store.lists[letters.list]? = some left at there
  rw [there] at unmapped
  obtain ⟨held, missing⟩ := Prod.mk.inj (Option.some.inj unmapped)
  exact ⟨after, left, last, failed, keys ▸ held, there, held, missing, ended, same⟩

end PlainTarget

end LiveTemplate
