import LiveTemplate.Proofs.Iteration.KeyedStore

/-!
The history of a list and a target that keeps its keys. A first pass records items, while the target
is given their keys one by one; then synchronisations follow, some of which fail. In between, values
are read and other lists synchronised. Whatever has happened, the target is in step with the list,
and the next synchronisation that succeeds makes both what the new pass says.
-/

namespace LiveTemplate

open Effects

namespace PlainTarget

variable {σ : Type} {plain : PlainTarget σ} {helpers : Helpers} {keyed : KeyedList}

/-- What may go on in the store while the target waits for the next synchronisation: values are read
and other lists synchronised. -/
structure Meanwhile (plain : PlainTarget σ) (before after : σ) : Prop where
  spares : (plain.store before).Spares (plain.store after)
  keys : plain.keys after = plain.keys before
  steady : plain.steady after

/-- The states that a target and the list `keyed` can come to, as long as no key comes twice in a
pass. -/
inductive Course (plain : PlainTarget σ) (helpers : Helpers) (keyed : KeyedList) : σ → Prop
  /-- The list is new. -/
  | begun {store : Store} {state : σ}
      (made : KeyedList.ofIterable keyed.iterable store = .ok keyed (plain.store state))
      (keys : plain.keys state = []) (steady : plain.steady state) : Course plain helpers keyed state
  /-- The first pass records one more element, if there is one, and the target gets its key. -/
  | recorded {before after : σ} {walk next : FirstPass} {refs : Option ItemRefs}
      (earlier : Course plain helpers keyed before) (same : walk.keyed = keyed)
      (step : walk.next helpers (plain.store before) = .ok (next, refs) (plain.store after))
      (fresh : ∀ item ∈ refs, item.key ∉ plain.keys before)
      (keys : plain.keys after = plain.keys before ++ refs.toList.map ItemRefs.key)
      (steady : plain.steady after) : Course plain helpers keyed after
  /-- Something else happens in the store. -/
  | elsewhere {before after : σ} (earlier : Course plain helpers keyed before)
      (meanwhile : plain.Meanwhile before after) : Course plain helpers keyed after
  /-- A synchronisation comes to its end, or is stopped by a refusal. -/
  | synchronised {before after : σ} {failure : Option RenderError}
      (earlier : Course plain helpers keyed before)
      (ended : plain.Synchronises helpers keyed before after failure)
      (distinct : ∀ pass between, plain.target.onStore (keyed.takePass helpers) before =
        .ok pass between → (pass.map PassItem.key).Nodup) : Course plain helpers keyed after

/-- The passes that the target may be synchronised with: no key comes twice, and no value holds a
NaN. -/
def Distinct (pass : Pass) : Prop :=
  (pass.map PassItem.key).Nodup ∧ ∀ element ∈ pass, element.NanFree

/-- The states that a target and the list `keyed` can come to. -/
inductive History (plain : PlainTarget σ) (helpers : Helpers) (keyed : KeyedList) : σ → Prop
  /-- The list is new. -/
  | begun {store : Store} {state : σ}
      (made : KeyedList.ofIterable keyed.iterable store = .ok keyed (plain.store state))
      (keys : plain.keys state = []) (steady : plain.steady state) : History plain helpers keyed state
  /-- The first pass records one more element, if there is one, and the target gets its key. -/
  | recorded {before after : σ} {walk next : FirstPass} {refs : Option ItemRefs}
      (earlier : History plain helpers keyed before) (same : walk.keyed = keyed)
      (step : walk.next helpers (plain.store before) = .ok (next, refs) (plain.store after))
      (fresh : ∀ item ∈ refs, item.key ∉ plain.keys before)
      (keys : plain.keys after = plain.keys before ++ refs.toList.map ItemRefs.key)
      (steady : plain.steady after) : History plain helpers keyed after
  /-- Something else happens in the store. -/
  | elsewhere {before after : σ} (earlier : History plain helpers keyed before)
      (spares : (plain.store before).Spares (plain.store after))
      (keys : plain.keys after = plain.keys before) (steady : plain.steady after) :
      History plain helpers keyed after
  | synchronised {before after : σ} {failure : Option RenderError}
      (earlier : History plain helpers keyed before)
      (ended : plain.Synchronises helpers keyed before after failure)
      (distinct : ∀ pass between,
        plain.target.onStore (keyed.takePass helpers) before = .ok pass between → Distinct pass) :
      History plain helpers keyed after

/-- The target is in step with the list. -/
def Tracks (plain : PlainTarget σ) (keyed : KeyedList) (state : σ) : Prop :=
  ∃ artifacts, (plain.store state).lists[keyed.list]? = some artifacts ∧
    plain.Settled artifacts state

theorem Tracks.of_spares {before after : σ} (tracks : plain.Tracks keyed before)
    (spares : (plain.store before).Spares (plain.store after))
    (keys : plain.keys after = plain.keys before) (steady : plain.steady after) :
    plain.Tracks keyed after := by
  obtain ⟨artifacts, found, settled⟩ := tracks
  obtain ⟨later, there, -, settled⟩ := settled.of_spares found spares keys steady
  exact ⟨later, there, settled⟩

theorem tracks_begun {store : Store} {state : σ}
    (made : KeyedList.ofIterable keyed.iterable store = .ok keyed (plain.store state))
    (keys : plain.keys state = []) (steady : plain.steady state) : plain.Tracks keyed state := by
  have pushed : plain.store state = { store with lists := store.lists.push {} } ∧
      keyed = ⟨store.lists.size, keyed.iterable⟩ := by
    change EStateM.Result.ok (KeyedList.mk store.lists.size keyed.iterable)
      { store with lists := store.lists.push {} } = .ok keyed (plain.store state) at made
    injection made with list state
    exact ⟨state.symm, list.symm⟩
  refine ⟨{}, ?_, .empty none, by simp, keys, .nil _, steady⟩
  rw [pushed.1, pushed.2]
  simp

/-- The next element of a first pass: nothing is left, or a new item stands at the end. -/
theorem next_ok {walk next : FirstPass} {refs : Option ItemRefs} {before after : Store}
    (quiet : helpers.Quiet) (ended : walk.next helpers before = .ok (next, refs) after) :
    ∃ between, before.Spares between ∧
      ((refs = none ∧ after = between) ∨
        ∃ artifacts key, between.lists[walk.keyed.list]? = some artifacts ∧
          refs = some ⟨key, between.cells.size, between.cells.size + 1⟩ ∧
          after.cells.size = between.cells.size + 2 ∧
          after.lists = between.lists.setIfInBounds walk.keyed.list
            (artifacts.append ⟨key, between.cells.size, between.cells.size + 1⟩)) := by
  obtain ⟨pass, between, spares, rest⟩ : ∃ pass between, before.Spares between ∧
      walk.record pass between = .ok (next, refs) after := by
    rw [FirstPass.next_eq] at ended
    cases shape : walk.rest with
    | none =>
      simp only [shape] at ended
      obtain ⟨pass, between, taken, rest⟩ := bind_ok.mp ended
      exact ⟨pass, between, (KeyedList.takePass_quiet quiet walk.keyed).of_ok taken, rest⟩
    | some pass =>
      simp only [shape] at ended
      exact ⟨pass, before, .refl _, ended⟩
  refine ⟨between, spares, ?_⟩
  cases pass with
  | nil =>
    obtain ⟨equal, rfl⟩ := pure_ok.mp rest
    exact .inl ⟨(Prod.mk.inj equal).2.symm, rfl⟩
  | cons element pass =>
    obtain ⟨item, later, created, rest⟩ := bind_ok.mp rest
    obtain ⟨artifacts, last, read, rest⟩ := bind_ok.mp rest
    obtain ⟨_, state, put, done⟩ := bind_ok.mp rest
    obtain ⟨found, rfl⟩ := Reading.artifacts_ok.mp read
    obtain ⟨equal, rfl⟩ := pure_ok.mp done
    obtain ⟨rfl, lists, cells⟩ := Walk.newRefs_cells created
    have written := Reading.setArtifacts_ok.mp put
    refine .inr ⟨artifacts, element.key, lists ▸ found, (Prod.mk.inj equal).2.symm, ?_, ?_⟩
    · rw [← written]
      simp [cells]
    · rw [← written, ← lists]

theorem tracks_recorded {before after : σ} {walk next : FirstPass} {refs : Option ItemRefs}
    (tracks : plain.Tracks keyed before) (quiet : helpers.Quiet) (same : walk.keyed = keyed)
    (step : walk.next helpers (plain.store before) = .ok (next, refs) (plain.store after))
    (fresh : ∀ item ∈ refs, item.key ∉ plain.keys before)
    (keys : plain.keys after = plain.keys before ++ refs.toList.map ItemRefs.key)
    (steady : plain.steady after) : plain.Tracks keyed after := by
  obtain ⟨between, spares, ⟨rfl, equal⟩ | ⟨artifacts, key, found, rfl, cells, lists⟩⟩ :=
    next_ok quiet step
  · rw [← equal] at spares
    exact tracks.of_spares spares (by rw [keys]; simp) steady
  · subst same
    obtain ⟨earlier, there, settled⟩ := tracks
    obtain ⟨_, again, equal⟩ := spares.lists there
    cases again.symm.trans found
    obtain ⟨indexed, unmarked, recorded, houses, -⟩ := settled.of_eq equal
    have bound := (Array.getElem?_eq_some_iff.mp found).1
    have absent : key ∉ artifacts.items.map Item.key := by
      rw [← Item.keys_of_faces, ← recorded]
      exact fresh _ rfl
    let refs : ItemRefs := ⟨key, between.cells.size, between.cells.size + 1⟩
    have faces : (artifacts.append refs).items.map Item.face =
        artifacts.items.map Item.face ++ [((artifacts.allocate key).1, refs)] := by
      cases shape : artifacts.free <;>
        simp [Artifacts.append, Artifacts.allocate, shape, Item.face, refs]
    have perm : ((artifacts.append refs).items.map Item.face).Perm
        (((artifacts.allocate key).1, refs) :: artifacts.items.map Item.face) := by
      rw [faces]
      exact List.perm_append_comm
    have grown := indexed.allocate refs (by rwa [Item.keys_of_faces])
    refine ⟨artifacts.append refs, ?_, ?_, ?_, ?_, ?_, steady⟩
    · rw [lists]
      simp [bound, refs]
    · refine (grown.perm perm.symm).congr ?_ ?_ ?_ <;>
        cases shape : artifacts.free <;> simp [Artifacts.append, Artifacts.allocate, shape, refs]
    · intro item member
      have inside : item ∈ artifacts.items ∨ item = ⟨(artifacts.allocate key).1, refs, false, false⟩ := by
        cases shape : artifacts.free <;>
          simpa [Artifacts.append, Artifacts.allocate, shape, refs] using member
      rcases inside with inside | rfl
      · exact unmarked item inside
      · exact ⟨rfl, rfl⟩
    · rw [keys, faces, List.map_append, recorded]
      rfl
    · exact ((houses.grow spares.cells).cons_new cells _).perm perm.symm

/-- If no pass can be taken, the target stays in step with the list. -/
theorem Tracks.of_untaken {before after : σ} {fault : Fault} (tracks : plain.Tracks keyed before)
    (quiet : helpers.Quiet)
    (failed : plain.target.onStore (keyed.takePass helpers) before = .error fault after) :
    plain.Tracks keyed after := by
  obtain ⟨read, keys, -, steady⟩ := plain.onStore_error failed
  have stays : plain.steady after := by
    obtain ⟨_, _, settled⟩ := tracks
    exact steady settled.follows.steady
  exact tracks.of_spares ((KeyedList.takePass_quiet quiet keyed).of_error read) keys stays

/-- Whatever has happened, the target is in step with the list. -/
theorem Course.tracks {state : σ} (course : plain.Course helpers keyed state)
    (quiet : helpers.Quiet) : plain.Tracks keyed state := by
  induction course with
  | begun made keys steady => exact tracks_begun made keys steady
  | recorded earlier same step fresh keys steady ih =>
    exact tracks_recorded ih quiet same step fresh keys steady
  | elsewhere earlier meanwhile ih =>
    exact ih.of_spares meanwhile.spares meanwhile.keys meanwhile.steady
  | synchronised earlier ended distinct ih =>
    rcases synchronises_cases ended with ⟨-, fault, failed⟩ | ⟨⟨run⟩⟩
    · exact ih.of_untaken quiet failed
    · obtain ⟨artifacts, found, settled⟩ := ih
      obtain ⟨later, there, settled, -⟩ :=
        run.settles quiet settled found (distinct run.pass run.started run.taken)
      exact ⟨later, there, settled⟩

theorem History.course {state : σ} (history : plain.History helpers keyed state) :
    plain.Course helpers keyed state := by
  induction history with
  | begun made keys steady => exact .begun made keys steady
  | recorded earlier same step fresh keys steady ih => exact ih.recorded same step fresh keys steady
  | elsewhere earlier spares keys steady ih => exact ih.elsewhere ⟨spares, keys, steady⟩
  | synchronised earlier ended distinct ih =>
    exact ih.synchronised ended fun pass between taken => (distinct pass between taken).1

theorem History.tracks {state : σ} (history : plain.History helpers keyed state)
    (quiet : helpers.Quiet) : plain.Tracks keyed state := history.course.tracks quiet

/-- A synchronisation that succeeds makes the list and the target what the new pass says. It inserts
each new key once, deletes each key that is gone once, moves each kept key at most once and none at
all if the kept keys stand in their old order. A kept item keeps its number and its cells, which get
the values of its element. No marks are left. -/
theorem sync_reconciles (quiet : helpers.Quiet) {before started after : σ} {pass : Pass}
    (history : plain.History helpers keyed before)
    (taken : plain.target.onStore (keyed.takePass helpers) before = .ok pass started)
    (distinct : Distinct pass) (ended : plain.target.sync helpers keyed before = .ok () after) :
    ∃ earlier later, (plain.store before).lists[keyed.list]? = some earlier ∧
      (plain.store after).lists[keyed.list]? = some later ∧
      plain.keys before = earlier.items.map Item.key ∧
      later.items.map Item.key = pass.map PassItem.key ∧
      plain.keys after = pass.map PassItem.key ∧
      (∃ script, plain.script after = plain.script before ++ script ∧
        (Tally.of script).inserted = (pass.map PassItem.key).filter (· ∉ plain.keys before) ∧
        (Tally.of script).deleted = (plain.keys before).filter (· ∉ pass.map PassItem.key) ∧
        (Tally.of script).moved.Sublist
          ((pass.map PassItem.key).filter (· ∈ plain.keys before)) ∧
        ((pass.map PassItem.key).filter (· ∈ plain.keys before) =
            (plain.keys before).filter (· ∈ pass.map PassItem.key) →
          (Tally.of script).moved = [])) ∧
      (∀ item ∈ earlier.items, ∀ element ∈ pass, item.key = element.key →
        ∃ kept ∈ later.items, kept.id = item.id ∧ kept.refs = item.refs ∧
          (plain.store after).Shows kept.refs element) ∧
      ∀ item ∈ later.items, item.Unmarked := by
  obtain ⟨earlier, found, settled⟩ := history.tracks quiet
  have recorded : plain.keys before = earlier.items.map Item.key := by
    rw [settled.follows.keys, Item.keys_of_faces]
  have synchronised : plain.Synchronises helpers keyed before after none := ended
  rcases synchronises_cases synchronised with ⟨impossible, -⟩ | ⟨⟨run⟩⟩
  · cases impossible
  have same : run.pass = pass := by
    have both := run.taken.symm.trans taken
    injection both
  obtain ⟨nodup, free⟩ := distinct
  obtain ⟨later, there, after, synced⟩ :=
    run.leaves quiet settled found (same ▸ nodup) (same ▸ free)
  obtain ⟨keys, kept, shown, script⟩ := synced rfl
  rw [same] at keys kept shown script
  rw [← recorded] at script
  refine ⟨earlier, later, found, there, recorded, keys, ?_, script, ?_, after.unmarked⟩
  · rw [after.follows.keys, Item.keys_of_faces, keys]
  · intro item member element inside named
    obtain ⟨remaining, stays, number, refs⟩ :=
      kept item member (named ▸ List.mem_map_of_mem inside)
    obtain ⟨shows, shownThere, shownKey, values⟩ := shown element inside
    -- The item that shows the element has its key, and so is the one that was kept.
    have alike : shows.key = remaining.key := by
      rw [shownKey, ← named, Item.key, Item.key, refs]
    have one := after.indexed.eq_of_key (List.mem_map_of_mem shownThere)
      (List.mem_map_of_mem stays) alike
    refine ⟨remaining, stays, number, refs, ?_⟩
    rw [← (Prod.mk.inj one).2]
    exact values

/-- A list of letters, each its own key. -/
def letters : KeyedList := ⟨0, ⟨.cell 0, .identity⟩⟩

/-- The letters that are there now, and those that a first pass has recorded. -/
def letterState (now recorded : List String) : KeyedStore :=
  { store :=
      { cells := #[⟨.list 0 (now.map .text), 1⟩] ++
          ((recorded.mapIdx fun position letter =>
            [⟨.text letter, 1⟩, ⟨.int (Int64.ofNat position), 1⟩]).flatten).toArray
        lists := #[recorded.zipIdx.foldl (fun artifacts (letter, position) =>
          artifacts.append ⟨.text letter, 2 * position + 1, 2 * position + 2⟩) {}]
        storage := 1 }
    keys := recorded.map .text }

/-- A first pass over `a` and `b`, after which there are `b`, `c` and `a`. -/
theorem letters_history :
    KeyedStore.plain.History (fun _ => none) letters (letterState ["b", "c", "a"] ["a", "b"]) := by
  have steady : ∀ now recorded, KeyedStore.plain.steady (letterState now recorded) :=
    fun now recorded edit label named listed => absurd listed (by simp [letterState])
  have made : KeyedList.ofIterable letters.iterable
      { (letterState ["a", "b"] []).store with lists := #[] } =
        .ok letters (KeyedStore.plain.store (letterState ["a", "b"] [])) := rfl
  have first : FirstPass.next (fun _ => none) ⟨letters, none⟩
      (KeyedStore.plain.store (letterState ["a", "b"] [])) =
        .ok (⟨letters, some [⟨.text "b", .text "b", .int 1⟩]⟩, some ⟨.text "a", 1, 2⟩)
          (KeyedStore.plain.store (letterState ["a", "b"] ["a"])) := rfl
  have second : FirstPass.next (fun _ => none)
      ⟨letters, some [⟨.text "b", .text "b", .int 1⟩]⟩
      (KeyedStore.plain.store (letterState ["a", "b"] ["a"])) =
        .ok (⟨letters, some []⟩, some ⟨.text "b", 3, 4⟩)
          (KeyedStore.plain.store (letterState ["a", "b"] ["a", "b"])) := rfl
  have begun : KeyedStore.plain.History (fun _ => none) letters (letterState ["a", "b"] []) :=
    .begun made rfl (steady _ _)
  have one := begun.recorded rfl first (by simp [KeyedStore.plain, letterState]) rfl (steady _ _)
  have two := one.recorded rfl second (by simp [KeyedStore.plain, letterState]) rfl (steady _ _)
  exact two.elsewhere (.of_eq rfl (Nat.le_refl _)) rfl (steady _ _)

theorem sync_reconciles_letters :
    ∃ pass started after,
      KeyedStore.plain.target.onStore (letters.takePass fun _ => none)
        (letterState ["b", "c", "a"] ["a", "b"]) = .ok pass started ∧
      Distinct pass ∧
      KeyedStore.plain.target.sync (fun _ => none) letters
        (letterState ["b", "c", "a"] ["a", "b"]) = .ok () after ∧
      KeyedStore.plain.keys after = [.text "b", .text "c", .text "a"] := by
  have quiet : Helpers.Quiet fun _ => none := fun name call found => absurd found (by simp)
  let pass : Pass := [⟨.text "b", .text "b", .int 0⟩, ⟨.text "c", .text "c", .int 1⟩,
    ⟨.text "a", .text "a", .int 2⟩]
  have taken : ∃ started, KeyedStore.plain.target.onStore (letters.takePass fun _ => none)
      (letterState ["b", "c", "a"] ["a", "b"]) = .ok pass started := ⟨_, rfl⟩
  have distinct : Distinct pass := by
    refine ⟨by decide, ?_⟩
    simp [pass, PassItem.NanFree, Value.nanFree]
  have succeeds : Effects.succeeds (KeyedStore.plain.target.sync (fun _ => none) letters
      (letterState ["b", "c", "a"] ["a", "b"])) = true := by decide +kernel
  obtain ⟨started, taken⟩ := taken
  cases outcome : KeyedStore.plain.target.sync (fun _ => none) letters
      (letterState ["b", "c", "a"] ["a", "b"]) with
  | error fault after => simp [outcome, Effects.succeeds] at succeeds
  | ok done after =>
    obtain ⟨earlier, later, -, -, -, -, keys, -⟩ :=
      sync_reconciles quiet letters_history taken distinct outcome
    exact ⟨pass, started, after, taken, distinct, rfl, keys⟩

end PlainTarget

end LiveTemplate
