import LiveTemplate.Proofs.Iteration.Target

/-!
Synchronising a list. A walk that comes to the end of its pass leaves the items that were met in the
order of the pass, and pruning deletes the others. A walk that is stopped by a refusal leaves the
target in step with the items that it holds, so that the next synchronisation starts from there.
-/

namespace LiveTemplate

open Effects

namespace Reading

theorem readCell_unfailing (id : CellId) : Unfailing (readCell id) := by
  refine .bind .get fun store => ?_
  cases store.cells[id]? with
  | none => exact .broken _
  | some cell => exact .pure _

theorem newCell_unfailing (value : Value) : Unfailing (newCell value) :=
  .bind .get fun _ => .bind (.set _) fun _ => .pure _

theorem updateCell_unfailing (id : CellId) (value : Value) : Unfailing (updateCell id value) := by
  refine .bind (readCell_unfailing id) fun old => ?_
  by_cases same : (old == value) = true
  · rw [if_pos same]
    exact .pure _
  · rw [if_neg same]
    exact .bind (.modify _) fun _ => .pure _

theorem artifacts_unfailing (id : ListId) : Unfailing (artifacts id) := by
  refine .bind .get fun store => ?_
  cases store.lists[id]? with
  | none => exact .broken _
  | some artifacts => exact .pure _

end Reading

namespace Walk

theorem updateRefs_unfailing (refs : ItemRefs) (element : PassItem) :
    Unfailing (updateRefs refs element) :=
  .bind (Reading.updateCell_unfailing _ _) fun _ =>
    .bind (Reading.updateCell_unfailing _ _) fun _ => .pure _

theorem newRefs_unfailing (element : PassItem) : Unfailing element.newRefs :=
  .bind (Reading.newCell_unfailing _) fun _ =>
    .bind (Reading.newCell_unfailing _) fun _ => .pure _

theorem meet_unfailing (walk : Walk) (element : PassItem) : Unfailing (walk.meet element) := by
  unfold Walk.meet
  by_cases next : walk.before = some element.key
  · rw [if_pos next]
    cases walk.ahead with
    | nil => exact .pure _
    | cons current rest => exact .bind (updateRefs_unfailing _ _) fun _ => .pure _
  · rw [if_neg next]
    cases walk.artifacts.get? element.key with
    | none => exact .bind (newRefs_unfailing _) fun _ => .pure _
    | some id =>
      dsimp only
      cases walk.items.find? (fun item => decide (item.id = id)) with
      | none => exact .broken _
      | some found =>
        refine .bind (updateRefs_unfailing _ _) fun _ => ?_
        by_cases seen : found.seen = true
        · rw [if_pos seen]
          exact .pure _
        · rw [if_neg seen]
          exact .pure _

end Walk

namespace PlainTarget

variable {σ : Type} {plain : PlainTarget σ} {old : List Item} {consumed : Pass}

/-- A walk that was stopped: the target holds the items that the walk left. One of the keys is that
of an insertion that the target refused, and no item has it. -/
structure Stopped (plain : PlainTarget σ) (keys : List Key) (error : RenderError) (walk : Walk)
    (state : σ) : Prop where
  indexed : walk.artifacts.Indexes (walk.items.map Item.face)
  follows : plain.Follows (walk.items.map Item.face) state
  missed : ∃ key ∈ keys, key ∉ walk.items.map Item.key ∧ plain.Refuses key error state

theorem Stopped.cons {keys : List Key} {error : RenderError} {walk : Walk} {state : σ}
    (stopped : plain.Stopped keys error walk state) (key : Key) :
    plain.Stopped (key :: keys) error walk state where
  indexed := stopped.indexed
  follows := stopped.follows
  missed := by
    obtain ⟨other, member, missed⟩ := stopped.missed
    exact ⟨other, List.mem_cons_of_mem _ member, missed⟩

theorem mergePass_ok (unmarked : ∀ item ∈ old, item.Unmarked) (pass : Pass) :
    ∀ {consumed : Pass} {walk last : Walk} {before after : σ} {refusal : Option RenderError},
      plain.Midway old consumed walk before →
      ((consumed ++ pass).map PassItem.key).Nodup →
      plain.target.mergePass pass walk before = .ok (last, refusal) after →
      (plain.store before).Spares (plain.store after) ∧
        ((refusal = none ∧ plain.Midway old (consumed ++ pass) last after ∧
          ∃ script, plain.script after = plain.script before ++ script ∧
            Scripted (old.map Item.key) (walk.ahead.map Item.key) (pass.map PassItem.key) script) ∨
          ∃ error, refusal = some error ∧
            plain.Stopped (pass.map PassItem.key) error last after) := by
  -- The induction goes along the pass; `Midway` is what holds between two of its elements.
  induction pass with
  | nil =>
    intro consumed walk last before after refusal midway distinct ended
    obtain ⟨equal, rfl⟩ := pure_ok.mp ended
    obtain ⟨rfl, rfl⟩ := Prod.mk.inj equal
    refine ⟨.refl _, .inl ⟨rfl, ?_, [], by simp, .nil _ _⟩⟩
    rw [List.append_nil]
    exact midway
  | cons element pass ih =>
    intro consumed walk last before after refusal midway distinct ended
    have fresh : element.key ∉ consumed.map PassItem.key := by
      rw [List.map_append, List.map_cons] at distinct
      have apart := (List.nodup_cons.mp (List.nodup_middle.mp distinct)).1
      exact fun member => apart (List.mem_append_left _ member)
    have rest : ((consumed ++ [element] ++ pass).map PassItem.key).Nodup := by
      rw [List.append_assoc]
      exact distinct
    obtain ⟨⟨next, edit⟩, between, met, following⟩ := bind_ok.mp ended
    have meeting := midway.meet unmarked fresh met
    cases edit with
    | none =>
      have further := meeting.step midway unmarked fresh meeting.steady (.refl _) rfl
      obtain ⟨spares, outcome⟩ := ih further rest following
      refine ⟨meeting.spares.trans spares, ?_⟩
      rcases outcome with ⟨passed, done, script, written, scripted⟩ | ⟨error, refused, stopped⟩
      · refine .inl ⟨passed, ?_, script, by rw [written, meeting.script],
          scripted.cons midway.merged fresh meeting.meets⟩
        rw [List.append_cons]
        exact done
      · exact .inr ⟨error, refused, stopped.cons _⟩
    | some edit =>
      obtain ⟨answer, later, accepted, continued⟩ := bind_ok.mp following
      obtain ⟨keeps, steady, carried | refused⟩ := plain.accept_ok meeting.steady accepted
      · obtain ⟨rfl, keys, carriedOut⟩ := carried
        have further := meeting.step midway unmarked fresh steady keeps keys
        obtain ⟨spares, outcome⟩ := ih further rest continued
        refine ⟨(meeting.spares.trans keeps.toSpares).trans spares, ?_⟩
        rcases outcome with ⟨passed, done, script, written, scripted⟩ | ⟨error, refused, stopped⟩
        · refine .inl ⟨passed, ?_, edit :: script, ?_,
            scripted.cons midway.merged fresh meeting.meets⟩
          · rw [List.append_cons]
            exact done
          · rw [written, carriedOut, meeting.script]
            simp
        · exact .inr ⟨error, refused, stopped.cons _⟩
      · obtain ⟨some, ⟨refs, place, rfl⟩, keys, -⟩ := refused
        obtain ⟨error, rfl⟩ := Option.isSome_iff_exists.mp some
        obtain ⟨equal, rfl⟩ := pure_ok.mp continued
        obtain ⟨rfl, rfl⟩ := Prod.mk.inj equal
        refine ⟨meeting.spares.trans keeps.toSpares, .inr ⟨error, rfl, ?_⟩⟩
        cases meeting.meets with
        | insert absent same =>
          have absent : refs.key ∉ walk.items.map Item.key := same ▸ absent
          obtain ⟨items, indexed⟩ := takeBack_insert midway.merged.indexed absent walk.before
          refine ⟨items ▸ indexed, ?_, refs.key, ?_, ?_, refs, walk.before, between, rfl,
            plain.accept_refused accepted⟩
          · rw [items]
            refine ⟨?_, ?_, steady⟩
            · rw [keys, meeting.keys, Item.keys_of_faces]
            · exact midway.follows.houses.grow
                (Nat.le_trans meeting.spares.cells keeps.toSpares.cells)
          · rw [same]
            exact List.mem_cons_self
          · rwa [items]

theorem onStore_unfailing {α : Type} {reading : Reading α} (unfailing : Unfailing reading) :
    Unfailing (plain.target.onStore reading) :=
  fun _ _ _ ended => unfailing _ _ _ (plain.onStore_error ended).1

theorem mergePass_unfailing (pass : Pass) :
    ∀ walk : Walk, Unfailing (plain.target.mergePass pass walk) := by
  induction pass with
  | nil => exact fun walk => .pure _
  | cons element pass ih =>
    intro walk
    refine .bind (onStore_unfailing (walk.meet_unfailing element)) fun ⟨next, edit⟩ => ?_
    cases edit with
    | none => exact ih next
    | some edit =>
      refine .bind (plain.accept_unfailing edit) fun answer => ?_
      cases answer with
      | none => exact ih next
      | some error => exact .pure _

/-- Deleting the items that no element has met. -/
theorem prune_ok (items : List Item) :
    ∀ {walk last : Walk} {before after : σ} {refusal : Option RenderError},
      plain.target.prune items walk before = .ok (last, refusal) after →
      walk.artifacts.Indexes ((walk.behind ++ items).map Item.face) →
      plain.Follows ((walk.behind ++ items).map Item.face) before →
      refusal = none ∧ last.items = walk.behind ++ (items.filter (·.retained)).map Item.clearMarks ∧
        last.artifacts.Indexes (last.items.map Item.face) ∧
        plain.Follows (last.items.map Item.face) after ∧
        (plain.store before).Keeps (plain.store after) ∧
        plain.script after = plain.script before ++
          (items.filter (!·.retained)).map fun item => .delete item.key := by
  induction items with
  | nil =>
    intro walk last before after refusal ended indexed follows
    obtain ⟨equal, rfl⟩ := pure_ok.mp ended
    obtain ⟨rfl, rfl⟩ := Prod.mk.inj equal
    refine ⟨rfl, by simp [Walk.items], ?_, ?_, .refl _, by simp⟩
    · simpa [Walk.items] using indexed
    · simpa [Walk.items] using follows
  | cons item rest ih =>
    intro walk last before after refusal ended indexed follows
    unfold SyncTarget.prune at ended
    by_cases retained : item.retained = true
    · rw [if_pos retained] at ended
      have faces : (walk.behind ++ item :: rest).map Item.face =
          (walk.behind ++ [item.clearMarks] ++ rest).map Item.face := by simp
      rw [faces] at indexed follows
      obtain ⟨passed, left, indexed, follows, keeps, script⟩ := ih ended indexed follows
      refine ⟨passed, ?_, indexed, follows, keeps, ?_⟩
      · rw [left, List.filter_cons_of_pos retained, List.map_cons, List.append_assoc]
        rfl
      · rw [script, List.filter_cons_of_neg (by simp [retained])]
    · rw [if_neg retained] at ended
      obtain ⟨answer, between, accepted, continued⟩ := bind_ok.mp ended
      obtain ⟨keeps, steady, carried | refused⟩ := plain.accept_ok follows.steady accepted
      · obtain ⟨rfl, keys, carriedOut⟩ := carried
        have perm : ((walk.behind ++ item :: rest).map Item.face).Perm
            (item.face :: (walk.behind ++ rest).map Item.face) := by
          rw [List.map_append, List.map_cons, List.map_append]
          exact List.perm_middle
        have released := (indexed.perm perm).release
        have distinct : (walk.behind.map Item.key ++ item.key :: rest.map Item.key).Nodup := by
          have keys := indexed.keys
          rw [Item.keys_of_faces, List.map_append, List.map_cons] at keys
          exact keys
        have fewer : plain.Follows ((walk.behind ++ rest).map Item.face) between := by
          refine ⟨?_, ((follows.houses.perm perm).tail).grow keeps.cells, steady⟩
          rw [keys, follows.keys, Item.keys_of_faces, Item.keys_of_faces, List.map_append,
            List.map_append, List.map_cons]
          exact KeyList.filter_ne_middle distinct
        obtain ⟨passed, left, indexed, follows, kept, script⟩ :=
          ih continued released fewer
        refine ⟨passed, ?_, indexed, follows, keeps.trans kept, ?_⟩
        · rw [left, List.filter_cons_of_neg retained]
        · rw [script, carriedOut, List.filter_cons_of_pos (by simpa using retained)]
          simp
      · obtain ⟨-, ⟨refs, place, impossible⟩, -⟩ := refused
        cases impossible

theorem prune_unfailing (items : List Item) :
    ∀ walk : Walk, Unfailing (plain.target.prune items walk) := by
  induction items with
  | nil => exact fun walk => .pure _
  | cons item rest ih =>
    intro walk
    unfold SyncTarget.prune
    by_cases retained : item.retained = true
    · rw [if_pos retained]
      exact ih _
    · rw [if_neg retained]
      refine .bind (plain.accept_unfailing _) fun answer => ?_
      cases answer with
      | none => exact ih _
      | some error => exact .pure _

/-- A synchronisation with this pass came to its end, starting from these items. -/
structure Synced (plain : PlainTarget σ) (old : List Item) (pass : Pass) (artifacts : Artifacts)
    (before after : σ) : Prop where
  keys : artifacts.items.map Item.key = pass.map PassItem.key
  kept : ∀ item ∈ old, item.key ∈ pass.map PassItem.key →
    ∃ later ∈ artifacts.items, later.id = item.id ∧ later.refs = item.refs
  shown : ∀ element ∈ pass, ∃ item ∈ artifacts.items,
    item.key = element.key ∧ (plain.store after).Shows item.refs element
  script : ∃ script, plain.script after = plain.script before ++ script ∧
    (Tally.of script).inserted = (pass.map PassItem.key).filter (· ∉ old.map Item.key) ∧
    (Tally.of script).deleted = (old.map Item.key).filter (· ∉ pass.map PassItem.key) ∧
    (Tally.of script).moved.Sublist ((pass.map PassItem.key).filter (· ∈ old.map Item.key)) ∧
    ((pass.map PassItem.key).filter (· ∈ old.map Item.key) =
        (old.map Item.key).filter (· ∈ pass.map PassItem.key) →
      (Tally.of script).moved = [])

/-- The artifacts fit the target, and carry no marks. -/
structure Settled (plain : PlainTarget σ) (artifacts : Artifacts) (state : σ) : Prop where
  indexed : artifacts.Indexes (artifacts.items.map Item.face)
  unmarked : ∀ item ∈ artifacts.items, item.Unmarked
  follows : plain.Follows (artifacts.items.map Item.face) state

theorem Stopped.settled {keys : List Key} {error : RenderError} {walk : Walk} {state : σ}
    (stopped : plain.Stopped keys error walk state) : plain.Settled walk.abandon state := by
  have faces : walk.abandon.items.map Item.face = walk.items.map Item.face := by
    simp [Walk.abandon, Function.comp_def]
  refine ⟨?_, ?_, ?_⟩
  · rw [faces]
    exact stopped.indexed.congr rfl rfl rfl
  · intro item member
    obtain ⟨origin, -, rfl⟩ := List.mem_map.mp member
    exact origin.unmarked_clearMarks
  · rw [faces]
    exact stopped.follows

/-- The key of the insertion that was refused is not mapped. -/
theorem Stopped.unmapped {keys : List Key} {error : RenderError} {walk : Walk} {state : σ}
    (stopped : plain.Stopped keys error walk state) :
    ∃ key ∈ keys, walk.abandon.get? key = none ∧ plain.Refuses key error state := by
  obtain ⟨key, member, absent, refused⟩ := stopped.missed
  rw [← Item.keys_of_faces] at absent
  exact ⟨key, member, stopped.indexed.get?_eq_none absent, refused⟩

/-- The items that are retained when the pass is over are those of its elements, in its order. -/
theorem Midway.retained_keys {pass : Pass} {walk : Walk} {state : σ}
    (midway : plain.Midway old pass walk state) (unmarked : ∀ item ∈ old, item.Unmarked) :
    (walk.items.filter (·.retained)).map Item.key = pass.map PassItem.key := by
  have none : walk.ahead.filter (·.retained) = [] := by
    refine List.filter_eq_nil_iff.mpr fun item member => ?_
    simp [(midway.merged.unmarked_ahead unmarked item member).1]
  rw [Walk.items, List.filter_append, none, List.append_nil]
  exact midway.merged.order

/-- An item with the key of an element is retained. -/
theorem Midway.retained_face {pass : Pass} {walk : Walk} {state : σ}
    (midway : plain.Midway old pass walk state) (unmarked : ∀ item ∈ old, item.Unmarked)
    {face : Face} (member : face ∈ walk.items.map Item.face)
    (named : face.key ∈ pass.map PassItem.key) :
    ∃ item ∈ walk.items.filter (·.retained), item.face = face := by
  rw [← midway.retained_keys unmarked] at named
  obtain ⟨item, retained, same⟩ := List.mem_map.mp named
  refine ⟨item, retained, ?_⟩
  have inside : item.face ∈ walk.items.map Item.face :=
    List.mem_map_of_mem (List.mem_of_mem_filter retained)
  exact midway.merged.indexed.eq_of_key inside member same

theorem tally_delete (script : List Edit) (keys : List Key)
    (undeleted : (Tally.of script).deleted = []) :
    Tally.of (script ++ keys.map Edit.delete ++ [.done]) =
      ⟨(Tally.of script).inserted, (Tally.of script).moved, keys⟩ := by
  have inserted : (keys.map Edit.delete).filterMap Edit.inserted? = [] := by
    simp [List.filterMap_map, Edit.inserted?, Function.comp_def]
  have moved : (keys.map Edit.delete).filterMap Edit.moved? = [] := by
    simp [List.filterMap_map, Edit.moved?, Function.comp_def]
  have deleted : (keys.map Edit.delete).filterMap Edit.deleted? = keys := by
    simp [List.filterMap_map, Edit.deleted?, Function.comp_def]
  simp only [Tally.of] at undeleted
  simp only [Tally.of, List.filterMap_append, inserted, moved, deleted, undeleted]
  simp [Edit.inserted?, Edit.moved?, Edit.deleted?]

theorem walkThrough_ok {pass : Pass} {artifacts synced : Artifacts} {before after : σ}
    {refusal : Option RenderError} (settled : plain.Settled artifacts before)
    (distinct : (pass.map PassItem.key).Nodup)
    (ended : plain.target.walkThrough pass artifacts before = .ok (synced, refusal) after) :
    (plain.store before).Spares (plain.store after) ∧ plain.Settled synced after ∧
      (refusal = none → synced.items.map Item.key = pass.map PassItem.key ∧
        ((∀ element ∈ pass, element.NanFree) →
          plain.Synced artifacts.items pass synced before after)) ∧
      ∀ error, refusal = some error → ∃ key ∈ pass.map PassItem.key,
        synced.get? key = none ∧ plain.Refuses key error after := by
  obtain ⟨⟨walk, stop⟩, between, merged, rest⟩ := bind_ok.mp ended
  have start : plain.Midway artifacts.items [] (.ofArtifacts artifacts) before :=
    ⟨.start settled.indexed settled.unmarked, settled.follows, by simp [Store.Shown]⟩
  obtain ⟨spares, outcome⟩ := mergePass_ok settled.unmarked pass start distinct merged
  rcases outcome with ⟨rfl, midway, script, written, scripted⟩ | ⟨error, rfl, stopped⟩
  · simp only [Option.isSome_none, Bool.false_eq_true, if_false] at rest
    obtain ⟨⟨last, stop⟩, later, pruned, final⟩ := bind_ok.mp rest
    rw [List.nil_append] at midway
    have whole : walk.rewind.ahead = walk.items := rfl
    rw [whole] at pruned
    obtain ⟨rfl, left, indexed, follows, keeps, deleted⟩ :=
      prune_ok walk.items pruned midway.merged.indexed midway.follows
    simp only [Option.isSome_none, Bool.false_eq_true, if_false] at final
    obtain ⟨answer, state, accepted, done⟩ := bind_ok.mp final
    obtain ⟨kept, steady, carried | refused⟩ := plain.accept_ok follows.steady accepted
    · obtain ⟨rfl, keys, carriedOut⟩ := carried
      obtain ⟨equal, rfl⟩ := pure_ok.mp done
      simp only [Option.isSome_none, Bool.false_eq_true, if_false] at equal
      obtain ⟨rfl, rfl⟩ := Prod.mk.inj equal
      have items : last.finish.items = (walk.items.filter (·.retained)).map Item.clearMarks := left
      have order : last.finish.items.map Item.key = pass.map PassItem.key := by
        rw [items, ← midway.retained_keys settled.unmarked, List.map_map]
        rfl
      have here : ∀ face ∈ walk.items.map Item.face, face.key ∈ pass.map PassItem.key →
          ∃ item ∈ last.finish.items, item.face = face := by
        intro face member named
        obtain ⟨item, retained, same⟩ := midway.retained_face settled.unmarked member named
        exact ⟨item.clearMarks, items ▸ List.mem_map_of_mem retained, same⟩
      have whole := keeps.trans kept
      refine ⟨spares.trans whole.toSpares, ⟨?_, ?_, ?_, ?_, steady⟩,
        fun _ => ⟨order, fun free => ⟨order, ?_, ?_, ?_⟩⟩, nofun⟩
      · exact indexed.congr rfl rfl rfl
      · intro item member
        rw [items] at member
        obtain ⟨origin, -, rfl⟩ := List.mem_map.mp member
        exact origin.unmarked_clearMarks
      · rw [keys]
        exact follows.keys
      · exact follows.houses.grow kept.toSpares.cells
      · intro item member named
        obtain ⟨later, inside, same⟩ := here item.face (midway.merged.kept item member) named
        exact ⟨later, inside, (Prod.mk.inj same).1, (Prod.mk.inj same).2⟩
      · intro element member
        have shown := midway.shown.keep midway.follows.houses whole.values
        obtain ⟨face, inside, named, shows⟩ := shown element member (free element member)
        obtain ⟨item, remains, same⟩ := here face inside (named ▸ List.mem_map_of_mem member)
        subst same
        exact ⟨item, remains, named, shows⟩
      · have gone : (walk.items.filter (!·.retained)).map (fun item => Edit.delete item.key) =
            ((artifacts.items.map Item.key).filter (· ∉ pass.map PassItem.key)).map Edit.delete := by
          have others := congrArg (List.map Face.key) midway.merged.others
          rw [Item.keys_of_faces, Item.keys_of_faces] at others
          rw [← Function.comp_def Edit.delete, ← List.map_map, others, List.filter_map]
          rfl
        refine ⟨script ++ ((artifacts.items.map Item.key).filter
          (· ∉ pass.map PassItem.key)).map Edit.delete ++ [.done], ?_, ?_⟩
        · rw [carriedOut, deleted, written, gone]
          simp
        · rw [tally_delete script _ scripted.deleted]
          exact ⟨scripted.inserted, rfl, scripted.moved, scripted.still⟩
    · obtain ⟨-, ⟨refs, place, impossible⟩, -⟩ := refused
      cases impossible
  · simp only [Option.isSome_some, if_true] at rest
    obtain ⟨equal, rfl⟩ := pure_ok.mp rest
    obtain ⟨rfl, rfl⟩ := Prod.mk.inj equal
    refine ⟨spares, stopped.settled, nofun, ?_⟩
    rintro _ ⟨⟩
    exact stopped.unmapped

theorem walkThrough_unfailing (pass : Pass) (artifacts : Artifacts) :
    Unfailing (plain.target.walkThrough pass artifacts) := by
  refine .bind (mergePass_unfailing pass _) fun ⟨walk, stop⟩ => ?_
  cases stop with
  | some error => exact .pure _
  | none =>
    refine .bind (prune_unfailing _ _) fun ⟨last, stop⟩ => ?_
    cases stop with
    | some error => exact .pure _
    | none => exact .bind (plain.accept_unfailing _) fun answer => .pure _

/-! Synchronisations, one after the other -/

variable {helpers : Helpers} {keyed : KeyedList}

theorem Settled.of_spares {artifacts : Artifacts} {before after : σ} {list : ListId}
    (settled : plain.Settled artifacts before)
    (found : (plain.store before).lists[list]? = some artifacts)
    (spares : (plain.store before).Spares (plain.store after))
    (keys : plain.keys after = plain.keys before) (steady : plain.steady after) :
    ∃ later, (plain.store after).lists[list]? = some later ∧ later.items = artifacts.items ∧
      plain.Settled later after := by
  obtain ⟨later, there, same⟩ := spares.lists found
  obtain ⟨items, index, slots, free, -⟩ := (Artifacts.mk.injEq ..).mp same
  refine ⟨later, there, items, ?_, ?_, ?_, ?_, steady⟩
  · rw [items]
    exact settled.indexed.congr index slots free
  · rw [items]
    exact settled.unmarked
  · rw [items, keys]
    exact settled.follows.keys
  · rw [items]
    exact settled.follows.houses.grow spares.cells

theorem Settled.of_eq {artifacts other : Artifacts} {state : σ}
    (settled : plain.Settled artifacts state) (same : other.settled = artifacts.settled) :
    plain.Settled other state := by
  obtain ⟨items, index, slots, free, -⟩ := (Artifacts.mk.injEq ..).mp same
  refine ⟨?_, ?_, ?_⟩
  · rw [items]
    exact settled.indexed.congr index slots free
  · rw [items]
    exact settled.unmarked
  · rw [items]
    exact settled.follows

/-- A synchronisation came to its end, or failed with an error that the target gave, or the list. -/
def Synchronises (plain : PlainTarget σ) (helpers : Helpers) (keyed : KeyedList) (before after : σ)
    (failure : Option RenderError) : Prop :=
  plain.target.sync helpers keyed before =
    match failure with
    | none => .ok () after
    | some error => .error (.failed error) after

/-- A walk through a pass that was taken, and what it left put away. -/
structure Walked (plain : PlainTarget σ) (helpers : Helpers) (keyed : KeyedList)
    (before after : σ) (failure : Option RenderError) where
  pass : Pass
  found : Artifacts
  synced : Artifacts
  started : σ
  ready : σ
  done : σ
  taken : plain.target.onStore (keyed.takePass helpers) before = .ok pass started
  read : plain.target.onStore (Reading.artifacts keyed.list) started = .ok found ready
  walked : plain.target.walkThrough pass found ready = .ok (synced, failure) done
  stored : plain.target.onStore (do
      let current ← Reading.artifacts keyed.list
      Reading.setArtifacts keyed.list { synced with pending := current.pending }) done =
    .ok () after

/-- Either no pass could be taken, and then nothing else happened, or the pass was walked through. -/
theorem synchronises_cases {before after : σ} {failure : Option RenderError}
    (ended : plain.Synchronises helpers keyed before after failure) :
    (failure.isSome ∧ ∃ fault,
        plain.target.onStore (keyed.takePass helpers) before = .error fault after) ∨
      Nonempty (plain.Walked helpers keyed before after failure) := by
  cases failure with
  | none =>
    obtain ⟨pass, started, taken, rest⟩ := bind_ok.mp ended
    obtain ⟨found, ready, read, rest⟩ := bind_ok.mp rest
    obtain ⟨⟨synced, refusal⟩, done, walked, rest⟩ := bind_ok.mp rest
    obtain ⟨_, last, stored, rest⟩ := bind_ok.mp rest
    cases refusal with
    | some error => exact absurd rest throw_ok
    | none =>
      obtain ⟨-, rfl⟩ := pure_ok.mp rest
      exact .inr ⟨pass, found, synced, started, ready, done, taken, read, walked, stored⟩
  | some error =>
    rcases bind_error.mp ended with failed | ⟨pass, started, taken, rest⟩
    · exact .inl ⟨rfl, _, failed⟩
    rcases bind_error.mp rest with failed | ⟨found, ready, read, rest⟩
    · exact absurd failed (onStore_unfailing (Reading.artifacts_unfailing _)).not_failed
    rcases bind_error.mp rest with failed | ⟨⟨synced, refusal⟩, done, walked, rest⟩
    · exact absurd failed (walkThrough_unfailing pass found).not_failed
    rcases bind_error.mp rest with failed | ⟨_, last, stored, rest⟩
    · have stores : Unfailing (do
          let current ← Reading.artifacts keyed.list
          Reading.setArtifacts keyed.list { synced with pending := current.pending }) :=
        .bind (Reading.artifacts_unfailing _) fun current => .modify _
      exact absurd failed (onStore_unfailing stores).not_failed
    cases refusal with
    | none => exact absurd rest pure_error
    | some refused =>
      obtain ⟨same, rfl⟩ := throw_error.mp rest
      cases same
      exact .inr ⟨pass, found, synced, started, ready, done, taken, read, walked, stored⟩

/-- What a walk through a pass leaves, from what it found. If the target stopped it, the key of the
insertion that was refused is not mapped. -/
theorem Walked.settles {before after : σ} {failure : Option RenderError} {artifacts : Artifacts}
    (run : plain.Walked helpers keyed before after failure) (quiet : helpers.Quiet)
    (settled : plain.Settled artifacts before)
    (there : (plain.store before).lists[keyed.list]? = some artifacts)
    (distinct : (run.pass.map PassItem.key).Nodup) :
    ∃ later, (plain.store after).lists[keyed.list]? = some later ∧ plain.Settled later after ∧
      (failure = none → later.items.map Item.key = run.pass.map PassItem.key ∧
        ((∀ element ∈ run.pass, element.NanFree) →
          plain.Synced artifacts.items run.pass later before after)) ∧
      ∀ error, failure = some error → ∃ key ∈ run.pass.map PassItem.key,
        later.get? key = none ∧ plain.Refuses key error run.done := by
  obtain ⟨taken, keysTaken, scriptTaken, steadyTaken⟩ := plain.onStore_ok run.taken
  obtain ⟨read, keysRead, scriptRead, steadyRead⟩ := plain.onStore_ok run.read
  obtain ⟨stored, keysStored, scriptStored, steadyStored⟩ := plain.onStore_ok run.stored
  have spares := (KeyedList.takePass_quiet quiet keyed).of_ok taken
  obtain ⟨found, same⟩ := Reading.artifacts_ok.mp read
  rw [same] at spares found
  have ready := settled.of_spares there spares (keysRead.trans keysTaken)
    (steadyRead (steadyTaken settled.follows.steady))
  obtain ⟨_, again, items, ready⟩ := ready
  cases again.symm.trans found
  obtain ⟨-, synced, outcome, refused⟩ := walkThrough_ok ready distinct run.walked
  obtain ⟨current, between, known, put⟩ := bind_ok.mp stored
  obtain ⟨held, rfl⟩ := Reading.artifacts_ok.mp known
  have written := Reading.setArtifacts_ok.mp put
  have bound := (Array.getElem?_eq_some_iff.mp held).1
  have cells : (plain.store after).cells = (plain.store run.done).cells := by rw [← written]
  refine ⟨{ run.synced with pending := current.pending }, ?_, ?_, ?_, refused⟩
  · rw [← written]
    simp [bound]
  · refine ⟨synced.indexed.congr rfl rfl rfl, synced.unmarked, ?_, ?_, ?_⟩
    · rw [keysStored]
      exact synced.follows.keys
    · exact synced.follows.houses.grow (Nat.le_of_eq (congrArg Array.size cells.symm))
    · exact steadyStored synced.follows.steady
  · intro success
    refine ⟨(outcome success).1, fun free => ?_⟩
    obtain ⟨keys, kept, shown, script⟩ := (outcome success).2 free
    rw [items] at kept script
    have value : ∀ id, (plain.store after).value? id = (plain.store run.done).value? id := by
      intro id
      rw [Store.value?, Store.value?, cells]
    refine ⟨keys, kept, fun element member => ?_, ?_⟩
    · obtain ⟨item, inside, named, shows⟩ := shown element member
      refine ⟨item, inside, named, ?_⟩
      unfold Store.Shows Store.Holds at shows ⊢
      rw [value, value]
      exact shows
    · rw [scriptStored, ← scriptTaken, ← scriptRead]
      exact script

theorem Walked.leaves {before after : σ} {failure : Option RenderError} {artifacts : Artifacts}
    (run : plain.Walked helpers keyed before after failure) (quiet : helpers.Quiet)
    (settled : plain.Settled artifacts before)
    (there : (plain.store before).lists[keyed.list]? = some artifacts)
    (distinct : (run.pass.map PassItem.key).Nodup) (free : ∀ element ∈ run.pass, element.NanFree) :
    ∃ later, (plain.store after).lists[keyed.list]? = some later ∧ plain.Settled later after ∧
      (failure = none → plain.Synced artifacts.items run.pass later before after) := by
  obtain ⟨later, found, settles, outcome, -⟩ := run.settles quiet settled there distinct
  exact ⟨later, found, settles, fun success => (outcome success).2 free⟩

end PlainTarget

end LiveTemplate
