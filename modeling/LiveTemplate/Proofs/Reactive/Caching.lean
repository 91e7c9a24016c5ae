import LiveTemplate.Proofs.Reactive.Composition

/-!
The cache of a reference over a whole run. While cells are updated, and readings fail for some of their
values, a cache is asked again and again for a change. Whenever it answers, it holds what the reference
reads now, and it reports a change exactly if that differs from what it held before; asking whether it
is stale makes no difference to any later answer. What carries this through a run is that the revision
of the cache was taken at some moment at which the reference read a value equal to the one held.
-/

namespace LiveTemplate

open Effects

namespace Reading

theorem attempt_of_ok {α : Type} {reading : Reading α} {store after : Store} {value : α}
    (ended : reading store = .ok value after) : reading.attempt store = .ok (.ok value) after := by
  unfold attempt
  rw [ended]

theorem attempt_of_error {α : Type} {reading : Reading α} {store after : Store} {error : RenderError}
    (ended : reading store = .error (.failed error) after) :
    reading.attempt store = .ok (.error error) after := by
  unfold attempt
  rw [ended]

theorem updateCell_eq {store : Store} {id : CellId} {old : Value}
    (found : store.value? id = some old) (value : Value) :
    updateCell id value store = if old == value then .ok false store
      else .ok true { store with
        clock := store.clock + 1
        cells := store.cells.setIfInBounds id ⟨value, store.clock + 1⟩ } := by
  refine (bind_of_ok (readCell_ok.mpr ⟨found, rfl⟩)).trans ?_
  split <;> rfl

end Reading

/-! References that a tag can be trusted for -/

/-- Readings of a reference differ in nothing but the maps they make, as long as its tag validates the
revision that was noted at the first of them. -/
structure Reference.Traced (helpers : Helpers) (floor : Storage) (reference : Reference) : Prop where
  renews : Agree (Store.Level floor fun _ => True) (Value.Renewed floor) (reference.read helpers)
    (reference.read helpers)
  makes : ∀ {start : Store}, start.Settled floor → reference.Over start →
    Reference.Makes floor start (reference.read helpers)
  tells : ∀ {store : Store}, store.Settled floor → reference.Over store →
    ∃ tag after, reference.tag helpers store = .ok tag after ∧ store.Spends after
  witnesses : ∀ {early late first last after : Store} {dirtied : List CellId} {noted tag : Tag}
    {value : Value}, early.Settled floor → early.Timely → reference.Over early →
    Store.Run early dirtied late → late.Settled floor →
    reference.tag helpers early = .ok noted first → reference.tag helpers late = .ok tag last →
    late.validates tag (early.revisionOf noted) = true →
    reference.read helpers early = .ok value after →
    ∃ again later, reference.read helpers late = .ok again later ∧ again.Renewed floor value

namespace Reference.Traced

variable {helpers : Helpers} {floor : Storage} {reference : Reference} {store other : Store}

theorem reads_level (traced : reference.Traced helpers floor)
    (level : store.Level floor (fun _ => True) other) {value : Value} {last : Store}
    (read : reference.read helpers store = .ok value last) :
    ∃ again later, reference.read helpers other = .ok again later ∧ again.Renewed floor value := by
  obtain ⟨again, later, ended, renewed, -⟩ := traced.renews.of_ok level read
  exact ⟨again, later, ended, renewed.symm⟩

theorem refuses_level (traced : reference.Traced helpers floor)
    (level : store.Level floor (fun _ => True) other) {fault : Fault} {last : Store}
    (read : reference.read helpers store = .error fault last) :
    ∃ later, reference.read helpers other = .error fault later := by
  obtain ⟨later, ended, -⟩ := traced.renews.of_error level read
  exact ⟨later, ended⟩

end Reference.Traced

theorem Reference.Composed.traced {helpers : Helpers} {floor : Storage} {reference : Reference}
    (composed : reference.Composed floor) : reference.Traced helpers floor where
  renews := read_renews reference composed fun _ _ => trivial
  makes := fun settled grounded => read_makes reference composed settled grounded.1
  tells := by
    intro store _ _
    obtain ⟨tag, known, -⟩ := @tag_tracked helpers reference .contents
      (tracked_of_composed reference composed)
    exact ⟨tag, store, by rw [known]; rfl, .refl store⟩
  witnesses := by
    intro early late first last after dirtied noted tag value settled timely grounded run settled' told
      told' valid read
    obtain ⟨known, same, revision⟩ := @tag_tracked helpers reference .contents
      (tracked_of_composed reference composed)
    rw [same] at told told'
    obtain ⟨rfl, rfl⟩ := pure_ok.mp told
    obtain ⟨rfl, rfl⟩ := pure_ok.mp told'
    obtain ⟨still, kept⟩ := Tag.validates_iff.mp valid
    rw [revision] at still
    rw [Store.revisionOf, revision, revision] at kept
    have free : reference.VolatileFree :=
      fun member => still ((revision_volatile reference).mpr member)
    have clean := clean_of_revision_le timely grounded free run kept
    exact reads_level composed (run.level (fun id member => ⟨grounded.1 id member, clean id member⟩)
      settled.storage settled'.storage) read

namespace Cache

/-! Uses of a cache -/

/-- What may happen to a cache and the cells below it. -/
inductive Use where
  | update (id : CellId) (value : Value)
  | revalidate
  | isStale

/-- All but the question whether the cache is stale. -/
def Use.counts : Use → Bool
  | isStale => false
  | _ => true

/-- A revalidation: what the cache held before and after it, what it answered, and the store as it was
then. -/
structure Report where
  before : Value
  answer : Except RenderError (Option Value)
  after : Value
  store : Store

/-- One use. A revalidation that fails leaves the cache as it was. -/
def perform (helpers : Helpers) (cache : Cache) : Use → Reading (Cache × List Report)
  | .update id value => do
    let _ ← Reading.updateCell id value
    return (cache, [])
  | .revalidate => do
    match ← (cache.revalidate helpers).attempt with
    | .ok (later, change) => return (later, [⟨cache.last, .ok change, later.last, ← get⟩])
    | .error error => return (cache, [⟨cache.last, .error error, cache.last, ← get⟩])
  | .isStale => do
    match ← (cache.isStale helpers).attempt with
    | .ok (later, _) => return (later, [])
    | .error _ => return (cache, [])

def performAll (helpers : Helpers) (cache : Cache) : List Use → Reading (Cache × List Report)
  | [] => return (cache, [])
  | use :: uses => do
    let (cache, reports) ← cache.perform helpers use
    let (cache, others) ← performAll helpers cache uses
    return (cache, reports ++ others)

namespace Report

/-- A revalidation that answers leaves the cache with what the reference reads now, and reports it
exactly if it differs from what the cache held. One that fails does so because reading fails, and the
cache keeps what it held. -/
def Right (helpers : Helpers) (reference : Reference) (report : Report) : Prop :=
  match report.answer with
  | .ok change => ∃ value last, reference.read helpers report.store = .ok value last ∧
      (value == report.after) = true ∧ change.isSome = !(value == report.before) ∧
      report.after = change.getD report.before
  | .error error => report.after = report.before ∧
      ∃ last, reference.read helpers report.store = .error (.failed error) last

/-- Every revalidation finds in the cache what the one before it left there. -/
def Chained (held : Value) : List Report → Value → Prop
  | [], last => held = last
  | report :: reports, last => report.before = held ∧ Chained report.after reports last

/-- The same but for the storage of maps that readings made. -/
structure Alike (report other : Report) : Prop where
  before : Likeness.contents.Alike report.before other.before
  answer : match report.answer, other.answer with
    | .ok (some value), .ok (some value') => Likeness.contents.Alike value value'
    | .ok none, .ok none => True
    | .error error, .error error' => error = error'
    | _, _ => False
  after : Likeness.contents.Alike report.after other.after

theorem Chained.split {held last : Value} {reports others : List Report}
    (chained : Chained held (reports ++ others) last) :
    ∃ between, Chained held reports between ∧ Chained between others last := by
  induction reports generalizing held with
  | nil => exact ⟨held, rfl, chained⟩
  | cons report reports ih =>
    obtain ⟨between, early, late⟩ := ih chained.2
    exact ⟨between, ⟨chained.1, early⟩, late⟩

/-- Revalidations that fail leave to the next one what was held before all of them. -/
theorem Chained.failed {helpers : Helpers} {reference : Reference} {held last : Value}
    {failed : List Report} (chained : Chained held failed last)
    (right : ∀ report ∈ failed, report.Right helpers reference)
    (fails : ∀ report ∈ failed, ∃ error, report.answer = .error error) : held = last := by
  induction failed generalizing held with
  | nil => exact chained
  | cons report failed ih =>
    obtain ⟨first, right⟩ := List.forall_mem_cons.mp right
    obtain ⟨⟨error, answer⟩, fails⟩ := List.forall_mem_cons.mp fails
    unfold Right at first
    rw [answer] at first
    exact chained.1.symm.trans (first.1.symm.trans (ih chained.2 right fails))

end Report

/-! What a cache can be relied on for -/

/-- The cache holds a value equal to the one that was read when its revision was taken. Cells have been
updated since and storage has been given out, but what the cache holds was made before now. -/
structure Faithful (helpers : Helpers) (floor : Storage) (reference : Reference) (cache : Cache)
    (store : Store) : Prop where
  same : cache.reference = reference
  settled : store.Settled floor
  timely : store.Timely
  grounded : reference.Over store
  old : cache.last.Made floor floor store.storage
  noted : ∃ early dirtied tag first value after, Store.Run early dirtied store ∧ early.Settled floor ∧
    early.Timely ∧ reference.Over early ∧ reference.tag helpers early = .ok tag first ∧
    cache.revision = early.revisionOf tag ∧ reference.read helpers early = .ok value after ∧
    Value.equals floor value cache.last = true

/-- What can come of asking a cache, as the reference reads now. -/
inductive Asked (helpers : Helpers) (floor : Storage) (reference : Reference) (cache : Cache)
    (store : Store) : Prop
  | refused (error : RenderError) (last after : Store)
      (read : reference.read helpers store = .error (.failed error) last)
      (revalidates : cache.revalidate helpers store = .error (.failed error) after)
      (asks : cache.isStale helpers store = .error (.failed error) after)
      (spends : store.Spends after)
  | equal (value : Value) (last after : Store) (later : Cache)
      (read : reference.read helpers store = .ok value last)
      (unchanged : Value.equals floor value cache.last = true)
      (revalidates : cache.revalidate helpers store = .ok (later, none) after)
      (asks : cache.isStale helpers store = .ok (later, false) after)
      (spends : store.Spends after)
      (keeps : later.last = cache.last)
      (faithful : later.Faithful helpers floor reference after)
  | changed (value : Value) (last after : Store) (later : Cache)
      (read : reference.read helpers store = .ok value last)
      (differs : Value.equals floor value cache.last = false)
      (revalidates : cache.revalidate helpers store = .ok (later, some later.last) after)
      (asks : cache.isStale helpers store = .ok (cache, true) after)
      (spends : store.Spends after)
      (renewed : later.last.Renewed floor value)
      (faithful : later.Faithful helpers floor reference after)

variable {helpers : Helpers} {floor : Storage} {reference : Reference} {cache : Cache}
  {store between after : Store} {tag : Tag}

section Asking

variable (told : cache.reference.tag helpers store = .ok tag between)
include told

theorem revalidate_of_valid (valid : between.validates tag cache.revision = true) :
    cache.revalidate helpers store = .ok (cache, none) between := by
  refine (bind_of_ok told).trans ((bind_of_ok rfl).trans ?_)
  rw [if_pos valid]
  rfl

theorem isStale_of_valid (valid : between.validates tag cache.revision = true) :
    cache.isStale helpers store = .ok (cache, false) between := by
  refine (bind_of_ok told).trans ((bind_of_ok rfl).trans ?_)
  rw [if_pos valid]
  rfl

theorem revalidate_of_invalid (invalid : ¬between.validates tag cache.revision = true) :
    cache.revalidate helpers store = (cache.reference.read helpers >>= fun value =>
      if value == cache.last then pure ({ cache with revision := between.revisionOf tag }, none)
      else pure ({ cache with last := value, revision := between.revisionOf tag }, some value))
        between := by
  refine (bind_of_ok told).trans ((bind_of_ok rfl).trans ?_)
  rw [if_neg invalid]
  exact bind_of_ok rfl

theorem isStale_of_invalid (invalid : ¬between.validates tag cache.revision = true) :
    cache.isStale helpers store = (cache.reference.read helpers >>= fun value =>
      if value == cache.last then pure ({ cache with revision := between.revisionOf tag }, false)
      else pure (cache, true)) between := by
  refine (bind_of_ok told).trans ((bind_of_ok rfl).trans ?_)
  rw [if_neg invalid]
  exact bind_of_ok rfl

end Asking

namespace Faithful

/-- Time that passes without a change of a cell. -/
theorem spend (faithful : cache.Faithful helpers floor reference store) (spends : store.Spends after) :
    cache.Faithful helpers floor reference after := by
  obtain ⟨early, dirtied, tag, first, value, last, run, rest⟩ := faithful.noted
  refine ⟨faithful.same, spends.settled faithful.settled, spends.timely faithful.timely,
    spends.grounded faithful.grounded, faithful.old.widen (Nat.le_refl _) spends.storage,
    early, dirtied, tag, first, value, last, run.aside spends.aside, rest⟩

/-- An update of a cell. -/
theorem update (faithful : cache.Faithful helpers floor reference store) {id : CellId} {value : Value}
    {differs : Bool} (given : value.Given floor)
    (updated : Reading.updateCell id value store = .ok differs after) :
    cache.Faithful helpers floor reference after := by
  obtain ⟨early, dirtied, tag, first, noted, last, run, rest⟩ := faithful.noted
  obtain ⟨bound, result⟩ := Reading.updateCell_stamps updated
  have run := run.update updated
  have timely := (Store.Run.start.update updated).timely faithful.timely
  cases differs with
  | false =>
    obtain rfl := result
    exact faithful
  | true =>
    obtain rfl := result
    refine ⟨faithful.same, ⟨fun other held found => ?_, faithful.settled.storage⟩, timely, ?_,
      faithful.old, early, _, tag, first, noted, last, run, rest⟩
    · by_cases same : id = other
      · subst same
        obtain rfl : value = held := by simpa [Store.value?, bound] using found
        exact given
      · refine faithful.settled.given other held ?_
        simpa [Store.value?, same] using found
    · exact ⟨fun other member => by simpa using faithful.grounded.1 other member, faithful.grounded.2⟩

variable (traced : reference.Traced helpers floor)
include traced

/-- What is read now compares with what the cache holds by its contents, or by storage from before
`floor`. -/
theorem compared (faithful : cache.Faithful helpers floor reference store) {value : Value}
    (read : reference.read helpers store = .ok value after) :
    (value == cache.last) = Value.equals floor value cache.last := by
  obtain ⟨-, -, made⟩ :=
    (traced.makes faithful.settled faithful.grounded store (.refl store)).of_ok read
  exact Value.same_eq_equals value cache.last made faithful.old

/-- A cache whose revision is taken now. -/
theorem fresh (settled : store.Settled floor) (timely : store.Timely) (grounded : reference.Over store)
    (told : reference.tag helpers store = .ok tag between) (spends : store.Spends between)
    {value held : Value} (read : reference.read helpers between = .ok value after)
    (old : held.Made floor floor after.storage) (equal : Value.equals floor value held = true) :
    Faithful helpers floor reference ⟨reference, held, between.revisionOf tag⟩ after := by
  have moved := ((traced.makes (spends.settled settled) (spends.grounded grounded) between
    (.refl between)).of_ok read).1
  have later := spends.trans moved
  obtain ⟨value', last, read', renewed⟩ :=
    traced.reads_level (spends.level settled.storage _).symm read
  refine ⟨rfl, later.settled settled, later.timely timely, later.grounded grounded, old, store, [], tag,
    between, value', last, .aside .start later.aside, settled, timely, grounded, told, ?_, read', ?_⟩
  · exact congrArg tag.revision spends.changed
  · rw [Value.equals_congr renewed rfl, equal]

/-- Whatever the cache is asked, it answers by what the reference reads and by what it holds. -/
theorem asked (faithful : cache.Faithful helpers floor reference store) :
    cache.Asked helpers floor reference store := by
  obtain ⟨tag, between, told, spends⟩ := traced.tells faithful.settled faithful.grounded
  have told' := told
  rw [← faithful.same] at told'
  by_cases valid : between.validates tag cache.revision = true
  · obtain ⟨early, dirtied, noted, first, value, last, run, settled, timely, grounded, was, stamp,
      read, equal⟩ := faithful.noted
    have witnessed : store.validates tag (early.revisionOf noted) = true := by
      rw [← stamp, Store.validates, ← spends.changed]
      exact valid
    obtain ⟨again, later, reads, renewed⟩ :=
      traced.witnesses settled timely grounded run faithful.settled was told witnessed read
    refine .equal again later between cache reads ?_ (revalidate_of_valid told' valid)
      (isStale_of_valid told' valid) spends rfl (faithful.spend spends)
    rw [Value.equals_congr renewed rfl, equal]
  · have revalidates := revalidate_of_invalid told' valid
    have asks := isStale_of_invalid told' valid
    rw [faithful.same] at revalidates asks
    have level := spends.level faithful.settled.storage fun _ => True
    have kept := faithful.spend spends
    have made := traced.makes kept.settled kept.grounded between (.refl between)
    cases ended : reference.read helpers between with
    | error fault last =>
      obtain ⟨⟨error, rfl⟩, moved⟩ := made.of_error ended
      obtain ⟨earlier, reads⟩ := traced.refuses_level level.symm ended
      rw [bind_of_error ended] at revalidates asks
      exact .refused error earlier last reads revalidates asks (spends.trans moved)
    | ok value last =>
      obtain ⟨moved, -, fresher⟩ := made.of_ok ended
      obtain ⟨earlier, after, reads, renewed⟩ := traced.reads_level level.symm ended
      have taken : ∀ {held : Value}, held.Made floor floor last.storage →
          Value.equals floor value held = true →
          Faithful helpers floor reference ⟨reference, held, between.revisionOf tag⟩ last :=
        fresh traced faithful.settled faithful.timely faithful.grounded told spends ended
      rw [bind_of_ok ended, kept.compared traced ended] at revalidates asks
      cases equal : Value.equals floor value cache.last with
      | true =>
        rw [equal] at revalidates asks
        refine .equal earlier after last _ reads ?_ revalidates asks (spends.trans moved) rfl
          (taken (kept.old.widen (Nat.le_refl _) moved.storage) equal)
        rw [Value.equals_congr renewed rfl, equal]
      | false =>
        rw [equal] at revalidates asks
        refine .changed earlier after last _ reads ?_ revalidates asks (spends.trans moved) renewed.symm
          (taken (fresher.widen kept.settled.storage (Nat.le_refl _)) (Value.equals_self value fresher))
        rw [Value.equals_congr renewed rfl, equal]

end Faithful

/-! One use -/

theorem perform_revalidate_of_ok {later : Cache} {change : Option Value}
    (ended : cache.revalidate helpers store = .ok (later, change) after) :
    cache.perform helpers .revalidate store =
      .ok (later, [⟨cache.last, .ok change, later.last, after⟩]) after :=
  (bind_of_ok (Reading.attempt_of_ok ended)).trans rfl

theorem perform_revalidate_of_error {error : RenderError}
    (ended : cache.revalidate helpers store = .error (.failed error) after) :
    cache.perform helpers .revalidate store =
      .ok (cache, [⟨cache.last, .error error, cache.last, after⟩]) after :=
  (bind_of_ok (Reading.attempt_of_error ended)).trans rfl

theorem perform_isStale_of_ok {later : Cache} {stale : Bool}
    (ended : cache.isStale helpers store = .ok (later, stale) after) :
    cache.perform helpers .isStale store = .ok (later, []) after :=
  (bind_of_ok (Reading.attempt_of_ok ended)).trans rfl

theorem perform_isStale_of_error {error : RenderError}
    (ended : cache.isStale helpers store = .error (.failed error) after) :
    cache.perform helpers .isStale store = .ok (cache, []) after :=
  (bind_of_ok (Reading.attempt_of_error ended)).trans rfl

/-- A revalidation is reported right. -/
theorem Faithful.revalidates (traced : reference.Traced helpers floor)
    (faithful : cache.Faithful helpers floor reference store) :
    ∃ later report last, cache.perform helpers .revalidate store = .ok (later, [report]) last ∧
      report.Right helpers reference ∧ report.before = cache.last ∧ report.after = later.last := by
  have level : ∀ {after : Store}, store.Spends after → store.Level floor (fun _ => True) after :=
    fun spends => spends.level faithful.settled.storage _
  rcases faithful.asked traced with ⟨error, last, after, read, revalidates, -, spends⟩ |
    ⟨value, last, after, later, read, unchanged, revalidates, -, spends, keeps, kept⟩ |
    ⟨value, last, after, later, read, differs, revalidates, -, spends, holds, kept⟩
  · exact ⟨_, _, _, perform_revalidate_of_error revalidates,
      ⟨rfl, traced.refuses_level (level spends) read⟩, rfl, rfl⟩
  · obtain ⟨again, last, reread, renewed⟩ := traced.reads_level (level spends) read
    have equal : (again == cache.last) = true := by
      rw [← keeps, kept.compared traced reread, Value.equals_congr renewed rfl, keeps, unchanged]
    refine ⟨_, _, _, perform_revalidate_of_ok revalidates, ⟨again, last, reread, ?_, ?_, keeps⟩, rfl,
      rfl⟩
    · exact keeps ▸ equal
    · rw [equal]
      rfl
  · obtain ⟨again, last, reread, renewed⟩ := traced.reads_level (level spends) read
    have equal : (again == later.last) = true := by
      rw [kept.compared traced reread, Value.equals_congr (renewed.trans holds.symm) rfl]
      exact Value.equals_self later.last kept.old
    have differs : (again == cache.last) = false := by
      rw [(faithful.spend spends).compared traced reread, Value.equals_congr renewed rfl, differs]
    refine ⟨_, _, _, perform_revalidate_of_ok revalidates, ⟨again, last, reread, equal, ?_, rfl⟩,
      rfl, rfl⟩
    rw [differs]
    rfl

/-- Two caches over one reference, each in a store of its own. -/
structure Beside (helpers : Helpers) (floor : Storage) (reference : Reference) (cache : Cache)
    (store : Store) (cache' : Cache) (store' : Store) : Prop where
  left : cache.Faithful helpers floor reference store
  right : cache'.Faithful helpers floor reference store'
  values : ∀ id, store.value? id = store'.value? id
  last : cache.last.Renewed floor cache'.last

namespace Beside

variable {cache' : Cache} {store' after' : Store}

theorem update (beside : Beside helpers floor reference cache store cache' store') {id : CellId}
    {value : Value} (bound : id < store.cells.size) (given : value.Given floor) :
    ∃ last last', cache.perform helpers (.update id value) store = .ok (cache, []) last ∧
      cache'.perform helpers (.update id value) store' = .ok (cache', []) last' ∧
      last.cells.size = store.cells.size ∧
      Beside helpers floor reference cache last cache' last' := by
  have found : store.value? id = some store.cells[id].value := by
    rw [Store.value?, Array.getElem?_eq_getElem bound]
    rfl
  have found' := (beside.values id).symm.trans found
  have updated := Reading.updateCell_eq found value
  have updated' := Reading.updateCell_eq found' value
  cases equal : store.cells[id].value == value with
  | true =>
    rw [equal] at updated updated'
    exact ⟨_, _, bind_of_ok updated, bind_of_ok updated', rfl, beside⟩
  | false =>
    rw [equal] at updated updated'
    refine ⟨_, _, bind_of_ok updated, bind_of_ok updated', by simp,
      beside.left.update given updated, beside.right.update given updated', fun other => ?_, beside.last⟩
    have bound' := Store.lt_of_value? found'
    by_cases same : id = other
    · subst same
      simp [Store.value?, bound, bound']
    · have values := beside.values other
      simpa [Store.value?, same] using values

variable (traced : reference.Traced helpers floor)
include traced

/-- Asking on one side alone whether the cache is stale. -/
theorem isStale (beside : Beside helpers floor reference cache store cache' store') :
    ∃ later last, cache.perform helpers .isStale store = .ok (later, []) last ∧
      later.last = cache.last ∧ store.Spends last ∧
      Beside helpers floor reference later last cache' store' := by
  have moved : ∀ {later : Cache} {last : Store}, later.Faithful helpers floor reference last →
      store.Spends last → later.last = cache.last →
      Beside helpers floor reference later last cache' store' := fun faithful spends keeps =>
    ⟨faithful, beside.right, fun id => (spends.value? id).trans (beside.values id),
      keeps ▸ beside.last⟩
  rcases beside.left.asked traced with ⟨error, last, after, -, -, asks, spends⟩ |
    ⟨value, last, after, later, -, -, -, asks, spends, keeps, kept⟩ |
    ⟨value, last, after, later, -, -, -, asks, spends, -, -⟩
  · exact ⟨_, _, perform_isStale_of_error asks, rfl, spends, moved (beside.left.spend spends) spends rfl⟩
  · exact ⟨_, _, perform_isStale_of_ok asks, keeps, spends, moved kept spends keeps⟩
  · exact ⟨_, _, perform_isStale_of_ok asks, rfl, spends, moved (beside.left.spend spends) spends rfl⟩

/-- Both sides answer alike. -/
theorem revalidate (beside : Beside helpers floor reference cache store cache' store') :
    ∃ later report last later' report' last',
      cache.perform helpers .revalidate store = .ok (later, [report]) last ∧
      cache'.perform helpers .revalidate store' = .ok (later', [report']) last' ∧
      report.Alike report' ∧ store.Spends last ∧
      Beside helpers floor reference later last later' last' := by
  have agreed := traced.renews store store'
    ⟨fun id _ => beside.values id, beside.left.settled.storage, beside.right.settled.storage⟩
  -- the caches go on beside each other, since neither use changes a cell
  have moved : ∀ {later later' : Cache} {last last' : Store},
      later.Faithful helpers floor reference last → later'.Faithful helpers floor reference last' →
      store.Spends last → store'.Spends last' → later.last.Renewed floor later'.last →
      Beside helpers floor reference later last later' last' :=
    fun faithful faithful' spends spends' renewed => ⟨faithful, faithful', fun id =>
      (spends.value? id).trans ((beside.values id).trans (spends'.value? id).symm), renewed⟩
  rcases beside.left.asked traced with ⟨error, last, after, read, revalidates, -, spends⟩ |
    ⟨value, last, after, later, read, unchanged, revalidates, -, spends, keeps, kept⟩ |
    ⟨value, last, after, later, read, differs, revalidates, -, spends, holds, kept⟩ <;>
  rcases beside.right.asked traced with ⟨error', last', after', read', revalidates', -, spends'⟩ |
    ⟨value', last', after', later', read', unchanged', revalidates', -, spends', keeps', kept'⟩ |
    ⟨value', last', after', later', read', differs', revalidates', -, spends', holds', kept'⟩ <;>
  rw [read, read'] at agreed
  · obtain rfl : error = error' := Fault.failed.inj agreed.1
    exact ⟨_, _, _, _, _, _, perform_revalidate_of_error revalidates,
      perform_revalidate_of_error revalidates', ⟨beside.last.alike, rfl, beside.last.alike⟩, spends,
      moved (beside.left.spend spends) (beside.right.spend spends') spends spends' beside.last⟩
  · exact agreed.elim
  · exact agreed.elim
  · exact agreed.elim
  · have renewed : later.last.Renewed floor later'.last := keeps ▸ keeps' ▸ beside.last
    exact ⟨_, _, _, _, _, _, perform_revalidate_of_ok revalidates,
      perform_revalidate_of_ok revalidates', ⟨beside.last.alike, trivial, renewed.alike⟩, spends,
      moved kept kept' spends spends' renewed⟩
  · rw [Value.equals_congr agreed.1 beside.last, differs'] at unchanged
    cases unchanged
  · exact agreed.elim
  · rw [Value.equals_congr agreed.1 beside.last, unchanged'] at differs
    cases differs
  · have renewed : later.last.Renewed floor later'.last := holds.trans (agreed.1.trans holds'.symm)
    exact ⟨_, _, _, _, _, _, perform_revalidate_of_ok revalidates,
      perform_revalidate_of_ok revalidates', ⟨beside.last.alike, renewed.alike, renewed.alike⟩, spends,
      moved kept kept' spends spends' renewed⟩

/-- Two caches that go through the same uses, but for questions whether the one is stale. -/
theorem performAll {base : Store} (uses : List Use) (updates : ∀ id value, .update id value ∈ uses →
      id < base.cells.size ∧ value.Given floor)
    (beside : Beside helpers floor reference cache store cache' store')
    (cells : store.cells.size = base.cells.size) :
    ∃ reports last late reports' last' late',
      cache.performAll helpers uses store = .ok (last, reports) late ∧
      cache'.performAll helpers (uses.filter Use.counts) store' = .ok (last', reports') late' ∧
      (∀ report ∈ reports, report.Right helpers reference) ∧
      Report.Chained cache.last reports last.last ∧ List.Forall₂ Report.Alike reports reports' ∧
      Beside helpers floor reference last late last' late' := by
  induction uses generalizing cache cache' store store' with
  | nil => exact ⟨[], cache, store, [], cache', store', rfl, rfl, nofun, rfl, .nil, beside⟩
  | cons use uses ih =>
    have later : ∀ id value, .update id value ∈ uses → id < base.cells.size ∧ value.Given floor :=
      fun id value member => updates id value (List.mem_cons_of_mem _ member)
    cases use with
    | update id value =>
      obtain ⟨bound, given⟩ := updates id value List.mem_cons_self
      obtain ⟨between, between', done, done', size, beside⟩ := beside.update (cells ▸ bound) given
      obtain ⟨reports, last, late, reports', last', late', rest, rest', right, chained, alike, beside⟩ :=
        ih later beside (size.trans cells)
      exact ⟨reports, last, late, reports', last', late',
        (bind_of_ok done).trans ((bind_of_ok rest).trans rfl),
        (bind_of_ok done').trans ((bind_of_ok rest').trans rfl), right, chained, alike, beside⟩
    | isStale =>
      obtain ⟨next, between, done, keeps, spends, beside⟩ := beside.isStale traced
      obtain ⟨reports, last, late, reports', last', late', rest, rest', right, chained, alike, beside⟩ :=
        ih later beside (by rw [spends.only]; exact cells)
      exact ⟨reports, last, late, reports', last', late',
        (bind_of_ok done).trans ((bind_of_ok rest).trans rfl), rest', right, keeps ▸ chained, alike,
        beside⟩
    | revalidate =>
      obtain ⟨next, report, between, again, first, before, after⟩ := beside.left.revalidates traced
      obtain ⟨_, _, _, next', report', between', done, done', same, spends, beside⟩ :=
        beside.revalidate traced
      rw [again] at done
      cases done
      obtain ⟨reports, last, late, reports', last', late', rest, rest', right, chained, alike, beside⟩ :=
        ih later beside (by rw [spends.only]; exact cells)
      exact ⟨report :: reports, last, late, report' :: reports', last', late',
        (bind_of_ok again).trans ((bind_of_ok rest).trans rfl),
        (bind_of_ok done').trans ((bind_of_ok rest').trans rfl),
        List.forall_mem_cons.mpr ⟨first, right⟩, ⟨before, after ▸ chained⟩, .cons same alike, beside⟩

end Beside

/-- A new cache. -/
theorem Faithful.ofReference (traced : reference.Traced helpers floor) (grounded : reference.Over store)
    (timely : store.Timely) (settled : store.Settled floor)
    (begun : Cache.ofReference helpers reference store = .ok cache after) :
    cache.Faithful helpers floor reference after ∧ store.Spends after := by
  obtain ⟨tag, between, told, spends⟩ := traced.tells settled grounded
  obtain ⟨_, _, told', noting⟩ := bind_ok.mp begun
  cases told.symm.trans told'
  obtain ⟨_, _, noted, reads⟩ := bind_ok.mp noting
  cases noted
  obtain ⟨value, last, read, done⟩ := bind_ok.mp reads
  obtain ⟨rfl, rfl⟩ := pure_ok.mp done
  obtain ⟨moved, -, made⟩ := (traced.makes (spends.settled settled) (spends.grounded grounded) between
    (.refl between)).of_ok read
  refine ⟨.fresh traced settled timely grounded told spends read ?_ (Value.equals_self value made),
    spends.trans moved⟩
  exact made.widen (spends.settled settled).storage (Nat.le_refl _)

/-- What holds of every run, and of the same run without the questions whether the cache is stale. -/
theorem Faithful.performAll (traced : reference.Traced helpers floor)
    (faithful : cache.Faithful helpers floor reference store) (uses : List Use)
    (updates : ∀ id value, .update id value ∈ uses → id < store.cells.size ∧ value.Given floor) :
    ∃ reports last late reports' last' late',
      cache.performAll helpers uses store = .ok (last, reports) late ∧
      cache.performAll helpers (uses.filter Use.counts) store = .ok (last', reports') late' ∧
      (∀ report ∈ reports, report.Right helpers reference) ∧
      Report.Chained cache.last reports last.last ∧
      (∀ earlier failed report later, reports = earlier ++ failed ++ report :: later →
        (∀ refusal ∈ failed, ∃ error, refusal.answer = .error error) →
          Report.Chained cache.last earlier report.before) ∧
      List.Forall₂ Report.Alike reports reports' ∧
      Likeness.contents.Alike last.last last'.last := by
  obtain ⟨reports, last, late, reports', last', late', run, run', right, chained, alike, beside⟩ :=
    Beside.performAll traced uses updates ⟨faithful, faithful, fun _ => rfl, .refl _ _⟩ rfl
  refine ⟨reports, last, late, reports', last', late', run, run', right, chained, ?_, alike,
    beside.last.alike⟩
  rintro earlier failed report later rfl fails
  obtain ⟨held, first, rest⟩ := chained.split
  obtain ⟨before, first, between⟩ := first.split
  have same : before = held :=
    between.failed (fun refusal member => right refusal (by simp [member])) fails
  rw [rest.1, ← same]
  exact first

/-- The cache of a composed reference loses no change and reports none twice. Whatever is done with it
and with the cells, nothing breaks; every revalidation that answers leaves the cache with what the
reference reads then, and reports it exactly if it differs from what was held before; one that fails
leaves what was held to the next that does not; and without the questions whether the cache is stale
all the other answers, and what the cache holds, are the same. -/
theorem reports_changes (composed : reference.Composed store.storage)
    (grounded : reference.Over store) (timely : store.Timely) (settled : store.Settled store.storage)
    (begun : Cache.ofReference helpers reference store = .ok cache after) (uses : List Use)
    (updates : ∀ id value, .update id value ∈ uses →
      id < store.cells.size ∧ value.Given store.storage) :
    ∃ reports last late reports' last' late',
      cache.performAll helpers uses after = .ok (last, reports) late ∧
      cache.performAll helpers (uses.filter Use.counts) after = .ok (last', reports') late' ∧
      (∀ report ∈ reports, report.Right helpers reference) ∧
      Report.Chained cache.last reports last.last ∧
      (∀ earlier failed report later, reports = earlier ++ failed ++ report :: later →
        (∀ refusal ∈ failed, ∃ error, refusal.answer = .error error) →
          Report.Chained cache.last earlier report.before) ∧
      List.Forall₂ Report.Alike reports reports' ∧
      Likeness.contents.Alike last.last last'.last := by
  have traced : reference.Traced helpers store.storage := composed.traced
  obtain ⟨faithful, spends⟩ := Faithful.ofReference traced grounded timely settled begun
  have size : after.cells.size = store.cells.size := by rw [spends.only]
  exact faithful.performAll traced uses fun id value member => size ▸ updates id value member

/-- A card shows the length of a title and whether a box is open, unless there is no length. The title
goes away and comes back longer, and the box stays open although its cell is updated. -/
theorem reports_changes_card :
    let helpers : Helpers := fun _ => none
    let reference : Reference := .guarded
      (.namedArgs [("size", .property (.cell 0) "length"), ("open", .condition (.cell 1) Value.truthy)])
      fun value => if (value.get "size").truthy then none else some (.host "missing")
    let store : Store := { cells := #[⟨.list 0 [.text "a"], 1⟩, ⟨.bool true, 1⟩], storage := 1 }
    let uses : List Use := [.revalidate, .update 0 .null, .isStale, .revalidate,
      .update 0 (.text "title"), .isStale, .revalidate, .update 1 (.int 1), .revalidate]
    ∃ cache after reports last late, Cache.ofReference helpers reference store = .ok cache after ∧
      cache.performAll helpers uses after = .ok (last, reports) late ∧
      (∀ report ∈ reports, report.Right helpers reference) ∧
      reports.map (fun report => report.answer.map Option.isSome) =
        [.ok false, .error (.host "missing"), .ok true, .ok false] := by
  intro helpers reference store uses
  have composed : reference.Composed store.storage := by
    refine ⟨⟨trivial, ⟨trivial, fun value other alike => alike.truthy⟩, trivial⟩,
      fun value other alike => ?_⟩
    have same := (alike.get "size").truthy
    simp only [same]
  have grounded : reference.Over store := by
    constructor <;> simp [reference, store, Reference.sources, Reference.namedSources]
  have settled : store.Settled store.storage := by
    refine ⟨fun id value found => ?_, Nat.le_refl _⟩
    match id with
    | 0 =>
      obtain rfl : Value.list 0 [.text "a"] = value := Option.some.inj found
      exact ⟨Nat.zero_lt_one, trivial, trivial⟩
    | 1 =>
      obtain rfl : Value.bool true = value := Option.some.inj found
      trivial
    | _ + 2 => cases found
  have timely : store.Timely := by
    intro id
    match id with
    | 0 | 1 => exact Nat.le_refl 1
    | _ + 2 => exact Nat.zero_le 1
  have updates : ∀ id value, .update id value ∈ uses →
      id < store.cells.size ∧ value.Given store.storage := by
    intro id value member
    have listed : id = 0 ∧ value = .null ∨ id = 0 ∧ value = .text "title" ∨ id = 1 ∧ value = .int 1 := by
      simpa [uses] using member
    rcases listed with ⟨rfl, rfl⟩ | ⟨rfl, rfl⟩ | ⟨rfl, rfl⟩ <;> exact ⟨by decide, trivial⟩
  obtain ⟨cache, after, reports, last, late, begun, run, answers⟩ : ∃ cache after reports last late,
      Cache.ofReference helpers reference store = .ok cache after ∧
      cache.performAll helpers uses after = .ok (last, reports) late ∧
      reports.map (fun report => report.answer.map Option.isSome) =
        [.ok false, .error (.host "missing"), .ok true, .ok false] := ⟨_, _, _, _, _, rfl, rfl, rfl⟩
  obtain ⟨reports', last', late', -, -, -, again, -, right, -⟩ :=
    reports_changes composed grounded timely settled begun uses updates
  cases run.symm.trans again
  exact ⟨cache, after, reports, last, late, begun, run, right, answers⟩

end Cache

end LiveTemplate
