import LiveTemplate.Proofs.Reactive.Caching
import LiveTemplate.Proofs.Reactive.Reliable

/-!
The cache of a dynamic variable. The tag of the variable is made anew from what the name reads, so the
revision of one set of cells is held against another set. That is sound as long as no part is volatile:
a name that selects another variable has changed later than anything that was noted before. But the
revision of a volatile tag is later than every count of the clock, and a cache that has noted it takes
every other tag for valid.
-/

namespace LiveTemplate

open Effects

namespace Reference

variable {helpers : Helpers} {floor : Storage} {ambient : List (String × Reference)}
  {name meant : Reference} {key : String} {store after : Store} {tag : Tag}

theorem composed_of_get? (composed : NamedComposed floor ambient)
    (found : Entries.get? key ambient = some meant) : meant.Composed floor := by
  induction ambient with
  | nil => cases found
  | cons entry rest ih =>
    unfold Entries.get? at found
    split at found
    · cases found
      exact composed.1
    · exact ih composed.2 found

theorem sources_of_get? (found : Entries.get? key ambient = some meant) {source : Origin}
    (member : source ∈ meant.sources) : source ∈ (dynamicVar ambient name).sources := by
  rw [sources, namedSources_eq]
  exact List.mem_append_right _ (mem_allSources.mpr
    ⟨meant, List.mem_map_of_mem (Entries.mem_of_get? found), member⟩)

/-- Reading a dynamic variable reads the variable that the name reads at the moment. -/
theorem dynamicVar_read : (dynamicVar ambient name).read helpers = (name.read helpers >>= fun value =>
    match Entries.get? value.content ambient with
    | some meant => meant.read helpers
    | none => pure .undefined) := by
  rw [Reference.read]
  refine congrArg _ (funext fun value => ?_)
  dsimp only
  rw [(get?_named value.content ambient).1]
  cases Entries.get? value.content ambient <;> rfl

section Composed

variable (named : name.Composed floor) (composed : NamedComposed floor ambient)
include named composed

/-- What the tag of a dynamic variable tells of: the name, and the variable it selects if it reads. -/
theorem dynamicVar_told (told : (dynamicVar ambient name).tag helpers store = .ok tag after) :
    (∃ error between, name.read helpers store = .error (.failed error) between ∧
      ∀ changed, tag.revision changed = name.revision changed) ∨
    ∃ value between, name.read helpers store = .ok value between ∧
      match Entries.get? value.content ambient with
      | none => ∀ changed, tag.revision changed = name.revision changed
      | some meant => ∀ changed,
          tag.revision changed = (name.revision changed).max (meant.revision changed) := by
  obtain ⟨nameTag, known, revision⟩ := @tag_tracked helpers name .contents
    (tracked_of_composed name named)
  rcases dynamicVar_tag_ok.mp told with ⟨error, between, failed, told⟩ | ⟨value, between, read, told⟩
  · rw [known] at told
    obtain ⟨rfl, -⟩ := pure_ok.mp told
    exact .inl ⟨error, between, failed, revision⟩
  · refine .inr ⟨value, between, read, ?_⟩
    rw [(get?_named value.content ambient).2] at told
    cases found : Entries.get? value.content ambient with
    | none =>
      rw [found, known] at told
      obtain ⟨rfl, -⟩ := pure_ok.mp told
      exact revision
    | some meant =>
      obtain ⟨meantTag, known', revision'⟩ := @tag_tracked helpers meant .contents
        (tracked_of_composed meant (composed_of_get? composed found))
      rw [found, Option.map_some, known, known'] at told
      obtain ⟨_, _, _, first, second, rfl⟩ := told
      obtain ⟨rfl, -⟩ := pure_ok.mp first
      obtain ⟨rfl, -⟩ := pure_ok.mp second
      intro changed
      rw [Tag.revision_combine, Tag.latest, Tag.latest, Tag.latest, Revision.max_constant, revision,
        revision']

theorem dynamicVar_tag_succeeds (settled : store.Settled floor)
    (grounded : (dynamicVar ambient name).Over store) :
    ∃ tag after, (dynamicVar ambient name).tag helpers store = .ok tag after ∧ store.Spends after := by
  have nameOver : name.Over store := Origin.Exist.left grounded
  obtain ⟨nameTag, known, -⟩ := @tag_tracked helpers name .contents (tracked_of_composed name named)
  have makes := @read_makes helpers floor store name named settled nameOver.1 store (.refl store)
  cases ended : name.read helpers store with
  | error fault between =>
    obtain ⟨⟨error, rfl⟩, spends⟩ := makes.of_error ended
    refine ⟨nameTag, between, dynamicVar_tag_ok.mpr (.inl ⟨error, between, ended, ?_⟩), spends⟩
    rw [known]
    rfl
  | ok value between =>
    have spends := (makes.of_ok ended).1
    cases found : Entries.get? value.content ambient with
    | none =>
      refine ⟨nameTag, between, dynamicVar_tag_ok.mpr (.inr ⟨value, between, ended, ?_⟩), spends⟩
      rw [(get?_named value.content ambient).2, found, known]
      rfl
    | some meant =>
      obtain ⟨meantTag, known', -⟩ := @tag_tracked helpers meant .contents
        (tracked_of_composed meant (composed_of_get? composed found))
      refine ⟨.combine [nameTag, meantTag], between,
        dynamicVar_tag_ok.mpr (.inr ⟨value, between, ended, ?_⟩), spends⟩
      rw [(get?_named value.content ambient).2, found, known, Option.map_some, known']
      exact ⟨nameTag, meantTag, between, rfl, rfl, rfl⟩

theorem name_le_told (told : (dynamicVar ambient name).tag helpers store = .ok tag after)
    (changed : CellId → Nat) : (name.revision changed).le (tag.revision changed) = true := by
  rcases dynamicVar_told named composed told with ⟨-, -, -, revision⟩ | ⟨value, -, -, revision⟩
  · rw [revision]
    exact Revision.le_refl _
  · cases found : Entries.get? value.content ambient with
    | none =>
      rw [found] at revision
      rw [revision]
      exact Revision.le_refl _
    | some meant =>
      rw [found] at revision
      rw [revision]
      exact Revision.le_max_left _ _

theorem meant_le_told {value : Value} {between : Store}
    (told : (dynamicVar ambient name).tag helpers store = .ok tag after)
    (read : name.read helpers store = .ok value between)
    (found : Entries.get? value.content ambient = some meant) (changed : CellId → Nat) :
    (meant.revision changed).le (tag.revision changed) = true := by
  rcases dynamicVar_told named composed told with ⟨_, _, failed, -⟩ | ⟨_, _, again, revision⟩
  · cases failed.symm.trans read
  · cases again.symm.trans read
    rw [found] at revision
    rw [revision]
    exact Revision.le_max_right _ _

theorem told_le {changed : CellId → Nat} {bound : Revision}
    (told : (dynamicVar ambient name).tag helpers store = .ok tag after)
    (nameBelow : (name.revision changed).le bound = true)
    (below : ∀ {key meant}, Entries.get? key ambient = some meant →
      (meant.revision changed).le bound = true) : (tag.revision changed).le bound = true := by
  rcases dynamicVar_told named composed told with ⟨-, -, -, revision⟩ | ⟨value, -, -, revision⟩
  · rwa [revision]
  · cases found : Entries.get? value.content ambient with
    | none =>
      rw [found] at revision
      rwa [revision]
    | some meant =>
      rw [found] at revision
      rw [revision]
      exact Revision.max_le_iff.mpr ⟨nameBelow, below found⟩

/-- While the tag of a dynamic variable validates what was noted, the name selects the variable that it
selected then, and that one reads the same. -/
theorem dynamicVar_witnesses (free : (dynamicVar ambient name).VolatileFree) {early late first last : Store}
    {dirtied : List CellId} {noted : Tag} {value : Value} (settled : early.Settled floor)
    (timely : early.Timely) (grounded : (dynamicVar ambient name).Over early)
    (run : Store.Run early dirtied late) (settled' : late.Settled floor)
    (told : (dynamicVar ambient name).tag helpers early = .ok noted first)
    (told' : (dynamicVar ambient name).tag helpers late = .ok tag last)
    (valid : late.validates tag (early.revisionOf noted) = true)
    (read : (dynamicVar ambient name).read helpers early = .ok value after) :
    ∃ again later, (dynamicVar ambient name).read helpers late = .ok again later ∧
      again.Renewed floor value := by
  have nameFree : name.VolatileFree := fun member => free (List.mem_append_left _ member)
  have nameOver : name.Over early := Origin.Exist.left grounded
  have meantFree : ∀ {key meant}, Entries.get? key ambient = some meant → meant.VolatileFree :=
    fun found member => free (sources_of_get? found member)
  -- nothing that was noted is later than the clock was, so nothing that is told now is
  have noted : (noted.revision early.changed).le (.tick early.clock) = true :=
    told_le named composed told (revision_le_clock timely nameFree) fun found =>
      revision_le_clock timely (meantFree found)
  have kept := Revision.le_trans (Tag.validates_iff.mp valid).2 noted
  have level : ∀ {part : Reference}, part.Over early → part.VolatileFree →
      (part.revision late.changed).le (tag.revision late.changed) = true →
      early.Level floor (fun id => .cell id ∈ part.sources) late := by
    intro part partOver partFree below
    have clean := clean_of_le_clock partOver partFree run (Revision.le_trans below kept)
    exact run.level (fun id member => ⟨partOver.1 id member, clean id member⟩) settled.storage
      settled'.storage
  rw [dynamicVar_read] at read ⊢
  obtain ⟨selector, between, selects, rest⟩ := bind_ok.mp read
  obtain ⟨selector', between', selects', renewed⟩ := reads_level named
    (level nameOver nameFree (name_le_told named composed told' _)) selects
  rw [bind_of_ok selects', renewed.alike.content]
  cases found : Entries.get? selector.content ambient with
  | none =>
    rw [found] at rest
    obtain ⟨rfl, -⟩ := pure_ok.mp rest
    exact ⟨.undefined, between', rfl, rfl⟩
  | some meant =>
    rw [found] at rest
    have below := meant_le_told named composed told' selects' (renewed.alike.content ▸ found) late.changed
    have meantOver : meant.Over early := ⟨fun id member => grounded.1 id (sources_of_get? found member),
      fun id member => grounded.2 id (sources_of_get? found member)⟩
    have lateOver : name.Over late := nameOver.within ⟨run.follows.cells, run.follows.lists⟩
    have spends := ((@read_makes helpers floor early name named settled nameOver.1 early
      (.refl early)).of_ok selects).1
    have spends' := ((@read_makes helpers floor late name named settled' lateOver.1 late
      (.refl late)).of_ok selects').1
    exact reads_level (composed_of_get? composed found) ((spends.level settled.storage _).symm.trans
      ((level meantOver (meantFree found) below).trans (spends'.level settled'.storage _))) rest

theorem dynamicVar_traced (free : (dynamicVar ambient name).VolatileFree) :
    (dynamicVar ambient name).Traced helpers floor where
  renews := by
    rw [dynamicVar_read]
    refine .bind (read_renews name named fun _ _ => trivial) fun value value' renewed => ?_
    rw [renewed.alike.content]
    cases found : Entries.get? value'.content ambient with
    | none => exact .pure rfl
    | some meant => exact read_renews meant (composed_of_get? composed found) fun _ _ => trivial
  makes := by
    intro start settled grounded
    rw [dynamicVar_read]
    have nameOver : name.Over start := Origin.Exist.left grounded
    refine fun before spends => .bind (read_makes name named settled nameOver.1 before spends)
      fun value between held _ _ => ?_
    cases found : Entries.get? value.content ambient with
    | none => exact .pure held (by simp [Value.Made])
    | some meant =>
      exact read_makes meant (composed_of_get? composed found) settled
        (fun id member => grounded.1 id (sources_of_get? found member)) between held
  tells := dynamicVar_tag_succeeds named composed
  witnesses := fun settled timely grounded run settled' told told' valid read =>
    dynamicVar_witnesses named composed free settled timely grounded run settled' told told' valid read

end Composed

end Reference

namespace Cache

variable {helpers : Helpers} {ambient : List (String × Reference)} {name : Reference} {cache : Cache}
  {store between after : Store} {tag : Tag}

/-- A dynamic variable without volatile parts is followed through every change of its name. Whatever
happens to the cells of the name and of the variables, every revalidation that answers leaves the cache
with what the variable reads that the name selects then, `undefined` if there is none. -/
theorem follows_variable (named : name.Composed store.storage)
    (composed : Reference.NamedComposed store.storage ambient)
    (free : (Reference.dynamicVar ambient name).VolatileFree)
    (grounded : (Reference.dynamicVar ambient name).Over store) (timely : store.Timely)
    (settled : store.Settled store.storage)
    (begun : Cache.ofReference helpers (.dynamicVar ambient name) store = .ok cache after)
    (uses : List Use) (updates : ∀ id value, .update id value ∈ uses →
      id < store.cells.size ∧ value.Given store.storage) :
    ∃ reports last late, cache.performAll helpers uses after = .ok (last, reports) late ∧
      (∀ report ∈ reports, report.Right helpers (.dynamicVar ambient name)) ∧
      Report.Chained cache.last reports last.last := by
  have traced := @Reference.dynamicVar_traced helpers _ _ _ named composed free
  obtain ⟨faithful, spends⟩ := Faithful.ofReference traced grounded timely settled begun
  have size : after.cells.size = store.cells.size := by rw [spends.only]
  obtain ⟨reports, last, late, -, -, -, run, -, right, chained, -⟩ :=
    faithful.performAll traced uses fun id value member => size ▸ updates id value member
  exact ⟨reports, last, late, run, right, chained⟩

/-- Every tag but a volatile one validates the revision that was noted of a volatile one. From then on
nothing is read and no change is reported. -/
theorem revalidate_of_volatile (noted : cache.revision = .volatile)
    (told : cache.reference.tag helpers store = .ok tag between) (steady : tag.Steady) :
    cache.revalidate helpers store = .ok (cache, none) between := by
  refine revalidate_of_valid told (Tag.validates_iff.mpr ⟨tag.steady_iff.mp steady, ?_⟩)
  rw [noted]
  exact Revision.le_volatile _

/-- A name that cannot be read while the tag is made leaves the tag without the variable. The cache is
told that nothing has changed as long as the name has not, whatever became of the variable. -/
theorem revalidate_of_unread_name {error : RenderError}
    (same : cache.reference = .dynamicVar ambient name)
    (failed : name.read helpers store = .error (.failed error) between)
    (told : name.tag helpers between = .ok tag after)
    (valid : after.validates tag cache.revision = true) :
    cache.revalidate helpers store = .ok (cache, none) after := by
  have told' : cache.reference.tag helpers store = .ok tag after := by
    rw [same]
    exact Reference.dynamicVar_tag_ok.mpr (.inl ⟨error, between, failed, told⟩)
  exact revalidate_of_valid told' valid

/-- A clock that may show another time without notice, and a time that was written down. The name goes
from the one to the other, and then the time that was written down changes twice; but the cache still
holds what the clock showed. -/
theorem revalidate_of_volatile_clock :
    let helpers : Helpers := fun _ => none
    let reference : Reference := .dynamicVar [("clock", .volatile (.cell 1)), ("written", .cell 2)] (.cell 0)
    let store : Store := { cells := #[⟨.text "clock", 1⟩, ⟨.int 1, 1⟩, ⟨.int 2, 1⟩] }
    let uses : List Use := [.update 0 (.text "written"), .revalidate, .update 2 (.int 3), .revalidate,
      .update 2 (.int 4), .revalidate]
    ∃ cache after reports last late, Cache.ofReference helpers reference store = .ok cache after ∧
      cache.performAll helpers uses after = .ok (last, reports) late ∧
      reports.map Report.answer = [.ok none, .ok none, .ok none] ∧ last.last = .int 1 ∧
      reference.read helpers late = .ok (.int 4) late :=
  ⟨_, _, _, _, _, rfl, rfl, rfl, rfl, rfl⟩

end Cache

end LiveTemplate
