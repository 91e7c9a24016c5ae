import LiveTemplate.Proofs.Reactive.Invalidation
import LiveTemplate.Proofs.Reactive.Watching

/-!
References that obey their tags. Most tags are made of the tags of parts and need no look at a
value. The tag of a dynamic variable has to read the name first, and stays what it was because the
name obeys its own tag.
-/

namespace LiveTemplate

open Effects

namespace Reference

/-- A reference obeys its tag: reading it leaves the cells alone, and gives the same as long as the
cells behind the tag hold the same. -/
structure Obeys (helpers : Helpers) (reference : Reference) : Prop where
  quiet : ∀ {store}, reference.Over store →
    store.leaving.Goes store (reference.read helpers) fun _ _ => True
  steady : ∀ {store other tag after}, reference.Over store → reference.Over other →
    reference.tag helpers store = .ok tag after → tag.Steady →
    (∀ id ∈ tag.cells, store.cells[id]? = other.cells[id]?) →
    Likeness.contents.Outcome (reference.read helpers store) (reference.read helpers other)

mutual

/-- The references that name a dynamic variable somewhere below. -/
def names : Reference → List Reference
  | const _ | cell _ => []
  | property parent _ => parent.names
  | concat parts => allNames parts
  | namedArgs named => namedNames named
  | condition inner _ => inner.names
  | presence _ source _ => source.names
  | helper _ positional named => allNames positional ++ namedNames named
  | dynamicVar ambient name => name :: name.names ++ namedNames ambient
  | guarded inner _ => inner.names
  | volatile inner => inner.names

def allNames : List Reference → List Reference
  | [] => []
  | reference :: references => reference.names ++ allNames references

def namedNames : List (String × Reference) → List Reference
  | [] => []
  | (_, reference) :: rest => reference.names ++ namedNames rest

end

theorem Over.within {reference : Reference} {base store : Store} (rests : reference.Over base)
    (within : base.Within store) : reference.Over store :=
  ⟨fun id member => Nat.lt_of_lt_of_le (rests.1 id member) within.cells,
    fun id member => Nat.lt_of_lt_of_le (rests.2 id member) within.lists⟩

/-- All sources exist. -/
def Origin.Exist (sources : List Origin) (store : Store) : Prop :=
  (∀ id, .cell id ∈ sources → id < store.cells.size) ∧
    ∀ id, .list id ∈ sources → id < store.lists.size

theorem Origin.Exist.left {lefts rights : List Origin} {store : Store}
    (exist : Exist (lefts ++ rights) store) : Exist lefts store :=
  ⟨fun id member => exist.1 id (List.mem_append_left _ member),
    fun id member => exist.2 id (List.mem_append_left _ member)⟩

theorem Origin.Exist.right {lefts rights : List Origin} {store : Store}
    (exist : Exist (lefts ++ rights) store) : Exist rights store :=
  ⟨fun id member => exist.1 id (List.mem_append_right _ member),
    fun id member => exist.2 id (List.mem_append_right _ member)⟩

theorem Origin.Exist.append {lefts rights : List Origin} {store : Store} (first : Exist lefts store)
    (second : Exist rights store) : Exist (lefts ++ rights) store :=
  ⟨fun id member => (List.mem_append.mp member).elim (first.1 id) (second.1 id),
    fun id member => (List.mem_append.mp member).elim (first.2 id) (second.2 id)⟩

theorem over_all {references : List Reference} {store : Store}
    (rests : ∀ reference ∈ references, reference.Over store) :
    Origin.Exist (allSources references) store := by
  induction references with
  | nil => exact ⟨nofun, nofun⟩
  | cons reference rest ih =>
    obtain ⟨first, others⟩ := List.forall_mem_cons.mp rests
    exact Origin.Exist.append first (ih others)

theorem over_named {named : List (String × Reference)} {store : Store}
    (rests : ∀ entry ∈ named, entry.2.Over store) : Origin.Exist (namedSources named) store := by
  induction named with
  | nil => exact ⟨nofun, nofun⟩
  | cons entry rest ih =>
    obtain ⟨first, others⟩ := List.forall_mem_cons.mp rests
    exact Origin.Exist.append first (ih others)

section Tells

variable {helpers : Helpers} {base : Store}

/-- The tag of a dynamic variable is that of its name, and of the variable if there is one. -/
theorem dynamicVar_tag_ok {ambient : List (String × Reference)} {name : Reference}
    {store after : Store} {tag : Tag} :
    (dynamicVar ambient name).tag helpers store = .ok tag after ↔
      (∃ error between, name.read helpers store = .error (.failed error) between ∧
        name.tag helpers between = .ok tag after) ∨
      ∃ value between, name.read helpers store = .ok value between ∧
        match Entries.get? value.content (namedTags helpers ambient) with
        | none => name.tag helpers between = .ok tag after
        | some telling => ∃ first second last, name.tag helpers between = .ok first last ∧
            telling last = .ok second after ∧ tag = Tag.combine [first, second] := by
  rw [Reference.tag]
  cases ended : name.read helpers store with
  | error fault between =>
    cases fault with
    | failed error =>
      have tried : (name.read helpers).attempt store = .ok (.error error) between := by
        unfold Reading.attempt
        rw [ended]
      rw [bind_of_ok tried]
      simp
    | broken defect =>
      have tried : (name.read helpers).attempt store = .error (.broken defect) between := by
        unfold Reading.attempt
        rw [ended]
      rw [bind_of_error tried]
      simp
  | ok value between =>
    have tried : (name.read helpers).attempt store = .ok (.ok value) between := by
      unfold Reading.attempt
      rw [ended]
    rw [bind_of_ok tried]
    cases found : Entries.get? value.content (namedTags helpers ambient) with
    | none => simp [found]
    | some telling =>
      simp only [found, reduceCtorEq, false_and, exists_false, false_or, EStateM.Result.ok.injEq]
      constructor
      · intro told
        obtain ⟨first, last, one, rest⟩ := bind_ok.mp told
        obtain ⟨second, _, two, done⟩ := bind_ok.mp rest
        obtain ⟨rfl, rfl⟩ := pure_ok.mp done
        exact ⟨value, between, ⟨rfl, rfl⟩, by rw [found]; exact ⟨first, second, last, one, two, rfl⟩⟩
      · rintro ⟨_, _, ⟨rfl, rfl⟩, told⟩
        rw [found] at told
        obtain ⟨first, second, last, one, two, rfl⟩ := told
        exact (bind_of_ok one).trans (bind_of_ok two)

/-- A tag worked out after a step that leaves the cells alone, as it is worked out after another
such step. -/
theorem tag_carries {telling : Reading Tag} (tells : telling.Tells base)
    {store other between between' after : Store} {tag : Tag} (within : base.Within store)
    (within' : base.Within other) (leaves : store.Leaves between) (leaves' : other.Leaves between')
    (told : telling between = .ok tag after) (steady : tag.Steady)
    (same : ∀ id ∈ tag.cells, store.cells[id]? = other.cells[id]?) :
    ∃ last, telling between' = .ok tag last := by
  have further := within.trans leaves.toWithin
  refine tells.steady further (within'.trans leaves'.toWithin) told steady fun id member => ?_
  have grounded := tells.grounded further told id member
  rw [leaves.old id (Nat.lt_of_lt_of_le grounded within.cells),
    leaves'.old id (Nat.lt_of_lt_of_le grounded within'.cells)]
  exact same id member

theorem dynamicVar_again {ambient : List (String × Reference)} {name : Reference}
    (rests : name.Over base) (obeys : name.Obeys helpers) (nameTells : (name.tag helpers).Tells base)
    (known : ∀ {key : String} {telling : Reading Tag},
      Entries.get? key (namedTags helpers ambient) = some telling → telling.Tells base)
    {store other after : Store} {tag : Tag} (within : base.Within store)
    (within' : base.Within other)
    (told : (dynamicVar ambient name).tag helpers store = .ok tag after) (steady : tag.Steady)
    (same : ∀ id ∈ tag.cells, store.cells[id]? = other.cells[id]?) :
    ∃ last, (dynamicVar ambient name).tag helpers other = .ok tag last := by
  have quiet := obeys.quiet (rests.within within)
  have quiet' := obeys.quiet (rests.within within')
  -- the name reads alike, since the cells behind it are among those that hold the same
  have alike : ∀ {between last : Store} {first : Tag}, store.Leaves between →
      name.tag helpers between = .ok first last → first.Steady →
      (∀ id ∈ first.cells, id ∈ tag.cells) →
      Likeness.contents.Outcome (name.read helpers store) (name.read helpers other) := by
    intro between last first leaves named steady inside
    have here : ∀ id ∈ first.cells, store.cells[id]? = other.cells[id]? :=
      fun id member => same id (inside id member)
    obtain ⟨_, before⟩ := tag_carries nameTells within within leaves (.refl store) named steady
      fun _ _ => rfl
    exact obeys.steady (rests.within within) (rests.within within') before steady here
  rw [dynamicVar_tag_ok] at told
  rcases told with ⟨error, between, failed, named⟩ | ⟨value, between, read, told⟩
  · have leaves := quiet.of_error failed
    have outcome := alike leaves named steady fun _ member => member
    rw [failed] at outcome
    cases ended : name.read helpers other with
    | ok value' between' => simp [ended, Likeness.Outcome] at outcome
    | error fault between' =>
      obtain rfl : Fault.failed error = fault := by simpa [ended, Likeness.Outcome] using outcome
      obtain ⟨last, again⟩ := tag_carries nameTells within within' leaves
        (quiet'.of_error ended) named steady same
      exact ⟨last, dynamicVar_tag_ok.mpr (.inl ⟨error, between', ended, again⟩)⟩
  · have leaves := (quiet.of_ok read).1
    have follow : ∀ {between last : Store} {first : Tag}, store.Leaves between →
        name.tag helpers between = .ok first last → first.Steady →
        (∀ id ∈ first.cells, id ∈ tag.cells) →
        ∃ value' between', name.read helpers other = .ok value' between' ∧
          other.Leaves between' ∧ value.content = value'.content := by
      intro between last first leaves named steady inside
      have outcome := alike leaves named steady inside
      rw [read] at outcome
      cases ended : name.read helpers other with
      | ok value' between' =>
        rw [ended] at outcome
        have close : Likeness.contents.Alike value value' := outcome
        exact ⟨value', between', rfl, (quiet'.of_ok ended).1, close.content⟩
      | error fault between' => simp [ended, Likeness.Outcome] at outcome
    cases found : Entries.get? value.content (namedTags helpers ambient) with
    | none =>
      rw [found] at told
      obtain ⟨value', between', read', leaves', content⟩ :=
        follow leaves told steady fun _ member => member
      obtain ⟨last, again⟩ := tag_carries nameTells within within' leaves leaves' told steady same
      refine ⟨last, dynamicVar_tag_ok.mpr (.inr ⟨value', between', read', ?_⟩)⟩
      rw [← content, found]
      exact again
    | some telling =>
      rw [found] at told
      obtain ⟨first, second, middle, named, variableTold, rfl⟩ := told
      have each := Tag.steady_combine.mp steady
      have moving : ∀ tag ∈ [first, second], tag ≠ .volatile := by
        rintro _ member rfl
        exact each _ member
      obtain ⟨value', between', read', leaves', content⟩ :=
        follow leaves named (each _ (by simp)) fun id member => by
          rw [Tag.cells_combine moving]
          exact Tag.mem_allCells.mpr ⟨first, by simp, member⟩
      obtain ⟨last, again⟩ := tag_carries (nameTells.both (known found)) within within' leaves leaves'
        ((bind_of_ok named).trans (bind_of_ok variableTold)) steady same
      obtain ⟨first', middle', one, rest⟩ := bind_ok.mp again
      obtain ⟨second', reached, two, done⟩ := bind_ok.mp rest
      obtain ⟨combined, rfl⟩ := pure_ok.mp done
      refine ⟨reached, dynamicVar_tag_ok.mpr (.inr ⟨value', between', read', ?_⟩)⟩
      rw [← content, found]
      exact ⟨first', second', middle', one, two, combined.symm⟩

/-- The tag of a dynamic variable tells, if its name obeys. -/
theorem dynamicVar_tells {ambient : List (String × Reference)} {name : Reference}
    (rests : name.Over base) (obeys : name.Obeys helpers) (nameTells : (name.tag helpers).Tells base)
    (tell : ∀ entry ∈ namedTags helpers ambient, Reading.Tells base entry.2) :
    ((dynamicVar ambient name).tag helpers).Tells base := by
  have known : ∀ {key : String} {telling : Reading Tag},
      Entries.get? key (namedTags helpers ambient) = some telling → telling.Tells base :=
    fun found => tell _ (Entries.mem_of_get? found)
  constructor
  · intro store within
    rw [Reference.tag]
    refine .bind (Store.leaving_attempt (obeys.quiet (rests.within within)))
      fun outcome between leaves _ _ => ?_
    have within' := within.trans leaves.toWithin
    have named := (nameTells.quiet within').since leaves
    split
    · exact named
    · split
      · exact named
      · rename_i telling found
        exact ((nameTells.both (known found)).quiet within').since leaves
  · intro store other tag after within within' told steady same
    exact dynamicVar_again rests obeys nameTells known within within' told steady same

mutual

/-- Every tag tells whose names obey. -/
theorem tag_tells : ∀ reference : Reference, reference.Over base →
    (∀ name ∈ reference.names, name.Obeys helpers) → (reference.tag helpers).Tells base
  | const _, _, _ => .pure (by simp [Tag.cells])
  | cell id, rests, _ => .pure fun other member => by
    obtain rfl : other = id := by simpa [Tag.cells] using member
    exact rests.1 other List.mem_cons_self
  | property parent _, rests, obey => tag_tells parent rests obey
  | concat parts, rests, obey => .combineM (tags_tell parts rests obey)
  | namedArgs named, rests, obey => .combineM fun telling member => by
    obtain ⟨entry, among, rfl⟩ := List.mem_map.mp member
    exact namedTags_tell named rests obey entry among
  | condition inner _, rests, obey => tag_tells inner rests obey
  | presence list source _, rests, obey =>
    have exist : Origin.Exist ([.list list] ++ source.sources) base := rests
    tag_tells source exist.right obey
  | helper _ positional named, rests, obey => .combineM fun telling member => by
    rcases List.mem_append.mp member with member | member
    · exact tags_tell positional (Origin.Exist.left rests)
        (fun name member => obey name (List.mem_append_left _ member)) telling member
    · obtain ⟨entry, among, rfl⟩ := List.mem_map.mp member
      exact namedTags_tell named (Origin.Exist.right rests)
        (fun name member => obey name (List.mem_append_right _ member)) entry among
  | dynamicVar ambient name, rests, obey =>
    have nameOver : name.Over base := Origin.Exist.left rests
    have below : ∀ other ∈ name.names ++ namedNames ambient, other.Obeys helpers :=
      fun other member => obey other (List.mem_cons_of_mem _ member)
    dynamicVar_tells nameOver (obey name List.mem_cons_self)
      (tag_tells name nameOver fun other member => below other (List.mem_append_left _ member))
      (namedTags_tell ambient (Origin.Exist.right rests) fun other member =>
        below other (List.mem_append_right _ member))
  | guarded inner _, rests, obey => tag_tells inner rests obey
  | volatile _, _, _ => .pure (by simp [Tag.cells])

theorem tags_tell : ∀ references : List Reference, Origin.Exist (allSources references) base →
    (∀ name ∈ allNames references, name.Obeys helpers) →
    ∀ telling ∈ tags helpers references, Reading.Tells base telling
  | [], _, _ => by simp [tags]
  | reference :: references, exist, obey => List.forall_mem_cons.mpr
    ⟨tag_tells reference exist.left fun name member => obey name (List.mem_append_left _ member),
      tags_tell references exist.right fun name member =>
        obey name (List.mem_append_right _ member)⟩

theorem namedTags_tell : ∀ named : List (String × Reference),
    Origin.Exist (namedSources named) base → (∀ name ∈ namedNames named, name.Obeys helpers) →
    ∀ entry ∈ namedTags helpers named, Reading.Tells base entry.2
  | [], _, _ => by simp [namedTags]
  | (_, reference) :: rest, exist, obey => List.forall_mem_cons.mpr
    ⟨tag_tells reference exist.left fun name member => obey name (List.mem_append_left _ member),
      namedTags_tell rest exist.right fun name member =>
        obey name (List.mem_append_right _ member)⟩

end

end Tells

end Reference

end LiveTemplate
