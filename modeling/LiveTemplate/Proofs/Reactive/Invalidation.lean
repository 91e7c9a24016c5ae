import LiveTemplate.Proofs.Reactive.Revisions
import LiveTemplate.Proofs.Value.Likeness

/-!
The rule of invalidation. All that reading a reference depends on stands behind its tag, so a tag
that still validates tells that reading gives what it gave before, and a tag that does not tells
that some cell below was dirtied, or that a part is volatile.
-/

namespace LiveTemplate

open Effects

/-- What a reference is built over. -/
inductive Origin where
  | cell (id : CellId)
  | list (id : ListId)
  /-- Something that changes without notice. -/
  | volatile
  deriving Repr, DecidableEq

/-- A helper that has nothing to go by but what its arguments read, and leaves nothing behind but
the storage it gave out: between any two stores that its arguments do not tell apart, it does not
either. Its arguments may be alike in a weaker way than its results. -/
def Helper.Pure (given result : Likeness) (call : Helper) : Prop :=
  ∀ relation : Store → Store → Prop,
    (∀ store other storage storage', relation store other →
      relation { store with storage } { other with storage := storage' }) →
    ∀ arguments : Arguments,
      (∀ reading ∈ arguments.positional, Agree relation given.Alike reading reading) →
      (∀ entry ∈ arguments.named, Agree relation given.Alike entry.2 entry.2) →
      Agree relation result.Alike (call arguments) (call arguments)

namespace Arguments

theorem nth_agrees {relation : Store → Store → Prop} {likeness : Likeness} {arguments : Arguments}
    (places : ∀ reading ∈ arguments.positional, Agree relation likeness.Alike reading reading)
    (position : Nat) :
    Agree relation likeness.Alike (arguments.nth position) (arguments.nth position) := by
  unfold nth
  cases found : arguments.positional[position]? with
  | none => exact .pure (likeness.refl _)
  | some reading => exact places reading (List.mem_of_getElem? found)

end Arguments

namespace Reference

mutual

/-- What a reference is built over, in the order of its parts. -/
def sources : Reference → List Origin
  | const _ => []
  | cell id => [.cell id]
  | property parent _ => parent.sources
  | concat parts => allSources parts
  | namedArgs named => namedSources named
  | condition inner _ => inner.sources
  | presence list source _ => .list list :: source.sources
  | helper _ positional named => allSources positional ++ namedSources named
  | dynamicVar ambient name => name.sources ++ namedSources ambient
  | guarded inner _ => inner.sources
  | volatile inner => .volatile :: inner.sources

def allSources : List Reference → List Origin
  | [] => []
  | reference :: references => reference.sources ++ allSources references

def namedSources : List (String × Reference) → List Origin
  | [] => []
  | (_, reference) :: rest => reference.sources ++ namedSources rest

end

mutual

/-- The latest revision among the parts of a reference. -/
def revision (changed : CellId → Nat) : Reference → Revision
  | const _ => .constant
  | cell id => .tick (changed id)
  | property parent _ => parent.revision changed
  | concat parts => latest changed parts
  | namedArgs named => latestNamed changed named
  | condition inner _ => inner.revision changed
  | presence _ source _ => source.revision changed
  | helper _ positional named => (latest changed positional).max (latestNamed changed named)
  | dynamicVar ambient name => (name.revision changed).max (latestNamed changed ambient)
  | guarded inner _ => inner.revision changed
  | volatile _ => .volatile

def latest (changed : CellId → Nat) : List Reference → Revision
  | [] => .constant
  | reference :: references => (reference.revision changed).max (latest changed references)

def latestNamed (changed : CellId → Nat) : List (String × Reference) → Revision
  | [] => .constant
  | (_, reference) :: rest => (reference.revision changed).max (latestNamed changed rest)

end

mutual

/-- References that the tag tells all about. Their helpers are pure, and what decides over a value,
as a condition or a guard does, decides alike over alike values. The likeness says how closely two
readings of the reference agree: a map of named arguments is a new one each time, everything else
may well be the same value. A dynamic variable is not among these references, since its tag has to
be read anew. -/
def Tracked (helpers : Helpers) (likeness : Likeness) : Reference → Prop
  | const _ | cell _ | volatile _ => True
  | property parent _ => parent.Tracked helpers likeness
  | concat parts => AllTracked helpers .contents parts
  | namedArgs named => likeness = .contents ∧ NamedTracked helpers .contents named
  | condition inner holds => ∃ given : Likeness, inner.Tracked helpers given ∧
      ∀ value other, given.Alike value other → holds value = holds other
  | presence _ source _ => source.Tracked helpers .contents
  | helper name positional named => ∃ given : Likeness,
      (∀ call, helpers name = some call → Helper.Pure given likeness call) ∧
        AllTracked helpers given positional ∧ NamedTracked helpers given named
  | dynamicVar _ _ => False
  | guarded inner refuses => ∃ given : Likeness, inner.Tracked helpers given ∧
      ∀ value other, given.Alike value other → refuses value = refuses other ∧
        (refuses value = none → likeness.Alike value other)

def AllTracked (helpers : Helpers) (likeness : Likeness) : List Reference → Prop
  | [] => True
  | reference :: references =>
    reference.Tracked helpers likeness ∧ AllTracked helpers likeness references

def NamedTracked (helpers : Helpers) (likeness : Likeness) : List (String × Reference) → Prop
  | [] => True
  | (_, reference) :: rest =>
    reference.Tracked helpers likeness ∧ NamedTracked helpers likeness rest

end

/-- The cells and lists below the reference exist. -/
def Over (reference : Reference) (store : Store) : Prop :=
  (∀ id, .cell id ∈ reference.sources → id < store.cells.size) ∧
    ∀ id, .list id ∈ reference.sources → id < store.lists.size

def VolatileFree (reference : Reference) : Prop := .volatile ∉ reference.sources

/-! The tag of a tracked reference -/

section Tag

variable {helpers : Helpers}

mutual

/-- The tag is there without a look at the store, and its revision is the latest of the parts. -/
theorem tag_tracked : ∀ (reference : Reference) (likeness : Likeness),
    reference.Tracked helpers likeness →
      ∃ tag, reference.tag helpers = pure tag ∧
        ∀ changed, tag.revision changed = reference.revision changed
  | const _, _, _ => ⟨.constant, rfl, fun _ => rfl⟩
  | cell id, _, _ => ⟨.cell id, rfl, fun _ => rfl⟩
  | volatile _, _, _ => ⟨.volatile, rfl, fun _ => rfl⟩
  | property parent _, likeness, tracked => tag_tracked parent likeness tracked
  | condition inner _, _, tracked => by
    obtain ⟨given, tracked, -⟩ := tracked
    exact tag_tracked inner given tracked
  | guarded inner _, _, tracked => by
    obtain ⟨given, tracked, -⟩ := tracked
    exact tag_tracked inner given tracked
  | presence _ source _, _, tracked => tag_tracked source .contents tracked
  | concat parts, _, tracked => by
    obtain ⟨members, known, revisions⟩ := tags_tracked parts .contents tracked
    obtain ⟨tag, combined, revision⟩ := Tag.combineM_pure members
    exact ⟨tag, by rw [Reference.tag, known, combined], fun changed => by
      rw [revision, revisions, Reference.revision]⟩
  | namedArgs named, _, tracked => by
    obtain ⟨members, known, revisions⟩ := namedTags_tracked named .contents tracked.2
    obtain ⟨tag, combined, revision⟩ := Tag.combineM_pure members
    exact ⟨tag, by rw [Reference.tag, known, combined], fun changed => by
      rw [revision, revisions, Reference.revision]⟩
  | helper _ positional named, _, tracked => by
    obtain ⟨given, -, places, names⟩ := tracked
    obtain ⟨members, known, revisions⟩ := tags_tracked positional given places
    obtain ⟨members', known', revisions'⟩ := namedTags_tracked named given names
    obtain ⟨tag, combined, revision⟩ := Tag.combineM_pure (members ++ members')
    exact ⟨tag, by rw [Reference.tag, known, known', ← List.map_append, combined],
      fun changed => by
        rw [revision, Tag.latest_append, revisions, revisions', Reference.revision]⟩

theorem tags_tracked : ∀ (references : List Reference) (likeness : Likeness),
    AllTracked helpers likeness references →
      ∃ members : List Tag, tags helpers references = members.map pure ∧
        ∀ changed, Tag.latest changed members = latest changed references
  | [], _, _ => ⟨[], rfl, fun _ => rfl⟩
  | reference :: references, likeness, tracked => by
    obtain ⟨tag, known, revision⟩ := tag_tracked reference likeness tracked.1
    obtain ⟨members, rest, revisions⟩ := tags_tracked references likeness tracked.2
    exact ⟨tag :: members, by rw [tags, known, rest, List.map_cons], fun changed => by
      rw [Tag.latest, revision, revisions, latest]⟩

theorem namedTags_tracked : ∀ (named : List (String × Reference)) (likeness : Likeness),
    NamedTracked helpers likeness named →
      ∃ members : List Tag, (namedTags helpers named).map Prod.snd = members.map pure ∧
        ∀ changed, Tag.latest changed members = latestNamed changed named
  | [], _, _ => ⟨[], rfl, fun _ => rfl⟩
  | (_, reference) :: rest, likeness, tracked => by
    obtain ⟨tag, known, revision⟩ := tag_tracked reference likeness tracked.1
    obtain ⟨members, others, revisions⟩ := namedTags_tracked rest likeness tracked.2
    exact ⟨tag :: members, by rw [namedTags, List.map_cons, known, others, List.map_cons],
      fun changed => by rw [Tag.latest, revision, revisions, latestNamed]⟩

end

end Tag

/-! The revision of a reference and the cells below it -/

section Revision

variable {changed : CellId → Nat}

mutual

theorem revision_volatile : ∀ reference : Reference,
    reference.revision changed = .volatile ↔ .volatile ∈ reference.sources
  | const _ => by simp [revision, sources, Revision.constant]
  | cell _ => by simp [revision, sources]
  | volatile _ => by simp [revision, sources]
  | property parent _ => revision_volatile parent
  | condition inner _ => revision_volatile inner
  | guarded inner _ => revision_volatile inner
  | presence _ source _ => by
    rw [revision, sources, revision_volatile source]
    simp
  | concat parts => latest_volatile parts
  | namedArgs named => latestNamed_volatile named
  | helper _ positional named => by
    rw [revision, sources, Revision.max_eq_volatile_iff, latest_volatile positional,
      latestNamed_volatile named, List.mem_append]
  | dynamicVar ambient name => by
    rw [revision, sources, Revision.max_eq_volatile_iff, revision_volatile name,
      latestNamed_volatile ambient, List.mem_append]

theorem latest_volatile : ∀ references : List Reference,
    latest changed references = .volatile ↔ .volatile ∈ allSources references
  | [] => by simp [latest, allSources, Revision.constant]
  | reference :: references => by
    rw [latest, allSources, Revision.max_eq_volatile_iff, revision_volatile reference,
      latest_volatile references, List.mem_append]

theorem latestNamed_volatile : ∀ named : List (String × Reference),
    latestNamed changed named = .volatile ↔ .volatile ∈ namedSources named
  | [] => by simp [latestNamed, namedSources, Revision.constant]
  | (_, reference) :: rest => by
    rw [latestNamed, namedSources, Revision.max_eq_volatile_iff, revision_volatile reference,
      latestNamed_volatile rest, List.mem_append]

end

/-- No cell among the sources was changed later than `bound`. -/
def Origin.Within (changed : CellId → Nat) (bound : Revision) (sources : List Origin) : Prop :=
  ∀ id, .cell id ∈ sources → (Revision.tick (changed id)).le bound = true

theorem Origin.within_append {bound : Revision} {lefts rights : List Origin} :
    Origin.Within changed bound (lefts ++ rights) ↔
      Origin.Within changed bound lefts ∧ Origin.Within changed bound rights := by
  simp only [Origin.Within, List.mem_append, or_imp, forall_and]

mutual

theorem revision_le : ∀ {bound : Revision} (reference : Reference), reference.VolatileFree →
    ((reference.revision changed).le bound = true ↔
      Origin.Within changed bound reference.sources)
  | _, const _, _ => by simp [revision, sources, Origin.Within, Revision.constant_le]
  | _, cell _, _ => by simp [revision, sources, Origin.Within]
  | _, volatile _, free => absurd List.mem_cons_self free
  | _, property parent _, free => revision_le parent free
  | _, condition inner _, free => revision_le inner free
  | _, guarded inner _, free => revision_le inner free
  | _, presence _ source _, free => by
    rw [revision, sources, revision_le source fun member => free (List.mem_cons_of_mem _ member)]
    simp [Origin.Within]
  | _, concat parts, free => latest_le parts free
  | _, namedArgs named, free => latestNamed_le named free
  | _, helper _ positional named, free => by
    rw [revision, sources, Revision.max_le_iff, Origin.within_append,
      latest_le positional fun member => free (List.mem_append_left _ member),
      latestNamed_le named fun member => free (List.mem_append_right _ member)]
  | _, dynamicVar ambient name, free => by
    rw [revision, sources, Revision.max_le_iff, Origin.within_append,
      revision_le name fun member => free (List.mem_append_left _ member),
      latestNamed_le ambient fun member => free (List.mem_append_right _ member)]

theorem latest_le : ∀ {bound : Revision} (references : List Reference),
    .volatile ∉ allSources references →
    ((latest changed references).le bound = true ↔
      Origin.Within changed bound (allSources references))
  | _, [], _ => by simp [latest, allSources, Origin.Within, Revision.constant_le]
  | _, reference :: references, free => by
    rw [latest, allSources, Revision.max_le_iff, Origin.within_append,
      revision_le reference fun member => free (List.mem_append_left _ member),
      latest_le references fun member => free (List.mem_append_right _ member)]

theorem latestNamed_le : ∀ {bound : Revision} (named : List (String × Reference)),
    .volatile ∉ namedSources named →
    ((latestNamed changed named).le bound = true ↔
      Origin.Within changed bound (namedSources named))
  | _, [], _ => by simp [latestNamed, namedSources, Origin.Within, Revision.constant_le]
  | _, (_, reference) :: rest, free => by
    rw [latestNamed, namedSources, Revision.max_le_iff, Origin.within_append,
      revision_le reference fun member => free (List.mem_append_left _ member),
      latestNamed_le rest fun member => free (List.mem_append_right _ member)]

end

end Revision

/-! Reading a tracked reference from two stores -/

/-- A relation between stores that reading over these sources keeps: the cells hold the same, the
lists are there in both or in neither, and neither storage nor passes that were begun count. -/
structure Spans (relation : Store → Store → Prop) (sources : List Origin) : Prop where
  cells : ∀ id, .cell id ∈ sources → ∀ store other, relation store other →
    store.value? id = other.value? id
  lists : ∀ id, .list id ∈ sources → ∀ store other, relation store other →
    (id < store.lists.size ↔ id < other.lists.size)
  storage : ∀ store other storage storage', relation store other →
    relation { store with storage } { other with storage := storage' }
  passes : ∀ id artifacts artifacts' store other, relation store other →
    relation { store with lists := store.lists.setIfInBounds id artifacts }
      { other with lists := other.lists.setIfInBounds id artifacts' }
  steady : .volatile ∉ sources

namespace Spans

variable {relation : Store → Store → Prop} {lefts rights : List Origin}

theorem left (spans : Spans relation (lefts ++ rights)) : Spans relation lefts :=
  ⟨fun id member => spans.cells id (List.mem_append_left _ member),
    fun id member => spans.lists id (List.mem_append_left _ member), spans.storage, spans.passes,
    fun member => spans.steady (List.mem_append_left _ member)⟩

theorem right (spans : Spans relation (lefts ++ rights)) : Spans relation rights :=
  ⟨fun id member => spans.cells id (List.mem_append_right _ member),
    fun id member => spans.lists id (List.mem_append_right _ member), spans.storage, spans.passes,
    fun member => spans.steady (List.mem_append_right _ member)⟩

theorem tail {source : Origin} (spans : Spans relation (source :: rights)) :
    Spans relation rights := by
  rw [← List.singleton_append] at spans
  exact spans.right

end Spans

section Read

variable {helpers : Helpers} {relation : Store → Store → Prop}

theorem readCell_agrees {id : CellId} (likeness : Likeness)
    (same : ∀ store other, relation store other → store.value? id = other.value? id) :
    Agree relation likeness.Alike (Reading.readCell id) (Reading.readCell id) := by
  refine .bind .get fun store other related => ?_
  have held := same store other related
  unfold Store.value? at held
  cases here : store.cells[id]? with
  | none =>
    cases there : other.cells[id]? with
    | none => exact .throw _
    | some found => simp [here, there] at held
  | some found =>
    cases there : other.cells[id]? with
    | none => simp [here, there] at held
    | some found' =>
      rw [here, there] at held
      exact .pure (.of_eq (Option.some.inj held))

theorem artifacts_agree {id : ListId}
    (same : ∀ store other, relation store other →
      (id < store.lists.size ↔ id < other.lists.size)) :
    Agree relation (fun _ _ => True) (Reading.artifacts id) (Reading.artifacts id) := by
  refine .bind .get fun store other related => ?_
  by_cases bound : id < store.lists.size
  · rw [Array.getElem?_eq_getElem bound,
      Array.getElem?_eq_getElem ((same store other related).mp bound)]
    exact .pure trivial
  · rw [Array.getElem?_eq_none (Nat.le_of_not_lt bound),
      Array.getElem?_eq_none (Nat.le_of_not_lt (mt (same store other related).mpr bound))]
    exact .throw _

theorem beginPass_agrees {list : ListId} {keyFor : KeyFor} {likeness : Likeness}
    {value value' : Value} {sources : List Origin} (spans : Spans relation sources)
    (known : .list list ∈ sources) (alike : likeness.Alike value value') :
    Agree relation Eq (beginPass list keyFor value) (beginPass list keyFor value') := by
  have passes : Agree relation (fun pass pass' : Pass => pass.isEmpty = pass'.isEmpty)
      (Reading.lift (Pass.ofValue keyFor value)) (Reading.lift (Pass.ofValue keyFor value')) := by
    have shape := alike.isEmpty keyFor
    cases left : Pass.ofValue keyFor value with
    | ok pass =>
      cases right : Pass.ofValue keyFor value' with
      | ok pass' =>
        rw [left, right] at shape
        exact .pure (Except.ok.inj shape)
      | error error => simp [left, right, Except.map] at shape
    | error error =>
      cases right : Pass.ofValue keyFor value' with
      | ok pass' => simp [left, right, Except.map] at shape
      | error error' =>
        rw [left, right] at shape
        obtain rfl := Except.error.inj shape
        exact .throw _
  refine .bind passes fun pass pass' empty => ?_
  refine .bind (artifacts_agree (spans.lists list known)) fun artifacts artifacts' _ => ?_
  refine .bind (.modify (spans.passes list _ _)) fun _ _ _ => ?_
  exact .pure (congrArg not empty)

theorem readConcat_agrees {readings : List (Reading Value)} (likeness : Likeness)
    (agree : ∀ reading ∈ readings, Agree relation Likeness.contents.Alike reading reading) :
    Agree relation likeness.Alike (readConcat readings) (readConcat readings) := by
  have folded : ∀ text, Agree relation Eq
      (readings.foldlM (fun text part => do return text ++ (← part).content) text : Reading String)
      (readings.foldlM (fun text part => do return text ++ (← part).content) text) := by
    induction readings with
    | nil => exact fun text => .pure rfl
    | cons reading readings ih =>
      intro text
      rw [List.foldlM_cons]
      have head : Agree relation Eq (do return text ++ (← reading).content : Reading String)
          (do return text ++ (← reading).content) :=
        .bind (agree reading List.mem_cons_self) fun value value' alike =>
          .pure (congrArg (text ++ ·) alike.content)
      refine .bind head fun text text' same => ?_
      subst same
      exact ih (fun later member => agree later (List.mem_cons_of_mem _ member)) text
  exact .bind (folded "") fun text text' same => .pure (.of_eq (congrArg Value.text same))

theorem newMap_agrees {pairs pairs' : List (String × Value)} {sources : List Origin}
    (spans : Spans relation sources) (alike : List.Forall₂
      (fun left right => left.1 = right.1 ∧ Likeness.contents.Alike left.2 right.2) pairs pairs') :
    Agree relation Likeness.contents.Alike (Reading.newMap pairs) (Reading.newMap pairs') := by
  have given : Agree relation (fun _ _ => True) Reading.newStorage Reading.newStorage :=
    fun store other related => ⟨trivial, spans.storage store other _ _ related⟩
  exact .bind given fun storage storage' _ => .pure (Likeness.Alike.ofPairs alike storage storage')

theorem readPairs_agree {named : List (String × Reading Value)} {alike : Value → Value → Prop}
    (agree : ∀ entry ∈ named, Agree relation alike entry.2 entry.2) :
    Agree relation (List.Forall₂ fun left right => left.1 = right.1 ∧ alike left.2 right.2)
      (readPairs named) (readPairs named) := by
  induction named with
  | nil => exact .pure .nil
  | cons entry rest ih =>
    obtain ⟨name, reading⟩ := entry
    refine .bind (agree (name, reading) List.mem_cons_self) fun value value' close => ?_
    refine .bind (ih fun later member => agree later (List.mem_cons_of_mem _ member))
      fun pairs pairs' rest => ?_
    exact .pure (.cons ⟨rfl, close⟩ rest)

mutual

/-- A tracked reference reads alike from stores that agree on what it is built over. -/
theorem read_agrees : ∀ (reference : Reference) (likeness : Likeness),
    reference.Tracked helpers likeness → Spans relation reference.sources →
      Agree relation likeness.Alike (reference.read helpers) (reference.read helpers)
  | const value, likeness, _, _ => .pure (likeness.refl value)
  | cell id, likeness, _, spans => readCell_agrees likeness (spans.cells id List.mem_cons_self)
  | volatile inner, _, _, spans => absurd List.mem_cons_self spans.steady
  | property parent key, likeness, tracked, spans =>
    .bind (read_agrees parent likeness tracked spans) fun value value' alike => .pure (alike.get key)
  | concat parts, likeness, tracked, spans =>
    readConcat_agrees likeness (readers_agree parts .contents tracked spans)
  | namedArgs named, likeness, tracked, spans => by
    obtain ⟨rfl, tracked⟩ := tracked
    exact .bind (readPairs_agree (namedReaders_agree named .contents tracked spans))
      fun pairs pairs' alike => newMap_agrees spans alike
  | condition inner holds, likeness, tracked, spans => by
    obtain ⟨given, tracked, decides⟩ := tracked
    refine .bind (read_agrees inner given tracked spans) fun value value' alike => .pure ?_
    exact .of_eq (congrArg Value.bool (decides value value' alike))
  | presence list source keyFor, likeness, tracked, spans => by
    refine .bind (read_agrees source .contents tracked spans.tail) fun value value' alike => ?_
    refine .bind (beginPass_agrees spans List.mem_cons_self alike) fun found found' same => ?_
    exact .pure (.of_eq (congrArg Value.bool same))
  | helper name positional named, likeness, tracked, spans => by
    obtain ⟨given, pure, places, names⟩ := tracked
    unfold Reference.read
    cases found : helpers name with
    | none => exact .throw _
    | some call =>
      exact pure call found relation spans.storage _
        (readers_agree positional given places spans.left)
        (namedReaders_agree named given names spans.right)
  | guarded inner refuses, likeness, tracked, spans => by
    obtain ⟨given, tracked, decides⟩ := tracked
    refine .bind (read_agrees inner given tracked spans) fun value value' alike => ?_
    obtain ⟨same, passed⟩ := decides value value' alike
    rw [← same]
    cases refusal : refuses value with
    | some error => exact .throw _
    | none => exact .pure (passed refusal)

theorem readers_agree : ∀ (references : List Reference) (likeness : Likeness),
    AllTracked helpers likeness references → Spans relation (allSources references) →
      ∀ reading ∈ readers helpers references, Agree relation likeness.Alike reading reading
  | [], _, _, _ => fun reading member => by simp [readers] at member
  | reference :: references, likeness, tracked, spans => fun reading member => by
    rcases List.mem_cons.mp member with rfl | member
    · exact read_agrees reference likeness tracked.1 spans.left
    · exact readers_agree references likeness tracked.2 spans.right reading member

theorem namedReaders_agree : ∀ (named : List (String × Reference)) (likeness : Likeness),
    NamedTracked helpers likeness named → Spans relation (namedSources named) →
      ∀ entry ∈ namedReaders helpers named, Agree relation likeness.Alike entry.2 entry.2
  | [], _, _, _ => fun entry member => by simp [namedReaders] at member
  | (name, reference) :: rest, likeness, tracked, spans => fun entry member => by
    rcases List.mem_cons.mp member with rfl | member
    · exact read_agrees reference likeness tracked.1 spans.left
    · exact namedReaders_agree rest likeness tracked.2 spans.right entry member

end

end Read

end Reference

/-! The rule -/

/-- Two readings that ended alike: with alike values, or with one fault. -/
def Likeness.Outcome (likeness : Likeness) :
    EStateM.Result Fault Store Value → EStateM.Result Fault Store Value → Prop
  | .ok value _, .ok other _ => likeness.Alike value other
  | .error fault _, .error fault' _ => fault = fault'
  | _, _ => False

namespace Reference

variable {helpers : Helpers} {likeness : Likeness} {reference : Reference}
  {early late : Store} {dirtied : List CellId}

/-- The stores show the same at all the sources. -/
structure Level (sources : List Origin) (store other : Store) : Prop where
  cells : ∀ id, .cell id ∈ sources → store.value? id = other.value? id
  lists : ∀ id, .list id ∈ sources → id < store.lists.size ∧ id < other.lists.size

theorem Level.spans {sources : List Origin} (steady : .volatile ∉ sources) :
    Spans (Level sources) sources where
  cells := fun id member _ _ level => level.cells id member
  lists := fun id member _ _ level =>
    iff_of_true (level.lists id member).1 (level.lists id member).2
  storage := fun _ _ _ _ level => ⟨level.cells, level.lists⟩
  passes := fun _ _ _ _ _ level =>
    ⟨level.cells, fun id member => by simpa using level.lists id member⟩
  steady := steady

/-- If no cell below a reference was dirtied, reading it gives what it gave. -/
theorem read_unchanged (tracked : reference.Tracked helpers likeness)
    (free : reference.VolatileFree) (grounded : reference.Over early)
    (run : Store.Run early dirtied late)
    (clean : ∀ id, .cell id ∈ reference.sources → id ∉ dirtied) :
    likeness.Outcome (reference.read helpers early) (reference.read helpers late) := by
  have level : Level reference.sources early late := by
    refine ⟨fun id member => ?_, fun id member => ?_⟩
    · rcases run.follows.fate id (grounded.1 id member) with ⟨same, -⟩ | ⟨-, dirty⟩
      · rw [Store.value?, Store.value?, same]
      · exact absurd dirty (clean id member)
    · exact ⟨grounded.2 id member, Nat.lt_of_lt_of_le (grounded.2 id member) run.follows.lists⟩
  have agreed := read_agrees reference likeness tracked (Level.spans free) early late level
  revert agreed
  cases reference.read helpers early <;> cases reference.read helpers late
  · exact And.left
  · exact False.elim
  · exact False.elim
  · exact And.left

theorem revision_le_clock (timely : early.Timely) (free : reference.VolatileFree) :
    (reference.revision early.changed).le (.tick early.clock) = true :=
  (revision_le reference free).mpr fun id _ => by simpa [Revision.le] using timely id

/-- A revision that is no later than the clock was leaves no cell below that could have been
dirtied since. -/
theorem clean_of_le_clock (grounded : reference.Over early) (free : reference.VolatileFree)
    (run : Store.Run early dirtied late)
    (kept : (reference.revision late.changed).le (.tick early.clock) = true) :
    ∀ id, .cell id ∈ reference.sources → id ∉ dirtied := by
  intro id member dirty
  rcases run.follows.fate id (grounded.1 id member) with ⟨-, clean⟩ | ⟨late, -⟩
  · exact clean dirty
  · have stamp := (revision_le reference free).mp kept id member
    simp only [Revision.le, decide_eq_true_eq] at stamp
    omega

/-- A revision that has not passed its snapshot leaves no cell below that could have been
dirtied. -/
theorem clean_of_revision_le (begun : early.Timely) (grounded : reference.Over early)
    (free : reference.VolatileFree) (run : Store.Run early dirtied late)
    (kept : (reference.revision late.changed).le (reference.revision early.changed) = true) :
    ∀ id, .cell id ∈ reference.sources → id ∉ dirtied :=
  clean_of_le_clock grounded free run (Revision.le_trans kept (revision_le_clock begun free))

/-- The rule of invalidation, for a reference that is tracked and a run of the clock from its very
beginning, with some moment noted on the way. Whatever the store, the tag of the reference is the
same, and its revision is the latest of the parts. If it validates against the revision noted, the
reference reads as it did at that moment. If no part is volatile and no cell below was dirtied, it
does validate. And the revision never falls. -/
theorem tag_witnesses_reading {earlier : List CellId} (tracked : reference.Tracked helpers likeness)
    (begun : Store.Run {} earlier early) (grounded : reference.Over early)
    (run : Store.Run early dirtied late) :
    ∃ tag : Tag, (∀ store, reference.tag helpers store = .ok tag store) ∧
      (∀ store : Store, store.revisionOf tag = reference.revision store.changed) ∧
      (late.validates tag (early.revisionOf tag) = true →
        likeness.Outcome (reference.read helpers early) (reference.read helpers late)) ∧
      (reference.VolatileFree → (∀ id, .cell id ∈ reference.sources → id ∉ dirtied) →
        late.validates tag (early.revisionOf tag) = true) ∧
      (early.revisionOf tag).le (late.revisionOf tag) = true := by
  have timely : early.Timely := begun.timely fun id => by simp [Store.changed]
  obtain ⟨tag, known, revision⟩ := tag_tracked reference likeness tracked
  refine ⟨tag, fun store => by rw [known]; rfl, fun store => revision store.changed, ?_, ?_, ?_⟩
  · intro valid
    obtain ⟨still, kept⟩ := Tag.validates_iff.mp valid
    rw [revision] at still kept
    have free : reference.VolatileFree := fun member => still ((revision_volatile reference).mpr member)
    rw [Store.revisionOf, revision] at kept
    exact read_unchanged tracked free grounded run (clean_of_revision_le timely grounded free run kept)
  · intro free clean
    refine Tag.validates_iff.mpr ?_
    rw [Store.revisionOf, revision, revision]
    refine ⟨fun moving => free ((revision_volatile reference).mp moving), ?_⟩
    refine (revision_le reference free).mpr fun id member => ?_
    have stamp : late.changed id = early.changed id := by
      rcases run.follows.fate id (grounded.1 id member) with ⟨same, -⟩ | ⟨-, dirty⟩
      · rw [Store.changed, Store.changed, same]
      · exact absurd dirty (clean id member)
    rw [stamp]
    exact (revision_le reference free).mp (Revision.le_refl _) id member
  · exact Tag.revision_mono (run.changed_mono timely) tag

/-- A page shows the length of one cell and whether another one holds, unless that one is missing.
A third cell is dirtied twice, before the moment noted and after it. -/
theorem tag_witnesses_reading_bystander :
    let helpers : Helpers := fun _ => some fun arguments => arguments.nth 0
    let reference : Reference := .namedArgs
      [("size", .helper "first" [.property (.cell 0) "length"] []),
        ("open", .condition (.guarded (.cell 1) fun value =>
          if value.nullish then some (.host "missing") else none) Value.truthy)]
    let early : Store := { clock := 2, cells := #[⟨.text "ab", 1⟩, ⟨.bool true, 1⟩, ⟨.null, 2⟩] }
    let late : Store :=
      { clock := 3, cells := #[⟨.text "ab", 1⟩, ⟨.bool true, 1⟩, ⟨.text "new", 3⟩] }
    ∃ tag : Tag, (∀ store, reference.tag helpers store = .ok tag store) ∧
      late.validates tag (early.revisionOf tag) = true ∧
      Likeness.contents.Outcome (reference.read helpers early) (reference.read helpers late) := by
  intro helpers reference early late
  have pure : Helper.Pure .contents .contents fun arguments => arguments.nth 0 := by
    intro relation _ arguments places _
    exact Arguments.nth_agrees places 0
  have created : Store.Run {} []
      { cells := #[⟨.text "ab", 1⟩, ⟨.bool true, 1⟩, ⟨.bool false, 1⟩] } :=
    ((Store.Run.start.create (Reading.newCell_ok.mpr ⟨rfl, rfl⟩)).create
      (Reading.newCell_ok.mpr ⟨rfl, rfl⟩)).create (Reading.newCell_ok.mpr ⟨rfl, rfl⟩)
  have begun : Store.Run {} [2] early :=
    created.update (show Reading.updateCell 2 .null _ = .ok true _ from rfl)
  have run : Store.Run early [2] late :=
    Store.Run.start.update (show Reading.updateCell 2 (.text "new") _ = .ok true _ from rfl)
  have guards : ∀ value other : Value, value = other →
      (if value.nullish then some (.host "missing") else none : Option RenderError) =
          (if other.nullish then some (.host "missing") else none) ∧
        ((if value.nullish then some (.host "missing") else none : Option RenderError) = none →
          value = other) := by
    rintro value _ rfl
    exact ⟨rfl, fun _ => rfl⟩
  have tracked : reference.Tracked helpers .contents :=
    ⟨rfl, ⟨.contents, by rintro _ ⟨⟩; exact pure, ⟨trivial, trivial⟩, trivial⟩,
      ⟨.same, ⟨.same, trivial, guards⟩, by rintro value _ rfl; rfl⟩, trivial⟩
  have grounded : reference.Over early := by
    constructor <;> simp [reference, sources, namedSources, allSources, early]
  obtain ⟨tag, known, -, sound, kept, -⟩ := tag_witnesses_reading tracked begun grounded run
  have valid := kept (by simp [VolatileFree, reference, sources, namedSources, allSources])
    (by simp [reference, sources, namedSources, allSources])
  exact ⟨tag, known, valid, sound valid⟩

end Reference

end LiveTemplate
