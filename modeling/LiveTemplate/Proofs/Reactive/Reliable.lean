import LiveTemplate.Proofs.Reactive.Obedience
import LiveTemplate.Proofs.Reactive.Readings

/-!
Which references obey their tags. All that are built in do as long as their parts do, and a helper
does if it goes by nothing but its arguments. Two readings are compared side by side, each in a store
of its own that no step of it changes.
-/

namespace LiveTemplate

open Effects

namespace Store

/-- The stores have each come of one of two others, the cells of which they hold as they were. -/
def Twins (left right store other : Store) : Prop := left.Leaves store ∧ right.Leaves other

/-- A store with as many cells and lists as two others both have. -/
def common (left right : Store) : Store where
  cells := left.cells.take right.cells.size
  lists := left.lists.take right.lists.size

variable {left right : Store}

theorem common_within_left : (left.common right).Within left := by
  constructor <;> simp only [common, Array.take_eq_extract, Array.size_extract] <;> omega

theorem common_within_right : (left.common right).Within right := by
  constructor <;> simp only [common, Array.take_eq_extract, Array.size_extract] <;> omega

theorem Leaves.setStorage (store : Store) (storage : Storage) :
    store.Leaves { store with storage } :=
  ⟨⟨Nat.le_refl _, Nat.le_refl _⟩, rfl, fun _ _ => rfl⟩

theorem Twins.refl (left right : Store) : left.Twins right left right := ⟨.refl left, .refl right⟩

end Store

/-- A reading that leaves the clock and all cells there are as they were, however it ends. -/
abbrev Reading.Leaving {α : Type} (reading : Reading α) : Prop :=
  Sustains Store.Leaves reading

namespace Reading.Leaving

variable {α β : Type}

theorem pure (value : α) : (Pure.pure value : Reading α).Leaving := Sustains.pure Store.Leaves.refl value

theorem throw (fault : Fault) : (MonadExcept.throw fault : Reading α).Leaving :=
  Sustains.throw Store.Leaves.refl fault

theorem get : (MonadState.get : Reading Store).Leaving := Sustains.get Store.Leaves.refl

theorem bind {first : Reading α} {next : α → Reading β} (head : first.Leaving)
    (tail : ∀ value, (next value).Leaving) : (first >>= next).Leaving :=
  Sustains.bind (fun early late => early.trans late) head tail

theorem beginPass (list : ListId) (keyFor : KeyFor) (value : Value) :
    (Reference.beginPass list keyFor value).Leaving := by
  have lifted : (Reading.lift (Pass.ofValue keyFor value)).Leaving := by
    cases Pass.ofValue keyFor value with
    | ok pass => exact .pure pass
    | error error => exact .throw (.failed error)
  have found : (Reading.artifacts list).Leaving := by
    refine .bind .get fun store => ?_
    cases store.lists[list]? with
    | none => exact .throw _
    | some artifacts => exact .pure artifacts
  refine .bind lifted fun pass => .bind found fun artifacts => ?_
  exact .bind (Sustains.modify fun store => Store.Leaves.setList store list _) fun _ => .pure _

/-- Readings of this kind form a class that reading a reference keeps. -/
theorem closed : Reading.Closed Reading.Leaving where
  pure := .pure
  fail := fun error => .throw (.failed error)
  bind := .bind
  readCell := fun id => .bind .get fun store => by
    cases store.cells[id]? with
    | none => exact .throw _
    | some cell => exact .pure cell.value
  newMap := fun entries =>
    .bind (Sustains.modifyGet fun store => Store.Leaves.setStorage store _) fun _ => .pure _
  beginPass := beginPass

end Reading.Leaving

/-- The helpers of a host go by nothing but their arguments, and leave all cells alone. -/
structure Helpers.Honest (helpers : Helpers) : Prop where
  quiet : helpers.Respect Reading.Leaving
  pure : ∀ name call, helpers name = some call → Helper.Pure .contents .contents call

namespace Reference

variable {helpers : Helpers} {reference : Reference} {left right : Store}

/-- A reference obeys its tag, and so does every name of a dynamic variable in it. -/
structure Reliable (helpers : Helpers) (reference : Reference) : Prop where
  obeys : reference.Obeys helpers
  names : ∀ name ∈ reference.names, name.Obeys helpers

theorem Over.common (rests : reference.Over left) (rests' : reference.Over right) :
    reference.Over (left.common right) := by
  refine ⟨fun id member => ?_, fun id member => ?_⟩
  · have bound := rests.1 id member
    have bound' := rests'.1 id member
    simp only [Store.common, Array.take_eq_extract, Array.size_extract]
    omega
  · have bound := rests.2 id member
    have bound' := rests'.2 id member
    simp only [Store.common, Array.take_eq_extract, Array.size_extract]
    omega

/-- What is to be shown of a reference: side by side it reads alike if its tag says so. -/
def Agreeable (helpers : Helpers) (reference : Reference) : Prop :=
  ∀ {left right store last : Store} {tag : Tag}, reference.Over left → reference.Over right →
    left.Leaves store → reference.tag helpers store = .ok tag last → tag.Steady →
    (∀ id ∈ tag.cells, left.cells[id]? = right.cells[id]?) →
    Agree (left.Twins right) Likeness.contents.Alike (reference.read helpers) (reference.read helpers)

theorem Obeys.of_agreeable (quiet : (reference.read helpers).Leaving)
    (agreeable : reference.Agreeable helpers) : reference.Obeys helpers where
  quiet := fun _ => .intro
    (fun _ _ ended => ⟨quiet.of_ok ended, quiet.of_ok ended, trivial⟩)
    fun _ _ failed => quiet.of_error failed
  steady := by
    intro store other tag after rests rests' told steady same
    have agreed := agreeable rests rests' (.refl store) told steady same store other (.refl _ _)
    revert agreed
    cases reference.read helpers store <;> cases reference.read helpers other
    · exact And.left
    · exact False.elim
    · exact False.elim
    · exact And.left

theorem Reliable.tells (reliable : reference.Reliable helpers) {base : Store}
    (rests : reference.Over base) : (reference.tag helpers).Tells base :=
  reference.tag_tells rests reliable.names

theorem Reliable.agreeable (reliable : reference.Reliable helpers) :
    reference.Agreeable helpers := by
  intro left right store last tag rests rests' leaves told steady same
  have tells := reliable.tells (rests.common rests')
  have within : (left.common right).Within left := Store.common_within_left
  have within' : (left.common right).Within right := Store.common_within_right
  have grounded := tells.grounded (within.trans leaves.toWithin) told
  rintro store' other' ⟨leaves', leaves''⟩
  obtain ⟨last', told'⟩ := tells.again (within.trans leaves.toWithin) told steady
    (within.trans leaves'.toWithin) fun id bound => by
      have there := Nat.lt_of_lt_of_le bound within.cells
      rw [leaves.old id there, leaves'.old id there]
  have outcome := reliable.obeys.steady (rests.within leaves'.toWithin)
    (rests'.within leaves''.toWithin) told' steady fun id member => by
      have bound := grounded id member
      rw [leaves'.old id (Nat.lt_of_lt_of_le bound within.cells),
        leaves''.old id (Nat.lt_of_lt_of_le bound within'.cells)]
      exact same id member
  have quiet := reliable.obeys.quiet (rests.within leaves'.toWithin)
  have quiet' := reliable.obeys.quiet (rests'.within leaves''.toWithin)
  revert outcome
  cases ended : reference.read helpers store' with
  | ok value after =>
    cases ended' : reference.read helpers other' with
    | ok value' after' =>
      exact fun alike => ⟨alike, leaves'.trans (quiet.of_ok ended).1,
        leaves''.trans (quiet'.of_ok ended').1⟩
    | error fault' after' => exact False.elim
  | error fault after =>
    cases ended' : reference.read helpers other' with
    | ok value' after' => exact False.elim
    | error fault' after' =>
      exact fun equal => ⟨equal, leaves'.trans (quiet.of_error ended),
        leaves''.trans (quiet'.of_error ended')⟩

/-! Several parts, whose tags are told one after another -/

theorem parts_agree {parts : List Reference} (reliable : ∀ part ∈ parts, part.Reliable helpers)
    (rests : ∀ part ∈ parts, part.Over left) (rests' : ∀ part ∈ parts, part.Over right)
    {store last : Store} {tags : List Tag} (leaves : left.Leaves store)
    (told : Tag.Told (Reference.tags helpers parts) tags store last)
    (steady : ∀ tag ∈ tags, tag.Steady)
    (same : ∀ id ∈ Tag.allCells tags, left.cells[id]? = right.cells[id]?) :
    ∀ reading ∈ readers helpers parts,
      Agree (left.Twins right) Likeness.contents.Alike reading reading := by
  induction parts generalizing store tags with
  | nil => exact fun reading member => by simp [readers] at member
  | cons part parts ih =>
    rw [Reference.tags] at told
    cases told with
    | @cons _ _ tag tags _ between _ first _ others =>
      obtain ⟨steadyHead, steadyRest⟩ := List.forall_mem_cons.mp steady
      obtain ⟨reliableHead, reliableRest⟩ := List.forall_mem_cons.mp reliable
      obtain ⟨overHead, overRest⟩ := List.forall_mem_cons.mp rests
      obtain ⟨overHead', overRest'⟩ := List.forall_mem_cons.mp rests'
      have moved : store.Leaves between := (reliableHead.tells
        (overHead.within leaves.toWithin)).leaves (.refl store) first
      refine List.forall_mem_cons.mpr ⟨?_, ?_⟩
      · refine reliableHead.agreeable overHead overHead' leaves first steadyHead fun id member => ?_
        exact same id (Tag.mem_allCells.mpr ⟨tag, List.mem_cons_self, member⟩)
      · refine ih reliableRest overRest overRest' (leaves.trans moved) others steadyRest
          fun id member => ?_
        obtain ⟨later, among, member⟩ := Tag.mem_allCells.mp member
        exact same id (Tag.mem_allCells.mpr ⟨later, List.mem_cons_of_mem _ among, member⟩)

theorem combined_agree {parts : List Reference} (reliable : ∀ part ∈ parts, part.Reliable helpers)
    (rests : ∀ part ∈ parts, part.Over left) (rests' : ∀ part ∈ parts, part.Over right)
    {store last : Store} {tag : Tag} (leaves : left.Leaves store)
    (told : Tag.combineM (Reference.tags helpers parts) store = .ok tag last) (steady : tag.Steady)
    (same : ∀ id ∈ tag.cells, left.cells[id]? = right.cells[id]?) :
    ∀ reading ∈ readers helpers parts,
      Agree (left.Twins right) Likeness.contents.Alike reading reading := by
  rcases Tag.combineM_ok told with rfl | ⟨tags, each, rfl⟩
  · exact steady.elim
  · refine parts_agree reliable rests rests' leaves each (Tag.steady_combine.mp steady) ?_
    rwa [← Tag.cells_combine each.steady]

/-! Named parts are parts -/

theorem namedReaders_map (named : List (String × Reference)) :
    (namedReaders helpers named).map Prod.snd = readers helpers (named.map Prod.snd) := by
  induction named with
  | nil => rfl
  | cons entry rest ih => simp [namedReaders, readers, ih]

theorem namedTags_map (named : List (String × Reference)) :
    (namedTags helpers named).map Prod.snd = Reference.tags helpers (named.map Prod.snd) := by
  induction named with
  | nil => rfl
  | cons entry rest ih => simp [namedTags, Reference.tags, ih]

theorem tags_append (parts others : List Reference) :
    Reference.tags helpers (parts ++ others) =
      Reference.tags helpers parts ++ Reference.tags helpers others := by
  induction parts with
  | nil => rfl
  | cons part parts ih => simp [Reference.tags, ih]

theorem readers_append (parts others : List Reference) :
    readers helpers (parts ++ others) = readers helpers parts ++ readers helpers others := by
  induction parts with
  | nil => rfl
  | cons part parts ih => simp [readers, ih]

theorem namedReaders_mem {named : List (String × Reference)} {entry : String × Reading Value}
    (member : entry ∈ namedReaders helpers named) :
    entry.2 ∈ readers helpers (named.map Prod.snd) := by
  rw [← namedReaders_map]
  exact List.mem_map_of_mem member

/-- A variable that is looked up is read, and tells its tag, as the reference it stands for. -/
theorem get?_named (key : String) (named : List (String × Reference)) :
    Entries.get? key (namedReaders helpers named) =
        (Entries.get? key named).map (Reference.read helpers) ∧
      Entries.get? key (namedTags helpers named) =
        (Entries.get? key named).map (Reference.tag helpers) := by
  induction named with
  | nil => exact ⟨rfl, rfl⟩
  | cons entry rest ih =>
    by_cases same : entry.1 = key <;> simp [namedReaders, namedTags, Entries.get?, same, ih]

theorem mem_allNames {parts : List Reference} {name : Reference} :
    name ∈ allNames parts ↔ ∃ part ∈ parts, name ∈ part.names := by
  induction parts with
  | nil => simp [allNames]
  | cons part parts ih => simp [allNames, ih]

theorem namedNames_eq (named : List (String × Reference)) :
    namedNames named = allNames (named.map Prod.snd) := by
  induction named with
  | nil => rfl
  | cons entry rest ih => simp [namedNames, allNames, ih]

theorem mem_allSources {parts : List Reference} {source : Origin} :
    source ∈ allSources parts ↔ ∃ part ∈ parts, source ∈ part.sources := by
  induction parts with
  | nil => simp [allSources]
  | cons part parts ih => simp [allSources, ih]

theorem namedSources_eq (named : List (String × Reference)) :
    namedSources named = allSources (named.map Prod.snd) := by
  induction named with
  | nil => rfl
  | cons entry rest ih => simp [namedSources, allSources, ih]

theorem Over.part {parts : List Reference} {part : Reference} {store : Store}
    (exist : Origin.Exist (allSources parts) store) (member : part ∈ parts) : part.Over store :=
  ⟨fun id there => exist.1 id (mem_allSources.mpr ⟨part, member, there⟩),
    fun id there => exist.2 id (mem_allSources.mpr ⟨part, member, there⟩)⟩

theorem names_obey {parts : List Reference} (reliable : ∀ part ∈ parts, part.Reliable helpers) :
    ∀ name ∈ allNames parts, name.Obeys helpers := by
  intro name member
  obtain ⟨part, among, member⟩ := mem_allNames.mp member
  exact (reliable part among).names name member

theorem namedNames_obey {named : List (String × Reference)}
    (reliable : ∀ entry ∈ named, entry.2.Reliable helpers) :
    ∀ name ∈ namedNames named, name.Obeys helpers := by
  rw [namedNames_eq]
  exact names_obey (List.forall_mem_map.mpr reliable)

/-! Each way to build a reference -/

namespace Reliable

theorem const (value : Value) : Reliable helpers (.const value) where
  obeys := .of_agreeable (.pure value) fun _ _ _ _ _ _ => .pure (Likeness.refl _ value)
  names := nofun

theorem cell (id : CellId) : Reliable helpers (.cell id) where
  obeys := by
    refine .of_agreeable (Reading.Leaving.closed.readCell id) ?_
    intro left right store last tag rests rests' _ told _ same
    obtain ⟨rfl, rfl⟩ := pure_ok.mp told
    have there : id < left.cells.size := rests.1 id List.mem_cons_self
    have there' : id < right.cells.size := rests'.1 id List.mem_cons_self
    refine readCell_agrees .contents ?_
    rintro store other ⟨leaves, leaves'⟩
    rw [Store.value?, Store.value?, leaves.old id there, leaves'.old id there',
      same id (by simp [Tag.cells])]
  names := nofun

/-- A name that obeys reads like it did where its tag was told. -/
theorem again {name : Reference} (reliable : name.Reliable helpers) {left right store : Store}
    {tag : Tag} {between last : Store} (rests : name.Over left) (rests' : name.Over right)
    (leaves : left.Leaves store) (leaves' : left.Leaves between)
    (told : name.tag helpers between = .ok tag last) (steady : tag.Steady)
    (same : ∀ id ∈ tag.cells, left.cells[id]? = right.cells[id]?) :
    Agree (left.Twins right)
      (fun value value' => Likeness.contents.Alike value value' ∧ ∃ first after,
        name.read helpers store = .ok first after ∧ Likeness.contents.Alike first value)
      (name.read helpers) (name.read helpers) := by
  rintro store' other' ⟨moved, moved'⟩
  have aside := reliable.agreeable rests rests' leaves' told steady same store' other' ⟨moved, moved'⟩
  have before := reliable.agreeable rests rests leaves' told steady (fun _ _ => rfl) store store'
    ⟨leaves, moved⟩
  revert aside before
  cases name.read helpers store' with
  | ok value after =>
    cases name.read helpers other' with
    | error fault' after' => exact fun wrong => wrong.elim
    | ok value' after' =>
      intro aside before
      cases ended : name.read helpers store with
      | error fault first => simp [ended] at before
      | ok first middle =>
        rw [ended] at before
        exact ⟨⟨aside.1, first, middle, rfl, before.1⟩, aside.2⟩
  | error fault after =>
    cases name.read helpers other' with
    | ok value' after' => exact fun wrong => wrong.elim
    | error fault' after' => exact fun aside _ => aside

variable (honest : helpers.Honest)

include honest

theorem leaving (reference : Reference) : (reference.read helpers).Leaving :=
  Reading.Leaving.closed.read honest.quiet reference

theorem property {parent : Reference} (key : String) (reliable : Reliable helpers parent) :
    Reliable helpers (.property parent key) where
  obeys := .of_agreeable (leaving honest _) fun rests rests' leaves told steady same =>
    .bind (reliable.agreeable rests rests' leaves told steady same) fun _ _ alike =>
      .pure (alike.get key)
  names := reliable.names

theorem condition {inner : Reference} {holds : Value → Bool}
    (decides : ∀ value other, Likeness.contents.Alike value other → holds value = holds other)
    (reliable : Reliable helpers inner) : Reliable helpers (.condition inner holds) where
  obeys := .of_agreeable (leaving honest _) fun rests rests' leaves told steady same =>
    .bind (reliable.agreeable rests rests' leaves told steady same) fun value other alike =>
      .pure (.of_eq (congrArg Value.bool (decides value other alike)))
  names := reliable.names

theorem presence {source : Reference} (list : ListId) (keyFor : KeyFor)
    (reliable : Reliable helpers source) : Reliable helpers (.presence list source keyFor) where
  obeys := by
    refine .of_agreeable (leaving honest _) fun {left right} _ _ _ rests rests' leaves told steady same => ?_
    have exist : Origin.Exist ([.list list] ++ source.sources) left := rests
    have exist' : Origin.Exist ([.list list] ++ source.sources) right := rests'
    have spans : Spans (left.Twins right) [.list list] := {
      cells := fun _ member => by simp at member
      lists := fun id member store other twins => by
        obtain rfl : id = list := by simpa using member
        exact iff_of_true (Nat.lt_of_lt_of_le (rests.2 id List.mem_cons_self) twins.1.lists)
          (Nat.lt_of_lt_of_le (rests'.2 id List.mem_cons_self) twins.2.lists)
      storage := fun _ _ _ _ twins => ⟨twins.1.trans (.setStorage _ _), twins.2.trans (.setStorage _ _)⟩
      passes := fun _ _ _ _ _ twins => ⟨twins.1.trans (.setList _ _ _), twins.2.trans (.setList _ _ _)⟩
      steady := by simp }
    refine .bind (reliable.agreeable exist.right exist'.right leaves told steady same)
      fun _ _ alike => ?_
    refine .bind (beginPass_agrees spans List.mem_cons_self alike) fun _ _ found => ?_
    exact .pure (.of_eq (congrArg Value.bool found))
  names := reliable.names

theorem concat {parts : List Reference} (reliable : ∀ part ∈ parts, part.Reliable helpers) :
    Reliable helpers (.concat parts) where
  obeys := .of_agreeable (leaving honest _) fun rests rests' leaves told steady same =>
    readConcat_agrees .contents (combined_agree reliable (fun _ => .part rests) (fun _ => .part rests')
      leaves told steady same)
  names := names_obey reliable

theorem namedArgs {named : List (String × Reference)}
    (reliable : ∀ entry ∈ named, entry.2.Reliable helpers) :
    Reliable helpers (.namedArgs named) where
  obeys := by
    refine .of_agreeable (leaving honest _) fun {left right} _ _ _ rests rests' leaves told steady same => ?_
    have each : ∀ part ∈ named.map Prod.snd, part.Reliable helpers := List.forall_mem_map.mpr reliable
    rw [Over, sources, namedSources_eq] at rests rests'
    rw [Reference.tag, namedTags_map] at told
    have agreed := combined_agree each (fun _ => .part rests) (fun _ => .part rests') leaves told
      steady same
    have spans : Spans (left.Twins right) [] := {
      cells := nofun
      lists := nofun
      storage := fun _ _ _ _ twins => ⟨twins.1.trans (.setStorage _ _), twins.2.trans (.setStorage _ _)⟩
      passes := fun _ _ _ _ _ twins => ⟨twins.1.trans (.setList _ _ _), twins.2.trans (.setList _ _ _)⟩
      steady := nofun }
    exact .bind (readPairs_agree fun entry member => agreed _ (namedReaders_mem member))
      fun _ _ alike => newMap_agrees spans alike
  names := namedNames_obey reliable

theorem helper (name : String) {positional : List Reference} {named : List (String × Reference)}
    (places : ∀ part ∈ positional, part.Reliable helpers)
    (names : ∀ entry ∈ named, entry.2.Reliable helpers) :
    Reliable helpers (.helper name positional named) where
  obeys := by
    refine .of_agreeable (leaving honest _) fun {left right} _ _ _ rests rests' leaves told steady same => ?_
    have each : ∀ part ∈ positional ++ named.map Prod.snd, part.Reliable helpers :=
      List.forall_mem_append.mpr ⟨places, List.forall_mem_map.mpr names⟩
    have below : ∀ {store : Store}, (Reference.helper name positional named).Over store →
        ∀ part ∈ positional ++ named.map Prod.snd, part.Over store := by
      intro store rests part member
      have exist : Origin.Exist (allSources positional ++ namedSources named) store := rests
      rcases List.mem_append.mp member with member | member
      · exact .part exist.left member
      · exact .part (namedSources_eq named ▸ exist.right) member
    rw [Reference.tag, namedTags_map, ← tags_append] at told
    have agreed := combined_agree each (below rests) (below rests') leaves told steady same
    rw [readers_append] at agreed
    unfold Reference.read
    cases found : helpers name with
    | none => exact .throw _
    | some call =>
      refine honest.pure name call found _ ?_ _ ?_ ?_
      · exact fun _ _ _ _ twins => ⟨twins.1.trans (.setStorage _ _), twins.2.trans (.setStorage _ _)⟩
      · exact fun reading member => agreed reading (List.mem_append_left _ member)
      · exact fun entry member => agreed _ (List.mem_append_right _ (namedReaders_mem member))
  names := List.forall_mem_append.mpr ⟨names_obey places, namedNames_obey names⟩

theorem dynamicVar {ambient : List (String × Reference)} {name : Reference}
    (visible : ∀ entry ∈ ambient, entry.2.Reliable helpers) (reliable : name.Reliable helpers) :
    Reliable helpers (.dynamicVar ambient name) where
  obeys := by
    refine .of_agreeable (leaving honest _) ?_
    intro left right store last tag rests rests' leaves told steady same
    have exist : Origin.Exist (name.sources ++ namedSources ambient) left := rests
    have exist' : Origin.Exist (name.sources ++ namedSources ambient) right := rests'
    rcases dynamicVar_tag_ok.mp told with ⟨error, between, failed, named⟩ | ⟨value, between, read, told⟩
    · have moved := leaves.trans ((leaving honest name).of_error failed)
      refine .bind (reliable.again exist.left exist'.left leaves moved named steady same) ?_
      rintro _ _ ⟨-, first, after, read, -⟩
      simp [failed] at read
    · have moved := leaves.trans ((leaving honest name).of_ok read)
      cases found : Entries.get? value.content ambient with
      | none =>
        rw [(get?_named value.content ambient).2, found] at told
        refine .bind (reliable.again exist.left exist'.left leaves moved told steady same) ?_
        rintro _ other ⟨alike, first, after, read', close⟩
        obtain ⟨rfl, rfl⟩ := EStateM.Result.ok.inj (read.symm.trans read')
        dsimp only
        rw [← alike.content, ← close.content, (get?_named value.content ambient).1, found]
        exact .pure (Likeness.refl _ _)
      | some meant =>
        rw [(get?_named value.content ambient).2, found] at told
        obtain ⟨first, second, middle, named, variableTold, rfl⟩ := told
        have each := Tag.steady_combine.mp steady
        have moving : ∀ tag ∈ [first, second], tag ≠ .volatile := by
          rintro _ member rfl
          exact each _ member
        rw [Tag.cells_combine moving] at same
        have here : ∀ part ∈ [first, second], ∀ id ∈ part.cells, left.cells[id]? = right.cells[id]? :=
          fun part among id member => same id (Tag.mem_allCells.mpr ⟨part, among, member⟩)
        refine .bind (reliable.again exist.left exist'.left leaves moved named (each _ (by simp))
          (here first (by simp))) ?_
        rintro _ other ⟨alike, again, after, read', close⟩
        obtain ⟨rfl, rfl⟩ := EStateM.Result.ok.inj (read.symm.trans read')
        dsimp only
        rw [← alike.content, ← close.content, (get?_named value.content ambient).1, found]
        have among := Entries.mem_of_get? found
        have member : meant ∈ ambient.map Prod.snd := List.mem_map_of_mem among
        have nameOver : name.Over between := Over.within exist.left moved.toWithin
        have last := moved.trans ((reliable.tells nameOver).leaves (.refl between) named)
        exact (visible _ among).agreeable (.part (namedSources_eq ambient ▸ exist.right) member)
          (.part (namedSources_eq ambient ▸ exist'.right) member) last variableTold
          (each _ (by simp)) (here second (by simp))
  names := List.forall_mem_cons.mpr
    ⟨reliable.obeys, List.forall_mem_append.mpr ⟨reliable.names, namedNames_obey visible⟩⟩

end Reliable

end Reference

end LiveTemplate
