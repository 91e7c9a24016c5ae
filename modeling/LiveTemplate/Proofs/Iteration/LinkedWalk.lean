import LiveTemplate.Iteration.KeyList
import LiveTemplate.Proofs.Effects
import LiveTemplate.Proofs.Iteration.ItemCells
import LiveTemplate.Proofs.Iteration.Links
import LiveTemplate.Render.Refresh

/-!
Synchronising linked items. A walk over links does what the walk through the list of items does that
they show, element by element: the same edits reach the target, and both stop at the same refusal.
Nothing is assumed of the keys. So the links stay whole, and no walk runs into a removed item or
in a circle.
-/

namespace LiveTemplate

namespace SyncTarget

variable {σ : Type} {α α' β β' γ : Type} (target : SyncTarget σ)

/-- What the target makes of a reading does not depend on what becomes of the result. -/
def Natural : Prop :=
  ∀ {α β : Type} (change : α → β) (reading : Reading α),
    target.onStore (change <$> reading) = change <$> target.onStore reading

/-- The target itself ends in this fault: when it carries out an edit, or in its store, when an item
is given its values. -/
inductive Raises (fault : Fault) : Prop
  | apply {edit : Edit} {before after : σ} (ended : target.apply edit before = .error fault after)
  | update {refs : ItemRefs} {element : PassItem} {before after : σ}
      (ended : target.onStore (Walk.updateRefs refs element) before = .error fault after)
  | create {element : PassItem} {before after : σ}
      (ended : target.onStore element.newRefs before = .error fault after)

/-- The first computation ends as the second does, and in a fault only if the target raises it. -/
def Answers (alike : α → α' → Prop) (left : EStateM Fault σ α) (right : EStateM Fault σ α') :
    Prop :=
  ∀ before,
    match left before with
    | .ok value after =>
      ∃ other, alike value other ∧ (target.Natural → right before = .ok other after)
    | .error fault after =>
      target.Raises fault ∧ (target.Natural → right before = .error fault after)

variable {target} {alike : α → α' → Prop} {also : β → β' → Prop}

theorem checked_bind {result : Except Defect α} {value : α} (done : result = .ok value)
    (next : α → EStateM Fault σ β) : (checked result >>= next) = next value := by
  rw [done]
  exact pure_bind value next

namespace Answers

theorem pure {value : α} {other : α'} (same : alike value other) :
    target.Answers alike (pure value) (pure other) :=
  fun _ => ⟨other, same, fun _ => rfl⟩

theorem bind {left : EStateM Fault σ α} {right : EStateM Fault σ α'}
    {next : α → EStateM Fault σ β} {next' : α' → EStateM Fault σ β'}
    (head : target.Answers alike left right)
    (tail : ∀ value other, alike value other → target.Answers also (next value) (next' other)) :
    target.Answers also (left >>= next) (right >>= next') := by
  intro before
  have first := head before
  cases outcome : left before with
  | error fault after =>
    rw [outcome] at first
    rw [Effects.bind_of_error outcome]
    exact ⟨first.1, fun natural => Effects.bind_of_error (first.2 natural)⟩
  | ok value between =>
    rw [outcome] at first
    obtain ⟨other, same, answer⟩ := first
    rw [Effects.bind_of_ok outcome]
    have last := tail value other same between
    cases ended : next value between with
    | ok result after =>
      rw [ended] at last
      obtain ⟨result', alike', later⟩ := last
      exact ⟨result', alike', fun natural =>
        (Effects.bind_of_ok (answer natural)).trans (later natural)⟩
    | error fault after =>
      rw [ended] at last
      exact ⟨last.1, fun natural => (Effects.bind_of_ok (answer natural)).trans (last.2 natural)⟩

/-- Both read the same from the store, and the second does more with it. -/
theorem reading {reading : Reading α} (change : α → α')
    (raises : ∀ {before after : σ} {fault : Fault},
      target.onStore reading before = .error fault after → target.Raises fault)
    {next : α → EStateM Fault σ β} {next' : α' → EStateM Fault σ β'}
    (tail : ∀ value, target.Answers also (next value) (next' (change value))) :
    target.Answers also (target.onStore reading >>= next)
      (target.onStore (change <$> reading) >>= next') := by
  have head : target.Answers (fun value other => other = change value) (target.onStore reading)
      (target.onStore (change <$> reading)) := by
    intro before
    cases outcome : target.onStore reading before with
    | ok value after =>
      refine ⟨change value, rfl, fun natural => ?_⟩
      rw [natural, map_eq_pure_bind]
      exact Effects.bind_of_ok outcome
    | error fault after =>
      refine ⟨raises outcome, fun natural => ?_⟩
      rw [natural, map_eq_pure_bind]
      exact Effects.bind_of_error outcome
  refine head.bind ?_
  rintro value other rfl
  exact tail value

/-- Both have the target carry out the same edit. -/
theorem accept (edit : Edit) {next : Option RenderError → EStateM Fault σ β}
    {next' : Option RenderError → EStateM Fault σ β'}
    (tail : ∀ refusal, target.Answers also (next refusal) (next' refusal)) :
    target.Answers also (target.accept edit >>= next) (target.accept edit >>= next') := by
  have head : target.Answers (fun refusal other => refusal = other) (target.accept edit)
      (target.accept edit) := by
    intro before
    cases outcome : target.accept edit before with
    | ok refusal after => exact ⟨refusal, rfl, fun _ => rfl⟩
    | error fault after =>
      refine ⟨?_, fun _ => rfl⟩
      unfold SyncTarget.accept at outcome
      cases applied : target.apply edit before with
      | ok done between =>
        rw [applied] at outcome
        cases outcome
      | error first between =>
        rw [applied] at outcome
        cases first with
        | failed error => cases outcome
        | broken defect =>
          cases outcome
          exact .apply applied
  refine head.bind ?_
  rintro refusal other rfl
  exact tail refusal

end Answers

/-- What the walk through a list does with one element of the pass. -/
def meetOne (target : SyncTarget σ) (element : PassItem) (walk : Walk) :
    EStateM Fault σ (Walk × Option RenderError) := do
  match ← target.onStore (walk.meet element) with
  | (walk, none) => return (walk, none)
  | (walk, some edit) =>
    let refusal ← target.accept edit
    return (if refusal.isSome then walk.takeBack edit else walk, refusal)

theorem mergePass_cons (element : PassItem) (pass : Pass) (walk : Walk) :
    target.mergePass (element :: pass) walk = (do
      match ← target.meetOne element walk with
      | (walk, none) => target.mergePass pass walk
      | (walk, some error) => return (walk, some error)) := by
  rw [mergePass, meetOne, bind_assoc]
  refine congrArg _ (funext fun (walk, edit) => ?_)
  cases edit with
  | none => simp only [pure_bind]
  | some edit =>
    simp only [bind_assoc, pure_bind]
    refine congrArg _ (funext fun refusal => ?_)
    cases refusal <;> rfl

end SyncTarget

namespace Walk

variable {walk : Walk} {element : PassItem}

theorem meet_current {current : Item} {rest : List Item} (ahead : walk.ahead = current :: rest)
    (same : current.key = element.key) :
    walk.meet element = (fun _ : Unit =>
      (({ walk with behind := walk.behind ++ [current.retain], ahead := rest } : Walk),
        some (.retain current.refs))) <$> updateRefs current.refs element := by
  have here : walk.before = some element.key := by simp [before, ahead, same]
  rw [meet, if_pos here, map_eq_pure_bind]
  simp only [ahead]
  rfl

theorem meet_new (elsewhere : walk.before ≠ some element.key)
    (unknown : walk.artifacts.get? element.key = none) :
    walk.meet element = (fun refs =>
      (walk.insertHere refs, some (.insert refs walk.before))) <$> element.newRefs := by
  rw [meet, if_neg elsewhere, map_eq_pure_bind]
  simp only [unknown]

/-- The walk after it met an element whose item is in another place, and the edit. -/
def bringHere (walk : Walk) (key : Key) (found : Item) : Walk × Option Edit :=
  let marked := { walk with
    behind := retainId found.id walk.behind, ahead := retainId found.id walk.ahead }
  if found.seen then
    ({ marked with
      behind := dropId found.id marked.behind ++ [found.retain]
      ahead := dropId found.id marked.ahead }, some (.move found.refs marked.before))
  else (marked.skipTo key, none)

theorem meet_known {found : Item} (elsewhere : walk.before ≠ some element.key)
    (known : walk.artifacts.get? element.key = some found.id)
    (there : walk.items.find? (fun item => item.id = found.id) = some found) :
    walk.meet element =
      (fun _ : Unit => walk.bringHere element.key found) <$> updateRefs found.refs element := by
  rw [meet, if_neg elsewhere, map_eq_pure_bind]
  simp only [known, there, bringHere]
  refine congrArg _ (funext fun _ => ?_)
  split <;> rfl

end Walk

namespace Links

variable {links : Links} {front back : List Item} {item : Item}

theorem Lists.keyAt (lists : links.Lists (front ++ back)) :
    links.keyAt (firstId back none) = .ok (back.head?.map Item.key) := by
  cases back with
  | nil => rfl
  | cons item rest =>
    simp only [firstId, Links.keyAt, link_ok lists.held]
    rfl

theorem Lists.retain (lists : links.Lists (front ++ item :: back)) :
    ∃ after, links.retain item.id = .ok after ∧ after.Lists (front ++ item.retain :: back) ∧
      ∀ artifacts, links.Accords artifacts → after.Accords artifacts :=
  lists.change (fun _ _ => rfl) rfl

theorem Lists.markSeen (lists : links.Lists (front ++ item :: back)) :
    ∃ after, links.markSeen item.id = .ok after ∧ after.Lists (front ++ item.pass :: back) ∧
      ∀ artifacts, links.Accords artifacts → after.Accords artifacts :=
  lists.change (fun _ _ => rfl) rfl

theorem Lists.reset (lists : links.Lists (front ++ item :: back)) :
    ∃ after, links.reset item.id = .ok after ∧ after.Lists (front ++ item.clearMarks :: back) ∧
      ∀ artifacts, links.Accords artifacts → after.Accords artifacts :=
  lists.change (fun _ _ => rfl) rfl

end Links

namespace LinkWalk

/-- A walk over links stands where a walk through the list does. -/
structure Stands (linked : LinkWalk) (walk : Walk) : Prop where
  lists : linked.links.Lists walk.items
  accords : linked.links.Accords walk.artifacts
  current : linked.current = firstId walk.ahead none

namespace Stands

variable {linked : LinkWalk} {walk : Walk}

theorem length_ahead (stands : linked.Stands walk) :
    walk.ahead.length ≤ linked.links.slots.size := by
  have count := stands.lists.size_eq
  rw [Walk.items, List.length_append] at count
  omega

theorem keyAt (stands : linked.Stands walk) :
    linked.links.keyAt linked.current = .ok walk.before := by
  rw [stands.current]
  exact stands.lists.keyAt

/-- The seeking comes to an end also if no item ahead has the key. -/
theorem skipTo (key : Key) {fuel : Nat} (stands : linked.Stands walk)
    (enough : walk.ahead.length ≤ fuel) :
    ∃ next, LinkWalk.skipTo key fuel linked = .ok next ∧ next.Stands (walk.skipTo key) := by
  obtain ⟨artifacts, behind, ahead⟩ := walk
  obtain ⟨links, current⟩ := linked
  obtain ⟨lists, accords, rfl⟩ := stands
  induction ahead generalizing links behind fuel with
  | nil =>
    refine ⟨⟨links, none⟩, by cases fuel <;> rfl, ?_, accords, rfl⟩
    simpa [Walk.skipTo, Walk.items] using lists
  | cons item rest ih =>
    obtain ⟨fuel, rfl⟩ : ∃ less, fuel = less + 1 :=
      Nat.exists_eq_succ_of_ne_zero (by rw [List.length_cons] at enough; omega)
    have there := Links.link_ok (Links.Lists.held lists)
    by_cases same : item.key = key
    · refine ⟨⟨links, firstId rest none⟩, ?_, ?_, accords, ?_⟩
      · simp only [LinkWalk.skipTo, firstId, there, bind, Except.bind]
        exact if_pos same
      · simpa [Walk.skipTo, Walk.items, same] using lists
      · simp [Walk.skipTo, same]
    · obtain ⟨marked, done, later, kept⟩ := Links.Lists.markSeen lists
      have shifted : marked.Lists ((behind ++ [item.pass]) ++ rest) := by simpa using later
      obtain ⟨next, ended, stands⟩ :=
        ih (behind ++ [item.pass]) (Nat.le_of_succ_le_succ enough) marked shifted (kept _ accords)
      refine ⟨next, ?_, ?_⟩
      · simp only [LinkWalk.skipTo, firstId, there, bind, Except.bind]
        refine (if_neg same).trans ?_
        simp only [done]
        exact ended
      · have skipped : (⟨artifacts, behind ++ [item.pass], rest⟩ : Walk).skipTo key =
            (⟨artifacts, behind, item :: rest⟩ : Walk).skipTo key := by
          simp [Walk.skipTo, same, Item.pass]
        exact skipped ▸ stands

end Stands

end LinkWalk

namespace LinkWalk.Stands

variable {linked : LinkWalk} {walk : Walk} {front back : List Item} {found : Item} {key : Key}

/-- The item that the index knows by a key. -/
theorem known (stands : linked.Stands walk) {id : ItemId}
    (entry : walk.artifacts.get? key = some id) :
    ∃ front found back, walk.items = front ++ found :: back ∧ found.id = id ∧ found.key = key := by
  rw [Artifacts.get?, ← stands.accords.index] at entry
  obtain ⟨face, inside, same, named⟩ :=
    stands.lists.stored.index _ (Entries.mem_of_get? entry)
  obtain ⟨found, member, rfl⟩ := List.mem_map.mp inside
  obtain ⟨front, back, shape⟩ := List.append_of_mem member
  exact ⟨front, found, back, shape, same, named⟩

theorem find_eq (apart : ∀ item ∈ front ++ back, item.id ≠ found.id) :
    (front ++ found :: back).find? (fun item => item.id = found.id) = some found := by
  have before : front.find? (fun item => item.id = found.id) = none :=
    List.find?_eq_none.mpr fun item inside => by
      simpa using apart item (List.mem_append_left _ inside)
  simp [List.find?_append, before]

theorem retainId_append (id : ItemId) (behind ahead : List Item) :
    Walk.retainId id behind ++ Walk.retainId id ahead = Walk.retainId id (behind ++ ahead) :=
  List.map_append.symm

theorem dropId_append (id : ItemId) (behind ahead : List Item) :
    Walk.dropId id behind ++ Walk.dropId id ahead = Walk.dropId id (behind ++ ahead) :=
  (List.filter_append behind ahead).symm

theorem firstId_retainId (id : ItemId) (items : List Item) (after : Option ItemId) :
    firstId (Walk.retainId id items) after = firstId items after := by
  cases items with
  | nil => rfl
  | cons item rest =>
    simp only [Walk.retainId, List.map_cons, firstId]
    split <;> rfl

/-- The item in front of which the walk stands is not the one that moves there. -/
theorem head_kept {ahead : List Item} {id : ItemId} (other : ∀ item ∈ ahead.head?, item.id ≠ id) :
    firstId (Walk.dropId id (Walk.retainId id ahead)) none = firstId ahead none ∧
      (Walk.dropId id (Walk.retainId id ahead)).head?.map Item.key =
        (Walk.retainId id ahead).head?.map Item.key := by
  cases ahead with
  | nil => exact ⟨rfl, rfl⟩
  | cons item rest =>
    have apart : item.id ≠ id := other item rfl
    simp [Walk.retainId, Walk.dropId, firstId, apart]

end LinkWalk.Stands

/-- A retained item comes to stand in front of those ahead. -/
theorem Links.Lists.bringBefore {marked : Links} {behind ahead front back : List Item}
    {found : Item} (lists : marked.Lists (front ++ found.retain :: back))
    (items : Walk.retainId found.id behind ++ Walk.retainId found.id ahead =
      front ++ found.retain :: back)
    (apart : ∀ item ∈ front ++ back, item.id ≠ found.id)
    (other : ∀ item ∈ ahead.head?, item.id ≠ found.id) :
    ∃ moved, marked.moveBefore found.id (firstId ahead none) = .ok moved ∧
      moved.keyAt (firstId ahead none) = .ok ((Walk.retainId found.id ahead).head?.map Item.key) ∧
      moved.Lists (Walk.dropId found.id (Walk.retainId found.id behind) ++
        found.retain :: Walk.dropId found.id (Walk.retainId found.id ahead)) ∧
      ∀ artifacts, marked.Accords artifacts → moved.Accords artifacts := by
  obtain ⟨number, key⟩ := LinkWalk.Stands.head_kept other
  have rest : front ++ back = Walk.dropId found.id (Walk.retainId found.id behind) ++
      Walk.dropId found.id (Walk.retainId found.id ahead) := by
    rw [LinkWalk.Stands.dropId_append, items, Walk.dropId_found apart]
  obtain ⟨moved, done, last, still⟩ := lists.moveBefore rest
  rw [number, show found.retain.id = found.id from rfl] at done
  have split : moved.Lists ((Walk.dropId found.id (Walk.retainId found.id behind) ++
      [found.retain]) ++ Walk.dropId found.id (Walk.retainId found.id ahead)) := by
    simpa using last
  have before := split.keyAt
  rw [number, key] at before
  exact ⟨moved, done, before, last, still⟩

namespace SyncTarget

variable {σ : Type} {target : SyncTarget σ} {linked : LinkWalk} {walk : Walk}

/-- The two walks stand at the same place, and both were refused or neither. -/
def InStep (left : LinkWalk × Option RenderError) (right : Walk × Option RenderError) : Prop :=
  left.1.Stands right.1 ∧ left.2 = right.2

theorem retainLink_answers {current : Item} {rest : List Item} (stands : linked.Stands walk)
    (ahead : walk.ahead = current :: rest) (element : PassItem)
    (same : current.key = element.key) :
    target.Answers InStep (target.retainLink element linked current.id)
      (target.meetOne element walk) := by
  have lists : linked.links.Lists (walk.behind ++ current :: rest) := ahead ▸ stands.lists
  obtain ⟨marked, retained, later, kept⟩ := lists.retain
  unfold retainLink meetOne
  rw [checked_bind (Links.link_ok lists.held), checked_bind retained,
    Walk.meet_current ahead same]
  refine Answers.reading _ .update fun _ => Answers.accept _ fun refusal => ?_
  have unmoved : (if refusal.isSome then Walk.takeBack { walk with
        behind := walk.behind ++ [current.retain], ahead := rest } (.retain current.refs)
      else { walk with behind := walk.behind ++ [current.retain], ahead := rest }) =
      { walk with behind := walk.behind ++ [current.retain], ahead := rest } := by
    split <;> rfl
  rw [unmoved]
  refine Answers.pure ⟨⟨?_, kept _ stands.accords, rfl⟩, rfl⟩
  simpa [Walk.items] using later

theorem insertLink_answers (stands : linked.Stands walk) (element : PassItem)
    (elsewhere : walk.before ≠ some element.key)
    (unknown : walk.artifacts.get? element.key = none) :
    target.Answers InStep (target.insertLink element linked) (target.meetOne element walk) := by
  unfold insertLink meetOne
  rw [Walk.meet_new elsewhere unknown]
  refine Answers.reading _ .create fun refs => ?_
  have lists : linked.links.Lists (walk.behind ++ walk.ahead) := stands.lists
  obtain ⟨id, grown, inserted, later, kept⟩ := lists.insertBefore refs
  obtain ⟨number, accords⟩ := kept _ stands.accords
  rw [← stands.current] at inserted
  have place : grown.keyAt linked.current = .ok walk.before := by
    have shifted : grown.Lists ((walk.behind ++ [⟨id, refs, true, false⟩]) ++ walk.ahead) := by
      simpa using later
    rw [stands.current]
    exact shifted.keyAt
  simp only [checked_bind inserted, checked_bind place]
  refine Answers.accept _ fun refusal => ?_
  cases refusal with
  | none =>
    refine Answers.pure ⟨⟨?_, ?_, stands.current⟩, rfl⟩
    · simpa [Walk.insertHere, Walk.items, number] using later
    · exact accords
  | some error =>
    obtain ⟨taken, removed, lists, released⟩ := later.remove
    simp only [checked_bind removed]
    refine Answers.pure ⟨⟨?_, ?_, ?_⟩, rfl⟩
    · simpa [Walk.takeBack, Walk.insertHere, Walk.items] using lists
    · have back := released _ accords
      simpa [Walk.takeBack, Walk.insertHere, number] using back
    · simpa [Walk.takeBack, Walk.insertHere] using stands.current

theorem moveLink_answers {front back : List Item} {found : Item} (stands : linked.Stands walk)
    (element : PassItem) (elsewhere : walk.before ≠ some element.key)
    (known : walk.artifacts.get? element.key = some found.id)
    (place : walk.items = front ++ found :: back) (named : found.key = element.key) :
    target.Answers InStep (target.moveLink element linked found.id)
      (target.meetOne element walk) := by
  have lists : linked.links.Lists (front ++ found :: back) := place ▸ stands.lists
  have apart := Walk.id_ne_found lists.distinct
  have there : walk.items.find? (fun item => item.id = found.id) = some found :=
    place ▸ LinkWalk.Stands.find_eq apart
  obtain ⟨marked, retained, later, kept⟩ := lists.retain
  have accords := kept _ stands.accords
  have items : Walk.retainId found.id walk.behind ++ Walk.retainId found.id walk.ahead =
      front ++ found.retain :: back := by
    rw [LinkWalk.Stands.retainId_append, ← Walk.retainId_found apart, ← place]
    rfl
  have seen : marked.wasSeen element.key = .ok found.seen := by
    have entry : marked.get? element.key = some found.id := by
      rw [Links.get?, accords.index]
      exact known
    simp only [Links.wasSeen, entry]
    exact congrArg (fun link => link.map Link.seen) (Links.link_ok later.held)
  unfold moveLink meetOne
  rw [checked_bind (Links.link_ok lists.held), checked_bind retained,
    Walk.meet_known elsewhere known there]
  refine Answers.reading _ .update fun _ => ?_
  rw [checked_bind seen, Walk.bringHere]
  split
  · have other : ∀ item ∈ walk.ahead.head?, item.id ≠ found.id := by
      intro item first same
      have inside : item ∈ walk.items :=
        List.mem_append_right _ (List.mem_of_mem_head? first)
      have equal : item = found := List.inj_on_of_nodup_map stands.lists.distinct inside
        (place ▸ List.mem_append_right _ List.mem_cons_self) same
      exact elsewhere (by rw [Walk.before, Option.mem_def.mp first, equal, Option.map_some, named])
    obtain ⟨moved, done, before, last, still⟩ := later.bringBefore items apart other
    rw [stands.current, checked_bind done, checked_bind before]
    refine Answers.accept _ fun refusal => ?_
    simp only [Walk.takeBack, ite_self]
    refine Answers.pure ⟨⟨?_, still _ accords, ?_⟩, rfl⟩
    · simpa [Walk.items] using last
    · exact (LinkWalk.Stands.head_kept other).1.symm
  · have marks : LinkWalk.Stands ⟨marked, linked.current⟩
        { walk with
          behind := Walk.retainId found.id walk.behind
          ahead := Walk.retainId found.id walk.ahead } := by
      refine ⟨?_, accords, ?_⟩
      · rw [Walk.items, items]
        exact later
      · rw [LinkWalk.Stands.firstId_retainId]
        exact stands.current
    obtain ⟨next, ended, stood⟩ := marks.skipTo element.key marks.length_ahead
    rw [checked_bind ended]
    exact Answers.pure ⟨stood, rfl⟩

theorem meetLink_answers (stands : linked.Stands walk) (element : PassItem) :
    target.Answers InStep (target.meetLink element linked) (target.meetOne element walk) := by
  unfold meetLink
  rw [checked_bind stands.keyAt]
  by_cases here : walk.before = some element.key
  · rw [if_pos here]
    obtain ⟨current, rest, ahead, same⟩ :
        ∃ current rest, walk.ahead = current :: rest ∧ current.key = element.key := by
      cases shape : walk.ahead with
      | nil => simp [Walk.before, shape] at here
      | cons current rest => exact ⟨current, rest, rfl, by simpa [Walk.before, shape] using here⟩
    simp only [stands.current, ahead, firstId]
    exact retainLink_answers stands ahead element same
  · rw [if_neg here]
    have index : linked.links.get? element.key = walk.artifacts.get? element.key := by
      rw [Links.get?, stands.accords.index]
      rfl
    rw [index]
    cases entry : walk.artifacts.get? element.key with
    | none => exact insertLink_answers stands element here entry
    | some id =>
      obtain ⟨front, found, back, place, rfl, named⟩ := stands.known entry
      exact moveLink_answers stands element here entry place named

theorem mergeLinks_answers (pass : Pass) (stands : linked.Stands walk) :
    target.Answers InStep (target.mergeLinks pass linked) (target.mergePass pass walk) := by
  induction pass generalizing linked walk with
  | nil => exact Answers.pure ⟨stands, rfl⟩
  | cons element pass ih =>
    rw [mergeLinks, mergePass_cons]
    refine (meetLink_answers stands element).bind ?_
    rintro ⟨next, refusal⟩ ⟨walk, _⟩ ⟨stood, rfl⟩
    cases refusal with
    | none => exact ih stood
    | some error => exact Answers.pure ⟨stood, rfl⟩

/-- The links show the items of the walk, and both were refused or neither. -/
def Ended (left : Links × Option RenderError) (right : Walk × Option RenderError) : Prop :=
  left.1.Lists right.1.items ∧ left.1.Accords right.1.artifacts ∧ left.2 = right.2

/-- The induction is on the items that are still ahead; each takes one step. -/
theorem pruneLinks_answers {links : Links} {rest : List Item} {fuel : Nat}
    (lists : links.Lists (walk.behind ++ rest)) (accords : links.Accords walk.artifacts)
    (enough : rest.length ≤ fuel) :
    target.Answers Ended (target.pruneLinks fuel ⟨links, firstId rest none⟩)
      (target.prune rest walk) := by
  induction rest generalizing links walk fuel with
  | nil =>
    have ended : target.pruneLinks fuel ⟨links, none⟩ = pure (links, none) := by
      cases fuel <;> rfl
    rw [firstId, ended]
    exact Answers.pure ⟨lists, accords, rfl⟩
  | cons item rest ih =>
    obtain ⟨fuel, rfl⟩ : ∃ less, fuel = less + 1 :=
      Nat.exists_eq_succ_of_ne_zero (by rw [List.length_cons] at enough; omega)
    have less : rest.length ≤ fuel := Nat.le_of_succ_le_succ enough
    rw [firstId, pruneLinks, prune, checked_bind (Links.link_ok lists.held)]
    by_cases met : item.retained = true
    · obtain ⟨cleared, done, later, kept⟩ := lists.reset
      rw [if_pos met, if_pos (show (item.link _ _).retained = true from met), checked_bind done]
      exact ih (by simpa using later) (kept _ accords) less
    · obtain ⟨taken, removed, later, kept⟩ := lists.remove
      rw [if_neg met, if_neg (show ¬(item.link _ _).retained = true from met),
        checked_bind removed]
      refine Answers.accept _ fun refusal => ?_
      cases refusal with
      | none => exact ih later (kept _ accords) less
      | some error => exact Answers.pure ⟨later, kept _ accords, rfl⟩

end SyncTarget

namespace Links

/-- The links show the items of a list, with the same numbers and the same index. -/
structure Shows (links : Links) (artifacts : Artifacts) : Prop where
  lists : links.Lists artifacts.items
  accords : links.Accords artifacts

theorem Shows.clearMarks {links : Links} {walk : Walk} (lists : links.Lists walk.items)
    (accords : links.Accords walk.artifacts) : links.clearMarks.Shows walk.abandon :=
  ⟨lists.clearMarks, accords.clearMarks.index, accords.clearMarks.size, accords.clearMarks.free⟩

end Links

namespace SyncTarget

variable {σ : Type} {target : SyncTarget σ} {links : Links} {artifacts : Artifacts}

/-- Both are left with the same items, and were refused alike. -/
def Synced (left : Links × Option RenderError) (right : Artifacts × Option RenderError) : Prop :=
  left.1.Shows right.1 ∧ left.2 = right.2

/-- Synchronising links is synchronising the list that they show. -/
theorem syncLinks_answers (shown : links.Shows artifacts) (pass : Pass) :
    target.Answers Synced (target.syncLinks pass links) (target.walkThrough pass artifacts) := by
  have start : LinkWalk.Stands ⟨links, links.head⟩ (.ofArtifacts artifacts) :=
    ⟨shown.lists, shown.accords, shown.lists.chain.head⟩
  refine (mergeLinks_answers pass start).bind ?_
  rintro ⟨linked, refusal⟩ ⟨walk, _⟩ ⟨stood, rfl⟩
  dsimp only
  split
  · exact Answers.pure ⟨.clearMarks stood.lists stood.accords, rfl⟩
  · have lists : linked.links.Lists (walk.rewind.behind ++ walk.items) := stood.lists
    have head : linked.links.head = firstId walk.items none := stood.lists.chain.head
    have enough : walk.items.length ≤ linked.links.slots.size := by
      have count : walk.items.length + linked.links.free.length = linked.links.slots.size :=
        stood.lists.size_eq
      omega
    rw [head]
    refine (pruneLinks_answers lists stood.accords enough).bind ?_
    rintro ⟨links, refusal⟩ ⟨walk, _⟩ ⟨lists, accords, rfl⟩
    dsimp only
    split
    · exact Answers.pure ⟨.clearMarks lists accords, rfl⟩
    · refine Answers.accept _ fun refusal => Answers.pure ⟨?_, rfl⟩
      split
      · exact .clearMarks lists accords
      · exact ⟨lists, accords.index, accords.size, accords.free⟩

end SyncTarget

namespace Links

/-- What happens to linked items over time: operations on living items, and synchronisations that
the targets let run to their end or refused, with passes of any keys. -/
inductive History : Links → Prop
  | empty : History {}
  | append {links next : Links} {refs : ItemRefs} (history : History links)
      (done : links.append refs = .ok next) : History next
  | insertBefore {links next : Links} {refs : ItemRefs} {id : ItemId} {place : Option ItemId}
      (history : History links) (there : ∀ other ∈ place, links.Live other)
      (done : links.insertBefore refs place = .ok (id, next)) : History next
  | moveBefore {links next : Links} {id : ItemId} {place : Option ItemId}
      (history : History links) (live : links.Live id) (there : ∀ other ∈ place, links.Live other)
      (done : links.moveBefore id place = .ok next) : History next
  | remove {links next : Links} {id : ItemId} (history : History links) (live : links.Live id)
      (done : links.remove id = .ok next) : History next
  | update {links next : Links} {id : ItemId} (history : History links) (live : links.Live id)
      (done : links.retain id = .ok next) : History next
  | sync {links next : Links} {σ : Type} {target : SyncTarget σ} {pass : Pass}
      {before after : σ} {refusal : Option RenderError} (history : History links)
      (done : target.syncLinks pass links before = .ok (next, refusal) after) : History next

/-- The operations on living items end well. -/
structure Operable (links : Links) : Prop where
  append : ∀ refs, ∃ next, links.append refs = .ok next
  insertBefore : ∀ refs place, (∀ other ∈ place, links.Live other) →
    ∃ id next, links.insertBefore refs place = .ok (id, next)
  moveBefore : ∀ id place, links.Live id → (∀ other ∈ place, links.Live other) →
    ∃ next, links.moveBefore id place = .ok next
  remove : ∀ id, links.Live id → ∃ next, links.remove id = .ok next
  update : ∀ id, links.Live id → ∃ next, links.retain id = .ok next

variable {links : Links} {items : List Item} {id : ItemId} {place : Option ItemId}

/-- A place is the end of the list or in front of an item. -/
theorem Lists.split_at {ids : List Item} (there : ∀ other ∈ place, other ∈ ids.map Item.id) :
    ∃ front back, ids = front ++ back ∧ place = firstId back none := by
  cases place with
  | none => exact ⟨ids, [], (List.append_nil ids).symm, rfl⟩
  | some other =>
    obtain ⟨item, inside, same⟩ := List.mem_map.mp (there other rfl)
    obtain ⟨front, back, shape⟩ := List.append_of_mem inside
    exact ⟨front, item :: back, shape, congrArg some same.symm⟩

theorem Lists.appends (lists : links.Lists items) (refs : ItemRefs) :
    ∃ next, links.append refs = .ok next ∧ ∃ others, next.Lists others := by
  obtain ⟨id, next, done, later, -⟩ := lists.append refs
  exact ⟨next, done, _, later⟩

theorem Lists.inserts (lists : links.Lists items) (refs : ItemRefs)
    (there : ∀ other ∈ place, links.Live other) :
    ∃ id next, links.insertBefore refs place = .ok (id, next) ∧ ∃ others, next.Lists others := by
  obtain ⟨front, back, rfl, rfl⟩ :=
    Lists.split_at fun other inside => lists.live.mp (there other inside)
  obtain ⟨id, next, done, later, -⟩ := lists.insertBefore refs
  exact ⟨id, next, done, _, later⟩

/-- An item that is to stand in front of itself stays where it is. -/
theorem Lists.moves (lists : links.Lists items) (live : links.Live id)
    (there : ∀ other ∈ place, links.Live other) :
    ∃ next, links.moveBefore id place = .ok next ∧ ∃ others, next.Lists others := by
  by_cases still : some id = place
  · exact ⟨links, by rw [Links.moveBefore, if_pos still]; rfl, items, lists⟩
  · obtain ⟨front, item, back, rfl, rfl⟩ := lists.split live
    have around : ∀ other ∈ place, other ∈ (front ++ back).map Item.id := by
      intro other inside
      have known := lists.live.mp (there other inside)
      have apart : other ≠ item.id := fun same => still (same ▸ inside.symm)
      simpa [apart] using known
    obtain ⟨left, right, rest, rfl⟩ := Lists.split_at around
    obtain ⟨next, done, later, -⟩ := lists.moveBefore rest
    exact ⟨next, done, _, later⟩

theorem Lists.removes (lists : links.Lists items) (live : links.Live id) :
    ∃ next, links.remove id = .ok next ∧ ∃ others, next.Lists others := by
  obtain ⟨front, item, back, rfl, rfl⟩ := lists.split live
  obtain ⟨next, done, later, -⟩ := lists.remove
  exact ⟨next, done, _, later⟩

theorem Lists.updates (lists : links.Lists items) (live : links.Live id) :
    ∃ next, links.retain id = .ok next ∧ ∃ others, next.Lists others := by
  obtain ⟨front, item, back, rfl, rfl⟩ := lists.split live
  obtain ⟨next, done, later, -⟩ := lists.retain
  exact ⟨next, done, _, later⟩

theorem Lists.operable (lists : links.Lists items) : links.Operable where
  append := fun refs => (lists.appends refs).imp fun _ => And.left
  insertBefore := fun refs _ there =>
    (lists.inserts refs there).imp fun _ => Exists.imp fun _ => And.left
  moveBefore := fun _ _ live there => (lists.moves live there).imp fun _ => And.left
  remove := fun _ live => (lists.removes live).imp fun _ => And.left
  update := fun _ live => (lists.updates live).imp fun _ => And.left

/-- The list that links show, as artifacts. -/
theorem Lists.shows (lists : links.Lists items) :
    links.Shows { items, index := links.index, slots := links.slots.size, free := links.free } :=
  ⟨lists, rfl, rfl, rfl⟩

theorem History.lists (history : links.History) : ∃ items, links.Lists items := by
  induction history with
  | empty => exact ⟨[], .empty⟩
  | append history done ih =>
    obtain ⟨items, lists⟩ := ih
    obtain ⟨next, same, later⟩ := lists.appends _
    cases same.symm.trans done
    exact later
  | insertBefore history there done ih =>
    obtain ⟨items, lists⟩ := ih
    obtain ⟨id, next, same, later⟩ := lists.inserts _ there
    cases same.symm.trans done
    exact later
  | moveBefore history live there done ih =>
    obtain ⟨items, lists⟩ := ih
    obtain ⟨next, same, later⟩ := lists.moves live there
    cases same.symm.trans done
    exact later
  | remove history live done ih =>
    obtain ⟨items, lists⟩ := ih
    obtain ⟨next, same, later⟩ := lists.removes live
    cases same.symm.trans done
    exact later
  | update history live done ih =>
    obtain ⟨items, lists⟩ := ih
    obtain ⟨next, same, later⟩ := lists.updates live
    cases same.symm.trans done
    exact later
  | @sync links next σ target pass before after refusal history done ih =>
    obtain ⟨items, lists⟩ := ih
    have ended := target.syncLinks_answers lists.shows pass before
    rw [done] at ended
    obtain ⟨⟨artifacts, _⟩, ⟨shown, -⟩, -⟩ := ended
    exact ⟨artifacts.items, shown.lists⟩

/-- Whatever keys the items and the passes have, the links stay whole, operations on living items
succeed, and a synchronisation ends: as it does with the list of the same items, or in a fault of
the target. -/
theorem stay_whole (history : links.History) :
    links.WellFormed ∧ links.Operable ∧
      ∃ artifacts, links.Shows artifacts ∧
        ∀ {σ : Type} (target : SyncTarget σ) (pass : Pass) (before : σ),
          (∃ next refusal after synced,
            target.syncLinks pass links before = .ok (next, refusal) after ∧
              next.WellFormed ∧ next.Shows synced ∧
                (target.Natural →
                  target.walkThrough pass artifacts before = .ok (synced, refusal) after)) ∨
          ∃ fault after,
            target.syncLinks pass links before = .error fault after ∧ target.Raises fault ∧
              (target.Natural → target.walkThrough pass artifacts before = .error fault after) := by
  obtain ⟨items, lists⟩ := history.lists
  refine ⟨lists.wellFormed, lists.operable, _, lists.shows, fun target pass before => ?_⟩
  have ended := target.syncLinks_answers lists.shows pass before
  cases outcome : target.syncLinks pass links before with
  | ok result after =>
    rw [outcome] at ended
    obtain ⟨⟨synced, _⟩, ⟨shown, rfl⟩, same⟩ := ended
    exact .inl ⟨result.1, result.2, after, synced, rfl, shown.lists.wellFormed, shown, same⟩
  | error fault after =>
    rw [outcome] at ended
    exact .inr ⟨fault, after, rfl, ended⟩

/-- Three items, two of which have one key; the index knows the newer one. -/
def twins : Links where
  slots := #[some ⟨⟨.text "1", 0, 1⟩, false, false, none, some 1⟩,
    some ⟨⟨.text "1", 2, 3⟩, false, false, some 0, some 2⟩,
    some ⟨⟨.text "2", 4, 5⟩, false, false, some 1, none⟩]
  index := [(.text "1", 1), (.text "2", 2)]
  head := some 0
  tail := some 2

theorem twins_history : twins.History := by
  have first := @History.append _ _ ⟨.text "1", 0, 1⟩ .empty rfl
  have second := @History.append _ _ ⟨.text "1", 2, 3⟩ first rfl
  exact @History.append _ _ ⟨.text "2", 4, 5⟩ second rfl

/-- The twins on a list of keys, with their cells. -/
def twinState : KeyedStore where
  store := { cells := #[⟨.text "1", 1⟩, ⟨.int 0, 1⟩, ⟨.text "1", 1⟩, ⟨.int 1, 1⟩,
    ⟨.text "2", 1⟩, ⟨.int 2, 1⟩] }
  keys := [.text "1", .text "1", .text "2"]

/-- The second key, and then three times the first. -/
def twinPass : Pass :=
  [⟨.text "2", .text "2", .int 0⟩, ⟨.text "1", .text "1", .int 1⟩, ⟨.text "1", .text "1", .int 2⟩,
    ⟨.text "1", .text "1", .int 3⟩]

/-- The ends and the free numbers after a synchronisation that nothing refused. -/
def outcomeOf {σ : Type} : EStateM.Result Fault σ (Links × Option RenderError) →
    Option (Option ItemId × Option ItemId × List ItemId)
  | .ok (next, none) _ => some (next.head, next.tail, next.free)
  | _ => none

/-- The older twin goes, and its number is free. -/
theorem stay_whole_twins :
    twins.WellFormed ∧ ∃ next synced after,
      KeyedStore.target.syncLinks twinPass twins twinState = .ok (next, none) after ∧
        next.WellFormed ∧ next.head = some 2 ∧ next.tail = some 1 ∧ next.free = [0] ∧
          next.Shows synced := by
  obtain ⟨whole, -, artifacts, -, ends⟩ := stay_whole twins_history
  have left : outcomeOf (KeyedStore.target.syncLinks twinPass twins twinState) =
      some (some 2, some 1, [0]) := by decide +kernel
  rcases ends KeyedStore.target twinPass twinState with
    ⟨next, refusal, after, synced, done, sound, shown, -⟩ | ⟨fault, after, failed, -⟩
  · rw [done] at left
    cases refusal with
    | some error => cases left
    | none =>
      simp only [outcomeOf, Option.some.injEq, Prod.mk.injEq] at left
      exact ⟨whole, next, synced, after, done, sound, left.1, left.2.1, left.2.2, shown⟩
  · rw [failed] at left
    cases left

end Links

/-! The targets that there are -/

/-- A computation over a part of the state is carried over without a look at its result. -/
theorem map_of_part {ε σ τ : Type} (part : σ → τ) (put : σ → τ → σ)
    (whole : {α : Type} → EStateM ε τ α → EStateM ε σ α)
    (ok : ∀ {α : Type} {action : EStateM ε τ α} {state : σ} {value : α} {after : τ},
      action (part state) = .ok value after → whole action state = .ok value (put state after))
    (error : ∀ {α : Type} {action : EStateM ε τ α} {state : σ} {fault : ε} {after : τ},
      action (part state) = .error fault after →
        whole action state = .error fault (put state after))
    {α β : Type} (change : α → β) (action : EStateM ε τ α) :
    whole (change <$> action) = change <$> whole action := by
  funext state
  simp only [map_eq_pure_bind]
  cases outcome : action (part state) with
  | ok value after =>
    have inside : (action >>= fun value => pure (change value)) (part state) =
        .ok (change value) after := Effects.bind_of_ok outcome
    have outside : (whole action >>= fun value => pure (change value)) state =
        .ok (change value) (put state after) := Effects.bind_of_ok (ok outcome)
    exact (ok inside).trans outside.symm
  | error fault after =>
    exact (error (Effects.bind_of_error outcome)).trans (Effects.bind_of_error (error outcome)).symm

/-- The list of keys has the store as a part of its state. -/
theorem KeyedStore.target_natural : KeyedStore.target.Natural :=
  map_of_part KeyedStore.store (fun state store => { state with store }) KeyedStore.onStore
    (fun done => by simp only [KeyedStore.onStore, done])
    (fun failed => by simp only [KeyedStore.onStore, failed])

/-- So has the page, three levels down. -/
theorem ListRegion.target_natural (scene : Scene) (list : ListRegion) (anchor : Option NodeId) :
    (list.target scene anchor).Natural :=
  map_of_part (fun state => state.world.page.store)
    (fun state store =>
      { state with world := { state.world with page := { state.world.page with store } } })
    (fun reading => Syncing.onWorld (Render.onPage (Page.reading reading)))
    (fun done => by simp only [Syncing.onWorld, Render.onPage, Page.reading, done])
    (fun failed => by simp only [Syncing.onWorld, Render.onPage, Page.reading, failed])

end LiveTemplate
