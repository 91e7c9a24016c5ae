import Mathlib.Data.List.Dedup
import LiveTemplate.Proofs.Meaning.Lists
import LiveTemplate.Proofs.Reactive.Cells
import LiveTemplate.Proofs.Value.Identity
import LiveTemplate.Render.Output

/-!
The regions of a list. Each turn of a loop leaves one region for its element, in place of an earlier
one with the same key. So when the loop has come to its end, there is one region for each key, in the
order in which the keys came last. An `each` that names no key tells its elements apart by what they
are, and then there is one region for each element, unless two elements that differ have one key.
-/

namespace LiveTemplate

open Effects

theorem dedup_concat {α : Type} [DecidableEq α] (items : List α) (last : α) :
    (items ++ [last]).dedup = items.dedup.filter (· ≠ last) ++ [last] := by
  induction items with
  | nil => simp
  | cons item items ih =>
    by_cases among : item ∈ items ++ [last]
    · rw [List.cons_append, List.dedup_cons_of_mem among, ih]
      rcases List.mem_append.mp among with among | same
      · rw [List.dedup_cons_of_mem among]
      · obtain rfl := List.mem_singleton.mp same
        by_cases among : item ∈ items
        · rw [List.dedup_cons_of_mem among]
        · rw [List.dedup_cons_of_notMem among]
          simp
    · have absent : item ∉ items := fun member => among (List.mem_append_left _ member)
      have other : item ≠ last := by
        rintro rfl
        exact among (by simp)
      rw [List.cons_append, List.dedup_cons_of_notMem among, ih, List.dedup_cons_of_notMem absent]
      simp [other]

/-- The keys of the items, in their order. -/
def ListRegion.keys (list : ListRegion) : List Key := list.items.map Prod.fst

namespace Running

variable {scene : Scene} {machine last : Machine} {slice : Slice} {outer : List Course}
  {iterator : Option FirstPass} {builders : List Builder} {openings : List Builder}
  {item : Option Handle} {start leave : Nat}

/-- A block that is shown leaves the regions open that were open. -/
theorem branch_comes (built : scene.program.Built)
    (branch : scene.program.program.Branch item start leave) (inside : leave < slice.stop)
    (here : machine.At (⟨start, slice, iterator⟩ :: outer) openings)
    (ends : Ends scene machine last) :
    ∃ later, Passes scene machine last later ∧
      later.At (⟨leave, slice, iterator⟩ :: outer) openings := by
  let goal (later : Machine) : Prop := later.At (⟨leave, slice, iterator⟩ :: outer) openings
  have progressive : Progressive scene (Comes scene goal) := comes_progressive goal
  have finish : HoldsAt (Comes scene goal) (⟨leave, slice, iterator⟩ :: outer) openings :=
    comes_here fun _ reached => reached
  suffices starts : HoldsAt (Comes scene goal) (⟨start, slice, iterator⟩ :: outer) openings from
    starts machine here last ends
  cases item with
  | none =>
    obtain rfl : start = leave := branch
    exact finish
  | some handle =>
    obtain ⟨bound, evaluates, goesOn⟩ := branch
    refine (room progressive built outer).starts progressive (.inl rfl) (by omega) evaluates ?_
    rcases goesOn with rfl | jump
    · exact finish
    · exact jump_holds progressive (by omega) jump finish

/-- The head of a loop takes the next element, or leaves the loop. -/
theorem element_taken (loop : scene.program.program.Loop item start leave)
    (inside : start + 1 < slice.stop) {walk : FirstPass} {pass : Pass} {between : Store}
    (here : machine.courses = ⟨start + 1, slice, some walk⟩ :: outer)
    (takes : walk.pass scene.helpers machine.store = .ok pass between)
    (ends : Ends scene machine last) :
    ∃ later frame frames, Passes scene machine last later ∧ later.frames = frame :: frames ∧
      frames.map Frame.course = outer ∧ later.builders = machine.builders ∧
      (pass = [] ∧ frame.course = ⟨leave + 2, slice, some { walk with rest := some [] }⟩ ∨
        ∃ element rest, pass = element :: rest ∧ frame.key = some element.key ∧
          frame.course = ⟨start + 2, slice, some { walk with rest := some rest }⟩) := by
  obtain ⟨frame, frames, running, same, rfl⟩ := List.map_eq_cons_iff.mp here
  have next : frame.next = start + 1 := congrArg Course.next same
  have within : frame.slice = slice := congrArg Course.slice same
  have iterates : (frame.go (frame.next + 1)).iterator = some walk := congrArg Course.iterator same
  subst within
  obtain ⟨stats, taken, stepped, asks⟩ :=
    ends.carry running (by omega) (by rw [next]; exact loop.next)
  obtain ⟨given, store, took, ended⟩ := nextIter_ok rfl iterates stepped
  cases takes.symm.trans took
  rcases ended with ⟨rfl, rfl⟩ | ⟨element, rest, refs, store, rfl, met, rfl⟩
  · exact ⟨_, _, frames, asks, rfl, rfl, rfl, .inl ⟨rfl, rfl⟩⟩
  · refine ⟨_, _, frames, asks, rfl, rfl, rfl, .inr ⟨element, rest, rfl, ?_, ?_⟩⟩
    · exact congrArg some (KeyedList.meet_key met)
    · exact congrArg (fun next => (⟨next + 1, frame.slice,
        some { walk with rest := some rest }⟩ : Course)) next

/-- A region with the key of an element begins. -/
theorem element_begins (loop : scene.program.program.Loop item start leave)
    (inside : start + 2 < slice.stop) {frame : Frame} {frames : List Frame} {key : Key}
    (running : machine.frames = frame :: frames)
    (here : frame.course = ⟨start + 2, slice, iterator⟩) (waiting : frame.key = some key)
    (ends : Ends scene machine last) :
    ∃ later region captured extent, Passes scene machine last later ∧
      later.courses = ⟨start + 3, slice, iterator⟩ :: frames.map Frame.course ∧
      later.builders = .region region captured extent (some key) {} :: machine.builders := by
  have next : frame.next = start + 2 := congrArg Course.next here
  obtain ⟨rfl, rfl⟩ : slice = frame.slice ∧ iterator = frame.iterator :=
    ⟨(congrArg Course.slice here).symm, (congrArg Course.iterator here).symm⟩
  obtain ⟨handle, enter⟩ := loop.enter
  obtain ⟨stats, begun, stepped, begins⟩ :=
    ends.carry running (by omega) (by rw [next]; exact enter)
  obtain ⟨region, _, looked, stepped⟩ := bind_ok.mp stepped
  obtain ⟨-, rfl⟩ := lookUp_ok.mp looked
  have waiting : (frame.go (frame.next + 1)).key = some key := waiting
  obtain ⟨same, captured, extent, builders⟩ := enter_opens (enterWithKey_ok stepped rfl waiting)
  have moved := congrArg (fun next => (⟨next + 1, frame.slice, frame.iterator⟩ : Course) ::
    frames.map Frame.course) next
  exact ⟨begun, region, captured, extent, begins,
    (congrArg (List.map Frame.course) same).trans moved, builders⟩

/-- One turn of a loop leaves a region with the key of the element at the end of the list. -/
theorem loop_turns (built : scene.program.Built)
    (loop : scene.program.program.Loop item start leave) (inside : leave + 2 < slice.stop)
    {walk : FirstPass} {list : ListRegion} {element : PassItem} {rest : Pass} {between : Store}
    (here : machine.courses = ⟨start + 1, slice, some walk⟩ :: outer)
    (listing : machine.builders = .list list :: builders)
    (takes : walk.pass scene.helpers machine.store = .ok (element :: rest) between)
    (ends : Ends scene machine last) :
    ∃ later fresh, Passes scene machine last later ∧
      later.courses = ⟨start + 1, slice, some { walk with rest := some rest }⟩ :: outer ∧
      later.builders = .list fresh :: builders ∧
      fresh.keys = list.keys.filter (· ≠ element.key) ++ [element.key] := by
  have ordered := loop.body.le
  obtain ⟨taken, frame, frames, asks, running, rfl, same, goes⟩ :=
    element_taken loop (by omega) here takes ends
  rcases goes with ⟨impossible, -⟩ | ⟨element, rest, equal, waiting, here⟩
  · cases impossible
  cases equal
  obtain ⟨begun, region, captured, extent, begins, here, opened⟩ :=
    element_begins loop (by omega) running here waiting asks.ends
  rw [same, listing] at opened
  obtain ⟨shown, shows, here⟩ := branch_comes built loop.body (by omega)
    ⟨here, congrArg (List.modifyHead Builder.bare) opened⟩ begins.ends
  obtain ⟨content, whole⟩ := openings_region here.openings
  obtain ⟨before, left, here, same, -, stepped, leaves⟩ :=
    shows.ends.carryAt here.courses (by omega) loop.exit
  obtain ⟨frames, added⟩ := exitItem_closes (same.trans whole) stepped
  have here := (congrArg (List.map Frame.course) frames).trans here
  obtain ⟨before, again, here, same, -, stepped, jumps⟩ :=
    leaves.ends.carryAt here (by omega) loop.again
  have opened : before.openings = .list _ :: builders :=
    congrArg (List.modifyHead Builder.bare) (same.trans added)
  have jumped := goto_at stepped ⟨here, opened⟩
  refine ⟨again, _, asks.trans <| begins.trans (shows.trans (leaves.trans jumps)), jumped.courses,
    openings_list jumped.openings, ?_⟩
  simp only [ListRegion.keys, List.map_append, List.map_singleton, List.filter_map]
  rfl

/-- The turns of a loop leave a region for each key, in the order in which the keys come last. -/
theorem loop_ends (built : scene.program.Built)
    (loop : scene.program.program.Loop item start leave) (inside : leave + 2 < slice.stop)
    {pass : Pass} :
    ∀ {machine : Machine} {walk : FirstPass} {list : ListRegion} {met : List Key} {between : Store},
      machine.courses = ⟨start + 1, slice, some walk⟩ :: outer →
      machine.builders = .list list :: builders → list.keys = met.dedup →
      walk.pass scene.helpers machine.store = .ok pass between → Ends scene machine last →
      ∃ later iterator fresh, Passes scene machine last later ∧
        later.courses = ⟨leave + 2, slice, iterator⟩ :: outer ∧
        later.builders = .list fresh :: builders ∧
        fresh.keys = (met ++ pass.map PassItem.key).dedup := by
  have ordered := loop.body.le
  induction pass with
  | nil =>
    intro machine walk list met between here listing keys takes ends
    obtain ⟨later, frame, frames, asks, running, rfl, same, goes⟩ :=
      element_taken loop (by omega) here takes ends
    rcases goes with ⟨-, here⟩ | ⟨element, rest, impossible, -⟩
    · have moved : later.courses = frame.course :: frames.map Frame.course := by
        rw [Machine.courses, running, List.map_cons]
      rw [here] at moved
      exact ⟨later, _, list, asks, moved, same.trans listing, by simp [keys]⟩
    · cases impossible
  | cons element rest ih =>
    intro machine walk list met between here listing keys takes ends
    obtain ⟨turned, fresh, turns, here, listing, added⟩ :=
      loop_turns built loop inside here listing takes ends
    rw [keys, ← dedup_concat] at added
    obtain ⟨later, iterator, shown, follows, here, listing, keys⟩ :=
      ih here listing added rfl turns.ends
    rw [List.append_assoc] at keys
    exact ⟨later, iterator, shown, turns.trans follows, here, listing, keys⟩

/-- A list is recorded with one region for each key. -/
theorem list_recorded (built : scene.program.Built)
    (loop : scene.program.program.Loop item start leave) (inside : leave + 2 < slice.stop)
    {keyed : KeyedList} {pass : Pass} {between : Store}
    (here : machine.courses = ⟨start, slice, some ⟨keyed, none⟩⟩ :: outer)
    (takes : keyed.takePass scene.helpers machine.store = .ok pass between)
    (ends : Ends scene machine last) :
    ∃ later iterator list, Passes scene machine last later ∧
      later.courses = ⟨leave + 3, slice, iterator⟩ :: outer ∧
      later.builders =
        machine.builders.modifyHead (Builder.alter (Content.recording [.list list])) ∧
      list.keys = (pass.map PassItem.key).dedup := by
  have ordered := loop.body.le
  obtain ⟨handle, enterList⟩ := loop.enterList
  obtain ⟨before, begun, here, same, stored, stepped, begins⟩ :=
    ends.carryAt here (by omega) enterList
  obtain ⟨itemSlice, _, looked, stepped⟩ := bind_ok.mp stepped
  obtain ⟨-, rfl⟩ := lookUp_ok.mp looked
  obtain ⟨frames, store, list, none, opened⟩ := enterList_opens stepped
  have takes : FirstPass.pass scene.helpers ⟨keyed, Option.none⟩ begun.store = .ok pass between := by
    rw [store, stored]
    exact takes
  have empty : list.keys = ([] : List Key).dedup := by
    rw [ListRegion.keys, none]
    rfl
  obtain ⟨turned, iterator, shown, turns, here, listing, keys⟩ := loop_ends built loop inside
    ((congrArg (List.map Frame.course) frames).trans here) opened empty takes begins.ends
  obtain ⟨before, later, here, same', -, stepped, closes⟩ :=
    turns.ends.carryAt here inside loop.exitList
  obtain ⟨frames, recorded⟩ := exitList_closes (same'.trans listing) stepped
  rw [same] at recorded
  exact ⟨later, iterator, shown, begins.trans (turns.trans closes),
    (congrArg (List.map Frame.course) frames).trans here, recorded, keys⟩

/-- A list is recorded with one region for each key, and the code goes on behind the block that would
stand in for elements. -/
theorem list_left (built : scene.program.Built)
    (loop : scene.program.program.Loop item start leave) {after : Nat} (bound : leave + 3 ≤ after)
    (goesOn : leave + 3 = after ∨
      scene.program.program.instructions[leave + 3]? = some { op := .jump, first := after })
    (inside : after ≤ slice.stop) {keyed : KeyedList} {pass : Pass} {between : Store}
    (here : machine.courses = ⟨start, slice, some ⟨keyed, none⟩⟩ :: outer)
    (takes : keyed.takePass scene.helpers machine.store = .ok pass between)
    (ends : Ends scene machine last) :
    ∃ later iterator list, Passes scene machine last later ∧
      later.courses = ⟨after, slice, iterator⟩ :: outer ∧
      later.builders =
        machine.builders.modifyHead (Builder.alter (Content.recording [.list list])) ∧
      list.keys = (pass.map PassItem.key).dedup := by
  have shorter : leave + 2 < slice.stop := by omega
  obtain ⟨shown, iterator, list, shows, here, recorded, keys⟩ :=
    list_recorded built loop shorter here takes ends
  rcases Nat.eq_or_lt_of_le bound with rfl | short
  · exact ⟨shown, iterator, list, shows, here, recorded, keys⟩
  · obtain ⟨before, later, here, same, -, stepped, jumps⟩ := shows.ends.carryAt here
      (by omega) (goesOn.resolve_left (by omega))
    exact ⟨later, iterator, list, shows.trans jumps, (goto_at stepped ⟨here, rfl⟩).courses,
      (goto_builders stepped).trans (same.trans recorded), keys⟩

end Running

/-! The elements of an `each` -/

/-- Where the code of an `each` begins to go through its elements, and where it ends. -/
structure Program.Each (program : Program) (item empty : Option Handle) (start leave : Nat) :
    Prop where
  iterates : program.instructions[start]? = some { op := .putIterator }
  walk : program.Walk item empty (start + 1) leave

/-- The code that an `each` compiles to. -/
theorem Code.each_stands {setting : Setting} {place : Place} (fits : place.Fits setting)
    {params : List Expression} {named : Named} {item empty : Option Handle} {before after : Draft}
    (ended : each place params named item empty before = .ok () after) :
    ∃ start leave, before.program.length < start ∧ after.program.length = leave + 1 ∧
      after.program.Region before.program.length leave ∧
      after.program.Each item empty start leave := by
  have keeps : ∀ inside asked, arguments place .putArgs params named inside = .ok () asked →
      asked.scopes = inside.scopes := by
    intro inside asked given
    obtain ⟨⟨code, written⟩, -⟩ := arguments_writes fits (.inr rfl) params named _ _ given
    exact written.scopes
  obtain ⟨source, inside, asked, put, leave, -, start, given, iterates, grows, length, region, walk⟩ :=
    each_ok keeps ended
  obtain ⟨⟨code, written⟩, -⟩ := arguments_writes fits (.inr rfl) params named _ _ given
  obtain ⟨-, -, next, -, -, here⟩ := Writing.emit_ok iterates
  rw [next] at walk
  have longer := written.grows.length
  exact ⟨_, leave, by omega, length, region, grows.program _ _ here (by decide), walk⟩

/-- Asked whether there are elements and then for them, the store gives this pass. -/
def Iterable.Gives (helpers : Helpers) (iterable : Iterable) (pass : Pass) (store : Store) : Prop :=
  ∃ keyed begun asked taken, KeyedList.ofIterable iterable store = .ok keyed begun ∧
    keyed.presence.sample helpers begun = .ok (.bool !pass.isEmpty) asked ∧
    keyed.takePass helpers asked = .ok pass taken

/-- A source that can be read without a change to the store gives the pass over its value. -/
theorem Iterable.gives_of_still {helpers : Helpers} {iterable : Iterable} {value : Value}
    {pass : Pass} {store : Store}
    (tags : ∀ lists, ∃ tag,
      iterable.source.tag helpers { store with lists } = .ok tag { store with lists })
    (reads : ∀ lists,
      iterable.source.read helpers { store with lists } = .ok value { store with lists })
    (passes : Pass.ofValue iterable.keyFor value = .ok pass) :
    iterable.Gives helpers pass store := by
  let keyed : KeyedList := ⟨store.lists.size, iterable⟩
  let begun : Store := { store with lists := store.lists.push {} }
  let asked : Store :=
    { store with lists := begun.lists.setIfInBounds keyed.list { pending := some pass } }
  have fresh : Reading.artifacts keyed.list begun = .ok {} begun :=
    Reading.artifacts_ok.mpr ⟨Array.getElem?_push_size, rfl⟩
  have begins : Reference.beginPass keyed.list iterable.keyFor value begun =
      .ok (!pass.isEmpty) asked := by
    unfold Reference.beginPass
    rw [passes]
    exact (bind_of_ok rfl).trans ((bind_of_ok fresh).trans rfl)
  have present : keyed.presence.read helpers begun = .ok (.bool !pass.isEmpty) asked := by
    rw [KeyedList.presence, Reference.read]
    exact (bind_of_ok (reads begun.lists)).trans ((bind_of_ok begins).trans rfl)
  obtain ⟨early, before⟩ := tags begun.lists
  obtain ⟨late, after⟩ := tags asked.lists
  have made : Cache.ofReference helpers keyed.presence begun =
      .ok ⟨keyed.presence, .bool !pass.isEmpty, begun.revisionOf early⟩ asked :=
    (bind_of_ok before).trans ((bind_of_ok rfl).trans ((bind_of_ok present).trans rfl))
  have samples : keyed.presence.sample helpers begun = .ok (.bool !pass.isEmpty) asked :=
    (bind_of_ok made).trans ((bind_of_ok after).trans rfl)
  have waiting : Reading.artifacts keyed.list asked = .ok { pending := some pass } asked :=
    Reading.artifacts_ok.mpr ⟨by simp [asked, begun, keyed], rfl⟩
  obtain ⟨taken, takes⟩ : ∃ taken, keyed.takePass helpers asked = .ok pass taken :=
    ⟨_, (bind_of_ok waiting).trans rfl⟩
  exact ⟨keyed, begun, asked, taken, rfl, samples, takes⟩

/-- After the list of an `each`. If there is something left to be shown, it is the block that stands
in for elements. Recorded was, but for the assertion that there are elements, one list with one
region for each of the keys, unless there are none. -/
structure Machine.Listed (machine : Machine) (program : Program) (slice : Slice)
    (empty : Option Handle) (leave : Nat) (keys : List Key) (later : Machine) : Prop where
  course : ∃ next iterator, program.Branch (if keys.isEmpty then empty else none) next leave ∧
    later.courses = ⟨next, slice, iterator⟩ :: machine.courses.tail
  recorded : ∃ (asserted : List Update) (lists : List ListRegion),
    (∀ update ∈ asserted, ∃ cache, update = .assert cache) ∧
    lists.map ListRegion.keys = (if keys.isEmpty then [] else [keys]) ∧
    later.builders = machine.builders.modifyHead
      (Builder.alter (Content.recording (asserted ++ lists.map Update.list)))

namespace Running

variable {scene : Scene} {machine last : Machine} {frame : Frame} {outer : List Frame}
  {item empty : Option Handle} {leave : Nat}

/-- An `each` without a key argument shows one region for each key. -/
theorem each_listed (built : scene.program.Built) (running : machine.frames = frame :: outer)
    (each : scene.program.program.Each item empty frame.next leave)
    (inside : leave ≤ frame.slice.stop) {source : Reference}
    (first : frame.registers.invocation.nth? 0 = some source)
    (unkeyed : frame.registers.invocation.get? "key" = none) {iterable : Iterable}
    (found : scene.host.iterable source "" = .ok iterable) {pass : Pass}
    (gives : iterable.Gives scene.helpers pass machine.store) (ends : Ends scene machine last) :
    ∃ later, Passes scene machine last later ∧ machine.Listed scene.program.program frame.slice
      empty leave (pass.map PassItem.key).dedup later := by
  obtain ⟨keyed, begun, asked, taken, began, samples, takes⟩ := gives
  obtain ⟨iterates, other, body, jump, loop, bound, goesOn, branch⟩ := each
  have ordered := loop.body.le
  obtain ⟨stats, iterating, stepped, begins⟩ := ends.carry running (by omega) iterates
  have stepped : putIterator scene _ = .ok () iterating := stepped
  rw [putIterator_eq] at stepped
  obtain ⟨here, _, seen, stepped⟩ := bind_ok.mp stepped
  obtain ⟨⟨_, shape⟩, rfl⟩ := frame_ok.mp seen
  cases shape
  dsimp only [Frame.go] at stepped
  rw [unkeyed, first] at stepped
  obtain ⟨_, same, _, _, made, rfl⟩ := iterate_ok stepped rfl
  cases found.symm.trans same
  cases began.symm.trans made
  obtain ⟨stats, chosen, stepped, chooses⟩ := begins.ends.carry rfl
    (show frame.next + 1 < frame.slice.stop by omega) jump
  obtain ⟨value, store, asserted, told, onlyAsserted, rfl⟩ := jumpOn_samples rfl rfl stepped
  cases samples.symm.trans told
  have passes := begins.trans chooses
  have outside : machine.courses.tail = outer.map Frame.course := by
    rw [Machine.courses, running, List.map_cons, List.tail_cons]
  cases pass with
  | nil =>
    refine ⟨_, passes, ⟨other, some ⟨keyed, none⟩, branch, ?_⟩, asserted, [], onlyAsserted, rfl, ?_⟩
    · rw [outside]
      rfl
    · rw [List.map_nil, List.append_nil]
      rfl
  | cons element rest =>
    obtain ⟨later, iterator, list, leaves, here, recorded, keys⟩ :=
      list_left built loop bound goesOn inside rfl takes passes.ends
    have nonempty : (((element :: rest).map PassItem.key).dedup).isEmpty = false := by
      simp [List.isEmpty_eq_false_iff]
    refine ⟨later, passes.trans leaves, ⟨leave, iterator, ?_, ?_⟩, asserted, [list],
      onlyAsserted, ?_, ?_⟩
    · rw [nonempty]
      rfl
    · rw [outside]
      exact here
    · rw [nonempty, List.map_singleton, keys]
      rfl
    · rw [recorded]
      exact alter_recording _ _ _

end Running

/-- A list without a key argument is gone through by what its elements are. -/
theorem Pass.keys_of_identity {storage : Storage} {elements : List Value} {pass : Pass}
    (listed : Pass.ofValue .identity (.list storage elements) = .ok pass) :
    pass.map PassItem.key = elements.map Value.identity := by
  obtain rfl := Except.ok.inj listed
  apply List.ext_getElem
  · simp [ofElements]
  · intro position one two
    simp [ofElements, KeyFor.key]

/-- Unequal values have keys that differ, unless two of them clash. -/
theorem Value.identities_dedup {elements : List Value}
    (unequal : elements.Pairwise fun left right => left.same right = false)
    (apart : elements.Pairwise fun left right => ¬left.Clashes right) :
    (elements.map Value.identity).dedup = elements.map Value.identity := by
  refine List.Nodup.dedup (List.pairwise_map.mpr ((unequal.and apart).imp ?_))
  rintro left right ⟨unequal, apart⟩ shared
  exact apart ((identity_eq_iff unequal).mp shared)

/-- Where an `each` without a key argument goes through a list of elements that are pairwise
unequal, two elements have one key exactly if they clash, and there is one region for each key, in
the order in which the keys come last. If no two elements clash, that is one region for each
element, in their order. -/
theorem Running.each_shows_elements {scene : Scene} {machine last : Machine} {frame : Frame}
    {outer : List Frame} {item empty : Option Handle} {leave : Nat} {resolver : Resolver}
    {templates : List Template} (compiled : compile resolver templates = .ok scene.program)
    (running : machine.frames = frame :: outer)
    (each : scene.program.program.Each item empty frame.next leave)
    (inside : leave ≤ frame.slice.stop) {source : Reference}
    (first : frame.registers.invocation.nth? 0 = some source)
    (unkeyed : frame.registers.invocation.get? "key" = none)
    (plain : scene.host.iterable source "" = .ok ⟨source, KeyFor.parse ""⟩) {storage : Storage}
    {elements : List Value} {pass : Pass}
    (listed : Pass.ofValue (KeyFor.parse "") (.list storage elements) = .ok pass)
    (gives : (Iterable.mk source (KeyFor.parse "")).Gives scene.helpers pass machine.store)
    (unequal : elements.Pairwise fun left right => left.same right = false)
    (ends : Ends scene machine last) :
    (elements.Pairwise fun left right => left.identity = right.identity ↔ left.Clashes right) ∧
      ((elements.Pairwise fun left right => ¬left.Clashes right) →
        (elements.map Value.identity).dedup = elements.map Value.identity) ∧
      ∃ later, Passes scene machine last later ∧
        machine.Listed scene.program.program frame.slice empty leave
          (elements.map Value.identity).dedup later := by
  refine ⟨unequal.imp Value.identity_eq_iff, Value.identities_dedup unequal, ?_⟩
  rw [← Pass.keys_of_identity listed]
  exact each_listed (compile_built compiled).1 running each inside first unkeyed plain gives ends

/-- Shows each item of a list, told apart by what it is. -/
def rowTemplate : Template where
  block := .of [.block ⟨"each", []⟩ [.unknown ⟨"items", []⟩] []
    (some (.inline (.of [.append (.get ⟨"item", []⟩) false] ["item"]))) none] []
  prelude := none
  named := []
  yields := []
  hasPartials := false
  blocks := []
  description := .null

def rowScene : Scene where
  host := {}
  program := match compile plainResolver [rowTemplate] with
    | .ok compiled => compiled
    | .error _ => default

/-- Is about to go through these elements. -/
def rowMachine (elements : List Value) : Machine :=
  .opening { scopes := (Scopes.root {} 1 (.const .undefined)).2 }
    { scope := 0, registers := { invocation := { positional := [.const (.list 0 elements)] } } }
    ⟨5, 14⟩ 0 none

theorem rowScene_compiled : compile plainResolver [rowTemplate] = .ok rowScene.program := by
  have succeeds : (compile plainResolver [rowTemplate]).toBool = true := by decide +kernel
  unfold rowScene
  cases outcome : compile plainResolver [rowTemplate] with
  | ok program => rfl
  | error fault =>
    rw [outcome] at succeeds
    cases succeeds

/-- The code that goes through the elements of the items. -/
def rowCode : List Instruction :=
  [{ op := .putIterator }, { op := .jumpUnless, first := 14 }, { op := .enterList, first := 1 },
    { op := .nextIter, first := 13 }, { op := .enterWithKey, first := 2 },
    { op := .evaluate, first := 2 }, { op := .exit }, { op := .jump, first := 8 }, { op := .exitList }]

theorem rowScene_each : rowScene.program.program.Each (some 2) none 5 14 := by
  have code : (rowScene.program.program.instructions.toList.drop 5).take 9 = rowCode := by
    decide +kernel
  have stands : ∀ {offset : Nat}, offset < 9 →
      rowScene.program.program.instructions[5 + offset]? = rowCode[offset]? := by
    intro offset bound
    rw [← code, List.getElem?_take_of_lt bound, List.getElem?_drop, Array.getElem?_toList]
  -- The code is known by now, so what it was compiled from need not be looked at again.
  generalize rowScene.program.program = program at stands
  exact {
    iterates := stands (by decide : 0 < 9)
    walk := ⟨14, 11, stands (by decide : 1 < 9), {
      enterList := ⟨1, stands (by decide : 2 < 9)⟩
      next := stands (by decide : 3 < 9)
      enter := ⟨2, stands (by decide : 4 < 9)⟩
      body := ⟨by decide, stands (by decide : 5 < 9), .inl rfl⟩
      exit := stands (by decide : 6 < 9)
      again := stands (by decide : 7 < 9)
      exitList := stands (by decide : 8 < 9) }, by decide, .inl rfl, rfl⟩ }

def rowElements : List Value := [.int 1, .text "2", .undefined]

theorem rowElements_apart : rowElements.Pairwise fun left right => ¬left.Clashes right := by
  have unequal : rowElements.Pairwise fun left right => left.same right = false := by decide
  have keys : rowElements.Pairwise fun left right => left.identity ≠ right.identity := by decide
  refine (unequal.and keys).imp ?_
  rintro left right ⟨unequal, keys⟩ clash
  exact keys ((Value.identity_eq_iff unequal).mpr clash)

theorem Running.each_shows_elements_row :
    ∃ last later, Ends rowScene (rowMachine rowElements) last ∧
      Passes rowScene (rowMachine rowElements) last later ∧
      (rowMachine rowElements).Listed rowScene.program.program ⟨5, 14⟩ none 14
        [.text "1", .text "2", .text "undefined"] later := by
  have runs : succeeds (run rowScene 100 (rowMachine rowElements)) = true := by decide +kernel
  cases ended : run rowScene 100 (rowMachine rowElements) with
  | error fault after =>
    rw [ended] at runs
    cases runs
  | ok done last =>
    have ends : Ends rowScene (rowMachine rowElements) last := ⟨100, ended⟩
    have passes : Pass.ofValue (KeyFor.parse "") (.list 0 rowElements) = .ok _ := rfl
    obtain ⟨-, same, later, passes, listed⟩ := each_shows_elements rowScene_compiled rfl
      rowScene_each (by decide) rfl rfl rfl passes
      (Iterable.gives_of_still (fun _ => ⟨_, rfl⟩) (fun _ => rfl) passes) (by decide) ends
    rw [same rowElements_apart] at listed
    exact ⟨last, later, ends, passes, listed⟩

/-- The markup of a page that shows these elements. -/
def rowMarkup (elements : List Value) : Option String :=
  match Output.render rowScene 1 (.const (.map 1 [("items", .list 0 elements)])) 0 none {} with
  | .ok _ after => (after.page.dom.innerMarkup 0).toOption
  | .error _ _ => none

/-- A number and the text that spells it are not equal. They have one key, and only the later one
is shown. -/
theorem Value.unequal_identity_shared :
    [int 1, text "1"].Pairwise (fun left right => left.same right = false) ∧
      ¬([int 1, text "1"].map identity).Nodup ∧ rowMarkup [int 1, text "1"] = some "1" :=
  ⟨by decide, by decide, by decide +kernel⟩

/-- Two NaN are shown as one. -/
example : rowMarkup [.float (0.0 / 0.0), .float (0.0 / 0.0)] = some "NaN" := by decide +kernel

end LiveTemplate
