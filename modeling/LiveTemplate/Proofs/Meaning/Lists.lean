import LiveTemplate.Proofs.Meaning.Choices

/-!
Lists. The loop of an `each` takes one element of the pass after the other, and each turn adds one
region to the list. The induction is along the pass; what it carries from turn to turn is
`Machine.Lists`, which says what the list shows so far and which keys were met.
-/

namespace LiveTemplate

open Effects

/-! Walking through a pass -/

/-- The elements that are still to come, which a walk that begins has to ask for. -/
def FirstPass.pass (helpers : Helpers) (walk : FirstPass) : Reading Pass :=
  match walk.rest with
  | some pass => pure pass
  | none => walk.keyed.takePass helpers

/-- The frame, before the next turn. -/
def Frame.walking (frame : Frame) (walk : FirstPass) : Frame :=
  { frame with iterator := some walk }

/-- The frame, in the turn of an element. -/
def Frame.meeting (frame : Frame) (refs : ItemRefs) : Frame :=
  { frame with
    registers := { frame.registers with invocation := refs.invocation }
    key := some refs.key }

theorem KeyedList.meet_key {keyed : KeyedList} {item : PassItem} {refs : ItemRefs}
    {before after : Store} (ended : keyed.meet item before = .ok refs after) :
    refs.key = item.key := by
  obtain ⟨made, between, met, ended⟩ := bind_ok.mp ended
  obtain ⟨artifacts, _, asked, ended⟩ := bind_ok.mp ended
  obtain ⟨_, _, put, ended⟩ := bind_ok.mp ended
  obtain ⟨rfl, -⟩ := pure_ok.mp ended
  obtain ⟨value, _, one, met⟩ := bind_ok.mp met
  obtain ⟨memo, _, two, met⟩ := bind_ok.mp met
  obtain ⟨rfl, -⟩ := pure_ok.mp met
  rfl

theorem FirstPass.next_ok {helpers : Helpers} {walk : FirstPass} {before after : Store}
    {result : FirstPass × Option ItemRefs}
    (ended : walk.next helpers before = .ok result after) :
    ∃ pass between, walk.pass helpers before = .ok pass between ∧
      (pass = [] ∧ between = after ∧ result = ({ walk with rest := some [] }, none) ∨
      ∃ item rest refs, pass = item :: rest ∧ walk.keyed.meet item between = .ok refs after ∧
        result = ({ walk with rest := some rest }, some refs)) := by
  have same : walk.next helpers = walk.pass helpers >>= walk.record := by
    rw [FirstPass.next_eq]
    unfold FirstPass.pass
    cases walk.rest <;> rfl
  rw [same] at ended
  obtain ⟨pass, between, taken, ended⟩ := bind_ok.mp ended
  refine ⟨pass, between, taken, ?_⟩
  cases pass with
  | nil =>
    obtain ⟨rfl, rfl⟩ := pure_ok.mp ended
    exact .inl ⟨rfl, rfl, rfl⟩
  | cons item rest =>
    obtain ⟨refs, made, met, ended⟩ := bind_ok.mp ended
    obtain ⟨artifacts, asked, found, ended⟩ := bind_ok.mp ended
    obtain ⟨_, put, stored, ended⟩ := bind_ok.mp ended
    obtain ⟨rfl, rfl⟩ := pure_ok.mp ended
    refine .inr ⟨item, rest, refs, rfl, ?_, rfl⟩
    exact (bind_of_ok met).trans ((bind_of_ok found).trans (bind_of_ok stored))

/-! Instructions of lists -/

/-- The frame, about to go through a list. -/
def Frame.iterating (frame : Frame) (keyed : KeyedList) : Frame :=
  { frame with
    registers := { frame.registers with condition := some keyed.presence }
    iterator := some ⟨keyed, none⟩ }

/-- The machine, when something was asked of the store. -/
def Machine.knowing (machine : Machine) (store : Store) : Machine :=
  { machine with world := { machine.world with page := { machine.world.page with store } } }

namespace Running

variable {scene : Scene} {machine after : Machine} {frame : Frame} {outer : List Frame}

/-- There is a next element, or the loop ends. -/
theorem nextIter_ok {target : Nat} {walk : FirstPass} (running : machine.frames = frame :: outer)
    (iterates : frame.iterator = some walk)
    (ended : nextIter scene target machine = .ok () after) :
    ∃ pass between, walk.pass scene.helpers machine.store = .ok pass between ∧
      (pass = [] ∧ after = { machine.knowing between with
        frames := (frame.walking { walk with rest := some [] }).go target :: outer } ∨
      ∃ item rest refs store, pass = item :: rest ∧
        walk.keyed.meet item between = .ok refs store ∧
        after = { machine.knowing store with
          frames := (frame.walking { walk with rest := some rest }).meeting refs :: outer }) := by
  obtain ⟨here, _, asked, ended⟩ := bind_ok.mp ended
  obtain ⟨⟨_, shape⟩, rfl⟩ := frame_ok.mp asked
  cases running.symm.trans shape
  rw [iterates] at ended
  obtain ⟨result, advanced, went, ended⟩ := bind_ok.mp ended
  obtain ⟨store, next, rfl⟩ := reading_ok.mp went
  obtain ⟨pass, between, taken, goes⟩ := FirstPass.next_ok next
  refine ⟨pass, between, taken, ?_⟩
  obtain ⟨_, moved, changed, ended⟩ := bind_ok.mp ended
  obtain ⟨other, others, shape, rfl⟩ := modifyFrame_ok.mp changed
  cases running.symm.trans shape
  rcases goes with ⟨rfl, rfl, rfl⟩ | ⟨item, rest, refs, rfl, met, rfl⟩
  · have left : goto target _ = .ok () after := ended
    have moved := goto_ok left rfl
    exact .inl ⟨rfl, moved⟩
  · obtain ⟨_, _, changed, ended⟩ := bind_ok.mp ended
    obtain ⟨_, _, shape, rfl⟩ := modifyFrame_ok.mp changed
    cases shape
    obtain ⟨_, _, shape, rfl⟩ := modifyFrame_ok.mp ended
    cases shape
    exact .inr ⟨item, rest, refs, store, rfl, met, rfl⟩

theorem iterate_ok {source : Reference} {key : String}
    (ended : iterate scene source key machine = .ok () after)
    (running : machine.frames = frame :: outer) :
    ∃ iterable, scene.host.iterable source key = .ok iterable ∧
      ∃ keyed store, KeyedList.ofIterable iterable machine.store = .ok keyed store ∧
        after = { machine.knowing store with frames := frame.iterating keyed :: outer } := by
  unfold iterate at ended
  cases found : scene.host.iterable source key with
  | error error =>
    rw [found] at ended
    exact absurd ended throw_ok
  | ok iterable =>
    rw [found] at ended
    obtain ⟨keyed, _, made, ended⟩ := bind_ok.mp ended
    obtain ⟨store, began, rfl⟩ := reading_ok.mp made
    obtain ⟨_, _, changed, ended⟩ := bind_ok.mp ended
    obtain ⟨_, _, shape, rfl⟩ := modifyFrame_ok.mp changed
    cases running.symm.trans shape
    obtain ⟨_, _, shape, rfl⟩ := modifyFrame_ok.mp ended
    cases shape
    exact ⟨iterable, rfl, keyed, store, began, rfl⟩

/-- The elements of the first argument are about to be gone through. -/
theorem putIterator_ok {given : Reference} {named : List (String × Reference)}
    (running : machine.frames = frame :: outer)
    (arguments : frame.registers.invocation = { positional := [given], named })
    (ended : putIterator scene machine = .ok () after) :
    ∃ keyed store, scene.host.keyed given named machine.store = .ok keyed store ∧
      after = { machine.knowing store with frames := frame.iterating keyed :: outer } := by
  rw [putIterator_eq] at ended
  obtain ⟨here, _, asked, ended⟩ := bind_ok.mp ended
  obtain ⟨⟨_, shape⟩, rfl⟩ := frame_ok.mp asked
  cases running.symm.trans shape
  rw [arguments] at ended
  have told : ∀ {name : String} {between : Store} {iterable : Iterable} {keyed : KeyedList}
      {store : Store},
      Reference.keyName scene.host.helpers named machine.store = .ok name between →
      scene.host.iterable given name = .ok iterable →
      KeyedList.ofIterable iterable between = .ok keyed store →
      scene.host.keyed given named machine.store = .ok keyed store := by
    intro name between iterable keyed store key found began
    refine (bind_of_ok key).trans ?_
    rw [found]
    exact (bind_of_ok rfl).trans began
  unfold Reference.keyName at told
  cases named? : Entries.get? "key" named with
  | none =>
    have none : Invocation.get? { positional := [given], named } "key" = none := named?
    rw [none] at ended
    rw [named?] at told
    obtain ⟨iterable, found, keyed, store, began, same⟩ := iterate_ok ended running
    exact ⟨keyed, store, told rfl found began, same⟩
  | some key =>
    have some : Invocation.get? { positional := [given], named } "key" = some key := named?
    rw [some] at ended
    rw [named?] at told
    obtain ⟨value, _, read, ended⟩ := bind_ok.mp ended
    obtain ⟨between, asked, rfl⟩ := reading_ok.mp read
    obtain ⟨iterable, found, keyed, store, began, same⟩ := iterate_ok ended running
    exact ⟨keyed, store, told (bind_of_ok asked) found began, same⟩

theorem enterWithKey_ok {slice : Slice} {key : Key}
    (ended : enterWithKey slice machine = .ok () after)
    (running : machine.frames = frame :: outer) (waiting : frame.key = some key) :
    enter slice (some key) { machine with frames := { frame with key := none } :: outer } =
      .ok () after := by
  obtain ⟨here, _, asked, ended⟩ := bind_ok.mp ended
  obtain ⟨⟨_, shape⟩, rfl⟩ := frame_ok.mp asked
  cases running.symm.trans shape
  rw [waiting] at ended
  obtain ⟨_, _, changed, ended⟩ := bind_ok.mp ended
  obtain ⟨_, _, shape, rfl⟩ := modifyFrame_ok.mp changed
  cases running.symm.trans shape
  exact ended

end Running

theorem Machine.Offers.knowing {machine : Machine} {spot : Spot} (offers : machine.Offers spot)
    (store : Store) : (machine.knowing store).Offers spot :=
  ⟨offers.elements, offers.trackers,
    ⟨offers.takes.inside, offers.takes.block, offers.takes.scopes⟩⟩

theorem Machine.Shows.of_knowing {machine after : Machine} {spot : Spot} {trees : List Tree}
    {store : Store} (shows : (machine.knowing store).Shows spot trees after) :
    machine.Shows spot trees after :=
  ⟨⟨shows.world.dom, shows.world.extents, shows.world.scopes, shows.world.transaction⟩,
    shows.elements, shows.trackers, shows.openings⟩

theorem Machine.Lists.knowing {base machine : Machine} {spot : Spot} {trees : List Tree}
    {met : List Key} (lists : base.Lists spot trees met machine) (store : Store) :
    base.Lists spot trees met (machine.knowing store) :=
  ⟨lists.dom, lists.extents, lists.scopes, lists.transaction, lists.elements, lists.list⟩

/-! The loop -/

namespace Stage

section Loop

variable {stage : Stage} {spot : Spot} {scope : Scope} {item : Option Handle} {start leave : Nat}
  {operands : List Operand} {trees : List Tree} {met : List Key} {machine : Machine} {frame : Frame}

/-- What is gone through is asked for. -/
theorem Reaches.iterate {place : Nat} {given : Reference} {named : List (String × Reference)}
    (reaches : (stage.on machine frame).Reaches place operands)
    (inside : place < frame.slice.stop)
    (here : stage.scene.program.program.instructions[place]? = some { op := .putIterator })
    (arguments : frame.registers.invocation = { positional := [given], named }) :
    ∃ keyed store, stage.scene.host.keyed given named machine.store = .ok keyed store ∧
      (stage.on (machine.knowing store) (frame.iterating keyed)).Reaches (place + 1) operands := by
  obtain ⟨stats, later, stepped, goes⟩ := Reaches.carry reaches inside here
  have arguments : (frame.go (place + 1)).registers.invocation =
    { positional := [given], named } := arguments
  obtain ⟨keyed, store, told, rfl⟩ := Running.putIterator_ok rfl arguments stepped
  exact ⟨keyed, store, told, goes (frame.iterating keyed) _ _ rfl rfl⟩

/-- One turn adds the region of one element to the list. -/
theorem Reaches.turn {telling : Telling (List Tree)} {given : List Reference} {key : Key}
    (reaches : (stage.on machine frame).Reaches (start + 2) operands)
    (loop : stage.scene.program.program.Loop item start leave)
    (inside : leave + 2 < stage.frame.slice.stop) (offers : stage.machine.Offers spot)
    (sees : stage.Sees scope) (tells : stage.Tells scope spot item given telling)
    (lists : stage.machine.Lists spot trees met machine) (alike : stage.frame.Twin frame)
    (waiting : frame.key = some key) (fresh : key ∉ met)
    (positional : frame.registers.invocation.positional = given) :
    (stage.on machine frame).Leads telling (fun first later other =>
        stage.machine.Lists spot (trees ++ Tree.filled first) (key :: met) later ∧
          other.iterator = frame.iterator)
      (start + 1) operands := by
  have within : leave + 2 < frame.slice.stop := by
    rw [alike.slice]
    exact inside
  have ordered := loop.body.le
  obtain ⟨handle, enter⟩ := loop.enter
  have first : start + 2 < frame.slice.stop := by omega
  obtain ⟨stats, entered, stepped, goes⟩ := Reaches.carry reaches first enter
  obtain ⟨slice, _, looked, stepped⟩ := bind_ok.mp stepped
  obtain ⟨-, rfl⟩ := Running.lookUp_ok.mp looked
  have stepped := Running.enterWithKey_ok stepped rfl waiting
  let turning : Frame := { frame with key := none }
  let listing := machine.having (turning.go (start + 2 + 1) :: stage.outer) operands stats
  have listed : stage.machine.Lists spot trees met listing := lists.having
  obtain ⟨captured, extent, encloses, stays, builders, store⟩ :=
    Running.enter_ok (listed.under offers.under) stepped
  have begun := goes turning _ _ stays.frames stays.operands
  have offered := encloses.offers (listed.under offers.under)
  have seen : (stage.on entered turning).Sees scope :=
    sees.on (listed.scopes.trans encloses.scopes) ⟨alike.slice, alike.scope, alike.ambient⟩
  have last : leave < frame.slice.stop := by omega
  have body : (stage.on entered turning).Leads telling _ leave operands :=
    (tells entered turning extent seen offered alike.slice positional).branch offered loop.body
      last begun
  refine Leads.of_on (body.next fun first later other shown _ reached => ?_) ⟨rfl, rfl, rfl⟩ store
  obtain ⟨shown, rfl⟩ := shown
  have opened : later.openings =
      .region slice captured extent (some key) {} :: listing.builders :=
    shown.openings.trans (congrArg (List.modifyHead Builder.bare) builders)
  obtain ⟨stats, after, stepped, goes⟩ := Reaches.carry reached last loop.exit
  have enclosed : listing.Encloses spot extent first
      (later.having (turning.go (leave + 1) :: stage.outer) operands stats) :=
    (encloses.shows (listed.under offers.under) shown).having
  obtain ⟨more, stays, store⟩ := Running.exitItem_ok offers.under listed fresh enclosed opened stepped
  have reached := goes turning _ _ stays.frames stays.operands
  have below : leave + 1 < frame.slice.stop := by omega
  have again := Reaches.jump reached below loop.again
  exact ⟨after, turning, ⟨more, rfl⟩, .refl _, store, again⟩

/-- The next element is asked for. -/
theorem Reaches.next {walk : FirstPass}
    (reaches : (stage.on machine frame).Reaches (start + 1) operands)
    (loop : stage.scene.program.program.Loop item start leave)
    (inside : leave + 2 < stage.frame.slice.stop) (alike : stage.frame.Twin frame)
    (iterates : frame.iterator = some walk) :
    ∃ pass between, walk.pass stage.scene.helpers machine.store = .ok pass between ∧
      (pass = [] ∧
        (stage.on (machine.knowing between)
          (frame.walking { walk with rest := some [] })).Reaches (leave + 2) operands ∨
      ∃ element rest refs store, pass = element :: rest ∧
        walk.keyed.meet element between = .ok refs store ∧
        (stage.on (machine.knowing store)
          ((frame.walking { walk with rest := some rest }).meeting refs)).Reaches
            (start + 2) operands) := by
  have ordered := loop.body.le
  have first : start + 1 < frame.slice.stop := by
    rw [alike.slice]
    omega
  obtain ⟨stats, after, stepped, goes⟩ := Reaches.carry reaches first loop.next
  have iterates : (frame.go (start + 2)).iterator = some walk := iterates
  obtain ⟨pass, between, taken, ended⟩ := Running.nextIter_ok rfl iterates stepped
  refine ⟨pass, between, taken, ?_⟩
  rcases ended with ⟨rfl, rfl⟩ | ⟨element, rest, refs, store, rfl, met, rfl⟩
  · exact .inl ⟨rfl, goes _ _ _ rfl rfl⟩
  · exact .inr ⟨element, rest, refs, store, rfl, met, goes _ _ _ rfl rfl⟩

/-- The list ends. -/
theorem Reaches.listed (reaches : (stage.on machine frame).Reaches (leave + 2) operands)
    (loop : stage.scene.program.program.Loop item start leave)
    (inside : leave + 2 < stage.frame.slice.stop) (offers : stage.machine.Offers spot)
    (alike : stage.frame.Twin frame) (lists : stage.machine.Lists spot trees met machine) :
    ∃ later, stage.machine.Shows spot trees later ∧ later.store = machine.store ∧
      (stage.on later frame).Reaches (leave + 3) operands := by
  have last : leave + 2 < frame.slice.stop := by
    rw [alike.slice]
    exact inside
  obtain ⟨stats, after, stepped, goes⟩ := Reaches.carry reaches last loop.exitList
  have whole : stage.machine.Lists spot trees met
      (machine.having (frame.go (leave + 3) :: stage.outer) operands stats) := lists.having
  obtain ⟨shows, stays, store⟩ := Running.exitList_ok offers whole stepped
  exact ⟨after, shows, store, goes frame _ _ stays.frames stays.operands⟩

/-- The turns that are to come add the elements that are to come. -/
theorem Reaches.turns {keyed : KeyedList} {body : List Reference → Telling (List Tree)}
    (loop : stage.scene.program.program.Loop item start leave)
    (inside : leave + 2 < stage.frame.slice.stop) (offers : stage.machine.Offers spot)
    (sees : stage.Sees scope)
    (tells : ∀ refs, stage.Tells scope spot item refs (body refs)) :
    ∀ (pass : Pass) (rest : Option Pass) (trees : List Tree) (met : List Key) (machine : Machine)
      (frame : Frame) (store : Store),
      (FirstPass.mk keyed rest).pass stage.scene.helpers machine.store = .ok pass store →
      frame.iterator = some ⟨keyed, rest⟩ → stage.frame.Twin frame →
      stage.machine.Lists spot trees met machine →
      (stage.on machine frame).Reaches (start + 1) operands →
      (keyed.trees body pass met).Yields store fun more store => ∃ later other,
        stage.machine.Shows spot (trees ++ more) later ∧ stage.frame.Twin other ∧
          later.store = store ∧ (stage.on later other).Reaches (leave + 3) operands := by
  intro pass
  induction pass with
  | nil =>
    intro rest trees met machine frame store begins iterates alike lists reaches
    obtain ⟨pass, between, taken, ended⟩ := Reaches.next reaches loop inside alike iterates
    cases begins.symm.trans taken
    rcases ended with ⟨-, ended⟩ | ⟨element, rest, refs, store, impossible, -⟩
    · obtain ⟨later, shows, same, reached⟩ := Reaches.listed ended loop inside offers
        ⟨alike.slice, alike.scope, alike.ambient⟩ (lists.knowing store)
      rw [← List.append_nil trees] at shows
      exact .pure ⟨later, frame.walking ⟨keyed, some []⟩, shows,
        ⟨alike.slice, alike.scope, alike.ambient⟩, same, reached⟩
    · cases impossible
  | cons element rest ih =>
    intro before trees met machine frame store begins iterates alike lists reaches
    obtain ⟨pass, between, taken, ended⟩ := Reaches.next reaches loop inside alike iterates
    cases begins.symm.trans taken
    rcases ended with ⟨impossible, -⟩ | ⟨element, others, refs, after, same, meets, entered⟩
    · cases impossible
    cases same
    rw [KeyedList.trees]
    split
    · trivial
    · rename_i fresh
      rw [← KeyedList.meet_key meets] at fresh ⊢
      refine Telling.Yields.read meets ?_
      have turned := Reaches.turn entered loop inside offers sees (tells _) (lists.knowing after)
        ⟨alike.slice, alike.scope, alike.ambient⟩ rfl fresh rfl
      refine Telling.Yields.bind turned fun first store reached => ?_
      obtain ⟨later, other, ⟨listed, walks⟩, alikeToo, rfl, reached⟩ := reached
      refine Telling.Yields.bind (ih (some rest) _ _ later other later.store rfl walks
        ⟨alikeToo.slice.trans alike.slice, alikeToo.scope.trans alike.scope, alikeToo.ambient.trans alike.ambient⟩
         listed reached) fun more store reached => ?_
      rw [List.append_assoc] at reached
      exact .pure reached

/-- The whole loop. -/
theorem Reaches.loop {keyed : KeyedList} {body : List Reference → Telling (List Tree)}
    (reaches : stage.Reaches start operands)
    (loop : stage.scene.program.program.Loop item start leave)
    (inside : leave + 2 < stage.frame.slice.stop) (offers : stage.machine.Offers spot)
    (sees : stage.Sees scope) (tells : ∀ refs, stage.Tells scope spot item refs (body refs))
    (iterates : stage.frame.iterator = some ⟨keyed, none⟩) :
    stage.Leads (do
        let pass ← Telling.reading (keyed.takePass stage.scene.helpers)
        keyed.trees body pass [])
      (fun trees machine _ => stage.machine.Shows spot trees machine) (leave + 3) operands := by
  have ordered := loop.body.le
  have first : start < stage.frame.slice.stop := by omega
  obtain ⟨handle, enterList⟩ := loop.enterList
  obtain ⟨stats, entered, stepped, goes⟩ := reaches.carry first enterList
  obtain ⟨slice, _, looked, stepped⟩ := bind_ok.mp stepped
  obtain ⟨-, rfl⟩ := Running.lookUp_ok.mp looked
  have iterates' : (stage.frame.go (start + 1)).iterator = some ⟨keyed, none⟩ := iterates
  obtain ⟨lists, stays, store⟩ :=
    Running.enterList_ok (offers.having _ _ _).under rfl iterates' stepped
  have reached := goes stage.frame _ _ stays.frames stays.operands
  obtain ⟨pass, between, taken, -⟩ := Reaches.next reached loop inside (.refl _) iterates
  have told := Reaches.turns loop inside offers sees tells pass none [] [] entered stage.frame between
    taken iterates (.refl _) lists.of_having reached
  have stores : entered.store = stage.machine.store := store
  rw [stores] at taken
  exact Telling.Yields.read taken told

/-- The loop, or the block that is shown in its place if there are no elements. -/
theorem Reaches.walk {keyed : KeyedList} {body : List Reference → Telling (List Tree)}
    {telling : Telling (List Tree)} {empty : Option Handle} {place extent : Nat}
    {given : List Reference} (reaches : stage.Reaches place operands)
    (walk : stage.scene.program.program.Walk item empty place leave)
    (inside : leave < stage.frame.slice.stop) (offers : stage.machine.Offers (spot.within extent))
    (sees : stage.Sees scope) (tells : ∀ refs, stage.Tells scope spot item refs (body refs))
    (fails : stage.Tells scope spot empty given telling)
    (iterates : stage.frame.iterator = some ⟨keyed, none⟩)
    (tested : stage.frame.registers.condition = some keyed.presence)
    (positional : stage.frame.registers.invocation.positional = given) :
    stage.Leads (keyed.presence.choose stage.scene.helpers (do
        let pass ← Telling.reading (keyed.takePass stage.scene.helpers)
        keyed.trees body pass []) telling)
      (fun trees machine _ => stage.machine.Shows (spot.within extent) trees machine)
      leave operands := by
  obtain ⟨other, last, jump, loop, bound, goesOn, branch⟩ := walk
  have ordered := loop.body.le
  have first : place < stage.frame.slice.stop := by omega
  refine reaches.choose first jump rfl offers tested fun holds machine shown reached => ?_
  have offered := shown.offers offers
  have seen := sees.on shown.world.scopes (.refl _)
  cases holds with
  | true =>
    have shorter : last + 2 < stage.frame.slice.stop := by omega
    refine (Reaches.loop reached loop shorter offered seen
      (fun refs => (tells refs).on machine (.refl _) extent) iterates).next ?_
    intro trees later frame shows alike reached
    refine ⟨later, frame, shows, .refl _, rfl, ?_⟩
    rcases goesOn with rfl | jump
    · exact reached
    · have below : last + 3 < frame.slice.stop := by
        rw [alike.slice]
        exact Nat.lt_of_le_of_lt bound inside
      exact Reaches.jump reached below jump
  | false =>
    exact ((fails machine stage.frame extent seen offered rfl positional).branch offered branch
      inside reached).mono fun _ _ _ _ shown => shown.1

end Loop

end Stage

namespace Code

open Stage

variable {stage : Stage} {place : Place} {scope : Scope} {before : Draft} {spot : Spot}
  {body : List Reference → Telling (List Tree)} {telling : Telling (List Tree)}

theorem each_spoken (small : stage.scene.program.pool.Small) (entry : place.names.OfEntry)
    (sees : stage.Sees scope) (offers : stage.machine.Offers spot)
    {source : Expression} {named : Named} {item empty : Option Handle}
    (tells : ∀ refs, stage.Tells scope spot item refs (body refs))
    (fails : stage.Tells scope spot empty [source.reference (place.surroundings scope)] telling) :
    stage.Says before (each place [source] named item empty) [] spot
      (Telling.filled <| stage.scene.host.forEach (source.reference (place.surroundings scope))
        (Expression.namedReferences (place.surroundings scope) named) body telling) := by
  intro after ended within bound operands reaches
  obtain ⟨other, begun, asked, put, leave, only, start, given, iterates, grows, length, region,
    walk⟩ := each_ok (fun _ _ given => (arguments_reaches sees small entry _ _ given).2.1) ended
  obtain rfl : source = other := List.head_eq_of_cons_eq only
  obtain ⟨growsToo, -, next, -, -, here⟩ := Writing.emit_ok iterates
  have inner := within.of_grows (growsToo.trans grows)
  obtain ⟨grown, -, -⟩ := arguments_reaches sees small entry [source] named given
  have begins := grown.length
  have ordered := (walk.keep within.program).le
  rw [length]
  have inside : leave < stage.frame.slice.stop := by omega
  refine reaches.region (region.keep within.program) (by omega) inside offers ?_
  intro machine extent keeps offered entered
  have seen : (stage.on machine stage.frame).Sees scope := sees.on keeps (.refl stage.frame)
  obtain ⟨-, -, goes⟩ := arguments_reaches seen small entry [source] named given
  rw [start] at goes
  have shorter : asked.program.length < stage.frame.slice.stop := by omega
  have reached := goes inner (Nat.le_of_lt shorter) operands entered
  have put := (within.of_grows grows).program _ _ here nofun
  obtain ⟨keyed, store, told, reached⟩ := Reaches.iterate reached shorter put rfl
  rw [← next] at reached
  refine Telling.Yields.read told ?_
  have alike : stage.frame.Twin ((stage.frame.asking
      [source.reference (place.surroundings scope)]
      (Expression.namedReferences (place.surroundings scope) named)).iterating keyed) :=
    ⟨rfl, rfl, rfl⟩
  have leads := Reaches.walk reached (walk.keep within.program) inside (offered.knowing store)
    (sees.on keeps alike) (fun refs => tells refs) fails rfl rfl rfl
  refine Telling.Yields.mono leads fun trees store reached => ?_
  obtain ⟨later, frame, shown, alikeToo, same, reached⟩ := reached
  exact ⟨later, frame, shown.of_knowing, alike.trans alikeToo, same, reached⟩

end Code

end LiveTemplate
