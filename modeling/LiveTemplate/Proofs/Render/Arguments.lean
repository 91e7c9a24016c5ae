import Mathlib.Data.List.Forall2
import Mathlib.Data.List.Induction
import Mathlib.Data.List.Nodup
import LiveTemplate.Proofs.Meaning.Calls
import LiveTemplate.Proofs.Reactive.Reliable

/-!
The two ways in which the layout of a component sees its arguments. A name that the layout declares is
bound once, before anything else of the layout runs, to the first argument of that name. `this` of a basic
component is a map of all the arguments that is made anew at every reading, and in it the last argument of
a name counts. So the two read alike at every moment if no name is given twice, and need not if one is.
-/

namespace LiveTemplate

open Effects

namespace Entries

variable {κ α : Type} [DecidableEq κ]

/-- Of several pairs with one key the last counts. -/
theorem get?_ofPairs (pairs : List (κ × α)) (key : κ) :
    get? key (ofPairs pairs) = get? key pairs.reverse := by
  induction pairs using List.reverseRecOn with
  | nil => rfl
  | append_singleton rest last ih =>
    have grown : ofPairs (rest ++ [last]) = put last.1 last.2 (ofPairs rest) := by
      simp [ofPairs, List.foldl_append]
    rw [grown, List.reverse_append, List.reverse_singleton, List.singleton_append, get?]
    by_cases same : last.1 = key
    · rw [if_pos same, ← same, get?_put_self]
    · rw [if_neg same, get?_put_of_ne (Ne.symm same), ih]

/-- Without a repeated key it is all the same from which end the pairs are read. -/
theorem get?_reverse {pairs : List (κ × α)} (distinct : (pairs.map Prod.fst).Nodup) (key : κ) :
    get? key pairs.reverse = get? key pairs := by
  refine Option.ext fun value => ?_
  have turned : (pairs.reverse.map Prod.fst).Nodup := by
    rw [List.map_reverse]
    exact List.nodup_reverse.mpr distinct
  rw [get?_eq_some_iff turned, get?_eq_some_iff distinct, List.mem_reverse]

/-- Lists with related values under the same keys hold related values under each key. -/
theorem get?_related {β : Type} {related : α → β → Prop} {key : κ} {lefts : List (κ × α)}
    {rights : List (κ × β)} (each : List.Forall₂ (fun left right => left.1 = right.1 ∧
      related left.2 right.2) lefts rights) :
    Option.Rel related (get? key lefts) (get? key rights) := by
  induction each with
  | nil => exact .none
  | cons head tail ih =>
    unfold get?
    rw [← head.1]
    split
    · exact .some head.2
    · exact ih

end Entries

/-! The map of the arguments -/

namespace Reference

variable {helpers : Helpers} {named : List (String × Reference)}

theorem readers_eq_map (parts : List Reference) :
    readers helpers parts = parts.map (Reference.read helpers) := by
  induction parts with
  | nil => rfl
  | cons part parts ih => rw [readers, ih, List.map_cons]

/-- The arguments are read one after another. Each reading leaves the cells that the next one reads. -/
theorem readPairs_ok (quiet : ∀ reference : Reference, (reference.read helpers).Leaving) :
    ∀ {named : List (String × Reference)} {pairs : List (String × Value)} {store after : Store},
      readPairs (namedReaders helpers named) store = .ok pairs after →
        List.Forall₂ (fun entry pair => entry.1 = pair.1 ∧ ∃ between late, store.Leaves between ∧
          entry.2.read helpers between = .ok pair.2 late) named pairs
  | [], _, _, _, ended => by
    obtain ⟨rfl, -⟩ := pure_ok.mp ended
    exact .nil
  | (name, reference) :: rest, _, store, _, ended => by
    obtain ⟨value, between, read, ended⟩ := bind_ok.mp ended
    obtain ⟨pairs, last, others, ended⟩ := bind_ok.mp ended
    obtain ⟨rfl, -⟩ := pure_ok.mp ended
    have moved := (quiet reference).of_ok read
    refine .cons ⟨rfl, store, between, .refl store, read⟩ ?_
    refine (readPairs_ok quiet others).imp fun entry pair ⟨same, early, late, leaves, ended⟩ => ?_
    exact ⟨same, early, late, moved.trans leaves, ended⟩

variable {store after : Store} {tag : Tag} {key : String} {seen : Value}

/-- What the arguments read when they are put into one map is what each of them reads by itself. -/
theorem readPairs_alike (honest : helpers.Honest)
    (reliable : ∀ entry ∈ named, entry.2.Reliable helpers) (rests : (namedArgs named).Over store)
    (told : (namedArgs named).tag helpers store = .ok tag after) (steady : tag.Steady)
    {pairs : List (String × Value)} {last : Store}
    (listed : readPairs (namedReaders helpers named) store = .ok pairs last) :
    List.Forall₂ (fun entry pair => entry.1 = pair.1 ∧ ∃ value late,
      entry.2.read helpers store = .ok value late ∧ Likeness.contents.Alike value pair.2) named pairs := by
  rw [Over, sources, namedSources_eq] at rests
  rw [Reference.tag, namedTags_map] at told
  have agreed := combined_agree (List.forall_mem_map.mpr reliable) (fun _ => .part rests)
    (fun _ => .part rests) (.refl store) told steady fun _ _ => rfl
  rw [readers_eq_map, List.forall_mem_map, List.forall_mem_map] at agreed
  have each := readPairs_ok (Reliable.leaving honest) listed
  refine ((List.forall₂_and_left _ _).mpr ⟨agreed, each⟩).imp ?_
  rintro entry pair ⟨agree, same, between, late, leaves, read⟩
  obtain ⟨value, last, again, alike, -⟩ := agree.of_ok ⟨leaves, .refl store⟩ read
  exact ⟨same, value, last, again, alike.symm⟩

/-- A property of the map of all arguments reads like the last argument of that name. -/
theorem property_namedArgs_alike (honest : helpers.Honest)
    (reliable : ∀ entry ∈ named, entry.2.Reliable helpers) (rests : (namedArgs named).Over store)
    (told : (namedArgs named).tag helpers store = .ok tag after) (steady : tag.Steady)
    {last : Store} (read : (property (namedArgs named) key).read helpers store = .ok seen last) :
    ∃ value late, ((Entries.get? key named.reverse).getD (.const .undefined)).read helpers store =
      .ok value late ∧ Likeness.contents.Alike value seen := by
  obtain ⟨map, between, made, ended⟩ := bind_ok.mp read
  obtain ⟨rfl, -⟩ := pure_ok.mp ended
  obtain ⟨pairs, early, listed, mapped⟩ := bind_ok.mp made
  obtain ⟨storage, _, -, mapped⟩ := bind_ok.mp mapped
  obtain ⟨rfl, -⟩ := pure_ok.mp mapped
  have each := readPairs_alike honest reliable rests told steady listed
  have both : Option.Rel (fun reference value => ∃ again late,
      Reference.read helpers reference store = .ok again late ∧ Likeness.contents.Alike again value)
      (Entries.get? key named.reverse) (Entries.get? key pairs.reverse) :=
    Entries.get?_related (List.rel_reverse each)
  rw [Value.get, Entries.get?_ofPairs]
  revert both
  cases Entries.get? key named.reverse with
  | none =>
    cases Entries.get? key pairs.reverse with
    | none => exact fun _ => ⟨.undefined, store, rfl, Likeness.refl _ _⟩
    | some value => rintro ⟨⟩
  | some reference =>
    cases Entries.get? key pairs.reverse with
    | none => rintro ⟨⟩
    | some value =>
      rintro ⟨⟨value, late, read, alike⟩⟩
      exact ⟨value, late, read, alike⟩

end Reference

/-! The slots of a layout -/

namespace Scope

/-- Each name is bound in its slot. -/
def bindSlots (slot : String → Slot) : List (String × Symbol) → Scope → Scope
  | [], scope => scope
  | (name, symbol) :: rest, scope => bindSlots slot rest (scope.bind symbol (slot name))

variable {slot : String → Slot} {entries : List (String × Symbol)}

theorem slot_bindSlots_of_not_mem {symbol : Symbol} (absent : symbol ∉ entries.map Prod.snd) :
    ∀ scope : Scope, (scope.bindSlots slot entries).slot symbol = scope.slot symbol := by
  induction entries with
  | nil => exact fun _ => rfl
  | cons entry rest ih =>
    intro scope
    rw [List.map_cons, List.mem_cons, not_or] at absent
    rw [bindSlots, ih absent.2, slot_bind, if_neg absent.1]

/-- With distinct slots every name stays bound. -/
theorem slot_bindSlots (distinct : (entries.map Prod.snd).Nodup) {name : String} {symbol : Symbol}
    (member : (name, symbol) ∈ entries) :
    ∀ scope : Scope, (scope.bindSlots slot entries).slot symbol = slot name := by
  induction entries with
  | nil => cases member
  | cons entry rest ih =>
    intro scope
    rw [List.map_cons, List.nodup_cons] at distinct
    rcases List.mem_cons.mp member with rfl | later
    · rw [bindSlots, slot_bindSlots_of_not_mem distinct.1, slot_bind, if_pos rfl]
    · exact ih distinct.2 later _

@[simp] theorem this_bindSlots : ∀ (entries : List (String × Symbol)) (scope : Scope),
    (scope.bindSlots slot entries).this = scope.this
  | [], _ => rfl
  | _ :: rest, _ => this_bindSlots rest _

end Scope

namespace Running

variable {machine after : Machine} {frame : Frame} {outer : List Frame} {scope : Scope}

theorem bind_scope {symbol : Symbol} {slot : Slot} (running : machine.frames = frame :: outer)
    (there : machine.world.scopes.get frame.scope = .ok scope)
    (ended : bind symbol slot machine = .ok () after) :
    after.frames = frame :: outer ∧
      after.world.scopes.get frame.scope = .ok (scope.bind symbol slot) := by
  rw [modifyScope_ok running there ended]
  have bound := (Array.getElem?_eq_some_iff.mp (Scopes.get_ok.mp there)).1
  refine ⟨running, Scopes.get_ok.mpr ?_⟩
  rw [Array.getElem?_setIfInBounds, if_pos rfl, if_pos bound]

theorem bindSymbols_scope {scene : Scene} {names symbols : Handle} {slot : String → Slot}
    (running : machine.frames = frame :: outer)
    (there : machine.world.scopes.get frame.scope = .ok scope) {given : List String}
    (named : scene.program.pool.stringArray names = .ok given) {places : List Symbol}
    (placed : scene.program.pool.array symbols = .ok places)
    (ended : bindSymbols scene names symbols slot machine = .ok () after) :
    after.world.scopes.get frame.scope = .ok (scope.bindSlots slot (given.zip places)) := by
  have entries : ∀ (entries : List (String × Symbol)) (scope : Scope) (machine : Machine),
      machine.frames = frame :: outer → machine.world.scopes.get frame.scope = .ok scope →
      (entries.forM fun entry => bind entry.2 (slot entry.1)) machine = .ok () after →
      after.world.scopes.get frame.scope = .ok (scope.bindSlots slot entries) := by
    intro entries
    induction entries with
    | nil =>
      intro scope machine _ there ended
      obtain ⟨-, rfl⟩ := pure_ok.mp ended
      exact there
    | cons entry rest ih =>
      intro scope machine running there ended
      obtain ⟨_, between, bound, ended⟩ := bind_ok.mp ended
      obtain ⟨running', there'⟩ := bind_scope running there bound
      exact ih _ between running' there' ended
  unfold bindSymbols at ended
  rw [named, placed] at ended
  exact entries _ scope machine running there ended

/-- The layout of a basic component of whose arguments no two have one name has bound what it declares.
From then on, whenever `this` can be asked for one of its names, what the name is bound to reads alike. -/
theorem bindNamedArgs_views {scene : Scene} {first second third : Nat}
    (running : machine.frames = frame :: outer)
    (there : machine.world.scopes.get frame.scope = .ok scope)
    (basic : scope.this = .namedArgs frame.registers.invocation.named)
    {names : List String} (named : scene.program.pool.stringArray first = .ok names)
    {symbols : List Symbol} (placed : scene.program.pool.array second = .ok symbols)
    (apart : symbols.Nodup) (distinct : (frame.registers.invocation.named.map Prod.fst).Nodup)
    (ended : step scene ⟨.bindNamedArgs, first, second, third⟩ machine = .ok () after) :
    ∃ bound, after.world.scopes.get frame.scope = .ok bound ∧ bound.this = scope.this ∧
      ∀ name symbol, (name, symbol) ∈ names.zip symbols →
        ∀ {helpers : Helpers} {store between late : Store} {tag : Tag} {seen : Value},
          helpers.Honest →
          (∀ entry ∈ frame.registers.invocation.named, entry.2.Reliable helpers) →
          bound.this.Over store → bound.this.tag helpers store = .ok tag between → tag.Steady →
          (Reference.property bound.this name).read helpers store = .ok seen late →
          ∃ value last, (bound.reference symbol).read helpers store = .ok value last ∧
            Likeness.contents.Alike value seen := by
  obtain ⟨_, _, asked, ended⟩ := bind_ok.mp ended
  obtain ⟨⟨_, shape⟩, rfl⟩ := frame_ok.mp asked
  cases running.symm.trans shape
  refine ⟨_, bindSymbols_scope running there named placed ended, Scope.this_bindSlots _ _, ?_⟩
  intro name symbol member helpers store between late tag seen honest reliable rests told steady read
  rw [Scope.this_bindSlots, basic] at rests told read
  have slots : ((names.zip symbols).map Prod.snd).Nodup := by
    rw [List.zip_eq_zip_take_min, List.map_snd_zip (by simp)]
    exact apart.sublist (List.take_sublist _ _)
  have alike := Reference.property_namedArgs_alike honest reliable rests told steady read
  rw [Entries.get?_reverse distinct] at alike
  rw [Scope.reference, Scope.slot_bindSlots slots member]
  exact alike

end Running

/-- A name that is given twice is bound to what was given first, while `this` has what was given last. -/
theorem Invocation.views_part_on_repeated_names :
    let invocation : Invocation := { named := [("x", .const (.text "a")), ("x", .const (.text "b"))] }
    ((invocation.get? "x").getD (.const .undefined)).read (fun _ => none) {} =
        .ok (.text "a") {} ∧
      ∃ this tag late, ComponentManager.basic.create "card" invocation [] default = .ok (this, tag) default ∧
        (Reference.property this "x").read (fun _ => none) {} = .ok (.text "b") late :=
  ⟨rfl, _, _, _, rfl, rfl⟩

end LiveTemplate
