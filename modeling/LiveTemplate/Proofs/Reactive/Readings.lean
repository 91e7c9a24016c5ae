import LiveTemplate.Iteration.Keyed
import LiveTemplate.Proofs.Effects

/-!
Properties that every reading has if the helpers of the host have them. References are read by
putting readings together, so a property of this kind is proved once for each of the few ways to do
so.
-/

namespace LiveTemplate

/-- A property of readings that is kept when references are read. -/
structure Reading.Closed (good : ∀ {α : Type}, Reading α → Prop) : Prop where
  pure : ∀ {α : Type} (value : α), good (Pure.pure value : Reading α)
  fail : ∀ {α : Type} (error : RenderError), good (Reading.fail error : Reading α)
  bind : ∀ {α β : Type} {first : Reading α} {next : α → Reading β}, good first →
    (∀ value, good (next value)) → good (first >>= next)
  readCell : ∀ id, good (Reading.readCell id)
  newMap : ∀ entries, good (Reading.newMap entries)
  beginPass : ∀ list keyFor value, good (Reference.beginPass list keyFor value)

/-- What a helper reads is good if its arguments are. -/
def Helpers.Respect (helpers : Helpers) (good : ∀ {α : Type}, Reading α → Prop) : Prop :=
  ∀ name call, helpers name = some call → ∀ arguments : Arguments,
    (∀ reading ∈ arguments.positional, good reading) →
    (∀ entry ∈ arguments.named, good entry.2) → good (call arguments)

namespace Reading.Closed

variable {good : ∀ {α : Type}, Reading α → Prop} {helpers : Helpers}

theorem readConcat (closed : Reading.Closed good) {parts : List (Reading Value)}
    (each : ∀ part ∈ parts, good part) : good (Reference.readConcat parts) := by
  have folded : ∀ text, good (parts.foldlM
      (fun text part => do return text ++ (← part).content) text : Reading String) := by
    induction parts with
    | nil => exact fun text => closed.pure text
    | cons part parts ih =>
      intro text
      rw [List.foldlM_cons]
      refine closed.bind (closed.bind (each part (by simp)) fun value => closed.pure _) fun text => ?_
      exact ih (fun later member => each later (by simp [member])) text
  exact closed.bind (folded "") fun text => closed.pure _

theorem readPairs (closed : Reading.Closed good) {named : List (String × Reading Value)}
    (each : ∀ entry ∈ named, good entry.2) : good (Reference.readPairs named) := by
  induction named with
  | nil => exact closed.pure _
  | cons entry rest ih =>
    obtain ⟨name, reading⟩ := entry
    refine closed.bind (each (name, reading) (by simp)) fun value => ?_
    exact closed.bind (ih fun later member => each later (by simp [member])) fun values =>
      closed.pure _

theorem get? (closed : Reading.Closed good) {named : List (String × Reading Value)}
    (each : ∀ entry ∈ named, good entry.2) (name : String) :
    good ((Entries.get? name named).getD (Pure.pure .undefined)) := by
  cases found : Entries.get? name named with
  | none => exact closed.pure _
  | some reading => exact each _ (Entries.mem_of_get? found)

mutual

/-- Reading a reference is good if the helpers are. -/
theorem read (closed : Reading.Closed good) (respect : helpers.Respect good) :
    ∀ reference : Reference, good (reference.read helpers)
  | .const value => closed.pure value
  | .cell id => closed.readCell id
  | .property parent key => closed.bind (read closed respect parent) fun value => closed.pure _
  | .concat parts => closed.readConcat (readers closed respect parts)
  | .namedArgs named =>
    closed.bind (closed.readPairs (namedReaders closed respect named)) fun entries =>
      closed.newMap entries
  | .condition inner holds => closed.bind (read closed respect inner) fun value => closed.pure _
  | .presence list source keyFor => closed.bind (read closed respect source) fun value =>
      closed.bind (closed.beginPass list keyFor value) fun found => closed.pure _
  | .helper name positional named => by
    unfold Reference.read
    cases found : helpers name with
    | none => exact closed.fail _
    | some call =>
      exact respect name call found _ (readers closed respect positional)
        (namedReaders closed respect named)
  | .dynamicVar ambient name => closed.bind (read closed respect name) fun value =>
      closed.get? (namedReaders closed respect ambient) _
  | .guarded inner refuses => by
    refine closed.bind (read closed respect inner) fun value => ?_
    cases refuses value with
    | none => exact closed.pure _
    | some error => exact closed.fail error
  | .volatile inner => read closed respect inner

theorem readers (closed : Reading.Closed good) (respect : helpers.Respect good) :
    ∀ references : List Reference,
    ∀ reading ∈ Reference.readers helpers references, good reading
  | [] => fun reading member => by simp [Reference.readers] at member
  | reference :: references => fun reading member => by
    rcases List.mem_cons.mp member with rfl | member
    · exact read closed respect reference
    · exact readers closed respect references reading member

theorem namedReaders (closed : Reading.Closed good) (respect : helpers.Respect good) :
    ∀ named : List (String × Reference),
    ∀ entry ∈ Reference.namedReaders helpers named, good entry.2
  | [] => fun entry member => by simp [Reference.namedReaders] at member
  | (name, reference) :: rest => fun entry member => by
    rcases List.mem_cons.mp member with rfl | member
    · exact read closed respect reference
    · exact namedReaders closed respect rest entry member

end

end Reading.Closed

/-- The step of a first pass of which this much is to come. -/
def FirstPass.record (walk : FirstPass) : Pass → Reading (FirstPass × Option ItemRefs)
  | [] => return ({ walk with rest := some [] }, none)
  | item :: rest => do
    let refs ← item.newRefs
    let artifacts ← Reading.artifacts walk.keyed.list
    Reading.setArtifacts walk.keyed.list (artifacts.append refs)
    return ({ walk with rest := some rest }, some refs)

theorem FirstPass.next_eq (walk : FirstPass) (helpers : Helpers) :
    walk.next helpers = match walk.rest with
      | some pass => walk.record pass
      | none => walk.keyed.takePass helpers >>= walk.record := by
  unfold FirstPass.next
  cases walk.rest <;> rfl

end LiveTemplate
