import LiveTemplate.Iteration.Sync

/-!
The plainest target of a synchronisation: a list of keys. It shows what an edit means, and can be
told to refuse edits, each once.
-/

namespace LiveTemplate

namespace KeyList

/-- Puts `key` in front of the first `before`, or last. -/
def place (key : Key) (before : Option Key) : List Key → List Key
  | [] => [key]
  | other :: rest =>
    if some other = before then key :: other :: rest else other :: place key before rest

/-- What an edit does to a list of keys. -/
def edit (keys : List Key) : Edit → List Key
  | .retain _ | .done => keys
  | .insert item before => place item.key before keys
  | .move item before => place item.key before (keys.filter (· ≠ item.key))
  | .delete key => keys.filter (· ≠ key)

end KeyList

/-- The text of a key that has one. -/
def Key.text? : Key → Option String
  | .text value => some value
  | .list _ | .map _ => none

/-- A short name for an edit. One of an item that is known by its storage has none. -/
def Edit.label? : Edit → Option String
  | .retain item => item.key.text?.map ("retain " ++ ·)
  | .insert item _ => item.key.text?.map ("insert " ++ ·)
  | .move item _ => item.key.text?.map ("move " ++ ·)
  | .delete key => key.text?.map ("delete " ++ ·)
  | .done => some "done"

/-- An edit that was carried out, with what the cells of its item held then. -/
structure EditRecord where
  edit : Edit
  values : Option (Value × Value)

/-- A list of keys beside a store, the edits it is to refuse, and those it has carried out, newest
first. -/
structure KeyedStore where
  store : Store := {}
  keys : List Key := []
  refused : List String := []
  edits : List EditRecord := []

namespace KeyedStore

def onStore {α : Type} (reading : Reading α) : EStateM Fault KeyedStore α := fun state =>
  match reading state.store with
  | .ok value store => .ok value { state with store }
  | .error fault store => .error fault { state with store }

def valuesOf : Edit → Reading (Option (Value × Value))
  | .retain item | .insert item _ | .move item _ => do
    return some (← Reading.readCell item.value, ← Reading.readCell item.memo)
  | .delete _ | .done => return none

def apply (edit : Edit) : EStateM Fault KeyedStore Unit := do
  let state ← get
  match edit.label?.filter (· ∈ state.refused) with
  | some label =>
    set { state with refused := state.refused.erase label }
    throw (.failed (.helperFailed "sync" label))
  | none =>
    let values ← onStore (valuesOf edit)
    modify fun state =>
      { state with keys := KeyList.edit state.keys edit, edits := ⟨edit, values⟩ :: state.edits }

def target : SyncTarget KeyedStore := ⟨onStore, apply⟩

end KeyedStore

end LiveTemplate
