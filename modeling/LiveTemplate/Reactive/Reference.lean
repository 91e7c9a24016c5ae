import LiveTemplate.Reactive.Store

/-!
References: expressions over cells that can be read again and again. The tag of a reference tells
when reading it may give another result. Reading is a computation over the store, because helpers
may keep count, because maps of arguments are new at each reading, and because asking a list whether
it has elements begins a pass.
-/

namespace LiveTemplate

inductive Reference where
  | const (value : Value)
  | cell (id : CellId)
  | property (parent : Reference) (key : String)
  | concat (parts : List Reference)
  /-- Named arguments as one map. -/
  | namedArgs (named : List (String × Reference))
  | condition (inner : Reference) (holds : Value → Bool)
  /-- Whether the list kept at `list` has elements. -/
  | presence (list : ListId) (source : Reference) (keyFor : KeyFor)
  /-- A helper of the host applied to arguments. -/
  | helper (name : String) (positional : List Reference) (named : List (String × Reference))
  /-- The variable that `name` names at the moment. -/
  | dynamicVar (ambient : List (String × Reference)) (name : Reference)
  /-- A host's own reference that fails for some values. -/
  | guarded (inner : Reference) (refuses : Value → Option RenderError)
  /-- A host's own reference that may change without notice. -/
  | volatile (inner : Reference)
  deriving Inhabited

/-- Arguments as a helper receives them: each is read when the helper asks for it. -/
structure Arguments where
  positional : List (Reading Value) := []
  named : List (String × Reading Value) := []

namespace Arguments

/-- A positional argument, `undefined` if there is none. -/
def nth (arguments : Arguments) (position : Nat) : Reading Value :=
  (arguments.positional[position]?).getD (pure .undefined)

/-- A named argument, `undefined` if there is none. Of several with one name the first counts. -/
def get (arguments : Arguments) (name : String) : Reading Value :=
  (Entries.get? name arguments.named).getD (pure .undefined)

end Arguments

abbrev Helper := Arguments → Reading Value

/-- The helpers of a host by name. -/
abbrev Helpers := String → Option Helper

namespace Reference

/-- The content of several readings in a row. -/
def readConcat (parts : List (Reading Value)) : Reading Value :=
  return .text (← parts.foldlM (fun text part => return text ++ (← part).content) "")

def readPairs : List (String × Reading Value) → Reading (List (String × Value))
  | [] => pure []
  | (name, reading) :: rest => return (name, ← reading) :: (← readPairs rest)

/-- Begins a pass over the list, leaves it for the next reader, and tells whether it has
elements. -/
def beginPass (list : ListId) (keyFor : KeyFor) (value : Value) : Reading Bool := do
  let pass ← Reading.lift (Pass.ofValue keyFor value)
  let artifacts ← Reading.artifacts list
  Reading.setArtifacts list { artifacts with pending := some pass }
  return !pass.isEmpty

mutual

def read (helpers : Helpers) : Reference → Reading Value
  | const value => pure value
  | cell id => Reading.readCell id
  | property parent key => return (← parent.read helpers).get key
  | concat parts => readConcat (readers helpers parts)
  | namedArgs named => do Reading.newMap (← readPairs (namedReaders helpers named))
  | condition inner holds => return .bool (holds (← inner.read helpers))
  | presence list source keyFor => do
    let value ← source.read helpers
    return .bool (← beginPass list keyFor value)
  | helper name positional named =>
    match helpers name with
    | some call => call ⟨readers helpers positional, namedReaders helpers named⟩
    | none => Reading.fail (.unknownHelper name)
  | dynamicVar ambient name => do
    let name := (← name.read helpers).content
    (Entries.get? name (namedReaders helpers ambient)).getD (pure .undefined)
  | guarded inner refuses => do
    let value ← inner.read helpers
    match refuses value with
    | some error => Reading.fail error
    | none => return value
  | volatile inner => inner.read helpers

def readers (helpers : Helpers) : List Reference → List (Reading Value)
  | [] => []
  | reference :: references => reference.read helpers :: readers helpers references

def namedReaders (helpers : Helpers) : List (String × Reference) → List (String × Reading Value)
  | [] => []
  | (name, reference) :: rest => (name, reference.read helpers) :: namedReaders helpers rest

end

/-- Arguments ready to be handed to a helper. -/
def arguments (helpers : Helpers) (positional : List Reference)
    (named : List (String × Reference)) : Arguments :=
  ⟨readers helpers positional, namedReaders helpers named⟩

mutual

/-- The tag of a reference. That of a dynamic variable has to read the name, and is the tag of the
name alone if there is no such variable. -/
def tag (helpers : Helpers) : Reference → Reading Tag
  | const _ => pure .constant
  | cell id => pure (.cell id)
  | property parent _ => parent.tag helpers
  | concat parts => Tag.combineM (tags helpers parts)
  | namedArgs named => Tag.combineM ((namedTags helpers named).map Prod.snd)
  | condition inner _ => inner.tag helpers
  | presence _ source _ => source.tag helpers
  | helper _ positional named =>
    Tag.combineM (tags helpers positional ++ (namedTags helpers named).map Prod.snd)
  | dynamicVar ambient name => do
    match ← (name.read helpers).attempt with
    | .error _ => name.tag helpers
    | .ok value =>
      match Entries.get? value.content (namedTags helpers ambient) with
      | none => name.tag helpers
      | some variableTag =>
        let nameTag ← name.tag helpers
        return Tag.combine [nameTag, ← variableTag]
  | guarded inner _ => inner.tag helpers
  | volatile _ => pure .volatile

def tags (helpers : Helpers) : List Reference → List (Reading Tag)
  | [] => []
  | reference :: references => reference.tag helpers :: tags helpers references

def namedTags (helpers : Helpers) : List (String × Reference) → List (String × Reading Tag)
  | [] => []
  | (name, reference) :: rest => (name, reference.tag helpers) :: namedTags helpers rest

end

/-- A reference as diagnostics show it: the value it has now, or why it has none. -/
def shown (helpers : Helpers) (reference : Reference) : Reading String := do
  match ← (reference.read helpers).attempt with
  | .ok value => return s!"Reference({value.shown})"
  | .error error => return s!"Reference(<{error.message}>)"

end Reference

/-- The value last read from a reference, and the revision that its tag had then. -/
structure Cache where
  reference : Reference
  last : Value
  revision : Revision
  deriving Inhabited

namespace Cache

variable (helpers : Helpers)

/-- Reads a reference for the first time. The revision is taken before the value, so that a change
made while reading is noticed later. -/
def ofReference (reference : Reference) : Reading Cache := do
  let revision ← Reading.revisionOf (← reference.tag helpers)
  return ⟨reference, ← reference.read helpers, revision⟩

def tag (cache : Cache) : Reading Tag := cache.reference.tag helpers

/-- Brings the cache up to date, and returns the value if it is another one. -/
def revalidate (cache : Cache) : Reading (Cache × Option Value) := do
  let tag ← cache.tag helpers
  if ← Reading.validates tag cache.revision then return (cache, none)
  else
    let revision ← Reading.revisionOf tag
    let value ← cache.reference.read helpers
    if value == cache.last then return ({ cache with revision }, none)
    else return ({ cache with last := value, revision }, some value)

/-- Whether the reference has another value by now. The cache keeps the old one if so, and will
notice the change again. -/
def isStale (cache : Cache) : Reading (Cache × Bool) := do
  let tag ← cache.tag helpers
  if ← Reading.validates tag cache.revision then return (cache, false)
  else
    let revision ← Reading.revisionOf tag
    let value ← cache.reference.read helpers
    if value == cache.last then return ({ cache with revision }, false)
    else return (cache, true)

end Cache

end LiveTemplate
