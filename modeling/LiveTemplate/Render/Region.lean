import LiveTemplate.Render.World

/-!
Regions: pieces of output that can be rendered again on their own, and what keeps them up to date.
While a program runs, whatever it appends that may change is recorded as an update of the innermost
open region. Later the updates are gone through in the order of the page, instead of running the
program again.
-/

namespace LiveTemplate

/-- The registers of a frame that a region keeps. -/
structure Registers where
  operand : Option Reference := none
  invocation : Invocation := {}
  condition : Option Reference := none
  deriving Inhabited

/-- All that is needed to run the code of a region again. -/
structure Captured where
  registers : Registers := {}
  locals : List (Option Reference) := []
  scope : ScopeId
  ambient : Variables := []
  deriving Inhabited

mutual

/-- What a region owns besides its nodes. -/
structure Content where
  updates : List Update := []
  scopes : List ScopeId := []
  owned : List Owned := []

/-- Output that is rendered from one slice: the body of a conditional, an item of a list, a partial
whose name may change, or the whole page. -/
structure Region where
  slice : Slice
  captured : Captured
  extent : ExtentId
  content : Content

/-- The output of an `each`: a region for each item, in the order of the page. -/
structure ListRegion where
  itemSlice : Slice
  captured : Captured
  keyed : KeyedList
  /-- When it was last in step with its list. -/
  last : Revision
  extent : ExtentId
  items : List (Key × Region)

inductive Update where
  | text (node : NodeId) (cache : Cache)
  | raw (extent : ExtentId) (cache : Cache)
  | attr (element : NodeId) (name : String) (space : Option String) (cache : Cache)
  /-- The condition that a branch was taken on. The region is rendered again when it flips. -/
  | assert (cache : Cache)
  | component (component : Component) (invocation : Invocation) (last : Revision)
  | layout (component : Component) (extent : ExtentId)
  | modifier (modifier : Modifier) (invocation : Invocation) (last : Revision)
  /-- The updates of a component, which are passed over while nothing behind them has changed. -/
  | group (last : Revision) (members : List Update)
  | region (region : Region)
  | list (list : ListRegion)

end

instance : Inhabited Content := ⟨{}⟩
instance : Inhabited Region := ⟨⟨⟨0, 0⟩, default, 0, {}⟩⟩
instance : Inhabited ListRegion := ⟨⟨⟨0, 0⟩, default, default, .constant, 0, []⟩⟩
instance : Inhabited Update := ⟨.group .constant []⟩

/-! What updates depend on -/

mutual

/-- Tells when an update may have something to do. -/
def Update.tag (helpers : Helpers) : Update → Reading Tag
  | .text _ cache | .raw _ cache | .attr _ _ _ cache | .assert cache => cache.tag helpers
  | .component component invocation _ => do
    return Tag.combine [← invocation.tag helpers, component.tag]
  | .layout .. => pure .constant
  | .modifier _ invocation _ => invocation.tag helpers
  | .group _ members => Tag.combineM (Update.tags helpers members)
  | .region ⟨_, _, _, content⟩ => content.tag helpers
  | .list ⟨_, _, keyed, _, _, items⟩ =>
    Tag.combineM (keyed.tag helpers :: Update.itemTags helpers items)

def Update.tags (helpers : Helpers) : List Update → List (Reading Tag)
  | [] => []
  | update :: rest => update.tag helpers :: Update.tags helpers rest

def Update.itemTags (helpers : Helpers) : List (Key × Region) → List (Reading Tag)
  | [] => []
  | (_, ⟨_, _, _, content⟩) :: rest => content.tag helpers :: Update.itemTags helpers rest

def Content.tag (helpers : Helpers) : Content → Reading Tag
  | ⟨updates, _, _⟩ => Tag.combineM (Update.tags helpers updates)

end

/-! The end of a region -/

mutual

/-- Releases the scopes of what was never shown, and of all that is nested in it. -/
def Content.discard : Content → Scopes → Scopes
  | ⟨updates, own, _⟩, scopes => own.foldl Scopes.release (Update.discardAll updates scopes)

def Update.discard : Update → Scopes → Scopes
  | .group _ members, scopes => Update.discardAll members scopes
  | .region ⟨_, _, _, content⟩, scopes => content.discard scopes
  | .list ⟨_, _, _, _, _, items⟩, scopes => Update.discardItems items scopes
  | _, scopes => scopes

def Update.discardAll : List Update → Scopes → Scopes
  | [], scopes => scopes
  | update :: rest, scopes => Update.discardAll rest (update.discard scopes)

def Update.discardItems : List (Key × Region) → Scopes → Scopes
  | [], scopes => scopes
  | (_, ⟨_, _, _, content⟩) :: rest, scopes => Update.discardItems rest (content.discard scopes)

end

mutual

/-- Hands what the content owns to the transaction and releases its scopes, the innermost first. -/
def Content.teardown : Content → Render Unit
  | ⟨updates, scopes, owned⟩ => do
    Update.teardownAll updates
    owned.forM fun owned => Render.queue (Transaction.didDestroy owned)
    scopes.forM Render.release

def Update.teardown : Update → Render Unit
  | .group _ members => Update.teardownAll members
  | .region ⟨_, _, _, content⟩ => content.teardown
  | .list ⟨_, _, _, _, _, items⟩ => Update.teardownItems items
  | _ => pure ()

def Update.teardownAll : List Update → Render Unit
  | [] => pure ()
  | update :: rest => do
    update.teardown
    Update.teardownAll rest

def Update.teardownItems : List (Key × Region) → Render Unit
  | [] => pure ()
  | (_, ⟨_, _, _, content⟩) :: rest => do
    content.teardown
    Update.teardownItems rest

end

/-- Removes the output of a region with all that it owns. -/
def Region.remove (region : Region) : Render Unit := do
  Render.clear region.extent
  region.content.teardown

/-! Listings -/

mutual

/-- How many updates there are, where those of a group count as well. -/
def Update.count : Update → Nat
  | .group _ members => 1 + Update.countAll members
  | _ => 1

def Update.countAll : List Update → Nat
  | [] => 0
  | update :: rest => update.count + Update.countAll rest

end

def indented (depth : Nat) (line : String) : String :=
  String.join (List.replicate depth "  ") ++ line

mutual

/-- One line for each update, indented by the regions it lies in. -/
def Update.describe (depth : Nat) : Update → List String
  | .text .. => [indented depth "UpdateText"]
  | .raw .. => [indented depth "UpdateRaw"]
  | .attr .. => [indented depth "UpdateAttr"]
  | .assert .. => [indented depth "Assert"]
  | .component .. => [indented depth "UpdateComponent"]
  | .layout .. => [indented depth "DidUpdateLayout"]
  | .modifier .. => [indented depth "UpdateModifier"]
  | .group _ members =>
    indented depth s!"CacheGroup({Update.countAll members})" :: Update.describeAll depth members
  | .region ⟨_, _, _, ⟨updates, _, _⟩⟩ =>
    indented depth "Try" :: Update.describeAll (depth + 1) updates
  | .list ⟨_, _, _, _, _, items⟩ =>
    indented depth s!"List({items.length})" :: Update.describeItems (depth + 1) items

def Update.describeAll (depth : Nat) : List Update → List String
  | [] => []
  | update :: rest => update.describe depth ++ Update.describeAll depth rest

def Update.describeItems (depth : Nat) : List (Key × Region) → List String
  | [] => []
  | (_, ⟨_, _, _, ⟨updates, _, _⟩⟩) :: rest =>
    Update.describeAll depth updates ++ Update.describeItems depth rest

end

def Content.describe (content : Content) : List String := Update.describeAll 0 content.updates

end LiveTemplate
