import LiveTemplate.Iteration.Sync
import LiveTemplate.Render.Execution

/-!
Bringing rendered output up to date. The updates of a region are gone through in their order. An
update that finds its region's output out of date has the region rendered again, and so does one
that fails, if the configuration asks for it. What a region has already done stays done.
-/

namespace LiveTemplate

/-- How far a walk through updates came. -/
inductive Outcome where
  | current
  /-- The region's output no longer fits, so it must be rendered again. -/
  | outdated
  /-- An update of the region itself failed. -/
  | raised (error : RenderError)
  /-- A nested region failed, and has had its chance to recover. -/
  | propagated (error : RenderError)
  deriving Repr, DecidableEq, Inhabited

def Render.attempt {α : Type} (action : Render α) : Render (Except RenderError α) := fun world =>
  match action world with
  | .ok value world => .ok (.ok value) world
  | .error (.failed error) world => .ok (.error error) world
  | .error (.broken defect) world => .error (.broken defect) world

namespace Region

variable (scene : Scene)

/-- Renders a slice. The hooks that a failed run queued are forgotten. -/
def render (captured : Captured) (slice : Slice) (parent : NodeId) (before : Option NodeId) :
    Render (ExtentId × Content) := do
  let savepoint ← Render.savepoint
  match ← Render.attempt (Render.resume scene captured slice parent before) with
  | .ok output => return output
  | .error error =>
    Render.rollbackTo savepoint
    Render.fail error

/-- Replaces the output of a region. The new output is put in front of the old, which goes away only
when the new one is complete. -/
def renderAgain (region : Region) : Render (Region × Option RenderError) := do
  let extents ← Render.extents
  let parent ← extents.parent region.extent
  match ← Render.attempt (render scene region.captured region.slice parent
      (extents.first? region.extent)) with
  | .error error => return (region, some error)
  | .ok (extent, content) =>
    Render.clear region.extent
    region.content.teardown
    Render.setExtents (← (← Render.extents).takeOver region.extent extent)
    return ({ region with content }, none)

/-- Goes through updates in their order as long as they are current. -/
def goThrough (refresh : Update → Render (Update × Outcome)) :
    List Update → Render (List Update × Outcome)
  | [] => return ([], .current)
  | update :: rest => do
    match ← refresh update with
    | (update, .current) =>
      let (rest, outcome) ← goThrough refresh rest
      return (update :: rest, outcome)
    | (update, outcome) => return (update :: rest, outcome)

/-- Brings a region up to date, one way or the other. -/
def refresh (refreshUpdate : Update → Render (Update × Outcome)) (region : Region) :
    Render (Region × Option RenderError) := do
  let (updates, outcome) ← goThrough refreshUpdate region.content.updates
  let region := { region with content := { region.content with updates } }
  match outcome with
  | .current => return (region, none)
  | .outdated => region.renderAgain scene
  | .raised error =>
    if scene.config.recover then region.renderAgain scene else return (region, some error)
  | .propagated error => return (region, some error)

end Region

namespace ListRegion

/-- The world and the items of a list while the list is synchronised. -/
structure Syncing where
  world : World
  items : List (Key × Region)
  deriving Inhabited

namespace Syncing

def onWorld {α : Type} (action : Render α) : EStateM Fault Syncing α := fun state =>
  match action state.world with
  | .ok value world => .ok value { state with world }
  | .error fault world => .error fault { state with world }

instance : MonadLift (EStateM Fault World) (EStateM Fault Syncing) := ⟨onWorld⟩

end Syncing

/-- The place of the item with the key `before`, and the node in front of which output goes there.
Without one it is the end of the list, in front of `anchor`. -/
def position (extents : Extents) (anchor : Option NodeId) (items : List (Key × Region))
    (before : Option Key) : Nat × Option NodeId :=
  match items.findIdx? fun item => some item.1 = before with
  | some index => (index, (items[index]?).bind fun item => extents.first? item.2.extent)
  | none => (items.length, anchor)

/-- Carries out an edit on the items and their output. -/
def apply (scene : Scene) (list : ListRegion) (anchor : Option NodeId) (edit : Edit) :
    EStateM Fault Syncing Unit := do
  let items := (← get).items
  let put (items : List (Key × Region)) : EStateM Fault Syncing Unit :=
    modify fun state => { state with items }
  let extents ← Render.extents
  match edit with
  | .retain _ => return
  | .insert refs before =>
    let (index, next) := position extents anchor items before
    let captured := { list.captured with
      registers := { list.captured.registers with invocation := refs.invocation } }
    let (extent, content) ← Region.render scene captured list.itemSlice
      (← extents.parent list.extent) next
    let region := ⟨list.itemSlice, captured, extent, content⟩
    match items.findIdx? fun item => item.1 = refs.key with
    | none => put (items.insertIdx index (refs.key, region))
    | some old =>
      put (items.eraseIdx old)
      if let some (_, earlier) := items[old]? then earlier.remove
      put ((items.eraseIdx old).insertIdx (if old < index then index - 1 else index)
        (refs.key, region))
  | .move refs before =>
    let (target, next) := position extents anchor items before
    match items.findIdx? fun item => item.1 = refs.key with
    | none => return
    | some index =>
      if let some (key, region) := items[index]? then
        if let some (first, last) := extents.ends? region.extent then
          let dom ← (← Render.dom).moveBefore (← extents.parent list.extent) first last next
          Render.setDom dom
        put ((items.eraseIdx index).insertIdx (if index < target then target - 1 else target)
          (key, region))
  | .delete key =>
    put (items.filter fun item => item.1 ≠ key)
    if let some region := Entries.get? key items then region.remove
  | .done => do
    Render.setExtents (← extents.setItems list.extent (items.map fun item => item.2.extent))

def target (scene : Scene) (list : ListRegion) (anchor : Option NodeId) :
    SyncTarget Syncing where
  onStore reading := Syncing.onWorld (Render.onPage (Page.reading reading))
  apply := list.apply scene anchor

/-- Brings the items in step with the list. -/
def sync (scene : Scene) (list : ListRegion) (anchor : Option NodeId) :
    Render (ListRegion × Option RenderError) := fun world =>
  match (list.target scene anchor).sync scene.helpers list.keyed ⟨world, list.items⟩ with
  | .ok () state => .ok ({ list with items := state.items }, none) state.world
  | .error (.failed error) state =>
    .ok ({ list with items := state.items }, some error) state.world
  | .error fault state => .error fault state.world

/-- Brings the items in step with the list if that may have changed. An emptied list is for the
region around it to replace. -/
def resync (scene : Scene) (always : Bool) (list : ListRegion) :
    Render (ListRegion × Outcome) := do
  let unchanged ←
    if always then pure false
    else do
      let tag ← list.keyed.tag scene.helpers
      Reading.validates tag list.last
  if unchanged then return (list, .current)
  let now ← Reading.now
  match ← Render.attempt (list.keyed.isEmpty scene.helpers) with
  | .error error => return (list, .raised error)
  | .ok true => return (list, .outdated)
  | .ok false =>
    let dom ← Render.dom
    let extents ← Render.extents
    let anchor ← match extents.last? list.extent with
      | some last => dom.nextSibling last
      | none => pure none
    match ← list.sync scene anchor with
    | (list, none) => return ({ list with last := now }, .current)
    | (list, some error) =>
      let items := list.items.map fun item => item.2.extent
      Render.setExtents (← (← Render.extents).setItems list.extent items)
      return (list, .raised error)

/-- Brings items up to date in their order as long as none fails. -/
def refreshItems (refresh : Region → Render (Region × Option RenderError)) :
    List (Key × Region) → Render (List (Key × Region) × Outcome)
  | [] => return ([], .current)
  | (key, region) :: rest => do
    match ← refresh region with
    | (region, none) =>
      let (rest, outcome) ← refreshItems refresh rest
      return ((key, region) :: rest, outcome)
    | (region, some error) => return ((key, region) :: rest, .propagated error)

def refresh (scene : Scene) (always : Bool) (refreshUpdate : Update → Render (Update × Outcome))
    (list : ListRegion) : Render (ListRegion × Outcome) := do
  match ← list.resync scene always with
  | (list, .current) =>
    let (items, outcome) ← refreshItems (Region.refresh scene refreshUpdate) list.items
    return ({ list with items }, outcome)
  | (list, outcome) => return (list, outcome)

end ListRegion

namespace Refresh

variable (scene : Scene) (always : Bool)

/-- Replaces trusted markup by a node of its own. -/
def replaceRaw (extent : ExtentId) (markup : String) : Render Unit := do
  let extents ← Render.extents
  let parent ← extents.parent extent
  let node ← Render.createNode (.raw markup)
  Render.setDom (← (← Render.dom).insert parent node (extents.first? extent))
  Render.clear extent
  let fresh ← Render.newBlock parent
  let extents ← (← Render.extents).append fresh (.node node)
  Render.setExtents (← extents.takeOver extent fresh)

def hooks (component : Component) : ComponentManager :=
  scene.host.registry.hooks.component component.name

/-- Carries out an update that no region is nested in, and tells whether the region's output is out
of date. -/
def carryOut (subject : Update) : Render (Update × Bool) := do
  match subject with
  | .text node cache =>
    let (cache, changed) ← cache.revalidate scene.helpers
    if let some value := changed then
      Render.setDom (← (← Render.dom).setContent node value.content)
    return (.text node cache, false)
  | .raw extent cache =>
    let (cache, changed) ← cache.revalidate scene.helpers
    if let some value := changed then replaceRaw extent value.content
    return (.raw extent cache, false)
  | .attr element name space cache =>
    let (cache, changed) ← cache.revalidate scene.helpers
    if let some value := changed then applyAttribute element name space value
    return (.attr element name space cache, false)
  | .assert cache =>
    let (cache, stale) ← cache.isStale scene.helpers
    return (.assert cache, stale)
  | .component component invocation last =>
    let tag := Tag.combine [← invocation.tag scene.helpers, component.tag]
    let valid ← Reading.validates tag last
    if valid && !always then return (subject, false)
    let revision ← Reading.revisionOf tag
    (hooks scene component).update component invocation
    return (.component component invocation revision, false)
  | .layout component extent =>
    let extents ← Render.extents
    Render.hook ((hooks scene component).didUpdateLayout component (extents.first? extent)
      (extents.last? extent))
    Render.queue (Transaction.didUpdate component)
    return (subject, false)
  | .modifier modifier invocation last =>
    let tag ← invocation.tag scene.helpers
    if ← Reading.validates tag last then return (subject, false)
    let revision ← Reading.revisionOf tag
    Render.queue (Transaction.update modifier)
    return (.modifier modifier invocation revision, false)
  | .group .. | .region _ | .list _ => return (subject, false)

/-- Brings an update up to date with all that is nested in it, down to so many levels. -/
def update : Nat → Update → Render (Update × Outcome)
  | 0, _ => throw (.broken .endless)
  | depth + 1, subject => do
    match subject with
    | .group last members =>
      let tag ← (Tag.combineM (Update.tags scene.helpers members) : Reading Tag)
      let valid ← Reading.validates tag last
      if valid && !always then return (subject, .current)
      let now ← Reading.now
      match ← Region.goThrough (update depth) members with
      | (members, .current) => return (.group now members, .current)
      | (members, outcome) => return (.group last members, outcome)
    | .region region =>
      match ← region.refresh scene (update depth) with
      | (region, none) => return (.region region, .current)
      | (region, some error) => return (.region region, .propagated error)
    | .list list =>
      let (list, outcome) ← list.refresh scene always (update depth)
      return (.list list, outcome)
    | leaf =>
      match ← Render.attempt (carryOut scene always leaf) with
      | .ok (updated, stale) => return (updated, if stale then .outdated else .current)
      | .error error => return (leaf, .raised error)

end Refresh

end LiveTemplate
