import LiveTemplate.Render.Refresh

/-!
A rendered page, from its first rendering to its end.
-/

namespace LiveTemplate

/-- The output of a render. A page that was destroyed has none. -/
structure Output where
  root : Option Region
  deriving Inhabited

namespace Output

variable (scene : Scene)

/-- Renders a block of the program under `parent`, in front of `before`, with `this` as what the
template is about. Hooks run when every node is in its place. A failed render leaves neither nodes
nor hooks. -/
def render (entry : Handle) (this : Reference) (parent : NodeId) (before : Option NodeId) :
    Render Output := do
  let block ← scene.program.blocks.block entry
  let names ← scene.program.tables.view block.table
  let scope ← Render.newScope names.size this
  let captured : Captured := { scope }
  Render.begin
  match ← Render.attempt (Render.resume scene captured block.slice parent before) with
  | .ok (extent, content) =>
    Render.commit scene.host.registry.hooks
    return ⟨some ⟨block.slice, captured, extent, content⟩⟩
  | .error error =>
    Render.rollback
    Render.release scope
    Render.fail error

/-- Carries out `action` on the output in a transaction of its own, which is committed even if the
action fails. -/
def within (output : Output)
    (action : Region → Render (Option Region × Option RenderError)) :
    Render (Output × Except RenderError Unit) := do
  match output.root with
  | none => return (output, .error .destroyed)
  | some root =>
    match ← Render.attempt Render.begin with
    | .error error => return (output, .error error)
    | .ok () =>
      let (root, failure) ← action root
      match ← Render.attempt (Render.commit scene.host.registry.hooks) with
      | .error error => return (⟨root⟩, .error error)
      | .ok () => return (⟨root⟩, match failure with
        | some error => .error error
        | none => .ok ())

/-- Brings the output up to date with all that has changed. What was updated stays so, even if a
region fails. With `always`, components are updated as if they had changed. -/
def rerender (always : Bool) (output : Output) : Render (Output × Except RenderError Unit) :=
  output.within scene fun root => do
    let (root, failure) ← root.refresh scene (Refresh.update scene always stepLimit)
    return (some root, failure)

/-- Renders the whole output anew, such as after a failure that left some of it out of date. -/
def handleException (output : Output) : Render (Output × Except RenderError Unit) :=
  output.within scene fun root => do
    let (root, failure) ← root.renderAgain scene
    return (some root, failure)

/-- Removes the output and runs what is to run at its end. -/
def destroy (output : Output) : Render (Output × Except RenderError Unit) := do
  let (_, result) ← output.within scene fun root => do
    let removed ← Render.attempt root.remove
    Render.release root.captured.scope
    return (none, match removed with
      | .error error => some error
      | .ok () => none)
  return (⟨none⟩, result)

def isDestroyed (output : Output) : Bool := output.root.isNone

/-- The first and the last node of the output, and the node it is under. -/
def place (output : Output) (extents : Extents) :
    Option NodeId × Option NodeId × Option NodeId :=
  match output.root with
  | none => (none, none, none)
  | some root =>
    (extents.first? root.extent, extents.last? root.extent, (extents.parent root.extent).toOption)

/-- One line for each update. -/
def listing (output : Output) : List String :=
  match output.root with
  | some root => root.content.describe
  | none => []

end Output

end LiveTemplate
