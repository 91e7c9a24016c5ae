import LiveTemplate.Render.Transaction
import LiveTemplate.Workbench.Helpers

/-!
Components and modifiers for trying out templates. They write down in the host's log what becomes of
them. Some keep state, and some fail while the budget of failures lasts.
-/

namespace LiveTemplate.Workbench

/-- Writes a line into the log. -/
def note (line : String) : StateM Page Unit :=
  modify fun page =>
    let host := page.store.host
    { page with store := { page.store with host := { host with log := line :: host.log } } }

def nodeName : Option NodeId → String
  | some id => s!"#{id}"
  | none => "-"

def rangeName (first last : Option NodeId) : String := nodeName first ++ ".." ++ nodeName last

/-! Components -/

def textOf (helpers : Helpers) (invocation : Invocation) : Reading String :=
  argumentsText (invocation.arguments helpers)

def themeOf (helpers : Helpers) (ambient : Variables) : Reading String := do
  match Entries.get? "theme" ambient with
  | none => return "-"
  | some theme => argumentsText ⟨[theme.read helpers], []⟩

/-- A cell with a count that starts at zero. -/
def newCounter (name : String) : Reading CellId := do
  let cell ← Reading.newCell (← Reading.newMap [("count", .int 0)])
  Reading.modifyHost fun host => { host with counters := (name, cell) :: host.counters }
  return cell

def createComponent (helpers : Helpers) (kind name : String) (invocation : Invocation)
    (ambient : Variables) : Reading (Reference × Tag) := do
  let theme ← themeOf helpers ambient
  let text ← textOf helpers invocation
  let filled := (invocation.block? "default").isSome
  Reading.log s!"{name} create {text} block={filled} theme={theme}"
  let basic := Reference.namedArgs invocation.named
  match kind with
  | "stateful" =>
    let cell ← newCounter name
    return (.cell cell, .cell cell)
  | "self-arg" =>
    let this := invocation.get? "self" <|> invocation.nth? 0
    return (this.getD (.const .undefined), .constant)
  | "volatile" => return (basic, .volatile)
  | "fail-create" =>
    if ← spend then Reading.fail (.host ("cannot create " ++ name))
    return (basic, .constant)
  | _ => return (basic, .constant)

def updateComponent (helpers : Helpers) (kind name : String) (invocation : Invocation) :
    Reading Unit := do
  if kind = "fail-update" then
    if ← spend then
      Reading.log (name ++ " update failed")
      Reading.fail (.host ("cannot update " ++ name))
  Reading.log s!"{name} update {← textOf helpers invocation}"

/-- A manager of components that write down what becomes of them. -/
def recordingManager (helpers : Helpers) (kind : String) : ComponentManager where
  create name invocation ambient :=
    Page.reading (createComponent helpers kind name invocation ambient)
  update component invocation :=
    Page.reading (updateComponent helpers kind component.name invocation)
  didCreateElement component element := note s!"{component.name} element #{element}"
  didRenderLayout component first last := note s!"{component.name} layout {rangeName first last}"
  didUpdateLayout component first last :=
    note s!"{component.name} layout updated {rangeName first last}"
  didCreate component := note (component.name ++ " created")
  didUpdate component := note (component.name ++ " updated")
  destroy component := note (component.name ++ " destroyed")

def componentManager (helpers : Helpers) (kind : String) : ComponentManager :=
  if kind = "" ∨ kind = "basic" then .basic else recordingManager helpers kind

def increment (cell : CellId) : Reading Unit := do
  match (← Reading.readCell cell).get "count" with
  | .int count =>
    let _ ← Reading.updateCell cell (← Reading.newMap [("count", .int (count + 1))])
  | _ => return

/-- Adds one to the counts of all components of that name. -/
def bump (name : String) : Reading Unit := do
  let counters := (← get).host.counters.reverse.filter fun counter => counter.1 = name
  counters.forM fun (_, cell) => increment cell

/-! Modifiers -/

/-- Reads within a hook. What is read here has failures taken care of. -/
def observe (reading : Reading String) : StateM Page String := fun page =>
  match reading page.store with
  | .ok text store => (text, { page with store })
  | .error _ store => ("", { page with store })

def createModifier (helpers : Helpers) (kind : String) (modifier : Modifier) :
    EStateM Fault Page Unit := do
  match kind with
  | "fail" =>
    if ← Page.reading spend then
      throw (.failed (.host s!"cannot modify #{modifier.element}"))
  | "style" =>
    let text ← Page.reading (textOf helpers modifier.invocation)
    let page ← get
    match page.dom.setAttribute modifier.element ⟨"data-mod", text, none⟩ with
    | .ok dom => set { page with dom }
    | .error defect => throw (.broken defect)
  | _ => return

def isAttached (dom : Dom) (element : NodeId) : Bool :=
  match dom.parent element with
  | .ok (some _) => true
  | _ => false

def modifierManager (helpers : Helpers) (kind : String) : ModifierManager where
  create := createModifier helpers kind
  install modifier := do
    let attached := isAttached (← get).dom modifier.element
    let text ← observe (textOf helpers modifier.invocation)
    note s!"{modifier.name} install #{modifier.element} attached={attached} {text}"
  update modifier := do
    let text ← observe (textOf helpers modifier.invocation)
    note s!"{modifier.name} update #{modifier.element} {text}"
  destroy modifier := note s!"{modifier.name} destroy #{modifier.element}"

/-- Hooks that only write down that they were called, whatever the name. -/
def recordingHooks : Hooks where
  component _ := recordingManager (fun _ => none) ""
  modifier _ := modifierManager (fun _ => none) ""

end LiveTemplate.Workbench
