import LiveTemplate.Compile.Resolved
import LiveTemplate.Dom.Basic
import LiveTemplate.Iteration.Keyed
import LiveTemplate.Render.Scope

/-!
The host of a template: the helpers, modifiers, components and partials that a template can refer
to by name, and what the host decides for all templates. Components and modifiers live on after
they are created; their hooks tell the host what becomes of them.
-/

namespace LiveTemplate

/-- What hooks can see and change. -/
structure Page where
  store : Store := {}
  dom : Dom := {}
  deriving Inhabited

namespace Page

/-- Reads within a computation on the page. -/
def reading {α : Type} (reading : Reading α) : EStateM Fault Page α := fun page =>
  match reading page.store with
  | .ok value store => .ok value { page with store }
  | .error fault store => .error fault { page with store }

end Page

structure Component where
  id : Nat
  /-- The name it was invoked by. -/
  name : String
  /-- What `this` is in its layout. -/
  this : Reference
  /-- Tells when it changes by itself. -/
  tag : Tag
  deriving Inhabited

structure ComponentManager where
  /-- What is `this` in the layout, and the tag of what the arguments do not tell. -/
  create : String → Invocation → Variables → EStateM Fault Page (Reference × Tag)
  /-- Called when the arguments or the tag have changed. -/
  update : Component → Invocation → EStateM Fault Page Unit := fun _ _ => pure ()
  /-- The root element of the layout is there, but not yet in its place. -/
  didCreateElement : Component → NodeId → StateM Page Unit := fun _ _ => pure ()
  didRenderLayout : Component → Option NodeId → Option NodeId → StateM Page Unit :=
    fun _ _ _ => pure ()
  didUpdateLayout : Component → Option NodeId → Option NodeId → StateM Page Unit :=
    fun _ _ _ => pure ()
  /-- The last three are called when a transaction is committed. -/
  didCreate : Component → StateM Page Unit := fun _ => pure ()
  didUpdate : Component → StateM Page Unit := fun _ => pure ()
  destroy : Component → StateM Page Unit := fun _ => pure ()

namespace ComponentManager

/-- Components whose `this` is the map of their named arguments, and that have no state. -/
def basic : ComponentManager where
  create _ invocation _ := pure (.namedArgs invocation.named, .constant)

instance : Inhabited ComponentManager := ⟨basic⟩

end ComponentManager

structure Modifier where
  id : Nat
  name : String
  element : NodeId
  invocation : Invocation
  deriving Inhabited

structure ModifierManager where
  create : Modifier → EStateM Fault Page Unit := fun _ => pure ()
  /-- All but `create` are called when a transaction is committed. -/
  install : Modifier → StateM Page Unit := fun _ => pure ()
  update : Modifier → StateM Page Unit := fun _ => pure ()
  destroy : Modifier → StateM Page Unit := fun _ => pure ()
  deriving Inhabited

structure Registry where
  helpers : List (String × Helper) := []
  modifiers : List (String × ModifierManager) := []
  components : List (String × ComponentManager × Template) := []
  partials : List (String × Template) := []
  deriving Inhabited

namespace Registry

def helper? (registry : Registry) : Helpers := fun name => Entries.get? name registry.helpers

def modifier? (registry : Registry) (name : String) : Option ModifierManager :=
  Entries.get? name registry.modifiers

def component? (registry : Registry) (name : String) : Option ComponentManager :=
  (Entries.get? name registry.components).map Prod.fst

/-- How a compilation sees the names. -/
def resolver (registry : Registry) : Resolver where
  hasHelper name := (registry.helper? name).isSome
  hasModifier name := (registry.modifier? name).isSome
  layout? name := (Entries.get? name registry.components).map Prod.snd
  partial? name := Entries.get? name registry.partials
  partialNames := (registry.partials.map Prod.fst).mergeSort

end Registry

structure Host where
  registry : Registry := {}
  /-- Which values are true. -/
  holds : Value → Bool := Value.truthy
  /-- How the value of a reference is passed over, with the key that an `each` asks for. -/
  iterable : Reference → String → Except RenderError Iterable :=
    fun source key => .ok ⟨source, KeyFor.parse key⟩
  deriving Inhabited

def Host.helpers (host : Host) : Helpers := host.registry.helper?

end LiveTemplate
