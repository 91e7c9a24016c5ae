import LiveTemplate.Program.Pool
import LiveTemplate.Reactive.Reference

/-!
What an invocation passes on: references by position and by name, and blocks by name.
-/

namespace LiveTemplate

structure Invocation where
  positional : List Reference := []
  named : List (String × Reference) := []
  /-- A block that the invocation could have but does not is absent. -/
  blocks : List (String × Option Handle) := []
  deriving Inhabited

namespace Invocation

def nth? (invocation : Invocation) (position : Nat) : Option Reference :=
  invocation.positional[position]?

/-- Of several arguments with one name the first counts. -/
def get? (invocation : Invocation) (name : String) : Option Reference :=
  Entries.get? name invocation.named

def block? (invocation : Invocation) (name : String) : Option Handle :=
  (Entries.get? name invocation.blocks).join

/-- The tag of all references together. -/
def tag (helpers : Helpers) (invocation : Invocation) : Reading Tag :=
  Tag.combineM (Reference.tags helpers invocation.positional ++
    (Reference.namedTags helpers invocation.named).map Prod.snd)

/-- The references as a helper gets them. -/
def arguments (helpers : Helpers) (invocation : Invocation) : Arguments :=
  Reference.arguments helpers invocation.positional invocation.named

end Invocation

end LiveTemplate
