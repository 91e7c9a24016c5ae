import LiveTemplate.Config.Basic
import LiveTemplate.Yaml.Resolution

/-!
Configuration files. A file whose name ends in `.json` holds JSON, and any other holds YAML. Either
way it is a mapping from names to settings.
-/

namespace LiveTemplate.Config

def Setting.ofNode : Yaml.Node → Setting
  | .scalar tag plain text =>
    match Yaml.flag? text, Yaml.integer? text with
    | some value, _ => if Yaml.holdsFlag tag plain then flag value else other
    | none, some value =>
      if Yaml.holdsInteger tag plain && 0 ≤ value then natural value.toNat else other
    | none, none => other
  | _ => other

/-- The nesting of collections up to which a file is read. -/
def nestingLimit : Nat := 128

/-- The settings of a mapping. Its keys have to be scalars, and its values have to stand for
something. -/
def settings? (entries : List (Yaml.Node × Yaml.Node)) : Option (List (String × Setting)) :=
  entries.mapM fun (key, value) =>
    match key with
    | .scalar _ _ name =>
      if value.isSound (nestingLimit - 1) then some (name, Setting.ofNode value) else none
    | _ => none

/-- The settings in a YAML text. One without content has none. -/
def ofYaml? (source : String) : Option Config := do
  match ← Yaml.read? source with
  | none => ofSettings []
  | some (.scalar _ plain text) => if plain && text.isEmpty then ofSettings [] else none
  | some (.mapping _ entries) => ofSettings (← settings? entries)
  | some (.sequence ..) => none

/-- Whether a name ends in `.json`, with something in front of that. -/
def isJson (name : String) : Bool :=
  name.endsWith ".json" && name ≠ ".json"

/-- Reads a configuration file. A file that is not there leaves the defaults. -/
def ofFile? (name : String) (content : Option String) : Option Config :=
  match content with
  | none => some {}
  | some source =>
    if isJson name then (Json.parse? source).bind ofJson? else ofYaml? source

end LiveTemplate.Config
