import LiveTemplate.Entries
import LiveTemplate.Json.Reader

/-!
How pages are rendered, as an embedder may configure it.
-/

namespace LiveTemplate

structure Config where
  /-- Whether a region that cannot be brought up to date is first rendered anew, before its failure
  is passed on. -/
  recover : Bool := true
  trace : Bool := false
  /-- How many frames may be open at once. -/
  maxFrameDepth : Nat := 1024
  deriving Repr, DecidableEq, Inhabited

namespace Config

/-- What a configuration file gives for a setting. -/
inductive Setting where
  | flag (value : Bool)
  | natural (value : Nat)
  | other
  deriving Repr, DecidableEq, Inhabited

/-- Changes one setting. Names that mean nothing are passed over, but a value must be of the right
kind. -/
def put (config : Config) (name : String) (setting : Setting) : Option Config :=
  match name, setting with
  | "recover_from_exceptions", .flag value => some { config with recover := value }
  | "trace_opcodes", .flag value => some { config with trace := value }
  | "max_frame_depth", .natural value =>
    if value < UInt64.size then some { config with maxFrameDepth := value } else none
  | "recover_from_exceptions", _ | "trace_opcodes", _ | "max_frame_depth", _ => none
  | _, _ => some config

/-- The configuration that gives these settings. Only the last one of each name counts, and the
default stays for the others. -/
def ofSettings (settings : List (String × Setting)) : Option Config :=
  (Entries.ofPairs settings).foldlM (fun config (name, setting) => config.put name setting) {}

def Setting.ofJson : Json → Setting
  | .bool value => flag value
  | value => match value.natural? with
    | some value => natural value
    | none => other

def ofJson? : Json → Option Config
  | .object members =>
    ofSettings (members.map fun (name, value) => (name, Setting.ofJson value))
  | _ => none

end Config

end LiveTemplate
