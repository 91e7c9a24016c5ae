import LiveTemplate.Reactive.Reference

/-!
Helpers for trying out templates. Each is of a kind that shows something of how templates are
rendered: when arguments are read, what happens when one fails, and how often a helper is called.
Some fail while a budget of failures lasts.
-/

namespace LiveTemplate.Workbench

/-- What an argument says, or in angle brackets why it cannot be read. -/
def argumentText (reading : Reading Value) : Reading String := do
  match ← reading.attempt with
  | .ok value => return value.content
  | .error error => return "<" ++ error.message ++ ">"

/-- What all arguments say, the positional ones first. -/
def argumentsText (arguments : Arguments) : Reading String := do
  let positional ← arguments.positional.mapM argumentText
  let named ← arguments.named.mapM fun (name, reading) => return s!"{name}={← argumentText reading}"
  return ",".intercalate (positional ++ named)

/-- Spends one failure of the budget, if there is one left. -/
def spend : Reading Bool := do
  match (← get).host.failures with
  | 0 => return false
  | left + 1 =>
    Reading.modifyHost fun host => { host with failures := left }
    return true

def tick : Reading Value := do
  Reading.modifyHost fun host => { host with ticks := host.ticks + 1 }
  return .int (Int64.ofNat (← get).host.ticks)

def addInt (total : Int64) (value : Value) : Int64 :=
  match value with
  | .int value => total + value
  | _ => total

/-- A helper of some kind. Every kind reads its first argument before anything else. -/
def helper (kind : String) : Helper := fun arguments => do
  let first ← arguments.nth 0
  match kind with
  | "first" => return first
  | "pick" => arguments.get first.content
  | "fail" => Reading.fail (.helperFailed "fail" (← argumentsText arguments))
  | "picky" =>
    if first.content = "B" then
      if ← spend then Reading.fail (.helperFailed "picky" "B")
    return first
  | "flaky" =>
    if ← spend then Reading.fail (.helperFailed "flaky" "budget")
    return first
  | "guard" =>
    unless first.truthy do Reading.fail (.host ("guard " ++ first.content))
    arguments.nth 1
  | "tick" => tick
  | "list" => do Reading.newList (← arguments.positional.mapM id)
  | "hash" => do
    Reading.newMap (← arguments.named.mapM fun (name, reading) => return (name, ← reading))
  | "add" => do
    let values ← arguments.positional.mapM id
    return .int (values.foldl addInt 0)
  | "not" => return .bool !first.truthy
  | "eq" => return .bool (first == (← arguments.nth 1))
  | _ => return .text (← argumentsText arguments)

end LiveTemplate.Workbench
