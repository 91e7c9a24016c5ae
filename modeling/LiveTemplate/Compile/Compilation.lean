import LiveTemplate.Compile.Resolved

/-!
The state of a compilation: what it has written, the blocks that are still to be compiled, and the
layouts and partials that have a block already.
-/

namespace LiveTemplate

structure Compilation where
  program : Program := {}
  pool : Pool := {}
  tables : SymbolTables := {}
  blocks : BlockPool := {}
  /-- The blocks still to be compiled, in the order in which they will be. -/
  queue : List (Handle × Source) := []
  /-- The layouts that were asked for. -/
  layouts : List (String × Option Handle) := []
  partials : List ((String × TableId) × Handle) := []
  deriving Inhabited

abbrev Resolving := EStateM CompileFault Compilation

namespace Resolving

def reject {α : Type} (error : CompileError) : Resolving α := throw (.rejected error)

def sound {α : Type} : Except Defect α → Resolving α
  | .ok value => pure value
  | .error defect => throw (.broken defect)

def rejectBy {α : Type} : Except CompileError α → Resolving α
  | .ok value => pure value
  | .error error => reject error

/-- Registers a block that is to be compiled. -/
def enqueue (source : Source) : Resolving Handle :=
  modifyGet fun state =>
    let (handle, blocks) := state.blocks.reserve
    (handle, { state with blocks, queue := state.queue ++ [(handle, source)] })

/-- The layout of a component. It is compiled once. -/
def layoutFor (resolver : Resolver) (name : String) : Resolving (Option Handle) := do
  match (← get).layouts.lookup name with
  | some found => return found
  | none =>
    let found ← (resolver.layout? name).mapM fun template => enqueue (.layout template)
    modify fun state => { state with layouts := (name, found) :: state.layouts }
    return found

/-- A partial as it is called from a block. It is compiled once for each block that calls it. -/
def partialFor (resolver : Resolver) (table : TableId) (name : String) : Resolving Handle := do
  match (← get).partials.lookup (name, table) with
  | some handle => return handle
  | none =>
    match resolver.partial? name with
    | none => reject (.unknownPartial name)
    | some template =>
      let handle ← enqueue (.includedIn table template)
      modify fun state => { state with partials := ((name, table), handle) :: state.partials }
      return handle

def newTable (parent : TableId) (locals : List String) : Resolving TableId := do
  let (table, tables) ← sound ((← get).tables.block parent locals)
  modify fun state => { state with tables }
  return table

end Resolving

end LiveTemplate
