import LiveTemplate.Compile.Code

/-!
Compiling templates, together with every block, layout and partial that they reach, into one
program.
-/

namespace LiveTemplate

/-- A program with all that it refers to. Any number of renders may run it. -/
structure CompiledProgram where
  program : Program
  pool : Pool
  blocks : BlockPool
  tables : SymbolTables
  /-- The blocks of the templates, in their order. -/
  entries : List Handle
  deriving Inhabited

def CompiledProgram.entry (program : CompiledProgram) : Except Defect Handle :=
  match program.entries with
  | first :: _ => .ok first
  | [] => .error .noEntryPoint

namespace Compilation

open Resolving

/-- Appends the code of a block that uses the names of `table`. -/
def write (resolver : Resolver) (table : TableId) (code : Code.Place → Writing Unit) :
    Resolving CompiledBlock := do
  let state ← get
  let names ← sound (state.tables.view table)
  let draft : Draft := { program := state.program, pool := state.pool }
  match Writing.codeOf (code ⟨resolver, names⟩) draft with
  | .ok (slice, locals) draft =>
    modify fun state => { state with program := draft.program, pool := draft.pool }
    return { slice, table, params := names.params, locals }
  | .error fault _ => throw fault

def resolved (resolver : Resolver) (template : Template) (table : TableId) :
    Resolving (Option (List Resolved) × List Resolved) := do
  let prelude ← template.prelude.mapM (Resolved.within resolver template table)
  return (prelude, ← Resolved.within resolver template table template.block.statements)

def addTable (add : SymbolTables → TableId × SymbolTables) : Resolving TableId :=
  modifyGet fun state =>
    let (table, tables) := add state.tables
    (table, { state with tables })

def compileSource (resolver : Resolver) : Source → Resolving CompiledBlock
  | .entry template => do
    let entry ← addTable SymbolTables.entry
    let locals := template.block.locals
    let table ← if locals.isEmpty then pure entry else newTable entry locals
    let (prelude, body) ← resolved resolver template table
    write resolver table fun place => Code.entry place prelude body
  | .inline table body => write resolver table fun place => Code.inline place body
  | .layout template => do
    let table ← addTable (SymbolTables.layout · template.named template.yields template.hasPartials)
    let (prelude, body) ← resolved resolver template table
    write resolver table fun place => Code.layout place prelude body
  | .includedIn table template => do
    let body ← Resolved.within resolver template table template.block.statements
    let block ← write resolver table fun place => Code.statements place body
    return { block with params := [] }

/-- Compiles the blocks that are queued, and those that they queue, at most `limit` of them. -/
def drain (resolver : Resolver) : Nat → Resolving Unit
  | 0 => throw (.broken .endless)
  | limit + 1 => do
    match (← get).queue with
    | [] => return
    | (handle, source) :: rest =>
      modify fun state => { state with queue := rest }
      let block ← compileSource resolver source
      modify fun state => { state with blocks := state.blocks.complete handle block }
      drain resolver limit

/-- Compiles a template with all that it reaches. -/
def addEntry (resolver : Resolver) (template : Template) : Resolving Handle := do
  let handle ← enqueue (.entry template)
  drain resolver stepLimit
  return handle

end Compilation

/-- Compiles templates into one program. -/
def compile (resolver : Resolver) (templates : List Template) :
    Except CompileFault CompiledProgram :=
  match templates.mapM (Compilation.addEntry resolver) {} with
  | .ok entries state =>
    .ok { program := state.program, pool := state.pool, blocks := state.blocks,
          tables := state.tables, entries }
  | .error fault _ => .error fault

end LiveTemplate
