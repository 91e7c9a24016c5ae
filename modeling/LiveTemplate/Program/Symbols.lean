import LiveTemplate.Fault

/-!
Symbol tables. A program, which is an entry point or the layout of a component, numbers the slots
of its scope from zero. Each table belongs to a program, and a name in it stands for one of the
program's slots, so that no two names of one program share a slot.
-/

namespace LiveTemplate

abbrev TableId := Nat

/-- A slot of a program's scope. -/
abbrev Symbol := Nat

inductive TableKind where
  | entry | layout | block
  deriving Repr, DecidableEq, Inhabited

structure SymbolTable where
  kind : TableKind
  program : TableId
  parent : Option TableId := none
  /-- The block's own parameters. -/
  locals : List (String × Symbol) := []
  /-- The parameters of the blocks around it, from the inside out. -/
  enclosing : List (String × Symbol) := []
  named : List (String × Symbol) := []
  yields : List (String × Symbol) := []
  /-- Where a layout keeps what the partials in it may refer to. -/
  partialArgs : Option Symbol := none
  /-- How many slots the program has. Only the program's own table counts them. -/
  size : Nat := 0
  deriving Repr, DecidableEq, Inhabited

structure SymbolTables where
  tables : Array SymbolTable := #[]
  deriving Repr, DecidableEq, Inhabited

/-- A table together with the table of the program that it belongs to. -/
structure SymbolView where
  table : SymbolTable
  program : SymbolTable
  deriving Repr, Inhabited

/-- The block through which a layout receives the attributes of its invocation. -/
def attrsBlock : String := "%attrs%"

/-- `else` is another name of `inverse`. -/
def canonicalYield (name : String) : String :=
  if name = "else" then "inverse" else name

namespace SymbolView

/-- The parameter of the innermost block that has one of this name. -/
def local? (view : SymbolView) (name : String) : Option Symbol :=
  (view.table.locals ++ view.table.enclosing).lookup name

def named? (view : SymbolView) (name : String) : Option Symbol :=
  view.program.named.lookup name

def yield? (view : SymbolView) (name : String) : Option Symbol :=
  view.program.yields.lookup (canonicalYield name)

def partialArgs (view : SymbolView) : Option Symbol := view.program.partialArgs

def size (view : SymbolView) : Nat := view.program.size

def programKind (view : SymbolView) : TableKind := view.program.kind

/-- The slots of the block's own parameters. -/
def params (view : SymbolView) : List Symbol := view.table.locals.map Prod.snd

end SymbolView

namespace SymbolTables

def table (tables : SymbolTables) (id : TableId) : Except Defect SymbolTable :=
  match tables.tables[id]? with
  | some table => .ok table
  | none => .error .outOfRange

def view (tables : SymbolTables) (id : TableId) : Except Defect SymbolView := do
  let table ← tables.table id
  return ⟨table, ← tables.table table.program⟩

def add (tables : SymbolTables) (table : SymbolTable) : TableId × SymbolTables :=
  (tables.tables.size, ⟨tables.tables.push table⟩)

def entry (tables : SymbolTables) : TableId × SymbolTables :=
  tables.add { kind := .entry, program := tables.tables.size }

/-- The slots of the arguments, one for each name that is written. A repeated name stands for the
last of its slots. -/
def argumentSlots (names : List String) : List (String × Symbol) :=
  names.zipIdx.foldl
    (fun slots (name, symbol) => slots.filter (fun slot => slot.1 ≠ name) ++ [(name, symbol)]) []

/-- A layout has slots for its arguments, then for the blocks it yields to, and last for what its
partials may refer to. -/
def layout (tables : SymbolTables) (named yields : List String) (hasPartials : Bool) :
    TableId × SymbolTables :=
  let blocks := ((yields ++ [attrsBlock]).map canonicalYield).eraseDups
  let size := named.length + blocks.length
  tables.add {
    kind := .layout
    program := tables.tables.size
    named := argumentSlots named
    yields := blocks.zipIdx named.length
    partialArgs := if hasPartials then some size else none
    size := if hasPartials then size + 1 else size }

/-- A block nested in `parent` takes fresh slots of its program for its parameters. -/
def block (tables : SymbolTables) (parent : TableId) (locals : List String) :
    Except Defect (TableId × SymbolTables) := do
  let around ← tables.table parent
  let program ← tables.table around.program
  let grown := tables.tables.setIfInBounds around.program
    { program with size := program.size + locals.length }
  return add ⟨grown⟩ {
    kind := .block
    program := around.program
    parent := some parent
    locals := locals.zipIdx program.size
    enclosing := around.locals ++ around.enclosing }

end SymbolTables

end LiveTemplate
