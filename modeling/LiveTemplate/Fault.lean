/-!
What can go wrong. A template may not compile, and a render may fail; both are answers about the
template and its data. A `Defect` is neither: it reports that a rule was broken which compiled
programs and their callers keep, and nothing is promised about the state it leaves.
-/

namespace LiveTemplate

inductive CompileError where
  | unknownHelper (name : String)
  | unknownModifier (name : String)
  | unknownBlock (name : String)
  | unknownPartial (name : String)
  | invalidBlockName (name : String)
  | unresolvedSymbol (name : String)
  | malformedPrimitive (literal : String)
  | malformed (context message : String)
  | argumentOutsideComponent (name : String)
  | undefinedLabel (label : String)
  | json
  deriving Repr, DecidableEq

namespace CompileError

def message : CompileError → String
  | unknownHelper name => s!"Compile Error: {name} is not a helper"
  | unknownModifier name => s!"Compile Error: {name} is not a modifier"
  | unknownBlock name => s!"Compile Error: {name} is not a block"
  | unknownPartial name => s!"Compile Error: {name} is not a partial"
  | invalidBlockName name => s!"Compile Error: {name} is not a valid block name"
  | unresolvedSymbol name => s!"Compile Error: unresolved symbol {name}"
  | malformedPrimitive literal => s!"Compile Error: malformed primitive {literal}"
  | malformed context message => s!"Malformed wire format in {context}: {message}"
  | argumentOutsideComponent name =>
    s!"Compile Error: argument {name} used outside of a component layout"
  | undefinedLabel label => s!"bug: jump or range to undefined label {label}"
  | json => "Failure to parse template"

/-- A name for the kind of error. -/
def kind : CompileError → String
  | unknownHelper _ => "UnknownHelper"
  | unknownModifier _ => "UnknownModifier"
  | unknownBlock _ => "UnknownBlock"
  | unknownPartial _ => "UnknownPartial"
  | invalidBlockName _ => "InvalidBlockName"
  | unresolvedSymbol _ => "UnresolvedSymbol"
  | malformedPrimitive _ => "MalformedPrimitive"
  | malformed .. => "MalformedWireFormat"
  | argumentOutsideComponent _ => "ArgumentOutsideComponent"
  | undefinedLabel _ => "UndefinedLabel"
  | json => "Json"

/-- A jump to nowhere is the compiler's fault, every other error the template's. -/
def isFatal : CompileError → Bool
  | undefinedLabel _ => true
  | _ => false

end CompileError

inductive RenderError where
  | host (message : String)
  | helperFailed (name message : String)
  | unknownPartial (name : String)
  | unknownHelper (name : String)
  | unknownComponent (name : String)
  | unknownModifier (name : String)
  | notIterable (value : String)
  | stackOverflow (depth : Nat)
  | transactionInProgress
  | noTransaction
  | destroyed
  deriving Repr, DecidableEq

namespace RenderError

def message : RenderError → String
  | host message => s!"Host error: {message}"
  | helperFailed name message => s!"Helper {name} failed: {message}"
  | unknownPartial name => s!"{name} is not a partial"
  | unknownHelper name => s!"{name} is not a helper"
  | unknownComponent name => s!"{name} is not a component"
  | unknownModifier name => s!"{name} is not a modifier"
  | notIterable value => s!"Value is not iterable: {value}"
  | stackOverflow depth => s!"Frame stack overflow at depth {depth}"
  | transactionInProgress => "A transaction is already in progress"
  | noTransaction => "No transaction in progress"
  | destroyed => "Render result was already destroyed"

/-- A name for the kind of error. -/
def kind : RenderError → String
  | host _ => "Host"
  | helperFailed .. => "HelperFailed"
  | unknownPartial _ => "UnknownPartial"
  | unknownHelper _ => "UnknownHelper"
  | unknownComponent _ => "UnknownComponent"
  | unknownModifier _ => "UnknownModifier"
  | notIterable _ => "NotIterable"
  | stackOverflow _ => "StackOverflow"
  | transactionInProgress => "TransactionInProgress"
  | noTransaction => "NoTransaction"
  | destroyed => "Destroyed"

end RenderError

inductive Defect where
  /-- A position outside of the sequence it should lie in, or a count below zero. -/
  | outOfRange
  /-- More steps than `stepLimit`; the program does not seem to end. -/
  | endless
  | invalidPrimitive (operand : String)
  | patchedTwice (position : Nat)
  | absentHandle (kind : String)
  | uncompiledBlock (handle : Nat)
  | noLabelScope
  | unbalancedLabels
  | noEntryPoint
  | itemRemoved (id : Nat)
  | attributeOnNonElement (name : String) (node : Nat)
  | textOnElement (node : Nat)
  | noElement
  | noElementUnderConstruction
  | nestedOpenElement
  | closedRootElement
  | contentInList
  | noOpenBlock
  | poppedRootBlock
  | unbalancedTrackers
  | unclosedElements
  | rootNotBlock
  | notSiblings (first last : Nat)
  | scopeReleased (scope : Nat)
  | jumpOutside (target first last : Nat)
  | noFrame
  | noDynamicScope
  | unbalancedRegions
  | recordedInList
  | noOpenRegion
  | rootRegionLost
  | expectedReference
  | expectedArguments
  | expectedBlock
  | stackUnderflow (count : Nat)
  | unwrittenLocal (index : Nat)
  | noCondition (op : String)
  | listWithoutIterator
  | exitOutsideList
  | keyWithoutItem
  | advanceWithoutIterator
  | noPartial
  | elementOutsideLayout
  | layoutOutsideLayout
  | closedUnopenedComponent
  | componentInOtherRegion
  | exitOutsideRegion
  | itemOutsideList
  | noDefinition
  deriving Repr, DecidableEq

/-- The rule that was broken, if it has a name. -/
def Defect.message? : Defect → Option String
  | outOfRange | endless => none
  | invalidPrimitive operand => s!"bug: invalid primitive operand {operand}"
  | patchedTwice position => s!"bug: patching non-placeholder opcode at {position}"
  | absentHandle kind => s!"bug: absent {kind} handle dereferenced"
  | uncompiledBlock handle => s!"bug: block {handle} was never compiled"
  | noLabelScope => "bug: not in a label stack"
  | unbalancedLabels => "bug: unbalanced push and pop labels"
  | noEntryPoint => "bug: program finished without an entry point"
  | itemRemoved id => s!"bug: list item {id} was removed"
  | attributeOnNonElement name node => s!"bug: setting attribute {name} on non-element #{node}"
  | textOnElement node => s!"bug: setting text on element #{node}"
  | noElement => "bug: element stack underflow"
  | noElementUnderConstruction => "bug: no element under construction"
  | nestedOpenElement => "bug: nested open element"
  | closedRootElement => "bug: closing the root element"
  | contentInList => "bug: content appended directly into a list"
  | noOpenBlock => "bug: no open block"
  | poppedRootBlock => "bug: popping the root block"
  | unbalancedTrackers => "bug: unbalanced block trackers"
  | unclosedElements => "bug: unclosed elements"
  | rootNotBlock => "bug: the root tracker is not a block"
  | notSiblings first last => s!"bug: bounds #{first}..#{last} are not a sibling range"
  | scopeReleased scope => s!"bug: scope{scope} was released"
  | jumpOutside target first last => s!"bug: goto {target} outside {first}..{last}"
  | noFrame => "bug: no current frame"
  | noDynamicScope => "bug: no current dynamic scope"
  | unbalancedRegions => "bug: unbalanced regions"
  | recordedInList => "bug: output recorded directly into a list"
  | noOpenRegion => "bug: no open region"
  | rootRegionLost => "bug: the outermost region is not the root"
  | expectedReference => "bug: expected a reference on the stack"
  | expectedArguments => "bug: expected args on the stack"
  | expectedBlock => "bug: expected a block on the stack"
  | stackUnderflow count => s!"bug: stack underflow popping {count} references"
  | unwrittenLocal index => s!"bug: local {index} read before it was written"
  | noCondition op => s!"bug: {op} without a condition"
  | listWithoutIterator => "bug: list entered without an iterator"
  | exitOutsideList => "bug: ExitList outside of a list"
  | keyWithoutItem => "bug: EnterWithKey without an item"
  | advanceWithoutIterator => "bug: NextIter without an iterator"
  | noPartial => "bug: EvaluatePartial without a partial"
  | elementOutsideLayout => "bug: DidCreateElement outside of a layout"
  | layoutOutsideLayout => "bug: DidRenderLayout outside of a layout"
  | closedUnopenedComponent => "bug: CloseComponent without an open component"
  | componentInOtherRegion => "bug: component closed in another region"
  | exitOutsideRegion => "bug: Exit outside of a region"
  | itemOutsideList => "bug: keyed region outside of a list"
  | noDefinition => "bug: OpenComponent without PutComponent"

/-- How reading or rendering ends without a result: a failure, which is an answer and can be
recovered from, or a defect. -/
inductive Fault where
  | failed (error : RenderError)
  | broken (defect : Defect)
  deriving Repr, DecidableEq

/-- How many steps a run may take. At a step a nanosecond it lasts for centuries. -/
def stepLimit : Nat := 1 <<< 62

end LiveTemplate
