import LiveTemplate.Fault
import LiveTemplate.Text.Quoted

/-!
The instruction set. An instruction is an operation with three operands. A text, array, block,
slice, test or value operand is a handle into the constant pool, where zero means that there is
none; a symbol is a slot of a scope; a jump target is a position in the program.
-/

namespace LiveTemplate

inductive Op where
  | text | comment | openElement | flushElement | closeElement | staticAttr | dynamicAttr
  | modifier | dynamicContent
  | pushSelf | pushSymbol | getKey | pushPrimitive | pushImmediate | concat | helper | pushArgs
  | hasBlock | hasBlockParams | getBlock | getEvalBlock | getDynamicVar
  | pushDynamicScope | popDynamicScope | bindDynamicScope | reserveLocals | releaseLocals
  | putLocal | pushLocal | bindPositionalArgs | bindNamedArgs | bindBlocks | bindPartialArgs
  | bindCallerScope
  | enter | exit | evaluate | jump | jumpIf | jumpUnless | test | putArgs | openBlock | closeBlock
  | noop
  | putIterator | enterList | exitList | enterWithKey | nextIter
  | putPartial | putDynamicPartial | evaluatePartial
  | putComponent | openComponent | didCreateElement | didRenderLayout | closeComponent
  deriving Repr, DecidableEq, Inhabited

namespace Op

/-- Every operation, in the order of the numbers that stand for them. -/
def all : List Op := [
  text, comment, openElement, flushElement, closeElement, staticAttr, dynamicAttr, modifier,
  dynamicContent, pushSelf, pushSymbol, getKey, pushPrimitive, pushImmediate, concat, helper,
  pushArgs, hasBlock, hasBlockParams, getBlock, getEvalBlock, getDynamicVar, pushDynamicScope,
  popDynamicScope, bindDynamicScope, reserveLocals, releaseLocals, putLocal, pushLocal,
  bindPositionalArgs, bindNamedArgs, bindBlocks, bindPartialArgs, bindCallerScope, enter, exit,
  evaluate, jump, jumpIf, jumpUnless, test, putArgs, openBlock, closeBlock, noop, putIterator,
  enterList, exitList, enterWithKey, nextIter, putPartial, putDynamicPartial, evaluatePartial,
  putComponent, openComponent, didCreateElement, didRenderLayout, closeComponent]

theorem mem_all (op : Op) : op ∈ all := by
  cases op <;> simp [all]

theorem all_nodup : all.Nodup := by
  decide

def name : Op → String
  | text => "Text"
  | comment => "Comment"
  | openElement => "OpenElement"
  | flushElement => "FlushElement"
  | closeElement => "CloseElement"
  | staticAttr => "StaticAttr"
  | dynamicAttr => "DynamicAttr"
  | modifier => "Modifier"
  | dynamicContent => "DynamicContent"
  | pushSelf => "PushSelf"
  | pushSymbol => "PushSymbol"
  | getKey => "GetKey"
  | pushPrimitive => "PushPrimitive"
  | pushImmediate => "PushImmediate"
  | concat => "Concat"
  | helper => "Helper"
  | pushArgs => "PushArgs"
  | hasBlock => "HasBlock"
  | hasBlockParams => "HasBlockParams"
  | getBlock => "GetBlock"
  | getEvalBlock => "GetEvalBlock"
  | getDynamicVar => "GetDynamicVar"
  | pushDynamicScope => "PushDynamicScope"
  | popDynamicScope => "PopDynamicScope"
  | bindDynamicScope => "BindDynamicScope"
  | reserveLocals => "ReserveLocals"
  | releaseLocals => "ReleaseLocals"
  | putLocal => "PutLocal"
  | pushLocal => "PushLocal"
  | bindPositionalArgs => "BindPositionalArgs"
  | bindNamedArgs => "BindNamedArgs"
  | bindBlocks => "BindBlocks"
  | bindPartialArgs => "BindPartialArgs"
  | bindCallerScope => "BindCallerScope"
  | enter => "Enter"
  | exit => "Exit"
  | evaluate => "Evaluate"
  | jump => "Jump"
  | jumpIf => "JumpIf"
  | jumpUnless => "JumpUnless"
  | test => "Test"
  | putArgs => "PutArgs"
  | openBlock => "OpenBlock"
  | closeBlock => "CloseBlock"
  | noop => "Noop"
  | putIterator => "PutIterator"
  | enterList => "EnterList"
  | exitList => "ExitList"
  | enterWithKey => "EnterWithKey"
  | nextIter => "NextIter"
  | putPartial => "PutPartial"
  | putDynamicPartial => "PutDynamicPartial"
  | evaluatePartial => "EvaluatePartial"
  | putComponent => "PutComponent"
  | openComponent => "OpenComponent"
  | didCreateElement => "DidCreateElement"
  | didRenderLayout => "DidRenderLayout"
  | closeComponent => "CloseComponent"

def ofNumber? (number : Nat) : Option Op := all[number]?

def ofName? (name : String) : Option Op := all.find? fun op => op.name = name

end Op

structure Instruction where
  op : Op
  first : Nat := 0
  second : Nat := 0
  third : Nat := 0
  deriving Repr, DecidableEq, Inhabited

/-- Stands where a jump or a range is filled in later. -/
def Instruction.placeholder : Instruction where
  op := .noop

/-- The literals that an operand can hold itself. -/
inductive Primitive where
  | number (value : Nat)
  | text (handle : Nat)
  | bool (value : Bool)
  | null
  | undefined
  deriving Repr, DecidableEq

namespace Primitive

/-- The largest number an operand can hold; the upper two of its 32 bits tell the kind. -/
def maxNumber : Nat := (1 <<< 30) - 1

def flagged (kind value : Nat) : Nat := kind <<< 30 ||| value

/-- The operand of a literal. A number must not exceed `maxNumber`. -/
def encode : Primitive → Except Defect Nat
  | number value => if value ≤ maxNumber then .ok value else .error .outOfRange
  | text handle => .ok (flagged 1 handle)
  | bool value => .ok (flagged 2 value.toNat)
  | null => .ok (flagged 2 2)
  | undefined => .ok (flagged 2 3)

def decode (operand : Nat) : Except Defect Primitive :=
  let value := operand &&& maxNumber
  match operand >>> 30, value with
  | 0, _ => .ok (number value)
  | 1, _ => .ok (text value)
  | 2, 0 => .ok (bool false)
  | 2, 1 => .ok (bool true)
  | 2, 2 => .ok null
  | 2, 3 => .ok undefined
  | _, _ => .error (.invalidPrimitive ("0x" ++ Quoted.hexadecimal operand))

end Primitive

end LiveTemplate
