import Bindery.Binding.Call
/-!
# Operators

An operator that is declared for structs wins when an operand is a struct, union or array. Otherwise each family has its
own rule: both sides meet in one type, integers compute in at least 32 bits, and an operation on constants is a constant.
-/
namespace Bindery

namespace Program

/-- Whether an operator has a meaning of its own for a value. -/
def isBuiltinOperand (p : Program) (node : NodeId) : Bool := !p.isAggregate (p.node node).ty.stripReference

/-- Whether values of a type can be computed with. -/
def isArithmetic (p : Program) (op : BinaryOp) (ty : Ty) : Bool :=
  if op.family = .bitwise then p.isIntegral ty || ty == .bool else p.isNumeric ty

/-- Whether values of a type can be compared. Truth values and `null` are only equal or different. -/
def isComparable (p : Program) (op : BinaryOp) (ty : Ty) : Bool :=
  p.isNumeric ty || ty.isPointer || p.isEnum ty || ((op == .eq || op == .ne) && (ty == .bool || ty == .null))

/-- The declared operator that applies to operands. -/
def operatorFor? (p : Program) (place : ScopeId) (name : OperatorName) (operands : List NodeId) : Option SymbolId :=
  if operands.all p.isBuiltinOperand then none
  else ((p.lookup? place name.declaredName).map p.resolveAlias).filter p.isCallable

end Program

namespace BindM

/-- Calls a declared operator. -/
def callOperator (room : Room) (pos : Span) (operator : SymbolId) (operands : List NodeId) : BindM NodeId := do
  let args ← operands.mapM fun node =>
    return ({ pos := ← nodePos node, name := none, value := .value node } : CallArg)
  match ← callSymbol room operator none args pos with
  | .value node => return node
  | _ => failure

/-- Calls the declared operator that applies, and does something else when there is none. -/
def withOperator (room : Room) (pos : Span) (name : OperatorName) (operands : List NodeId) (builtin : BindM NodeId) :
    BindM NodeId := do
  let scope ← currentScope
  match ← ask (·.operatorFor? scope name operands) with
  | some operator => callOperator room pos operator operands
  | none => builtin

def operatorError {α : Type} (pos : Span) (op : BinaryOp) (left right : NodeId) : BindM α := do
  fail pos .binaryOperator [op.symbol, ← typeName (← nodeType left), ← typeName (← nodeType right)]

/-! ## Binary operators -/

def bindArithmetic (pos : Span) (op : BinaryOp) (left right : NodeId) : BindM NodeId := do
  let a ← nodeType left
  let b ← nodeType right
  if !(← ask fun p => p.isArithmetic op a && p.isArithmetic op b) then operatorError pos op left right
  let meeting ← upperBound left right pos
  let ty ← ask (·.promote meeting)
  let left ← coerce left ty
  let right ← coerce right ty
  fold (← addNode pos ty (.arithmetic op left right)) [left, right]

def bindRelational (pos : Span) (op : BinaryOp) (left right : NodeId) : BindM NodeId := do
  let a ← nodeType left
  let b ← nodeType right
  if !(← ask fun p => p.isComparable op a && p.isComparable op b) then operatorError pos op left right
  let ty ← upperBound left right pos
  let left ← coerce left ty
  let right ← coerce right ty
  fold (← addNode pos .bool (.condition op left right)) [left, right]

def bindLogical (pos : Span) (op : BinaryOp) (left right : NodeId) : BindM NodeId := do
  let left ← attempt (coerce left .bool)
  let right ← attempt (coerce right .bool)
  let (some left, some right) := (left, right) | failure
  fold (← addNode pos .bool (.condition op left right)) [left, right]

/-- A pointer, or another one where it is null. -/
def bindCoalesce (pos : Span) (left right : NodeId) : BindM NodeId := do
  let ty ← nodeType left
  if !ty.isPointer then fail pos .coalesceNeedsPointer [← typeName ty]
  addNode pos ty (.coalesce left (← coerce right ty))

def bindShift (pos : Span) (op : BinaryOp) (left right : NodeId) : BindM NodeId := do
  let a ← nodeType left
  let b ← nodeType right
  if !(← ask fun p => p.isIntegral a && p.isIntegral b) then operatorError pos op left right
  let ty ← ask (·.promote a)
  let left ← coerce left ty
  fold (← addNode pos ty (.shift op left right)) [left, right]

/-- A pointer moved by a number of elements. -/
def bindPointerArithmetic (pos : Span) (op : BinaryOp) (pointer offset : NodeId) : BindM NodeId := do
  let ty ← nodeType pointer
  if !(← ask fun p => p.isIntegral (p.node offset).ty) then operatorError pos op pointer offset
  let offset ← coerce offset (← ask (·.pointerInt true))
  addNode pos ty (.pointerArithmetic op pointer offset)

/-- The number of elements between two pointers. -/
def bindPointerDifference (pos : Span) (left right : NodeId) : BindM NodeId := do
  let a ← nodeType left
  let b ← nodeType right
  if a ≠ b then fail pos .noCommonType [← typeName a, ← typeName b]
  addNode pos (← ask (·.pointerInt true)) (.pointerDifference left right)

def bindAdditive (pos : Span) (op : BinaryOp) (left right : NodeId) : BindM NodeId := do
  match (← nodeType left).isPointer, (← nodeType right).isPointer, op with
  | true, true, .sub => bindPointerDifference pos left right
  | true, false, _ => bindPointerArithmetic pos op left right
  | false, true, .add => bindPointerArithmetic pos op right left
  | false, false, _ => bindArithmetic pos op left right
  | _, _, _ => operatorError pos op left right

/-- Binds both operands of a construct before it fails if one of them failed. -/
def bothValues (room : Room) (left right : Part) : BindM (NodeId × NodeId) := do
  let left ← attempt (left.value room)
  let right ← attempt (right.value room)
  let (some left, some right) := (left, right) | failure
  return (left, right)

def bindBinary (room : Room) (pos : Span) (op : BinaryOp) (left right : Part) : BindM NodeId := do
  let (left, right) ← bothValues room left right
  let left ← readThrough left
  let right ← readThrough right
  withOperator room pos (.binary op) [left, right] do
    match op.family with
    | .relational => bindRelational pos op left right
    | .logical => bindLogical pos op left right
    | .coalesce => bindCoalesce pos left right
    | .shift => bindShift pos op left right
    | .additive => bindAdditive pos op left right
    | .multiplicative | .bitwise => bindArithmetic pos op left right

/-! ## Literals -/

/-- The width and signedness of the smallest type that holds a literal: signed, unless only `UInt64` holds it. -/
def literalShape (value : Int) : Nat × Bool :=
  if wrapInt value 8 true = value then (8, true)
  else if wrapInt value 16 true = value then (16, true)
  else if wrapInt value 32 true = value then (32, true)
  else if wrapInt value 64 true = value then (64, true)
  else (64, false)

/-- An integer literal whose type may still change. -/
def adaptableLiteral (pos : Span) (value : Int) : BindM NodeId :=
  let (bits, signed) := literalShape value
  addNode pos (.int bits signed) (.literal (.int value) true)

/-- A literal is a number of 64 bits. -/
def bindInt (pos : Span) (value : Nat) (suffix : Option IntSuffix) : BindM NodeId :=
  match suffix with
  | some suffix =>
    addNode pos (.int suffix.bits suffix.signed) (.literal (.int (wrapInt value suffix.bits suffix.signed)) false)
  | none => adaptableLiteral pos (wrapInt value 64 false)

/-! ## Unary operators -/

def unaryError {α : Type} (pos : Span) (op : UnaryOp) (ty : Ty) : BindM α := do
  fail pos .unaryOperator [op.symbol, ← typeName ty]

def applyUnary (pos : Span) (op : UnaryOp) (value : NodeId) (ty : Ty) : BindM NodeId := do
  let operand ← coerce value ty
  fold (← addNode pos ty (.unary op operand)) [operand]

def bindDereference (pos : Span) (value : NodeId) : BindM NodeId := do
  let ty ← nodeType value
  match ty.pointee?.filter (!Program.isVoid ·) with
  | some pointee => addNode pos pointee (.dereference value)
  | none => fail pos .cannotDereference [← typeName ty]

/-- Negates a number. A literal whose type may still change stays one. -/
def bindNegation (pos : Span) (value : NodeId) : BindM NodeId := do
  match ← ask (·.adaptableInt? value) with
  | some literal => adaptableLiteral pos (-literal)
  | none =>
    let ty ← nodeType value
    if !(← ask (·.isNumeric ty)) then unaryError pos .neg ty
    applyUnary pos .neg value (← ask (·.promote ty))

def bindComplement (pos : Span) (value : NodeId) : BindM NodeId := do
  let ty ← nodeType value
  if !(← ask (·.isIntegral ty)) then unaryError pos .bitNot ty
  applyUnary pos .bitNot value (← ask (·.promote ty))

def bindAddress (pos : Span) (operandPos : Span) (value : NodeId) : BindM NodeId := do
  if !(← ask (·.isPlace value)) then fail operandPos .cannotTakeAddress []
  addNode pos (.pointer (← nodeType value)) (.addressOf value)

def bindUnary (room : Room) (pos : Span) (op : UnaryOp) (operand : Part) : BindM NodeId := do
  let value ← readThrough (← operand.value room)
  match op with
  | .addressOf => bindAddress pos operand.pos value
  | _ =>
    withOperator room pos (.unary op) [value] do
      match op with
      | .deref => bindDereference pos value
      | .neg => bindNegation pos value
      | .bitNot => bindComplement pos value
      | .not => applyUnary pos .not value .bool
      | .addressOf => failure

/-! ## Assignments -/

/-- The kind of a compound assignment, and the value that its operator takes. -/
def compoundValue (pos : Span) (op : BinaryOp) (target value : NodeId) : BindM (CompoundKind × NodeId) := do
  let ty ← nodeType target
  let given ← nodeType value
  if ty.isPointer && op.family == .additive then
    if !(← ask (·.isIntegral given)) then operatorError pos op target value
    return (.pointer, ← coerce value (← ask (·.pointerInt true)))
  else if op.family = .shift then
    if !(← ask fun p => p.isIntegral ty && p.isIntegral given) then operatorError pos op target value
    return (.shift, value)
  else if op.isCompound && (← ask (·.isNumeric ty)) then
    adaptLiteral value ty
    return (.arithmetic, ← coerce value ty)
  else operatorError pos op target value

def bindAssign (room : Room) (pos : Span) (op : Option BinaryOp) (target value : Part) : BindM NodeId := do
  let targetPos := target.pos
  let (target, value) ← bothValues room target value
  if !(← ask (·.isPlace target)) then fail targetPos .notAssignable []
  let target ← readThrough target
  let value ← readThrough value
  match op with
  | none => addStatement pos (.assignment target (← coerce value (← nodeType target)))
  | some op =>
    let (kind, value) ← compoundValue pos op target value
    addStatement pos (.compoundAssignment op kind target value)

end BindM

end Bindery
