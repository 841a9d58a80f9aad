import Bindery.Number.Power
import Bindery.Program.TypeQuery
/-!
# Constant folding

The value of an expression made of literals, sizes, conversions and operators. Integers are computed in 128 signed bits
and reduced to the type of each node; floating-point numbers are rounded to single precision where the type asks for it.
-/
namespace Bindery

/-- Why an expression has no value. -/
inductive ConstError where
  | notConstant
  | divisionByZero
  deriving DecidableEq, Repr

def ConstError.message : ConstError → String
  | .notConstant => "expression is not a compile-time constant"
  | .divisionByZero => "division by zero"

namespace ConstValue

/-- An operator on two integers. -/
def intArithmetic (op : BinaryOp) (l r : Int) : Except ConstError Int :=
  match op with
  | .add => .ok (Wide.add l r)
  | .sub => .ok (Wide.sub l r)
  | .mul => .ok (Wide.mul l r)
  | .div => if r = 0 then .error .divisionByZero else .ok (Wide.div l r)
  | .rem => if r = 0 then .error .divisionByZero else .ok (Wide.rem l r)
  | .bitAnd => .ok (Wide.and l r)
  | .bitOr => .ok (Wide.or l r)
  | .bitXor => .ok (Wide.xor l r)
  | _ => .error .notConstant

/-- An operator on two floating-point numbers; division by zero has a value. -/
def floatArithmetic (op : BinaryOp) (l r : Double) : Except ConstError Double :=
  match op with
  | .add => .ok (l.add r)
  | .sub => .ok (l.sub r)
  | .mul => .ok (l.mul r)
  | .div => .ok (l.div r)
  | .rem => .ok (l.rem r)
  | _ => .error .notConstant

def boolArithmetic (op : BinaryOp) (l r : Bool) : Except ConstError Bool :=
  match op with
  | .bitAnd => .ok (l && r)
  | .bitOr => .ok (l || r)
  | .bitXor => .ok (l != r)
  | _ => .error .notConstant

/-- An arithmetic operator on two values of one kind. -/
def arithmetic (op : BinaryOp) (left right : ConstValue) : Except ConstError ConstValue :=
  match left, right with
  | .int l, .int r => (intArithmetic op l r).map .int
  | .float l, .float r => (floatArithmetic op l r).map .float
  | .bool l, .bool r => (boolArithmetic op l r).map .bool
  | _, _ => .error .notConstant

/-- How two values compare: `some none` when they are comparable and yet unordered. -/
def order? (left right : ConstValue) : Option (Option Ordering) :=
  match left, right with
  | .int l, .int r => some (some (compare l r))
  | .bool l, .bool r => some (some (compare l r))
  | .null, .null => some (some .eq)
  | l, r =>
    match l.asFloat?, r.asFloat? with
    | some l, some r => some (l.compare? r)
    | _, _ => none

/-- Whether a relation holds between values in an order. -/
def relationHolds (op : BinaryOp) (order : Ordering) : Except ConstError Bool :=
  match op with
  | .eq => .ok (order == .eq)
  | .ne => .ok (order != .eq)
  | .lt => .ok (order == .lt)
  | .le => .ok (order != .gt)
  | .gt => .ok (order == .gt)
  | .ge => .ok (order != .lt)
  | _ => .error .notConstant

/-- A logical or relational operator. Unordered values are different. -/
def condition (op : BinaryOp) (left right : ConstValue) : Except ConstError Bool :=
  match op with
  | .and => .ok (left.isTruthy && right.isTruthy)
  | .or => .ok (left.isTruthy || right.isTruthy)
  | _ =>
    match order? left right with
    | none => .error .notConstant
    | some none => .ok (op == .ne)
    | some (some order) => relationHolds op order

/-- An operator on one value. -/
def unary (op : UnaryOp) (value : ConstValue) : Except ConstError ConstValue :=
  match op, value with
  | .neg, .int v => .ok (.int (Wide.neg v))
  | .neg, .float v => .ok (.float v.neg)
  | .not, v => .ok (.bool (!v.isTruthy))
  | .bitNot, .int v => .ok (.int (Wide.not v))
  | _, _ => .error .notConstant

/-- A shift in an integer type of `bits` bits; the amount is taken modulo the width. -/
def shift (op : BinaryOp) (left amount : Int) (bits : Nat) : Int :=
  let amount := Wide.bits amount &&& (bits - 1)
  match op with
  | .shl => Wide.shiftLeft left amount
  | _ => Wide.shiftRight left amount

end ConstValue

namespace Program

/-- The scalar in which constants of a type are computed; for an enum, that of its base. -/
def constScalar? (p : Program) (ty : Ty) : Option Scalar :=
  match p.typeDecl? ty with
  | some (.enum own) => p.scalar? own.base
  | _ => p.scalar? ty

/-- Reduces a value to a type. -/
def normalize (p : Program) (value : ConstValue) (ty : Ty) : ConstValue :=
  match p.constScalar? ty, value with
  | some (.int bits signed), .int v => .int (wrapInt v bits signed)
  | some (.float bits), .float v => .float (if bits ≤ 32 then v.toSingle else v)
  | _, value => value

/-- The value of a primitive conversion, before it is reduced to its type. -/
def convertRaw (p : Program) (value : ConstValue) (step : CastStep) : Except ConstError ConstValue :=
  match step.kind, p.constScalar? step.target with
  | .fromNull, some (.int ..) => .ok (.int 0)
  | .fromNull, some (.float _) => .ok (.float .zero)
  | .fromNull, some .bool => .ok (.bool false)
  | .fromNull, none => if step.target.isPointer then .ok .null else .error .notConstant
  | .toBool, _ => .ok (.bool value.isTruthy)
  | .bitCast, some (.float bits) =>
    match value with
    | .int v =>
      if bits ≤ 32 then .ok (.float (.ofSingleBits (v % pow2 32).toNat))
      else .ok (.float ⟨.ofNat (v % pow2 64).toNat⟩)
    | other => .ok other
  | .bitCast, some (.int bits signed) =>
    match value with
    | .float v => .ok (.int (wrapInt (if bits ≤ 32 then v.singleBits else v.bits.toNat : Nat) bits signed))
    | .bool v => .ok (.int (if v then 1 else 0))
    | other => .ok other
  | .widen, some (.int ..) | .narrow, some (.int ..) =>
    match value with
    | .float v => .ok (.int (v.truncateTo Wide.least Wide.greatest))
    | .bool v => .ok (.int (if v then 1 else 0))
    | other => .ok other
  | .widen, some (.float _) | .narrow, some (.float _) =>
    match value.asFloat? with
    | some v => .ok (.float v)
    | none => .error .notConstant
  | .widen, some .bool | .narrow, some .bool | .bitCast, some .bool => .ok (.bool value.isTruthy)
  | _, _ => .error .notConstant

def convert (p : Program) (value : ConstValue) (step : CastStep) : Except ConstError ConstValue :=
  (p.convertRaw value step).map (p.normalize · step.target)

/-- The integer that a value is. -/
def intOf (value : ConstValue) : Except ConstError Int :=
  match value.asInt? with
  | some v => .ok v
  | none => .error .notConstant

/-- The value of a shift in a type. -/
def evalShift (p : Program) (op : BinaryOp) (ty : Ty) (left amount : Int) : Except ConstError ConstValue :=
  match p.constScalar? ty with
  | some (.int bits _) => .ok (p.normalize (.int (ConstValue.shift op left amount bits)) ty)
  | _ => .error .notConstant

/-- The value of a node, whose tree is no deeper than a number. -/
def evalUpTo (p : Program) : Nat → NodeId → Except ConstError ConstValue
  | 0, _ => .error .notConstant
  | n + 1, id =>
    let node := p.node id
    match node.kind with
    | .literal value _ => .ok value
    | .sizeOf _ size => .ok (.int size.toNat)
    | .constExpr inner => evalUpTo p n inner
    | .cast value step => do p.convert (← evalUpTo p n value) step
    | .unary op operand => do return p.normalize (← ConstValue.unary op (← evalUpTo p n operand)) node.ty
    | .arithmetic op left right => do
      let left ← evalUpTo p n left
      let right ← evalUpTo p n right
      return p.normalize (← ConstValue.arithmetic op left right) node.ty
    | .shift op left right => do
      let left ← intOf (← evalUpTo p n left)
      let amount ← intOf (← evalUpTo p n right)
      p.evalShift op node.ty left amount
    | .condition op left right => do
      let left ← evalUpTo p n left
      let right ← evalUpTo p n right
      return .bool (← ConstValue.condition op left right)
    | .ternary test whenTrue whenFalse => do
      if (← evalUpTo p n test).isTruthy then evalUpTo p n whenTrue else evalUpTo p n whenFalse
    | _ => .error .notConstant

/-- The value of a node. The children of a node stand before it in the table, so its tree is no deeper than its place.
-/
def eval (p : Program) (id : NodeId) : Except ConstError ConstValue := p.evalUpTo (id.index + 1) id

/-- Nodes that are marked as constants. -/
def isConstant (p : Program) (id : NodeId) : Bool :=
  match (p.node id).kind with
  | .literal .. | .constExpr _ | .sizeOf .. => true
  | _ => false

/-- The value of a node that is marked as a constant. -/
def constValue? (p : Program) (id : NodeId) : Option ConstValue :=
  if p.isConstant id then (p.eval id).toOption else none

end Program

end Bindery
