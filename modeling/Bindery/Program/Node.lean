import Bindery.Constant.Value
import Bindery.Program.Type
import Bindery.Syntax.Operator
import Bindery.Text.Span
/-!
# Nodes

Typed expressions and statements. A node refers to its children by their place in the node table; statements have the
type `Void`.
-/
namespace Bindery

/-- A primitive conversion. -/
inductive StepKind where
  | fromNull
  | widen
  | narrow
  | bitCast
  | toBool
  | addressOf
  | referenceOf
  | dereference
  | packedFloatCast
  | packedBroadcast
  | packedBitCast
  deriving DecidableEq, Repr

/-- Whether a conversion computes a new value, rather than moving between a value and the place where it is kept. -/
def StepKind.isValueConversion : StepKind → Bool
  | .addressOf | .referenceOf | .dereference => false
  | _ => true

/-- A primitive conversion and the type of its result. -/
structure CastStep where
  kind : StepKind
  target : Ty
  deriving DecidableEq, Repr

/-- A step of the way to a captured variable: the scope of a closure's struct, and the field of it that holds the
variable. -/
structure CaptureHop where
  scope : ScopeId
  field : SymbolId
  deriving DecidableEq, Repr

/-- What the operator of a compound assignment works on. -/
inductive CompoundKind where
  | arithmetic
  | shift
  | pointer
  deriving DecidableEq, Repr

/-- What a node is. -/
inductive NodeKind where
  | literal (value : ConstValue) (adaptable : Bool)
  | stringLiteral (value : String)
  | typeName (target : Ty)
  | valueName (symbol : SymbolId) (captures : List CaptureHop)
  | fieldName (base : NodeId) (field : SymbolId)
  | indexName (base index : NodeId)
  | constExpr (inner : NodeId)
  | cast (value : NodeId) (step : CastStep)
  | addressOf (value : NodeId)
  | referenceOf (value : NodeId)
  | dereference (value : NodeId)
  | unary (op : UnaryOp) (operand : NodeId)
  | arithmetic (op : BinaryOp) (left right : NodeId)
  | shift (op : BinaryOp) (left right : NodeId)
  | pointerArithmetic (op : BinaryOp) (pointer offset : NodeId)
  | pointerDifference (left right : NodeId)
  | condition (op : BinaryOp) (left right : NodeId)
  | coalesce (left right : NodeId)
  | ternary (condition whenTrue whenFalse : NodeId)
  | call (function : SymbolId) (args : List NodeId)
  | callIndirect (callee : NodeId) (args : List NodeId)
  | initializer (fields : List (SymbolId × NodeId))
  | sizeOf (target : Ty) (size : UInt64)
  | new (target : Ty) (count : Option NodeId) (constructor : Option SymbolId) (args : List NodeId)
  | delete (value : NodeId) (disposer : Option SymbolId)
  | atomic (op : AtomicOp) (target value : NodeId)
  | definition (symbol : SymbolId) (value : Option NodeId)
  | assignment (target value : NodeId)
  | compoundAssignment (op : BinaryOp) (kind : CompoundKind) (target value : NodeId)
  | block (scope : ScopeId) (label : Option SymbolId) (body : List NodeId)
  | branch (condition whenTrue : NodeId) (whenFalse : Option NodeId)
  | loop (scope : ScopeId) (label : SymbolId) (init condition step : Option NodeId) (body : NodeId)
  | forIn (scope : ScopeId) (label item state : SymbolId) (init : NodeId) (step : SymbolId) (body : NodeId)
  | returns (value : Option NodeId)
  | breaks (label : SymbolId)
  | continues (label : SymbolId)
  | defer (value : NodeId)
  | yield (value : NodeId)
  | yieldFrom (value : NodeId) (step : SymbolId)
  | await (value : NodeId)
  deriving DecidableEq, Repr

/-- A node: its place, its type, and what it is. -/
structure Node where
  pos : Span
  ty : Ty
  kind : NodeKind
  deriving DecidableEq, Repr

instance : Inhabited NodeKind := ⟨.literal .null false⟩

instance : Inhabited Node := ⟨⟨.synthetic, .unknown, default⟩⟩

namespace NodeKind

/-- The children of a node, in the order of their evaluation. -/
def children : NodeKind → List NodeId
  | .literal .. | .stringLiteral _ | .typeName _ | .valueName .. | .sizeOf .. | .breaks _ | .continues _ => []
  | .constExpr value | .addressOf value | .referenceOf value | .dereference value => [value]
  | .defer value | .yield value | .await value | .yieldFrom value _ => [value]
  | .fieldName base _ => [base]
  | .indexName base index => [base, index]
  | .cast value _ => [value]
  | .unary _ operand => [operand]
  | .arithmetic _ left right | .shift _ left right | .condition _ left right => [left, right]
  | .pointerDifference left right | .coalesce left right => [left, right]
  | .pointerArithmetic _ pointer offset => [pointer, offset]
  | .ternary test whenTrue whenFalse => [test, whenTrue, whenFalse]
  | .call _ args => args
  | .callIndirect callee args => callee :: args
  | .initializer fields => fields.map (·.2)
  | .new _ count _ args => count.toList ++ args
  | .delete value _ => [value]
  | .atomic _ target value => [target, value]
  | .definition _ value => value.toList
  | .assignment target value | .compoundAssignment _ _ target value => [target, value]
  | .block _ _ body => body
  | .branch test whenTrue whenFalse => [test, whenTrue] ++ whenFalse.toList
  | .loop _ _ init test step body => init.toList ++ test.toList ++ step.toList ++ [body]
  | .forIn _ _ _ _ init _ body => [init, body]
  | .returns value => value.toList

/-- The symbols that a node refers to. -/
def symbols : NodeKind → List SymbolId
  | .valueName symbol captures => symbol :: captures.map (·.field)
  | .fieldName _ field => [field]
  | .call function _ => [function]
  | .initializer fields => fields.map (·.1)
  | .new _ _ constructor _ => constructor.toList
  | .delete _ disposer => disposer.toList
  | .definition symbol _ => [symbol]
  | .block _ label _ => label.toList
  | .loop _ label .. => [label]
  | .breaks label | .continues label => [label]
  | .forIn _ label item state _ step _ => [label, item, state, step]
  | .yieldFrom _ step => [step]
  | _ => []

/-- The name of the kind. -/
def name : NodeKind → String
  | .literal .. => "Literal"
  | .stringLiteral .. => "StringLiteral"
  | .typeName .. => "TypeName"
  | .valueName .. => "ValueName"
  | .fieldName .. => "FieldName"
  | .indexName .. => "IndexName"
  | .constExpr .. => "ConstExpr"
  | .cast .. => "Cast"
  | .addressOf .. => "AddressOf"
  | .referenceOf .. => "ReferenceOf"
  | .dereference .. => "Dereference"
  | .unary .. => "Unary"
  | .arithmetic .. => "Arithmetic"
  | .shift .. => "Shift"
  | .pointerArithmetic .. => "PointerArithmetic"
  | .pointerDifference .. => "PointerDifference"
  | .condition .. => "Condition"
  | .coalesce .. => "Coalesce"
  | .ternary .. => "Ternary"
  | .call .. => "Call"
  | .callIndirect .. => "CallIndirect"
  | .initializer .. => "Initializer"
  | .sizeOf .. => "SizeOf"
  | .new .. => "New"
  | .delete .. => "Delete"
  | .atomic .. => "Atomic"
  | .definition .. => "Definition"
  | .assignment .. => "Assignment"
  | .compoundAssignment .. => "CompoundAssignment"
  | .block .. => "Block"
  | .branch .. => "If"
  | .loop .. => "Loop"
  | .forIn .. => "ForIn"
  | .returns .. => "Return"
  | .breaks .. => "Break"
  | .continues .. => "Continue"
  | .defer .. => "Defer"
  | .yield .. => "Yield"
  | .yieldFrom .. => "YieldFrom"
  | .await .. => "Await"

end NodeKind

end Bindery
