import Bindery.Binding.Monad
import Bindery.Constant.Eval
import Bindery.Conversion.Plan
/-!
# Converting values

A conversion wraps a node in the steps of its plan. Constants stay marked as constants while the steps compute values.
An integer literal without a suffix has the smallest type that holds it, and takes another integer type when it meets
one that holds it too.
-/
namespace Bindery

/-- What is reported for a refused conversion. -/
def CastFailure.diagnostic (failure : CastFailure) (intent : Intent) (pos : Span) (source target : String) :
    Diagnostic :=
  match failure, intent with
  | .explicitOnly, _ =>
    (Diagnostic.of pos .cannotImplicitlyConvert [source, target]).withRelated
      (.of pos .explicitConversionExists [source, target])
  | .notConvertible, .implicit => .of pos .cannotImplicitlyConvert [source, target]
  | .notConvertible, .explicit => .of pos .cannotConvert [source, target]
  | .laneCountMismatch, _ => .of pos .laneCountMismatch [source, target]
  | .structUnimplemented, _ => .of pos .structConversion [source, target]
  | .internal, _ => .of pos .internal [s!"no conversion rule from '{source}' to '{target}'"]

/-- The node that a step makes of a value. -/
def CastStep.nodeKind (step : CastStep) (value : NodeId) : NodeKind :=
  match step.kind with
  | .addressOf => .addressOf value
  | .referenceOf => .referenceOf value
  | .dereference => .dereference value
  | _ => .cast value step

namespace Program

/-- The integer of a literal whose type may still change. -/
def adaptableInt? (p : Program) (node : NodeId) : Option Int :=
  match (p.node node).kind with
  | .literal (.int value) true => some value
  | _ => none

/-- Whether a literal takes another type: its own may change, and its value fits. -/
def adaptsTo (p : Program) (node : NodeId) (target : Ty) : Bool :=
  match p.adaptableInt? node, p.scalar? target with
  | some value, some (.int bits signed) => wrapInt value bits signed == value
  | _, _ => false

/-- Gives a literal another type when it takes it. -/
def adaptLiteral (p : Program) (node : NodeId) (target : Ty) : Program :=
  if p.adaptsTo node target then p.modifyNode node ({ · with ty := target }) else p

/-- The type in which an integer narrower than 32 bits takes part in a computation. -/
def promote (p : Program) (ty : Ty) : Ty :=
  match p.scalar? ty with
  | some (.int bits signed) => if bits < 32 then .int 32 signed else ty
  | _ => ty

/-- The type of a variable that is declared by its value alone: a literal is at least an `Int32`. -/
def inferredType (p : Program) (node : NodeId) : Ty :=
  match (p.node node).kind, p.scalar? (p.node node).ty with
  | .literal _ true, some (.int bits _) => if bits < 32 then .int32 else (p.node node).ty
  | _, _ => (p.node node).ty

def converts (p : Program) (source target : Ty) : Bool := (p.castPlan .implicit source target).toBool

/-- The type that values of two types both become without being asked. An integer and a floating-point number that do
not become each other meet in `Double`. -/
def upperBound? (p : Program) (left right : Ty) : Option Ty :=
  let mixed := match p.scalar? left, p.scalar? right with
    | some (.int ..), some (.float _) | some (.float _), some (.int ..) => true
    | _, _ => false
  if left = right then some left
  else if p.converts left right then some right
  else if p.converts right left then some left
  else if mixed && p.converts left .double && p.converts right .double then some .double
  else none

/-- Whether a node stands for a place that a value can be kept in. -/
def isPlace (p : Program) (node : NodeId) : Bool :=
  match (p.node node).kind with
  | .valueName .. | .fieldName .. | .indexName .. | .dereference _ => true
  | _ => (p.node node).ty.isReference

end Program

namespace BindM

/-- Marks a node as a constant. -/
def markConstant (node : NodeId) : BindM NodeId := do
  if ← ask (·.isConstant node) then return node
  addNode (← nodePos node) (← nodeType node) (.constExpr node)

/-- Reads what a reference refers to. -/
def readThrough (node : NodeId) : BindM NodeId := do
  match ← nodeType node with
  | .reference pointee => addNode (← nodePos node) pointee (.dereference node)
  | _ => return node

/-- Applies the steps of a plan. `constant` tells whether the value is marked as a constant. -/
def applySteps (pos : Span) : List CastStep → Bool → NodeId → BindM NodeId
  | [], _, value => return value
  | step :: rest, constant, value => do
    let made ← addNode pos step.target (step.nodeKind value)
    if constant && step.kind.isValueConversion then
      applySteps pos rest true (← addNode pos step.target (.constExpr made))
    else applySteps pos rest false made

/-- Converts a value, or reports at its place why it cannot be converted. What has no type fails without a report: its
own failure was reported. -/
def convert (value : NodeId) (target : Ty) (intent : Intent) : BindM NodeId := do
  let source ← nodeType value
  let pos ← nodePos value
  if source.isUnknown || target.isUnknown then failure
  match ← ask (·.castPlan intent source target) with
  | .ok steps => applySteps pos steps (← ask (·.isConstant value)) value
  | .error cause =>
    report (cause.diagnostic intent pos (← typeName source) (← typeName target))
    failure

/-- Converts a value where the source does not ask for it. -/
def coerce (value : NodeId) (target : Ty) : BindM NodeId := convert value target .implicit

/-- Marks an operation as a constant when its operands are, and reports a division by zero. -/
def fold (node : NodeId) (operands : List NodeId) : BindM NodeId := do
  if !(← ask fun p => operands.all p.isConstant) then return node
  match ← ask (·.eval node) with
  | .ok _ => markConstant node
  | .error .divisionByZero => fail (← nodePos node) .divisionByZero []
  | .error .notConstant => return node

def adaptLiteral (node : NodeId) (target : Ty) : BindM Unit := modifyProgram (·.adaptLiteral node target)

/-- The type in which two values meet. Literals first take the other's type. -/
def upperBound (left right : NodeId) (pos : Span) : BindM Ty := do
  adaptLiteral left (← nodeType right)
  adaptLiteral right (← nodeType left)
  let a ← nodeType left
  let b ← nodeType right
  match ← ask (·.upperBound? a b) with
  | some ty => return ty
  | none => fail pos .noCommonType [← typeName a, ← typeName b]

end BindM

end Bindery
