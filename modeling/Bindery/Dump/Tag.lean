import Bindery.Conversion.Plan
import Bindery.Program.Basic
/-!
# Names of alternatives

The names under which the alternatives of enumerations appear in dumps.
-/
namespace Bindery

def OperatorFamily.tag : OperatorFamily → String
  | .relational => "Relational"
  | .logical => "Logical"
  | .coalesce => "Coalesce"
  | .bitwise => "Bitwise"
  | .shift => "Shift"
  | .additive => "Additive"
  | .multiplicative => "Multiplicative"

def AtomicOp.tag : AtomicOp → String
  | .add => "Add"
  | .sub => "Sub"
  | .and => "And"
  | .or => "Or"
  | .xor => "Xor"
  | .exchange => "Exchange"

def FunctionKind.tag : FunctionKind → String
  | .plain => "Plain"
  | .lambda => "Lambda"
  | .generator => "Generator"

def StructForm.tag : StructForm → String
  | .struct => "Struct"
  | .tuple => "Tuple"
  | .union => "Union"

def Intent.tag : Intent → String
  | .explicit => "As"
  | .implicit => "To"

def Role.tag : Role → String
  | .plain => "Plain"
  | .constructor => "Constructor"
  | .disposer => "Disposer"
  | .generatorStep => "GeneratorStep"
  | .lambdaCall => "LambdaCall"

def BindStatus.tag : BindStatus → String
  | .idle => "Idle"
  | .busy => "Busy"
  | .done => "Done"

def StructKind.tag : StructKind → String
  | .ordinary => "Ordinary"
  | .tuple => "Tuple"
  | .resumable => "Resumable"
  | .lambda => "Lambda"

def AliasTag.tag : AliasTag → String
  | .define => "Define"
  | .imported => "Import"
  | .exported => "Export"

def ScopeKind.tag : ScopeKind → String
  | .builtin => "Builtin"
  | .root => "Root"
  | .module => "Module"
  | .struct => "Struct"
  | .function => "Function"
  | .block => "Block"
  | .enum => "Enum"

def StepKind.tag : StepKind → String
  | .fromNull => "FromNull"
  | .widen => "Widen"
  | .narrow => "Narrow"
  | .bitCast => "BitCast"
  | .toBool => "ToBool"
  | .addressOf => "AddressOf"
  | .referenceOf => "ReferenceOf"
  | .dereference => "Dereference"
  | .packedFloatCast => "PackedFloatCast"
  | .packedBroadcast => "PackedBroadcast"
  | .packedBitCast => "PackedBitCast"

def CompoundKind.tag : CompoundKind → String
  | .arithmetic => "Arithmetic"
  | .shift => "Shift"
  | .pointer => "Pointer"

def CastFailure.tag : CastFailure → String
  | .notConvertible => "NotConvertible"
  | .explicitOnly => "ExplicitOnly"
  | .laneCountMismatch => "LaneCountMismatch"
  | .structUnimplemented => "StructUnimplemented"
  | .internal => "Internal"

def Scalar.tag : Scalar → String
  | .bool => "Bool"
  | .int bits signed => s!"Int \x7b bits: {bits}, signed: {signed} \x7d"
  | .float bits => s!"Float \x7b bits: {bits} \x7d"

def Builtin.tag : Builtin → String
  | .void => "Void"
  | .null => "Null"
  | .scalar own => s!"Scalar({own.tag})"
  | .packed element lanes => s!"Packed \x7b element: {element.tag}, lanes: {lanes} \x7d"

end Bindery
