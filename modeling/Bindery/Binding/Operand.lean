import Bindery.Binding.Instance
import Bindery.Binding.Module
import Bindery.Binding.Template
import Bindery.Number.Power
/-!
# Operands

A name or a member may denote a value, a type, a module or something callable. The rules find what it is first, and what
stands around it decides whether that will do.
-/
namespace Bindery

/-- A part of the source that is still to be bound: its place, and the rule that finds what it denotes. -/
structure Part where
  pos : Span
  operand : BindM Operand

namespace BindM

/-- What a symbol denotes where it is used. A constant is a literal of its value there. -/
def resolve (symbol : SymbolId) (pos : Span) : BindM Operand := do
  let symbol ← ask (·.resolveAlias symbol)
  match ← ask (·.decl symbol) with
  | .builtin _ | .struct _ | .union _ | .array _ | .enum _ => return .type (.direct symbol)
  | .typeAlias _ ty => return .type ty
  | .constAlias _ value =>
    let some constant ← ask (·.constValue? value) | failure
    let adaptable ← ask fun p => match (p.node value).kind with
      | .literal _ adaptable => adaptable
      | _ => false
    return .value (← addNode pos (← nodeType value) (.literal constant adaptable))
  | .module _ => return .module symbol
  | .template _ | .overloadSet _ | .function _ => return .callable symbol none
  | .parameter .. | .localVar _ | .globalVar _ | .field _ => return .value (← reference symbol pos)
  | .label _ | .valueAlias .. => fail pos .nameIsNotAValue [← symbolName symbol]

/-- What a name denotes. -/
def nameOperand (name : String) (pos : Span) : BindM Operand := do
  let scope ← currentScope
  match ← ask (·.lookup? scope name) with
  | some symbol => resolve symbol pos
  | none => fail pos .cannotFindName [name]

/-- A struct template that is used without arguments denotes its instance. -/
def settle (room : Room) (operand : Operand) (pos : Span) : BindM Operand := do
  match operand with
  | .callable symbol none =>
    if ← ask (·.isStructTemplate symbol) then
      let template ← selectTemplate symbol 0 false pos
      return .type (.direct (← instantiateStruct room template [] pos))
    else return operand
  | _ => return operand

/-- A function as a value. A template is one when it takes no arguments. -/
def functionValue (room : Room) (symbol : SymbolId) (receiver : Option NodeId) (pos : Span) : BindM NodeId := do
  let function ← match receiver, ← ask (·.decl symbol) with
    | none, .function _ => pure symbol
    | none, .template own =>
      if own.arity.required = 0 && !own.arity.receiver && own.functionKind == .plain then
        Prod.fst <$> instantiateFunction room symbol [] pos
      else fail pos .needsArguments [← symbolName symbol]
    | _, _ => fail pos .needsArguments [← symbolName symbol]
  addNode pos (.direct function) (.valueName function [])

/-- The node of an operand. -/
def operandNode (room : Room) (operand : Operand) (pos : Span) : BindM NodeId := do
  match operand with
  | .value node => return node
  | .type ty => fail pos .expectedValue [← typeName ty]
  | .module symbol => fail pos .moduleIsNotAValue [← symbolName symbol]
  | .callable symbol receiver => functionValue room symbol receiver pos

/-- The type that an operand denotes. -/
def operandType (operand : Operand) (pos : Span) : BindM Ty := do
  match operand with
  | .type ty => return ty
  | .value _ => fail pos .expectedType []
  | .module symbol | .callable symbol _ => fail pos .nameIsNotAType [← symbolName symbol]

end BindM

namespace Part

open BindM

variable (room : Room) (part : Part)

/-- What a part denotes, where templates of structs are types. -/
def settled : BindM Operand := do settle room (← part.operand) part.pos

/-- An expression or a statement. -/
def expression : BindM NodeId := do operandNode room (← part.settled room) part.pos

/-- An expression that has to have a value. -/
def value : BindM NodeId := do requireValue (← part.expression room) part.pos

def condition : BindM NodeId := do asCondition (← part.value room)

def type : BindM Ty := do operandType (← part.settled room) part.pos

/-- An argument of a call: a type or a value. -/
def argument : BindM ArgValue := do
  match ← part.settled room with
  | .type ty => return .type ty
  | operand => return .value (← requireValue (← operandNode room operand part.pos) part.pos)

end Part

/-- An argument that is still to be bound. -/
structure ArgPart where
  pos : Span
  name : Option String
  value : Part

namespace BindM

/-- Binds all arguments, so that every error is reported, and then fails if one of them failed. -/
def bindArguments (room : Room) (args : List ArgPart) : BindM (List CallArg) := do
  let bound ← args.mapM fun arg => attempt do
    return { pos := arg.pos, name := arg.name, value := ← arg.value.argument room : CallArg }
  match bound.mapM id with
  | some args => return args
  | none => failure

/-! ## Members -/

/-- The object that a value is, through a reference and a pointer. -/
def object (value : NodeId) : BindM NodeId := do
  let value ← readThrough value
  match (← nodeType value).pointee? with
  | some pointee => addNode (← nodePos value) pointee (.dereference value)
  | none => return value

/-- A member of a struct or an enum, reached from a value. -/
def memberOperand (pos : Span) (value : NodeId) (symbol : SymbolId) : BindM Operand := do
  let symbol ← ask (·.resolveAlias symbol)
  match ← ask (·.decl symbol) with
  | .field own => return .value (← addNode pos own.ty (.fieldName (← object value) symbol))
  | .template _ | .overloadSet _ | .function _ => return .callable symbol (some value)
  | _ => resolve symbol pos

/-- What `value.member` denotes. When the value has no such member, a function of that name takes it as its first
argument. -/
def dotValue (pos : Span) (value : NodeId) (member : String) : BindM Operand := do
  let ty ← nodeType value
  let scope ← currentScope
  let found ← ask fun p => do p.member? (← (p.symbol (← p.memberStruct? ty)).ownScope) member
  match found with
  | some symbol => memberOperand pos value symbol
  | none =>
    match ← ask fun p => ((p.lookup? scope member).map p.resolveAlias).filter p.isCallable with
    | some symbol => return .callable symbol (some value)
    | none => fail pos .noMember [member, ← typeName ty]

/-- What `Type.member` denotes: anything but what every value has for itself. -/
def dotType (pos : Span) (ty : Ty) (member : String) : BindM Operand := do
  let found ← ask fun p => do p.member? (← (p.symbol (← ty.symbol?)).ownScope) member
  let shared ← ask fun p => found.filter fun symbol => match p.decl symbol with
    | .globalVar _ => true
    | decl => decl.valueType?.isNone
  match shared with
  | some symbol => resolve symbol pos
  | none => fail pos .noMember [member, ← typeName ty]

/-- What `module.member` denotes. -/
def dotModule (room : Room) (pos : Span) (module : SymbolId) (member : String) : BindM Operand := do
  let scope ← moduleScope room module
  match ← ask (·.member? scope member) with
  | some symbol => resolve symbol pos
  | none => fail pos .noMember [member, ← symbolName module]

def dotOperand (room : Room) (pos : Span) (base : Part) (member : String) : BindM Operand := do
  match ← base.settled room with
  | .module module => dotModule room pos module member
  | .type ty => dotType pos ty member
  | .callable symbol _ => fail base.pos .needsArguments [← symbolName symbol]
  | .value node => dotValue pos node member

/-! ## Types -/

/-- The length of an array type: a positive constant integer. -/
def arrayLength (room : Room) (part : Part) : BindM UInt64 := do
  let node ← part.value room
  let value ← ask (·.constValue? node)
  match value.bind (·.asInt?) with
  | some length =>
    if 0 < length && (← ask fun p => p.isIntegral (p.node node).ty) then
      if length < pow2 64 then return .ofNat length.toNat else failure
    else lengthError value
  | none => lengthError value
where
  lengthError (value : Option ConstValue) : BindM UInt64 :=
    fail part.pos .arrayLength [(value.map (·.describe)).getD "<non-constant>"]

def pointerOperand (room : Room) (pointee : Part) : BindM Operand := return .type (.pointer (← pointee.type room))

def referenceOperand (room : Room) (pointee : Part) : BindM Operand :=
  return .type (.reference (← pointee.type room))

def arrayOperand (room : Room) (element length : Part) : BindM Operand := do
  let element ← element.type room
  return .type (← arrayType element (← arrayLength room length))

end BindM

end Bindery
