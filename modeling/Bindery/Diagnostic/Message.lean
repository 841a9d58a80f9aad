/-!
# The catalogue of messages

Every diagnostic is made from one of these messages. A message has a code, a kind that says what went wrong
independent of the wording, a category, and a template in which `{0}`, `{1}` and so on stand for arguments.
-/
namespace Bindery

/-- How serious a diagnostic is. -/
inductive Category where
  | error
  | warning
  | note
  deriving DecidableEq, Repr

def Category.text : Category → String
  | .error => "error"
  | .warning => "warning"
  | .note => "note"

/-- What went wrong, whatever the wording. -/
inductive Kind where
  | duplicateName
  | name
  | type
  | cast
  | importing
  | template
  | capture
  | nesting
  | unimplemented
  | internal
  deriving DecidableEq, Repr

def Kind.text : Kind → String
  | .duplicateName => "DuplicateName"
  | .name => "Name"
  | .type => "Type"
  | .cast => "Cast"
  | .importing => "Import"
  | .template => "Template"
  | .capture => "Capture"
  | .nesting => "Nesting"
  | .unimplemented => "Unimplemented"
  | .internal => "Internal"

/-- The messages: declarations, names, types and expressions, conversions, modules, templates, captures, limits, and
what is unsupported. -/
inductive Message where
  | duplicateName
  | previousDeclaration
  | missingTypeOrInitializer
  | bodyRequired
  | foreignParameterType
  | foreignBody
  | fieldNeedsType
  | enumBaseNotIntegral
  | cannotFindName
  | noMember
  | nameIsNotAValue
  | nameIsNotAType
  | cannotFindLabel
  | binaryOperator
  | unaryOperator
  | noCommonType
  | notAssignable
  | notCallable
  | notIndexable
  | cannotDereference
  | cannotTakeAddress
  | returnOutsideFunction
  | yieldOutsideGenerator
  | awaitOutsideAsync
  | jumpOutsideLoop
  | continueTargetNotLoop
  | notConstant
  | voidHasNoValue
  | noField
  | fieldInitializedTwice
  | notIterable
  | arrayLength
  | coalesceNeedsPointer
  | expectedType
  | expectedValue
  | divisionByZero
  | atomicTarget
  | deleteNeedsPointer
  | unreachable
  | generatorReturnsValue
  | cannotImplicitlyConvert
  | cannotConvert
  | laneCountMismatch
  | explicitConversionExists
  | cannotFindModule
  | moduleImportsItself
  | cannotImport
  | moduleIsNotAValue
  | argumentCount
  | duplicateArity
  | malformedParameters
  | usedBeforeInferred
  | noParameterNamed
  | argumentTwice
  | needsArguments
  | constParameter
  | notGeneric
  | cannotCapture
  | nestingTooDeep
  | structConversion
  | unimplemented
  | internal
  deriving DecidableEq, Repr

/-- What the catalogue says of a message. -/
structure Message.Entry where
  code : Nat
  kind : Kind
  template : String
  category : Category := .error
  deriving DecidableEq, Repr

namespace Message

/-- The catalogue. -/
def entry : Message → Entry
  | .duplicateName => ⟨1001, .duplicateName, "'{0}' is already declared in this scope.", .error⟩
  | .previousDeclaration => ⟨1002, .duplicateName, "'{0}' was first declared here.", .note⟩
  | .missingTypeOrInitializer => ⟨1003, .type, "'{0}' needs a declared type or an initializer.", .error⟩
  | .bodyRequired => ⟨1004, .type, "Function '{0}' needs a body outside an extern block.", .error⟩
  | .foreignParameterType =>
    ⟨1005, .type, "Extern function '{0}' must declare the type of every parameter.", .error⟩
  | .foreignBody => ⟨1006, .type, "Extern function '{0}' cannot have a body.", .error⟩
  | .fieldNeedsType => ⟨1007, .type, "Field '{0}' needs a declared type or an initializer.", .error⟩
  | .enumBaseNotIntegral => ⟨1008, .type, "Enum base type '{0}' is not integral.", .error⟩
  | .cannotFindName => ⟨1101, .name, "Cannot find name '{0}'.", .error⟩
  | .noMember => ⟨1102, .name, "'{1}' has no member named '{0}'.", .error⟩
  | .nameIsNotAValue => ⟨1103, .name, "'{0}' does not name a value.", .error⟩
  | .nameIsNotAType => ⟨1104, .name, "'{0}' does not name a type.", .error⟩
  | .cannotFindLabel => ⟨1105, .name, "Cannot find label '{0}'.", .error⟩
  | .binaryOperator => ⟨2001, .type, "Operator '{0}' cannot be applied to '{1}' and '{2}'.", .error⟩
  | .unaryOperator => ⟨2002, .type, "Operator '{0}' cannot be applied to '{1}'.", .error⟩
  | .noCommonType => ⟨2003, .type, "'{0}' and '{1}' have no common type.", .error⟩
  | .notAssignable => ⟨2004, .type, "Expression is not assignable.", .error⟩
  | .notCallable => ⟨2005, .type, "Value of type '{0}' is not callable.", .error⟩
  | .notIndexable => ⟨2006, .type, "Value of type '{0}' cannot be indexed.", .error⟩
  | .cannotDereference => ⟨2007, .type, "Value of type '{0}' cannot be dereferenced.", .error⟩
  | .cannotTakeAddress => ⟨2008, .type, "Cannot take the address of a temporary value.", .error⟩
  | .returnOutsideFunction => ⟨2009, .type, "'return' outside of a function.", .error⟩
  | .yieldOutsideGenerator => ⟨2010, .type, "'yield' outside of a generator.", .error⟩
  | .awaitOutsideAsync => ⟨2011, .type, "'await' is only allowed inside an async function.", .error⟩
  | .jumpOutsideLoop => ⟨2012, .type, "'{0}' outside of a loop.", .error⟩
  | .continueTargetNotLoop => ⟨2013, .type, "'continue' target '{0}' is not a loop.", .error⟩
  | .notConstant => ⟨2014, .type, "Expression is not a compile-time constant.", .error⟩
  | .voidHasNoValue => ⟨2015, .type, "Expression of type 'Void' has no value.", .error⟩
  | .noField => ⟨2016, .type, "'{1}' has no field named '{0}'.", .error⟩
  | .fieldInitializedTwice => ⟨2017, .type, "Field '{0}' is initialized more than once.", .error⟩
  | .notIterable => ⟨2018, .type, "Value of type '{0}' is not a generator.", .error⟩
  | .arrayLength => ⟨2019, .type, "Array length must be a positive constant, found '{0}'.", .error⟩
  | .coalesceNeedsPointer => ⟨2020, .type, "Left side of '??' must be a pointer, found '{0}'.", .error⟩
  | .expectedType => ⟨2021, .type, "Expected a type, found a value.", .error⟩
  | .expectedValue => ⟨2022, .type, "Expected a value, found type '{0}'.", .error⟩
  | .divisionByZero => ⟨2023, .type, "Division by zero in constant expression.", .error⟩
  | .atomicTarget => ⟨2024, .type, "Atomic target must be a pointer to an integral value, found '{0}'.", .error⟩
  | .deleteNeedsPointer => ⟨2025, .type, "'delete' needs a pointer, found '{0}'.", .error⟩
  | .unreachable => ⟨2026, .type, "Unreachable statement after '{0}'.", .warning⟩
  | .generatorReturnsValue => ⟨2027, .type, "A generator cannot return a value.", .error⟩
  | .cannotImplicitlyConvert => ⟨3001, .cast, "Cannot implicitly convert '{0}' to '{1}'.", .error⟩
  | .cannotConvert => ⟨3002, .cast, "Cannot convert '{0}' to '{1}'.", .error⟩
  | .laneCountMismatch => ⟨3003, .cast, "Packed types '{0}' and '{1}' have different lane counts.", .error⟩
  | .explicitConversionExists =>
    ⟨3004, .cast, "An explicit conversion from '{0}' to '{1}' exists; use 'as'.", .note⟩
  | .cannotFindModule => ⟨4001, .importing, "Cannot find module '{0}'.", .error⟩
  | .moduleImportsItself => ⟨4002, .importing, "Module '{0}' cannot import itself.", .error⟩
  | .cannotImport => ⟨4003, .importing, "'{1}' has no member '{0}' to import.", .error⟩
  | .moduleIsNotAValue => ⟨4004, .importing, "Module '{0}' cannot be used as a value.", .error⟩
  | .argumentCount => ⟨5001, .template, "No declaration of '{0}' accepts {1} argument(s).", .error⟩
  | .duplicateArity => ⟨5002, .template, "'{0}' is already declared with the same parameter count.", .error⟩
  | .malformedParameters => ⟨5003, .template, "Malformed parameter list for '{0}': {1}.", .error⟩
  | .usedBeforeInferred =>
    ⟨5004, .template, "'{0}' is used recursively before its return type could be inferred.", .error⟩
  | .noParameterNamed => ⟨5005, .template, "'{1}' has no parameter named '{0}'.", .error⟩
  | .argumentTwice => ⟨5006, .template, "Argument '{0}' is specified more than once.", .error⟩
  | .needsArguments => ⟨5007, .template, "'{0}' needs arguments before it can be used.", .error⟩
  | .constParameter => ⟨5008, .template, "Argument for const parameter '{0}' must be a constant.", .error⟩
  | .notGeneric => ⟨5009, .template, "'{0}' cannot be instantiated.", .error⟩
  | .cannotCapture =>
    ⟨6001, .capture, "Cannot capture '{0}' across function '{1}'; only lambdas and generators capture.", .error⟩
  | .nestingTooDeep => ⟨7001, .nesting, "Nesting is deeper than {0} levels.", .error⟩
  | .structConversion =>
    ⟨9001, .unimplemented, "Conversion from '{0}' to '{1}' between struct types is not supported.", .error⟩
  | .unimplemented => ⟨9002, .unimplemented, "{0} is not supported.", .error⟩
  | .internal => ⟨9900, .internal, "Internal binder error: {0}.", .error⟩

def code (message : Message) : Nat := message.entry.code

def kind (message : Message) : Kind := message.entry.kind

def category (message : Message) : Category := message.entry.category

def template (message : Message) : String := message.entry.template

/-- Every message, in the order of the codes. -/
def all : List Message :=
  [.duplicateName, .previousDeclaration, .missingTypeOrInitializer, .bodyRequired, .foreignParameterType,
    .foreignBody, .fieldNeedsType, .enumBaseNotIntegral, .cannotFindName, .noMember, .nameIsNotAValue,
    .nameIsNotAType, .cannotFindLabel, .binaryOperator, .unaryOperator, .noCommonType, .notAssignable, .notCallable,
    .notIndexable, .cannotDereference, .cannotTakeAddress, .returnOutsideFunction, .yieldOutsideGenerator,
    .awaitOutsideAsync, .jumpOutsideLoop, .continueTargetNotLoop, .notConstant, .voidHasNoValue, .noField,
    .fieldInitializedTwice, .notIterable, .arrayLength, .coalesceNeedsPointer, .expectedType, .expectedValue,
    .divisionByZero, .atomicTarget, .deleteNeedsPointer, .unreachable, .generatorReturnsValue,
    .cannotImplicitlyConvert, .cannotConvert, .laneCountMismatch, .explicitConversionExists, .cannotFindModule,
    .moduleImportsItself, .cannotImport, .moduleIsNotAValue, .argumentCount, .duplicateArity, .malformedParameters,
    .usedBeforeInferred, .noParameterNamed, .argumentTwice, .needsArguments, .constParameter, .notGeneric,
    .cannotCapture, .nestingTooDeep, .structConversion, .unimplemented, .internal]

/-- The message with a given code. -/
def ofCode? (code : Nat) : Option Message := all.find? (·.code == code)

theorem ofCode?_code (message : Message) : ofCode? message.code = some message := by cases message <;> rfl

end Message

end Bindery
