import Bindery.Number.Double
import Bindery.Syntax.Modifiers
import Bindery.Syntax.Operator
import Bindery.Text.Span
/-!
# Syntax trees

A tree is a span and a form. Expressions, types, declarations and statements are forms of one type: which of them may
stand where is for binding to decide.
-/
namespace Bindery

mutual

/-- A piece of source. -/
inductive Syntax where
  | mk (pos : Span) (form : Form)

/-- What a piece of source is. -/
inductive Form where
  | int (value : Nat) (suffix : Option IntSuffix)
  | float (value : Double) (single : Bool)
  | bool (value : Bool)
  | null
  | string (value : String)
  | name (name : String)
  | dot (base : Syntax) (member : String)
  | index (base index : Syntax)
  | unary (op : UnaryOp) (operand : Syntax)
  | binary (op : BinaryOp) (left right : Syntax)
  | assign (op : Option BinaryOp) (target value : Syntax)
  | ternary (condition whenTrue whenFalse : Syntax)
  | cast (value target : Syntax) (intent : Intent)
  | call (callee : Syntax) (args : List Argument) (trailing : Option Syntax)
  | initializer (type : Syntax) (fields : List Argument)
  | tuple (items : List Syntax)
  | sizeOf (target : Syntax)
  | new (type : Syntax) (count : Option Syntax) (args : List Argument)
  | delete (value : Syntax)
  | atomic (op : AtomicOp) (target value : Syntax)
  | lambda (function : FunctionDef)
  | pointerType (pointee : Syntax)
  | referenceType (pointee : Syntax)
  | arrayType (element length : Syntax)
  | define (name : String) (type value : Option Syntax) (modifiers : Modifiers)
  | function (function : FunctionDef)
  | struct (struct : StructDef)
  | enum (enum : EnumDef)
  | aliasAs (name : String) (target : Syntax)
  | importPath (path : List String) (rename : Option String)
  | exportAs (name : String) (target : Syntax)
  | module (module : ModuleDef)
  | foreign (abi : String) (body : List Syntax)
  | modified (modifiers : Modifiers) (body : List Syntax)
  | block (label : Option String) (body : List Syntax)
  | branch (condition whenTrue : Syntax) (whenFalse : Option Syntax)
  | loop (label : Option String) (init condition step : Option Syntax) (body : Syntax)
  | forIn (label : Option String) (name : String) (iterable body : Syntax)
  | returns (value : Option Syntax)
  | breaks (label : Option String)
  | continues (label : Option String)
  | defer (value : Syntax)
  | yield (value : Syntax)
  | yieldFrom (value : Syntax)
  | await (value : Syntax)

/-- An argument of a call, or a field of an initializer. -/
structure Argument where
  pos : Span
  name : Option String
  value : Syntax

/-- A parameter of a function or a generic struct. A `vararg` takes all arguments that are left; a `const` one takes a
constant. -/
structure Param where
  pos : Span
  name : String
  type : Option Syntax
  default : Option Syntax
  vararg : Bool
  const : Bool

/-- A function. It has no name when it is a lambda or defines an operator, and no body when it is foreign. -/
structure FunctionDef where
  pos : Span
  name : Option String
  operator : Option OperatorName
  kind : FunctionKind
  params : List Param
  returnType : Option Syntax
  body : Option (List Syntax)
  modifiers : Modifiers

/-- A struct, tuple or union, with its fields, methods and other members. -/
structure StructDef where
  pos : Span
  name : Option String
  form : StructForm
  params : List Param
  body : List Syntax
  modifiers : Modifiers

/-- A member of an enum. -/
structure EnumMember where
  pos : Span
  name : String
  value : Option Syntax

structure EnumDef where
  pos : Span
  name : String
  base : Option Syntax
  members : List EnumMember

/-- A module: a whole file, or a part of one. -/
structure ModuleDef where
  pos : Span
  name : String
  body : List Syntax

end

namespace Syntax

def pos : Syntax → Span
  | .mk pos _ => pos

def form : Syntax → Form
  | .mk _ form => form

instance : Inhabited Syntax := ⟨.mk .synthetic .null⟩

end Syntax

instance : Inhabited ModuleDef := ⟨⟨.synthetic, "", []⟩⟩

namespace Form

/-- The name of the form, as a dump writes it. -/
def kindName : Form → String
  | .int .. => "IntLiteral"
  | .float .. => "FloatLiteral"
  | .bool .. => "BoolLiteral"
  | .null => "NullLiteral"
  | .string .. => "StringLiteral"
  | .name .. => "Name"
  | .dot .. => "Dot"
  | .index .. => "Index"
  | .unary .. => "Unary"
  | .binary .. => "Binary"
  | .assign .. => "Assign"
  | .ternary .. => "Ternary"
  | .cast .. => "Cast"
  | .call .. => "Call"
  | .initializer .. => "Initializer"
  | .tuple .. => "Tuple"
  | .sizeOf .. => "SizeOf"
  | .new .. => "New"
  | .delete .. => "Delete"
  | .atomic .. => "Atomic"
  | .lambda .. => "Lambda"
  | .pointerType .. => "PointerType"
  | .referenceType .. => "ReferenceType"
  | .arrayType .. => "ArrayType"
  | .define .. => "Define"
  | .function .. => "Function"
  | .struct .. => "Struct"
  | .enum .. => "Enum"
  | .aliasAs .. => "Alias"
  | .importPath .. => "Import"
  | .exportAs .. => "Export"
  | .module .. => "Module"
  | .foreign .. => "Extern"
  | .modified .. => "Modified"
  | .block .. => "Block"
  | .branch .. => "If"
  | .loop .. => "Loop"
  | .forIn .. => "ForIn"
  | .returns .. => "Return"
  | .breaks .. => "Break"
  | .continues .. => "Continue"
  | .defer .. => "Defer"
  | .yield .. => "Yield"
  | .yieldFrom .. => "YieldFrom"
  | .await .. => "Await"

/-- Whether control never goes past the statement. -/
def isTerminator : Form → Bool
  | .returns .. | .breaks .. | .continues .. => true
  | _ => false

end Form

end Bindery
