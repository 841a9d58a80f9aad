import Bindery.Program.Node
import Bindery.Syntax.Arity
/-!
# Symbols

Every declared name is a symbol with one declaration. The declaration says what the name stands for; it may be completed
later, as when the return type of a function is found.
-/
namespace Bindery

/-- The scalars that types are built from. -/
inductive Scalar where
  | bool
  | int (bits : Nat) (signed : Bool)
  | float (bits : Nat)
  deriving DecidableEq, Repr

namespace Scalar

def bits : Scalar → Nat
  | .bool => 8
  | .int bits _ => bits
  | .float bits => bits

def isInt : Scalar → Bool
  | .int .. => true
  | _ => false

def isFloat : Scalar → Bool
  | .float _ => true
  | _ => false

end Scalar

/-- The types that need no declaration. A packed type holds several scalars side by side. -/
inductive Builtin where
  | void
  | null
  | scalar (scalar : Scalar)
  | packed (element : Scalar) (lanes : Nat)
  deriving DecidableEq, Repr

/-- How far the binding of a module has come. -/
inductive BindStatus where
  | idle
  | busy
  | done
  deriving DecidableEq, Repr

/-- What a function is for. -/
inductive Role where
  | plain
  | constructor
  | disposer
  | generatorStep
  | lambdaCall
  deriving DecidableEq, Repr

/-- Whether the body of a function may capture the variables around it. -/
def Role.captures : Role → Bool
  | .generatorStep | .lambdaCall => true
  | _ => false

/-- What a struct stands for: a declared struct, a tuple, the state of a generator, or the closure of a lambda. -/
inductive StructKind where
  | ordinary
  | tuple
  | resumable
  | lambda
  deriving DecidableEq, Repr

/-- The statement that introduced an alias. -/
inductive AliasTag where
  | define
  | imported
  | exported
  deriving DecidableEq, Repr

/-- A module. Its entry is the function that holds its statements. -/
structure ModuleDecl where
  source : ModuleDef
  status : BindStatus := .idle
  entry : Option SymbolId := none

/-- The declaration that a template stands for. -/
inductive TemplateSource where
  | function (source : FunctionDef)
  | struct (source : StructDef)

namespace TemplateSource

def params : TemplateSource → List Param
  | .function source => source.params
  | .struct source => source.params

def pos : TemplateSource → Span
  | .function source => source.pos
  | .struct source => source.pos

def isStruct : TemplateSource → Bool
  | .function _ => false
  | .struct _ => true

end TemplateSource

/-- A declared function or struct, which is instantiated when it is used. Instances bind under `scope`, the scope of the
declaration; `owner` is the struct that a method belongs to. -/
structure TemplateDecl where
  source : TemplateSource
  arity : Arity
  scope : ScopeId
  role : Role
  functionKind : FunctionKind
  modifiers : Modifiers
  owner : Option SymbolId
  instances : List SymbolId := []

/-- A struct or a union. `method` steps a generator or calls a lambda; `element` is what a generator yields, and
`elementField` the field that takes it. -/
structure StructDecl where
  kind : StructKind
  fields : List SymbolId := []
  template : Option SymbolId := none
  method : Option SymbolId := none
  element : Option Ty := none
  elementField : Option SymbolId := none
  deriving DecidableEq, Repr

structure ArrayDecl where
  element : Ty
  length : UInt64
  deriving DecidableEq, Repr

/-- An enum, with its members and their values. -/
structure EnumDecl where
  base : Ty
  members : List (SymbolId × ConstValue) := []
  deriving DecidableEq, Repr

/-- A function. Its parameters start with the receiver, if it has one; its return type is missing while it is being
inferred. -/
structure FunctionDecl where
  role : Role
  params : List SymbolId := []
  ret : Option Ty := none
  body : List NodeId := []
  template : Option SymbolId := none
  owner : Option SymbolId := none
  receiver : Option SymbolId := none
  abi : Option String := none
  modifiers : Modifiers := .none
  deriving DecidableEq, Repr

def FunctionDecl.isAsync (function : FunctionDecl) : Bool := function.modifiers.isAsync

/-- A label, and the function that the labelled statement belongs to. -/
structure LabelDecl where
  isLoop : Bool
  function : Option SymbolId := none
  deriving DecidableEq, Repr

/-- Where a captured field takes its value from when a closure is made: the variable as declared, and the symbol that
is read there, which is the variable itself or a field of the closure around. -/
structure CaptureSource where
  origin : SymbolId
  source : SymbolId
  deriving DecidableEq, Repr

/-- A field of a struct. -/
structure FieldDecl where
  ty : Ty
  owner : SymbolId
  index : Nat
  captured : Option CaptureSource := none
  default : Option NodeId := none
  deriving DecidableEq, Repr

/-- What a symbol stands for. -/
inductive Decl where
  | builtin (builtin : Builtin)
  | module (module : ModuleDecl)
  | template (template : TemplateDecl)
  | overloadSet (templates : List SymbolId)
  | struct (struct : StructDecl)
  | union (struct : StructDecl)
  | array (array : ArrayDecl)
  | enum (enum : EnumDecl)
  | function (function : FunctionDecl)
  | label (label : LabelDecl)
  | typeAlias (tag : AliasTag) (ty : Ty)
  | constAlias (tag : AliasTag) (value : NodeId)
  | valueAlias (tag : AliasTag) (target : SymbolId)
  | parameter (ty : Ty) (index : Nat)
  | localVar (ty : Ty)
  | globalVar (ty : Ty)
  | field (field : FieldDecl)

namespace Decl

instance : Inhabited Decl := ⟨.builtin .void⟩

/-- The name of the kind of declaration. -/
def kindName : Decl → String
  | .builtin _ => "builtin"
  | .module _ => "module"
  | .template _ => "template"
  | .overloadSet _ => "overload set"
  | .struct _ => "struct"
  | .union _ => "union"
  | .array _ => "array"
  | .enum _ => "enum"
  | .function _ => "function"
  | .label _ => "label"
  | .typeAlias .. => "type alias"
  | .constAlias .. => "constant"
  | .valueAlias .. => "alias"
  | .parameter .. => "parameter"
  | .localVar _ => "local"
  | .globalVar _ => "global"
  | .field _ => "field"

def isAlias : Decl → Bool
  | .typeAlias .. | .constAlias .. | .valueAlias .. => true
  | _ => false

/-- Whether the symbol itself is a type. -/
def isType : Decl → Bool
  | .builtin _ | .struct _ | .union _ | .array _ | .enum _ => true
  | _ => false

/-- The type of what is stored under the symbol. -/
def valueType? : Decl → Option Ty
  | .parameter ty _ | .localVar ty | .globalVar ty => some ty
  | .field own => some own.ty
  | _ => none

end Decl

/-- A declared name: the scope that it is declared in, the scope that it opens, and its declaration. -/
structure Symbol where
  name : String
  scope : ScopeId
  ownScope : Option ScopeId := none
  pos : Span
  decl : Decl

instance : Inhabited Symbol := ⟨{ name := "", scope := ⟨0⟩, pos := .synthetic, decl := default }⟩

end Bindery
