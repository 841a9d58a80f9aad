import Bindery.Program.Builtin
/-!
# What a type is

Questions about types that the declarations of a program answer.
-/
namespace Bindery.Program

/-- The declaration of the symbol that a type without indirections is. -/
def typeDecl? (p : Program) (ty : Ty) : Option Decl := ty.symbol?.map p.decl

def builtin? (p : Program) (ty : Ty) : Option Builtin :=
  match p.typeDecl? ty with
  | some (.builtin own) => some own
  | _ => none

def scalar? (p : Program) (ty : Ty) : Option Scalar :=
  match p.builtin? ty with
  | some (.scalar own) => some own
  | _ => none

def isVoid (ty : Ty) : Bool := ty == .void

def isIntegral (p : Program) (ty : Ty) : Bool :=
  match p.scalar? ty with
  | some (.int ..) => true
  | _ => false

def isNumeric (p : Program) (ty : Ty) : Bool :=
  match p.scalar? ty with
  | some (.int ..) | some (.float _) => true
  | _ => false

def isEnum (p : Program) (ty : Ty) : Bool :=
  match p.typeDecl? ty with
  | some (.enum _) => true
  | _ => false

def isFunction (p : Program) (ty : Ty) : Bool :=
  match p.typeDecl? ty with
  | some (.function _) => true
  | _ => false

/-- Structs, unions and arrays. -/
def isAggregate (p : Program) (ty : Ty) : Bool :=
  match p.typeDecl? ty with
  | some (.struct _) | some (.union _) | some (.array _) => true
  | _ => false

def structKind? (p : Program) (ty : Ty) : Option StructKind :=
  match p.typeDecl? ty with
  | some (.struct own) => some own.kind
  | _ => none

/-- The struct, union or enum whose members a value gives access to, through at most one indirection. -/
def memberStruct? (p : Program) (ty : Ty) : Option SymbolId := do
  let symbol ← (ty.pointee?.getD ty).symbol?
  match p.decl symbol with
  | .struct _ | .union _ | .enum _ => some symbol
  | _ => none

/-- The integer type as wide as a pointer. -/
def pointerInt (p : Program) (signed : Bool) : Ty := .int p.pointerWidth signed

/-- The name of a symbol as a type; what is nested deeper than a number of symbols is left out. -/
def symbolTypeName (p : Program) : Nat → SymbolId → String
  | 0, _ => ""
  | n + 1, symbol =>
    let name (ty : Ty) : String :=
      (match ty.base? with
        | some base => symbolTypeName p n base
        | none => "<unknown>") ++ ty.marks
    match p.decl symbol with
    | .array own => s!"{name own.element}[{own.length}]"
    | .struct own =>
      if own.kind = .tuple then
        let fields := own.fields.filterMap fun field => (p.decl field).valueType?.map name
        "(" ++ String.intercalate ", " fields ++ ")"
      else (p.symbol symbol).name
    | _ => (p.symbol symbol).name

/-- The name of a type, as diagnostics show it. A type that does not contain itself goes through each symbol at most
once. -/
def typeName (p : Program) (ty : Ty) : String :=
  (match ty.base? with
    | some base => p.symbolTypeName (p.symbols.size + 1) base
    | none => "<unknown>") ++ ty.marks

end Bindery.Program
