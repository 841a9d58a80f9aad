import Bindery.Program.Basic
/-!
# Builtin types

The types that every program starts with are its first symbols, in a fixed order, declared in a scope that surrounds all
others. The types of values are therefore known without looking at a program.
-/
namespace Bindery

/-- The builtin types and their names, in the order of their symbols. -/
def Builtin.all : List (String × Builtin) :=
  [("Void", .void), ("Null", .null), ("Bool", .scalar .bool),
    ("Int8", .scalar (.int 8 true)), ("Int16", .scalar (.int 16 true)),
    ("Int32", .scalar (.int 32 true)), ("Int64", .scalar (.int 64 true)),
    ("UInt8", .scalar (.int 8 false)), ("UInt16", .scalar (.int 16 false)),
    ("UInt32", .scalar (.int 32 false)), ("UInt64", .scalar (.int 64 false)),
    ("Float", .scalar (.float 32)), ("Double", .scalar (.float 64)),
    ("Float4", .packed (.float 32) 4), ("Double2", .packed (.float 64) 2),
    ("Int4", .packed (.int 32 true) 4), ("Byte16", .packed (.int 8 false) 16)]

namespace Ty

def void : Ty := .direct ⟨0⟩

/-- The type of the null literal. -/
def null : Ty := .direct ⟨1⟩

def bool : Ty := .direct ⟨2⟩

/-- The integer type of a width and a signedness; unsigned and of 64 bits when there is no such type. -/
def int : Nat → Bool → Ty
  | 8, true => .direct ⟨3⟩
  | 16, true => .direct ⟨4⟩
  | 32, true => .direct ⟨5⟩
  | 64, true => .direct ⟨6⟩
  | 8, false => .direct ⟨7⟩
  | 16, false => .direct ⟨8⟩
  | 32, false => .direct ⟨9⟩
  | _, _ => .direct ⟨10⟩

def int32 : Ty := int 32 true

/-- The floating-point type that holds a number of bits. -/
def float (bits : Nat) : Ty := if bits ≤ 32 then .direct ⟨11⟩ else .direct ⟨12⟩

def double : Ty := float 64

/-- The pointer that every other pointer converts to. -/
def voidPtr : Ty := .pointer .void

def ofScalar : Scalar → Ty
  | .bool => .bool
  | .int bits signed => .int bits signed
  | .float bits => .float bits

end Ty

namespace ScopeId

/-- The scope of the builtin types. -/
def builtin : ScopeId := ⟨0⟩

/-- The scope of the top-level modules. -/
def root : ScopeId := ⟨1⟩

end ScopeId

namespace Program

/-- The symbols of the builtin types. -/
def builtinSymbols : List Symbol :=
  Builtin.all.map fun (name, own) => { name, scope := .builtin, pos := .synthetic, decl := .builtin own }

/-- The builtin scope and the root scope. -/
def builtinScopes : List Scope :=
  [{ kind := .builtin, parent := none, owner := none,
     symbols := Builtin.all.mapIdx fun i (name, _) => (name, ⟨i⟩) },
    { kind := .root, parent := some .builtin, owner := none }]

/-- The program without modules. -/
def initial (pointerWidth : Nat) : Program :=
  { symbols := builtinSymbols.toArray, scopes := builtinScopes.toArray, pointerWidth }

end Program

/-- The types that a table starts with: the unknown one, the builtin ones, and the pointer to `Void`. -/
def TypeTable.initial : TypeTable :=
  ⟨.unknown :: (Builtin.all.mapIdx fun i _ => .direct ⟨i⟩) ++ [.voidPtr]⟩

end Bindery
