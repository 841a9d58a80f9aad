/-!
# Operators and other tags of the language

Operators, literal suffixes and atomic operations, each with its spelling and the reader of that spelling.
-/
namespace Bindery

/-- Operators between two operands. -/
inductive BinaryOp where
  | add
  | sub
  | mul
  | div
  | rem
  | bitAnd
  | bitOr
  | bitXor
  | shl
  | shr
  | eq
  | ne
  | lt
  | le
  | gt
  | ge
  | and
  | or
  | coalesce
  deriving DecidableEq, Repr

/-- The rule that types a binary operator. -/
inductive OperatorFamily where
  | relational
  | logical
  | coalesce
  | bitwise
  | shift
  | additive
  | multiplicative
  deriving DecidableEq, Repr

namespace BinaryOp

def all : List BinaryOp :=
  [.add, .sub, .mul, .div, .rem, .bitAnd, .bitOr, .bitXor, .shl, .shr, .eq, .ne, .lt, .le, .gt, .ge, .and, .or,
    .coalesce]

/-- How the operator is written. -/
def symbol : BinaryOp → String
  | .add => "+"
  | .sub => "-"
  | .mul => "*"
  | .div => "/"
  | .rem => "%"
  | .bitAnd => "&"
  | .bitOr => "|"
  | .bitXor => "^"
  | .shl => "<<"
  | .shr => ">>"
  | .eq => "=="
  | .ne => "!="
  | .lt => "<"
  | .le => "<="
  | .gt => ">"
  | .ge => ">="
  | .and => "&&"
  | .or => "||"
  | .coalesce => "??"

def ofSymbol? (symbol : String) : Option BinaryOp := all.find? (·.symbol == symbol)

def family : BinaryOp → OperatorFamily
  | .add | .sub => .additive
  | .mul | .div | .rem => .multiplicative
  | .bitAnd | .bitOr | .bitXor => .bitwise
  | .shl | .shr => .shift
  | .eq | .ne | .lt | .le | .gt | .ge => .relational
  | .and | .or => .logical
  | .coalesce => .coalesce

/-- Whether the operator may be joined with an assignment. -/
def isCompound (op : BinaryOp) : Bool :=
  match op.family with
  | .additive | .multiplicative | .bitwise | .shift => true
  | _ => false

theorem mem_all (op : BinaryOp) : op ∈ all := by cases op <;> decide

theorem ofSymbol?_symbol (op : BinaryOp) : ofSymbol? op.symbol = some op := by cases op <;> decide

end BinaryOp

/-- Operators in front of one operand. -/
inductive UnaryOp where
  | neg
  | not
  | bitNot
  | addressOf
  | deref
  deriving DecidableEq, Repr

namespace UnaryOp

def all : List UnaryOp := [.neg, .not, .bitNot, .addressOf, .deref]

/-- How the operator is written. -/
def symbol : UnaryOp → String
  | .neg => "-"
  | .not => "!"
  | .bitNot => "~"
  | .addressOf => "&"
  | .deref => "*"

def ofSymbol? (symbol : String) : Option UnaryOp := all.find? (·.symbol == symbol)

theorem ofSymbol?_symbol (op : UnaryOp) : ofSymbol? op.symbol = some op := by cases op <;> decide

end UnaryOp

/-- The operator that a declaration defines. -/
inductive OperatorName where
  | binary (op : BinaryOp)
  | unary (op : UnaryOp)
  deriving DecidableEq, Repr

namespace OperatorName

def symbol : OperatorName → String
  | .binary op => op.symbol
  | .unary op => op.symbol

/-- The name that the definition of an operator is declared under. A symbol shared by a binary and a unary operator
gives one name. -/
def declaredName (operator : OperatorName) : String := "operator" ++ operator.symbol

/-- The operator with a symbol; a shared symbol is the binary operator. -/
def ofSymbol? (symbol : String) : Option OperatorName :=
  (BinaryOp.ofSymbol? symbol).map .binary <|> (UnaryOp.ofSymbol? symbol).map .unary

end OperatorName

/-- The suffix of an integer literal: a signed or unsigned type and its width. -/
structure IntSuffix where
  bits : Nat
  signed : Bool
  width : bits ∈ [8, 16, 32, 64] := by decide
  deriving DecidableEq, Repr

namespace IntSuffix

/-- The letter and the width of a suffix. -/
def spelling (suffix : IntSuffix) : String := (if suffix.signed then "i" else "u") ++ toString suffix.bits

def all : List IntSuffix :=
  [true, false].flatMap fun signed =>
    [{ bits := 8, signed }, { bits := 16, signed }, { bits := 32, signed }, { bits := 64, signed }]

def ofSpelling? (spelling : String) : Option IntSuffix := all.find? (·.spelling == spelling)

/-- The name of the type that the suffix selects. -/
def typeName (suffix : IntSuffix) : String := (if suffix.signed then "Int" else "UInt") ++ toString suffix.bits

end IntSuffix

/-- How a function behaves when called. -/
inductive FunctionKind where
  | plain
  | lambda
  | generator
  deriving DecidableEq, Repr

/-- What a declared aggregate is. -/
inductive StructForm where
  | struct
  | tuple
  | union
  deriving DecidableEq, Repr

/-- Whether a conversion is one that may happen without being written, or only when asked for. `to` asks for the
former, `as` for the latter. -/
inductive Intent where
  | implicit
  | explicit
  deriving DecidableEq, Repr

/-- Operations that read and change a place in one step. -/
inductive AtomicOp where
  | add
  | sub
  | and
  | or
  | xor
  | exchange
  deriving DecidableEq, Repr

namespace AtomicOp

def all : List AtomicOp := [.add, .sub, .and, .or, .xor, .exchange]

def spelling : AtomicOp → String
  | .add => "atomic_add"
  | .sub => "atomic_sub"
  | .and => "atomic_and"
  | .or => "atomic_or"
  | .xor => "atomic_xor"
  | .exchange => "atomic_exchange"

def ofSpelling? (spelling : String) : Option AtomicOp := all.find? (·.spelling == spelling)

def isBitwise : AtomicOp → Bool
  | .and | .or | .xor => true
  | _ => false

end AtomicOp

end Bindery
