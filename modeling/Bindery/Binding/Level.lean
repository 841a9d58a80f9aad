import Bindery.Binding.Convert
/-!
# Levels of nesting

Binding goes down into scopes: bodies, instances, modules. Each scope that is entered is one level deeper, and the depth
is limited. A rule at one level takes the rules of the next level as a value, so that nothing refers to itself: a
program that would nest without end runs into the limit, which is an error like any other.
-/
namespace Bindery

/-- What an expression denotes. A callable is a function, a template or an overload set that has not been called yet,
with the value that was written before the dot. -/
inductive Operand where
  | value (node : NodeId)
  | type (ty : Ty)
  | module (symbol : SymbolId)
  | callable (symbol : SymbolId) (receiver : Option NodeId)
  deriving DecidableEq, Repr

/-- What an argument denotes. -/
inductive ArgValue where
  | value (node : NodeId)
  | type (ty : Ty)
  deriving DecidableEq, Repr

/-- An argument of a call. -/
structure CallArg where
  pos : Span
  name : Option String
  value : ArgValue
  deriving DecidableEq, Repr

/-- The rules of a level: what can be bound in a scope once it is entered. -/
structure Level where
  /-- An expression or a statement. -/
  expression : Syntax → BindM NodeId
  type : Syntax → BindM Ty
  argument : Syntax → BindM ArgValue
  /-- The body of a branch or a loop. -/
  branch : Syntax → BindM NodeId
  /-- The statements of a scope. -/
  body : List Syntax → BindM (List NodeId)
  /-- The members of a struct. -/
  members : SymbolId → List Syntax → BindM Unit

/-- What a level knows of the levels below: the next one, unless the limit is reached. The entry name is that of the
functions that hold the statements of modules. -/
structure Room where
  limit : Nat
  entryName : String
  below : Unit → Option Level

namespace Room

open BindM

/-- Enters a scope with a context, and goes on with the rules of the next level. -/
def enter {α : Type} (room : Room) (context : Context) (pos : Span) (rule : Level → BindM α) : BindM α :=
  match room.below () with
  | some level => withReader (fun _ => context) (rule level)
  | none => fail pos .nestingTooDeep [toString room.limit]

/-- Enters a scope inside the same function. -/
def inScope {α : Type} (room : Room) (scope : ScopeId) (pos : Span) (rule : Level → BindM α) : BindM α := do
  let context ← read
  room.enter { context with scope } pos rule

/-- Enters a scope that takes nothing from the place where it is entered. -/
def inContext {α : Type} (room : Room) (scope : ScopeId) (function : Option SymbolId) (modifiers : Modifiers)
    (pos : Span) (rule : Level → BindM α) : BindM α :=
  room.enter { scope, function, modifiers := modifiers.inherited } pos rule

end Room

namespace BindM

/-- A node that has to have a value. -/
def requireValue (node : NodeId) (pos : Span) : BindM NodeId := do
  if Program.isVoid (← nodeType node) then fail pos .voidHasNoValue []
  return node

/-- A value as a condition. -/
def asCondition (node : NodeId) : BindM NodeId := do coerce (← readThrough node) .bool

end BindM

/-- The value of an argument. -/
def CallArg.requireValue (arg : CallArg) : BindM NodeId := do
  match arg.value with
  | .value node => return node
  | .type ty => BindM.fail arg.pos .expectedValue [← BindM.typeName ty]

namespace Level

/-- An expression that has to have a value. -/
def value (level : Level) (tree : Syntax) : BindM NodeId := do
  BindM.requireValue (← level.expression tree) tree.pos

def condition (level : Level) (tree : Syntax) : BindM NodeId := do BindM.asCondition (← level.value tree)

end Level

end Bindery
