import Bindery.Syntax.Tree
/-!
# Arity

What the length of an argument list must be for a parameter list to take it. Parameters without a default come first,
then those with one, then at most one that takes all arguments left.
-/
namespace Bindery

/-- The shape of a parameter list. A method has a receiver besides its explicit arguments. -/
structure Arity where
  required : Nat := 0
  default : Nat := 0
  vararg : Bool := false
  receiver : Bool := false
  deriving DecidableEq, Repr

/-- What is wrong with a parameter list. -/
inductive ParamFault where
  | varargNotLast
  | requiredAfterDefault
  deriving DecidableEq, Repr

def ParamFault.reason : ParamFault → String
  | .varargNotLast => "'...' must be the last parameter"
  | .requiredAfterDefault => "a required parameter follows one with a default"

namespace Arity

/-- The shape of the parameters read so far, followed by more parameters. -/
def extend (arity : Arity) : List Param → Except ParamFault Arity
  | [] => .ok arity
  | param :: rest =>
    if param.vararg then
      if rest.isEmpty then extend { arity with vararg := true } rest else .error .varargNotLast
    else if param.default.isSome then extend { arity with default := arity.default + 1 } rest
    else if 0 < arity.default then .error .requiredAfterDefault
    else extend { arity with required := arity.required + 1 } rest

/-- The shape of a parameter list. -/
def ofParams (params : List Param) (receiver : Bool) : Except ParamFault Arity := extend { receiver } params

/-- Whether a list of `count` explicit arguments fits. -/
def accepts (arity : Arity) (count : Nat) : Bool :=
  arity.required ≤ count && (arity.vararg || count ≤ arity.required + arity.default)

end Arity

end Bindery
