import Bindery.Binding.Aggregate
import Bindery.Binding.Level
import Bindery.Program.Lookup
/-!
# Parameters

The arguments of a call are first given to the parameters of a template: the ones without a name in order, then the
named ones. Then each parameter is bound to what it was given. What the parameters stand for is the fingerprint of the
instance: types and constants are declared in the scope of the instance, and the rest is passed when it runs.
-/
namespace Bindery

/-- Why arguments do not fit parameters. -/
inductive ArgumentFault where
  | count
  | unknownName (pos : Span) (name : String)
  | givenTwice (pos : Span) (name : String)
  deriving DecidableEq, Repr

namespace Param

/-- Gives arguments to parameters in order. A parameter that takes all that is left stands last. -/
def fill : List Param → List CallArg → Except ArgumentFault (List (List CallArg))
  | [], [] => .ok []
  | [], _ :: _ => .error .count
  | [param], args =>
    if param.vararg then .ok [args]
    else
      match args with
      | [] => .ok [[]]
      | [arg] => .ok [[arg]]
      | _ => .error .count
  | _ :: params, [] => (fill params []).map ([] :: ·)
  | _ :: params, arg :: args => (fill params args).map ([arg] :: ·)

/-- Gives a named argument to the first parameter of its name. -/
def give (pos : Span) (name : String) (arg : CallArg) :
    List Param → List (List CallArg) → Except ArgumentFault (List (List CallArg))
  | param :: params, slot :: slots =>
    if param.name = name && !param.vararg then
      if slot.isEmpty then .ok ([arg] :: slots) else .error (.givenTwice pos name)
    else (give pos name arg params slots).map (slot :: ·)
  | _, _ => .error (.unknownName pos name)

/-- Gives the named ones among arguments to their parameters. -/
def giveNamed (params : List Param) : List CallArg → List (List CallArg) → Except ArgumentFault (List (List CallArg))
  | [], slots => .ok slots
  | arg :: args, slots =>
    match arg.name with
    | some name => do giveNamed params args (← give arg.pos name arg params slots)
    | none => giveNamed params args slots

/-- Whether a parameter can do without an argument. -/
def isOptional (param : Param) : Bool := param.vararg || param.default.isSome

/-- What each parameter is given. Only a `vararg` takes several arguments. -/
def assign (params : List Param) (args : List CallArg) : Except ArgumentFault (List (List CallArg)) := do
  let slots ← fill params (args.filter (·.name.isNone))
  let slots ← giveNamed params args slots
  if (params.zip slots).all fun (param, slot) => !slot.isEmpty || param.isOptional then return slots
  else throw .count

end Param

/-- What a parameter was bound to: its share of the fingerprint, and the parameter and the argument that an instance
passes when it runs, if there are any. -/
structure BoundParam where
  entry : FingerprintEntry
  value : Option (ValueParam × NodeId) := none

/-- The parameters of an instance, bound in a scope that becomes the scope of the instance if it is a new one. -/
structure BoundParams where
  scope : ScopeId
  params : List BoundParam

namespace BoundParams

def fingerprint (bound : BoundParams) : Fingerprint := bound.params.map (·.entry)

/-- The parameters that an instance declares. -/
def values (bound : BoundParams) : List ValueParam := bound.params.filterMap fun param => param.value.map (·.1)

/-- The arguments that are passed to an instance. -/
def args (bound : BoundParams) : List NodeId := bound.params.filterMap fun param => param.value.map (·.2)

end BoundParams

namespace BindM

def reportArguments {α : Type} (name : String) (count : Nat) (pos : Span) (fault : ArgumentFault) : BindM α :=
  match fault with
  | .count => fail pos .argumentCount [name, toString count]
  | .unknownName pos param => fail pos .noParameterNamed [param, name]
  | .givenTwice pos param => fail pos .argumentTwice [param]

/-- A parameter that takes all arguments left, as a tuple. -/
def bindVararg (param : Param) (args : List CallArg) : BindM BoundParam := do
  let values ← args.mapM (·.requireValue)
  let tuple ← packTuple param.pos values
  let ty ← nodeType tuple
  return { entry := .value ty, value := some (⟨param.name, param.pos, ty⟩, tuple) }

/-- A parameter that stands for a constant. -/
def bindConstant (scope : ScopeId) (param : Param) (arg : CallArg) (declared : Option Ty) : BindM BoundParam := do
  let node ← arg.requireValue
  let node ← match declared with
    | some ty => coerce node ty
    | none => readThrough node
  let some value ← ask (·.constValue? node) | fail arg.pos .constParameter [param.name]
  let node ← markConstant node
  discard (declare scope { name := param.name, scope, pos := param.pos, decl := .constAlias .define node })
  return { entry := .const (← nodeType node) value }

/-- A parameter that takes a value whose type it does not declare. -/
def bindInferred (param : Param) (arg : CallArg) (node : NodeId) : BindM BoundParam := do
  let node ← readThrough node
  if (← nodeType node) = .null then fail arg.pos .missingTypeOrInitializer [param.name]
  let ty ← ask (·.inferredType node)
  return { entry := .value ty, value := some (⟨param.name, param.pos, ty⟩, ← coerce node ty) }

/-- Binds a parameter that takes one argument. The parameters of a struct take types and constants only. -/
def bindSingle (level : Level) (scope : ScopeId) (isStruct : Bool) (param : Param) (slot : List CallArg) :
    BindM BoundParam := do
  let arg ← match slot, param.default with
    | arg :: _, _ => pure arg
    | [], some tree => do pure { pos := tree.pos, name := none, value := ← level.argument tree }
    | [], none => failure
  let declared ← param.type.mapM level.type
  match arg.value, declared with
  | .value node, declared =>
    if param.const || isStruct then bindConstant scope param arg declared
    else
      match declared with
      | some ty => return { entry := .declared, value := some (⟨param.name, param.pos, ty⟩, ← coerce node ty) }
      | none => bindInferred param arg node
  | .type ty, none =>
    if param.const then bindConstant scope param arg none
    else
      discard (declare scope { name := param.name, scope, pos := param.pos, decl := .typeAlias .define ty })
      return { entry := .type ty }
  | .type _, some _ => do
    discard arg.requireValue
    failure

def bindParam (level : Level) (scope : ScopeId) (isStruct : Bool) (param : Param) (slot : List CallArg) :
    BindM BoundParam :=
  if param.vararg then bindVararg param slot else bindSingle level scope isStruct param slot

/-- Gives the arguments of a call to the parameters of a template, and binds them in a new scope. All of them are tried
before the call fails. -/
def bindParams (room : Room) (template : SymbolId) (args : List CallArg) (pos : Span) (kind : ScopeKind) :
    BindM BoundParams := do
  let some own ← ask (·.template? template) | failure
  let slots ← match Param.assign own.source.params args with
    | .ok slots => pure slots
    | .error fault => do reportArguments (← symbolName template) args.length pos fault
  let scope ← addScope kind own.scope
  let function ← ask (·.enclosingFunction? own.scope)
  room.inContext scope function .none pos fun level => do
    let bound ← (own.source.params.zip slots).mapM fun (param, slot) =>
      attempt (bindParam level scope own.source.isStruct param slot)
    match bound.mapM id with
    | some params => return { scope, params }
    | none => failure

end BindM

end Bindery
