import Bindery.Binding.Operand
/-!
# Calls

A call by name chooses a template and instantiates it; a call of a concrete function or of a value takes exactly as many
arguments as there are parameters. The value before the dot is the receiver of a method, and the first argument of
everything else.
-/
namespace Bindery.BindM

/-- The receiver that a method of a struct is called on: the address of the object. -/
def receiverPointer (value : NodeId) (owner : SymbolId) : BindM NodeId := do
  let value ← readThrough value
  if (← nodeType value) = .direct owner then
    addNode (← nodePos value) (.pointer (.direct owner)) (.addressOf value)
  else coerce value (.pointer (.direct owner))

/-- The receiver of a method that another method of the struct calls by its bare name. -/
def implicitReceiver (owner : SymbolId) (pos : Span) : BindM NodeId := do
  let scope ← currentScope
  match ← ask (·.receiver? scope owner) with
  | some this => reference this pos
  | none => fail pos .nameIsNotAValue [← symbolName owner]

/-- Splits what a call passes into the receiver and the other arguments. `method` is the struct of a method that takes a
receiver. -/
def splitReceiver (method : Option SymbolId) (receiver : Option NodeId) (args : List CallArg) (pos : Span) :
    BindM (Option NodeId × List CallArg) := do
  match method, receiver with
  | some owner, some value => return (some (← receiverPointer value owner), args)
  | some owner, none => return (some (← implicitReceiver owner pos), args)
  | none, some value => return (none, { pos := ← nodePos value, name := none, value := .value value } :: args)
  | none, none => return (none, args)

/-- The call of a function, whose return type has to be known. -/
def callNode (function : SymbolId) (args : List NodeId) (pos : Span) : BindM NodeId := do
  let some own ← ask (·.function? function) | failure
  let some ret := own.ret | fail pos .usedBeforeInferred [← symbolName function]
  if ret.isUnknown then failure
  addNode pos ret (.call function args)

/-- Converts arguments to the types of parameters. -/
def passArguments (params : List SymbolId) (args : List CallArg) : BindM (List NodeId) :=
  (params.zip args).mapM fun (param, arg) => do
    let some ty ← ask fun p => (p.decl param).valueType? | failure
    coerce (← arg.requireValue) ty

/-- Calls a concrete function. -/
def callFunction (function : SymbolId) (receiver : Option NodeId) (args : List CallArg) (pos : Span) :
    BindM NodeId := do
  let some own ← ask (·.function? function) | failure
  let method := if own.receiver.isSome then own.owner else none
  let (this, args) ← splitReceiver method receiver args pos
  let name ← symbolName function
  if let some named := args.findSome? (·.name) then fail pos .noParameterNamed [named, name]
  let params := own.params.drop this.toList.length
  if params.length ≠ args.length then fail pos .argumentCount [name, toString args.length]
  let values ← passArguments params args
  callNode function (this.toList ++ values) pos

/-- Calls a function, a template or an overload set by name. A struct with arguments is a type. -/
def callSymbol (room : Room) (symbol : SymbolId) (receiver : Option NodeId) (args : List CallArg) (pos : Span) :
    BindM Operand := do
  if let some _ ← ask (·.function? symbol) then
    return .value (← callFunction symbol receiver args pos)
  let template ← selectTemplate symbol args.length receiver.isSome pos
  let some own ← ask (·.template? template) | failure
  if own.source.isStruct then
    return .type (.direct (← instantiateStruct room template args pos))
  let method := if own.arity.receiver then own.owner else none
  let (this, args) ← splitReceiver method receiver args pos
  if own.functionKind = .generator then
    if this.isSome then fail pos .unimplemented ["A generator method"]
    return .value (← callGenerator room template args pos)
  let (function, values) ← instantiateFunction room template args pos
  return .value (← callNode function (this.toList ++ values) pos)

/-- Calls a function that a value is or points to. -/
def callIndirect (callee : NodeId) (function : SymbolId) (args : List CallArg) (pos : Span) : BindM NodeId := do
  let some own ← ask (·.function? function) | failure
  let some ret := own.ret | fail pos .usedBeforeInferred [← symbolName function]
  if ret.isUnknown then failure
  if own.params.length ≠ args.length || args.any (·.name.isSome) then
    fail pos .argumentCount [← symbolName function, toString args.length]
  let values ← passArguments own.params args
  addNode pos ret (.callIndirect callee values)

/-- Calls a value: a lambda, a function or a pointer to a function. -/
def callValue (callee : NodeId) (args : List CallArg) (pos : Span) : BindM NodeId := do
  let callee ← readThrough callee
  let ty ← nodeType callee
  if (← ask (·.structKind? ty)) = some .lambda then
    let some method ← ask fun p => do (← p.struct? (← ty.symbol?)).method | failure
    callFunction method (some callee) args pos
  else
    let target := ty.pointee?.getD ty
    match target.symbol?, ← ask (·.isFunction target) with
    | some function, true => callIndirect callee function args pos
    | _, _ => fail pos .notCallable [← typeName ty]

/-- Binds the callee and all arguments of a call, and calls what the callee denotes. -/
def callOperand (room : Room) (pos : Span) (callee : Part) (args : List ArgPart) : BindM Operand := do
  let callee ← callee.operand
  let args ← bindArguments room args
  match callee with
  | .callable symbol receiver => callSymbol room symbol receiver args pos
  | .type ty =>
    if args.isEmpty then return .type ty
    else fail pos .unimplemented ["Calling a type with arguments"]
  | .module symbol => fail pos .moduleIsNotAValue [← symbolName symbol]
  | .value node => return .value (← callValue node args pos)

end Bindery.BindM
