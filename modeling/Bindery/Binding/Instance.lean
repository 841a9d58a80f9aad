import Bindery.Binding.Parameters
import Bindery.Binding.Reference
/-!
# Instances of templates

A template has one instance per fingerprint. An instance is registered before its body is bound, so that a body that
uses its own template finds it. Calling a generator makes a value of its state: a struct that holds the parameters and
variables of the body, the element yielded last, and the method that runs the body up to the next `yield`.
-/
namespace Bindery

namespace Program

/-- The instance of a template with a fingerprint. -/
def knownInstance? (p : Program) (template : SymbolId) (fingerprint : Fingerprint) : Option SymbolId :=
  p.memo.lookup (template, fingerprint)

/-- Records an instance of a template. -/
def registerInstance (p : Program) (template : SymbolId) (fingerprint : Fingerprint) (made : SymbolId) : Program :=
  ({ p with memo := ((template, fingerprint), made) :: p.memo }).modifyTemplate template fun own =>
    { own with instances := own.instances ++ [made] }

end Program

/-- The declaration that a struct template instantiates to. -/
def StructForm.decl (form : StructForm) (template : SymbolId) : Decl :=
  match form with
  | .struct => .struct { kind := .ordinary, template }
  | .tuple => .struct { kind := .tuple, template }
  | .union => .union { kind := .ordinary, template }

namespace BindM

/-- Adds the symbol of an instance, which owns the scope of its parameters. -/
def addInstance (template : SymbolId) (bound : BoundParams) (scope : ScopeId) (pos : Span) (decl : Decl) :
    BindM SymbolId := do
  let made ← addSymbol { name := ← symbolName template, scope, ownScope := bound.scope, pos, decl }
  setOwner bound.scope made
  return made

/-- Records an instance, so that the next use with the same fingerprint finds it. -/
def recordInstance (template : SymbolId) (bound : BoundParams) (made : SymbolId) : BindM Unit :=
  modifyProgram (·.registerInstance template bound.fingerprint made)

/-- Binds the body of a function in its own scope. The return type is the declared one, or that of the first `return`;
a function without either returns nothing, unless its body has errors. -/
def bindFunctionBody (room : Room) (function : SymbolId) (source : FunctionDef) (scope : ScopeId)
    (modifiers : Modifiers) : BindM Unit := do
  let before ← errorCount
  let body ← attempt <| room.inContext scope (some function) modifiers source.pos fun level => do
    if let some tree := source.returnType then
      setReturnType function ((← attempt (level.type tree)).getD .unknown)
    match source.body with
    | some body => level.body body
    | none =>
      error source.pos .bodyRequired [← symbolName function]
      return []
  let fallback := if before < (← errorCount) then .unknown else .void
  modifyProgram (·.modifyFunction function fun own =>
    { own with body := body.getD [], ret := own.ret <|> some fallback })

/-- The instance of a function template for bound parameters. -/
def functionInstance (room : Room) (template : SymbolId) (bound : BoundParams) : BindM SymbolId := do
  match ← ask (·.knownInstance? template bound.fingerprint) with
  | some made => return made
  | none =>
    let some own ← ask (·.template? template) | failure
    let .function source := own.source | failure
    let made ← addInstance template bound own.scope source.pos
      (.function { role := own.role, template, owner := own.owner, modifiers := own.modifiers })
    let receiver := if own.arity.receiver then own.owner.map fun owner => Ty.pointer (.direct owner) else none
    declareParameters made bound.scope receiver bound.values
    recordInstance template bound made
    bindFunctionBody room made source bound.scope own.modifiers
    return made

/-- The instance of a function template that a call uses, and the arguments that are passed to it; the receiver is not
among them. -/
def instantiateFunction (room : Room) (template : SymbolId) (args : List CallArg) (pos : Span) :
    BindM (SymbolId × List NodeId) := do
  let bound ← bindParams room template args pos .function
  return (← functionInstance room template bound, bound.args)

/-- The instance of a struct template that a use of it denotes. -/
def instantiateStruct (room : Room) (template : SymbolId) (args : List CallArg) (pos : Span) : BindM SymbolId := do
  let bound ← bindParams room template args pos .struct
  match ← ask (·.knownInstance? template bound.fingerprint) with
  | some made => return made
  | none =>
    let some own ← ask (·.template? template) | failure
    let .struct source := own.source | failure
    let made ← addInstance template bound own.scope source.pos (source.form.decl template)
    recordInstance template bound made
    discard <| attempt <| room.inContext bound.scope none own.modifiers source.pos fun level =>
      level.members made source.body
    return made

/-! ## Methods that run the body of a function -/

/-- Declares the method of a struct that steps a generator or calls a lambda, with the scope of its body. -/
def declareMethod (name : String) (role : Role) (template : Option SymbolId) (owner : SymbolId) (scope : ScopeId)
    (pos : Span) (modifiers : Modifiers) : BindM (SymbolId × ScopeId) := do
  let own ← addScope .function scope
  let method ← declare scope
    { name, scope, ownScope := own, pos, decl := .function { role, template, owner, modifiers } }
  setOwner own method
  modifyProgram (·.modifyStruct owner ({ · with method := some method }))
  return (method, own)

/-- Binds the body of such a method, whose receiver points to the struct. -/
def bindMethod (room : Room) (owner method : SymbolId) (scope : ScopeId) (params : List ValueParam)
    (source : FunctionDef) (modifiers : Modifiers) : BindM Unit := do
  declareParameters method scope (some (.pointer (.direct owner))) params
  bindFunctionBody room method source scope modifiers

/-! ## Generators -/

/-- The type of what a generator yields. The first type that comes up is it, and the state gets a field for it. -/
def fixElement (state : SymbolId) (ty : Ty) (pos : Span) : BindM Ty := do
  match (← ask (·.struct? state)).bind (·.element) with
  | some element => return element
  | none =>
    let field ← addHiddenField state "value" pos ty none
    modifyProgram (·.modifyStruct state fun own => { own with element := some ty, elementField := some field })
    return ty

/-- Fixes the element of a generator that declares what it yields. -/
def bindElement (room : Room) (state step : SymbolId) (scope : ScopeId) (source : FunctionDef) (modifiers : Modifiers) :
    BindM Unit := do
  if let some tree := source.returnType then
    let element ← attempt <| room.inContext scope (some step) modifiers source.pos fun level => level.type tree
    if let some element := element then
      discard (fixElement state element source.pos)

/-- Makes the state of a generator and binds the body as the method `next`, which tells whether there is an element. -/
def instantiateGenerator (room : Room) (template : SymbolId) (bound : BoundParams) : BindM SymbolId := do
  let some own ← ask (·.template? template) | failure
  let .function source := own.source | failure
  let state ← addInstance template bound own.scope source.pos (.struct { kind := .resumable, template })
  recordInstance template bound state
  bound.values.forM fun param =>
    discard (attempt (declareField state bound.scope param.name param.pos param.ty none))
  let (step, scope) ← declareMethod "next" .generatorStep template state bound.scope source.pos own.modifiers
  bindElement room state step scope source own.modifiers
  bindMethod room state step scope [] source own.modifiers
  setReturnType step .bool
  return state

/-- The state of a generator for bound parameters. -/
def generatorInstance (room : Room) (template : SymbolId) (bound : BoundParams) : BindM SymbolId := do
  match ← ask (·.knownInstance? template bound.fingerprint) with
  | some state => return state
  | none => instantiateGenerator room template bound

/-- Calls a generator: a value of its state, made of the arguments and the captured variables. -/
def callGenerator (room : Room) (template : SymbolId) (args : List CallArg) (pos : Span) : BindM NodeId := do
  let bound ← bindParams room template args pos .struct
  let state ← generatorInstance room template bound
  let some own ← ask (·.struct? state) | failure
  let params := own.fields.zip bound.args
  addNode pos (.direct state) (.initializer (params ++ (← capturedValues state pos)))

end BindM

end Bindery
