import Bindery.Binding.Monad
import Bindery.Program.Lookup
/-!
# Declaring names

A scope names a symbol once. A second declaration of the name is reported with the place of the first, and adds nothing.
Where a variable is kept depends on its place: modules and `static` variables are global, the variables of a generator
are fields of its state, and all others are local.
-/
namespace Bindery

namespace Program

/-- The module around a scope. -/
def enclosingModule? (p : Program) (scope : ScopeId) : Option SymbolId :=
  ((p.ancestors scope).find? fun id => (p.scope id).kind == .module).bind fun id => (p.scope id).owner

/-- The struct that a scope holds the members of. -/
def owningStruct? (p : Program) (scope : ScopeId) : Option SymbolId :=
  if (p.scope scope).kind = .struct then (p.scope scope).owner else none

/-- The state of the generator that a function steps. -/
def generatorState? (p : Program) (function : SymbolId) : Option SymbolId := do
  let own ← p.function? function
  if own.role = .generatorStep then own.owner else none

/-- The fields of a struct. -/
def fieldsOf (p : Program) (owner : SymbolId) : List SymbolId := ((p.struct? owner).map (·.fields)).getD []

/-- Puts a field behind the fields that a struct has. -/
def appendField (p : Program) (owner field : SymbolId) : Program :=
  p.modifyStruct owner fun own => { own with fields := own.fields ++ [field] }

end Program

/-- A parameter that takes a value: its name, place and type. -/
structure ValueParam where
  name : String
  pos : Span
  ty : Ty
  deriving DecidableEq, Repr

namespace BindM

def reportDuplicate (name : String) (pos : Span) (existing : SymbolId) : BindM Unit := do
  let previous ← ask fun p => (p.symbol existing).pos
  report ((Diagnostic.of pos .duplicateName [name]).withRelated (.of previous .previousDeclaration [name]))

/-- Declares a symbol in a scope, or reports that its name is taken. -/
def declareBy (place : Program → ScopeId → Symbol → Except SymbolId (SymbolId × Program)) (scope : ScopeId)
    (symbol : Symbol) : BindM SymbolId := do
  match place (← get).program scope symbol with
  | .ok (id, program) =>
    modifyProgram fun _ => program
    return id
  | .error existing =>
    reportDuplicate symbol.name symbol.pos existing
    failure

def declare (scope : ScopeId) (symbol : Symbol) : BindM SymbolId := declareBy Program.declare scope symbol

/-- Declares a name that the scope imports. -/
def declareImported (scope : ScopeId) (symbol : Symbol) : BindM SymbolId :=
  declareBy Program.declareOther scope symbol

/-- Declares a field of a struct. -/
def declareField (owner : SymbolId) (scope : ScopeId) (name : String) (pos : Span) (ty : Ty)
    (default : Option NodeId) : BindM SymbolId := do
  let index := (← ask (·.fieldsOf owner)).length
  let field ← declare scope { name, scope, pos, decl := .field { ty, owner, index, default } }
  modifyProgram (·.appendField owner field)
  return field

/-- Adds a field that no name leads to. -/
def addHiddenField (owner : SymbolId) (name : String) (pos : Span) (ty : Ty) (captured : Option CaptureSource) :
    BindM SymbolId := do
  let index := (← ask (·.fieldsOf owner)).length
  let scope ← ask fun p => (p.symbol owner).ownScope.getD .root
  let field ← addSymbol { name, scope, pos, decl := .field { ty, owner, index, captured } }
  modifyProgram (·.appendField owner field)
  return field

/-- The state of the generator whose body is being bound. -/
def generatorState? : BindM (Option SymbolId) := do
  match (← read).function with
  | some function => ask (·.generatorState? function)
  | none => return none

/-- Declares the storage of a variable. -/
def declareVariable (name : String) (ty : Ty) (pos : Span) (modifiers : Modifiers) : BindM SymbolId := do
  let scope ← currentScope
  if modifiers.isStatic || (← ask fun p => (p.scope scope).kind) == .module then
    declare scope { name, scope, pos, decl := .globalVar ty }
  else
    match ← generatorState? with
    | some state => declareField state scope name pos ty none
    | none => declare scope { name, scope, pos, decl := .localVar ty }

/-- Declares the label of a block or a loop. A loop without a label gets a made-up one, so that jumps have a target. -/
def declareLabel (name : Option String) (isLoop : Bool) (pos : Span) : BindM SymbolId := do
  let name ← match name with
    | some name => pure name
    | none => freshName "loop"
  let context ← read
  declare context.scope
    { name, scope := context.scope, pos, decl := .label { isLoop, function := context.function } }

/-- Declares parameters behind those that a function has already. A parameter whose name is taken is left out. -/
def declareValueParams (scope : ScopeId) : List SymbolId → List ValueParam → BindM (List SymbolId)
  | declared, [] => return declared
  | declared, param :: rest => do
    let symbol := { name := param.name, scope, pos := param.pos, decl := .parameter param.ty declared.length }
    match ← attempt (declare scope symbol) with
    | some id => declareValueParams scope (declared ++ [id]) rest
    | none => declareValueParams scope declared rest

/-- Declares the receiver of a function, if it has one, and its parameters. -/
def declareParameters (function : SymbolId) (scope : ScopeId) (receiver : Option Ty) (params : List ValueParam) :
    BindM Unit := do
  let this ← match receiver with
    | some ty => do
      let pos ← ask fun p => (p.symbol function).pos
      attempt (declare scope { name := "this", scope, pos, decl := .parameter ty 0 })
    | none => pure none
  let params ← declareValueParams scope this.toList params
  modifyProgram (·.modifyFunction function fun own => { own with params, receiver := this })

def setReturnType (function : SymbolId) (ty : Ty) : BindM Unit :=
  modifyProgram (·.modifyFunction function fun own => { own with ret := some ty })

end BindM

end Bindery
