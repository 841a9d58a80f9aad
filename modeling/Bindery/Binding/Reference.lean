import Bindery.Binding.Declare
/-!
# References and captures

A name is read where it is used. A variable of a function around the current one has to be captured: every closure
between the use and the declaration gets a field for it. The outermost closure copies the variable, and each one inside
copies the field of the closure around it. Only lambdas and generators capture.
-/
namespace Bindery

namespace Program

/-- The functions between a place and a scope around it, innermost first. -/
def functionsUpTo (p : Program) (place owning : ScopeId) : List SymbolId :=
  ((p.ancestors place).takeWhile (· ≠ owning)).filterMap fun id =>
    if (p.scope id).kind = .function then (p.scope id).owner else none

/-- The functions that are crossed on the way to a variable. Only parameters and local variables are kept by a call. -/
def crossedFunctions (p : Program) (place : ScopeId) (symbol : SymbolId) : List SymbolId :=
  match p.decl symbol with
  | .parameter .. | .localVar _ => p.functionsUpTo place (p.symbol symbol).scope
  | _ => []

/-- Whether a function captures what its body uses. -/
def mayCapture (p : Program) (function : SymbolId) : Bool :=
  match p.function? function with
  | some own => own.role.captures
  | none => false

/-- What a captured field stands for. -/
def captureSource? (p : Program) (field : SymbolId) : Option CaptureSource := (p.field? field).bind (·.captured)

/-- The field under which a closure keeps a variable. -/
def captureOf? (p : Program) (owner origin : SymbolId) : Option SymbolId :=
  (p.fieldsOf owner).find? fun field => (p.captureSource? field).any (·.origin == origin)

/-- The receiver of the innermost method of a struct around a place. -/
def receiver? (p : Program) (place : ScopeId) (owner : SymbolId) : Option SymbolId :=
  (p.ancestors place).findSome? fun id =>
    if (p.scope id).kind = .function then do
      let own ← p.function? (← (p.scope id).owner)
      if own.owner = some owner then own.receiver else none
    else none

end Program

namespace BindM

/-- The field of a closure for a variable, made when it is first needed. -/
def captureField (owner origin source : SymbolId) (ty : Ty) (pos : Span) : BindM SymbolId := do
  match ← ask (·.captureOf? owner origin) with
  | some field => return field
  | none => addHiddenField owner (← symbolName origin) pos ty (some { origin, source })

/-- The way to a variable through the closures of functions, which are given outermost first. -/
def captureThrough (origin : SymbolId) (ty : Ty) (pos : Span) :
    List SymbolId → SymbolId → List CaptureHop → BindM (List CaptureHop)
  | [], _, hops => return hops
  | function :: rest, source, hops => do
    let some owner := (← ask (·.function? function)).bind (·.owner) | failure
    let field ← captureField owner origin source ty pos
    let some scope ← ask fun p => (p.symbol owner).ownScope | failure
    captureThrough origin ty pos rest field (hops ++ [⟨scope, field⟩])

/-- Reads a variable, capturing it where functions are crossed. -/
def variableReference (symbol : SymbolId) (pos : Span) : BindM NodeId := do
  let some ty ← ask fun p => (p.decl symbol).valueType? | failure
  let scope ← currentScope
  let crossed ← ask (·.crossedFunctions scope symbol)
  match ← ask fun p => crossed.find? fun function => !p.mayCapture function with
  | some blocker => fail pos .cannotCapture [← symbolName symbol, ← symbolName blocker]
  | none =>
    let captures ← captureThrough symbol ty pos crossed.reverse symbol []
    addNode pos ty (.valueName symbol captures)

/-- Reads a field of the struct whose method is being bound. -/
def fieldReference (symbol : SymbolId) (field : FieldDecl) (pos : Span) : BindM NodeId := do
  let scope ← currentScope
  match ← ask (·.receiver? scope field.owner) with
  | some this =>
    let this ← variableReference this pos
    let object ← addNode pos (.direct field.owner) (.dereference this)
    addNode pos field.ty (.fieldName object symbol)
  | none => fail pos .nameIsNotAValue [← symbolName symbol]

/-- Reads what a name stands for. -/
def reference (symbol : SymbolId) (pos : Span) : BindM NodeId := do
  match ← ask (·.field? symbol) with
  | some field => fieldReference symbol field pos
  | none => variableReference symbol pos

/-- The value with which a captured field starts, read where the closure is made. -/
def capturedValue (owner field : SymbolId) (captured : CaptureSource) (pos : Span) : BindM (SymbolId × NodeId) := do
  let scope ← currentScope
  if ← ask fun p => p.isWithin scope (p.symbol captured.origin).scope then
    return (field, ← reference captured.source pos)
  else fail pos .cannotCapture [← symbolName captured.origin, ← symbolName owner]

/-- The values with which the captured fields of a closure start. -/
def capturedValues (owner : SymbolId) (pos : Span) : BindM (List (SymbolId × NodeId)) := do
  let captures ← ask fun p =>
    (p.fieldsOf owner).filterMap fun field => (p.captureSource? field).map fun captured => (field, captured)
  captures.mapM fun (field, captured) => capturedValue owner field captured pos

end BindM

end Bindery
