import Bindery.Binding.Declare
/-!
# Templates

Functions and structs are declared as templates. One name may stand for several of them when their arities differ: the
name then denotes an overload set, and a call takes the first template that accepts its number of arguments.
-/
namespace Bindery

namespace Program

/-- The templates under a symbol, in the order of their declaration. -/
def candidates (p : Program) (symbol : SymbolId) : List SymbolId :=
  match p.decl symbol with
  | .template _ => [symbol]
  | .overloadSet templates => templates
  | _ => []

/-- Whether a template takes a number of arguments. A value before the dot is one more for what is no method. -/
def acceptsCall (p : Program) (template : SymbolId) (count : Nat) (bound : Bool) : Bool :=
  match p.template? template with
  | some own => own.arity.accepts (count + if bound && !own.arity.receiver then 1 else 0)
  | none => false

/-- The template under a symbol that a call takes. -/
def selectTemplate? (p : Program) (symbol : SymbolId) (count : Nat) (bound : Bool) : Option SymbolId :=
  (p.candidates symbol).find? (p.acceptsCall · count bound)

/-- The template under a symbol that has an arity. -/
def templateOfArity? (p : Program) (symbol : SymbolId) (arity : Arity) : Option SymbolId :=
  (p.candidates symbol).find? fun id => (p.template? id).any (·.arity == arity)

/-- Whether a symbol stands for structs. -/
def isStructTemplate (p : Program) (symbol : SymbolId) : Bool :=
  match (p.candidates symbol).head?.bind p.template? with
  | some own => own.source.isStruct
  | none => false

/-- Whether a symbol can be called by name. -/
def isCallable (p : Program) (symbol : SymbolId) : Bool :=
  match p.decl symbol with
  | .template _ | .overloadSet _ | .function _ => true
  | _ => false

/-- Puts a template into an overload set. A single template is first moved to a symbol of its own, so that the name can
stand for the set. -/
def addOverload (p : Program) (existing added : SymbolId) : Program :=
  match p.decl existing with
  | .overloadSet templates => p.setDecl existing (.overloadSet (templates ++ [added]))
  | first =>
    let moved := p.nextSymbol
    (p.addSymbol { p.symbol existing with decl := first }).setDecl existing (.overloadSet [moved, added])

end Program

namespace BindM

/-- The name that a function is declared under. -/
def functionName (source : FunctionDef) : BindM String := do
  match source.name, source.operator with
  | some name, _ => return name
  | none, some operator =>
    useName operator.declaredName
    return operator.declaredName
  | none, none => freshName "anon"

/-- The arity of a parameter list, which has to be well formed. -/
def arityOf (name : String) (params : List Param) (receiver : Bool) : BindM Arity := do
  match Arity.ofParams params receiver with
  | .ok arity => return arity
  | .error fault =>
    fail ((params.head?.map (·.pos)).getD .synthetic) .malformedParameters [name, fault.reason]

/-- Declares a template in the current scope, or adds it to those of the same name. -/
def declareTemplate (name : String) (pos : Span) (template : TemplateDecl) : BindM SymbolId := do
  let scope ← currentScope
  let symbol : Symbol := { name, scope, pos, decl := .template template }
  match ← ask fun p => (p.scope scope).find? name with
  | none => declare scope symbol
  | some existing =>
    match ← ask (·.decl existing) with
    | .template _ | .overloadSet _ =>
      match ← ask (·.templateOfArity? existing template.arity) with
      | some clash =>
        let previous ← ask fun p => (p.symbol clash).pos
        report ((Diagnostic.of pos .duplicateArity [name]).withRelated (.of previous .previousDeclaration [name]))
        failure
      | none =>
        let added ← addSymbol symbol
        modifyProgram (·.addOverload existing added)
        return added
    | _ =>
      reportDuplicate name pos existing
      failure

/-- Declares a function. Inside a struct it is a method, which takes a receiver unless it is static. -/
def declareFunction (source : FunctionDef) : BindM SymbolId := do
  let scope ← currentScope
  let owner ← ask (·.owningStruct? scope)
  let name ← functionName source
  let modifiers ← inheritModifiers source.modifiers
  let arity ← arityOf name source.params (owner.isSome && !modifiers.isStatic)
  let role : Role :=
    if owner.isNone then .plain
    else if name = "constructor" then .constructor
    else if name = "dispose" then .disposer
    else .plain
  declareTemplate name source.pos
    { source := .function source, arity, scope, role, functionKind := source.kind, modifiers, owner }

/-- Declares a struct, tuple or union. -/
def declareStruct (source : StructDef) : BindM SymbolId := do
  let scope ← currentScope
  let name ← match source.name with
    | some name => pure name
    | none => freshName "struct"
  let arity ← arityOf name source.params false
  let modifiers ← inheritModifiers source.modifiers
  declareTemplate name source.pos
    { source := .struct source, arity, scope, role := .plain, functionKind := .plain, modifiers, owner := none }

/-- The template that a call takes. -/
def selectTemplate (symbol : SymbolId) (count : Nat) (bound : Bool) (pos : Span) : BindM SymbolId := do
  match ← ask (·.selectTemplate? symbol count bound) with
  | some template => return template
  | none => fail pos .argumentCount [← symbolName symbol, toString count]

end BindM

end Bindery
