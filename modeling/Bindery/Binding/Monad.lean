import Bindery.Diagnostic.Log
import Bindery.NameTable
import Bindery.Program.TypeQuery
/-!
# The binding monad

Binding reads a context, which changes with the place in the source, and adds to a program, a name table and a log. A
rule that fails leaves what it added before: the tables only grow, and every report stays.
-/
namespace Bindery

/-- The place at which a rule binds: its scope, the modifiers that declarations inherit there, the function whose body
it belongs to, and the innermost loop of that function. -/
structure Context where
  scope : ScopeId
  modifiers : Modifiers := .none
  function : Option SymbolId := none
  loopLabel : Option SymbolId := none
  deriving DecidableEq, Repr

/-- What binding has made so far. -/
structure BindState where
  program : Program
  names : NameTable
  log : Log

/-- A rule of binding. It fails without an exception to catch: only the state tells what went wrong. -/
abbrev BindM := ReaderT Context (OptionT (StateM BindState))

namespace BindM

/-- The result of a rule from a state, and the state that it leaves. -/
def runAt {α : Type} (rule : BindM α) (context : Context) (state : BindState) : Option α × BindState :=
  ((ReaderT.run rule context).run).run state

/-- Goes on after a rule whether or not it fails. -/
def attempt {α : Type} (rule : BindM α) : BindM (Option α) := fun context => OptionT.lift (rule context).run

/-- Asks the program. -/
def ask {α : Type} (question : Program → α) : BindM α := return question (← get).program

def modifyProgram (f : Program → Program) : BindM Unit :=
  modify fun state => { state with program := f state.program }

/-- Records the use of a name. -/
def useName (name : String) : BindM Unit := modify fun state => { state with names := state.names.insert name }

/-- Makes up a name. -/
def freshName (hint : String) : BindM String :=
  modifyGet fun state =>
    let (name, names) := state.names.generate hint
    (name, { state with names })

/-! ## Reports -/

def report (diagnostic : Diagnostic) : BindM Unit :=
  modify fun state => { state with log := state.log.add diagnostic }

def error (pos : Span) (message : Message) (args : List String) : BindM Unit := report (.of pos message args)

/-- Reports an error and fails. -/
def fail {α : Type} (pos : Span) (message : Message) (args : List String) : BindM α := do
  error pos message args
  failure

/-- How many errors have been reported. -/
def errorCount : BindM Nat := return (← get).log.errorCount

def typeName (ty : Ty) : BindM String := ask (·.typeName ty)

def symbolName (symbol : SymbolId) : BindM String := ask fun p => (p.symbol symbol).name

/-! ## The context -/

/-- The scope in which a rule binds. -/
def currentScope : BindM ScopeId := return (← read).scope

/-- The modifiers of a declaration, with those that it inherits. -/
def inheritModifiers (own : Modifiers) : BindM Modifiers := return own ∪ (← read).modifiers.inherited

def withModifiers {α : Type} (modifiers : Modifiers) (rule : BindM α) : BindM α :=
  withReader (fun context => { context with modifiers := context.modifiers ∪ modifiers }) rule

def withLoop {α : Type} (label : SymbolId) (rule : BindM α) : BindM α :=
  withReader (fun context => { context with loopLabel := some label }) rule

/-! ## Growing the program -/

def addNode (pos : Span) (ty : Ty) (kind : NodeKind) : BindM NodeId :=
  modifyGet fun state => (state.program.nextNode, { state with program := state.program.addNode ⟨pos, ty, kind⟩ })

/-- Adds a node that has no value. -/
def addStatement (pos : Span) (kind : NodeKind) : BindM NodeId := addNode pos .void kind

/-- Adds a symbol that no scope names. -/
def addSymbol (symbol : Symbol) : BindM SymbolId :=
  modifyGet fun state => (state.program.nextSymbol, { state with program := state.program.addSymbol symbol })

def addScope (kind : ScopeKind) (parent : ScopeId) : BindM ScopeId :=
  modifyGet fun state =>
    (state.program.nextScope, { state with program := state.program.addScope { kind, parent, owner := none } })

/-- Makes a symbol the owner of a scope. -/
def setOwner (scope : ScopeId) (owner : SymbolId) : BindM Unit :=
  modifyProgram (·.modifyScope scope ({ · with owner := some owner }))

def nodeType (node : NodeId) : BindM Ty := ask fun p => (p.node node).ty

def nodePos (node : NodeId) : BindM Span := ask fun p => (p.node node).pos

end BindM

end Bindery
