import Bindery.Program.Walk
/-!
# Checking and summarising modules

What is handed on for a bound module. Everything that the module's entry reaches must be finished: no node may refer to
a template or to an alias.
-/
namespace Bindery

/-- What is known of a bound module: its entry, the number of its statements, and the numbers of functions and nodes
that the entry reaches. -/
structure ModuleSummary where
  name : String
  entry : SymbolId
  statements : Nat
  functions : Nat
  nodes : Nat
  deriving DecidableEq, Repr

/-- What a module must not hand on. -/
inductive Unfinished where
  | notModule
  | unbound
  | template (name : String)
  | aliased (name : String)
  deriving DecidableEq, Repr

/-- A module that is not finished. -/
structure VerifyError where
  module : String
  found : Unfinished
  deriving DecidableEq, Repr

def VerifyError.message (error : VerifyError) : String :=
  let (what, name) := match error.found with
    | .notModule => ("a non-module", error.module)
    | .unbound => ("an unbound module", "")
    | .template name => ("template", name)
    | .aliased name => ("alias", name)
  s!"module `{error.module}` hands {what} `{name}` to lowering"

namespace Program

/-- What is unfinished about a symbol that a node refers to. -/
def unfinished? (p : Program) (symbol : SymbolId) : Option Unfinished :=
  match p.decl symbol with
  | .template _ | .overloadSet _ => some (.template (p.symbol symbol).name)
  | .typeAlias .. | .constAlias .. | .valueAlias .. => some (.aliased (p.symbol symbol).name)
  | _ => none

/-- The functions that nodes call, each once, in the order of the first call. -/
def addCalled (functions : List SymbolId) (node : Node) : List SymbolId :=
  match node.kind with
  | .call function _ => if function ∈ functions then functions else functions ++ [function]
  | _ => functions

/-- The summary of a module. -/
def summarize (p : Program) (id : SymbolId) : Except VerifyError ModuleSummary :=
  let name := (p.symbol id).name
  match p.module? id with
  | none => .error ⟨name, .notModule⟩
  | some module =>
    match module.entry with
    | none => .error ⟨name, .unbound⟩
    | some entry =>
      let body := ((p.function? entry).map (·.body)).getD []
      let nodes := (p.walk body).map p.node
      match nodes.findSome? fun node => node.kind.symbols.findSome? p.unfinished? with
      | some found => .error ⟨name, found⟩
      | none =>
        .ok { name, entry, statements := body.length, functions := (nodes.foldl addCalled [entry]).length,
              nodes := nodes.length }

/-- The summaries of all modules. -/
def verify (p : Program) : Except VerifyError (List ModuleSummary) := p.modules.mapM p.summarize

end Program

end Bindery
