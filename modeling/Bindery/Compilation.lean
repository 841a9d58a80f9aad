import Bindery.Program.Summary
import Bindery.Settings.Options
import Bindery.Syntax.Load
/-!
# Compilations

A compilation checks its options, loads its modules, binds them and puts the diagnostics in order. When there are no
errors, every module is checked once more and summarised.
-/
namespace Bindery

/-- The result of a compilation. There are no summaries when there are errors. -/
structure Compilation where
  program : Program
  names : NameTable
  log : Log
  summaries : List ModuleSummary

/-- Why there is no result. -/
inductive CompileError where
  | options (fault : OptionFault)
  | load (path : String) (error : LoadError)
  | verify (error : VerifyError)

def CompileError.message : CompileError → String
  | .options fault => fault.message
  | .load path error => s!"failed to load {path}: {error.message}"
  | .verify error => error.message

/-- A module that is still to be loaded: where it comes from, and how it is loaded. -/
structure Source where
  path : String
  load : LoadM ModuleDef

namespace Source

/-- Loads modules one after the other, up to the first that fails. -/
def loadAll : List Source → NameTable → Except CompileError (List ModuleDef × NameTable)
  | [], names => .ok ([], names)
  | source :: rest, names =>
    match ModuleDef.load source.load names with
    | (.error error, _) => .error (.load source.path error)
    | (.ok module, names) => do
      let (modules, names) ← loadAll rest names
      return (module :: modules, names)

end Source

namespace Compilation

def succeeded (compilation : Compilation) : Bool := !compilation.log.hasErrors

/-- Binds modules and summarises them. -/
def ofModules (options : Options) (names : NameTable) (modules : List ModuleDef) : Except CompileError Compilation :=
  let start := BindState.initial options.bindOptions names
  let state := start.bindModules options.bindOptions modules
  let log := state.log.sort
  if log.hasErrors then .ok { program := state.program, names := state.names, log, summaries := [] }
  else
    match state.program.verify with
    | .ok summaries => .ok { program := state.program, names := state.names, log, summaries }
    | .error error => .error (.verify error)

/-- Loads and binds modules. -/
def ofSources (options : Options) (sources : List Source) : Except CompileError Compilation := do
  if let some fault := options.fault? then throw (.options fault)
  let (modules, names) ← Source.loadAll sources {}
  ofModules options names modules

end Compilation

end Bindery
