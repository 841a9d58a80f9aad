import Bindery.Binding.Declare
import Bindery.Binding.Level
/-!
# Modules

A module is declared before anything in it is looked at, and bound when it is first needed. While it is being bound, a
use from elsewhere sees what it has declared so far.
-/
namespace Bindery

namespace BindM

/-- Declares a module in a scope. -/
def declareModule (scope : ScopeId) (source : ModuleDef) : BindM SymbolId := do
  let own ← addScope .module scope
  let symbol ← declare scope
    { name := source.name, scope, ownScope := own, pos := source.pos, decl := .module { source } }
  setOwner own symbol
  return symbol

def setStatus (module : SymbolId) (status : BindStatus) : BindM Unit :=
  modifyProgram (·.modifyModule module ({ · with status }))

/-- Binds the statements of a module in its scope, as the body of its entry. -/
def bindModuleBody (room : Room) (module : SymbolId) (source : ModuleDef) (scope : ScopeId) : BindM Unit := do
  setStatus module .busy
  let entry ← addSymbol
    { name := room.entryName, scope, pos := source.pos, decl := .function { role := .plain, ret := some .void } }
  modifyProgram (·.modifyModule module ({ · with entry := some entry }))
  let body ← attempt <| room.inContext scope (some entry) .none source.pos fun level => level.body source.body
  modifyProgram (·.modifyFunction entry ({ · with body := body.getD [] }))
  setStatus module .done

/-- Binds a module unless that has been begun. -/
def bindModule (room : Room) (module : SymbolId) : BindM Unit := do
  match ← ask (·.module? module), ← ask fun p => (p.symbol module).ownScope with
  | some own, some scope => if own.status = .idle then bindModuleBody room module own.source scope
  | _, _ => return

/-- The scope of a module, which is bound first. -/
def moduleScope (room : Room) (module : SymbolId) : BindM ScopeId := do
  let some _ ← ask (·.module? module) | failure
  bindModule room module
  let some scope ← ask fun p => (p.symbol module).ownScope | failure
  return scope

end BindM

end Bindery
