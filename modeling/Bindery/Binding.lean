import Bindery.Binding.Body
/-!
# Binding modules

From the syntax of modules to a program with typed nodes, and a log of what is wrong with them.
-/
namespace Bindery

/-- What binding depends on besides the source: the width of a pointer in bits, how deep scopes may nest, the name of
the functions that hold the statements of modules, and how many errors are kept. -/
structure BindOptions where
  pointerWidth : Nat := 64
  maxNestingDepth : Nat := 256
  entryName : String := "__entry"
  maxErrors : Option Nat := none
  deriving DecidableEq, Repr

namespace BindState

/-- The names that binding uses of itself. -/
def ownNames : List String := ["this", "next", "value", "constructor", "dispose"]

/-- The state before any module is bound. -/
def initial (options : BindOptions) (names : NameTable) : BindState where
  program := .initial options.pointerWidth
  names := (names.insertMany (Builtin.all.map (·.1))).insertMany (ownNames ++ [options.entryName])
  log := .withCap options.maxErrors

/-- The place outside all modules. -/
def rootContext : Context := { scope := .root }

end BindState

namespace BindM

/-- Declares all modules, so that they may refer to each other, and then binds each of them. -/
def bindModules (room : Room) (modules : List ModuleDef) : BindM Unit := do
  let declared ← modules.mapM fun source => attempt (declareModule .root source)
  let symbols := declared.filterMap id
  modifyProgram fun p => { p with modules := p.modules ++ symbols }
  symbols.forM (bindModule room)

end BindM

namespace BindState

/-- Binds modules on top of what has been bound. -/
def bindModules (state : BindState) (options : BindOptions) (modules : List ModuleDef) : BindState :=
  let room := Room.ofDepth options.maxNestingDepth options.entryName options.maxNestingDepth
  ((BindM.bindModules room modules).runAt rootContext state).2

end BindState

end Bindery
