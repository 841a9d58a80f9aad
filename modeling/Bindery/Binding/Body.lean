import Bindery.Binding.Declaration
/-!
# Bodies

The statements of a scope are gone over four times: first for functions, structs and modules, so that they can be used
before they are declared; then for enums and foreign functions; then for aliases and imports; and last for everything
else, in order. The rules of a level are those of its bodies and of what stands in them.
-/
namespace Bindery

namespace BindM

variable (room : Room)

/-- Applies a rule to every statement of a list, with the modifiers around it. -/
def eachStatement (statements : List StatementPart) (rule : Syntax → BindM Unit) : BindM Unit :=
  statements.forM fun part => discard (attempt (withModifiers part.modifiers (rule part.tree)))

/-- Declares a function, a struct or a module. The result is the module, if it is one. -/
def declareStatement (tree : Syntax) : BindM (Option SymbolId) := do
  match tree.form with
  | .function source =>
    discard (declareFunction source)
    return none
  | .struct source =>
    discard (declareStruct source)
    return none
  | .module source => return some (← declareModule (← currentScope) source)
  | _ => return none

/-- The first pass. A statement that declares a module binds that module later. -/
def declareStatements : List StatementPart → BindM (List StatementPart)
  | [] => return []
  | part :: rest => do
    let declared ← attempt (withModifiers part.modifiers (declareStatement part.tree))
    let part := match declared with
      | some (some module) => { part with rule := do bindModule room module; failure }
      | _ => part
    return part :: (← declareStatements rest)

/-- The second pass. -/
def bindEager (tree : Syntax) : BindM Unit :=
  match tree.form with
  | .enum source => bindEnum room (optionalPart room source.base) source
  | .foreign abi body => eachStatement (statementParts room .none body) (bindForeign room abi)
  | _ => return

/-- The third pass. -/
def bindNaming (tree : Syntax) : BindM Unit :=
  match tree.form with
  | .aliasAs name target => bindAlias tree.pos name (part room target) .define
  | .exportAs name target => bindAlias tree.pos name (part room target) .exported
  | .importPath path rename => bindImport room tree.pos path rename
  | _ => return

/-- The passes over a list of statements before its statements are bound. -/
def bindDeclarations (body : List Syntax) : BindM (List StatementPart) := do
  let statements ← declareStatements room (statementParts room .none body)
  eachStatement statements (bindEager room)
  eachStatement statements (bindNaming room)
  return statements

/-- Binds the statements of a scope. -/
def bindBody (body : List Syntax) : BindM (List NodeId) := do
  bindStatements (← bindDeclarations room body) .open

/-- Binds the members of a struct. -/
def bindMembersOf (owner : SymbolId) (body : List Syntax) : BindM Unit := do
  let statements ← bindDeclarations room body
  eachStatement statements (bindMember room owner)

end BindM

namespace Level

open BindM

/-- The rules of a level, given what lies below it. -/
def above (room : Room) : Level where
  expression tree := (part room tree).expression room
  type tree := (part room tree).type room
  argument tree := (part room tree).argument room
  branch := bindBranch room
  body := bindBody room
  members := bindMembersOf room

end Level

/-- The levels below, for a number of levels that are left. -/
def Room.ofDepth (limit : Nat) (entryName : String) : Nat → Room
  | 0 => ⟨limit, entryName, fun _ => none⟩
  | left + 1 => ⟨limit, entryName, fun _ => some (Level.above (ofDepth limit entryName left))⟩

end Bindery
