import Bindery.Program.Id
/-!
# Scopes

A region of the program in which names are declared. A name is declared at most once in a scope, either by the scope
itself or by an import; both lists keep the order of declaration.
-/
namespace Bindery

/-- What a scope belongs to. -/
inductive ScopeKind where
  | builtin
  | root
  | module
  | struct
  | function
  | block
  | enum
  deriving DecidableEq, Repr

/-- A scope: the one around it, the symbol that it belongs to, its own symbols and the imported ones. -/
structure Scope where
  kind : ScopeKind
  parent : Option ScopeId
  owner : Option SymbolId
  symbols : List (String × SymbolId) := []
  others : List (String × SymbolId) := []
  deriving DecidableEq, Repr

namespace Scope

instance : Inhabited Scope := ⟨{ kind := .block, parent := none, owner := none }⟩

/-- A symbol that the scope itself declares. -/
def get? (scope : Scope) (name : String) : Option SymbolId := scope.symbols.lookup name

/-- A symbol that the scope imports. -/
def getOther? (scope : Scope) (name : String) : Option SymbolId := scope.others.lookup name

/-- The symbol that a name stands for in the scope. -/
def find? (scope : Scope) (name : String) : Option SymbolId := scope.get? name <|> scope.getOther? name

/-- Adds a symbol of the scope's own. -/
def insert (scope : Scope) (name : String) (symbol : SymbolId) : Scope :=
  { scope with symbols := scope.symbols ++ [(name, symbol)] }

/-- Adds an imported symbol. -/
def insertOther (scope : Scope) (name : String) (symbol : SymbolId) : Scope :=
  { scope with others := scope.others ++ [(name, symbol)] }

end Scope

end Bindery
