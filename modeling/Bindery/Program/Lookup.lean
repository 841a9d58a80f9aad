import Bindery.Program.Basic
/-!
# Looking up names

A name is looked for in a scope and then in the scopes around it. Everything that depends on the scopes around a place
is a search in the list of its ancestors.
-/
namespace Bindery.Program

/-- The first scopes on the way outward, the scope itself first. -/
def ancestorsUpTo (p : Program) : Nat → ScopeId → List ScopeId
  | 0, scope => [scope]
  | n + 1, scope =>
    match (p.scope scope).parent with
    | none => [scope]
    | some parent => scope :: ancestorsUpTo p n parent

/-- The scopes around a scope, itself first. There are no more of them than scopes. -/
def ancestors (p : Program) (scope : ScopeId) : List ScopeId := p.ancestorsUpTo p.scopes.size scope

/-- The symbol that a name stands for at a place. -/
def lookup? (p : Program) (scope : ScopeId) (name : String) : Option SymbolId :=
  (p.ancestors scope).findSome? fun id => (p.scope id).find? name

/-- The symbol that a name stands for as a member of a scope. -/
def member? (p : Program) (scope : ScopeId) (name : String) : Option SymbolId := (p.scope scope).find? name

/-- Whether a scope is another one or lies inside it. -/
def isWithin (p : Program) (inner outer : ScopeId) : Bool := (p.ancestors inner).contains outer

/-- The scope of the innermost function around a place. -/
def functionScope? (p : Program) (scope : ScopeId) : Option ScopeId :=
  (p.ancestors scope).find? fun id => (p.scope id).kind == .function

/-- The innermost function around a place. -/
def enclosingFunction? (p : Program) (scope : ScopeId) : Option SymbolId :=
  (p.functionScope? scope).bind fun id => (p.scope id).owner

/-- Follows at most a number of aliases. -/
def resolveAliasUpTo (p : Program) : Nat → SymbolId → SymbolId
  | 0, symbol => symbol
  | n + 1, symbol =>
    match p.decl symbol with
    | .valueAlias _ target => resolveAliasUpTo p n target
    | _ => symbol

/-- The symbol that an alias stands for. -/
def resolveAlias (p : Program) (symbol : SymbolId) : SymbolId := p.resolveAliasUpTo (p.symbols.size + 1) symbol

end Bindery.Program
