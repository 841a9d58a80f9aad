/-!
# Identities

Symbols, scopes and nodes live in tables that only grow; each is known by its place in its table.
-/
namespace Bindery

/-- A symbol of a program. -/
structure SymbolId where
  index : Nat
  deriving DecidableEq, Repr, Inhabited

/-- A scope of a program. -/
structure ScopeId where
  index : Nat
  deriving DecidableEq, Repr, Inhabited

/-- A node of a program. -/
structure NodeId where
  index : Nat
  deriving DecidableEq, Repr, Inhabited

end Bindery
