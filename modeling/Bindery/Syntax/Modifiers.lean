/-!
# Modifiers

The qualifiers of a declaration. Those of a modifier block join the ones of every declaration in it.
-/
namespace Bindery

/-- A set of qualifiers. -/
structure Modifiers where
  isStatic : Bool := false
  isConst : Bool := false
  isAsync : Bool := false
  isExport : Bool := false
  isForeign : Bool := false
  deriving DecidableEq, Repr

namespace Modifiers

def none : Modifiers := {}

instance : Inhabited Modifiers := ⟨none⟩

def union (a b : Modifiers) : Modifiers where
  isStatic := a.isStatic || b.isStatic
  isConst := a.isConst || b.isConst
  isAsync := a.isAsync || b.isAsync
  isExport := a.isExport || b.isExport
  isForeign := a.isForeign || b.isForeign

instance : Union Modifiers := ⟨union⟩

/-- The qualifiers that declarations nested in a declaration inherit. -/
def inherited (m : Modifiers) : Modifiers := { isStatic := m.isStatic, isConst := m.isConst, isAsync := m.isAsync }

def ofKeyword? : String → Option Modifiers
  | "static" => some { isStatic := true }
  | "const" => some { isConst := true }
  | "async" => some { isAsync := true }
  | "export" => some { isExport := true }
  | "extern" => some { isForeign := true }
  | _ => Option.none

/-- The keywords of the qualifiers in the set. -/
def keywords (m : Modifiers) : List String :=
  (if m.isStatic then ["static"] else []) ++ (if m.isConst then ["const"] else []) ++
    (if m.isAsync then ["async"] else []) ++ (if m.isExport then ["export"] else []) ++
    (if m.isForeign then ["extern"] else [])

theorem union_none (m : Modifiers) : m ∪ none = m := by
  cases m; simp [Union.union, union, none]

theorem none_union (m : Modifiers) : none ∪ m = m := by
  cases m; simp [Union.union, union, none]

theorem union_assoc (a b c : Modifiers) : a ∪ b ∪ c = a ∪ (b ∪ c) := by
  simp [Union.union, union, Bool.or_assoc]

end Modifiers

end Bindery
