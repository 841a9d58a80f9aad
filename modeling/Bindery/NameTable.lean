import Bindery.Number.Power
/-!
# Names

The names a compilation has used so far, each once, and the number of names it has made up itself, counted in 32 bits.
A made-up name is a hint, a dollar sign and that number; nothing keeps a source from using the same text.
-/
namespace Bindery

/-- The distinct names used so far, newest first, and how many were generated. -/
structure NameTable where
  names : List String := []
  generated : Nat := 0
  deriving DecidableEq, Repr

namespace NameTable

def empty : NameTable := {}

instance : Inhabited NameTable := ⟨empty⟩

/-- Whether a name has been used. -/
def contains (table : NameTable) (name : String) : Bool := table.names.contains name

/-- Records the use of a name. -/
def insert (table : NameTable) (name : String) : NameTable :=
  if table.contains name then table else { table with names := name :: table.names }

def insertMany (table : NameTable) (names : List String) : NameTable := names.foldl insert table

/-- The next name that `generate` makes from a hint. -/
def next (table : NameTable) (hint : String) : String := s!"{hint}${table.generated}"

/-- Makes up a name from a hint and records its use. -/
def generate (table : NameTable) (hint : String) : String × NameTable :=
  (table.next hint, { table.insert (table.next hint) with generated := (table.generated + 1) % pow2 32 })

/-- How many distinct names have been used. -/
def size (table : NameTable) : Nat := table.names.length

def isEmpty (table : NameTable) : Bool := table.names.isEmpty

/-- The handle of a name: how many names were recorded before it. -/
def handle (table : NameTable) (name : String) : Nat := table.names.reverse.idxOf name

/-- The name that a handle stands for. -/
def resolve? (table : NameTable) (handle : Nat) : Option String := table.names.reverse[handle]?

theorem mem_insert (table : NameTable) (name other : String) :
    other ∈ (table.insert name).names ↔ other = name ∨ other ∈ table.names := by
  unfold insert contains
  split
  · rename_i h
    constructor
    · exact Or.inr
    · rintro (rfl | h')
      · simpa using h
      · exact h'
  · simp

theorem nodup_insert {table : NameTable} (h : table.names.Nodup) (name : String) :
    (table.insert name).names.Nodup := by
  unfold insert contains
  split
  · exact h
  · rename_i hn
    exact List.nodup_cons.2 ⟨by simpa using hn, h⟩

end NameTable

end Bindery
