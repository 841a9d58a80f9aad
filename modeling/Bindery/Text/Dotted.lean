/-!
# Dotted paths

`a.b.c` names the part `c` of `b` of `a`. Every point divides, so a path has one part more than points, and parts may
be empty.
-/
namespace Bindery

/-- The stretches between the points. -/
def splitPoints : List Char → List (List Char)
  | [] => [[]]
  | c :: rest =>
    match splitPoints rest with
    | [] => [[c]]
    | part :: parts => if c = '.' then [] :: part :: parts else (c :: part) :: parts

/-- The parts of a dotted path. -/
def dottedParts (path : String) : List String := (splitPoints path.toList).map String.ofList

theorem splitPoints_ne_nil (path : List Char) : splitPoints path ≠ [] := by
  cases path with
  | nil => exact List.cons_ne_nil _ _
  | cons c rest =>
    unfold splitPoints
    split
    · exact List.cons_ne_nil _ _
    · split <;> exact List.cons_ne_nil _ _

end Bindery
