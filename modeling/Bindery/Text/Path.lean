/-!
# File paths

Paths with slashes. A path that starts with a slash is absolute. A dot that stands for the same directory counts only at
the start of a path, and an empty part counts nowhere.
-/
namespace Bindery

/-- Whether a part between slashes adds nothing to a path. -/
def isIdlePart (part : List Char) : Bool := part == [] || part == ['.']

/-- Cuts a path at its slashes. -/
def pathParts : List Char → List (List Char)
  | [] => [[]]
  | c :: rest =>
    match pathParts rest with
    | [] => [[c]]
    | part :: parts => if c = '/' then [] :: part :: parts else (c :: part) :: parts

/-- Removes the parts at the end that add nothing. -/
def trimParts (parts : List (List Char)) : List (List Char) := (parts.reverse.dropWhile isIdlePart).reverse

/-- The start of a path, which is the root, the same directory or nothing, and the rest. -/
def splitStart : List Char → List Char × List Char
  | '/' :: rest => (['/'], rest)
  | ['.'] => (['.'], [])
  | '.' :: '/' :: rest => (['.'], '/' :: rest)
  | path => ([], path)

/-- The directory that a path lies in; the root and the empty path lie in none. -/
def parentPath? (path : String) : Option String :=
  let (start, rest) := splitStart path.toList
  match trimParts (pathParts rest) with
  | [] => if start = ['.'] then some "" else none
  | parts => some (String.ofList (start ++ ['/'].intercalate (trimParts parts.dropLast)))

/-- A path taken from a directory. An absolute path stays as it is. -/
def joinPath (directory path : String) : String :=
  if path.startsWith "/" then path
  else if directory.isEmpty || directory.endsWith "/" then directory ++ path
  else directory ++ "/" ++ path

end Bindery
