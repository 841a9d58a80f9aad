/-!
# Filling in a template

`{0}`, `{1}` and so on are replaced by the arguments, one argument after the other: an argument's text is itself
searched for the marks of the arguments that follow it.
-/
namespace Bindery

/-- Replaces every occurrence of `mark` by `text`, from the left. The number counts the characters of an occurrence
that are still to be passed over. -/
def replaceMark (mark text : List Char) : Nat → List Char → List Char
  | _, [] => []
  | skip + 1, _ :: rest => replaceMark mark text skip rest
  | 0, c :: rest =>
    if mark.isPrefixOf (c :: rest) then text ++ replaceMark mark text (mark.length - 1) rest
    else c :: replaceMark mark text 0 rest

/-- The characters that stand for the argument with number `index`. -/
def argumentMark (index : Nat) : List Char := '\x7b' :: (toString index).toList ++ ['\x7d']

/-- Replaces the marks of `args`, the first of which has number `index`. -/
def fillFrom (index : Nat) (text : List Char) : List String → List Char
  | [] => text
  | arg :: rest => fillFrom (index + 1) (replaceMark (argumentMark index) arg.toList 0 text) rest

/-- The template with its marks replaced by the arguments. -/
def formatMessage (template : String) (args : List String) : String :=
  String.ofList (fillFrom 0 template.toList args)

end Bindery
