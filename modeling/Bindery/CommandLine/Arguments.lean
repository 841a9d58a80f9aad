import Bindery.Number.Power
import Bindery.Settings.Options
/-!
# Arguments

The words of a command line. An option takes its value from the same word or from the next one, unless that looks like
an option itself; no option may be given twice. After two dashes every word is a module.
-/
namespace Bindery

/-- What a command line asks for. -/
structure Arguments where
  modules : List String := []
  project : Option String := none
  options : Options := {}
  summary : Bool := false
  verbose : Bool := false
  deriving DecidableEq, Repr

/-- Why a command line asks for nothing to be compiled. -/
inductive Stop where
  | usage
  | help
  | version
  deriving DecidableEq, Repr

namespace Arguments

/-- The number that a word denotes, which has to fit 64 bits. -/
def number? (word : String) : Option Nat :=
  let digits : List Char := match word.toList with
    | '+' :: digits => digits
    | digits => digits
  let value : Nat := digits.foldl (fun n c => 10 * n + (c.toNat - '0'.toNat)) 0
  if digits ≠ [] ∧ digits.all Char.isDigit ∧ value < pow2 64 then some value else none

/-- Adds a module. -/
def addModule (args : Arguments) (path : String) : Except Stop Arguments :=
  if path.isEmpty then .error .usage else .ok { args with modules := args.modules ++ [path] }

/-- Whether an option takes a value. -/
def takesValue (name : String) : Bool :=
  ["project", "pointer-width", "entry-name", "threads", "max-errors"].contains name

/-- Sets an option that has not been set. -/
def setValue (args : Arguments) (name value : String) : Except Stop Arguments :=
  let once {α : Type} (current : Option α) (given : Option α) (set : α → Arguments) : Except Stop Arguments :=
    match current, given with
    | none, some given => .ok (set given)
    | _, _ => .error .usage
  let options := args.options
  match name with
  | "project" =>
    once args.project (if value.isEmpty then none else some value) fun path => { args with project := some path }
  | "pointer-width" =>
    once options.pointerWidth (if value = "32" then some 32 else if value = "64" then some 64 else none)
      fun width => { args with options := { options with pointerWidth := some width } }
  | "entry-name" =>
    once options.entryName (some value) fun name => { args with options := { options with entryName := some name } }
  | "threads" =>
    once options.threads (number? value) fun count => { args with options := { options with threads := some count } }
  | "max-errors" =>
    once options.maxErrors (number? value)
      fun count => { args with options := { options with maxErrors := some count } }
  | _ => .error .usage

/-- Sets a flag that has not been set. -/
def setFlag (args : Arguments) : String → Except Stop Arguments
  | "summary" => if args.summary then .error .usage else .ok { args with summary := true }
  | "verbose" => if args.verbose then .error .usage else .ok { args with verbose := true }
  | "help" => .error .help
  | "version" => .error .version
  | _ => .error .usage

/-- The option that a letter stands for. -/
def ofLetter? : Char → Option String
  | 'p' => some "project"
  | 'v' => some "verbose"
  | 'h' => some "help"
  | 'V' => some "version"
  | _ => none

/-- Goes through the letters behind one dash. The result also tells which option still needs a value. -/
def letters (args : Arguments) : List Char → Except Stop (Arguments × Option String)
  | [] => .ok (args, none)
  | letter :: rest =>
    match ofLetter? letter with
    | none => .error .usage
    | some name =>
      if takesValue name then
        match rest with
        | [] => .ok (args, some name)
        | '=' :: value => (args.setValue name (String.ofList value)).map (·, none)
        | value => (args.setValue name (String.ofList value)).map (·, none)
      else do letters (← args.setFlag name) rest

/-- An option written out, with the value behind an equals sign. The result also tells which option still needs one. -/
def long (args : Arguments) (word : List Char) : Except Stop (Arguments × Option String) :=
  let name := String.ofList (word.takeWhile (· ≠ '='))
  match word.dropWhile (· ≠ '=') with
  | _ :: value => if takesValue name then (args.setValue name (String.ofList value)).map (·, none) else .error .usage
  | [] => if takesValue name then .ok (args, some name) else (args.setFlag name).map (·, none)

/-- Whether a word is not taken as a value of the option before it. -/
def isOptionLike (word : String) : Bool := word.startsWith "-" && word ≠ "-"

/-- Reads words up to the end; `pending` is an option that needs a value. -/
def read (args : Arguments) : Option String → List String → Except Stop Arguments
  | none, [] => .ok args
  | some _, [] => .error .usage
  | some name, word :: rest =>
    if isOptionLike word then .error .usage else do read (← args.setValue name word) none rest
  | none, word :: rest =>
    match word.toList with
    | ['-', '-'] => rest.foldlM addModule args
    | '-' :: '-' :: name => do
      let (args, pending) ← args.long name
      read args pending rest
    | '-' :: letter :: more => do
      let (args, pending) ← args.letters (letter :: more)
      read args pending rest
    | _ => do read (← args.addModule word) none rest

/-- What the words of a command line ask for. -/
def parse (words : List String) : Except Stop Arguments := read {} none words

end Arguments

end Bindery
