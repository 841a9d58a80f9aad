import Bindery.NameTable
import Bindery.Syntax.Tree
import Bindery.Text.Dotted
/-!
# Building trees

Makes trees without a source text. Everything that has a position takes a line of its own when it is made, from the
first line on, so that diagnostics about different nodes can be told apart; children are made before their parents.
-/
namespace Bindery

/-- What building keeps: the file, the last line taken, and the names used. -/
structure Build where
  file : Nat := 0
  line : Nat := 0
  names : NameTable := {}

abbrev BuildM := StateM Build

namespace Form

/-- The names that a form itself uses. -/
def names : Form → List String
  | .name own => [own]
  | .dot _ member => [member]
  | .define own .. => [own]
  | .aliasAs own _ => [own]
  | .importPath path rename => path ++ rename.toList
  | .exportAs own _ => [own]
  | .block label _ => label.toList
  | .loop label .. => label.toList
  | .forIn label own .. => label.toList ++ [own]
  | .breaks label => label.toList
  | .continues label => label.toList
  | _ => []

end Form

namespace Build

/-- Takes the next line. -/
def nextLine : BuildM Span := do
  let build ← get
  set { build with line := build.line + 1 }
  return .onLine build.file (build.line + 1) 1 2

/-- Records the use of names. -/
def use (names : List String) : BuildM Unit :=
  modify fun build => { build with names := build.names.insertMany names }

/-- Makes a node. -/
def node (form : Form) : BuildM Syntax := do
  use form.names
  return .mk (← nextLine) form

/-- The names of a dotted path, each a member of the one before. -/
def path (text : String) : BuildM Syntax :=
  match dottedParts text with
  | [] => node (.name "")
  | first :: rest => do rest.foldlM (fun base member => node (.dot base member)) (← node (.name first))

/-- An argument, which stands where its value does. -/
def argument (name : Option String) (value : Syntax) : BuildM Argument := do
  use name.toList
  return { pos := value.pos, name, value }

def param (name : String) (type default : Option Syntax) (vararg const : Bool) : BuildM Param := do
  use [name]
  return { pos := ← nextLine, name, type, default, vararg, const }

/-- Starts a function, which has neither parameters nor a body yet. -/
def startFunction (name : Option String) (kind : FunctionKind) : BuildM FunctionDef := do
  use name.toList
  return { pos := ← nextLine, name, operator := none, kind, params := [], returnType := none, body := none,
           modifiers := .none }

/-- Starts a struct. -/
def startStruct (name : Option String) (form : StructForm) : BuildM StructDef := do
  use name.toList
  return { pos := ← nextLine, name, form, params := [], body := [], modifiers := .none }

/-- A field of a struct, which has a type and no value. -/
def field (name : String) (type : Syntax) : BuildM Syntax := node (.define name (some type) none .none)

def enumMember (name : String) (value : Option Syntax) : BuildM EnumMember := do
  use [name]
  return { pos := ← nextLine, name, value }

/-- An enum: its members, then the enum itself, then its node. -/
def enumeration (name : String) (base : Option Syntax) (members : List (String × Option Syntax)) : BuildM Syntax := do
  let members ← members.mapM fun (name, value) => enumMember name value
  use [name]
  let pos ← nextLine
  node (.enum { pos, name, base, members })

/-- A loop over a list of statements, which become a block. -/
def loop (label : Option String) (init condition step : Option Syntax) (body : List Syntax) : BuildM Syntax := do
  let body ← node (.block none body)
  node (.loop label init condition step body)

def forIn (name : String) (iterable : Syntax) (body : List Syntax) : BuildM Syntax := do
  let body ← node (.block none body)
  node (.forIn none name iterable body)

def module (name : String) (body : List Syntax) : BuildM ModuleDef := do
  use [name]
  return { pos := ← nextLine, name, body }

/-- A module inside a module. -/
def nestedModule (name : String) (body : List Syntax) : BuildM Syntax := do node (.module (← module name body))

end Build

namespace FunctionDef

/-- Makes the function the definition of an operator. -/
def asOperator (function : FunctionDef) (operator : OperatorName) : FunctionDef :=
  { function with name := none, operator := some operator }

end FunctionDef

end Bindery
