import Bindery.Conversion.Plan
import Bindery.Dump.Tag
import Bindery.Program.Lookup
import Bindery.Text.Dotted
/-!
# Types in text

A type is written as a base and its indirections. A builtin type is written by its name, any other symbol by its
number, and the unknown type by a question mark. To read a type, the base may also be a dotted path of names; `!k` after
a name selects an instance of a template.
-/
namespace Bindery.Program

/-- The text of a type. -/
def typeText (p : Program) (ty : Ty) : String :=
  (match ty.base? with
    | none => "?"
    | some base =>
      match p.decl base with
      | .builtin _ => (p.symbol base).name
      | _ => s!"#{base.index}") ++ ty.marks

/-- The text of a plan: its steps and their types, or the failure after an exclamation mark. -/
def planText (p : Program) : CastPlan → String
  | .ok steps => String.intercalate " " (steps.map fun step => s!"{step.kind.tag}:{p.typeText step.target}")
  | .error failure => "!" ++ failure.tag

/-- The name and the number of an instance that a part of a path consists of. -/
def instancePart (part : String) : String × Option Nat :=
  let name := part.toList.takeWhile (· ≠ '!')
  (String.ofList name, (String.ofList (part.toList.drop (name.length + 1))).toNat?)

/-- The instance of a template that is asked for, if one is. -/
def instanceOf? (p : Program) (symbol : SymbolId) : Option Nat → Option SymbolId
  | none => some symbol
  | some index => do (← p.template? symbol).instances[index]?

/-- The symbol that a path leads to from a symbol. -/
def memberPath? (p : Program) (symbol : SymbolId) : List String → Option SymbolId
  | [] => some symbol
  | part :: rest => do
    let (name, index) := instancePart part
    let member ← p.member? (← (p.symbol symbol).ownScope) name
    memberPath? p (← p.instanceOf? (p.resolveAlias member) index) rest

/-- The symbol that a dotted path stands for at a place. Aliases are followed after each part. -/
def pathSymbol? (p : Program) (scope : ScopeId) (path : String) : Option SymbolId :=
  match dottedParts path with
  | [] => none
  | part :: rest => do
    let (name, index) := instancePart part
    let first ← p.lookup? scope name
    p.memberPath? (← p.instanceOf? (p.resolveAlias first) index) rest

/-- The type that a symbol stands for: that of a type alias, or the symbol itself. -/
def symbolType (p : Program) (symbol : SymbolId) : Ty :=
  match p.decl symbol with
  | .typeAlias _ ty => ty
  | _ => .direct symbol

/-- The type that a base stands for. -/
def readBase (p : Program) (scope : ScopeId) (base : List Char) : Ty :=
  match base with
  | ['?'] => .unknown
  | '#' :: digits => p.symbolType ⟨(String.ofList digits).toNat?.getD 0⟩
  | _ => ((p.pathSymbol? scope (String.ofList base)).map p.symbolType).getD .unknown

/-- Whether a character marks an indirection. -/
def isMark (c : Char) : Bool := c == '*' || c == '&'

/-- The type that a text denotes at a place. -/
def readType (p : Program) (scope : ScopeId) (text : String) : Ty :=
  let base := (text.toList.reverse.dropWhile isMark).reverse
  (text.toList.drop base.length).foldl (fun ty c => if c == '*' then .pointer ty else .reference ty)
    (p.readBase scope base)

end Bindery.Program
