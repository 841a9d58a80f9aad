import Bindery.Syntax.Draft
import Bindery.Text.Dotted
/-!
# Loading modules

The members of each kind of node, in the order in which they are read. The rules only look up members whose own trees
are known, so loading is one structural recursion over the JSON value (`Draft.of`).
-/
namespace Bindery

namespace Draft

namespace Members

def modifiers (m : Members) : LoadM Modifiers := do
  (← m.list "modifiers").foldlM (fun sum draft => do
    let one ← LoadM.expect "modifiers" "a modifier keyword" (draft.string?.bind Modifiers.ofKeyword?)
    return sum ∪ one) .none

/-- An argument: an object without a kind of its own, with a name and a value; any other object is a node. -/
def argument (file : Nat) (parent : Span) (draft : Draft) : LoadM Argument := do
  let m ← of "Argument" draft
  if m.kind = "Argument" then
    let pos ← m.span parent file
    let name ← m.optName "name"
    return { pos, name, value := ← m.child "value" pos }
  else
    let value ← draft.load parent
    return { pos := value.pos, name := none, value }

def arguments (m : Members) (key : String) (file : Nat) (pos : Span) : LoadM (List Argument) := do
  (← m.list key).mapM (argument file pos)

def param (file : Nat) (parent : Span) (draft : Draft) : LoadM Param := do
  let m ← of "Param" draft
  let pos ← m.span parent file
  let name ← m.name "name"
  let type ← m.optChild "type" pos
  let default ← m.optChild "default" pos
  return { pos, name, type, default, vararg := m.flag "vararg", const := m.flag "const" }

def params (m : Members) (file : Nat) (pos : Span) : LoadM (List Param) := do
  (← m.list "params").mapM (param file pos)

def functionKind (m : Members) : LoadM FunctionKind := do
  match ← m.optStr "functionKind" with
  | none => return if m.kind = "Lambda" then .lambda else .plain
  | some "plain" => return .plain
  | some "lambda" => return .lambda
  | some "generator" => return .generator
  | some _ => throw (.invalidValue "functionKind" "plain, lambda or generator")

def operator (m : Members) : LoadM (Option OperatorName) := do
  match ← m.optStr "operator" with
  | none => return none
  | some symbol => some <$> LoadM.expect "operator" "an operator symbol" (OperatorName.ofSymbol? symbol)

def functionBody (m : Members) (pos : Span) : LoadM (Option (List Syntax)) :=
  match m.get? "body" with
  | none => pure none
  | some _ => some <$> m.children "body" pos

def function (m : Members) (file : Nat) (pos : Span) : LoadM FunctionDef := do
  let kind ← m.functionKind
  let operator ← m.operator
  let body ← m.functionBody pos
  let name ← m.optName "name"
  let params ← m.params file pos
  let returnType ← m.optChild "returnType" pos
  return { pos, name, operator, kind, params, returnType, body, modifiers := ← m.modifiers }

def structForm (m : Members) : LoadM StructForm := do
  match ← m.optStr "structKind" with
  | none | some "struct" => return .struct
  | some "tuple" => return .tuple
  | some "union" => return .union
  | some _ => throw (.invalidValue "structKind" "struct, tuple or union")

def struct (m : Members) (file : Nat) (pos : Span) : LoadM StructDef := do
  let form ← m.structForm
  let name ← m.optName "name"
  let params ← m.params file pos
  let body ← m.children "body" pos
  return { pos, name, form, params, body, modifiers := ← m.modifiers }

def enumMember (file : Nat) (parent : Span) (draft : Draft) : LoadM EnumMember := do
  let m ← of "EnumMember" draft
  let pos ← m.span parent file
  let name ← m.name "name"
  return { pos, name, value := ← m.optChild "value" pos }

def enum (m : Members) (file : Nat) (pos : Span) : LoadM EnumDef := do
  let members ← (← m.list "members").mapM (enumMember file pos)
  let name ← m.name "name"
  return { pos, name, base := ← m.optChild "base" pos, members }

def module (m : Members) (pos : Span) : LoadM ModuleDef := do
  let name ← m.name "name"
  return { pos, name, body := ← m.children "body" pos }

def binaryOp (symbol : String) : LoadM BinaryOp := LoadM.expect "op" "a binary operator" (BinaryOp.ofSymbol? symbol)

def intSuffix (m : Members) : LoadM (Option IntSuffix) := do
  match ← m.optStr "suffix" with
  | none => return none
  | some suffix => some <$> LoadM.expect "suffix" "an integer suffix" (IntSuffix.ofSpelling? suffix)

def castIntent (m : Members) : LoadM Intent := do
  match ← m.optStr "cast" with
  | none | some "as" => return .explicit
  | some "to" => return .implicit
  | some _ => throw (.invalidValue "cast" "`as` or `to`")

/-- The form of a node of a kind. -/
def form (m : Members) (file : Nat) (pos : Span) : String → LoadM Form
  | "IntLiteral" => do
    let value ← LoadM.expect "value" "an unsigned integer" ((← m.require "value").json?.bind Json.nat?)
    return .int value (← m.intSuffix)
  | "FloatLiteral" => do
    let value ← LoadM.expect "value" "a number" ((← m.require "value").json?.bind Json.double?)
    return .float value (m.flag "single")
  | "BoolLiteral" => return .bool (m.flag "value")
  | "NullLiteral" => return .null
  | "StringLiteral" => return .string (← m.str "value")
  | "Name" => return .name (← m.name "name")
  | "Dot" => return .dot (← m.child "base" pos) (← m.name "member")
  | "Index" => return .index (← m.child "base" pos) (← m.child "index" pos)
  | "Unary" => do
    let op ← LoadM.expect "op" "a unary operator" (UnaryOp.ofSymbol? (← m.str "op"))
    return .unary op (← m.child "operand" pos)
  | "Binary" => do
    let op ← binaryOp (← m.str "op")
    return .binary op (← m.child "left" pos) (← m.child "right" pos)
  | "Assign" => do
    let op ← match ← m.optStr "op" with
      | none => pure none
      | some symbol => some <$> binaryOp symbol
    return .assign op (← m.child "target" pos) (← m.child "value" pos)
  | "Ternary" => return .ternary (← m.child "cond" pos) (← m.child "then" pos) (← m.child "otherwise" pos)
  | "Cast" => return .cast (← m.child "value" pos) (← m.child "target" pos) (← m.castIntent)
  | "Call" => return .call (← m.child "callee" pos) (← m.arguments "args" file pos) (← m.optChild "with" pos)
  | "Initializer" => return .initializer (← m.child "type" pos) (← m.arguments "fields" file pos)
  | "Tuple" => return .tuple (← m.children "items" pos)
  | "SizeOf" => return .sizeOf (← m.child "target" pos)
  | "New" => return .new (← m.child "type" pos) (← m.optChild "count" pos) (← m.arguments "args" file pos)
  | "Delete" => return .delete (← m.child "value" pos)
  | "Atomic" => do
    let op ← LoadM.expect "op" "an atomic operation name" (AtomicOp.ofSpelling? (← m.str "op"))
    return .atomic op (← m.child "target" pos) (← m.child "value" pos)
  | "Lambda" => return .lambda (← m.function file pos)
  | "PointerType" => return .pointerType (← m.child "pointee" pos)
  | "ReferenceType" => return .referenceType (← m.child "pointee" pos)
  | "ArrayType" => return .arrayType (← m.child "element" pos) (← m.child "length" pos)
  | "Define" =>
    return .define (← m.name "name") (← m.optChild "type" pos) (← m.optChild "value" pos) (← m.modifiers)
  | "Function" => return .function (← m.function file pos)
  | "Struct" => return .struct (← m.struct file pos)
  | "Enum" => return .enum (← m.enum file pos)
  | "Alias" => return .aliasAs (← m.name "name") (← m.child "target" pos)
  | "Import" => do
    let path ← (dottedParts (← m.str "path")).mapM LoadM.use
    return .importPath path (← m.optName "alias")
  | "Export" => return .exportAs (← m.name "name") (← m.child "target" pos)
  | "Module" => return .module (← m.module pos)
  | "Extern" => return .foreign ((← m.optStr "abi").getD "C") (← m.children "body" pos)
  | "Modified" => return .modified (← m.modifiers) (← m.children "body" pos)
  | "Block" => return .block (← m.optName "label") (← m.children "body" pos)
  | "If" => return .branch (← m.child "cond" pos) (← m.child "then" pos) (← m.optChild "otherwise" pos)
  | "Loop" =>
    return .loop (← m.optName "label") (← m.optChild "init" pos) (← m.optChild "cond" pos)
      (← m.optChild "step" pos) (← m.child "body" pos)
  | "ForIn" =>
    return .forIn (← m.optName "label") (← m.name "name") (← m.child "iterable" pos) (← m.child "body" pos)
  | "Return" => return .returns (← m.optChild "value" pos)
  | "Break" => return .breaks (← m.optName "label")
  | "Continue" => return .continues (← m.optName "label")
  | "Defer" => return .defer (← m.child "value" pos)
  | "Yield" => return .yield (← m.child "value" pos)
  | "YieldFrom" => return .yieldFrom (← m.child "value" pos)
  | "Await" => return .await (← m.child "value" pos)
  | kind => throw (.unknownKind kind)

/-- The node that an object with these members is. -/
def node (file : Nat) (members : List (String × Draft)) (parent : Span) : LoadM Syntax := do
  let m : Members := ⟨((find? members "kind").bind string?).getD "node", members⟩
  let pos ← m.span parent file
  return .mk pos (← m.form file pos (← m.str "kind"))

end Members

mutual
/-- The draft of a JSON value. -/
def of (file : Nat) : Json → Draft
  | .array items => .array (ofList file items)
  | .object members =>
    let drafts := ofMembers file members
    .object drafts (Members.node file drafts)
  | .null => .leaf .null
  | .bool value => .leaf (.bool value)
  | .int value => .leaf (.int value)
  | .float value => .leaf (.float value)
  | .string value => .leaf (.string value)

def ofList (file : Nat) : List Json → List Draft
  | [] => []
  | item :: rest => of file item :: ofList file rest

def ofMembers (file : Nat) : List (String × Json) → List (String × Draft)
  | [] => []
  | (key, value) :: rest => (key, of file value) :: ofMembers file rest
end

end Draft

namespace ModuleDef

/-- Loads a JSON value as a module of a file. -/
def ofJson (file : Nat) (json : Json) : LoadM ModuleDef := do
  let m ← Draft.Members.of "Module" (.of file json)
  m.module (← m.span (.onLine file 1 1 1) file)

/-- Loads a text as a module of a file. -/
def ofText (file : Nat) (text : String) : LoadM ModuleDef :=
  match Json.read? text with
  | some json => ofJson file json
  | none => throw .json

/-- Runs the loading of a module with a table of names. -/
def load (action : LoadM ModuleDef) (names : NameTable) : Except LoadError ModuleDef × NameTable :=
  action.run.run names

end ModuleDef

end Bindery
