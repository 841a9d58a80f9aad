import Bindery.Dump.Tag
import Bindery.Json.Writer
import Bindery.Syntax.Tree
/-!
# Dumps of trees

A syntax tree as JSON: an object for each node, with its kind, its position, and its parts. A missing part is null.
-/
namespace Bindery

/-- The sixteen hexadecimal digits of a double; all values that are not numbers look the same. -/
def Double.dump (x : Double) : Json :=
  if x.isNaN then .string "nan"
  else
    let digits := Nat.toDigits 16 x.bits.toNat
    .string (String.ofList (List.replicate (16 - digits.length) '0' ++ digits))

def Span.dump (span : Span) : Json := .string span.describe

def Modifiers.dump (modifiers : Modifiers) : Json := .list .string modifiers.keywords

def OperatorName.dump (operator : OperatorName) : Json :=
  let side := match operator with
    | .binary _ => "binary"
    | .unary _ => "unary"
  .array [.string side, .string operator.declaredName]

namespace Syntax

mutual

/-- The dump of a tree. -/
def dump : Syntax → Json
  | .mk pos form =>
    .object ([("kind", .string form.kindName), ("pos", pos.dump)] ++
      (if form.isTerminator then [("terminator", .bool true)] else []) ++ dumpForm form)

/-- The parts of a form. -/
def dumpForm : Form → List (String × Json)
  | .int value suffix =>
    [("value", .string (toString value)), ("suffix", .optional (fun s => .string (IntSuffix.typeName s)) suffix)]
  | .float value single => [("value", value.dump), ("single", .bool single)]
  | .bool value => [("value", .bool value)]
  | .null => []
  | .string value => [("value", .string value)]
  | .name name => [("name", .string name)]
  | .dot base member => [("base", dump base), ("member", .string member)]
  | .index base index => [("base", dump base), ("index", dump index)]
  | .unary op operand => [("op", .string op.symbol), ("operand", dump operand)]
  | .binary op left right =>
    [("op", .string op.symbol), ("family", .string op.family.tag), ("compound", .bool op.isCompound),
      ("left", dump left), ("right", dump right)]
  | .assign op target value =>
    [("op", .optional (fun op => .string (BinaryOp.symbol op)) op), ("target", dump target), ("value", dump value)]
  | .ternary condition whenTrue whenFalse =>
    [("cond", dump condition), ("then", dump whenTrue), ("otherwise", dump whenFalse)]
  | .cast value target intent => [("value", dump value), ("target", dump target), ("cast", .string intent.tag)]
  | .call callee args trailing =>
    [("callee", dump callee), ("args", .array (dumpArguments args)), ("with", dumpOption trailing)]
  | .initializer type fields => [("type", dump type), ("fields", .array (dumpArguments fields))]
  | .tuple items => [("items", .array (dumpList items))]
  | .sizeOf target => [("target", dump target)]
  | .new type count args =>
    [("type", dump type), ("count", dumpOption count), ("args", .array (dumpArguments args))]
  | .delete value => [("value", dump value)]
  | .atomic op target value =>
    [("op", .string op.tag), ("bitwise", .bool op.isBitwise), ("target", dump target), ("value", dump value)]
  | .lambda function => [("function", dumpFunction function)]
  | .pointerType pointee => [("pointee", dump pointee)]
  | .referenceType pointee => [("pointee", dump pointee)]
  | .arrayType element length => [("element", dump element), ("length", dump length)]
  | .define name type value modifiers =>
    [("name", .string name), ("type", dumpOption type), ("value", dumpOption value), ("modifiers", modifiers.dump)]
  | .function function => [("function", dumpFunction function)]
  | .struct struct => dumpStruct struct
  | .enum enum => dumpEnum enum
  | .aliasAs name target => [("name", .string name), ("target", dump target)]
  | .importPath path rename => [("path", .list .string path), ("alias", .optional .string rename)]
  | .exportAs name target => [("name", .string name), ("target", dump target)]
  | .module module => [("module", dumpModule module)]
  | .foreign abi body => [("abi", .string abi), ("body", .array (dumpList body))]
  | .modified modifiers body => [("modifiers", modifiers.dump), ("body", .array (dumpList body))]
  | .block label body => [("label", .optional .string label), ("body", .array (dumpList body))]
  | .branch condition whenTrue whenFalse =>
    [("cond", dump condition), ("then", dump whenTrue), ("otherwise", dumpOption whenFalse)]
  | .loop label init condition step body =>
    [("label", .optional .string label), ("init", dumpOption init), ("cond", dumpOption condition),
      ("step", dumpOption step), ("body", dump body)]
  | .forIn label name iterable body =>
    [("label", .optional .string label), ("name", .string name), ("iterable", dump iterable), ("body", dump body)]
  | .returns value => [("value", dumpOption value)]
  | .breaks label => [("label", .optional .string label)]
  | .continues label => [("label", .optional .string label)]
  | .defer value => [("value", dump value)]
  | .yield value => [("value", dump value)]
  | .yieldFrom value => [("value", dump value)]
  | .await value => [("value", dump value)]

def dumpOption : Option Syntax → Json
  | none => .null
  | some tree => dump tree

def dumpList : List Syntax → List Json
  | [] => []
  | tree :: rest => dump tree :: dumpList rest

def dumpBody : Option (List Syntax) → Json
  | none => .null
  | some body => .array (dumpList body)

def dumpArguments : List Argument → List Json
  | [] => []
  | ⟨pos, name, value⟩ :: rest =>
    .object [("pos", pos.dump), ("name", .optional .string name), ("value", dump value)] :: dumpArguments rest

def dumpParams : List Param → List Json
  | [] => []
  | ⟨pos, name, type, default, vararg, const⟩ :: rest =>
    .object [("pos", pos.dump), ("name", .string name), ("type", dumpOption type), ("default", dumpOption default),
      ("vararg", .bool vararg), ("const", .bool const)] :: dumpParams rest

def dumpFunction : FunctionDef → Json
  | ⟨pos, name, operator, kind, params, returnType, body, modifiers⟩ =>
    .object [("pos", pos.dump), ("name", .optional .string name), ("operator", .optional OperatorName.dump operator),
      ("functionKind", .string kind.tag), ("params", .array (dumpParams params)),
      ("returnType", dumpOption returnType), ("body", dumpBody body), ("modifiers", modifiers.dump)]

def dumpStruct : StructDef → List (String × Json)
  | ⟨pos, name, form, params, body, modifiers⟩ =>
    [("name", .optional .string name), ("structKind", .string form.tag), ("params", .array (dumpParams params)),
      ("body", .array (dumpList body)), ("modifiers", modifiers.dump), ("innerPos", pos.dump)]

def dumpEnum : EnumDef → List (String × Json)
  | ⟨pos, name, base, members⟩ =>
    [("name", .string name), ("base", dumpOption base), ("members", .array (dumpMembers members)),
      ("innerPos", pos.dump)]

def dumpMembers : List EnumMember → List Json
  | [] => []
  | ⟨pos, name, value⟩ :: rest =>
    .object [("pos", pos.dump), ("name", .string name), ("value", dumpOption value)] :: dumpMembers rest

def dumpModule : ModuleDef → Json
  | ⟨pos, name, body⟩ => .object [("pos", pos.dump), ("name", .string name), ("body", .array (dumpList body))]

end

end Syntax

/-- The dump of a module. -/
def ModuleDef.dump (module : ModuleDef) : Json := Syntax.dumpModule module

end Bindery
