import Bindery.Constant.Eval
import Bindery.Diagnostic.Log
import Bindery.Dump.Tree
import Bindery.Program.Layout
import Bindery.Program.Summary
import Bindery.Program.TypeText
/-!
# Dumps of programs

The symbols, scopes and nodes of a program as JSON. Nodes are dumped as trees; symbols and scopes appear by number.
-/
namespace Bindery

def SymbolId.dump (id : SymbolId) : Json := .nat id.index

def ScopeId.dump (id : ScopeId) : Json := .nat id.index

namespace ConstValue

/-- A value, under the name of its kind; integers as text, since they may be wide. -/
def dumpMembers : ConstValue → List (String × Json)
  | .int value => [("int", .string (toString value))]
  | .float value => [("float", value.dump)]
  | .bool value => [("bool", .bool value)]
  | .null => [("null", .bool true)]

def dump (value : ConstValue) : Json := .object value.dumpMembers

end ConstValue

def ConstError.dump (error : ConstError) : Json :=
  let kind := match error with
    | .notConstant => "NotConstant"
    | .divisionByZero => "DivisionByZero"
  .object [("error", .string kind), ("message", .string error.message)]

mutual
/-- A diagnostic with its notes. -/
def Diagnostic.dump : Diagnostic → Json
  | ⟨file, span, text, code, kind, category, related⟩ =>
    let own : Diagnostic := ⟨file, span, text, code, kind, category, related⟩
    .object ([("pos", span.dump), ("text", .string own.describe)] ++
      if related.isEmpty then [] else [("related", .array (Diagnostic.dumpList related))])

def Diagnostic.dumpList : List Diagnostic → List Json
  | [] => []
  | diagnostic :: rest => diagnostic.dump :: Diagnostic.dumpList rest
end

def Log.dump (log : Log) : Json := .array (Diagnostic.dumpList log.entries)

def ModuleSummary.dump (summary : ModuleSummary) : Json :=
  .object [("name", .string summary.name), ("entry", summary.entry.dump), ("statements", .nat summary.statements),
    ("functions", .nat summary.functions), ("nodes", .nat summary.nodes)]

def Arity.dump (arity : Arity) : Json :=
  .array [.nat arity.required, .nat arity.default, .bool arity.vararg, .bool arity.receiver]

namespace Program

def typeDump (p : Program) (ty : Ty) : Json := .string (p.typeText ty)

/-- The value of a node, or why it has none. -/
def evalDump (p : Program) (id : NodeId) : Json :=
  match p.eval id with
  | .ok value => value.dump
  | .error error => error.dump

/-- The parts of a node, whose children are dumped by `node`. -/
def kindDump (p : Program) (node : NodeId → Json) (id : NodeId) : NodeKind → List (String × Json)
  | .literal value adaptable => [("value", value.dump), ("adaptable", .bool adaptable)]
  | .stringLiteral value => [("value", .string value)]
  | .typeName target => [("target", p.typeDump target)]
  | .valueName symbol captures =>
    [("symbol", symbol.dump), ("captures", .list (fun hop => .array [hop.scope.dump, hop.field.dump]) captures)]
  | .fieldName base field => [("base", node base), ("field", field.dump)]
  | .indexName base index => [("base", node base), ("index", node index)]
  | .constExpr inner => [("inner", node inner), ("folded", p.evalDump id)]
  | .cast value step => [("value", node value), ("step", .string step.kind.tag), ("to", p.typeDump step.target)]
  | .addressOf value | .referenceOf value | .dereference value => [("value", node value)]
  | .defer value | .yield value | .await value => [("value", node value)]
  | .unary op operand => [("op", .string op.symbol), ("operand", node operand)]
  | .arithmetic op left right | .shift op left right | .condition op left right =>
    [("op", .string op.symbol), ("left", node left), ("right", node right)]
  | .pointerArithmetic op pointer offset =>
    [("op", .string op.symbol), ("pointer", node pointer), ("offset", node offset)]
  | .pointerDifference left right | .coalesce left right => [("left", node left), ("right", node right)]
  | .ternary condition whenTrue whenFalse =>
    [("cond", node condition), ("then", node whenTrue), ("otherwise", node whenFalse)]
  | .call function args => [("function", function.dump), ("args", .list node args)]
  | .callIndirect callee args => [("callee", node callee), ("args", .list node args)]
  | .initializer fields => [("fields", .list (fun entry => .array [entry.1.dump, node entry.2]) fields)]
  | .sizeOf target size => [("target", p.typeDump target), ("size", .string (toString size))]
  | .new target count constructor args =>
    [("target", p.typeDump target), ("count", .optional node count),
      ("constructor", .optional SymbolId.dump constructor), ("args", .list node args)]
  | .delete value disposer => [("value", node value), ("disposer", .optional SymbolId.dump disposer)]
  | .atomic op target value => [("op", .string op.tag), ("target", node target), ("value", node value)]
  | .definition symbol value => [("symbol", symbol.dump), ("value", .optional node value)]
  | .assignment target value => [("target", node target), ("value", node value)]
  | .compoundAssignment op kind target value =>
    [("op", .string op.symbol), ("compound", .string kind.tag), ("target", node target), ("value", node value)]
  | .block scope label body =>
    [("scope", scope.dump), ("label", .optional SymbolId.dump label), ("body", .list node body)]
  | .branch condition whenTrue whenFalse =>
    [("cond", node condition), ("then", node whenTrue), ("otherwise", .optional node whenFalse)]
  | .loop scope label init condition step body =>
    [("scope", scope.dump), ("label", label.dump), ("init", .optional node init),
      ("cond", .optional node condition), ("step", .optional node step), ("body", node body)]
  | .forIn scope label item state init step body =>
    [("scope", scope.dump), ("label", label.dump), ("variable", item.dump), ("state", state.dump),
      ("init", node init), ("step", step.dump), ("body", node body)]
  | .returns value => [("value", .optional node value)]
  | .breaks label | .continues label => [("label", label.dump)]
  | .yieldFrom value step => [("value", node value), ("step", step.dump)]

/-- The tree of a node, which is no deeper than a number. -/
def nodeDumpUpTo (p : Program) : Nat → NodeId → Json
  | 0, _ => .null
  | n + 1, id =>
    let node := p.node id
    .object ([("k", .string node.kind.name), ("t", p.typeDump node.ty), ("p", node.pos.dump)] ++
      p.kindDump (nodeDumpUpTo p n) id node.kind)

/-- The tree of a node. The children of a node stand before it in the table. -/
def nodeDump (p : Program) (id : NodeId) : Json := p.nodeDumpUpTo (id.index + 1) id

/-- The parts of a declaration. -/
def declParts (p : Program) : Decl → List (String × Json)
  | .builtin own => [("builtin", .string own.tag)]
  | .module own => [("status", .string own.status.tag), ("entry", .optional SymbolId.dump own.entry)]
  | .template own =>
    let side := match own.source with
      | .function _ => "function"
      | .struct _ => "struct"
    [("syntax", .string side), ("params", .nat own.source.params.length), ("syntaxPos", own.source.pos.dump),
      ("arity", own.arity.dump), ("scope", own.scope.dump), ("role", .string own.role.tag),
      ("functionKind", .string own.functionKind.tag), ("modifiers", own.modifiers.dump),
      ("owner", .optional SymbolId.dump own.owner), ("instances", .list SymbolId.dump own.instances)]
  | .overloadSet templates => [("list", .list SymbolId.dump templates)]
  | .struct own | .union own =>
    [("kind", .string own.kind.tag), ("fields", .list SymbolId.dump own.fields),
      ("template", .optional SymbolId.dump own.template), ("method", .optional SymbolId.dump own.method),
      ("element", .optional p.typeDump own.element), ("elementField", .optional SymbolId.dump own.elementField)]
  | .array own => [("element", p.typeDump own.element), ("length", .string (toString own.length))]
  | .enum own =>
    [("base", p.typeDump own.base), ("members", .list (fun member => .array [member.1.dump, member.2.dump]) own.members)]
  | .function own =>
    [("role", .string own.role.tag), ("params", .list SymbolId.dump own.params), ("ret", .optional p.typeDump own.ret),
      ("body", .list p.nodeDump own.body), ("template", .optional SymbolId.dump own.template),
      ("owner", .optional SymbolId.dump own.owner), ("receiver", .optional SymbolId.dump own.receiver),
      ("abi", .optional .string own.abi), ("modifiers", own.modifiers.dump), ("async", .bool own.isAsync)]
  | .label own => [("isLoop", .bool own.isLoop), ("function", .optional SymbolId.dump own.function)]
  | .typeAlias tag ty => [("tag", .string tag.tag), ("ty", p.typeDump ty)]
  | .constAlias tag value => [("tag", .string tag.tag), ("value", p.nodeDump value)]
  | .valueAlias tag target => [("tag", .string tag.tag), ("target", target.dump)]
  | .parameter ty index => [("ty", p.typeDump ty), ("index", .nat index)]
  | .localVar ty | .globalVar ty => [("ty", p.typeDump ty)]
  | .field own =>
    [("ty", p.typeDump own.ty), ("owner", own.owner.dump), ("index", .nat own.index),
      ("captured", .optional (fun source => .array [source.origin.dump, source.source.dump]) own.captured),
      ("default", .optional p.nodeDump own.default)]

def declDump (p : Program) (decl : Decl) : Json := .object (("d", .string decl.kindName) :: p.declParts decl)

def symbolDump (p : Program) (id : SymbolId) : Json :=
  let symbol := p.symbol id
  .object [("id", id.dump), ("name", .string symbol.name), ("in", symbol.scope.dump),
    ("own", .optional ScopeId.dump symbol.ownScope), ("pos", symbol.pos.dump), ("decl", p.declDump symbol.decl)]

def scopeParts (p : Program) (id : ScopeId) : List (String × Json) :=
  let scope := p.scope id
  let entries : List (String × SymbolId) → Json := .list fun entry => .array [.string entry.1, entry.2.dump]
  [("id", id.dump), ("kind", .string scope.kind.tag), ("parent", .optional ScopeId.dump scope.parent),
    ("owner", .optional SymbolId.dump scope.owner), ("symbols", entries scope.symbols),
    ("others", entries scope.others)]

/-- The numbers from `first` up to a size. -/
def numbers (first size : Nat) : List Nat := (List.range (size - first)).map (first + ·)

/-- The symbols that are not builtin. -/
def symbolsDump (p : Program) : Json := .list (fun i => p.symbolDump ⟨i⟩) (numbers Builtin.all.length p.symbols.size)

/-- The scopes inside the root scope. -/
def scopesDump (p : Program) : Json := .list (fun i => .object (p.scopeParts ⟨i⟩)) (numbers 2 p.scopes.size)

/-- The properties of a type by name. -/
def typeFlags (p : Program) (ty : Ty) : List (String × Bool) :=
  [("unknown", ty.isUnknown), ("pointer", ty.isPointer), ("reference", ty.isReference), ("indirect", ty.isIndirect),
    ("void", isVoid ty), ("integral", p.isIntegral ty), ("numeric", p.isNumeric ty), ("enum", p.isEnum ty),
    ("function", p.isFunction ty), ("aggregate", p.isAggregate ty)]

/-- All that a program says of a type. -/
def typeInfo (p : Program) (ty : Ty) : Json :=
  .object [("ty", p.typeDump ty), ("name", .string (p.typeName ty)), ("size", .string (toString (p.sizeOf ty))),
    ("align", .string (toString (p.alignOf ty))),
    ("flags", .list (fun flag => .string flag.1) ((p.typeFlags ty).filter (·.2))),
    ("pointee", .optional p.typeDump ty.pointee?), ("stripped", p.typeDump ty.stripReference),
    ("symbol", .optional SymbolId.dump ty.symbol?), ("base", .optional SymbolId.dump ty.base?),
    ("depth", .nat ty.depth), ("decl", .optional (fun decl => .string (Decl.kindName decl)) (p.typeDecl? ty)),
    ("scalar", .optional (fun scalar => .string (Scalar.tag scalar)) (p.scalar? ty)),
    ("structKind", .optional (fun kind => .string (StructKind.tag kind)) (p.structKind? ty)),
    ("memberStruct", .optional SymbolId.dump (p.memberStruct? ty))]

/-- The plans between two types, first without and then with being asked for. -/
def castInfo (p : Program) (src dst : Ty) : Json :=
  .array [.string (p.planText (p.castPlan .implicit src dst)), .string (p.planText (p.castPlan .explicit src dst))]

/-- The kinds and places of the nodes that are reached from some nodes. -/
def walkInfo (p : Program) (roots : List NodeId) : Json :=
  .list (fun id => .string s!"{(p.node id).kind.name}@{(p.node id).pos.start.describe}") (p.walk roots)

end Program

end Bindery
