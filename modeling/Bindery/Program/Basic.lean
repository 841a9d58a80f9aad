import Bindery.Program.Scope
import Bindery.Program.Symbol
/-!
# Programs

A program is three tables that only grow: symbols, scopes and nodes. Besides them it remembers which instances of
templates, which array types and which tuple types exist, so that each is made once. Every access is total: a place
outside a table holds a default.
-/
namespace Bindery

/-- What a parameter of a template stands for in an instance: an untyped parameter takes the type of its argument, a
type parameter a type, a constant one a value; a parameter with a declared type is determined by those before it. -/
inductive FingerprintEntry where
  | value (ty : Ty)
  | type (ty : Ty)
  | const (ty : Ty) (value : ConstValue)
  | declared
  deriving DecidableEq, Repr

/-- What tells the instances of a template apart. -/
abbrev Fingerprint := List FingerprintEntry

/-- Everything that binding produces. -/
structure Program where
  symbols : Array Symbol := #[]
  scopes : Array Scope := #[]
  nodes : Array Node := #[]
  modules : List SymbolId := []
  pointerWidth : Nat := 64
  memo : List ((SymbolId × Fingerprint) × SymbolId) := []
  arrays : List ((Ty × UInt64) × SymbolId) := []
  tuples : List (List Ty × SymbolId) := []

namespace Program

instance : Inhabited Program := ⟨{}⟩

def symbol (p : Program) (id : SymbolId) : Symbol := p.symbols.getD id.index default

def scope (p : Program) (id : ScopeId) : Scope := p.scopes.getD id.index default

def node (p : Program) (id : NodeId) : Node := p.nodes.getD id.index default

/-- The declaration of a symbol. -/
def decl (p : Program) (id : SymbolId) : Decl := (p.symbol id).decl

/-- The symbol, scope or node that is added next. -/
def nextSymbol (p : Program) : SymbolId := ⟨p.symbols.size⟩

def nextScope (p : Program) : ScopeId := ⟨p.scopes.size⟩

def nextNode (p : Program) : NodeId := ⟨p.nodes.size⟩

def addSymbol (p : Program) (symbol : Symbol) : Program := { p with symbols := p.symbols.push symbol }

def addScope (p : Program) (scope : Scope) : Program := { p with scopes := p.scopes.push scope }

def addNode (p : Program) (node : Node) : Program := { p with nodes := p.nodes.push node }

def modifySymbol (p : Program) (id : SymbolId) (f : Symbol → Symbol) : Program :=
  { p with symbols := p.symbols.modify id.index f }

def modifyScope (p : Program) (id : ScopeId) (f : Scope → Scope) : Program :=
  { p with scopes := p.scopes.modify id.index f }

def modifyNode (p : Program) (id : NodeId) (f : Node → Node) : Program :=
  { p with nodes := p.nodes.modify id.index f }

def setDecl (p : Program) (id : SymbolId) (decl : Decl) : Program := p.modifySymbol id ({ · with decl })

/-- Declares a symbol in a scope. A name that the scope has already is refused, with the symbol that has it. -/
def declare (p : Program) (scope : ScopeId) (symbol : Symbol) : Except SymbolId (SymbolId × Program) :=
  match (p.scope scope).find? symbol.name with
  | some existing => .error existing
  | none => .ok (p.nextSymbol, (p.addSymbol symbol).modifyScope scope (·.insert symbol.name p.nextSymbol))

/-- Declares an imported name. -/
def declareOther (p : Program) (scope : ScopeId) (symbol : Symbol) : Except SymbolId (SymbolId × Program) :=
  match (p.scope scope).find? symbol.name with
  | some existing => .error existing
  | none => .ok (p.nextSymbol, (p.addSymbol symbol).modifyScope scope (·.insertOther symbol.name p.nextSymbol))

/-! ## Declarations by kind -/

def module? (p : Program) (id : SymbolId) : Option ModuleDecl :=
  match p.decl id with
  | .module own => some own
  | _ => none

def function? (p : Program) (id : SymbolId) : Option FunctionDecl :=
  match p.decl id with
  | .function own => some own
  | _ => none

/-- A struct or a union. -/
def struct? (p : Program) (id : SymbolId) : Option StructDecl :=
  match p.decl id with
  | .struct own | .union own => some own
  | _ => none

def template? (p : Program) (id : SymbolId) : Option TemplateDecl :=
  match p.decl id with
  | .template own => some own
  | _ => none

def field? (p : Program) (id : SymbolId) : Option FieldDecl :=
  match p.decl id with
  | .field own => some own
  | _ => none

def modifyModule (p : Program) (id : SymbolId) (f : ModuleDecl → ModuleDecl) : Program :=
  match p.decl id with
  | .module own => p.setDecl id (.module (f own))
  | _ => p

def modifyFunction (p : Program) (id : SymbolId) (f : FunctionDecl → FunctionDecl) : Program :=
  match p.decl id with
  | .function own => p.setDecl id (.function (f own))
  | _ => p

def modifyStruct (p : Program) (id : SymbolId) (f : StructDecl → StructDecl) : Program :=
  match p.decl id with
  | .struct own => p.setDecl id (.struct (f own))
  | .union own => p.setDecl id (.union (f own))
  | _ => p

def modifyTemplate (p : Program) (id : SymbolId) (f : TemplateDecl → TemplateDecl) : Program :=
  match p.decl id with
  | .template own => p.setDecl id (.template (f own))
  | _ => p

end Program

end Bindery
