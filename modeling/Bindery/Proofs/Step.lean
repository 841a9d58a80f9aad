import Bindery.Binding
import Bindery.Proofs.Closures
import Bindery.Proofs.Constants
import Bindery.Proofs.Exposure
import Mathlib.Data.List.Forall2
import Mathlib.Logic.Relation
/-!
# Steps of binding

Everything that binding does to its state is a sequence of steps. A step adds a node, a symbol, a scope or a name, gives
a literal another type, gives a scope its owner, completes a declaration, or records an instance or a tuple; besides these
it only reports and uses names. An array is recorded as it is added. Each step says what holds when it is made: a node fits
the nodes it is made of, a call has the return type of its function, what is marked as a constant has a value or is a
converted constant, a symbol and a completed declaration are in order, a literal is retyped only while nothing depends on
its type.

A step also says which entries it leaves alone, by a *floor*: the literals that become operands, the literals that are
retyped, the scopes that get an owner or a template and the functions that get a body are not older than the floor. Two
scopes make an exception: one that the floor names, whose statements are being bound, and the scope of a module.
-/
namespace Bindery

/-- How old an entry may be for a step to use or change it. One older scope may get templates. The list of modules may be
left alone, and the memo, the templates and the constants may be kept coherent. Modules may be left unbound by a
sequence of steps, or half bound. -/
structure Floor where
  operands : Nat := 0
  nodes : Nat := 0
  scopes : Nat := 0
  symbols : Nat := 0
  body : Option ScopeId := none
  sealed : Bool := false
  coherent : Prop := False
  pending : SymbolId → BindStatus → Prop := fun _ _ => False

instance : LE Floor :=
  ⟨fun a b => a.operands ≤ b.operands ∧ a.nodes ≤ b.nodes ∧ a.scopes ≤ b.scopes ∧ a.symbols ≤ b.symbols ∧
    (∀ sc, b.body = some sc → a.scopes ≤ sc.index ∨ a.body = some sc) ∧ (a.sealed → b.sealed) ∧
    (a.coherent → b.coherent)⟩

theorem Floor.le_refl (floor : Floor) : floor ≤ floor :=
  ⟨Nat.le_refl _, Nat.le_refl _, Nat.le_refl _, Nat.le_refl _, fun _ h => .inr h, id, id⟩

theorem Floor.zero_le (floor : Floor) : {} ≤ floor :=
  ⟨Nat.zero_le _, Nat.zero_le _, Nat.zero_le _, Nat.zero_le _, fun _ _ => .inl (Nat.zero_le _), by rintro ⟨⟩,
    False.elim⟩

/-- What is known of the parameter of an instance from its share of the fingerprint: that it takes a value, and the type
unless that is declared. -/
def FingerprintEntry.passed? : FingerprintEntry → Option (Option Ty)
  | .value ty => some (some ty)
  | .declared => some none
  | _ => none

/-- What a template is instantiated to. -/
def Decl.isInstance : Decl → Bool
  | .function _ | .struct _ | .union _ => true
  | _ => false

/-- The parameters of a function without its receiver. -/
def FunctionDecl.valueParams (own : FunctionDecl) : List SymbolId := own.params.drop own.receiver.toList.length

mutual

/-- The names that a statement defines, with those in a modifier block. -/
def Syntax.definedNames : Syntax → List String
  | .mk _ form => form.definedNames

def Form.definedNames : Form → List String
  | .modified _ body => Bindery.definedNames body
  | .define name .. => [name]
  | _ => []

/-- The names that the statements of a body define. -/
def definedNames : List Syntax → List String
  | [] => []
  | tree :: rest => tree.definedNames ++ definedNames rest

end

namespace Program

/-- A symbol of the table that nodes may refer to. -/
structure Finished (p : Program) (x : SymbolId) : Prop where
  range : x.index < p.symbols.size
  finished : (p.decl x).isFinished

/-- A node is typed by its operands, which are in the table, a name leads to its variable, what is called has a return
type, and nothing that the node refers to is a template or an alias. -/
structure Fits (p : Program) (node : Node) : Prop where
  children : ∀ m ∈ node.kind.children, m.index < p.nodes.size
  typed : p.Typed p.ReachesField node
  void : node.kind.holdsReturn → node.ty = .void
  literal : ∀ value, node.kind = .literal value true → (∃ i, value = .int i) ∧ p.isIntegral node.ty
  named : ∀ x hops, node.kind = .valueName x hops →
    x.index < p.symbols.size ∧ (∀ tag target, p.decl x ≠ .valueAlias tag target) ∧ p.Way x x hops
  called : ∀ f args, node.kind = .call f args → node.ty ≠ .unknown ∧ ∃ own, p.function? f = some own ∧ own.ret.isSome
  symbols : ∀ x ∈ node.kind.symbols, p.Finished x
  folds : p.Folds node

/-- What may be marked as a constant: what has a value, and what a constant is converted to. -/
def Marks (p : Program) (n : NodeId) : Prop :=
  (∃ value, p.eval n = .ok value) ∨ ∃ m step, (p.node n).kind = .cast m step ∧ p.isConstant m

/-- What holds of a node when it is added: a call has the return type of its function, a size is that of its type, a
literal that may still be retyped has the smallest type that holds it, and what is marked as a constant may be. -/
structure Fresh (p : Program) (floor : Floor) (node : Node) : Prop where
  called : ∀ f args own, node.kind = .call f args → p.function? f = some own → own.ret = some node.ty
  sized : ∀ target size, node.kind = .sizeOf target size → size = p.sizeOf target
  natural : floor.coherent → node.IsNatural
  marks : ∀ n, node.kind = .constExpr n → p.Marks n

/-- The receiver of a function is a parameter of its scope and points to the struct that the function belongs to. -/
def Receives (p : Program) (ownScope : Option ScopeId) (own : FunctionDecl) : Prop :=
  ∀ r, own.receiver = some r → ∃ owner index, own.owner = some owner ∧
    p.decl r = .parameter (.pointer (.direct owner)) index ∧ ownScope = some (p.symbol r).scope

/-- A statement of the body of a function names only variables of the function or exposed ones, and returns what the
function returns. A jump leaves it only to a label around a default. -/
structure InBody (p : Program) (f : SymbolId) (own : FunctionDecl) (n : NodeId) : Prop where
  range : n.index < p.nodes.size
  names : ∀ x, p.Names n x → (p.decl x).isVariable → p.Home (p.symbol x).scope f ∨ p.Exposed x
  returns : own.role ≠ .generatorStep → ∀ ty, p.Returns n ty → own.ret = some ty
  jumps : ∀ again l, p.Leaves n again l → p.HoldsDefault (p.symbol l).scope

/-- The default value of a field in a scope names what is in sight there, and does not return. A jump leaves it only to a
label around the field or around another default. -/
structure Default (p : Program) (sc : ScopeId) (n : NodeId) : Prop where
  range : n.index < p.nodes.size
  names : ∀ x, p.Names n x → p.InSight sc x
  returns : ∀ ty, ¬ p.Returns n ty
  jumps : ∀ again l, p.Leaves n again l →
    (p.symbol l).scope ∈ p.ancestors sc ∨ p.HoldsDefault (p.symbol l).scope

/-- The scopes that a function stands in and has are older than a scope. -/
structure Precedes (p : Program) (f : SymbolId) (sc : ScopeId) : Prop where
  range : f.index < p.symbols.size
  scope : (p.symbol f).scope.index < sc.index
  own : ∀ body, (p.symbol f).ownScope = some body → body.index < sc.index

/-- What stands in a scope of which it is not the owner: the entry of a module in the scope of the module. -/
structure Opening (p : Program) (ownScope : Option ScopeId) (e : SymbolId) : Prop where
  range : e.index < p.symbols.size
  own : (p.symbol e).ownScope = none
  scope : ownScope = some (p.symbol e).scope

/-- The fields of a struct are its own, its method is a function, and the field that takes its elements is one of the
fields and has the type of the elements. -/
structure Shaped (p : Program) (id : SymbolId) (own : StructDecl) : Prop where
  fields : p.HasFields id own.fields
  method : ∀ f, own.method = some f → (p.function? f).isSome
  element : ∀ f, own.elementField = some f →
    f ∈ own.fields ∧ ∃ field, p.field? f = some field ∧ own.element = some field.ty

/-- What holds of the declaration of a symbol. -/
def InOrder (p : Program) (id : SymbolId) (x : Symbol) : Prop :=
  match x.decl with
  | .builtin own => own = .void ∨ ∃ name, Builtin.all[id.index]? = some (name, own)
  | .enum own => ∃ bits signed, p.scalar? own.base = some (.int bits signed)
  | .valueAlias _ t =>
    t.index < p.symbols.size ∧ (∀ tag u, p.decl t ≠ .valueAlias tag u) ∧ p.InSight x.scope t
  | .field own =>
    (∀ n, own.default = some n → p.Default x.scope n) ∧ ∀ captured, own.captured = some captured → p.Keeping own captured
  | .struct own | .union own => p.Shaped id own
  | .function own => p.Closes x.ownScope own ∧ p.Receives x.ownScope own ∧ (∀ n ∈ own.body, p.InBody id own n) ∧
      (own.ret = none → own.body = [])
  | .parameter .. | .localVar _ => (p.scope x.scope).kind ≠ .module
  | .module own => (own.status = .idle ↔ own.entry = none) ∧
      (∀ sc, x.ownScope = some sc → (p.scope sc).kind = .module) ∧
      (∀ e, own.entry = some e → (p.function? e).isSome ∧ p.Opening x.ownScope e) ∧ x.ownScope.isSome
  | .template own => own.scope.index < p.scopes.size ∧ x.ownScope = none ∧ own.role.captures = false
  | .label own => (p.scope x.scope).kind = .block ∧ ∀ f, own.function = some f → p.Precedes f x.scope
  | .array _ => x.ownScope = none
  | .overloadSet templates => ∀ t ∈ templates, t.index < p.symbols.size
  | .constAlias _ n => n.index < p.nodes.size
  | _ => True

/-- A symbol is in order: its scopes are in the table and of the right kind, and so is its declaration. -/
structure Admits (p : Program) (id : SymbolId) (x : Symbol) : Prop where
  scope : x.scope.index < p.scopes.size
  own : ∀ sc, x.ownScope = some sc → sc.index < p.scopes.size ∧ (p.scope sc).kind ≠ .block ∧
    ((p.scope sc).kind = .function ↔ ∃ own, x.decl = .function own)
  inOrder : p.InOrder id x

/-- No template is declared in a scope. -/
def Bare (p : Program) (sc : ScopeId) : Prop := ∀ x own, p.template? x = some own → (p.symbol x).scope ≠ sc

/-- Templates may be declared in a scope. If it belongs to a module, the module is being bound. -/
structure Declares (p : Program) (floor : Floor) (sc : ScopeId) : Prop where
  place : floor.scopes ≤ sc.index ∨ floor.body = some sc ∨ (p.scope sc).kind = .module
  begun : floor.coherent → ∀ m own, p.module? m = some own → (p.symbol m).ownScope = some sc → own.status ≠ .idle

/-- A symbol may be added. Its scope is its own; a template has no instances then, and the scope of a module no
templates. A label stands in a scope that is not older than the floor, and neither is a literal that defines a constant,
which has the smallest type that holds it. What defines a constant has a value. An overload set is never added, but a
template becomes one. -/
structure Addable (p : Program) (floor : Floor) (x : Symbol) : Prop where
  admits : p.Admits p.nextSymbol x
  builtin : ∀ own, x.decl ≠ .builtin own
  own : ∀ sc, x.ownScope = some sc → floor.scopes ≤ sc.index ∧ ∀ y, (p.symbol y).ownScope ≠ some sc
  module : ∀ own, x.decl = .module own → own.entry = none ∧ ∀ sc, x.ownScope = some sc → p.Bare sc
  template : ∀ own, x.decl = .template own → (floor.coherent → own.instances = []) ∧ p.Declares floor x.scope
  label : ∀ own, x.decl = .label own → floor.scopes ≤ x.scope.index
  constant : ∀ tag n, x.decl = .constAlias tag n →
    (p.Adaptable n → floor.operands ≤ n.index) ∧ (floor.coherent → (p.node n).IsNatural) ∧ (p.constValue? n).isSome
  overloads : ∀ templates, x.decl ≠ .overloadSet templates

/-- A tuple whose fields have given types. -/
def TupleOf (p : Program) (id : SymbolId) (types : List Ty) : Prop :=
  ∃ own, p.decl id = .struct own ∧ own.kind = .tuple ∧ own.template = none ∧
    List.Forall₂ (fun field ty => ∃ own, p.field? field = some own ∧ own.ty = ty) own.fields types

/-- The body of the template of an instance defines names. A closure is made for a function, not from such a body. -/
def Defines (p : Program) (x : SymbolId) (names : List String) : Prop :=
  ¬ p.IsClosure x ∧ ∃ t own source, (p.decl x).origin? = some t ∧ p.template? t = some own ∧
    own.source = .struct source ∧ definedNames source.body = names

/-- A struct or a union may get a field. A tuple that is found by its types gets none. An instance gets what its body
defines: the field is found in the scope of the instance under its name, and was not added before. -/
structure Gains (p : Program) (owner field : SymbolId) : Prop where
  tuple : ∀ types, (types, owner) ∉ p.tuples
  defined : ∀ names, p.Defines owner names → (p.symbol field).name ∈ names ∧ field ∉ (p.decl owner).fields ∧
    ∃ sc, (p.symbol owner).ownScope = some sc ∧ (p.scope sc).find? (p.symbol field).name = some field

/-- A template may be listed behind others by a symbol that its name leads to: none of them has its arity. -/
structure Joins (p : Program) (id : SymbolId) (listed : List SymbolId) (t : SymbolId) : Prop where
  named : (p.scope (p.symbol t).scope).find? (p.symbol t).name = some id
  arity : ∃ own, p.template? t = some own ∧ ∀ u ∈ listed, ∀ own', p.template? u = some own' → own'.arity ≠ own.arity

/-- The template that a symbol stands for was copied to the last symbol. -/
structure Copied (p : Program) (id moved : SymbolId) : Prop where
  ne : moved ≠ id
  template : p.template? moved = p.template? id
  name : (p.symbol moved).name = (p.symbol id).name
  scope : (p.symbol moved).scope = (p.symbol id).scope
  last : moved.index + 1 = p.symbols.size

/-- The templates that an overload set comes to list. With the second one under its name, a template moves to a symbol of
its own and leaves its place to the set; the ones after that join the set. -/
inductive Gathers (p : Program) (id : SymbolId) : List SymbolId → Prop
  | first {own : TemplateDecl} {moved added : SymbolId} : p.decl id = .template own → p.Copied id moved →
      p.Joins id [moved] added → added.index + 2 = p.symbols.size → Gathers p id [moved, added]
  | next {templates : List SymbolId} {added : SymbolId} : p.decl id = .overloadSet templates →
      p.Joins id templates added → added.index + 1 = p.symbols.size → Gathers p id (templates ++ [added])

/-- A declaration may be completed to another one. -/
structure Completes (p : Program) (id : SymbolId) (d : Decl) : Prop where
  range : id.index < p.symbols.size
  later : (p.decl id).Later d
  admits : p.Admits id { p.symbol id with decl := d }
  entry : ∀ own e, d = .module own → own.entry = some e →
    (∃ own', p.module? id = some own' ∧ own'.entry = some e) ∨ p.symbols.size = e.index + 1
  overloads : ∀ templates, d = .overloadSet templates → p.Gathers id templates
  fields : ∀ field ∈ d.fields.drop (p.decl id).fields.length, p.Gains id field

/-- A declaration is completed apart from instances: these keep their parameters, and a template that has one stays what
it is. -/
structure Amends (p : Program) (floor : Floor) (id : SymbolId) (d : Decl) : Prop extends p.Completes id d where
  template : ∀ own, p.decl id = .template own → (floor.coherent → own.instances = []) ∧ ∀ own', d ≠ .template own'
  memo : ∀ e ∈ p.memo, e.2 = id → ∀ a b, p.decl id = .function a → d = .function b →
    b.params = a.params ∧ b.receiver = a.receiver
  body : id.index < floor.symbols → ∀ a b, p.decl id = .function a → d = .function b → b.body = a.body

/-- One change of a program. -/
inductive Edit (floor : Floor) (p : Program) : Program → Prop
  | node (n : Node) : p.Fits n → (∀ o ∈ n.kind.operands, p.Adaptable o → floor.operands ≤ o.index) → p.Fresh floor n →
      Edit floor p (p.addNode n)
  | retype (id : NodeId) (ty : Ty) : p.adaptsTo id ty → floor.nodes ≤ id.index → p.Loose id →
      Edit floor p (p.modifyNode id ({ · with ty }))
  | symbol (x : Symbol) : p.Addable floor x → (∀ own, x.decl ≠ .array own) → Edit floor p (p.addSymbol x)
  | name (sc : ScopeId) (name : String) (id : SymbolId) : (p.scope sc).find? name = none →
      id.index < p.symbols.size → (p.symbol id).scope = sc → (p.symbol id).name = name →
      Edit floor p (p.modifyScope sc (·.insert name id))
  | other (sc : ScopeId) (name : String) (id : SymbolId) : (p.scope sc).find? name = none →
      id.index < p.symbols.size → (p.symbol id).scope = sc → (p.symbol id).name = name →
      Edit floor p (p.modifyScope sc (·.insertOther name id))
  | scope (kind : ScopeKind) (parent : ScopeId) : parent.index < p.scopes.size →
      Edit floor p (p.addScope { kind, parent, owner := none })
  | owner (sc : ScopeId) (f : SymbolId) : floor.scopes ≤ sc.index → (p.scope sc).owner = none →
      (p.symbol f).ownScope = some sc →
      ((p.scope sc).kind = .function → p.mayCapture f = false ∨ p.scopes.size = sc.index + 1) →
      Edit floor p (p.modifyScope sc ({ · with owner := some f }))
  | decl (id : SymbolId) (d : Decl) : p.Amends floor id d → Edit floor p (p.setDecl id d)
  | array (x : Symbol) (own : ArrayDecl) : p.Addable floor x → x.decl = .array own →
      p.arrays.lookup (own.element, own.length) = none →
      Edit floor p { p.addSymbol x with arrays := ((own.element, own.length), p.nextSymbol) :: p.arrays }
  | tuple (types : List Ty) (id : SymbolId) : p.tuples.lookup types = none → p.TupleOf id types →
      Edit floor p { p with tuples := (types, id) :: p.tuples }
  | modules (symbols : List SymbolId) : floor.sealed = false →
      Edit floor p { p with modules := p.modules ++ symbols }

/-- The parameters of an instance take what its fingerprint says. -/
def Matches (p : Program) (fingerprint : Fingerprint) (own : FunctionDecl) : Prop :=
  List.Forall₂ (fun known param => ∃ ty, (p.decl param).valueType? = some ty ∧ ∀ u, known = some u → ty = u)
    (fingerprint.filterMap (·.passed?)) own.valueParams

/-- A value is that of a constant. -/
def Computes (p : Program) (value : ConstValue) : Prop :=
  ∃ n : NodeId, n.index < p.nodes.size ∧ p.constValue? n = some value

/-- A symbol may be recorded as the instance of a template with a fingerprint that has none yet. -/
structure Enters (p : Program) (template : SymbolId) (fingerprint : Fingerprint) (made : SymbolId) : Prop where
  declared : (p.template? template).isSome
  origin : (p.decl made).origin? = some template
  unknown : p.knownInstance? template fingerprint = none
  unrecorded : ∀ e ∈ p.memo, e.2 ≠ made

end Program

namespace BindState

/-- What holds of a recorded instance. Its fingerprint has the values of constants, and its parameters are as the
fingerprint says unless something went wrong. -/
structure Records (s : BindState) (fingerprint : Fingerprint) (made : SymbolId) : Prop where
  isInstance : (s.program.decl made).isInstance
  constants : ∀ ty value, .const ty value ∈ fingerprint → s.program.Computes value
  function : ∀ own, s.program.function? made = some own → s.log.errorCount = 0 → s.program.Matches fingerprint own

/-- One step of binding. -/
inductive Step (floor : Floor) (s : BindState) : BindState → Prop
  | edit (program : Program) : s.program.Edit floor program → Step floor s { s with program }
  | quiet (names : NameTable) (log : Log) : s.log.errorCount ≤ log.errorCount → Step floor s { s with names, log }
  | record (template : SymbolId) (fingerprint : Fingerprint) (made : SymbolId) : floor.symbols ≤ made.index →
      s.Records fingerprint made → s.program.Enters template fingerprint made →
      Step floor s { s with program := s.program.registerInstance template fingerprint made }

/-- A sequence of steps. -/
abbrev Steps (floor : Floor) : BindState → BindState → Prop := Relation.ReflTransGen (Step floor)

end BindState

end Bindery
