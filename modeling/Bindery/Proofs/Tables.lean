import Bindery.Program.Lookup
/-!
# What a program holds after a change

The tables of a program are read by place. Each change has one equation for each table: it adds an entry at the next
place or changes the entry at one place, and leaves all else alone.
-/
namespace Bindery

@[ext] theorem SymbolId.ext {a b : SymbolId} (h : a.index = b.index) : a = b := by cases a; cases b; cases h; rfl

@[ext] theorem ScopeId.ext {a b : ScopeId} (h : a.index = b.index) : a = b := by cases a; cases b; cases h; rfl

@[ext] theorem NodeId.ext {a b : NodeId} (h : a.index = b.index) : a = b := by cases a; cases b; cases h; rfl

/-- Reading a table behind its end after an entry is added there. -/
theorem getD_push {α : Type} (xs : Array α) (x d : α) (i : Nat) :
    (xs.push x).getD i d = if i = xs.size then x else xs.getD i d := by
  simp only [Array.getD_eq_getD_getElem?, Array.getElem?_push]
  split <;> simp_all

theorem getD_modify {α : Type} (xs : Array α) (f : α → α) (d : α) (i j : Nat) :
    (xs.modify i f).getD j d = if i = j ∧ j < xs.size then f (xs.getD j d) else xs.getD j d := by
  simp only [Array.getD_eq_getD_getElem?, Array.getElem?_modify]
  by_cases h : j < xs.size
  · simp only [Array.getElem?_eq_getElem h, and_true, h]
    split <;> simp
  · simp [h]

namespace Program

variable (p : Program)

/-! ## Places outside a table -/

theorem node_of_le {p : Program} {id : NodeId} (h : p.nodes.size ≤ id.index) : p.node id = default := by
  simp only [node, Array.getD_eq_getD_getElem?, Array.getElem?_eq_none h, Option.getD_none]

theorem symbol_of_le {p : Program} {id : SymbolId} (h : p.symbols.size ≤ id.index) : p.symbol id = default := by
  simp only [symbol, Array.getD_eq_getD_getElem?, Array.getElem?_eq_none h, Option.getD_none]

theorem scope_of_le {p : Program} {id : ScopeId} (h : p.scopes.size ≤ id.index) : p.scope id = default := by
  simp only [scope, Array.getD_eq_getD_getElem?, Array.getElem?_eq_none h, Option.getD_none]

/-- A symbol that is not `Void` is in the table. -/
theorem lt_of_decl {p : Program} {id : SymbolId} (h : p.decl id ≠ .builtin .void) : id.index < p.symbols.size := by
  by_cases hi : id.index < p.symbols.size
  · exact hi
  · exact absurd (by rw [decl, symbol_of_le (Nat.le_of_not_lt hi)]; rfl) h

theorem lt_of_ownScope {p : Program} {id : SymbolId} {sc : ScopeId} (h : (p.symbol id).ownScope = some sc) :
    id.index < p.symbols.size := by
  by_cases hi : id.index < p.symbols.size
  · exact hi
  · rw [symbol_of_le (Nat.le_of_not_lt hi)] at h
    cases h

theorem lt_of_owner {p : Program} {sc : ScopeId} {f : SymbolId} (h : (p.scope sc).owner = some f) :
    sc.index < p.scopes.size := by
  by_cases hi : sc.index < p.scopes.size
  · exact hi
  · rw [scope_of_le (Nat.le_of_not_lt hi)] at h
    cases h

theorem lt_of_find {p : Program} {sc : ScopeId} {name : String} {x : SymbolId}
    (h : (p.scope sc).find? name = some x) : sc.index < p.scopes.size := by
  by_cases hi : sc.index < p.scopes.size
  · exact hi
  · rw [scope_of_le (Nat.le_of_not_lt hi)] at h
    cases h

/-! ## Declarations by kind -/

section kinds

variable {p : Program} {x : SymbolId}

theorem function?_eq_some {own : FunctionDecl} : p.function? x = some own ↔ p.decl x = .function own := by
  unfold function?
  split <;> simp_all

theorem template?_eq_some {own : TemplateDecl} : p.template? x = some own ↔ p.decl x = .template own := by
  unfold template?
  split <;> simp_all

theorem struct?_eq_some {own : StructDecl} :
    p.struct? x = some own ↔ p.decl x = .struct own ∨ p.decl x = .union own := by
  unfold struct?
  split <;> simp_all

theorem field?_eq_some {own : FieldDecl} : p.field? x = some own ↔ p.decl x = .field own := by
  unfold field?
  split <;> simp_all

theorem module?_eq_some {own : ModuleDecl} : p.module? x = some own ↔ p.decl x = .module own := by
  unfold module?
  split <;> simp_all

theorem lt_of_function {own : FunctionDecl} (h : p.function? x = some own) : x.index < p.symbols.size :=
  lt_of_decl (by rw [function?_eq_some.1 h]; simp)

theorem lt_of_template {own : TemplateDecl} (h : p.template? x = some own) : x.index < p.symbols.size :=
  lt_of_decl (by rw [template?_eq_some.1 h]; simp)

theorem lt_of_field {own : FieldDecl} (h : p.field? x = some own) : x.index < p.symbols.size :=
  lt_of_decl (by rw [field?_eq_some.1 h]; simp)

theorem lt_of_module {own : ModuleDecl} (h : p.module? x = some own) : x.index < p.symbols.size :=
  lt_of_decl (by rw [module?_eq_some.1 h]; simp)

end kinds

/-! ## Nodes -/

theorem node_addNode (n : Node) (id : NodeId) :
    (p.addNode n).node id = if id = p.nextNode then n else p.node id := by
  simp only [node, addNode, getD_push, nextNode]
  congr 1
  exact propext ⟨fun h => NodeId.ext h, fun h => congrArg _ h⟩

@[simp] theorem node_addNode_next (n : Node) : (p.addNode n).node p.nextNode = n := by simp [node_addNode]

theorem node_addNode_of_lt (n : Node) {id : NodeId} (h : id.index < p.nodes.size) :
    (p.addNode n).node id = p.node id := by
  rw [node_addNode, if_neg]
  rintro rfl
  exact Nat.lt_irrefl _ h

theorem node_modifyNode (i : NodeId) (f : Node → Node) (id : NodeId) :
    (p.modifyNode i f).node id = if i = id ∧ id.index < p.nodes.size then f (p.node id) else p.node id := by
  simp only [node, modifyNode, getD_modify]
  congr 1
  exact propext ⟨fun h => ⟨NodeId.ext h.1, h.2⟩, fun h => ⟨congrArg _ h.1, h.2⟩⟩

@[simp] theorem nodes_addSymbol (x : Symbol) : (p.addSymbol x).nodes = p.nodes := rfl
@[simp] theorem nodes_addScope (x : Scope) : (p.addScope x).nodes = p.nodes := rfl
@[simp] theorem nodes_modifySymbol (i f) : (p.modifySymbol i f).nodes = p.nodes := rfl
@[simp] theorem nodes_modifyScope (i f) : (p.modifyScope i f).nodes = p.nodes := rfl
@[simp] theorem nodes_setDecl (i d) : (p.setDecl i d).nodes = p.nodes := rfl
@[simp] theorem size_nodes_addNode (n : Node) : (p.addNode n).nodes.size = p.nodes.size + 1 := by simp [addNode]
@[simp] theorem size_nodes_modifyNode (i f) : (p.modifyNode i f).nodes.size = p.nodes.size := by simp [modifyNode]

@[simp] theorem node_addSymbol (x : Symbol) (id) : (p.addSymbol x).node id = p.node id := rfl
@[simp] theorem node_addScope (x : Scope) (id) : (p.addScope x).node id = p.node id := rfl
@[simp] theorem node_modifySymbol (i f id) : (p.modifySymbol i f).node id = p.node id := rfl
@[simp] theorem node_modifyScope (i f id) : (p.modifyScope i f).node id = p.node id := rfl
@[simp] theorem node_setDecl (i d id) : (p.setDecl i d).node id = p.node id := rfl

/-! ## Symbols -/

theorem symbol_addSymbol (x : Symbol) (id : SymbolId) :
    (p.addSymbol x).symbol id = if id = p.nextSymbol then x else p.symbol id := by
  simp only [symbol, addSymbol, getD_push, nextSymbol]
  congr 1
  exact propext ⟨fun h => SymbolId.ext h, fun h => congrArg _ h⟩

@[simp] theorem symbol_addSymbol_next (x : Symbol) : (p.addSymbol x).symbol p.nextSymbol = x := by
  simp [symbol_addSymbol]

theorem symbol_addSymbol_of_lt (x : Symbol) {id : SymbolId} (h : id.index < p.symbols.size) :
    (p.addSymbol x).symbol id = p.symbol id := by
  rw [symbol_addSymbol, if_neg]
  rintro rfl
  exact Nat.lt_irrefl _ h

theorem symbol_modifySymbol (i : SymbolId) (f : Symbol → Symbol) (id : SymbolId) :
    (p.modifySymbol i f).symbol id = if i = id ∧ id.index < p.symbols.size then f (p.symbol id) else p.symbol id := by
  simp only [symbol, modifySymbol, getD_modify]
  congr 1
  exact propext ⟨fun h => ⟨SymbolId.ext h.1, h.2⟩, fun h => ⟨congrArg _ h.1, h.2⟩⟩

theorem symbol_setDecl (i : SymbolId) (d : Decl) (id : SymbolId) :
    (p.setDecl i d).symbol id =
      if i = id ∧ id.index < p.symbols.size then { p.symbol id with decl := d } else p.symbol id :=
  p.symbol_modifySymbol i _ id

theorem ownScope_setDecl (i : SymbolId) (d : Decl) (id : SymbolId) :
    ((p.setDecl i d).symbol id).ownScope = (p.symbol id).ownScope := by
  rw [symbol_setDecl]
  split <;> rfl

theorem decl_addSymbol (x : Symbol) (id : SymbolId) :
    (p.addSymbol x).decl id = if id = p.nextSymbol then x.decl else p.decl id := by
  simp only [decl, symbol_addSymbol]
  split <;> rfl

@[simp] theorem decl_addSymbol_next (x : Symbol) : (p.addSymbol x).decl p.nextSymbol = x.decl := by
  simp [decl_addSymbol]

theorem decl_addSymbol_of_lt (x : Symbol) {id : SymbolId} (h : id.index < p.symbols.size) :
    (p.addSymbol x).decl id = p.decl id := by
  rw [decl, symbol_addSymbol_of_lt p x h, decl]

theorem decl_setDecl (i : SymbolId) (d : Decl) (id : SymbolId) :
    (p.setDecl i d).decl id = if i = id ∧ id.index < p.symbols.size then d else p.decl id := by
  simp only [decl, symbol_setDecl]
  split <;> rfl

theorem decl_setDecl_of_ne {i id : SymbolId} (d : Decl) (h : i ≠ id) : (p.setDecl i d).decl id = p.decl id := by
  rw [decl_setDecl, if_neg (fun hi => h hi.1)]

theorem decl_setDecl_self {i : SymbolId} (d : Decl) (h : i.index < p.symbols.size) : (p.setDecl i d).decl i = d := by
  rw [decl_setDecl, if_pos ⟨rfl, h⟩]

theorem setDecl_setDecl (i : SymbolId) (d d' : Decl) : (p.setDecl i d).setDecl i d' = p.setDecl i d' := by
  simp only [setDecl, modifySymbol]
  congr 1
  refine Array.ext (by simp) fun j _ _ => ?_
  by_cases hj : i.index = j <;> simp [Array.getElem_modify, hj]

/-- A declaration may as well be changed after a symbol is added. -/
theorem addSymbol_setDecl {i : SymbolId} (d : Decl) (x : Symbol) (h : i.index < p.symbols.size) :
    (p.setDecl i d).addSymbol x = (p.addSymbol x).setDecl i d := by
  simp only [setDecl, modifySymbol, addSymbol]
  congr 1
  refine Array.ext (by simp) fun j hj _ => ?_
  by_cases hlt : j < p.symbols.size
  · simp [Array.getElem_push, Array.getElem_modify, hlt]
  · simp [Array.getElem_push, Array.getElem_modify, hlt, show i.index ≠ j by omega]

@[simp] theorem symbols_addNode (n : Node) : (p.addNode n).symbols = p.symbols := rfl
@[simp] theorem symbols_addScope (x : Scope) : (p.addScope x).symbols = p.symbols := rfl
@[simp] theorem symbols_modifyNode (i f) : (p.modifyNode i f).symbols = p.symbols := rfl
@[simp] theorem symbols_modifyScope (i f) : (p.modifyScope i f).symbols = p.symbols := rfl
@[simp] theorem size_symbols_addSymbol (x : Symbol) : (p.addSymbol x).symbols.size = p.symbols.size + 1 := by
  simp [addSymbol]
@[simp] theorem size_symbols_modifySymbol (i f) : (p.modifySymbol i f).symbols.size = p.symbols.size := by
  simp [modifySymbol]
@[simp] theorem size_symbols_setDecl (i d) : (p.setDecl i d).symbols.size = p.symbols.size := by
  simp [setDecl]

@[simp] theorem symbol_addNode (n : Node) (id) : (p.addNode n).symbol id = p.symbol id := rfl
@[simp] theorem symbol_addScope (x : Scope) (id) : (p.addScope x).symbol id = p.symbol id := rfl
@[simp] theorem symbol_modifyNode (i f id) : (p.modifyNode i f).symbol id = p.symbol id := rfl
@[simp] theorem symbol_modifyScope (i f id) : (p.modifyScope i f).symbol id = p.symbol id := rfl
@[simp] theorem decl_addNode (n : Node) (id) : (p.addNode n).decl id = p.decl id := rfl
@[simp] theorem decl_addScope (x : Scope) (id) : (p.addScope x).decl id = p.decl id := rfl
@[simp] theorem decl_modifyNode (i f id) : (p.modifyNode i f).decl id = p.decl id := rfl
@[simp] theorem decl_modifyScope (i f id) : (p.modifyScope i f).decl id = p.decl id := rfl

/-! ## Scopes -/

theorem scope_addScope (x : Scope) (id : ScopeId) :
    (p.addScope x).scope id = if id = p.nextScope then x else p.scope id := by
  simp only [scope, addScope, getD_push, nextScope]
  congr 1
  exact propext ⟨fun h => ScopeId.ext h, fun h => congrArg _ h⟩

@[simp] theorem scope_addScope_next (x : Scope) : (p.addScope x).scope p.nextScope = x := by simp [scope_addScope]

theorem scope_addScope_of_lt (x : Scope) {id : ScopeId} (h : id.index < p.scopes.size) :
    (p.addScope x).scope id = p.scope id := by
  rw [scope_addScope, if_neg]
  rintro rfl
  exact Nat.lt_irrefl _ h

theorem scope_modifyScope (i : ScopeId) (f : Scope → Scope) (id : ScopeId) :
    (p.modifyScope i f).scope id = if i = id ∧ id.index < p.scopes.size then f (p.scope id) else p.scope id := by
  simp only [scope, modifyScope, getD_modify]
  congr 1
  exact propext ⟨fun h => ⟨ScopeId.ext h.1, h.2⟩, fun h => ⟨congrArg _ h.1, h.2⟩⟩

@[simp] theorem scopes_addNode (n : Node) : (p.addNode n).scopes = p.scopes := rfl
@[simp] theorem scopes_addSymbol (x : Symbol) : (p.addSymbol x).scopes = p.scopes := rfl
@[simp] theorem scopes_modifyNode (i f) : (p.modifyNode i f).scopes = p.scopes := rfl
@[simp] theorem scopes_modifySymbol (i f) : (p.modifySymbol i f).scopes = p.scopes := rfl
@[simp] theorem scopes_setDecl (i d) : (p.setDecl i d).scopes = p.scopes := rfl
@[simp] theorem size_scopes_addScope (x : Scope) : (p.addScope x).scopes.size = p.scopes.size + 1 := by simp [addScope]
@[simp] theorem size_scopes_modifyScope (i f) : (p.modifyScope i f).scopes.size = p.scopes.size := by
  simp [modifyScope]

@[simp] theorem scope_addNode (n : Node) (id) : (p.addNode n).scope id = p.scope id := rfl
@[simp] theorem scope_addSymbol (x : Symbol) (id) : (p.addSymbol x).scope id = p.scope id := rfl
@[simp] theorem scope_modifyNode (i f id) : (p.modifyNode i f).scope id = p.scope id := rfl
@[simp] theorem scope_modifySymbol (i f id) : (p.modifySymbol i f).scope id = p.scope id := rfl
@[simp] theorem scope_setDecl (i d id) : (p.setDecl i d).scope id = p.scope id := rfl

end Program

end Bindery
