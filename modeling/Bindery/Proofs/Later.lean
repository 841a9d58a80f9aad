import Bindery.Proofs.Scopes
import Bindery.Proofs.Conversion
import Bindery.Proofs.Typing
/-!
# Later programs

Binding only adds to a program and completes what it has. A later program has all nodes, symbols and scopes of an
earlier one at their places: a node keeps its kind, and its type unless it is a literal that may still be retyped; a
symbol keeps its name, its scopes and what kind of declaration it has; a scope keeps its kind, its parent, its owner and its
names. What is said of a program in these terms stays true.
-/
namespace Bindery

/-- What may become of a declaration. A template may move to another symbol and leave an overload set behind. -/
inductive Decl.Later : Decl → Decl → Prop
  | refl (d : Decl) : Later d d
  | module {a b : ModuleDecl} : b.source = a.source → (∀ e, a.entry = some e → b.entry = some e) →
      Later (.module a) (.module b)
  | template {a b : TemplateDecl} : b.source = a.source → b.scope = a.scope → b.modifiers = a.modifiers →
      Later (.template a) (.template b)
  | overload {a : TemplateDecl} {templates : List SymbolId} : Later (.template a) (.overloadSet templates)
  | overloadSet {a b : List SymbolId} : Later (.overloadSet a) (.overloadSet b)
  | struct {a b : StructDecl} : b.kind = a.kind → b.template = a.template → a.fields <+: b.fields →
      (∀ ty, a.element = some ty → b.element = some ty) → Later (.struct a) (.struct b)
  | union {a b : StructDecl} : b.kind = a.kind → b.template = a.template → a.fields <+: b.fields →
      (∀ ty, a.element = some ty → b.element = some ty) → Later (.union a) (.union b)
  | enum {a b : EnumDecl} : b.base = a.base → Later (.enum a) (.enum b)
  | function {a b : FunctionDecl} : b.role = a.role → b.owner = a.owner → b.template = a.template →
      (a.ret.isSome → b.ret.isSome) → Later (.function a) (.function b)

theorem Decl.Later.trans {a b d : Decl} (h : a.Later b) (k : b.Later d) : a.Later d := by
  cases h <;> cases k
  all_goals first
    | exact .refl _
    | exact .overload
    | exact .overloadSet
    | skip
  case refl.module hs he => exact .module hs he
  case refl.template hs ht hm => exact .template hs ht hm
  case refl.struct hk ht hf he => exact .struct hk ht hf he
  case refl.union hk ht hf he => exact .union hk ht hf he
  case refl.enum hb => exact .enum hb
  case refl.function hr ho ht hs => exact .function hr ho ht hs
  case module.refl hs he => exact .module hs he
  case module.module hs he _ hs' he' => exact .module (hs'.trans hs) fun e h => he' e (he e h)
  case template.refl hs ht hm => exact .template hs ht hm
  case template.template hs ht hm _ hs' ht' hm' => exact .template (hs'.trans hs) (ht'.trans ht) (hm'.trans hm)
  case struct.refl hk ht hf he => exact .struct hk ht hf he
  case struct.struct hk ht hf he _ hk' ht' hf' he' =>
    exact .struct (hk'.trans hk) (ht'.trans ht) (hf.trans hf') fun ty h => he' ty (he ty h)
  case union.refl hk ht hf he => exact .union hk ht hf he
  case union.union hk ht hf he _ hk' ht' hf' he' =>
    exact .union (hk'.trans hk) (ht'.trans ht) (hf.trans hf') fun ty h => he' ty (he ty h)
  case enum.refl hb => exact .enum hb
  case enum.enum hb _ hb' => exact .enum (hb'.trans hb)
  case function.refl hr ho ht hs => exact .function hr ho ht hs
  case function.function hr ho ht hs _ hr' ho' ht' hs' =>
    exact .function (hr'.trans hr) (ho'.trans ho) (ht'.trans ht) fun h => hs' (hs h)

/-- Declarations that nothing is added to. -/
def Decl.isFixed : Decl → Bool
  | .module _ | .template _ | .overloadSet _ | .struct _ | .union _ | .enum _ | .function _ => false
  | _ => true

theorem Decl.Later.eq_of_isFixed {a b : Decl} (h : a.Later b) (hf : a.isFixed) : b = a := by
  cases h <;> first | rfl | cases hf

/-- A variable that a call keeps: a parameter or a local variable. -/
def Decl.isVariable : Decl → Bool
  | .parameter .. | .localVar _ => true
  | _ => false

/-- What a node may refer to: neither a template nor an alias. -/
def Decl.isFinished : Decl → Bool
  | .template _ | .overloadSet _ | .typeAlias .. | .constAlias .. | .valueAlias .. => false
  | _ => true

/-- Declarations that no invariant singles out when their symbol is added. -/
def Decl.isPlain : Decl → Bool
  | .builtin _ | .module _ | .template _ | .overloadSet _ | .label _ | .constAlias .. => false
  | _ => true

/-- Declarations that nothing has to follow when their symbol is added. -/
def Decl.isSimple : Decl → Bool
  | .function _ | .module _ | .struct _ | .array _ => false
  | _ => true

/-- A tuple that belongs to no template. -/
def Decl.IsTuple (d : Decl) : Prop := ∃ own, d = .struct own ∧ own.kind = .tuple ∧ own.template = none

/-- The template that a symbol was made from. -/
def Decl.origin? : Decl → Option SymbolId
  | .function own => own.template
  | .struct own | .union own => own.template
  | _ => none

theorem Decl.isFixed_of_valueType? {d : Decl} {ty : Ty} (h : d.valueType? = some ty) : d.isFixed := by
  cases d <;> first | rfl | cases h

theorem Decl.Later.isVariable_eq {a b : Decl} (h : a.Later b) : b.isVariable = a.isVariable := by
  cases h <;> rfl

theorem Decl.Later.isFinished_eq {a b : Decl} (h : a.Later b) : b.isFinished = a.isFinished := by
  cases h <;> rfl

theorem Decl.Later.origin?_eq {a b : Decl} (h : a.Later b) : b.origin? = a.origin? := by
  cases h <;> first | rfl | assumption

theorem Decl.Later.isTuple_iff {a b : Decl} (h : a.Later b) : b.IsTuple ↔ a.IsTuple := by
  cases h <;> simp_all [IsTuple]

/-- The fields of a struct or a union. -/
def Decl.fields : Decl → List SymbolId
  | .struct own | .union own => own.fields
  | _ => []

theorem Decl.Later.fields_grow {a b : Decl} (h : a.Later b) : a.fields <+: b.fields := by
  cases h with
  | refl => exact List.prefix_refl _
  | struct _ _ hf _ | union _ _ hf _ => exact hf
  | _ => exact List.nil_prefix

namespace Program

/-- Whether a function captures is settled when it is declared. -/
theorem mayCapture_eq_of_later {p q : Program} {f : SymbolId} (h : (p.decl f).Later (q.decl f)) :
    q.mayCapture f = p.mayCapture f := by
  unfold mayCapture function?
  generalize p.decl f = a at h ⊢
  generalize q.decl f = b at h ⊢
  cases h <;> first | rfl | simp [*]

/-- A program that comes later than another one. A scope of a function gets its owner late only when the owner captures
nothing; the scope of one that captures is the newest when it gets its owner. -/
structure Later (p q : Program) : Prop where
  nested : p.Nested
  nested' : q.Nested
  width : q.pointerWidth = p.pointerWidth
  scopes : p.KeepsScopes q
  owner : ∀ sc f, (p.scope sc).owner = some f → (q.scope sc).owner = some f
  owned : ∀ sc f, sc.index < p.scopes.size → (p.scope sc).kind = .function → (p.scope sc).owner = none →
    (q.scope sc).owner = some f → q.mayCapture f = false ∧ f.index < q.symbols.size ∨ p.scopes.size = sc.index + 1
  find : ∀ sc name x, (p.scope sc).find? name = some x → (q.scope sc).find? name = some x
  nodes : p.nodes.size ≤ q.nodes.size
  kind : ∀ n : NodeId, n.index < p.nodes.size → (q.node n).kind = (p.node n).kind
  type : ∀ n : NodeId, n.index < p.nodes.size → ¬ p.Adaptable n → (q.node n).ty = (p.node n).ty
  operand : ∀ n o : NodeId, o ∈ (p.node n).kind.operands → (q.node o).ty = (p.node o).ty
  constant : ∀ x tag n, p.decl x = .constAlias tag n → (q.node n).ty = (p.node n).ty
  symbols : p.symbols.size ≤ q.symbols.size
  name : ∀ x : SymbolId, x.index < p.symbols.size → (q.symbol x).name = (p.symbol x).name
  scope : ∀ x : SymbolId, x.index < p.symbols.size → (q.symbol x).scope = (p.symbol x).scope
  ownScope : ∀ x : SymbolId, x.index < p.symbols.size → (q.symbol x).ownScope = (p.symbol x).ownScope
  decl : ∀ x : SymbolId, x.index < p.symbols.size → (p.decl x).Later (q.decl x)
  template : ∀ x own, p.template? x = some own →
    ∃ y own', q.template? y = some own' ∧ own'.source = own.source ∧ own'.scope = own.scope
  entry : ∀ m own e, q.module? m = some own → own.entry = some e →
    p.symbols.size ≤ e.index + 1 ∨ ∃ own', p.module? m = some own' ∧ own'.entry = some e
  tuples : p.tuples ⊆ q.tuples

namespace Later

variable {p q r : Program}

theorem refl (h : p.Nested) : p.Later p where
  nested := h
  nested' := h
  width := rfl
  scopes := ⟨Nat.le_refl _, fun _ _ => rfl, fun _ _ => rfl⟩
  owner _ _ h := h
  owned _ _ _ _ hn ho := by rw [hn] at ho; cases ho
  find _ _ _ h := h
  nodes := Nat.le_refl _
  kind _ _ := rfl
  type _ _ _ := rfl
  operand _ _ _ := rfl
  constant _ _ _ _ := rfl
  symbols := Nat.le_refl _
  name _ _ := rfl
  scope _ _ := rfl
  ownScope _ _ := rfl
  decl _ _ := .refl _
  template x own h := ⟨x, own, h, rfl, rfl⟩
  entry _ own _ hm he := .inr ⟨own, hm, he⟩
  tuples := List.Subset.refl _

theorem adaptable (h : p.Later q) {n : NodeId} (hn : n.index < p.nodes.size) : q.Adaptable n ↔ p.Adaptable n := by
  unfold Adaptable
  rw [h.kind n hn]

theorem trans (h : p.Later q) (k : q.Later r) : p.Later r where
  nested := h.nested
  nested' := k.nested'
  width := k.width.trans h.width
  scopes :=
    { size := Nat.le_trans h.scopes.size k.scopes.size
      kind := fun sc hs => (k.scopes.kind sc (Nat.lt_of_lt_of_le hs h.scopes.size)).trans (h.scopes.kind sc hs)
      parent := fun sc hs => (k.scopes.parent sc (Nat.lt_of_lt_of_le hs h.scopes.size)).trans (h.scopes.parent sc hs) }
  owner sc f hf := k.owner sc f (h.owner sc f hf)
  owned sc f hs hk hn hf := by
    rcases hq : (q.scope sc).owner with _ | g
    · rw [← h.scopes.kind sc hs] at hk
      have hle := h.scopes.size
      exact (k.owned sc f (Nat.lt_of_lt_of_le hs hle) hk hq hf).imp_right fun hsize => by omega
    · obtain rfl : g = f := Option.some.inj ((k.owner sc g hq).symm.trans hf)
      refine (h.owned sc g hs hk hn hq).imp_left fun ⟨hc, hlt⟩ => ?_
      exact ⟨(mayCapture_eq_of_later (k.decl g hlt)).trans hc, Nat.lt_of_lt_of_le hlt k.symbols⟩
  find sc name x hx := k.find sc name x (h.find sc name x hx)
  nodes := Nat.le_trans h.nodes k.nodes
  kind n hn := (k.kind n (Nat.lt_of_lt_of_le hn h.nodes)).trans (h.kind n hn)
  type n hn ha := (k.type n (Nat.lt_of_lt_of_le hn h.nodes) (fun hq => ha ((h.adaptable hn).1 hq))).trans (h.type n hn ha)
  operand n o ho := by
    have hn := lt_of_mem_children (NodeKind.operands_subset _ ho)
    rw [k.operand n o (by rwa [h.kind n hn]), h.operand n o ho]
  constant x tag n hx := by
    have hq : q.decl x = .constAlias tag n := by
      rw [(h.decl x (lt_of_decl (by rw [hx]; simp))).eq_of_isFixed (by rw [hx]; rfl), hx]
    rw [k.constant x tag n hq, h.constant x tag n hx]
  symbols := Nat.le_trans h.symbols k.symbols
  name x hx := (k.name x (Nat.lt_of_lt_of_le hx h.symbols)).trans (h.name x hx)
  scope x hx := (k.scope x (Nat.lt_of_lt_of_le hx h.symbols)).trans (h.scope x hx)
  ownScope x hx := (k.ownScope x (Nat.lt_of_lt_of_le hx h.symbols)).trans (h.ownScope x hx)
  decl x hx := (h.decl x hx).trans (k.decl x (Nat.lt_of_lt_of_le hx h.symbols))
  template x own hx := by
    obtain ⟨y, own', hy, hs, hc⟩ := h.template x own hx
    obtain ⟨z, own'', hz, hs', hc'⟩ := k.template y own' hy
    exact ⟨z, own'', hz, hs'.trans hs, hc'.trans hc⟩
  entry m own e hm he := by
    obtain hle | ⟨own', hm', he'⟩ := k.entry m own e hm he
    · exact .inl (Nat.le_trans h.symbols hle)
    · exact h.entry m own' e hm' he'
  tuples := List.Subset.trans h.tuples k.tuples

/-! ## Declarations -/

section decls

variable (h : p.Later q) {x : SymbolId}
include h

/-- A declaration that nothing is added to stays as it is. -/
theorem decl_eq (hf : (p.decl x).isFixed) (hv : p.decl x ≠ .builtin .void) : q.decl x = p.decl x :=
  (h.decl x (lt_of_decl hv)).eq_of_isFixed hf

theorem decl_of_valueType {ty : Ty} (hv : (p.decl x).valueType? = some ty) : q.decl x = p.decl x :=
  h.decl_eq (Decl.isFixed_of_valueType? hv) fun hd => by rw [hd] at hv; cases hv

theorem valueType {ty : Ty} (hv : (p.decl x).valueType? = some ty) : (q.decl x).valueType? = some ty := by
  rw [h.decl_of_valueType hv, hv]

theorem isVariable (hx : x.index < p.symbols.size) : (q.decl x).isVariable = (p.decl x).isVariable :=
  (h.decl x hx).isVariable_eq

theorem field {own : FieldDecl} (hf : p.field? x = some own) : q.field? x = some own := by
  unfold field? at hf ⊢
  split at hf <;> cases hf
  rename_i hd
  rw [h.decl_eq (by rw [hd]; rfl) (by rw [hd]; simp), hd]

theorem valueAlias {tag : AliasTag} {t : SymbolId} (hd : p.decl x = .valueAlias tag t) : q.decl x = .valueAlias tag t := by
  rw [h.decl_eq (by rw [hd]; rfl) (by rw [hd]; simp), hd]

theorem builtin {own : Builtin} (hd : p.decl x = .builtin own) (hv : own ≠ .void) : q.decl x = .builtin own := by
  rw [h.decl_eq (by rw [hd]; rfl) (by rw [hd]; simpa using hv), hd]

theorem function {own : FunctionDecl} (hf : p.function? x = some own) :
    ∃ own', q.function? x = some own' ∧ own'.role = own.role ∧ own'.owner = own.owner := by
  have hx := lt_of_function hf
  have hl := h.decl x hx
  unfold function? at hf ⊢
  split at hf <;> cases hf
  rename_i hd
  rw [hd] at hl
  rcases hq : q.decl x <;> rw [hq] at hl <;> cases hl
  · exact ⟨_, rfl, rfl, rfl⟩
  · exact ⟨_, rfl, ‹_›, ‹_›⟩

theorem returnType {own : FunctionDecl} (hf : p.function? x = some own) (hr : own.ret.isSome) :
    ∃ own', q.function? x = some own' ∧ own'.ret.isSome := by
  have hl := h.decl x (lt_of_function hf)
  unfold function? at hf ⊢
  split at hf <;> cases hf
  rename_i hd
  rw [hd] at hl
  rcases hq : q.decl x <;> rw [hq] at hl <;> cases hl
  · exact ⟨_, rfl, hr⟩
  · rename_i hs
    exact ⟨_, rfl, hs hr⟩

/-- What is no function does not become one. -/
theorem function_of_later (hx : x.index < p.symbols.size) {own : FunctionDecl} (hf : q.function? x = some own) :
    ∃ own', p.function? x = some own' ∧ own.role = own'.role ∧ own.owner = own'.owner := by
  have hl := h.decl x hx
  unfold function? at hf ⊢
  split at hf <;> cases hf
  rename_i hd
  rw [hd] at hl
  rcases hq : p.decl x <;> rw [hq] at hl <;> cases hl
  · exact ⟨_, rfl, rfl, rfl⟩
  · exact ⟨_, rfl, ‹_›, ‹_›⟩

theorem mayCapture (hx : x.index < p.symbols.size) : q.mayCapture x = p.mayCapture x :=
  mayCapture_eq_of_later (h.decl x hx)

theorem struct {own : StructDecl} (hd : p.decl x = .struct own) :
    ∃ own', q.decl x = .struct own' ∧ own'.kind = own.kind ∧ own.fields <+: own'.fields := by
  have hl := h.decl x (lt_of_decl (by rw [hd]; simp))
  rw [hd] at hl
  rcases hq : q.decl x <;> rw [hq] at hl <;> cases hl
  · exact ⟨_, rfl, rfl, List.prefix_refl _⟩
  · exact ⟨_, rfl, ‹_›, ‹_›⟩

theorem enum {own : EnumDecl} (hd : p.decl x = .enum own) : ∃ own', q.decl x = .enum own' ∧ own'.base = own.base := by
  have hl := h.decl x (lt_of_decl (by rw [hd]; simp))
  rw [hd] at hl
  rcases hq : q.decl x <;> rw [hq] at hl <;> cases hl
  · exact ⟨_, rfl, rfl⟩
  · exact ⟨_, rfl, ‹_›⟩

theorem module {own : ModuleDecl} (hm : p.module? x = some own) :
    ∃ own', q.module? x = some own' ∧ own'.source = own.source ∧ ∀ e, own.entry = some e → own'.entry = some e := by
  have hx := lt_of_module hm
  have hl := h.decl x hx
  unfold module? at hm ⊢
  split at hm <;> cases hm
  rename_i hd
  rw [hd] at hl
  rcases hq : q.decl x <;> rw [hq] at hl <;> cases hl
  · exact ⟨_, rfl, rfl, fun _ h => h⟩
  · exact ⟨_, rfl, ‹_›, ‹_›⟩

/-- What is no module does not become one. -/
theorem module_of_later (hx : x.index < p.symbols.size) {own : ModuleDecl} (hm : q.module? x = some own) :
    ∃ own', p.module? x = some own' ∧ ∀ e, own'.entry = some e → own.entry = some e := by
  have hl := h.decl x hx
  rw [module?_eq_some.1 hm] at hl
  rcases hp : p.decl x <;> rw [hp] at hl <;> cases hl
  · exact ⟨_, module?_eq_some.2 hp, fun _ h => h⟩
  · exact ⟨_, module?_eq_some.2 hp, ‹_›⟩

/-- What is no template does not become one. -/
theorem template_of_later (hx : x.index < p.symbols.size) {own : TemplateDecl} (ht : q.template? x = some own) :
    ∃ own', p.template? x = some own' := by
  have hl := h.decl x hx
  rw [template?_eq_some.1 ht] at hl
  rcases hp : p.decl x <;> rw [hp] at hl <;> cases hl <;> exact ⟨_, template?_eq_some.2 hp⟩

theorem label {own : LabelDecl} (hd : p.decl x = .label own) : q.decl x = .label own := by
  rw [h.decl_eq (by rw [hd]; rfl) (by rw [hd]; simp), hd]

theorem label_of_later (hx : x.index < p.symbols.size) {own : LabelDecl} (hd : q.decl x = .label own) :
    p.decl x = .label own := by
  have hl := h.decl x hx
  rw [hd] at hl
  rcases hp : p.decl x <;> rw [hp] at hl <;> cases hl
  rfl

theorem constAlias_of_later (hx : x.index < p.symbols.size) {tag : AliasTag} {n : NodeId}
    (hd : q.decl x = .constAlias tag n) : p.decl x = .constAlias tag n := by
  have hl := h.decl x hx
  rw [hd] at hl
  rcases hp : p.decl x <;> rw [hp] at hl <;> cases hl
  rfl

theorem builtin? {ty : Ty} {own : Builtin} (hb : p.builtin? ty = some own) (hv : own ≠ .void) :
    q.builtin? ty = some own := by
  obtain ⟨id, rfl, hd⟩ := builtin?_eq_some_iff.1 hb
  exact builtin?_eq_some_iff.2 ⟨id, rfl, h.builtin hd hv⟩

theorem scalar? {ty : Ty} {a : Scalar} (hs : p.scalar? ty = some a) : q.scalar? ty = some a :=
  scalar?_eq_some.2 (h.builtin? (scalar?_eq_some.1 hs) (by simp))

theorem isIntegral {ty : Ty} (hi : p.isIntegral ty) : q.isIntegral ty := by
  unfold Program.isIntegral at hi ⊢
  split at hi
  · rename_i hs
    rw [h.scalar? hs]
  · cases hi

end decls

/-! ## Scopes -/

section scopes

variable (h : p.Later q) {sc : ScopeId}
include h

theorem ancestors (hs : sc.index < p.scopes.size) : q.ancestors sc = p.ancestors sc :=
  h.scopes.ancestors h.nested h.nested' hs

theorem region (hs : sc.index < p.scopes.size) : q.region? sc = p.region? sc :=
  h.scopes.region? h.nested h.nested' hs

theorem offers {struct field : SymbolId} (ho : p.Offers struct field) : q.Offers struct field := by
  obtain ⟨sc, name, found, hs, hm, hf⟩ := ho
  refine ⟨sc, name, found, ?_, h.find _ _ _ hm, ?_⟩
  · rw [h.ownScope _ (lt_of_ownScope hs), hs]
  · obtain rfl | ⟨tag, ht⟩ := hf
    · exact .inl rfl
    · exact .inr ⟨tag, h.valueAlias ht⟩

end scopes

/-! ## Trees -/

section trees

variable (h : p.Later q) (ho : p.Ordered) {n m : NodeId}
include h ho

/-- The tree of a node stays what it is. -/
theorem within {next : NodeKind → List NodeId} (hsub : ∀ kind, next kind ⊆ kind.children) (hn : n.index < p.nodes.size)
    (hw : q.Within next n m) : p.Within next n m ∧ m.index < p.nodes.size := by
  induction hw with
  | self => exact ⟨.self _, hn⟩
  | step hm _ ih =>
    rw [h.kind _ hn] at hm
    obtain ⟨hw, hlt⟩ := ih (Nat.lt_trans (ho _ _ (hsub _ hm)) hn)
    exact ⟨.step hm hw, hlt⟩

theorem names {x : SymbolId} (hn : n.index < p.nodes.size) (hx : q.Names n x) : p.Names n x := by
  obtain ⟨m, hw, hm⟩ := hx
  obtain ⟨hw, hlt⟩ := h.within ho (fun _ => List.Subset.refl _) hn hw
  exact ⟨m, hw, by rw [← h.kind m hlt, hm]⟩

theorem returns {ty : Ty} (hn : n.index < p.nodes.size) (hr : q.Returns n ty) : p.Returns n ty := by
  obtain ⟨m, v, hw, hm, hv⟩ := hr
  obtain ⟨hw, hlt⟩ := h.within ho NodeKind.statements_subset hn hw
  rw [h.kind m hlt] at hm
  refine ⟨m, v, hw, hm, ?_⟩
  rw [← h.operand m v (by simp [hm, NodeKind.operands]), hv]

theorem leaves {again : Bool} {l : SymbolId} (hn : n.index < p.nodes.size) (hl : q.Leaves n again l) :
    p.Leaves n again l := by
  obtain ⟨m, hw, hm⟩ := hl
  obtain ⟨hw, hlt⟩ := h.within ho (NodeKind.passing_subset again l) hn hw
  exact ⟨m, hw, by rw [← h.kind m hlt, hm]⟩

end trees

end Later

end Program

end Bindery
