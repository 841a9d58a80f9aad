import Bindery.Proofs.Interning
/-!
# What binding keeps

A program is sound when every node fits, every symbol is in order, every scope names symbols of its own, and arrays and
tuples are found again. Each change makes a later program and keeps it sound; so does a sequence of steps.
-/
namespace Bindery

/-- `Void` stands first among the builtin types. -/
theorem Builtin.index_void {i : Nat} {name : String} (h : Builtin.all[i]? = some (name, .void)) : i = 0 := by
  have hm : ((name, Builtin.void), i) ∈ Builtin.all.zipIdx := List.mem_zipIdx_iff_getElem?.2 h
  simp only [Builtin.all, List.zipIdx_cons, List.zipIdx_nil, List.mem_cons, List.not_mem_nil, or_false, Prod.mk.injEq,
    reduceCtorEq, and_false, false_and] at hm
  exact hm.2

/-- What is completed is a function just when it was one. -/
theorem Decl.Later.function_iff {a b : Decl} (h : a.Later b) :
    (∃ own, b = .function own) ↔ ∃ own, a = .function own := by
  cases h <;> simp

namespace Program

variable {p q : Program} {floor : Floor}

/-- What holds of every program that binding comes to. -/
structure Sound (p : Program) : Prop where
  nested : p.Nested
  ordered : p.Ordered
  fits : ∀ n : NodeId, n.index < p.nodes.size → p.Fits (p.node n)
  admits : ∀ x : SymbolId, x.index < p.symbols.size → p.Admits x (p.symbol x)
  names : ∀ sc name x, (p.scope sc).find? name = some x → x.index < p.symbols.size ∧ (p.symbol x).scope = sc
  owner : ∀ sc f, (p.scope sc).owner = some f → (p.symbol f).ownScope = some sc
  builtin : ∀ (id : SymbolId) name own, Builtin.all[id.index]? = some (name, own) → p.decl id = .builtin own
  scopes : 2 ≤ p.scopes.size
  interned : p.Interned

theorem Finished.of_decl {x : SymbolId} {d : Decl} (hd : p.decl x = d) (hv : d ≠ .builtin .void) (hf : d.isFinished) :
    p.Finished x := ⟨lt_of_decl (by rwa [hd]), by rwa [hd]⟩

theorem Finished.of_field {x : SymbolId} {own : FieldDecl} (h : p.field? x = some own) : p.Finished x :=
  .of_decl (field?_eq_some.1 h) (by simp) rfl

theorem Finished.of_function {x : SymbolId} {own : FunctionDecl} (h : p.function? x = some own) : p.Finished x :=
  .of_decl (function?_eq_some.1 h) (by simp) rfl

theorem Finished.of_valueType {x : SymbolId} {ty : Ty} (h : (p.decl x).valueType? = some ty) : p.Finished x := by
  refine .of_decl rfl ?_ ?_
  · rintro hd
    rw [hd] at h
    cases h
  · generalize p.decl x = d at h
    cases d <;> first | rfl | cases h

/-- The way to a captured variable goes through fields. -/
theorem Finished.of_way {x : SymbolId} : ∀ {source : SymbolId} {hops : List CaptureHop}, p.Way x source hops →
    ∀ hop ∈ hops, p.Finished hop.field
  | _, [], _, _, hm => by cases hm
  | _, first :: rest, ⟨⟨_, hf, _⟩, _, hw⟩, hop, hm => by
    rcases List.mem_cons.1 hm with rfl | hm
    · exact .of_field hf
    · exact of_way hw hop hm

/-- A struct without fields and without a method. -/
theorem Shaped.empty {id : SymbolId} {own : StructDecl} (hf : own.fields = []) (hm : own.method = none)
    (he : own.elementField = none) : p.Shaped id own :=
  ⟨hf ▸ .nil p id, by rw [hm]; rintro _ ⟨⟩, by rw [he]; rintro _ ⟨⟩⟩

/-! ## What holds of an entry stays true -/

namespace Later

variable (h : p.Later q)
include h

theorem not_valueAlias {x : SymbolId} (hx : x.index < p.symbols.size) (hn : ∀ tag t, p.decl x ≠ .valueAlias tag t) :
    ∀ tag t, q.decl x ≠ .valueAlias tag t := by
  intro tag t hq
  have hl := h.decl x hx
  rw [hq] at hl
  generalize hd : p.decl x = d at hl
  cases hl
  exact hn tag t hd

theorem reachesField {ty : Ty} {field : SymbolId} {own : FieldDecl} (hr : p.ReachesField ty field own) :
    q.ReachesField ty field own := by
  obtain hr | ⟨struct, hs, ho⟩ := hr
  · exact .inl hr
  · exact .inr ⟨struct, hs, h.offers ho⟩

theorem typed {node : Node} (ho : ∀ o ∈ node.kind.operands, (q.node o).ty = (p.node o).ty)
    (ht : p.Typed p.ReachesField node) : q.Typed q.ReachesField node := by
  obtain ⟨pos, ty, kind⟩ := node
  unfold Typed at ht ⊢
  cases kind <;> simp only [NodeKind.operands, List.mem_cons, List.not_mem_nil, or_false, forall_eq_or_imp, forall_eq,
    Option.mem_toList] at ho ht ⊢
  all_goals first | trivial | (simp only [ho]; exact ht) | skip
  case fieldName base field =>
    obtain ⟨own, hf, hty, hr⟩ := ht
    exact ⟨own, h.field hf, hty, by rw [ho]; exact h.reachesField hr⟩
  case shift => exact ⟨ho.1.trans ht.1, by rw [ho.2]; exact h.isIntegral ht.2⟩
  case definition symbol value =>
    rcases value with _ | value
    · trivial
    · simp only [Option.some.injEq, forall_eq'] at ho
      simp only [ho]
      exact h.valueType ht
  case compoundAssignment op kind target value =>
    cases kind
    · simp only [ho]; exact ht
    · trivial
    · trivial
  case loop scope label init test step body =>
    rcases test with _ | test
    · trivial
    · simp only [Option.some.injEq, forall_eq'] at ho
      simp only [ho]
      exact ht

theorem finished {x : SymbolId} (hx : p.Finished x) : q.Finished x where
  range := Nat.lt_of_lt_of_le hx.range h.symbols
  finished := by
    rw [(h.decl x hx.range).isFinished_eq]
    exact hx.finished

theorem fits {node : Node} (ho : ∀ o ∈ node.kind.operands, (q.node o).ty = (p.node o).ty) (hf : p.Fits node) :
    q.Fits node where
  children m hm := Nat.lt_of_lt_of_le (hf.children m hm) h.nodes
  typed := h.typed ho hf.typed
  void := hf.void
  literal value hv := ⟨(hf.literal value hv).1, h.isIntegral (hf.literal value hv).2⟩
  named x hops hx := by
    obtain ⟨hlt, hn, hw⟩ := hf.named x hops hx
    exact ⟨Nat.lt_of_lt_of_le hlt h.symbols, h.not_valueAlias hlt hn, h.way hw⟩
  called f args hk := by
    obtain ⟨hty, own, ho, hr⟩ := hf.called f args hk
    exact ⟨hty, h.returnType ho hr⟩
  symbols x hx := h.finished (hf.symbols x hx)
  folds := hf.folds.later h hf.children

theorem shaped {id : SymbolId} {own : StructDecl} (hs : p.Shaped id own) : q.Shaped id own where
  fields := h.hasFields hs.fields
  method f hf := by
    obtain ⟨function, hfun⟩ := Option.isSome_iff_exists.1 (hs.method f hf)
    obtain ⟨function', hfun', -⟩ := h.function hfun
    rw [hfun']
    rfl
  element f hf := by
    obtain ⟨hmem, field, hfield, hty⟩ := hs.element f hf
    exact ⟨hmem, field, h.field hfield, hty⟩

theorem receives {ownScope : Option ScopeId} {own : FunctionDecl} (hr : p.Receives ownScope own) :
    q.Receives ownScope own := by
  intro r hrec
  obtain ⟨owner, index, ho, hd, hs⟩ := hr r hrec
  have hlt : r.index < p.symbols.size := lt_of_decl (by rw [hd]; simp)
  refine ⟨owner, index, ho, ?_, by rw [h.scope r hlt, hs]⟩
  rw [h.decl_eq (by rw [hd]; rfl) (by rw [hd]; simp), hd]

theorem precedes {f : SymbolId} {sc : ScopeId} (hf : p.Precedes f sc) : q.Precedes f sc where
  range := Nat.lt_of_lt_of_le hf.range h.symbols
  scope := by rw [h.scope f hf.range]; exact hf.scope
  own body hb := hf.own body (by rw [← h.ownScope f hf.range, hb])

end Later

/-! ## What is named is in the tables -/

namespace Sound

variable (hp : p.Sound)
include hp

theorem range_of_names {n : NodeId} {x : SymbolId} (hn : p.Names n x) :
    x.index < p.symbols.size ∧ (p.symbol x).scope.index < p.scopes.size := by
  obtain ⟨m, -, hm⟩ := hn
  have hlt : m.index < p.nodes.size := by
    by_contra hge
    rw [node_of_le (Nat.le_of_not_lt hge)] at hm
    cases hm
  have hx := ((hp.fits m hlt).named x [] hm).1
  exact ⟨hx, (hp.admits x hx).scope⟩

theorem range_of_leaves {n : NodeId} {again : Bool} {l : SymbolId} (hn : p.Leaves n again l) :
    l.index < p.symbols.size ∧ (p.symbol l).scope.index < p.scopes.size := by
  obtain ⟨m, -, hm⟩ := hn
  have hlt : m.index < p.nodes.size := by
    by_contra hge
    rw [node_of_le (Nat.le_of_not_lt hge)] at hm
    cases hm
  have hl := ((hp.fits m hlt).symbols l (NodeKind.mem_symbols_of_jump? hm)).range
  exact ⟨hl, (hp.admits l hl).scope⟩

/-- What a jump leaves to lies around a default as long as there is one. -/
theorem holdsDefault_of_leaves (h : p.Later q) {n : NodeId} {again : Bool} {l : SymbolId} (hn : p.Leaves n again l)
    (hd : p.HoldsDefault (p.symbol l).scope) : q.HoldsDefault (q.symbol l).scope := by
  obtain ⟨hlt, hs⟩ := hp.range_of_leaves hn
  rw [h.scope l hlt]
  exact h.holdsDefault hs hd

theorem inBody (h : p.Later q) {f : SymbolId} {own : FunctionDecl} {n : NodeId} (hb : p.InBody f own n) :
    q.InBody f own n where
  range := Nat.lt_of_lt_of_le hb.range h.nodes
  names x hx hv := by
    have hx := h.names hp.ordered hb.range hx
    obtain ⟨hlt, hs⟩ := hp.range_of_names hx
    rw [h.isVariable hlt] at hv
    rw [h.scope x hlt]
    exact (hb.names x hx hv).imp (h.home hs) (h.exposed hlt hs)
  returns hr ty ht := hb.returns hr ty (h.returns hp.ordered hb.range ht)
  jumps again l hl := by
    have hl := h.leaves hp.ordered hb.range hl
    exact hp.holdsDefault_of_leaves h hl (hb.jumps again l hl)

theorem default (h : p.Later q) {sc : ScopeId} (hs : sc.index < p.scopes.size) {n : NodeId} (hd : p.Default sc n) :
    q.Default sc n where
  range := Nat.lt_of_lt_of_le hd.range h.nodes
  names x hx := by
    have hx := h.names hp.ordered hd.range hx
    obtain ⟨hlt, hxs⟩ := hp.range_of_names hx
    exact h.inSight hlt hxs hs (hd.names x hx)
  returns ty hr := hd.returns ty (h.returns hp.ordered hd.range hr)
  jumps again l hl := by
    have hl := h.leaves hp.ordered hd.range hl
    rw [h.ancestors hs, h.scope l (hp.range_of_leaves hl).1]
    exact (hd.jumps again l hl).imp_right (h.holdsDefault (hp.range_of_leaves hl).2)

theorem shaped {id : SymbolId} {own : StructDecl} (hs : p.struct? id = some own) : p.Shaped id own := by
  have hd := struct?_eq_some.1 hs
  have h := (hp.admits id (lt_of_decl (by rcases hd with hd | hd <;> rw [hd] <;> simp))).inOrder
  unfold InOrder at h
  rcases hd with hd | hd <;> rw [Program.decl] at hd <;> rw [hd] at h <;> exact h

theorem hasFields {id : SymbolId} {own : StructDecl} (hd : p.decl id = .struct own) : p.HasFields id own.fields :=
  (hp.shaped (struct?_eq_some.2 (.inl hd))).fields

theorem inOrder_of_decl {id : SymbolId} {d : Decl} (hd : p.decl id = d) (hv : d ≠ .builtin .void) :
    p.InOrder id { p.symbol id with decl := d } := by
  subst hd
  exact (hp.admits id (lt_of_decl hv)).inOrder

/-- A symbol whose declaration is completed keeps its scopes, so only the declaration is to be looked at. -/
theorem admits_decl {id : SymbolId} (hid : id.index < p.symbols.size) {d : Decl} (hl : (p.decl id).Later d)
    (ho : p.InOrder id { p.symbol id with decl := d }) : p.Admits id { p.symbol id with decl := d } where
  scope := (hp.admits id hid).scope
  own sc hsc := by
    obtain ⟨hlt, hb, hf⟩ := (hp.admits id hid).own sc hsc
    exact ⟨hlt, hb, hf.trans hl.function_iff.symm⟩
  inOrder := ho

/-- What is in order about a module. -/
theorem module {id : SymbolId} {own : ModuleDecl} (hm : p.module? id = some own) :
    (own.status = .idle ↔ own.entry = none) ∧
      (∀ sc, (p.symbol id).ownScope = some sc → (p.scope sc).kind = .module) ∧
      ∀ e, own.entry = some e → (p.function? e).isSome := by
  obtain ⟨hi, hs, he, -⟩ := hp.inOrder_of_decl (module?_eq_some.1 hm) (by simp)
  exact ⟨hi, hs, fun e h => (he e h).1⟩

/-- The entry of a module stands in the scope of the module. -/
theorem opening {id e : SymbolId} {own : ModuleDecl} (hm : p.module? id = some own) (he : own.entry = some e) :
    p.Opening (p.symbol id).ownScope e := ((hp.inOrder_of_decl (module?_eq_some.1 hm) (by simp)).2.2.1 e he).2

/-- A module has a scope of its own. -/
theorem moduleScope {id : SymbolId} {own : ModuleDecl} (hm : p.module? id = some own) :
    (p.symbol id).ownScope.isSome := (hp.inOrder_of_decl (module?_eq_some.1 hm) (by simp)).2.2.2

/-- The fields of a struct are fields. -/
theorem finished_of_mem_fieldsOf {owner field : SymbolId} (hf : field ∈ p.fieldsOf owner) : p.Finished field := by
  rcases hs : p.struct? owner with _ | own
  · simp [fieldsOf, hs] at hf
  · obtain ⟨field', hfield, -⟩ := (hp.shaped hs).fields.own field (by simpa [fieldsOf, hs] using hf)
    exact .of_field hfield

/-- The scope of a closure is that of no function. -/
theorem ownScope_of_isClosure {closure : SymbolId} (hc : p.IsClosure closure) {sc : ScopeId}
    (ho : (p.symbol closure).ownScope = some sc) : sc.index < p.scopes.size ∧ (p.scope sc).kind ≠ .function := by
  obtain ⟨own, hd, -⟩ := hc
  obtain ⟨hlt, -, hf⟩ := (hp.admits closure (lt_of_ownScope ho)).own sc ho
  refine ⟨hlt, fun hk => ?_⟩
  obtain ⟨f, hfun⟩ := hf.1 hk
  rw [show (p.symbol closure).decl = .struct own from hd] at hfun
  cases hfun

theorem lt_of_mem_functionsUpTo {sc t : ScopeId} {f : SymbolId} (hf : f ∈ p.functionsUpTo sc t) :
    f.index < p.symbols.size := by
  obtain ⟨a, -, ha⟩ := List.mem_filterMap.1 hf
  split at ha
  · exact lt_of_ownScope (hp.owner a f ha)
  · cases ha

/-- **What a captured field is filled from stays settled.** -/
theorem keeping (h : p.Later q) {own : FieldDecl} {captured : CaptureSource} (hk : p.Keeping own captured) :
    q.Keeping own captured where
  closure := h.isClosure hk.closure
  type := h.valueType hk.type
  source := hk.source.imp_right fun ⟨outer, hf, hty⟩ => ⟨outer, h.field hf, hty⟩
  linked sc hs hc := by
    have hlt : own.owner.index < p.symbols.size := by
      obtain ⟨struct, hd, -⟩ := hk.closure
      exact lt_of_decl (by rw [hd]; simp)
    have ho : captured.origin.index < p.symbols.size := lt_of_decl fun hd => by
      have ht := hk.type
      rw [hd] at ht
      cases ht
    rw [h.scope _ ho] at hc ⊢
    rw [h.ownScope _ hlt] at hs
    obtain ⟨hsc, hfun⟩ := hp.ownScope_of_isClosure hk.closure hs
    have heq := h.functionsUpTo hsc hfun hc
    rw [heq] at hc ⊢
    have hl := hk.linked sc hs fun f hf => by rw [← h.mayCapture (hp.lt_of_mem_functionsUpTo hf)]; exact hc f hf
    cases hhead : (p.functionsUpTo sc (p.symbol captured.origin).scope).head? with
    | none => rwa [hhead] at hl
    | some f =>
      rw [hhead] at hl
      obtain ⟨own, outer, hf, hown, ⟨struct, hd, hkind⟩, hcap⟩ := hl
      obtain ⟨own', hf', -, hown'⟩ := h.function hf
      exact ⟨own', outer, hf', hown'.trans hown, h.isClosure ⟨struct, hd, hkind⟩,
        h.captureOf? hd (hp.hasFields hd) hcap⟩

theorem inOrder (h : p.Later q) {id : SymbolId} {x : Symbol} (hs : x.scope.index < p.scopes.size)
    (ho : ∀ sc, x.ownScope = some sc → sc.index < p.scopes.size) (hx : p.InOrder id x) : q.InOrder id x := by
  unfold InOrder at hx ⊢
  rcases hd : x.decl with own | own | own | own | own | own | own | own | own | own | ⟨tag, ty⟩ | ⟨tag, t⟩ | ⟨tag, t⟩ |
    ⟨ty, i⟩ | ty | ty | own <;> simp only [hd] at hx ⊢
  case builtin => exact hx
  case module =>
    refine ⟨hx.1, fun sc hsc => ?_, fun e he => ?_, hx.2.2.2⟩
    · rw [h.scopes.kind sc (ho sc hsc)]
      exact hx.2.1 sc hsc
    · obtain ⟨hfun, hlt, hown, hsc⟩ := hx.2.2.1 e he
      obtain ⟨own, hf⟩ := Option.isSome_iff_exists.1 hfun
      obtain ⟨own', hf', -⟩ := h.function hf
      refine ⟨by rw [hf']; rfl, Nat.lt_of_lt_of_le hlt h.symbols, by rw [h.ownScope e hlt, hown], ?_⟩
      rw [h.scope e hlt, hsc]
  case template => exact ⟨Nat.lt_of_lt_of_le hx.1 h.scopes.size, hx.2⟩
  case struct | union => exact h.shaped hx
  case enum =>
    obtain ⟨bits, signed, hb⟩ := hx
    exact ⟨bits, signed, h.scalar? hb⟩
  case function =>
    obtain ⟨hclose, hrec, hbody, hret⟩ := hx
    exact ⟨h.closes hclose, h.receives hrec, fun n hn => hp.inBody h (hbody n hn), hret⟩
  case valueAlias =>
    obtain ⟨hlt, hn, hv⟩ := hx
    exact ⟨Nat.lt_of_lt_of_le hlt h.symbols, h.not_valueAlias hlt hn, h.inSight hlt (hp.admits t hlt).scope hs hv⟩
  case array => exact hx
  case overloadSet => exact fun t ht => Nat.lt_of_lt_of_le (hx t ht) h.symbols
  case constAlias => exact Nat.lt_of_lt_of_le hx h.nodes
  case parameter => rwa [h.scopes.kind _ hs]
  case localVar => rwa [h.scopes.kind _ hs]
  case field =>
    exact ⟨fun n hn => hp.default h hs (hx.1 n hn), fun captured hc => hp.keeping h (hx.2 captured hc)⟩
  case label =>
    rw [h.scopes.kind _ hs]
    exact ⟨hx.1, fun f hf => h.precedes (hx.2 f hf)⟩

/-- **What holds of a symbol stays true.** -/
theorem admits_later (h : p.Later q) {id : SymbolId} {x : Symbol} (hx : p.Admits id x) : q.Admits id x where
  scope := Nat.lt_of_lt_of_le hx.scope h.scopes.size
  own sc hsc := by
    obtain ⟨hlt, hk, hf⟩ := hx.own sc hsc
    rw [h.scopes.kind sc hlt]
    exact ⟨Nat.lt_of_lt_of_le hlt h.scopes.size, hk, hf⟩
  inOrder := hp.inOrder h hx.scope (fun sc hsc => (hx.own sc hsc).1) hx.inOrder

end Sound

/-- A sound program has what conversions rely on. -/
theorem Sound.standard (hp : p.Sound) : p.Standard where
  builtin := hp.builtin
  place id own hd := by
    by_cases hlt : id.index < p.symbols.size
    · have h := (hp.admits id hlt).inOrder
      unfold InOrder at h
      rw [show (p.symbol id).decl = .builtin own from hd] at h
      exact h
    · rw [decl, symbol_of_le (Nat.le_of_not_lt hlt)] at hd
      cases hd
      exact .inl rfl
  enum id own hd := by
    have h := (hp.admits id (lt_of_decl (by rw [hd]; simp))).inOrder
    unfold InOrder at h
    rw [show (p.symbol id).decl = .enum own from hd] at h
    exact h
  size := by
    have h1 : (⟨1⟩ : SymbolId).index < p.symbols.size := lt_of_decl (by rw [hp.builtin ⟨1⟩ _ _ rfl]; simp)
    exact Nat.lt_of_le_of_lt (Nat.zero_le 1) h1

/-! ## Changes make later programs -/

section tables

variable (hp : p.Nested) (hw : q.pointerWidth = p.pointerWidth) (ht : p.tuples ⊆ q.tuples)
include hp hw ht

/-- A change of nodes alone. -/
theorem Later.of_nodes (hs : q.symbols = p.symbols) (hc : q.scopes = p.scopes) (hn : p.nodes.size ≤ q.nodes.size)
    (kind : ∀ n : NodeId, n.index < p.nodes.size → (q.node n).kind = (p.node n).kind)
    (type : ∀ n : NodeId, n.index < p.nodes.size → ¬ p.Adaptable n → (q.node n).ty = (p.node n).ty)
    (operand : ∀ n o : NodeId, o ∈ (p.node n).kind.operands → (q.node o).ty = (p.node o).ty)
    (constant : ∀ x tag n, p.decl x = .constAlias tag n → (q.node n).ty = (p.node n).ty) : p.Later q := by
  have hsym : q.symbol = p.symbol := by funext id; simp only [symbol, hs]
  have hdecl : q.decl = p.decl := by funext id; simp only [Program.decl, hsym]
  have hsc : q.scope = p.scope := by funext id; simp only [Program.scope, hc]
  refine ⟨hp, ?_, hw, ⟨by rw [hc], ?_, ?_⟩, ?_, ?_, ?_, hn, kind, type, operand, constant, by rw [hs], ?_, ?_, ?_, ?_, ?_,
    ?_, ht⟩
  · intro sc; rw [hsc]; exact hp sc
  · intro sc _; rw [hsc]
  · intro sc _; rw [hsc]
  · intro sc f; rw [hsc]; exact id
  · intro sc f _ _ hn ho; rw [hsc, hn] at ho; cases ho
  · intro sc name x; rw [hsc]; exact id
  · intro x _; rw [hsym]
  · intro x _; rw [hsym]
  · intro x _; rw [hsym]
  · intro x _; rw [hdecl]; exact .refl _
  · intro x own hx; exact ⟨x, own, by rw [← hx]; simp only [template?, hdecl], rfl, rfl⟩
  · intro m own e hm he; exact .inr ⟨own, by rw [← hm]; simp only [module?, hdecl], he⟩

/-- A change of symbols alone. -/
theorem Later.of_symbols (hn : q.nodes = p.nodes) (hc : q.scopes = p.scopes) (hs : p.symbols.size ≤ q.symbols.size)
    (name : ∀ x : SymbolId, x.index < p.symbols.size → (q.symbol x).name = (p.symbol x).name)
    (scope : ∀ x : SymbolId, x.index < p.symbols.size → (q.symbol x).scope = (p.symbol x).scope)
    (ownScope : ∀ x : SymbolId, x.index < p.symbols.size → (q.symbol x).ownScope = (p.symbol x).ownScope)
    (decl : ∀ x : SymbolId, x.index < p.symbols.size → (p.decl x).Later (q.decl x))
    (template : ∀ x own, p.template? x = some own →
      ∃ y own', q.template? y = some own' ∧ own'.source = own.source ∧ own'.scope = own.scope)
    (entry : ∀ m own e, q.module? m = some own → own.entry = some e →
      p.symbols.size ≤ e.index + 1 ∨ ∃ own', p.module? m = some own' ∧ own'.entry = some e) : p.Later q := by
  have hnode : q.node = p.node := by funext id; simp only [node, hn]
  have hsc : q.scope = p.scope := by funext id; simp only [Program.scope, hc]
  refine ⟨hp, ?_, hw, ⟨by rw [hc], ?_, ?_⟩, ?_, ?_, ?_, by rw [hn], ?_, ?_, ?_, ?_, hs, name, scope, ownScope, decl,
    template, entry, ht⟩
  · intro sc; rw [hsc]; exact hp sc
  · intro sc _; rw [hsc]
  · intro sc _; rw [hsc]
  · intro sc f; rw [hsc]; exact id
  · intro sc f _ _ hn ho; rw [hsc, hn] at ho; cases ho
  · intro sc name x; rw [hsc]; exact id
  · intro n _; rw [hnode]
  · intro n _ _; rw [hnode]
  · intro n o _; rw [hnode]
  · intro x tag n _; rw [hnode]

/-- A change of scopes alone. -/
theorem Later.of_scopes (hn : q.nodes = p.nodes) (hs : q.symbols = p.symbols) (nested : q.Nested)
    (scopes : p.KeepsScopes q) (owner : ∀ sc f, (p.scope sc).owner = some f → (q.scope sc).owner = some f)
    (owned : ∀ sc f, sc.index < p.scopes.size → (p.scope sc).kind = .function → (p.scope sc).owner = none →
      (q.scope sc).owner = some f → q.mayCapture f = false ∧ f.index < q.symbols.size ∨ p.scopes.size = sc.index + 1)
    (find : ∀ sc name x, (p.scope sc).find? name = some x → (q.scope sc).find? name = some x) : p.Later q := by
  have hnode : q.node = p.node := by funext id; simp only [node, hn]
  have hsym : q.symbol = p.symbol := by funext id; simp only [symbol, hs]
  have hdecl : q.decl = p.decl := by funext id; simp only [Program.decl, hsym]
  refine ⟨hp, nested, hw, scopes, owner, owned, find, by rw [hn], ?_, ?_, ?_, ?_, by rw [hs], ?_, ?_, ?_, ?_, ?_, ?_, ht⟩
  · intro n _; rw [hnode]
  · intro n _ _; rw [hnode]
  · intro n o _; rw [hnode]
  · intro x tag n _; rw [hnode]
  · intro x _; rw [hsym]
  · intro x _; rw [hsym]
  · intro x _; rw [hsym]
  · intro x _; rw [hdecl]; exact .refl _
  · intro x own hx; exact ⟨x, own, by rw [← hx]; simp only [template?, hdecl], rfl, rfl⟩
  · intro m own e hm he; exact .inr ⟨own, by rw [← hm]; simp only [module?, hdecl], he⟩

end tables

/-- Naming a symbol in a scope that has not the name. -/
theorem Later.of_insert {sc : ScopeId} {f : Scope → Scope} (hp : p.Nested)
    (kind : (f (p.scope sc)).kind = (p.scope sc).kind) (parent : (f (p.scope sc)).parent = (p.scope sc).parent)
    (owner : ∀ g, (p.scope sc).owner = some g → (f (p.scope sc)).owner = some g)
    (owned : ∀ g, (p.scope sc).kind = .function → (p.scope sc).owner = none → (f (p.scope sc)).owner = some g →
      p.mayCapture g = false ∧ g.index < p.symbols.size ∨ p.scopes.size = sc.index + 1)
    (find : ∀ name x, (p.scope sc).find? name = some x → (f (p.scope sc)).find? name = some x) :
    p.Later (p.modifyScope sc f) := by
  refine .of_scopes hp rfl (List.Subset.refl _) rfl rfl ?_ ⟨by simp, fun sc' _ => ?_, fun sc' _ => ?_⟩ (fun sc' g hg => ?_)
    (fun sc' g _ hk hn ho => ?_) fun sc' name x hx => ?_
  · intro sc' parent' hq
    rw [scope_modifyScope] at hq
    split at hq
    · rename_i heq
      obtain ⟨rfl, -⟩ := heq
      exact hp sc parent' (by rw [← parent, hq])
    · exact hp sc' parent' hq
  case' refine_5 =>
    rw [scope_modifyScope] at ho
    split at ho
    · rename_i heq
      obtain ⟨rfl, -⟩ := heq
      exact owned g hk hn ho
    · rw [hn] at ho
      cases ho
  all_goals
    rw [scope_modifyScope]
    split
    · rename_i heq
      obtain ⟨rfl, -⟩ := heq
      first | exact kind | exact parent | exact owner g hg | exact find name x hx
    · first | rfl | assumption

theorem lt_of_adaptable {n : NodeId} (h : p.Adaptable n) : n.index < p.nodes.size := by
  obtain ⟨value, hv⟩ := h
  by_contra hn
  rw [node_of_le (Nat.le_of_not_lt hn)] at hv
  cases hv

theorem adaptable_of_adaptsTo {n : NodeId} {ty : Ty} (h : p.adaptsTo n ty) : p.Adaptable n ∧ p.isIntegral ty := by
  unfold adaptsTo at h
  split at h
  · rename_i ha hs
    refine ⟨?_, by simp only [isIntegral, hs]⟩
    unfold adaptableInt? at ha
    split at ha
    · exact ⟨_, ‹_›⟩
    · cases ha
  · cases h

/-- A completed template is one still, or has left a copy. -/
theorem Completes.copied {id x : SymbolId} {d : Decl} {own : TemplateDecl} (ha : p.Completes id d)
    (hx : p.template? x = some own) :
    ∃ y own', (p.setDecl id d).template? y = some own' ∧ own'.source = own.source ∧ own'.scope = own.scope := by
  have hd : p.decl x = .template own := by
    unfold template? at hx
    split at hx <;> cases hx
    assumption
  by_cases hid : id = x
  · subst hid
    have hl := ha.later
    rw [hd] at hl
    generalize hd' : d = d' at hl
    cases hl with
    | refl => exact ⟨id, own, by rw [template?, decl_setDecl_self p _ ha.range], rfl, rfl⟩
    | template hs hc _ => exact ⟨id, _, by rw [template?, decl_setDecl_self p _ ha.range], hs, hc⟩
    | overload =>
      -- what the set was made of is a copy
      cases ha.overloads _ hd' with
      | @first _ moved _ _ hm =>
        refine ⟨moved, own, ?_, rfl, rfl⟩
        rw [template?, decl_setDecl_of_ne p _ hm.ne.symm, ← template?, hm.template, hx]
      | next hset => cases hset.symm.trans hd
  · exact ⟨x, own, by simp only [template?, decl_setDecl_of_ne p d hid, hd], rfl, rfl⟩

theorem Completes.setDecl_later {id : SymbolId} {d : Decl} (hp : p.Nested) (ha : p.Completes id d) :
    p.Later (p.setDecl id d) := by
  refine .of_symbols hp rfl (List.Subset.refl _) rfl rfl (by simp) (fun x hx => ?_) (fun x hx => ?_) (fun x hx => ?_)
    (fun x hx => ?_) (fun x own hx => ?_) fun m own e hm he => ?_
  · rw [symbol_setDecl]
    split <;> rfl
  · rw [symbol_setDecl]
    split <;> rfl
  · exact ownScope_setDecl ..
  · rw [decl_setDecl]
    split
    · rename_i heq
      rw [← heq.1]
      exact ha.later
    · exact .refl _
  · exact ha.copied hx
  · unfold module? at hm
    rw [decl_setDecl] at hm
    split at hm
    · rename_i hd
      cases hm
      split at hd
      · rename_i heq
        obtain ⟨rfl, -⟩ := heq
        exact (ha.entry own e hd he).symm.imp_left fun h => Nat.le_of_eq h
      · exact .inr ⟨own, by simp only [module?, hd], he⟩
    · cases hm

/-- The symbols after one was added. -/
theorem symbol_of_push {x : Symbol} (hs : q.symbols = p.symbols.push x) : q.symbol = (p.addSymbol x).symbol := by
  funext y
  unfold symbol
  rw [hs]
  rfl

/-- A symbol that may be added makes a later program. -/
theorem Addable.later {x : Symbol} (hp : p.Nested) (hx : p.Addable floor x) (hs : q.symbols = p.symbols.push x)
    (hw : q.pointerWidth = p.pointerWidth) (ht : q.tuples = p.tuples) (hn : q.nodes = p.nodes)
    (hc : q.scopes = p.scopes) : p.Later q := by
  have hsym := symbol_of_push hs
  have hdecl : q.decl = (p.addSymbol x).decl := by funext y; rw [decl, hsym, decl]
  refine .of_symbols hp hw (ht ▸ List.Subset.refl _) hn hc (by simp [hs]) (fun y hy => ?_) (fun y hy => ?_)
    (fun y hy => ?_) (fun y hy => ?_) (fun y own hy => ?_) fun m own e hmo he => ?_
  · rw [hsym, symbol_addSymbol_of_lt p x hy]
  · rw [hsym, symbol_addSymbol_of_lt p x hy]
  · rw [hsym, symbol_addSymbol_of_lt p x hy]
  · rw [hdecl, decl_addSymbol_of_lt p x hy]
    exact .refl _
  · have hlt := lt_of_template hy
    exact ⟨y, own, by rw [← hy]; simp only [template?, hdecl, decl_addSymbol_of_lt p x hlt], rfl, rfl⟩
  · unfold module? at hmo
    rw [hdecl, decl_addSymbol] at hmo
    split at hmo
    · rename_i hd
      split at hd
      · cases hmo
        rw [(hx.module own hd).1] at he
        cases he
      · cases hmo
        exact .inr ⟨own, by simp only [module?, hd], he⟩
    · cases hmo

/-- **Every change makes a later program.** -/
theorem Edit.later (hp : p.Sound) (h : p.Edit floor q) : p.Later q := by
  cases h with
  | node n hf _ _ =>
    refine .of_nodes hp.nested rfl (List.Subset.refl _) rfl rfl (by simp) (fun n' hn => ?_) (fun n' hn _ => ?_)
      (fun n' o ho => ?_) fun x tag m hx => ?_
    · rw [node_addNode_of_lt p n hn]
    · rw [node_addNode_of_lt p n hn]
    · have hn' := lt_of_mem_children (NodeKind.operands_subset _ ho)
      have hlt := (hp.fits n' hn').children o (NodeKind.operands_subset _ ho)
      rw [node_addNode_of_lt p n hlt]
    · rw [node_addNode_of_lt p n (hp.inOrder_of_decl hx (by simp))]
  | retype id ty ha _ hl =>
    refine .of_nodes hp.nested rfl (List.Subset.refl _) rfl rfl (by simp) (fun n' hn => ?_) (fun n' hn hna => ?_)
      (fun n' o ho => ?_) fun x tag m hx => ?_
    · rw [node_modifyNode]
      split <;> rfl
    · rw [node_modifyNode, if_neg]
      rintro ⟨rfl, -⟩
      exact hna (adaptable_of_adaptsTo ha).1
    · rw [node_modifyNode, if_neg]
      rintro ⟨rfl, -⟩
      exact hl.operand n' ho
    · rw [node_modifyNode, if_neg]
      rintro ⟨rfl, -⟩
      exact hl.constant x tag hx
  | symbol x hx _ => exact hx.later hp.nested rfl rfl rfl rfl rfl
  | array x own hx _ _ => exact hx.later hp.nested rfl rfl rfl rfl rfl
  | name sc name id hfree _ _ =>
    refine .of_insert hp.nested rfl rfl (fun _ h => h) (fun g _ hn ho => ?_) fun name' x hx => ?_
    · cases hn.symm.trans ho
    rw [Scope.find?_insert hfree, if_neg, hx]
    rintro rfl
    rw [hfree] at hx
    cases hx
  | other sc name id hfree _ _ =>
    refine .of_insert hp.nested rfl rfl (fun _ h => h) (fun g _ hn ho => ?_) fun name' x hx => ?_
    · cases hn.symm.trans ho
    rw [Scope.find?_insertOther hfree, if_neg, hx]
    rintro rfl
    rw [hfree] at hx
    cases hx
  | scope kind parent hlt =>
    refine .of_scopes hp.nested rfl (List.Subset.refl _) rfl rfl ?_ ⟨by simp, fun sc hs => ?_, fun sc hs => ?_⟩
      (fun sc f hf => ?_) (fun sc f hs _ hn ho => ?_) fun sc name x hx => ?_
    · intro sc parent' hq
      rw [scope_addScope] at hq
      split at hq
      · rename_i heq
        cases hq
        rw [heq]
        exact hlt
      · exact hp.nested sc parent' hq
    · rw [scope_addScope_of_lt p _ hs]
    · rw [scope_addScope_of_lt p _ hs]
    · have hs := lt_of_owner hf
      rw [scope_addScope_of_lt p _ hs, hf]
    · rw [scope_addScope_of_lt p _ hs, hn] at ho
      cases ho
    · have hs := lt_of_find hx
      rw [scope_addScope_of_lt p _ hs, hx]
  | owner sc f _ hfree ho hc =>
    refine .of_insert hp.nested rfl rfl (fun g hg => ?_) (fun g hk _ hg => ?_) fun _ _ h => h
    · rw [hfree] at hg
      cases hg
    · cases hg
      exact (hc hk).imp_left fun hc => ⟨hc, lt_of_ownScope ho⟩
  | decl id d ha => exact ha.setDecl_later hp.nested
  | tuple types id =>
    exact .of_nodes hp.nested rfl (List.subset_cons_self _ _) rfl rfl (Nat.le_refl _) (fun _ _ => rfl)
      (fun _ _ _ => rfl) (fun _ _ _ => rfl) fun _ _ _ _ => rfl
  | modules =>
    exact .of_nodes hp.nested rfl (List.Subset.refl _) rfl rfl (Nat.le_refl _) (fun _ _ => rfl) (fun _ _ _ => rfl)
      (fun _ _ _ => rfl) fun _ _ _ _ => rfl

/-! ## Changes keep a program sound -/

/-- A later program is sound when its new and changed entries are. -/
theorem Sound.of_later (hp : p.Sound) (h : p.Later q)
    (nodes : ∀ n : NodeId, n.index < q.nodes.size → (n.index < p.nodes.size ∧ q.node n = p.node n) ∨
      (q.Fits (q.node n) ∧ ∀ m ∈ (q.node n).kind.children, m.index < n.index))
    (symbols : ∀ x : SymbolId, x.index < q.symbols.size → (x.index < p.symbols.size ∧ q.symbol x = p.symbol x) ∨
      q.Admits x (q.symbol x))
    (names : ∀ sc name x, (q.scope sc).find? name = some x → (p.scope sc).find? name = some x ∨
      (x.index < q.symbols.size ∧ (q.symbol x).scope = sc))
    (owner : ∀ sc f, (q.scope sc).owner = some f → (p.scope sc).owner = some f ∨ (q.symbol f).ownScope = some sc)
    (interned : q.Interned) : q.Sound where
  nested := h.nested'
  ordered n m hm := by
    rcases nodes n (lt_of_mem_children hm) with ⟨-, hq⟩ | ⟨-, hc⟩
    · rw [hq] at hm
      exact hp.ordered n m hm
    · exact hc m hm
  fits n hn := by
    rcases nodes n hn with ⟨hlt, hq⟩ | ⟨hf, -⟩
    · rw [hq]
      exact h.fits (fun o ho => h.operand n o ho) (hp.fits n hlt)
    · exact hf
  admits x hx := by
    rcases symbols x hx with ⟨hlt, hq⟩ | ha
    · rw [hq]
      exact hp.admits_later h (hp.admits x hlt)
    · exact ha
  names sc name x hx := by
    rcases names sc name x hx with hx | hx
    · obtain ⟨hlt, hs⟩ := hp.names sc name x hx
      exact ⟨Nat.lt_of_lt_of_le hlt h.symbols, by rw [h.scope x hlt, hs]⟩
    · exact hx
  owner sc f hf := by
    rcases owner sc f hf with hf | hf
    · have ho := hp.owner sc f hf
      rw [h.ownScope f (lt_of_ownScope ho), ho]
    · exact hf
  builtin id name own hn := by
    have hd := hp.builtin id name own hn
    have hone : p.decl ⟨1⟩ = .builtin .null := hp.builtin ⟨1⟩ _ _ rfl
    have hlt : id.index < p.symbols.size := by
      by_cases hv : own = .void
      · have h1 : (⟨1⟩ : SymbolId).index < p.symbols.size := lt_of_decl (by rw [hone]; simp)
        have h0 : id.index = 0 := Builtin.index_void (by rw [hn, hv])
        omega
      · exact lt_of_decl (by rw [hd]; simpa using hv)
    rw [(h.decl id hlt).eq_of_isFixed (by rw [hd]; rfl), hd]
  scopes := Nat.le_trans hp.scopes h.scopes.size
  interned := interned

theorem Completes.setDecl_interned {id : SymbolId} {d : Decl} (hp : p.Sound) (ha : p.Completes id d) :
    (p.setDecl id d).Interned := by
  have hl := ha.setDecl_later hp.nested
  refine hp.interned.of_later hl rfl rfl (fun x own hx => ?_) fun types x a b he hpx hqx => ?_
  · by_cases hid : id = x
    · subst hid
      rw [decl_setDecl_self p d ha.range] at hx
      have hlater := ha.later
      rw [hx] at hlater
      generalize p.decl id = d' at hlater
      cases hlater
      rfl
    · rwa [decl_setDecl_of_ne p d hid] at hx
  · by_cases hid : id = x
    · subst hid
      rw [decl_setDecl_self p d ha.range] at hqx
      have hlater := ha.later
      rw [hpx, hqx] at hlater
      obtain ⟨rest, hrest⟩ := hlater.fields_grow
      cases rest with
      | nil => exact (hrest.symm.trans (List.append_nil _) : b.fields = a.fields)
      | cons field rest =>
        have := ha.fields field (by rw [hqx, hpx, ← hrest, List.drop_left]; exact List.mem_cons_self)
        exact absurd he (this.tuple types)
    · rw [decl_setDecl_of_ne p d hid, hpx] at hqx
      cases hqx
      rfl

theorem Completes.setDecl_sound {id : SymbolId} {d : Decl} (hp : p.Sound) (ha : p.Completes id d) :
    (p.setDecl id d).Sound := by
  have hl := ha.setDecl_later hp.nested
  refine hp.of_later hl (fun n hn => .inl ⟨hn, rfl⟩) (fun x hx => ?_) (fun _ _ _ h => .inl h)
    (fun _ _ h => .inl h) (ha.setDecl_interned hp)
  rw [size_symbols_setDecl] at hx
  by_cases hid : id = x
  · subst hid
    rw [symbol_setDecl, if_pos ⟨rfl, hx⟩]
    exact .inr (hp.admits_later hl ha.admits)
  · exact .inl ⟨hx, by rw [symbol_setDecl, if_neg fun h => hid h.1]⟩

/-- A symbol that may be added keeps a program sound, if arrays and tuples are found again. -/
theorem Addable.sound {x : Symbol} (hp : p.Sound) (hx : p.Addable floor x) (hs : q.symbols = p.symbols.push x)
    (hl : p.Later q) (hn : q.nodes = p.nodes) (hc : q.scopes = p.scopes) (hi : q.Interned) : q.Sound := by
  have hsym := symbol_of_push hs
  have hnode : q.node = p.node := by funext n; simp only [node, hn]
  have hsc : q.scope = p.scope := by funext sc; simp only [scope, hc]
  refine hp.of_later hl (fun n h => .inl ⟨hn ▸ h, by rw [hnode]⟩) (fun y hy => ?_) (fun _ _ _ h => .inl (hsc ▸ h))
    (fun _ _ h => .inl (hsc ▸ h)) hi
  by_cases hnew : y = p.nextSymbol
  · subst hnew
    rw [hsym, symbol_addSymbol_next]
    exact .inr (hp.admits_later hl hx.admits)
  · have hlt : y.index < p.symbols.size := by
      rw [hs, Array.size_push] at hy
      have : y.index ≠ p.symbols.size := fun he => hnew (SymbolId.ext he)
      omega
    exact .inl ⟨hlt, by rw [hsym, symbol_addSymbol_of_lt p x hlt]⟩

/-- **Every change keeps a program sound.** -/
theorem Edit.sound (hp : p.Sound) (h : p.Edit floor q) : q.Sound := by
  have hl := h.later hp
  cases h with
  | node n hf ho _ =>
    refine hp.of_later hl (fun n' hn' => ?_) (fun x hx => .inl ⟨hx, rfl⟩) (fun _ _ _ h => .inl h)
      (fun _ _ h => .inl h) (hp.interned.of_symbols hl rfl rfl rfl)
    by_cases hnew : n' = p.nextNode
    · subst hnew
      rw [node_addNode_next]
      refine .inr ⟨hl.fits (fun o ho => ?_) hf, hf.children⟩
      rw [node_addNode_of_lt p n (hf.children o (NodeKind.operands_subset _ ho))]
    · have hlt : n'.index < p.nodes.size := by
        simp only [size_nodes_addNode] at hn'
        have : n'.index ≠ p.nodes.size := fun he => hnew (NodeId.ext he)
        omega
      exact .inl ⟨hlt, node_addNode_of_lt p n hlt⟩
  | retype id ty ha _ _ =>
    refine hp.of_later hl (fun n hn => ?_) (fun x hx => .inl ⟨hx, rfl⟩) (fun _ _ _ h => .inl h)
      (fun _ _ h => .inl h) (hp.interned.of_symbols hl rfl rfl rfl)
    rw [size_nodes_modifyNode] at hn
    by_cases hid : id = n
    · subst hid
      obtain ⟨⟨value, hv⟩, hi⟩ := adaptable_of_adaptsTo ha
      have hfit := hp.fits id hn
      rw [node_modifyNode, if_pos ⟨rfl, hn⟩]
      refine .inr ⟨⟨?_, ?_, ?_, fun v hv' => ⟨(hfit.literal v hv').1, hl.isIntegral hi⟩, ?_, ?_, ?_, ?_⟩, ?_⟩
      · simp [hv, NodeKind.children]
      · simp [Typed, hv]
      · simp [hv, NodeKind.holdsReturn]
      · simp [hv]
      · simp [hv]
      · simp [hv, NodeKind.symbols]
      · obtain ⟨i, rfl⟩ := (hfit.literal value hv).1
        simp only [Folds, hv]
        exact .inl ((inhabits_of_adaptsTo hp.standard ha hv).later hl)
      · simp [hv, NodeKind.children]
    · exact .inl ⟨hn, by rw [node_modifyNode, if_neg fun h => hid h.1]⟩
  | symbol x hx hna =>
    refine hx.sound hp rfl hl rfl rfl (hp.interned.of_later hl rfl rfl (fun y own hy => ?_) fun types y a b he hy hy' => ?_)
    · rw [decl_addSymbol] at hy
      split at hy
      · exact absurd hy (hna own)
      · exact hy
    · rw [decl_addSymbol_of_lt p x (lt_of_decl (by rw [hy]; simp)), hy] at hy'
      cases hy'
      rfl
  | array x own hx hd hkey => exact hx.sound hp rfl hl rfl rfl (hp.interned.addArray hl hd hkey)
  | name sc name id hfree hlt hs =>
    refine hp.of_later hl (fun n hn => .inl ⟨hn, rfl⟩) (fun x hx => .inl ⟨hx, rfl⟩) (fun sc' name' x hx => ?_)
      (fun sc' f hf => ?_) (hp.interned.of_symbols hl rfl rfl rfl)
    · rw [scope_modifyScope] at hx
      split at hx
      · rename_i heq
        obtain ⟨rfl, -⟩ := heq
        rw [Scope.find?_insert hfree] at hx
        split at hx
        · cases hx
          exact .inr ⟨hlt, hs⟩
        · exact .inl hx
      · exact .inl hx
    · rw [scope_modifyScope] at hf
      split at hf <;> exact .inl hf
  | other sc name id hfree hlt hs =>
    refine hp.of_later hl (fun n hn => .inl ⟨hn, rfl⟩) (fun x hx => .inl ⟨hx, rfl⟩) (fun sc' name' x hx => ?_)
      (fun sc' f hf => ?_) (hp.interned.of_symbols hl rfl rfl rfl)
    · rw [scope_modifyScope] at hx
      split at hx
      · rename_i heq
        obtain ⟨rfl, -⟩ := heq
        rw [Scope.find?_insertOther hfree] at hx
        split at hx
        · cases hx
          exact .inr ⟨hlt, hs⟩
        · exact .inl hx
      · exact .inl hx
    · rw [scope_modifyScope] at hf
      split at hf <;> exact .inl hf
  | scope kind parent hlt =>
    refine hp.of_later hl (fun n hn => .inl ⟨hn, rfl⟩) (fun x hx => .inl ⟨hx, rfl⟩) (fun sc name x hx => ?_)
      (fun sc f hf => ?_) (hp.interned.of_symbols hl rfl rfl rfl)
    · rw [scope_addScope] at hx
      split at hx
      · cases hx
      · exact .inl hx
    · rw [scope_addScope] at hf
      split at hf
      · cases hf
      · exact .inl hf
  | owner sc f _ hfree ho _ =>
    refine hp.of_later hl (fun n hn => .inl ⟨hn, rfl⟩) (fun x hx => .inl ⟨hx, rfl⟩) (fun sc' name x hx => ?_)
      (fun sc' g hg => ?_) (hp.interned.of_symbols hl rfl rfl rfl)
    · rw [scope_modifyScope] at hx
      split at hx <;> exact .inl hx
    · rw [scope_modifyScope] at hg
      split at hg
      · rename_i heq
        obtain ⟨rfl, -⟩ := heq
        cases hg
        exact .inr ho
      · exact .inl hg
  | decl id d ha => exact ha.setDecl_sound hp
  | tuple types id hkey ht =>
    exact hp.of_later hl (fun n hn => .inl ⟨hn, rfl⟩) (fun x hx => .inl ⟨hx, rfl⟩) (fun _ _ _ h => .inl h)
      (fun _ _ h => .inl h) (hp.interned.addTuple hkey ht)
  | modules =>
    exact hp.of_later hl (fun n hn => .inl ⟨hn, rfl⟩) (fun x hx => .inl ⟨hx, rfl⟩) (fun _ _ _ h => .inl h)
      (fun _ _ h => .inl h) (hp.interned.of_symbols hl rfl rfl rfl)

end Program

end Bindery
