import Bindery.Proofs.Evaluation
import Bindery.Proofs.Templates
/-!
# What steps keep

A state is sound when its program is, and every recorded instance is as its fingerprint says. Steps keep it sound, make
its program a later one, and leave alone what lies below their floor. Steps that are to keep the memo and the templates
coherent do so.
-/
namespace Bindery

namespace Program

variable {p q : Program} {floor : Floor}

/-- A recorded instance keeps its parameters. -/
theorem Edit.instance_params (hp : p.Sound) (h : p.Edit floor q) {e : (SymbolId × Fingerprint) × SymbolId}
    (he : e ∈ p.memo) (hx : e.2.index < p.symbols.size) {b : FunctionDecl} (hb : q.function? e.2 = some b) :
    ∃ a, p.function? e.2 = some a ∧ b.params = a.params ∧ b.receiver = a.receiver := by
  obtain ⟨a, ha, -⟩ := (h.later hp).function_of_later hx hb
  rw [function?_eq_some] at ha hb
  refine ⟨a, function?_eq_some.2 ha, ?_⟩
  rcases h.decl_cases hx with hd | hd
  · rw [hd, ha] at hb
    cases hb
    exact ⟨rfl, rfl⟩
  · exact hd.memo e he rfl a b ha hb

theorem Matches.later (h : p.Later q) {fingerprint : Fingerprint} {a b : FunctionDecl} (hp : b.params = a.params)
    (hr : b.receiver = a.receiver) (hm : p.Matches fingerprint a) : q.Matches fingerprint b := by
  unfold Matches FunctionDecl.valueParams at hm ⊢
  rw [hp, hr]
  refine hm.imp fun known param => ?_
  rintro ⟨ty, ht, hk⟩
  exact ⟨ty, h.valueType ht, hk⟩

theorem lt_of_isInstance {x : SymbolId} (h : (p.decl x).isInstance) : x.index < p.symbols.size :=
  lt_of_decl fun hd => by rw [hd] at h; cases h

theorem Finished.of_isInstance {x : SymbolId} (h : (p.decl x).isInstance) : p.Finished x := by
  refine ⟨lt_of_isInstance h, ?_⟩
  generalize p.decl x = d at h
  cases d <;> first | rfl | cases h

/-- What was made from a template stays what it is. -/
theorem Later.isInstance (h : p.Later q) {x : SymbolId} (hx : (p.decl x).isInstance) : (q.decl x).isInstance := by
  have hl := h.decl x (lt_of_isInstance hx)
  generalize p.decl x = d at hl hx
  generalize q.decl x = d' at hl
  cases hl <;> exact hx

end Program

namespace BindState

variable {s t u : BindState} {floor : Floor}

theorem Records.range {made : SymbolId} {fingerprint : Fingerprint} (h : s.Records fingerprint made) :
    made.index < s.program.symbols.size := Program.lt_of_isInstance h.isInstance

/-- What holds of every state that binding comes to. -/
structure Sound (s : BindState) : Prop where
  program : s.program.Sound
  memo : ∀ e ∈ s.program.memo, s.Records e.1.2 e.2

/-- What steps leave alone. -/
structure Frame (floor : Floor) (s t : BindState) : Prop where
  nodes : ∀ n : NodeId, n.index < s.program.nodes.size → n.index < floor.nodes → t.program.node n = s.program.node n
  operands : ∀ m o : NodeId, s.program.nodes.size ≤ m.index → o ∈ (t.program.node m).kind.operands →
    t.program.Adaptable o → floor.operands ≤ o.index
  owner : ∀ sc : ScopeId, sc.index < s.program.scopes.size → sc.index < floor.scopes →
    (t.program.scope sc).owner = (s.program.scope sc).owner
  own : ∀ (x : SymbolId) sc, s.program.symbols.size ≤ x.index → (t.program.symbol x).ownScope = some sc →
    floor.scopes ≤ sc.index
  memo : ∀ e ∈ t.program.memo, e ∈ s.program.memo ∨ floor.symbols ≤ e.2.index
  body : ∀ (f : SymbolId) a b, f.index < floor.symbols → s.program.function? f = some a →
    t.program.function? f = some b → b.body = a.body
  templates : ∀ x own, s.program.symbols.size ≤ x.index → t.program.template? x = some own →
    floor.scopes ≤ (t.program.symbol x).scope.index ∨ floor.body = some (t.program.symbol x).scope ∨
      (t.program.scope (t.program.symbol x).scope).kind = .module
  labels : ∀ (l : SymbolId) own, s.program.symbols.size ≤ l.index → t.program.decl l = .label own →
    floor.scopes ≤ (t.program.symbol l).scope.index
  constants : ∀ (x : SymbolId) tag n, s.program.symbols.size ≤ x.index → t.program.decl x = .constAlias tag n →
    t.program.Adaptable n → floor.operands ≤ n.index
  modules : floor.sealed → t.program.modules = s.program.modules
  errors : s.log.errorCount ≤ t.log.errorCount

theorem Step.later (hs : s.Sound) (h : Step floor s t) : s.program.Later t.program := by
  cases h with
  | edit program he => exact he.later hs.program
  | quiet => exact .refl hs.program.nested
  | record _ _ _ _ _ he =>
    obtain ⟨own, ht⟩ := Option.isSome_iff_exists.1 he.declared
    exact Program.registerInstance_later hs.program ht

/-- **Every step keeps a state sound.** -/
theorem Step.sound (hs : s.Sound) (h : Step floor s t) : t.Sound := by
  have hl := h.later hs
  cases h with
  | edit program he =>
    refine ⟨he.sound hs.program, fun e hm => ?_⟩
    have hm : e ∈ s.program.memo := he.memo ▸ hm
    have hr := hs.memo e hm
    refine ⟨hl.isInstance hr.isInstance, fun ty v hv => (hr.constants ty v hv).later hl hs.program, fun b hb h0 => ?_⟩
    obtain ⟨a, ha, hp, hrec⟩ := he.instance_params hs.program hm hr.range hb
    exact (hr.function a ha h0).later hl hp hrec
  | quiet names log hle =>
    refine ⟨hs.program, fun e hm => ?_⟩
    have hr := hs.memo e hm
    exact ⟨hr.isInstance, hr.constants, fun own ho h0 => hr.function own ho (Nat.le_zero.1 (h0 ▸ hle))⟩
  | record template fingerprint made _ hr he =>
    obtain ⟨own, ht⟩ := Option.isSome_iff_exists.1 he.declared
    refine ⟨Program.registerInstance_sound hs.program ht, fun e hm => ?_⟩
    have hold : s.Records e.1.2 e.2 := by
      rw [Program.memo_registerInstance ht] at hm
      rcases List.mem_cons.1 hm with rfl | hm
      · exact hr
      · exact hs.memo e hm
    refine ⟨hl.isInstance hold.isInstance, fun ty v hv => (hold.constants ty v hv).later hl hs.program, fun f hf h0 => ?_⟩
    rw [Program.function?_registerInstance ht] at hf
    exact (hold.function f hf h0).later hl rfl rfl

/-- **Steps that are to keep the memo and the templates coherent do so.** -/
theorem Step.coherent (hs : s.Sound) (h : Step floor s t) (hf : floor.coherent) (hc : s.program.Coherent) :
    t.program.Coherent := by
  cases h with
  | edit program he => exact he.coherent hs.program hf hc
  | quiet => exact hc
  | record _ _ _ _ _ he => exact he.coherent hs.program hc

/-- Nothing beyond the table is an operand. -/
theorem operands_of_le {p : Program} {m o : NodeId} (h : p.nodes.size ≤ m.index) (ho : o ∈ (p.node m).kind.operands) :
    False := by
  rw [Program.node_of_le h] at ho
  cases ho

/-- Where no symbol is added, there is none with a scope of its own, no template, no label and no constant. -/
theorem new_of_size {p : Program} {n : Nat} (hsize : p.symbols.size = n) (floor : Floor) :
    (∀ (x : SymbolId) sc, n ≤ x.index → (p.symbol x).ownScope = some sc → floor.scopes ≤ sc.index) ∧
    (∀ x own, n ≤ x.index → p.template? x = some own → floor.scopes ≤ (p.symbol x).scope.index ∨
      floor.body = some (p.symbol x).scope ∨ (p.scope (p.symbol x).scope).kind = .module) ∧
    (∀ (l : SymbolId) own, n ≤ l.index → p.decl l = .label own → floor.scopes ≤ (p.symbol l).scope.index) ∧
    ∀ (x : SymbolId) tag m, n ≤ x.index → p.decl x = .constAlias tag m → p.Adaptable m → floor.operands ≤ m.index := by
  have hdecl : ∀ (x : SymbolId) d, n ≤ x.index → p.decl x = d → d = .builtin .void := fun x d hle hd => by
    by_contra hv
    exact absurd (Program.lt_of_decl (hd ▸ hv)) (Nat.not_lt.2 (hsize ▸ hle))
  refine ⟨fun x _ hle ho => absurd (Program.lt_of_ownScope ho) (by omega),
    fun x _ hle ht => absurd (Program.lt_of_template ht) (by omega), fun l _ hle hl => ?_, fun x _ _ hle hx => ?_⟩
  · cases hdecl l _ hle hl
  · cases hdecl x _ hle hx

/-- A step that adds no node and no symbol. -/
theorem Frame.of_tables (hn : t.program.nodes = s.program.nodes) (hsize : t.program.symbols.size = s.program.symbols.size)
    (memo : ∀ e ∈ t.program.memo, e ∈ s.program.memo ∨ floor.symbols ≤ e.2.index)
    (modules : floor.sealed → t.program.modules = s.program.modules) (he : s.log.errorCount ≤ t.log.errorCount)
    (owner : ∀ sc : ScopeId, sc.index < s.program.scopes.size → sc.index < floor.scopes →
      (t.program.scope sc).owner = (s.program.scope sc).owner)
    (body : ∀ (f : SymbolId) a b, f.index < floor.symbols → s.program.function? f = some a →
      t.program.function? f = some b → b.body = a.body) : Frame floor s t := by
  have hnode : t.program.node = s.program.node := by funext id; simp only [Program.node, hn]
  obtain ⟨own, templates, labels, constants⟩ := new_of_size hsize floor
  refine ⟨fun n _ _ => by rw [hnode], fun m o hle ho _ => ?_, owner, own, memo, body, templates, labels, constants, modules, he⟩
  rw [hnode] at ho
  exact (operands_of_le hle ho).elim

theorem function_body_eq {p q : Program} (hd : ∀ f, q.function? f = p.function? f) {f : SymbolId} {a b : FunctionDecl}
    (ha : p.function? f = some a) (hb : q.function? f = some b) : b.body = a.body := by
  rw [hd, ha] at hb
  cases hb
  rfl

theorem Frame.refl (floor : Floor) (s : BindState) : Frame floor s s :=
  .of_tables rfl rfl (fun _ he => .inl he) (fun _ => rfl) (Nat.le_refl _) (fun _ _ _ => rfl)
    fun _ _ _ _ ha hb => function_body_eq (fun _ => rfl) ha hb

/-- A symbol that may be added leaves all else alone. -/
theorem frame_of_push {program : Program} {x : Symbol} (hx : s.program.Addable floor x)
    (hs : program.symbols = s.program.symbols.push x) (hn : program.nodes = s.program.nodes)
    (hc : program.scopes = s.program.scopes) (hmemo : program.memo = s.program.memo)
    (hmodules : program.modules = s.program.modules) : Frame floor s { s with program } := by
  have hnode : program.node = s.program.node := by funext n; simp only [Program.node, hn]
  have hscope : program.scope = s.program.scope := by funext sc; simp only [Program.scope, hc]
  obtain ⟨hnext, hold⟩ := Program.symbol_of_pushed hs
  -- a symbol that is not older than the table is the one that was added
  have hnew : ∀ y : SymbolId, s.program.symbols.size ≤ y.index → y.index < program.symbols.size → program.symbol y = x := by
    intro y hle hlt
    rw [hs, Array.size_push] at hlt
    obtain rfl : y = s.program.nextSymbol := SymbolId.ext (show y.index = s.program.symbols.size by omega)
    exact hnext
  refine ⟨fun _ _ _ => by rw [hnode], fun m o hle hop _ => ?_, fun _ _ _ => by rw [hscope], fun y sc hle ho => ?_,
    fun _ he => .inl (hmemo ▸ he), fun f a b _ hfa hfb => ?_, fun y own hle ht => ?_, fun l own hle hd => ?_,
    fun y tag n hle hd ha => ?_, fun _ => hmodules, Nat.le_refl _⟩
  · rw [hnode] at hop
    exact (operands_of_le hle hop).elim
  · rw [hnew y hle (Program.lt_of_ownScope ho)] at ho
    exact (hx.own sc ho).1
  · have hfb : program.function? f = some b := hfb
    rw [Program.function?_eq_some, Program.decl, hold f (Program.lt_of_function hfa), ← Program.decl,
      ← Program.function?_eq_some, hfa] at hfb
    cases hfb
    rfl
  · have hsym := hnew y hle (Program.lt_of_template ht)
    have hd : program.decl y = .template own := Program.template?_eq_some.1 ht
    rw [Program.decl, hsym] at hd
    show _ ∨ _ ∨ (program.scope _).kind = _
    rw [hsym, hscope]
    exact (hx.template own hd).2.place
  · have hd : program.decl l = .label own := hd
    have hsym := hnew l hle (Program.lt_of_decl (by rw [hd]; simp))
    rw [Program.decl, hsym] at hd
    rw [hsym]
    exact hx.label own hd
  · have hd : program.decl y = .constAlias tag n := hd
    have hsym := hnew y hle (Program.lt_of_decl (by rw [hd]; simp))
    rw [Program.decl, hsym] at hd
    refine (hx.constant tag n hd).1 ?_
    unfold Program.Adaptable at ha ⊢
    rwa [hnode] at ha

theorem frame_of_edit {program : Program} (h : s.program.Edit floor program) :
    Frame floor s { s with program } := by
  cases h with
  | node n hf ho _ =>
    obtain ⟨own, templates, labels, constants⟩ := new_of_size (p := s.program.addNode n) rfl floor
    refine ⟨fun n' hn' _ => Program.node_addNode_of_lt _ n hn', fun m o hle hop ha => ?_, fun _ _ _ => rfl, own,
      fun _ he => .inl he, fun f a b _ ha hb => function_body_eq (fun _ => rfl) ha hb, templates, labels, constants,
      fun _ => rfl, Nat.le_refl _⟩
    rw [Program.node_addNode] at hop
    split at hop
    · have hlt := hf.children o (NodeKind.operands_subset _ hop)
      refine ho o hop ?_
      unfold Program.Adaptable at ha ⊢
      rwa [Program.node_addNode_of_lt _ n hlt] at ha
    · exact (operands_of_le hle hop).elim
  | retype id ty ha hfl hl =>
    obtain ⟨own, templates, labels, constants⟩ := new_of_size (p := s.program.modifyNode id ({ · with ty })) rfl floor
    refine ⟨fun n hn hlt => ?_, fun m o hle hop ha => ?_, fun _ _ _ => rfl, own, fun _ he => .inl he,
      fun f a b _ ha hb => function_body_eq (fun _ => rfl) ha hb, templates, labels, constants, fun _ => rfl,
      Nat.le_refl _⟩
    · show (s.program.modifyNode id _).node n = _
      rw [Program.node_modifyNode, if_neg]
      rintro ⟨rfl, -⟩
      omega
    · exact (operands_of_le (p := s.program.modifyNode id _) (by rwa [Program.size_nodes_modifyNode]) hop).elim
  | symbol x hx _ => exact frame_of_push hx rfl rfl rfl rfl rfl
  | array x own hx _ _ => exact frame_of_push hx rfl rfl rfl rfl rfl
  | name sc name id =>
    refine .of_tables rfl rfl (fun _ he => .inl he) (fun _ => rfl) (Nat.le_refl _) (fun sc' _ _ => ?_)
      fun f a b _ ha hb => function_body_eq (fun _ => rfl) ha hb
    rw [Program.scope_modifyScope]
    split <;> rfl
  | other sc name id =>
    refine .of_tables rfl rfl (fun _ he => .inl he) (fun _ => rfl) (Nat.le_refl _) (fun sc' _ _ => ?_)
      fun f a b _ ha hb => function_body_eq (fun _ => rfl) ha hb
    rw [Program.scope_modifyScope]
    split <;> rfl
  | scope kind parent =>
    refine .of_tables rfl rfl (fun _ he => .inl he) (fun _ => rfl) (Nat.le_refl _) (fun sc hlt _ => ?_)
      fun f a b _ ha hb => function_body_eq (fun _ => rfl) ha hb
    rw [Program.scope_addScope_of_lt _ _ hlt]
  | owner sc f hfl =>
    refine .of_tables rfl rfl (fun _ he => .inl he) (fun _ => rfl) (Nat.le_refl _) (fun sc' _ hlt => ?_)
      fun f a b _ ha hb => function_body_eq (fun _ => rfl) ha hb
    rw [Program.scope_modifyScope, if_neg]
    rintro ⟨rfl, -⟩
    omega
  | decl id d ha =>
    refine .of_tables rfl (Program.size_symbols_setDecl ..) (fun _ he => .inl he) (fun _ => rfl) (Nat.le_refl _)
      (fun _ _ _ => rfl) fun f a b hlt hfa hfb => ?_
    rw [Program.function?_eq_some] at hfa hfb
    by_cases hid : id = f
    · subst hid
      rw [Program.decl_setDecl_self _ _ ha.range] at hfb
      exact ha.body hlt a b hfa hfb
    · rw [Program.decl_setDecl_of_ne _ _ hid, hfa] at hfb
      cases hfb
      rfl
  | tuple =>
    exact .of_tables rfl rfl (fun _ he => .inl he) (fun _ => rfl) (Nat.le_refl _) (fun _ _ _ => rfl)
      fun f a b _ ha hb => function_body_eq (fun _ => rfl) ha hb
  | modules symbols hopen =>
    exact .of_tables rfl rfl (fun _ he => .inl he) (fun h => by rw [hopen] at h; cases h) (Nat.le_refl _)
      (fun _ _ _ => rfl) fun f a b _ ha hb => function_body_eq (fun _ => rfl) ha hb

theorem Step.frame (h : Step floor s t) : Frame floor s t := by
  cases h with
  | edit program he => exact frame_of_edit he
  | quiet names log hle =>
    exact .of_tables rfl rfl (fun _ he => .inl he) (fun _ => rfl) hle (fun _ _ _ => rfl)
      fun f a b _ ha hb => function_body_eq (fun _ => rfl) ha hb
  | record template fingerprint made hfl _ he =>
    obtain ⟨own, ht⟩ := Option.isSome_iff_exists.1 he.declared
    have heq : s.program.registerInstance template fingerprint made = _ := Program.registerInstance_eq ht
    refine .of_tables (by rw [heq]; rfl) (by rw [heq]; exact Program.size_symbols_setDecl ..) (fun e hm => ?_)
      (fun _ => by rw [heq]; rfl) (Nat.le_refl _) (fun _ _ _ => by rw [heq]; rfl)
      fun f a b _ ha hb => function_body_eq (Program.function?_registerInstance ht) ha hb
    rw [Program.memo_registerInstance ht] at hm
    rcases List.mem_cons.1 hm with rfl | hm
    · exact .inr hfl
    · exact .inl hm

theorem Frame.trans (hst : s.program.Later t.program) (htu : t.program.Later u.program) (ht : t.Sound)
    (h : Frame floor s t) (k : Frame floor t u) : Frame floor s u where
  nodes n hn hlt := (k.nodes n (Nat.lt_of_lt_of_le hn hst.nodes) hlt).trans (h.nodes n hn hlt)
  operands m o hle ho ha := by
    by_cases hm : m.index < t.program.nodes.size
    · rw [htu.kind m hm] at ho
      have hlt := (ht.program.fits m hm).children o (NodeKind.operands_subset _ ho)
      exact h.operands m o hle ho ((htu.adaptable hlt).1 ha)
    · exact k.operands m o (Nat.le_of_not_lt hm) ho ha
  owner sc hs hlt := (k.owner sc (Nat.lt_of_lt_of_le hs hst.scopes.size) hlt).trans (h.owner sc hs hlt)
  own x sc hle ho := by
    by_cases hx : x.index < t.program.symbols.size
    · exact h.own x sc hle (by rw [← htu.ownScope x hx, ho])
    · exact k.own x sc (Nat.le_of_not_lt hx) ho
  memo e he := (k.memo e he).elim (h.memo e) .inr
  body f a b hlt ha hb := by
    obtain ⟨own, hown, -⟩ := hst.function ha
    rw [k.body f own b hlt hown hb, h.body f a own hlt ha hown]
  templates x own hle hx := by
    by_cases hlt : x.index < t.program.symbols.size
    · obtain ⟨own', hx'⟩ := htu.template_of_later hlt hx
      have hsc := htu.scope x hlt
      rw [hsc, htu.scopes.kind _ (ht.program.admits x hlt).scope]
      exact h.templates x own' hle hx'
    · exact k.templates x own (Nat.le_of_not_lt hlt) hx
  labels l own hle hl := by
    by_cases hlt : l.index < t.program.symbols.size
    · rw [htu.scope l hlt]
      exact h.labels l own hle (htu.label_of_later hlt hl)
    · exact k.labels l own (Nat.le_of_not_lt hlt) hl
  constants x tag n hle hx ha := by
    by_cases hlt : x.index < t.program.symbols.size
    · have hx' := htu.constAlias_of_later hlt hx
      exact h.constants x tag n hle hx' ((htu.adaptable (ht.program.inOrder_of_decl hx' (by simp))).1 ha)
    · exact k.constants x tag n (Nat.le_of_not_lt hlt) hx ha
  modules hsealed := (k.modules hsealed).trans (h.modules hsealed)
  errors := Nat.le_trans h.errors k.errors

/-- **What a sequence of steps keeps**: it makes a sound state with a later program, and leaves alone what lies below
its floor. -/
theorem Steps.keep (hs : s.Sound) (h : Steps floor s t) : t.Sound ∧ s.program.Later t.program ∧ Frame floor s t := by
  induction h with
  | refl => exact ⟨hs, .refl hs.program.nested, .refl floor s⟩
  | tail _ hstep ih =>
    obtain ⟨hm, hl, hf⟩ := ih
    have hl' := hstep.later hm
    exact ⟨hstep.sound hm, hl.trans hl', hf.trans hl hl' hm hstep.frame⟩

theorem Steps.coherent (hs : s.Sound) (h : Steps floor s t) (hf : floor.coherent) (hc : s.program.Coherent) :
    t.program.Coherent := by
  induction h with
  | refl => exact hc
  | tail hsteps hstep ih => exact hstep.coherent (Steps.keep hs hsteps).1 hf ih

/-- **A step leaves a node as it is**, or is the one that gives a literal another type, or the one that adds the node. -/
theorem Step.node_cases (h : Step floor s t) (n : NodeId) : t.program.node n = s.program.node n ∨
    (∃ ty, s.program.adaptsTo n ty ∧ t = { s with program := s.program.adaptLiteral n ty } ∧
      t.program.node n = { s.program.node n with ty }) ∨
    (n = s.program.nextNode ∧ s.program.Fresh floor (t.program.node n)) := by
  cases h with
  | edit program he =>
    cases he with
    | node made _ _ hf =>
      by_cases hn : n = s.program.nextNode
      · subst hn
        refine .inr (.inr ⟨rfl, ?_⟩)
        rwa [Program.node_addNode_next]
      · exact .inl (by rw [Program.node_addNode, if_neg hn])
    | retype m ty ha =>
      by_cases hn : m = n ∧ n.index < s.program.nodes.size
      · obtain rfl := hn.1
        refine .inr (.inl ⟨ty, ha, ?_, ?_⟩)
        · rw [Program.adaptLiteral, if_pos ha]
        · rw [Program.node_modifyNode, if_pos hn]
      · exact .inl (by rw [Program.node_modifyNode, if_neg hn])
    | symbol | name | other | scope | owner | decl | array | tuple | modules => exact .inl rfl
  | quiet => exact .inl rfl
  | record template fingerprint made _ _ he =>
    obtain ⟨own, ht⟩ := Option.isSome_iff_exists.1 he.declared
    exact .inl (by rw [Program.registerInstance_eq ht]; rfl)

/-- A call that a step adds has the return type that its function has. -/
theorem Step.calls (h : Step floor s t) {n : NodeId} {f : SymbolId} {args : List NodeId} {own : FunctionDecl}
    (hn : s.program.nodes.size ≤ n.index) (hk : (t.program.node n).kind = .call f args)
    (ho : s.program.function? f = some own) : own.ret = some (t.program.node n).ty := by
  have hnew := Program.node_of_le hn
  rcases h.node_cases n with heq | ⟨ty, -, -, heq⟩ | ⟨-, hf⟩
  · rw [heq, hnew] at hk
    cases hk
  · rw [heq, hnew] at hk
    cases hk
  · exact hf.called f args own hk ho

/-- A step keeps every recorded instance, and the parameters of those that are functions. -/
theorem Step.instances (hs : s.Sound) (h : Step floor s t) {e : (SymbolId × Fingerprint) × SymbolId}
    (he : e ∈ s.program.memo) : e ∈ t.program.memo ∧ ∀ b, t.program.function? e.2 = some b →
      ∃ a, s.program.function? e.2 = some a ∧ b.params = a.params ∧ b.receiver = a.receiver := by
  cases h with
  | edit program hedit =>
    exact ⟨hedit.memo ▸ he, fun b hb => hedit.instance_params hs.program he (hs.memo e he).range hb⟩
  | quiet => exact ⟨he, fun b hb => ⟨b, hb, rfl, rfl⟩⟩
  | record template fingerprint made _ _ hentry =>
    obtain ⟨own, ht⟩ := Option.isSome_iff_exists.1 hentry.declared
    rw [Program.memo_registerInstance ht, Program.function?_registerInstance ht]
    exact ⟨List.mem_cons_of_mem _ he, fun b hb => ⟨b, hb, rfl, rfl⟩⟩

/-- **A recorded instance stays recorded with the parameters it has.** -/
theorem Steps.instances (hs : s.Sound) (h : Steps floor s t) {e : (SymbolId × Fingerprint) × SymbolId}
    (he : e ∈ s.program.memo) : e ∈ t.program.memo ∧ ∀ b, t.program.function? e.2 = some b →
      ∃ a, s.program.function? e.2 = some a ∧ b.params = a.params ∧ b.receiver = a.receiver := by
  induction h with
  | refl => exact ⟨he, fun b hb => ⟨b, hb, rfl, rfl⟩⟩
  | tail hsteps hstep ih =>
    obtain ⟨hm, hp⟩ := ih
    obtain ⟨hm', hp'⟩ := hstep.instances (Steps.keep hs hsteps).1 hm
    refine ⟨hm', fun b hb => ?_⟩
    obtain ⟨a, ha, hpa, hra⟩ := hp' b hb
    obtain ⟨a', ha', hpa', hra'⟩ := hp a ha
    exact ⟨a', ha', hpa.trans hpa', hra.trans hra'⟩

/-- A scope may get templates above a lower floor, too. -/
theorem declares_weaken {p : Program} {floor' : Floor} {sc : ScopeId} (h : p.Declares floor sc) (hle : floor' ≤ floor) :
    p.Declares floor' sc where
  place := by
    obtain ⟨-, -, hscopes, -, hbody, -, -⟩ := hle
    rcases h.place with h | h | h
    · exact .inl (Nat.le_trans hscopes h)
    · exact (hbody sc h).imp_right .inl
    · exact .inr (.inr h)
  begun hf := h.begun (hle.2.2.2.2.2.2 hf)

/-- What may be added above a floor may be added above a lower one. -/
theorem addable_weaken {p : Program} {floor' : Floor} {x : Symbol} (h : p.Addable floor x) (hle : floor' ≤ floor) :
    p.Addable floor' x := by
  obtain ⟨ho, -, hc, -, -, -, hcoh⟩ := id hle
  refine { h with
    own := fun sc hsc => (h.own sc hsc).imp_left (Nat.le_trans hc)
    template := fun own hd => ⟨fun hf => (h.template own hd).1 (hcoh hf), declares_weaken (h.template own hd).2 hle⟩
    label := fun own hd => Nat.le_trans hc (h.label own hd)
    constant := fun tag n hd => (h.constant tag n hd).imp (fun hn ha => Nat.le_trans ho (hn ha))
      (·.imp_left fun hn hf => hn (hcoh hf)) }

theorem Step.weaken {floor' : Floor} (h : Step floor s t) (hle : floor' ≤ floor) : Step floor' s t := by
  obtain ⟨ho, hn, hc, hx, -, hopen, hcoh⟩ := id hle
  cases h with
  | edit program he =>
    refine .edit program ?_
    cases he with
    | node n hf hop hcall => exact .node n hf (fun o hm ha => Nat.le_trans ho (hop o hm ha)) { hcall with natural := fun hf => hcall.natural (hcoh hf) }
    | retype id ty ha hfl hl => exact .retype id ty ha (Nat.le_trans hn hfl) hl
    | symbol x ha hna => exact .symbol x (addable_weaken ha hle) hna
    | array x own ha hd hkey => exact .array x own (addable_weaken ha hle) hd hkey
    | name sc name id hfree hlt hs hname => exact .name sc name id hfree hlt hs hname
    | other sc name id hfree hlt hs hname => exact .other sc name id hfree hlt hs hname
    | scope kind parent hlt => exact .scope kind parent hlt
    | owner sc f hfl hfree hown hcap => exact .owner sc f (Nat.le_trans hc hfl) hfree hown hcap
    | decl id d ha =>
      refine .decl id d { ha with body := fun hlt => ha.body (Nat.lt_of_lt_of_le hlt hx), template := fun own hd => ?_ }
      exact ⟨fun hf => (ha.template own hd).1 (hcoh hf), (ha.template own hd).2⟩
    | tuple types id hkey ht => exact .tuple types id hkey ht
    | modules symbols h => exact .modules symbols (Bool.eq_false_iff.2 fun h' => by rw [hopen h'] at h; cases h)
  | quiet names log hle => exact .quiet names log hle
  | record template fingerprint made hfl hr he =>
    exact .record template fingerprint made (Nat.le_trans hx hfl) hr he

theorem Steps.weaken {floor' : Floor} (h : Steps floor s t) (hle : floor' ≤ floor) : Steps floor' s t :=
  Relation.ReflTransGen.mono (fun _ _ (hs : Step floor _ _) => hs.weaken hle) _ _ h

end BindState

/-! ## The start -/

namespace Program

theorem symbol_initial {w i : Nat} {name : String} {own : Builtin} (h : Builtin.all[i]? = some (name, own)) :
    (initial w).symbol ⟨i⟩ = { name, scope := .builtin, pos := .synthetic, decl := .builtin own } := by
  simp [symbol, initial, builtinSymbols, h]

theorem exists_builtin {i : Nat} (h : i < Builtin.all.length) : ∃ name own, Builtin.all[i]? = some (name, own) :=
  ⟨_, _, List.getElem?_eq_getElem h⟩

theorem scope_initial (w : Nat) (sc : ScopeId) :
    (initial w).scope sc = if sc.index = 0 then builtinScopes[0] else if sc.index = 1 then builtinScopes[1] else default := by
  obtain ⟨_ | _ | i⟩ := sc <;> simp [scope, initial, builtinScopes]

theorem builtinScopes_find {name : String} {x : SymbolId} (h : builtinScopes[0].find? name = some x) :
    ∃ i, i < Builtin.all.length ∧ x = ⟨i⟩ := by
  have h : (Builtin.all.mapIdx fun i e => (e.1, (⟨i⟩ : SymbolId))).lookup name = some x := by
    simpa [builtinScopes, Scope.find?, Scope.get?, Scope.getOther?] using h
  obtain ⟨i, hi, he⟩ := List.mem_mapIdx.1 (mem_of_lookup h)
  cases he
  exact ⟨i, hi, rfl⟩

theorem decl_initial (w : Nat) (x : SymbolId) : ∃ own, (initial w).decl x = .builtin own := by
  by_cases hx : x.index < Builtin.all.length
  · obtain ⟨name, own, h⟩ := exists_builtin hx
    exact ⟨own, by rw [decl, symbol_initial (i := x.index) h]⟩
  · refine ⟨.void, ?_⟩
    rw [decl, symbol_of_le (by simpa [initial, builtinSymbols] using hx)]
    rfl

/-- There are no arrays and no tuples at the start. -/
theorem initial_interned (w : Nat) : (initial w).Interned where
  recorded := by rintro _ ⟨⟩
  array x own hx := by
    obtain ⟨own', hd⟩ := decl_initial w x
    rw [hd] at hx
    cases hx
  arrays := .nil
  tuple := by rintro _ ⟨⟩
  tuples := .nil

theorem initial_sound (w : Nat) : (initial w).Sound := by
  have hsize : (initial w).symbols.size = Builtin.all.length := by simp [initial, builtinSymbols]
  refine ⟨fun sc parent hp => ?_, fun n m hm => ?_, fun n hn => ?_, fun x hx => ?_, fun sc name x hx => ?_,
    fun sc f hf => ?_, fun id name own h => ?_, Nat.le_refl 2, initial_interned w⟩
  · rw [scope_initial] at hp
    split at hp
    · cases hp
    · split at hp
      · cases hp
        simp only [ScopeId.builtin]
        omega
      · cases hp
  · exact absurd (lt_of_mem_children hm) (Nat.not_lt_zero _)
  · exact absurd hn (Nat.not_lt_zero _)
  · rw [hsize] at hx
    obtain ⟨name, own, h⟩ := exists_builtin hx
    rw [symbol_initial (i := x.index) h]
    exact ⟨Nat.zero_lt_succ 1, by rintro _ ⟨⟩, .inr ⟨name, h⟩⟩
  · rw [scope_initial] at hx
    split at hx
    · rename_i h0
      obtain ⟨i, hi, rfl⟩ := builtinScopes_find hx
      obtain ⟨name', own, h⟩ := exists_builtin hi
      rw [hsize, symbol_initial h]
      exact ⟨hi, (ScopeId.ext h0).symm⟩
    · split at hx
      · cases hx
      · cases hx
  · rw [scope_initial] at hf
    split at hf
    · cases hf
    · split at hf <;> cases hf
  · rw [decl, symbol_initial (i := id.index) h]

theorem initial_memoized (w : Nat) : (initial w).Memoized where
  recorded := by rintro _ ⟨⟩
  listed t own ht := by
    obtain ⟨own', hd⟩ := decl_initial w t
    rw [template?_eq_some, hd] at ht
    cases ht
  keys := .nil
  values := .nil

/-- There are no scopes at the start that belong to a symbol. -/
theorem ownScope_initial (w : Nat) (x : SymbolId) : ((initial w).symbol x).ownScope = none := by
  rcases hx : ((initial w).symbol x).ownScope with _ | sc
  · rfl
  · obtain ⟨name, own, h⟩ := exists_builtin (i := x.index) (by simpa [initial, builtinSymbols] using lt_of_ownScope hx)
    rw [symbol_initial (i := x.index) h] at hx
    cases hx

theorem initial_reserved (w : Nat) : (initial w).Reserved where
  own x y sc hx := by
    rw [ownScope_initial] at hx
    cases hx
  idle m own sc hm := by
    obtain ⟨own', hd⟩ := decl_initial w m
    rw [module?_eq_some, hd] at hm
    cases hm

/-- There are no templates at the start. -/
theorem initial_coherent (w : Nat) : (initial w).Coherent where
  memoized := initial_memoized w
  reserved := initial_reserved w
  natural x tag n hx := by
    obtain ⟨own, hd⟩ := decl_initial w x
    rw [hd] at hx
    cases hx

end Program

theorem BindState.initial_sound (options : BindOptions) (names : NameTable) : (initial options names).Sound :=
  ⟨Program.initial_sound _, by rintro _ ⟨⟩⟩

end Bindery
