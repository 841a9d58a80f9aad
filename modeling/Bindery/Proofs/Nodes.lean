import Bindery.Proofs.Held
import Bindery.Proofs.Targets
/-!
# Rules that make nodes

A node is kept as soon as it is added, when its children are and it jumps to nothing out of reach. The rules that convert,
read through references, mark constants and fold either give back the node they were given or make a plain one: no name,
and no literal that could be retyped. None of them depends on the place where it runs, so that they serve for nodes that
are kept elsewhere.
-/
namespace Bindery

/-- Neither a name nor a literal that may be retyped. -/
def NodeKind.isPlain : NodeKind → Bool
  | .literal _ adaptable => !adaptable
  | .valueName .. => false
  | _ => true

/-- A plain node that is no call, no size, no jump and no mark of a constant. Nothing outside its tree is looked at when it
is added. -/
def NodeKind.isSimple : NodeKind → Bool
  | .call .. | .sizeOf .. | .breaks _ | .continues _ | .constExpr _ => false
  | kind => kind.isPlain

theorem NodeKind.isPlain_of_isSimple {kind : NodeKind} (h : kind.isSimple) : kind.isPlain := by
  cases kind <;> first | exact h | cases h

/-- Neither a call nor a size nor a literal that may be retyped, and no mark of a constant. -/
def NodeKind.isSettled : NodeKind → Bool
  | .call .. | .sizeOf .. | .literal _ true | .constExpr _ => false
  | _ => true

theorem NodeKind.isSettled_of_isSimple {kind : NodeKind} (h : kind.isSimple) : kind.isSettled := by
  cases kind
  case literal value adaptable => cases adaptable <;> first | rfl | cases h
  all_goals first | rfl | cases h

theorem NodeKind.jump?_of_isSimple {kind : NodeKind} (h : kind.isSimple) : kind.jump? = none := by
  cases kind <;> first | rfl | cases h

/-- A simple node that refers to no symbol. -/
def NodeKind.isBare (kind : NodeKind) : Bool := kind.isSimple && kind.symbols.isEmpty

theorem NodeKind.isBare_iff {kind : NodeKind} : kind.isBare ↔ kind.isSimple ∧ kind.symbols = [] := by
  simp [isBare]

namespace Program

variable {p : Program} {n : NodeId}

theorem Fresh.of_isSettled {floor : Floor} {node : Node} (h : node.kind.isSettled) : p.Fresh floor node where
  called _ _ _ hk := by rw [hk] at h; cases h
  sized _ _ hk := by rw [hk] at h; cases h
  natural _ _ hk := by rw [hk] at h; cases h
  marks _ hk := by rw [hk] at h; cases h

/-- What returns has no value. -/
theorem Sound.void_of_returns (hp : p.Sound) {ty : Ty} (hr : p.Returns n ty) : (p.node n).ty = .void := by
  have hk : (p.node n).kind.holdsReturn := by
    rcases returns_iff.1 hr with ⟨v, hv, -⟩ | ⟨m, hm, -⟩
    · rw [hv]
      rfl
    · exact NodeKind.holdsReturn_of_mem hm
  have hn : n.index < p.nodes.size := by
    by_contra hge
    rw [node_of_le (Nat.le_of_not_lt hge)] at hk
    cases hk
  exact (hp.fits n hn).void hk

/-- A literal that may be retyped is an integer. -/
theorem Sound.isIntegral_of_adaptable (hp : p.Sound) (ha : p.Adaptable n) : p.isIntegral (p.node n).ty := by
  obtain ⟨value, hv⟩ := ha
  exact ((hp.fits n (lt_of_adaptable ⟨value, hv⟩)).literal value hv).2

theorem Sound.isIntegral_int (hp : p.Sound) {bits : Nat} {signed : Bool} (hm : .int bits signed ∈ Scalar.all) :
    p.isIntegral (.int bits signed) := by
  have h := hp.standard.scalar?_ofScalar hm
  unfold isIntegral
  rw [show Ty.int bits signed = .ofScalar (.int bits signed) from rfl, h]

theorem Sound.not_adaptable_of_bool (hp : p.Sound) (hb : (p.node n).ty = .bool) : ¬ p.Adaptable n := by
  intro ha
  have hi := hp.isIntegral_of_adaptable ha
  rw [hb, isIntegral, hp.standard.scalar?_bool] at hi
  cases hi

end Program

/-- A plain node of a type, which is kept. -/
structure Made (k : Nat) (g : Context) (t : BindState) (ty : Ty) (n : NodeId) (w : Prop := True) : Prop where
  held : Kept k g t n w
  plain : (t.program.node n).kind.isPlain
  type : (t.program.node n).ty = ty

/-- A rule gave back the node it was given, or a plain one. -/
structure Turned (k : Nat) (g : Context) (s t : BindState) (n m : NodeId) (w : Prop := True) : Prop where
  held : Kept k g t m w
  same : (m = n ∧ t = s) ∨ (t.program.node m).kind.isPlain

theorem not_adaptable_of_isPlain {p : Program} {n : NodeId} (h : (p.node n).kind.isPlain) : ¬ p.Adaptable n := by
  rintro ⟨value, hv⟩
  rw [hv] at h
  cases h

section results

variable {k : Nat} {g : Context} {s t u : BindState} {n m o : NodeId} {ty : Ty} {w : Prop}

theorem Result.of_plain (h : Kept k g t n w) (hp : (t.program.node n).kind.isPlain) : Result k g t n w where
  held := h
  spare ha := absurd ha (not_adaptable_of_isPlain hp)
  natural _ := .of_not_adaptable (not_adaptable_of_isPlain hp)
  visible x hx := by
    rw [hx] at hp
    cases hp

theorem Made.result (h : Made k g t ty n w) : Result k g t n w := .of_plain h.held h.plain

theorem Made.turned (h : Made k g t ty m w) : Turned k g s t n m w := ⟨h.held, .inr h.plain⟩

theorem Turned.refl (h : Kept k g s n w) : Turned k g s s n n w := ⟨h, .inl ⟨rfl, rfl⟩⟩

theorem Turned.trans (h : Turned k g s t n m w) (h' : Turned k g t u m o w) : Turned k g s u n o w := by
  refine ⟨h'.held, ?_⟩
  rcases h'.same with ⟨rfl, rfl⟩ | hp
  · exact h.same
  · exact .inr hp

theorem Turned.natural (h : Turned k g s t n m w) (hn : (s.program.node n).IsNatural) :
    (t.program.node m).IsNatural := by
  rcases h.same with ⟨rfl, rfl⟩ | hp
  · exact hn
  · exact .of_not_adaptable (not_adaptable_of_isPlain hp)

theorem Turned.passed (h : Turned k g s t n m w) (hn : Passed k g s n w) : Passed k g t m w := by
  refine ⟨h.held, fun hw hnat => ?_⟩
  rcases h.same with ⟨rfl, rfl⟩ | hp
  · exact hn.natural hw hnat
  · exact .of_not_adaptable (not_adaptable_of_isPlain hp)

theorem Turned.result (h : Turned k g s t n m w) (hn : Result k g s n w) : Result k g t m w := by
  rcases h.same with ⟨rfl, rfl⟩ | hp
  · exact hn
  · exact .of_plain h.held hp

end results

namespace BindM

variable {floor : Floor} {k : Nat} {c g : Context} {s₀ s : BindState} {w : Prop}

/-! ## Adding nodes -/

/-- The node was added, and is kept. -/
structure Added (k : Nat) (g : Context) (s t : BindState) (node : Node) (n : NodeId) (w : Prop := True) : Prop where
  program : t.program = s.program.addNode node
  id : n = s.program.nextNode
  held : Kept k g t n w

theorem Added.node {t : BindState} {node : Node} {n : NodeId} (h : Added k g s t node n w) : t.program.node n = node := by
  rw [h.program, h.id, Program.node_addNode_next]

/-- A node is added whose operands are new enough. -/
theorem addNode_of_operands {pos : Span} {ty : Ty} {kind : NodeKind} (hg : Ready k g s)
    (hf : s.program.Fits ⟨pos, ty, kind⟩) (hc : ∀ m ∈ kind.children, Kept 0 g s m w)
    (ho : ∀ o ∈ kind.operands, s.program.Adaptable o → k ≤ o.index)
    (hx : ∀ x, kind = .valueName x [] → (s.program.decl x).isVariable → s.program.Seen g.scope x)
    (hr : ∀ v, kind = .returns (some v) → ∃ f own, g.function = some f ∧ s.program.function? f = some own ∧
      own.ret = some (s.program.node v).ty)
    (hj : w → ∀ again l, kind.jump? = some (again, l) → s.program.InReach g again l)
    (hfresh : s.program.Fresh (s.floor k) ⟨pos, ty, kind⟩) :
    Ends (addNode pos ty kind) c s (At k s) fun n t => Added k g s t ⟨pos, ty, kind⟩ n w := by
  have hat : At k s { s with program := s.program.addNode ⟨pos, ty, kind⟩ } :=
    (Via.start hg).edit (.node _ hf ho hfresh) rfl
  have hrun : (addNode pos ty kind).runAt c s =
    (some s.program.nextNode, { s with program := s.program.addNode ⟨pos, ty, kind⟩ }) := rfl
  refine .of_run hrun hat ⟨rfl, rfl, ?_⟩
  have hkids : ∀ m ∈ kind.children, Kept 0 g { s with program := s.program.addNode ⟨pos, ty, kind⟩ } m w :=
    fun m hm => (hc m hm).mono { hg with le := Nat.zero_le _ } hat
  refine ⟨⟨by simp [Program.nextNode], fun _ => hg.le, fun x hn hv => ?_, fun ty' hret => ?_⟩, fun hw again l hl => ?_⟩
  · rw [Program.names_iff, Program.node_addNode_next] at hn
    rcases hn with hn | ⟨m, hm, hn⟩
    · exact Held.seen hg hg.scope hat.keeps (hf.named x [] hn).1 (hx x hn hv)
    · exact (hkids m hm).names x hn hv
  · rw [Program.returns_iff, Program.node_addNode_next] at hret
    rcases hret with ⟨v, hv, hty⟩ | ⟨m, hm, hret⟩
    · have hlt := (hc v (by rw [show kind = _ from hv]; simp [NodeKind.children])).range
      rw [Program.node_addNode_of_lt _ _ hlt] at hty
      exact hty ▸ hr v hv
    · exact (hkids m (NodeKind.statements_subset _ hm)).returns ty' hret
  · rw [Program.leaves_iff, Program.node_addNode_next] at hl
    rcases hl with hl | ⟨-, m, hm, hl⟩
    · exact (hj hw again l hl).later hat.later hg.sound.program hg.scope
        (hf.symbols l (NodeKind.mem_symbols_of_jump? hl)).range
    · exact (hkids m hm).jumps hw again l hl

theorem addNode_ends {pos : Span} {ty : Ty} {kind : NodeKind} (hg : Ready k g s)
    (hf : s.program.Fits ⟨pos, ty, kind⟩) (hc : ∀ m ∈ kind.children, Kept k g s m w)
    (hx : ∀ x, kind = .valueName x [] → (s.program.decl x).isVariable → s.program.Seen g.scope x)
    (hr : ∀ v, kind = .returns (some v) → ∃ f own, g.function = some f ∧ s.program.function? f = some own ∧
      own.ret = some (s.program.node v).ty)
    (hj : w → ∀ again l, kind.jump? = some (again, l) → s.program.InReach g again l)
    (hfresh : s.program.Fresh (s.floor k) ⟨pos, ty, kind⟩) :
    Ends (addNode pos ty kind) c s (At k s) fun n t => Added k g s t ⟨pos, ty, kind⟩ n w :=
  addNode_of_operands hg hf (fun m hm => (hc m hm).lower (Nat.zero_le k))
    (fun o ho => (hc o (NodeKind.operands_subset _ ho)).floor) hx hr hj hfresh

/-- A plain node that is no call and no jump. -/
theorem addFresh_ends {pos : Span} {ty : Ty} {kind : NodeKind} (hg : Ready k g s) (hp : kind.isPlain)
    (hcall : ∀ f args, kind ≠ .call f args) (hj : kind.jump? = none) (hv : kind.holdsReturn → ty = .void)
    (hr : ∀ v, kind ≠ .returns (some v)) (ht : s.program.Typed s.program.ReachesField ⟨pos, ty, kind⟩)
    (hc : ∀ m ∈ kind.children, Kept k g s m w) (hx : ∀ x ∈ kind.symbols, s.program.Finished x)
    (hk : s.program.Folds ⟨pos, ty, kind⟩) (hfresh : s.program.Fresh (s.floor k) ⟨pos, ty, kind⟩) :
    Ends (addNode pos ty kind) c s (At k s) fun n t =>
      Made k g t ty n w ∧ t.program = s.program.addNode ⟨pos, ty, kind⟩ ∧ n = s.program.nextNode := by
  have hf : s.program.Fits ⟨pos, ty, kind⟩ :=
    { children := fun m hm => (hc m hm).range
      typed := ht
      void := hv
      literal := fun value hl => by rw [show kind = _ from hl] at hp; cases hp
      named := fun x hops hl => by rw [show kind = _ from hl] at hp; cases hp
      called := fun f args hl => absurd hl (hcall f args)
      symbols := hx
      folds := hk }
  refine (addNode_ends hg hf hc (fun x hx => by rw [hx] at hp; cases hp) (fun v h => absurd h (hr v))
    (fun _ _ _ h => by rw [hj] at h; cases h) hfresh).mono fun n t _ ha => ?_
  exact ⟨⟨ha.held, by rw [ha.node]; exact hp, by rw [ha.node]⟩, ha.program, ha.id⟩

/-- A node that is no name, no call, no size, no jump and no mark of a constant. -/
theorem addMade_ends {pos : Span} {ty : Ty} {kind : NodeKind} (hg : Ready k g s) (hp : kind.isSimple)
    (hv : kind.holdsReturn → ty = .void) (hr : ∀ v, kind ≠ .returns (some v))
    (ht : s.program.Typed s.program.ReachesField ⟨pos, ty, kind⟩) (hc : ∀ m ∈ kind.children, Kept k g s m w)
    (hx : ∀ x ∈ kind.symbols, s.program.Finished x) (hk : s.program.Folds ⟨pos, ty, kind⟩) :
    Ends (addNode pos ty kind) c s (At k s) fun n t => Made k g t ty n w :=
  .mono (addFresh_ends hg (NodeKind.isPlain_of_isSimple hp) (by rintro f args rfl; cases hp)
    (NodeKind.jump?_of_isSimple hp) hv hr ht hc hx hk (.of_isSettled (NodeKind.isSettled_of_isSimple hp)))
    fun _ _ _ h => h.1

/-- An expression that refers to no symbol. -/
theorem addPlain_ends {pos : Span} {ty : Ty} {kind : NodeKind} (hg : Ready k g s) (hp : kind.isBare)
    (hv : kind.holdsReturn = false) (ht : s.program.Typed s.program.ReachesField ⟨pos, ty, kind⟩)
    (hc : ∀ m ∈ kind.children, Kept k g s m w) (hk : s.program.Folds ⟨pos, ty, kind⟩) :
    Ends (addNode pos ty kind) c s (At k s) fun n t => Made k g t ty n w :=
  addMade_ends hg (NodeKind.isBare_iff.1 hp).1 (by rw [hv]; rintro ⟨⟩) (by rintro v rfl; cases hv) ht hc
    (by simp [(NodeKind.isBare_iff.1 hp).2]) hk

/-- A statement that is no `return` and refers to no symbol. -/
theorem addStatement_ends {pos : Span} {kind : NodeKind} (hg : Ready k g s) (hp : kind.isBare)
    (hr : ∀ v, kind ≠ .returns (some v)) (ht : s.program.Typed s.program.ReachesField ⟨pos, .void, kind⟩)
    (hc : ∀ m ∈ kind.children, Kept k g s m w) (hk : s.program.Folds ⟨pos, .void, kind⟩) :
    Ends (addStatement pos kind) c s (At k s) fun n t => Made k g t .void n w :=
  addMade_ends hg (NodeKind.isBare_iff.1 hp).1 (fun _ => rfl) hr ht hc (by simp [(NodeKind.isBare_iff.1 hp).2]) hk

/-- A literal that may be retyped is added with the smallest type that holds it. -/
theorem addLiteral_ends {pos : Span} {ty : Ty} {i : Int} (hg : Ready k g s) (hi : s.program.isIntegral ty)
    (hv : s.program.Carries True True ty (.int i)) (hn : s.program.Natural → Node.IsNatural ⟨pos, ty, .literal (.int i) true⟩) :
    Ends (addNode pos ty (.literal (.int i) true)) c s (At k s) fun n t => Result k g t n w := by
  have hf : s.program.Fits ⟨pos, ty, .literal (.int i) true⟩ :=
    { children := by rintro _ ⟨⟩
      typed := trivial
      void := by rintro ⟨⟩
      literal := by rintro _ ⟨⟩; exact ⟨⟨i, rfl⟩, hi⟩
      named := by rintro _ _ ⟨⟩
      called := by rintro _ _ ⟨⟩
      symbols := by rintro _ ⟨⟩
      folds := hv }
  refine (addNode_ends (w := w) hg hf (by rintro _ ⟨⟩) (by rintro _ ⟨⟩) (by rintro _ ⟨⟩) (by rintro _ _ _ ⟨⟩)
    ⟨by rintro _ _ _ ⟨⟩, by rintro _ _ ⟨⟩, fun hcoh => hn hcoh.natural, by rintro _ ⟨⟩⟩).mono fun n t hat ha => ?_
  refine ⟨ha.held, fun _ => ⟨fun m hm => ?_, fun x tag hx => ?_⟩, fun h => by rw [ha.node]; exact hn (hat.later.natural_of_later hg.sound.program h),
    fun x hx => by rw [ha.node] at hx; cases hx⟩
  -- nothing that was added before has the new node for a child, or is defined by it
  · rw [ha.program, Program.node_addNode] at hm
    split at hm
    · cases hm
    · have hlt := Program.lt_of_mem_children (NodeKind.operands_subset _ hm)
      have := (hg.sound.program.fits m hlt).children n (NodeKind.operands_subset _ hm)
      rw [ha.id] at this
      exact absurd this (Nat.lt_irrefl _)
  · rw [ha.program] at hx
    have := hg.sound.program.inOrder_of_decl (show s.program.decl x = _ from hx) (by simp)
    rw [ha.id] at this
    exact absurd this (Nat.lt_irrefl _)

/-! ## Converting -/

/-- A result that does not become an operand stays one. -/
theorem Added.result {t : BindState} {node : Node} {n m : NodeId} (h : Added k g s t node n w) (hg : Ready k g s)
    (ht : At k s t) (hm : Result k g s m w) (ho : s.program.Adaptable m → m ∉ node.kind.operands) : Result k g t m w where
  held := hm.held.mono hg ht
  visible := hm.visible.mono hg hm.held.range ht.later
  natural hn := by
    rw [h.program, Program.node_addNode_of_lt _ _ hm.held.range]
    exact hm.natural (ht.later.natural_of_later hg.sound.program hn)
  spare ha := by
    have hs := (ht.later.adaptable hm.held.range).1 ha
    refine ⟨fun o hmem => ?_, fun x tag hx => (hm.spare hs).constant x tag (by rwa [h.program] at hx)⟩
    rw [h.program, Program.node_addNode] at hmem
    split at hmem
    · exact ho hs hmem
    · exact (hm.spare hs).operand o hmem

/-- A reference is read; what is none stays. Nothing else is touched. -/
theorem readThrough_typed {n : NodeId} (hg : Ready k g s) (hn : Kept k g s n w) :
    Ends (readThrough n) c s (At k s) fun m t => Turned k g s t n m w ∧
      (t.program.node m).ty = (s.program.node n).ty.stripReference ∧ ∀ o, Result k g s o w → Result k g t o w := by
  refine .ask_bind ?_
  cases hty : (s.program.node n).ty with
  | reference pointee =>
    have hf : ∀ pos, s.program.Fits ⟨pos, pointee, .dereference n⟩ := fun pos =>
      { children := by simpa [NodeKind.children] using hn.range
        typed := .inr hty
        void := by rintro ⟨⟩
        literal := by rintro _ ⟨⟩
        named := by rintro _ _ ⟨⟩
        called := by rintro _ _ ⟨⟩
        symbols := by rintro _ ⟨⟩
        folds := trivial }
    refine .ask_bind (.mono (addNode_ends hg (hf _) (by simpa [NodeKind.children] using hn) (by rintro _ ⟨⟩)
      (by rintro _ ⟨⟩) (by rintro _ _ _ ⟨⟩) (.of_isSettled rfl)) fun m t ht ha =>
        ⟨⟨ha.held, .inr (by rw [ha.node]; rfl)⟩, by rw [ha.node]; rfl, fun o ho => ?_⟩)
    refine ha.result hg ht ho fun hadapt hmem => ?_
    have hi := hg.sound.program.isIntegral_of_adaptable hadapt
    rw [List.mem_singleton.1 hmem, hty] at hi
    cases hi
  | unknown | direct | pointer => exact .pure (.start hg) ⟨.refl hn, hty, fun _ h => h⟩

theorem readThrough_ends {n : NodeId} (hg : Ready k g s) (hn : Kept k g s n w) :
    Ends (readThrough n) c s (At k s) fun m t => Turned k g s t n m w :=
  .mono (readThrough_typed hg hn) fun _ _ _ h => h.1

/-- A node is marked as a constant. -/
theorem addMark_ends {pos : Span} {n : NodeId} (hg : Ready k g s) (hn : Kept k g s n w) (hp : ¬ s.program.Adaptable n)
    (hm : s.program.Marks n) : Ends (addNode pos (s.program.node n).ty (.constExpr n)) c s (At k s) fun m t =>
      Made k g t (s.program.node n).ty m w ∧ t.program.isConstant m := by
  refine .mono (addFresh_ends hg rfl (by rintro _ _ ⟨⟩) rfl (by rintro ⟨⟩) (by rintro _ ⟨⟩) trivial
    (by simpa [NodeKind.children] using hn) (by rintro _ ⟨⟩) ⟨rfl, hp⟩
    ⟨by rintro _ _ _ ⟨⟩, by rintro _ _ ⟨⟩, by rintro _ _ ⟨⟩, by rintro _ ⟨⟩; exact hm⟩) ?_
  rintro m t - ⟨hmade, hprogram, rfl⟩
  exact ⟨hmade, by rw [Program.isConstant, hprogram, Program.node_addNode_next]⟩

/-- What is marked as a constant stays as it is. -/
theorem markConstant_run {n : NodeId} (h : (s.program.constValue? n).isSome) :
    (markConstant n).runAt c s = (some n, s) := by
  have hm : s.program.isConstant n := by
    unfold Program.constValue? at h
    split at h
    · assumption
    · cases h
  rw [markConstant, runAt_bind_some (runAt_ask _), if_pos hm]
  rfl

/-- What has a value may be marked as a constant. -/
theorem markConstant_ends {n : NodeId} (hg : Ready k g s) (hn : Kept k g s n w)
    (hv : ∃ value, s.program.eval n = .ok value) :
    Ends (markConstant n) c s (At k s) fun m t =>
      Turned k g s t n m w ∧ (t.program.node m).ty = (s.program.node n).ty := by
  refine .ask_bind (.ite (fun _ => .pure (.start hg) ⟨.refl hn, rfl⟩) fun hno => .ask_bind (.ask_bind ?_))
  have hadapt : ¬ s.program.Adaptable n := by
    rintro ⟨value, hv⟩
    exact hno (by rw [Program.isConstant, hv])
  exact .mono (addMark_ends hg hn hadapt (.inl hv)) fun m t _ h => ⟨h.1.turned, h.1.type⟩

theorem CastStep.nodeKind_of_isValueConversion {step : CastStep} (h : step.kind.isValueConversion) (n : NodeId) :
    step.nodeKind n = .cast n step := by
  obtain ⟨kind, target⟩ := step
  cases kind <;> first | rfl | cases h

theorem typed_nodeKind {p : Program} {step : CastStep} {n : NodeId} {pos : Span}
    (h : step.Sends (p.node n).ty) :
    p.Typed p.ReachesField ⟨pos, step.target, step.nodeKind n⟩ := by
  obtain ⟨kind, target⟩ := step
  cases kind <;> simp_all [Program.Typed, CastStep.nodeKind, CastStep.Sends]

theorem folds_nodeKind {p : Program} (hp : p.Sound) {step : CastStep} {n : NodeId} {pos : Span}
    (h : step.Sends (p.node n).ty) (hk : step.kind ≠ .dereference → p.Known step.target) :
    p.Folds ⟨pos, step.target, step.nodeKind n⟩ := by
  have hcast : ∃ ty, step.Sends ty ∧ p.HadType n ty := ⟨_, h, fun _ => rfl, hp.isIntegral_of_adaptable⟩
  obtain ⟨kind, target⟩ := step
  cases kind <;> first | exact ⟨hcast, hk (by simp)⟩ | trivial

/-- A conversion is added. -/
theorem addStep_ends {pos : Span} {step : CastStep} {n : NodeId} (hg : Ready k g s) (hn : Kept k g s n w)
    (hd : step.Sends (s.program.node n).ty) (hk : step.kind ≠ .dereference → s.program.Known step.target) :
    Ends (addNode pos step.target (step.nodeKind n)) c s (At k s) fun m t =>
      Made k g t step.target m w ∧ t.program = s.program.addNode ⟨pos, step.target, step.nodeKind n⟩ ∧
        m = s.program.nextNode := by
  have hkind : (step.nodeKind n).isSimple ∧ (step.nodeKind n).holdsReturn = false ∧
      (step.nodeKind n).children = [n] ∧ (step.nodeKind n).symbols = [] := by
    unfold CastStep.nodeKind
    split <;> exact ⟨rfl, rfl, rfl, rfl⟩
  obtain ⟨hsimple, hreturn, hchildren, hsymbols⟩ := hkind
  refine addFresh_ends hg (NodeKind.isPlain_of_isSimple hsimple) (fun f args h => ?_) (NodeKind.jump?_of_isSimple hsimple)
    (by simp [hreturn]) (fun v h => ?_) (typed_nodeKind hd) (by simpa [hchildren] using hn) (by simp [hsymbols])
    (folds_nodeKind hg.sound.program hd hk) (.of_isSettled (NodeKind.isSettled_of_isSimple hsimple))
  · rw [h] at hsimple
    cases hsimple
  · rw [h] at hreturn
    cases hreturn

theorem applySteps_ends {pos : Span} : ∀ {steps : List CastStep} {constant : Bool} {s : BindState} {n : NodeId},
    Ready k g s → Kept k g s n w → Program.Threads CastStep.Sends (s.program.node n).ty steps →
    (∀ step ∈ steps, step.kind ≠ .dereference → s.program.Known step.target) →
    (constant = true → s.program.isConstant n) →
    Ends (applySteps pos steps constant n) c s (At k s) fun m t =>
      Turned k g s t n m w ∧ (t.program.node m).ty = Program.landing (s.program.node n).ty steps
  | [], _, _, _, hg, hn, _, _, _ => .pure (.start hg) ⟨.refl hn, rfl⟩
  | step :: rest, constant, s, n, hg, hn, ⟨hd, hrest⟩, hknown, hconst => by
    have hknown' : ∀ {t}, At k s t → ∀ step ∈ rest, step.kind ≠ .dereference → t.program.Known step.target :=
      fun ht step hs hk => (hknown step (List.mem_cons_of_mem _ hs) hk).later ht.later
    refine .next (.start hg) (Nat.le_refl k) (addStep_ends hg hn hd (hknown step List.mem_cons_self)) ?_
    rintro made t ht hst ⟨hm, hprogram, rfl⟩
    refine .ite (fun hmark => ?_) fun _ => ?_
    · rw [Bool.and_eq_true] at hmark
      have hmarks : t.program.Marks s.program.nextNode := by
        refine .inr ⟨n, step, ?_, ?_⟩
        · rw [hprogram, Program.node_addNode_next]
          exact CastStep.nodeKind_of_isValueConversion hmark.2 n
        · rw [Program.isConstant, hprogram, Program.node_addNode_of_lt _ _ hn.range, ← Program.isConstant]
          exact hconst hmark.1
      have hadd : Ends (addNode pos _ _) c t _ _ :=
        addMark_ends (ht.ready hg) hm.held (not_adaptable_of_isPlain hm.plain) hmarks
      rw [hm.type] at hadd
      refine .next ht (Nat.le_refl k) hadd fun marked u hu htu hk => ?_
      refine .last hu (Nat.le_refl k) (applySteps_ends (hu.ready hg) hk.1.held (by rwa [hk.1.type]) (hknown' hu)
        fun _ => hk.2) ?_
      rintro m v - - ⟨hturn, hty⟩
      exact ⟨hk.1.turned.trans hturn, by rw [hty, hk.1.type, Program.landing_cons]⟩
    · refine .last ht (Nat.le_refl k) (applySteps_ends (ht.ready hg) hm.held (by rwa [hm.type]) (hknown' ht)
        (by rintro ⟨⟩)) ?_
      rintro m v - - ⟨hturn, hty⟩
      exact ⟨hm.turned.trans hturn, by rw [hty, hm.type, Program.landing_cons]⟩

/-- **A conversion gives a value of the type asked for.** -/
theorem convert_ends {n : NodeId} {target : Ty} {intent : Intent} (hg : Ready k g s) (hn : Kept k g s n w) :
    Ends (convert n target intent) c s (At k s) fun m t => Turned k g s t n m w ∧ (t.program.node m).ty = target := by
  refine .ask_bind (.ask_bind (.ite (fun _ => .failure (.start hg)) fun _ => .ask_bind ?_))
  split
  · rename_i steps hplan
    obtain ⟨hth, hland⟩ := hg.sound.program.standard.castPlan _ _ steps hplan
    refine .ask_bind ((applySteps_ends hg hn (hth.imp fun _ _ h => h.1)
      (fun step hs hk => hg.sound.program.standard.known_of_castPlan hplan hs hk) id).mono ?_)
    rintro m t - ⟨hturn, hty⟩
    exact ⟨hturn, hty.trans hland⟩
  · refine .ask_bind (.ask_bind ((report_ends (.start hg) _).bind fun _ _ ht _ => .failure ht))

theorem coerce_ends {n : NodeId} {target : Ty} (hg : Ready k g s) (hn : Kept k g s n w) :
    Ends (coerce n target) c s (At k s) fun m t => Turned k g s t n m w ∧ (t.program.node m).ty = target :=
  convert_ends hg hn

theorem fold_ends {n : NodeId} {operands : List NodeId} (hg : Ready k g s) (hn : Kept k g s n w) :
    Ends (fold n operands) c s (At k s) fun m t =>
      Turned k g s t n m w ∧ (t.program.node m).ty = (s.program.node n).ty := by
  refine .ask_bind (.ite (fun _ => .pure (.start hg) ⟨.refl hn, rfl⟩) fun _ => .ask_bind ?_)
  split
  · rename_i value hvalue
    exact markConstant_ends hg hn ⟨value, hvalue⟩
  · exact .ask_bind (fail_ends (.start hg) _ _ _ _)
  · exact .pure (.start hg) ⟨.refl hn, rfl⟩

theorem requireValue_ends {n : NodeId} {pos : Span} (hg : Ready k g s) :
    Ends (requireValue n pos) c s (At k s) fun m t => m = n ∧ t = s ∧ (s.program.node n).ty ≠ .void := by
  refine .ask_bind (.ite (fun _ => ?_) fun hv => .pure (.start hg) ⟨rfl, rfl, fun h => hv ?_⟩)
  · exact fail_bind_ends (.start hg) _ _ _ _
  · rw [h]
    rfl

theorem asCondition_ends {n : NodeId} (hg : Ready k g s) (hn : Kept k g s n w) :
    Ends (asCondition n) c s (At k s) fun m t => Turned k g s t n m w ∧ (t.program.node m).ty = .bool := by
  refine .next (.start hg) (Nat.le_refl k) (readThrough_ends hg hn) fun m t ht _ hm => ?_
  refine .last ht (Nat.le_refl k) (coerce_ends (ht.ready hg) hm.held) ?_
  rintro o u - - ⟨hturn, hty⟩
  exact ⟨hm.trans hturn, hty⟩

/-! ## Literals that take another type -/

/-- Nodes kept their kinds; some of those that nothing depends on were retyped. -/
structure Adapts (s t : BindState) : Prop where
  keeps : Keeps s.program.scopes.size s t
  kinds : ∀ n, (t.program.node n).kind = (s.program.node n).kind
  decls : ∀ x, t.program.decl x = s.program.decl x

theorem Adapts.held {t : BindState} {n : NodeId} (h : Adapts s t) (hg : Ready k g s) (hn : Kept k g s n w) :
    Kept k g t n w := hn.keep hg hg.scope h.keeps

theorem Adapts.loose {t : BindState} {n : NodeId} (h : Adapts s t) (hn : s.program.Adaptable n → s.program.Loose n)
    (ha : t.program.Adaptable n) : t.program.Loose n := by
  have hs : s.program.Adaptable n := by
    obtain ⟨value, hv⟩ := ha
    exact ⟨value, by rw [← h.kinds, hv]⟩
  refine ⟨fun m => ?_, fun x tag => ?_⟩
  · rw [h.kinds m]
    exact (hn hs).operand m
  · rw [h.decls x]
    exact (hn hs).constant x tag

theorem Adapts.trans {t u : BindState} (h : Adapts s t) (h' : Adapts t u) : Adapts s u :=
  ⟨h.keeps.trans h'.keeps h.keeps.later.scopes.size, fun n => (h'.kinds n).trans (h.kinds n),
    fun x => (h'.decls x).trans (h.decls x)⟩

theorem adaptLiteral_ends {n : NodeId} {ty : Ty} (hs : Via floor s₀ s) (hk : floor.nodes ≤ k)
    (hn : Kept k g s n w) (hl : s.program.Adaptable n → s.program.Loose n) : Ends (adaptLiteral n ty) c s (Via floor s₀) fun _ t => Adapts s t := by
  have hrun : (adaptLiteral n ty).runAt c s = (some (), { s with program := s.program.adaptLiteral n ty }) := rfl
  by_cases ha : s.program.adaptsTo n ty
  · have hadapt : s.program.Adaptable n := (Program.adaptable_of_adaptsTo ha).1
    have he : s.program.Edit floor (s.program.adaptLiteral n ty) := by
      rw [Program.adaptLiteral, if_pos ha]
      exact .retype n ty ha (Nat.le_trans hk (hn.floor hadapt)) (hl hadapt)
    have hsym : (s.program.adaptLiteral n ty).symbols = s.program.symbols := by
      rw [Program.adaptLiteral, if_pos ha]
      rfl
    have hdecl : ∀ f, (s.program.adaptLiteral n ty).decl f = s.program.decl f := fun f => by
      rw [Program.decl, Program.symbol, hsym]
      rfl
    refine .of_run hrun (hs.edit he hsym) ⟨⟨he.later hs.sound.program, ?_, ?_⟩, fun m => ?_, hdecl⟩
    · intro sc _
      rw [Program.adaptLiteral, if_pos ha]
      rfl
    · intro f a b ty' hfa hty hfb
      rw [Program.function?_eq_some, hdecl, ← Program.function?_eq_some, hfa] at hfb
      cases hfb
      exact hty
    · rw [Program.adaptLiteral, if_pos ha, Program.node_modifyNode]
      split <;> rfl
  · have hp : s.program.adaptLiteral n ty = s.program := by rw [Program.adaptLiteral, if_neg ha]
    rw [hp] at hrun
    refine .of_run hrun hs ⟨⟨.refl hs.sound.program.nested, fun _ _ => rfl, ?_⟩, fun _ => rfl, fun _ => rfl⟩
    intro f a b ty' hfa hty hfb
    rw [hfa] at hfb
    cases hfb
    exact hty

/-- Two literals may both be retyped before their values meet. -/
theorem upperBound_ends {left right : NodeId} {pos : Span} (hs : Via floor s₀ s) (hk : floor.nodes ≤ k)
    (hg : Ready k g s₀) (hl : Result k g s left w) (hr : Result k g s right w) :
    Ends (upperBound left right pos) c s (Via floor s₀) fun _ t => Adapts s t := by
  refine .ask_bind ((adaptLiteral_ends hs hk hl.held hl.spare).bind fun _ t ht ha => .ask_bind ?_)
  refine (adaptLiteral_ends ht hk (ha.held (hs.ready hg) hr.held) (ha.loose hr.spare)).bind fun _ u hu hb =>
    .ask_bind (.ask_bind (.ask_bind ?_))
  split
  · exact .pure hu (ha.trans hb)
  · exact .ask_bind (.ask_bind (fail_ends hu _ _ _ _))

end BindM

end Bindery
