import Bindery.Proofs.Evaluation
import Bindery.Proofs.Refusals
import Bindery.Proofs.Termination
/-!
# Conversions of integer constants

A plan between integers may have up to three steps: an enum goes through its base, and where both the width and the sign
change there is a type in between. Every step cuts the number to its own type, and yet the plan as a whole cuts it to the
type asked for, once: the type in between has the width of the target, and cutting to one width with one sign and then
with the other is cutting with the other (`wrapInt_wrapInt`). A conversion that is not asked for only goes to types that
hold all numbers of the first one, and so leaves the number as it is.
-/
namespace Bindery

namespace Program

variable {p : Program} {src dst : Ty} {bits bits' : Nat} {signed signed' : Bool} {v w : Int} {steps : List CastStep}

/-! ## What plans make of an integer -/

/-- The primitive conversions between integers. -/
def integerSteps : List StepKind := [.widen, .narrow, .bitCast]

/-- Steps that make an integer of another: each one cuts it to the integer type, or the enum, that it leads to. -/
inductive Cuts (p : Program) : List CastStep → Int → Int → Prop
  | nil (v : Int) : Cuts p [] v v
  | cons {kind : StepKind} {target : Ty} {rest : List CastStep} {bits : Nat} {signed : Bool} {v w : Int} :
    kind ∈ integerSteps → p.constScalar? target = some (.int bits signed) →
    Cuts p rest (wrapInt v bits signed) w → Cuts p (⟨kind, target⟩ :: rest) v w

theorem Cuts.one {kind : StepKind} (hkind : kind ∈ integerSteps)
    (hdst : p.constScalar? dst = some (.int bits signed)) (v : Int) :
    p.Cuts [⟨kind, dst⟩] v (wrapInt v bits signed) := .cons hkind hdst (.nil _)

theorem Cuts.append {rest : List CastStep} {u : Int} (h : p.Cuts steps u v) (hrest : p.Cuts rest v w) :
    p.Cuts (steps ++ rest) u w := by
  induction h with
  | nil => exact hrest
  | cons hkind htarget _ ih => exact .cons hkind htarget (ih hrest)

theorem Cuts.addNode (h : p.Cuts steps v w) (node : Node) : (p.addNode node).Cuts steps v w := by
  induction h with
  | nil => exact .nil _
  | cons hkind htarget _ ih => exact .cons hkind htarget ih

/-- There is nothing to cut off a number that the type holds. -/
theorem Standard.wrapInt_eq (hp : p.Standard) (hdst : p.constScalar? dst = some (.int bits signed))
    (hv : InRange bits signed v) : wrapInt v bits signed = v := by
  obtain ⟨h0, hle⟩ := hp.width hdst
  exact (inRange_iff h0 (by omega)).1 hv

/-- **The plan between two integers cuts the number to the second.** -/
theorem Standard.intPlan_cuts (hp : p.Standard) (hm : .int bits' signed' ∈ Scalar.all)
    (hdst : p.constScalar? dst = some (.int bits' signed')) (bits : Nat) (signed : Bool) (v : Int) :
    ∃ steps, Program.intPlan .explicit bits signed bits' signed' dst = .ok steps ∧
      p.Cuts steps v (wrapInt v bits' signed') := by
  unfold Program.intPlan
  split
  · split
    · exact ⟨_, rfl, .one (by decide) hdst v⟩
    · exact ⟨_, rfl, .one (by decide) hdst v⟩
  · split
    · exact ⟨_, rfl, .one (by decide) hdst v⟩
    · obtain ⟨h0, hle⟩ := hp.width hdst
      have hmid : p.constScalar? (.int bits' signed) = some (.int bits' signed) :=
        constScalar?_of_scalar (hp.scalar?_ofScalar (mem_all_signed hm signed))
      refine ⟨_, rfl, .cons (by split <;> decide) hmid ?_⟩
      rw [← wrapInt_wrapInt h0 (by omega) (Nat.le_refl _) v signed signed']
      exact .one (by decide) hdst _

/-- The plan between two integers, of which the first may be the second. -/
theorem Standard.scalarPlan_cuts (hp : p.Standard) (hm : .int bits' signed' ∈ Scalar.all)
    (hdst : p.constScalar? dst = some (.int bits' signed')) (hv : InRange bits signed v) :
    ∃ steps, Program.scalarPlan .explicit (.int bits signed) (.int bits' signed') dst = .ok steps ∧
      p.Cuts steps v (wrapInt v bits' signed') := by
  unfold Program.scalarPlan
  split
  · rename_i heq
    cases heq
    rw [hp.wrapInt_eq hdst hv]
    exact ⟨_, rfl, .nil v⟩
  · exact hp.intPlan_cuts hm hdst bits signed v

/-- How the rules of conversion see a type whose constants are integers. -/
theorem classify_of_constScalar (h : p.constScalar? src = some (.int bits signed)) :
    p.classify src = .scalar (.int bits signed) ∨
      ∃ base, p.classify src = .enum base ∧ p.scalar? base = some (.int bits signed) := by
  rcases constScalar?_cases h with hs | ⟨id, own, rfl, hd, hs⟩
  · exact .inl (classify_eq_scalar_iff.2 hs)
  · exact .inr ⟨own.base, by simp only [classify, hd, classifyDecl], hs⟩

theorem ne_unknown_of_constScalar {a : Scalar} (h : p.constScalar? src = some a) : src ≠ .unknown := by
  rintro rfl
  cases h

theorem castPlan_of_constScalar {intent : Intent} (h : p.constScalar? src = some (.int bits signed)) (hne : src ≠ dst) :
    p.castPlan intent src dst = p.valuePlan intent src dst (p.classify src) (p.classify dst) := by
  obtain ⟨id, rfl⟩ : ∃ id, src = .direct id := by
    rcases constScalar?_cases h with hs | ⟨id, -, rfl, -⟩
    · obtain ⟨id, rfl, -⟩ := builtin?_eq_some_iff.1 (scalar?_eq_some.1 hs)
      exact ⟨id, rfl⟩
    · exact ⟨id, rfl⟩
  rw [castPlan, if_neg hne]
  rintro _ ⟨⟩

theorem isEnum_iff {ty : Ty} : p.isEnum ty ↔ ∃ id own, ty = .direct id ∧ p.decl id = .enum own := by
  unfold isEnum typeDecl?
  rcases ty with _ | id | _ | _ <;> simp [Ty.symbol?]
  split <;> simp_all

/-- One enum becomes no other. -/
theorem castPlan_enums {intent : Intent} (hs : p.isEnum src) (hd : p.isEnum dst) (hne : src ≠ dst) :
    p.castPlan intent src dst = .error .notConvertible := by
  obtain ⟨id, own, rfl, hid⟩ := isEnum_iff.1 hs
  obtain ⟨id', own', rfl, hid'⟩ := isEnum_iff.1 hd
  simp only [castPlan, if_neg hne, classify, hid, hid', classifyDecl, valuePlan]

/-- **A plan that is not asked for goes to a type that holds the number.** -/
theorem inRange_of_castPlan (hsrc : p.constScalar? src = some (.int bits signed))
    (hdst : p.constScalar? dst = some (.int bits' signed')) (hv : InRange bits signed v)
    (hplan : p.castPlan .implicit src dst = .ok steps) : InRange bits' signed' v := by
  by_cases hne : src = dst
  · subst hne
    cases hsrc.symm.trans hdst
    exact hv
  · rw [castPlan_of_constScalar hsrc hne] at hplan
    rcases classify_of_constScalar hsrc with hc | ⟨base, hc, hbase⟩ <;>
      rcases classify_of_constScalar hdst with hc' | ⟨base', hc', hbase'⟩ <;> rw [hc, hc'] at hplan
    · change Program.scalarPlan _ _ _ _ = _ at hplan
      unfold Program.scalarPlan at hplan
      split at hplan
      · rename_i heq
        cases heq
        exact hv
      · -- only the width changes, and it grows
        dsimp only at hplan
        unfold Program.intPlan at hplan
        split at hplan
        · rename_i hsign
          subst hsign
          split at hplan
          · exact hv.widen (Nat.le_of_lt ‹_›)
          · cases hplan
        · split at hplan <;> cases hplan
    all_goals cases hplan

namespace Standard

variable (hp : p.Standard) (hsrc : p.constScalar? src = some (.int bits signed))
  (hdst : p.constScalar? dst = some (.int bits' signed')) (hv : InRange bits signed v)
include hp hdst hv

/-- From an enum to an integer: taking the base for the enum leaves the number as it is. -/
theorem enumToInt_cuts {base : Ty} (hbase : p.scalar? base = some (.int bits signed))
    (hm : .int bits' signed' ∈ Scalar.all) :
    ∃ steps, p.enumToInt .explicit base (.int bits' signed') dst = .ok steps ∧
      p.Cuts steps v (wrapInt v bits' signed') := by
  have hbase' := constScalar?_of_scalar hbase
  have hkept := hp.wrapInt_eq hbase' hv
  unfold Program.enumToInt
  rw [hbase]
  dsimp only
  split
  · rename_i heq
    subst heq
    exact ⟨_, rfl, .one (by decide) hdst v⟩
  · obtain ⟨steps, hsteps, hcuts⟩ := hp.scalarPlan_cuts hm hdst hv
    rw [hsteps]
    exact ⟨_, rfl, .cons (by decide) hbase' (hkept.symm ▸ hcuts)⟩

/-- From an integer to an enum: the number is cut to the base of the enum already. -/
theorem intToEnum_cuts {base : Ty} (hbase : p.scalar? base = some (.int bits' signed')) :
    ∃ steps, p.intToEnum .explicit (.int bits signed) src base dst = .ok steps ∧
      p.Cuts steps v (wrapInt v bits' signed') := by
  obtain ⟨h0, hle⟩ := hp.width hdst
  unfold Program.intToEnum
  rw [hbase]
  dsimp only
  split
  · exact ⟨_, rfl, .one (by decide) hdst v⟩
  · obtain ⟨steps, hsteps, hcuts⟩ :=
      hp.scalarPlan_cuts (hp.scalar?_eq_some_iff.1 hbase).1 (constScalar?_of_scalar hbase) hv
    have hlast : p.Cuts [⟨.bitCast, dst⟩] _ _ := .one (by decide) hdst (wrapInt v bits' signed')
    rw [wrapInt_wrapInt h0 (by omega) (Nat.le_refl _)] at hlast
    rw [hsteps]
    exact ⟨_, rfl, hcuts.append hlast⟩

include hsrc

/-- **A plan that is asked for cuts an integer to the target**, whatever its steps are. There is one, unless it is to
make one enum of another. -/
theorem castPlan_cuts (henums : ¬ (p.isEnum src ∧ p.isEnum dst ∧ src ≠ dst)) :
    ∃ steps, p.castPlan .explicit src dst = .ok steps ∧ p.Cuts steps v (wrapInt v bits' signed') := by
  by_cases hne : src = dst
  · subst hne
    cases hsrc.symm.trans hdst
    rw [hp.wrapInt_eq hsrc hv]
    exact ⟨[], castPlan_self _ _ _, .nil v⟩
  · rw [castPlan_of_constScalar hsrc hne]
    rcases classify_of_constScalar hsrc with hc | ⟨base, hc, hbase⟩ <;>
      rcases classify_of_constScalar hdst with hc' | ⟨base', hc', hbase'⟩ <;> rw [hc, hc']
    · exact hp.scalarPlan_cuts (hp.scalar_of_classify hc').1 hdst hv
    · exact hp.intToEnum_cuts hdst hv hbase'
    · exact hp.enumToInt_cuts hdst hv hbase (hp.scalar_of_classify hc').1
    · exact absurd ⟨(hp.enum_base_of_classify hc).2.1, (hp.enum_base_of_classify hc').2.1, hne⟩ henums

/-- **A plan that is not asked for leaves an integer as it is.** -/
theorem castPlan_keeps (hplan : p.castPlan .implicit src dst = .ok steps) : p.Cuts steps v v := by
  have henums : ¬ (p.isEnum src ∧ p.isEnum dst ∧ src ≠ dst) := by
    rintro ⟨hs, hd, hne⟩
    cases (castPlan_enums hs hd hne).symm.trans hplan
  have hkept := hp.wrapInt_eq hdst (inRange_of_castPlan hsrc hdst hv hplan)
  -- the steps are those of the plan that is asked for, and there is nothing to cut off
  obtain ⟨asked, hasked, hcuts⟩ := hp.castPlan_cuts hsrc hdst hv henums
  have hrelaxes := p.castPlan_relaxes dst src
  rw [hplan] at hrelaxes
  cases hrelaxes.eq_ok.symm.trans hasked
  rwa [hkept] at hcuts

end Standard

/-! ## What conversions make of a constant -/

theorem Ordered.addNode (h : p.Ordered) (node : Node) (hc : ∀ m ∈ node.kind.children, m.index < p.nodes.size) :
    (p.addNode node).Ordered := by
  intro n m hm
  rw [node_addNode] at hm
  split at hm
  · rename_i heq
    subst heq
    exact hc m hm
  · exact h n m hm

theorem nextNode_lt (p : Program) (node : Node) : p.nextNode.index < (p.addNode node).nodes.size := by
  simp [Program.addNode, nextNode]

/-- A node that is added changes no value. -/
theorem evalUpTo_addNode (hp : p.Ordered) (node : Node) : ∀ (k : Nat) (n : NodeId), n.index < p.nodes.size →
    (p.addNode node).evalUpTo k n = p.evalUpTo k n
  | 0, _, _ => rfl
  | k + 1, n, hn => by
    have hc : ∀ m ∈ (p.node n).kind.children, (p.addNode node).evalUpTo k m = p.evalUpTo k m := fun m hm =>
      evalUpTo_addNode hp node k m (Nat.lt_trans (hp n m hm) hn)
    simp only [evalUpTo, node_addNode_of_lt p node hn]
    cases hk : (p.node n).kind <;> simp only [hk, NodeKind.children, List.mem_cons, List.not_mem_nil, or_false,
      forall_eq_or_imp, forall_eq] at hc ⊢
    all_goals first | rw [hc] | rw [hc.1, hc.2] | rw [hc.1, hc.2.1, hc.2.2]
    all_goals rfl

/-- The nodes before an added one are evaluated for it as they were. -/
theorem evalUpTo_before (hp : p.Ordered) (node : Node) {n : NodeId} (hn : n.index < p.nodes.size) :
    (p.addNode node).evalUpTo p.nodes.size n = p.eval n :=
  (evalUpTo_addNode hp node _ n hn).trans (evalUpTo_eq hp _ _ n hn (Nat.lt_succ_self _))

theorem eval_addNode_constExpr (hp : p.Ordered) {n : NodeId} (hn : n.index < p.nodes.size) (pos : Span) (ty : Ty) :
    (p.addNode ⟨pos, ty, .constExpr n⟩).eval p.nextNode = p.eval n := by
  rw [eval, evalUpTo, node_addNode_next]
  exact evalUpTo_before hp _ hn

/-- **A conversion of an integer cuts it to its target.** -/
theorem eval_addNode_cast (hp : p.Ordered) {n : NodeId} (hn : n.index < p.nodes.size) (pos : Span) {kind : StepKind}
    (hkind : kind ∈ integerSteps) (hdst : p.constScalar? dst = some (.int bits signed))
    (heval : p.eval n = .ok (.int v)) :
    (p.addNode ⟨pos, dst, .cast n ⟨kind, dst⟩⟩).eval p.nextNode = .ok (.int (wrapInt v bits signed)) := by
  rw [eval, evalUpTo, node_addNode_next]
  dsimp only
  have hvalue := evalUpTo_before hp ⟨pos, dst, .cast n ⟨kind, dst⟩⟩ hn
  rw [heval] at hvalue
  rw [show p.nextNode.index = p.nodes.size from rfl, hvalue]
  show p.convert (.int v) ⟨kind, dst⟩ = _
  simp only [integerSteps, List.mem_cons, List.not_mem_nil, or_false] at hkind
  rcases hkind with rfl | rfl | rfl <;> simp [convert, convertRaw, normalize, hdst, Except.map]

end Program

namespace BindM

variable {c : Context}

theorem nodeKind_of_mem {kind : StepKind} (h : kind ∈ Program.integerSteps) (target : Ty) (n : NodeId) :
    CastStep.nodeKind ⟨kind, target⟩ n = .cast n ⟨kind, target⟩ := by
  simp only [Program.integerSteps, List.mem_cons, List.not_mem_nil, or_false] at h
  rcases h with rfl | rfl | rfl <;> rfl

/-- **The steps make of a constant what they make of its integer**, whether or not the nodes are marked. -/
theorem applySteps_cuts {pos : Span} : ∀ {steps : List CastStep} {constant : Bool} {s : BindState} {n : NodeId} {v w : Int},
    s.program.Ordered → n.index < s.program.nodes.size → s.program.eval n = .ok (.int v) → s.program.Cuts steps v w →
    Ends (applySteps pos steps constant n) c s (fun _ => True) fun m t => t.program.eval m = .ok (.int w)
  | [], _, _, _, _, _, _, _, heval, .nil _ => .pure trivial heval
  | ⟨kind, target⟩ :: rest, constant, s, n, v, w, hp, hn, heval, .cons hkind htarget hrest => by
    have hmade := Program.eval_addNode_cast hp hn pos hkind htarget heval
    have hordered := hp.addNode ⟨pos, target, .cast n ⟨kind, target⟩⟩ (by simpa [NodeKind.children] using hn)
    unfold applySteps
    rw [nodeKind_of_mem hkind]
    refine .run_bind rfl (.ite (fun _ => .run_bind rfl ?_) fun _ => ?_)
    · have hlt := s.program.nextNode_lt ⟨pos, target, .cast n ⟨kind, target⟩⟩
      have hmarked := (Program.eval_addNode_constExpr hordered hlt pos target).trans hmade
      have hordered' := hordered.addNode ⟨pos, target, .constExpr s.program.nextNode⟩
        (by simpa [NodeKind.children] using hlt)
      exact applySteps_cuts hordered' (Program.nextNode_lt _ _) hmarked ((hrest.addNode _).addNode _)
    · exact applySteps_cuts hordered (Program.nextNode_lt _ _) hmade (hrest.addNode _)

/-- A constant that is converted becomes what the plan cuts it to. -/
theorem eval_convert {s t : BindState} {n m : NodeId} {dst : Ty} {intent : Intent} {v w : Int} (hp : s.program.Ordered)
    (hn : n.index < s.program.nodes.size) (heval : s.program.eval n = .ok (.int v))
    (hsrc : (s.program.node n).ty ≠ .unknown) (hdst : dst ≠ .unknown)
    (hcuts : ∀ steps, s.program.castPlan intent (s.program.node n).ty dst = .ok steps → s.program.Cuts steps v w)
    (hrun : (convert n dst intent).runAt c s = (some m, t)) : t.program.eval m = .ok (.int w) := by
  cases hplan : s.program.castPlan intent (s.program.node n).ty dst with
  | error cause => cases (convert_refused hplan).symm.trans (congrArg Prod.fst hrun)
  | ok steps =>
    rw [convert_eq hsrc hdst hplan] at hrun
    have hpost := (applySteps_cuts hp hn heval (hcuts steps hplan)).post m (by rw [hrun])
    rwa [hrun] at hpost

end BindM

namespace BindState

open Sample

set_option maxRecDepth 10000

/-- **Integer constants convert by their residues, and without being asked for they stay what they are.** In every state
that binding comes to, take a literal of an integer type or an enum that holds its number, and another such type, of
which the width and the sign are known. If the literal is converted because that is asked for, the value of the result is
the number cut to this width and sign. If it is converted without that, the value is the number itself. When it is asked
for, the conversion is made, but not from one enum to another. -/
theorem constants_convert (options : BindOptions) (names : NameTable) :
    (∀ batches, Reached options names (bindAll options names batches)) ∧
    ∀ s, Reached options names s → ∀ n v adaptable, (s.program.node n).kind = .literal (.int v) adaptable →
      s.program.Inhabits (s.program.node n).ty (.int v) →
      ∀ dst bits signed, s.program.constScalar? dst = some (.int bits signed) → ∀ c,
        (∀ m t, (BindM.convert n dst .explicit).runAt c s = (some m, t) →
          t.program.eval m = .ok (.int (wrapInt v bits signed))) ∧
        (∀ m t, (BindM.convert n dst .implicit).runAt c s = (some m, t) → t.program.eval m = .ok (.int v)) ∧
        (((BindM.convert n dst .explicit).runAt c s).1 = none ↔
          s.program.isEnum (s.program.node n).ty ∧ s.program.isEnum dst ∧ (s.program.node n).ty ≠ dst) := by
  refine ⟨fun batches => (bindAll_reached options names batches).1, ?_⟩
  rintro s hs n v adaptable hk ⟨bits', signed', hsrc, hv⟩ dst bits signed hdst c
  have hp := hs.sound.program
  have hlt : n.index < s.program.nodes.size := Program.lt_of_kind (by rw [hk]; rintro ⟨⟩)
  have heval : s.program.eval n = .ok (.int v) := by simp [Program.eval, Program.evalUpTo, hk]
  have hknown := Program.ne_unknown_of_constScalar hsrc
  have hknown' := Program.ne_unknown_of_constScalar hdst
  have hunasked : ∀ m t, (BindM.convert n dst .implicit).runAt c s = (some m, t) → t.program.eval m = .ok (.int v) :=
    fun m t => BindM.eval_convert hp.ordered hlt heval hknown hknown' fun steps => hp.standard.castPlan_keeps hsrc hdst hv
  by_cases henums : s.program.isEnum (s.program.node n).ty ∧ s.program.isEnum dst ∧ (s.program.node n).ty ≠ dst
  · have hnone : ((BindM.convert n dst .explicit).runAt c s).1 = none :=
      BindM.convert_refused (Program.castPlan_enums henums.1 henums.2.1 henums.2.2)
    refine ⟨fun m t hrun => ?_, hunasked, iff_of_true hnone henums⟩
    cases hnone.symm.trans (congrArg Prod.fst hrun)
  · obtain ⟨steps, hplan, hcuts⟩ := hp.standard.castPlan_cuts hsrc hdst hv henums
    refine ⟨fun m t => BindM.eval_convert hp.ordered hlt heval hknown hknown' fun steps' hplan' => ?_, hunasked,
      iff_of_false (fun hnone => ?_) henums⟩
    · cases hplan.symm.trans hplan'
      exact hcuts
    · obtain ⟨m, t, hrun⟩ := BindM.applySteps_run steps (s.program.isConstant n) n s
      rw [BindM.convert_eq hknown hknown' hplan, hrun] at hnone
      cases hnone

/-- An enum over `UInt8` with a member, the number of which was written as a literal. -/
def enumMember : Sample fun s =>
    ((s.program.node ⟨0⟩).kind = .literal (.int 200) true ∧ (s.program.node ⟨0⟩).ty = .int 16 true ∧
      ((BindM.convert ⟨0⟩ (.int 32 true) .implicit).runAt { scope := ⟨2⟩ } s).1.isSome) ∧
    (s.program.node ⟨2⟩).kind = .literal (.int 200) false ∧
      s.program.constScalar? (s.program.node ⟨2⟩).ty = some (.int 8 false) ∧ s.program.isEnum (.int 8 true) = false where
  body :=
    [node (.enum ⟨.synthetic, "E", some (name "UInt8"), [⟨.synthetic, "A", some (node (.int 200 none))⟩]⟩),
      define "x" (node (.dot (name "E") "A"))]
  shown := by decide +kernel

/-- The literal is widened as it is. The member is cut to `Int8` when that is asked for. -/
theorem enumMember_converted :
    (∃ m t, (BindM.convert ⟨0⟩ (.int 32 true) .implicit).runAt { scope := ⟨2⟩ } enumMember.state = (some m, t) ∧
      t.program.eval m = .ok (.int 200)) ∧
    ∃ m t, (BindM.convert ⟨2⟩ (.int 8 true) .explicit).runAt { scope := ⟨2⟩ } enumMember.state = (some m, t) ∧
      t.program.eval m = .ok (.int (-56)) := by
  obtain ⟨⟨hliteral, hty, hmade⟩, hmember, henum, hint⟩ := enumMember.holds
  obtain ⟨batches, hbound⟩ := enumMember.eq_bindAll
  obtain ⟨hreached, hall⟩ := constants_convert {} {}
  have hs := hreached batches
  rw [← hbound] at hs
  have hp := enumMember.sound.program.standard
  generalize enumMember.state = s at hliteral hty hmade hmember henum hint hs hp ⊢
  have hscalar : ∀ bits signed, .int bits signed ∈ Scalar.all →
      s.program.constScalar? (.int bits signed) = some (.int bits signed) := fun _ _ hm =>
    Program.constScalar?_of_scalar (hp.scalar?_ofScalar hm)
  constructor
  · have hin : s.program.Inhabits (s.program.node ⟨0⟩).ty (.int 200) :=
      ⟨16, true, by rw [hty]; exact hscalar 16 true (by decide), by decide⟩
    obtain ⟨-, hkept, -⟩ := hall s hs _ _ _ hliteral hin _ _ _ (hscalar 32 true (by decide)) { scope := ⟨2⟩ }
    obtain ⟨m, hm⟩ := Option.isSome_iff_exists.1 hmade
    exact ⟨m, _, Prod.ext hm rfl, hkept m _ (Prod.ext hm rfl)⟩
  · obtain ⟨hcut, -, hfails⟩ := hall s hs _ _ _ hmember ⟨8, false, henum, by decide⟩ _ _ _ (hscalar 8 true (by decide))
      { scope := ⟨2⟩ }
    have hsome : ((BindM.convert ⟨2⟩ (.int 8 true) .explicit).runAt { scope := ⟨2⟩ } s).1 ≠ none := by
      rw [Ne, hfails, hint]
      simp
    obtain ⟨m, hm⟩ := Option.ne_none_iff_exists'.1 hsome
    exact ⟨m, _, Prod.ext hm rfl, hcut m _ (Prod.ext hm rfl)⟩

end BindState

end Bindery
