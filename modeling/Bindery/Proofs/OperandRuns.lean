import Bindery.Proofs.CastPlans
import Bindery.Proofs.OperandTypes
import Bindery.Proofs.StableConstants
/-!
# Runs of operators

A binary operator binds both operands and reads them, and then does its work on two nodes. From there on nothing changes
but the table of nodes: literals take types, conversions and the operation itself are added. So whether the work can be
done depends on the types of the operands alone, and on whether constants are divided by zero.
-/
namespace Bindery

namespace Program

/-! ## The table of nodes -/

section

variable (p : Program) (nodes : Array Node)

/-- What a type is does not depend on the nodes of a program. -/
theorem castPlan_nodes (intent : Intent) (src dst : Ty) :
    ({ p with nodes } : Program).castPlan intent src dst = p.castPlan intent src dst := by
  induction src with
  | reference inner ih =>
    simp only [castPlan, ih]
    rfl
  | _ => rfl

theorem converts_nodes (src dst : Ty) : ({ p with nodes } : Program).converts src dst = p.converts src dst := by
  rw [converts, castPlan_nodes, converts]

theorem Standard.withNodes {p : Program} (hp : p.Standard) (nodes : Array Node) :
    ({ p with nodes } : Program).Standard := ⟨hp.builtin, hp.place, hp.enum, hp.size⟩

theorem upperBound?_nodes (a b : Ty) : ({ p with nodes } : Program).upperBound? a b = p.upperBound? a b := by
  unfold upperBound?
  simp only [converts_nodes]
  rfl

end

theorem adaptLiteral_eq (p : Program) (n : NodeId) (ty : Ty) :
    p.adaptLiteral n ty = { p with nodes := (p.adaptLiteral n ty).nodes } := by
  unfold adaptLiteral
  split <;> rfl

/-- Only nodes are different when operands took each other's types. -/
theorem adapted_eq (p : Program) (left right : NodeId) :
    p.adapted left right = { p with nodes := (p.adapted left right).nodes } := by
  rw [adapted, adaptLiteral_eq]
  dsimp only
  rw [adaptLiteral_eq p left]

theorem Standard.adaptLiteral {p : Program} (hp : p.Standard) (n : NodeId) (ty : Ty) :
    (p.adaptLiteral n ty).Standard := by
  rw [adaptLiteral_eq]
  exact hp.withNodes _

theorem size_adaptLiteral (p : Program) (n : NodeId) (ty : Ty) : (p.adaptLiteral n ty).nodes.size = p.nodes.size := by
  unfold adaptLiteral
  split <;> simp

theorem converts_adaptLiteral (p : Program) (n : NodeId) (ty a b : Ty) :
    (p.adaptLiteral n ty).converts a b = p.converts a b := by
  rw [adaptLiteral_eq, converts_nodes]

end Program

/-- A state in which nodes were added, and nothing else was changed. -/
structure Grown (s t : BindState) : Prop where
  same : t = { s with program := { s.program with nodes := t.program.nodes } }
  nodes : ∀ n : NodeId, n.index < s.program.nodes.size → t.program.node n = s.program.node n
  size : s.program.nodes.size ≤ t.program.nodes.size

namespace Grown

variable {s t u : BindState} {n : NodeId}

theorem refl (s : BindState) : Grown s s := ⟨rfl, fun _ _ => rfl, Nat.le_refl _⟩

theorem trans (h : Grown s t) (h' : Grown t u) : Grown s u where
  same := by
    rw [h'.same, h.same]
  nodes n hn := (h'.nodes n (Nat.lt_of_lt_of_le hn h.size)).trans (h.nodes n hn)
  size := Nat.le_trans h.size h'.size

theorem addNode (s : BindState) (node : Node) : Grown s { s with program := s.program.addNode node } where
  same := rfl
  nodes _ hn := Program.node_addNode_of_lt _ _ hn
  size := by simp [Program.addNode]

theorem log (h : Grown s t) : t.log = s.log := by rw [h.same]

theorem converts_eq (h : Grown s t) (a b : Ty) : t.program.converts a b = s.program.converts a b := by
  rw [h.same]
  exact s.program.converts_nodes _ a b

theorem standard (h : Grown s t) (hs : s.program.Standard) : t.program.Standard := by
  rw [h.same]
  exact hs.withNodes _

theorem isConstant_eq (h : Grown s t) (hn : n.index < s.program.nodes.size) :
    t.program.isConstant n = s.program.isConstant n := by
  rw [Program.isConstant, h.nodes n hn, Program.isConstant]

end Grown

namespace BindM

variable {α β : Type} {c : Context} {s t : BindState} {n m left right : NodeId} {pos : Span} {op : BinaryOp} {ty : Ty}

/-- A rule gives a result and reports no error. -/
def Accepts (rule : BindM α) (c : Context) (s : BindState) : Prop :=
  (rule.runAt c s).1.isSome ∧ (rule.runAt c s).2.log.errorCount = s.log.errorCount

/-- A rule fails and reports an error. -/
def Refuses (rule : BindM α) (c : Context) (s : BindState) : Prop :=
  (rule.runAt c s).1 = none ∧ s.log.errorCount < (rule.runAt c s).2.log.errorCount

instance (rule : BindM α) : Decidable (Accepts rule c s) := inferInstanceAs (Decidable (_ ∧ _))

instance (rule : BindM α) : Decidable (Refuses rule c s) := inferInstanceAs (Decidable (_ ∧ _))

theorem Refuses.not_accepts {rule : BindM α} (h : Refuses rule c s) : ¬ Accepts rule c s := by
  rintro ⟨hsome, -⟩
  rw [h.1] at hsome
  cases hsome

/-- What holds wherever a rule ends holds where it ended. -/
theorem Ends.ended {rule : BindM α} {reach : BindState → Prop} {post : α → BindState → Prop} {r : α}
    (h : Ends rule c s reach post) (hrun : rule.runAt c s = (some r, t)) : reach t ∧ post r t := by
  obtain ⟨hreach, hpost⟩ := h
  rw [hrun] at hreach hpost
  exact ⟨hreach, hpost r rfl⟩

theorem fail_refuses (pos : Span) {message : Message} (args : List String) (h : message.category = .error) :
    Refuses (fail pos message args : BindM α) c s := ⟨rfl, Reports.fail pos args h rfl⟩

theorem Refuses.bind {rule : BindM α} {f : α → BindM β} (h : Refuses rule c s) : Refuses (rule >>= f) c s := by
  unfold Refuses
  rw [runAt_bind_none (Prod.ext h.1 rfl)]
  exact ⟨rfl, h.2⟩

theorem Refuses.ask_bind {question : Program → α} {f : α → BindM β} (h : Refuses (f (question s.program)) c s) :
    Refuses (ask question >>= f) c s := h

theorem operatorError_refuses : Refuses (operatorError pos op left right : BindM α) c s :=
  .ask_bind (.ask_bind (.ask_bind (.ask_bind (fail_refuses _ _ rfl))))

/-! ## Conversions -/

/-- The steps of a plan add nodes. The last of them is a constant only if the value was one. -/
theorem applySteps_grown {steps : List CastStep} {constant : Bool} (hn : n.index < s.program.nodes.size)
    (hconst : constant = true → s.program.isConstant n) :
    ∃ m t, (applySteps pos steps constant n).runAt c s = (some m, t) ∧ Grown s t ∧ m.index < t.program.nodes.size ∧
      (t.program.isConstant m → s.program.isConstant n) := by
  induction steps generalizing constant n s with
  | nil => exact ⟨n, s, rfl, .refl s, hn, id⟩
  | cons step rest ih =>
    let made : BindState := { s with program := s.program.addNode ⟨pos, step.target, step.nodeKind n⟩ }
    let marked : BindState :=
      { made with program := made.program.addNode ⟨pos, step.target, .constExpr s.program.nextNode⟩ }
    have hmade : Grown s made := .addNode s _
    have hmarked : Grown made marked := .addNode made _
    unfold applySteps
    rw [runAt_bind_some rfl]
    split
    · rename_i hmark
      rw [Bool.and_eq_true] at hmark
      have hconstant : marked.program.isConstant made.program.nextNode := by
        rw [Program.isConstant, show marked.program = _ from rfl, Program.node_addNode_next]
      have hlt : made.program.nextNode.index < marked.program.nodes.size := by
        simp [marked, Program.nextNode, Program.addNode]
      obtain ⟨m, t, hrun, hgrown, hm, -⟩ := ih hlt fun (_ : true = true) => hconstant
      rw [runAt_bind_some rfl]
      exact ⟨m, t, hrun, hmade.trans (hmarked.trans hgrown), hm, fun _ => hconst hmark.1⟩
    · have hlt : s.program.nextNode.index < made.program.nodes.size := by
        simp [made, Program.nextNode, Program.addNode]
      obtain ⟨m, t, hrun, hgrown, hm, hconst'⟩ := ih hlt fun h => absurd h Bool.false_ne_true
      refine ⟨m, t, hrun, hmade.trans hgrown, hm, fun h => ?_⟩
      -- a conversion is no constant before it is marked as one
      have hcast := hconst' h
      rw [Program.isConstant, show made.program = _ from rfl, Program.node_addNode_next] at hcast
      unfold CastStep.nodeKind at hcast
      cases hk : step.kind <;> simp [hk] at hcast

theorem converts_iff {p : Program} {a b : Ty} : p.converts a b ↔ ∃ steps, p.castPlan .implicit a b = .ok steps := by
  rw [Program.converts]
  cases p.castPlan .implicit a b <;> simp [Except.toBool]

/-- **A value is converted wherever that needs not be asked for**, and nodes are added. -/
theorem coerce_run (hs : s.program.Standard) (hn : n.index < s.program.nodes.size)
    (hsrc : (s.program.node n).ty ≠ .unknown) (hty : ty ≠ .unknown) (h : s.program.converts (s.program.node n).ty ty) :
    ∃ m t, (coerce n ty).runAt c s = (some m, t) ∧ Grown s t ∧ m.index < t.program.nodes.size ∧
      (t.program.node m).ty = ty ∧ (t.program.isConstant m → s.program.isConstant n) := by
  obtain ⟨steps, hplan⟩ := converts_iff.1 h
  obtain ⟨m, t, hrun, hgrown, hm, hconst⟩ := applySteps_grown hn id
  have hcoerce : (coerce n ty).runAt c s = (some m, t) := (convert_eq hsrc hty hplan).trans hrun
  refine ⟨m, t, hcoerce, hgrown, hm, ?_, hconst⟩
  have hlanding := (convert_landing (c := c) hs n ty .implicit).post m (by rw [show convert n ty .implicit = coerce n ty from rfl, hcoerce])
  rwa [show convert n ty .implicit = coerce n ty from rfl, hcoerce] at hlanding

/-- A value is converted only where that needs not be asked for. -/
theorem of_coerce (h : (coerce n ty).runAt c s = (some m, t)) :
    (s.program.node n).ty ≠ .unknown ∧ ty ≠ .unknown ∧ s.program.converts (s.program.node n).ty ty := by
  have hknown : ¬ ((s.program.node n).ty.isUnknown || ty.isUnknown) := by
    intro hunknown
    rw [coerce, convert, runAt_bind_some rfl, runAt_bind_some rfl, if_pos hunknown] at h
    cases h
  simp only [Bool.or_eq_true, not_or] at hknown
  refine ⟨fun hty => hknown.1 (by rw [hty]; rfl), fun hty => hknown.2 (by rw [hty]; rfl), ?_⟩
  rw [converts_iff]
  cases hplan : s.program.castPlan .implicit (s.program.node n).ty ty with
  | ok steps => exact ⟨steps, rfl⟩
  | error cause =>
    have hnone := convert_refused (c := c) hplan
    rw [show convert n ty .implicit = coerce n ty from rfl, h] at hnone
    cases hnone

/-- What is converted is reported nowhere. -/
theorem coerce_log (hs : s.program.Standard) (hn : n.index < s.program.nodes.size)
    (h : (coerce n ty).runAt c s = (some m, t)) : t.log = s.log := by
  obtain ⟨hsrc, hty, hconverts⟩ := of_coerce h
  obtain ⟨m', t', hrun, hgrown, -⟩ := coerce_run hs hn hsrc hty hconverts
  cases h.symm.trans hrun
  exact hgrown.log

/-- **An operation is folded, or it divides constants by zero.** -/
theorem fold_run (n : NodeId) (operands : List NodeId) :
    (∃ m t, (fold n operands).runAt c s = (some m, t) ∧ Grown s t ∧ (t.program.node m).ty = (s.program.node n).ty) ∨
    (operands.all s.program.isConstant ∧ s.program.eval n = .error .divisionByZero ∧ (fold n operands).runAt c s =
      (none, { s with log := s.log.add (.of (s.program.node n).pos .divisionByZero []) })) := by
  by_cases hc : operands.all s.program.isConstant
  · cases he : s.program.eval n with
    | ok value =>
      rw [fold, runAt_bind_some (runAt_ask _), if_neg (by simpa using hc), runAt_bind_some (runAt_ask _), he]
      dsimp only
      rw [markConstant, runAt_bind_some (runAt_ask _)]
      split
      · exact .inl ⟨n, s, rfl, .refl s, rfl⟩
      · exact .inl ⟨_, _, rfl, .addNode s _, by rw [Program.node_addNode_next]⟩
    | error cause =>
      cases cause with
      | divisionByZero => exact .inr ⟨hc, rfl, BindState.fold_of_divisionByZero hc he⟩
      | notConstant =>
        rw [fold, runAt_bind_some (runAt_ask _), if_neg (by simpa using hc), runAt_bind_some (runAt_ask _), he]
        exact .inl ⟨n, s, rfl, .refl s, rfl⟩
  · rw [fold, runAt_bind_some (runAt_ask _), if_pos (by simpa using hc)]
    exact .inl ⟨n, s, rfl, .refl s, rfl⟩

/-! ## Operands -/

/-- Both operands are bound, then read. -/
def operands (room : Room) (left right : Part) : BindM (NodeId × NodeId) := do
  let (left, right) ← bothValues room left right
  let left ← readThrough left
  let right ← readThrough right
  return (left, right)

/-- What a binary operator does with its operands. -/
def applyBinary (room : Room) (pos : Span) (op : BinaryOp) (left right : NodeId) : BindM NodeId :=
  withOperator room pos (.binary op) [left, right] do
    match op.family with
    | .relational => bindRelational pos op left right
    | .logical => bindLogical pos op left right
    | .coalesce => bindCoalesce pos left right
    | .shift => bindShift pos op left right
    | .additive => bindAdditive pos op left right
    | .multiplicative | .bitwise => bindArithmetic pos op left right

theorem bindBinary_eq (room : Room) (pos : Span) (op : BinaryOp) (left right : Part) :
    bindBinary room pos op left right = operands room left right >>= fun r => applyBinary room pos op r.1 r.2 := by
  simp only [bindBinary, operands, bind_assoc, pure_bind]
  rfl

/-- A value is read. A place is no constant, and what is read from it is none. -/
theorem readThrough_run (hn : n.index < s.program.nodes.size) :
    ∃ m t, (readThrough n).runAt c s = (some m, t) ∧ Grown s t ∧ m.index < t.program.nodes.size ∧
      (t.program.node m).ty = (s.program.node n).ty.stripReference ∧
      (s.program.isPlace n → t.program.isConstant m = false) := by
  unfold readThrough
  rw [runAt_bind_some rfl]
  dsimp only
  cases hty : (s.program.node n).ty with
  | reference pointee =>
    refine ⟨_, _, rfl, .addNode s _, by simp [Program.nextNode, Program.addNode], ?_, fun _ => ?_⟩
    · rw [Program.node_addNode_next]
      rfl
    · rw [Program.isConstant, Program.node_addNode_next]
  | unknown | direct | pointer =>
    refine ⟨n, s, rfl, .refl s, hn, hty, fun hplace => ?_⟩
    unfold Program.isPlace at hplace
    unfold Program.isConstant
    cases hk : (s.program.node n).kind <;> simp [hk, hty, Ty.isReference] at hplace ⊢

/-- Both operands of a construct may be used. -/
theorem operands_closed {room : Room} {left right : Part} (hroom : room.Good) (hl : left.Good) (hr : right.Good) :
    (operands room left right).Closed fun k c t r => Result k c t r.1 ∧ Result k c t r.2 := by
  intro c s hc
  refine .next (.start hc) (Nat.le_refl _) (bothValues_closed hroom hl hr c s hc) ?_
  rintro ⟨a, b⟩ t ht - ⟨ha, hb⟩
  refine .next ht (Nat.le_refl _) (readThrough_typed (ht.ready hc) ha.held) fun a' u hu _ ha' => ?_
  have hb := ha'.2.2 b hb
  refine .next hu (Nat.le_refl _) (readThrough_typed (hu.ready hc) hb.held) fun b' v hv _ hb' => ?_
  exact .pure hv ⟨hb'.2.2 a' (ha'.1.result ha), hb'.1.result hb⟩

/-- The operators that are declared are for structs, unions and arrays. -/
theorem withOperator_run {room : Room} {name : OperatorName} {builtin : BindM NodeId}
    (h : ∀ n ∈ [left, right], s.program.isBuiltinOperand n) :
    (withOperator room pos name [left, right] builtin).runAt c s = builtin.runAt c s := by
  rw [withOperator, runAt_bind_some rfl, runAt_bind_some (runAt_ask _), Program.operatorFor?,
    if_pos (List.all_eq_true.2 h)]

end BindM

namespace Program

/-- The type in which two operands meet, after they took each other's types. -/
def meeting? (p : Program) (left right : NodeId) : Option Ty :=
  p.upperBound? ((p.adapted left right).node left).ty ((p.adapted left right).node right).ty

theorem meeting?_eq (p : Program) (left right : NodeId) : p.meeting? left right =
    (p.adapted left right).upperBound? ((p.adapted left right).node left).ty ((p.adapted left right).node right).ty := by
  have h := upperBound?_nodes p (p.adapted left right).nodes
  rw [← p.adapted_eq] at h
  rw [h]
  rfl

end Program

namespace BindM

variable {c : Context} {s : BindState} {left right : NodeId} {pos : Span} {op : BinaryOp} {ty : Ty}

/-- Operands that meet in a type are given it, after they took each other's types. -/
theorem upperBound_run (h : s.program.meeting? left right = some ty) : (upperBound left right pos).runAt c s =
    (some ty, { s with program := s.program.adapted left right }) := by
  have hadapted : (s.program.adaptLiteral left (s.program.node right).ty).adaptLiteral right
      ((s.program.adaptLiteral left (s.program.node right).ty).node left).ty = s.program.adapted left right := rfl
  rw [Program.meeting?_eq] at h
  unfold upperBound
  rw [runAt_bind_some rfl, runAt_bind_some rfl, runAt_bind_some rfl, runAt_bind_some rfl, runAt_bind_some rfl,
    runAt_bind_some rfl, runAt_bind_some (runAt_ask _)]
  dsimp only
  rw [hadapted, h]
  rfl

theorem upperBound_refuses (h : s.program.meeting? left right = none) : Refuses (upperBound left right pos) c s := by
  have hadapted : (s.program.adaptLiteral left (s.program.node right).ty).adaptLiteral right
      ((s.program.adaptLiteral left (s.program.node right).ty).node left).ty = s.program.adapted left right := rfl
  rw [Program.meeting?_eq] at h
  unfold Refuses upperBound
  rw [runAt_bind_some rfl, runAt_bind_some rfl, runAt_bind_some rfl, runAt_bind_some rfl, runAt_bind_some rfl,
    runAt_bind_some rfl, runAt_bind_some (runAt_ask _)]
  dsimp only
  rw [hadapted, h]
  exact Refuses.ask_bind (Refuses.ask_bind (fail_refuses _ _ rfl))

/-! ## Operations -/

/-- Both operands are converted to a type, and an operation on them is added and folded. -/
def operate (pos : Span) (kind : NodeId → NodeId → NodeKind) (target ty : Ty) (left right : NodeId) : BindM NodeId := do
  let left ← coerce left target
  let right ← coerce right target
  fold (← addNode pos ty (kind left right)) [left, right]

/-- An operation on constants, converted to a type, divides by zero. That is reported, and nothing else. -/
structure Divided (pos : Span) (kind : NodeId → NodeId → NodeKind) (target : Ty) (left right : NodeId)
    (s t : BindState) : Prop where
  constants : s.program.isConstant left ∧ s.program.isConstant right
  log : t.log = s.log.add (.of pos .divisionByZero [])
  made : ∃ n l r, n.index + 1 = t.program.nodes.size ∧ (t.program.node n).kind = kind l r ∧
    (t.program.isConstant l ∧ t.program.isConstant r) ∧ (t.program.node r).ty = target ∧
    t.program.eval n = .error .divisionByZero

/-- **An operation on operands that become one type is made**, unless it divides constants by zero. -/
theorem operate_run {kind : NodeId → NodeId → NodeKind} {target : Ty} (hs : s.program.Standard)
    (hl : left.index < s.program.nodes.size) (hr : right.index < s.program.nodes.size) (ht : target ≠ .unknown)
    (hleft : (s.program.node left).ty ≠ .unknown ∧ s.program.converts (s.program.node left).ty target)
    (hright : (s.program.node right).ty ≠ .unknown ∧ s.program.converts (s.program.node right).ty target) :
    (∃ n t, (operate pos kind target ty left right).runAt c s = (some n, t) ∧ Grown s t ∧ (t.program.node n).ty = ty) ∨
    ∃ t, (operate pos kind target ty left right).runAt c s = (none, t) ∧ Divided pos kind target left right s t := by
  obtain ⟨l, t, hrun, hgrown, hlt, -, hconst⟩ := coerce_run (c := c) hs hl hleft.1 ht hleft.2
  have hnode := hgrown.nodes right hr
  obtain ⟨r, u, hrun', hgrown', hrt, hrty, hconst'⟩ := coerce_run (c := c) (hgrown.standard hs)
    (Nat.lt_of_lt_of_le hr hgrown.size) (hnode ▸ hright.1) ht (by rw [hnode, hgrown.converts_eq]; exact hright.2)
  let node : Node := ⟨pos, ty, kind l r⟩
  have hadded := Grown.addNode u node
  have hmade : (operate pos kind target ty left right).runAt c s = (fold u.program.nextNode [l, r]).runAt c
      { u with program := u.program.addNode node } := by
    rw [operate, runAt_bind_some hrun, runAt_bind_some hrun', runAt_bind_some rfl]
  rw [hmade]
  rcases fold_run (c := c) (s := { u with program := u.program.addNode node }) u.program.nextNode [l, r] with
    ⟨m, v, hfold, hgrown'', hty⟩ | ⟨hall, heval, hfold⟩
  · refine .inl ⟨m, v, hfold, hgrown.trans (hgrown'.trans (hadded.trans hgrown'')), ?_⟩
    rw [hty, Program.node_addNode_next]
  · have hlt' := Nat.lt_of_lt_of_le hlt hgrown'.size
    simp only [List.all_cons, List.all_nil, Bool.and_true, Bool.and_eq_true] at hall
    refine .inr ⟨_, hfold, ⟨hconst ?_, ?_⟩, ?_, ⟨u.program.nextNode, l, r, ?_, ?_, hall, ?_, heval⟩⟩
    · rw [← hgrown'.isConstant_eq hlt, ← hadded.isConstant_eq hlt']
      exact hall.1
    · rw [← hgrown.isConstant_eq hr]
      refine hconst' ?_
      rw [← hadded.isConstant_eq hrt]
      exact hall.2
    · rw [Program.node_addNode_next, ← hgrown.log, ← hgrown'.log]
    · simp [Program.nextNode, Program.addNode]
    · exact congrArg Node.kind (Program.node_addNode_next _ _)
    · rw [← hrty]
      exact congrArg Node.ty (hadded.nodes r hrt)

end BindM

/-! ## Arithmetic, bitwise and relational operators -/

/-- Arithmetic, bitwise and relational operators. -/
def BinaryOp.Combines (op : BinaryOp) : Prop :=
  op.family = .relational ∨ op.family = .additive ∨ op.family = .multiplicative ∨ op.family = .bitwise

instance (op : BinaryOp) : Decidable op.Combines := inferInstanceAs (Decidable (_ ∨ _))

/-- The type of what an operator gives, if its operands have a type. -/
def BinaryOp.resultType (op : BinaryOp) (ty : Ty) : Ty := if op.family = .relational then .bool else ty

def BinaryOp.nodeKind (op : BinaryOp) (left right : NodeId) : NodeKind :=
  if op.family = .relational then .condition op left right else .arithmetic op left right

namespace Program

variable {p : Program} {op : BinaryOp} {left right : NodeId} {ty : Ty}

/-- Whether an operator can be applied to values of a type. -/
def isOperable (p : Program) (op : BinaryOp) (ty : Ty) : Bool :=
  if op.family = .relational then p.isComparable op ty else p.isArithmetic op ty

/-- The type that operands are converted to if they meet in one. -/
def operandType (p : Program) (op : BinaryOp) (meeting : Ty) : Ty :=
  if op.family = .relational then meeting else p.promote meeting

theorem isOperable_nodes (nodes : Array Node) : ({ p with nodes } : Program).isOperable op ty = p.isOperable op ty := rfl

theorem operandType_nodes (nodes : Array Node) : ({ p with nodes } : Program).operandType op ty = p.operandType op ty := rfl

/-- **The type of an operation**, if an operator can be applied to its operands. -/
def operationType? (p : Program) (op : BinaryOp) (left right : NodeId) : Option Ty :=
  if p.isOperable op (p.node left).ty && p.isOperable op (p.node right).ty then
    (p.meeting? left right).map fun meeting => op.resultType (p.operandType op meeting)
  else none

theorem operationType?_eq_some : p.operationType? op left right = some ty ↔
    (p.isOperable op (p.node left).ty ∧ p.isOperable op (p.node right).ty) ∧
      ∃ meeting, p.meeting? left right = some meeting ∧ op.resultType (p.operandType op meeting) = ty := by
  unfold operationType?
  split <;> simp_all

theorem scalar?_isSome_of_isArithmetic (h : p.isArithmetic op ty) : (p.scalar? ty).isSome ∨ ty = .bool := by
  unfold isArithmetic isIntegral isNumeric at h
  cases hs : p.scalar? ty with
  | some a => exact .inl rfl
  | none =>
    split at h
    · simpa [hs] using h
    · simp [hs] at h

theorem ne_unknown_of_isOperable (h : p.isOperable op ty) : ty ≠ .unknown := by
  rintro rfl
  have hbool : (Ty.unknown == .bool) = false := by decide
  have hnull : (Ty.unknown == .null) = false := by decide
  have hnumeric : p.isNumeric .unknown = false := rfl
  have hintegral : p.isIntegral .unknown = false := rfl
  have henum : p.isEnum .unknown = false := rfl
  simp [isOperable, isComparable, isArithmetic, hbool, hnull, hnumeric, hintegral, henum, Ty.isPointer] at h

theorem promote_ne_unknown (h : ty ≠ .unknown) : p.promote ty ≠ .unknown := by
  unfold promote
  split
  · rename_i signed _
    split
    · cases signed <;> decide
    · exact h
  · exact h

theorem operandType_ne_unknown (h : ty ≠ .unknown) : p.operandType op ty ≠ .unknown := by
  unfold operandType
  split
  · exact h
  · exact promote_ne_unknown h

/-- Operands that can be computed with become the type that they are computed in. -/
theorem Standard.converts_operandType (hp : p.Standard) {a b meeting : Ty} (ha : p.isOperable op a)
    (hb : p.isOperable op b) (h : p.upperBound? a b = some meeting) :
    p.operandType op meeting ≠ .unknown ∧ p.converts a (p.operandType op meeting) ∧
      p.converts b (p.operandType op meeting) := by
  obtain ⟨hameet, hbmeet, hwhich⟩ := upperBound?_spec h
  have hknown : meeting ≠ .unknown := by
    rcases hwhich with rfl | rfl | rfl
    · exact ne_unknown_of_isOperable ha
    · exact ne_unknown_of_isOperable hb
    · decide
  refine ⟨operandType_ne_unknown hknown, ?_⟩
  unfold operandType
  split
  · exact ⟨hameet, hbmeet⟩
  · rename_i hfamily
    have hscalar : ∀ ty, p.isOperable op ty → (p.scalar? ty).isSome := by
      intro ty hty
      rw [isOperable, if_neg hfamily] at hty
      rcases scalar?_isSome_of_isArithmetic hty with hs | rfl
      · exact hs
      · rw [hp.scalar?_bool]
        rfl
    have hmeeting : (p.scalar? meeting).isSome := by
      rcases hwhich with rfl | rfl | rfl
      · exact hscalar _ ha
      · exact hscalar _ hb
      · rw [show Ty.double = .ofScalar (.float 64) from rfl, hp.scalar?_ofScalar (by decide)]
        rfl
    exact ⟨hp.converts_promote (hscalar a ha) hmeeting hameet, hp.converts_promote (hscalar b hb) hmeeting hbmeet⟩

end Program

namespace BindM

variable {c : Context} {s : BindState} {left right : NodeId} {pos : Span} {op : BinaryOp} {ty : Ty}

/-- What an arithmetic, bitwise or relational operator does: operands that it can be applied to meet in a type, are
converted, and an operation on them is made. -/
def combine (pos : Span) (op : BinaryOp) (left right : NodeId) : BindM NodeId := do
  let a ← nodeType left
  let b ← nodeType right
  if !(← ask fun p => p.isOperable op a && p.isOperable op b) then operatorError pos op left right
  let meeting ← upperBound left right pos
  let ty ← ask (·.operandType op meeting)
  operate pos op.nodeKind ty (op.resultType ty) left right

theorem bindArithmetic_eq (h : op.family ≠ .relational) :
    (bindArithmetic pos op left right).runAt c s = (combine pos op left right).runAt c s := by
  have hkind : op.nodeKind = .arithmetic op := by
    funext l r
    rw [BinaryOp.nodeKind, if_neg h]
  unfold combine
  simp only [Program.isOperable, Program.operandType, BinaryOp.resultType, if_neg h, hkind]
  rfl

theorem bindRelational_eq (h : op.family = .relational) :
    (bindRelational pos op left right).runAt c s = (combine pos op left right).runAt c s := by
  have hkind : op.nodeKind = .condition op := by
    funext l r
    rw [BinaryOp.nodeKind, if_pos h]
  unfold combine
  simp only [Program.isOperable, Program.operandType, BinaryOp.resultType, if_pos h, hkind]
  rfl

theorem combine_refuses (h : s.program.operationType? op left right = none) :
    Refuses (combine pos op left right) c s := by
  refine Refuses.ask_bind (Refuses.ask_bind (Refuses.ask_bind ?_))
  unfold Program.operationType? at h
  split
  · exact operatorError_refuses.bind
  · rename_i happlies
    rw [if_pos (by simpa using happlies), Option.map_eq_none_iff] at h
    exact (upperBound_refuses h).bind

/-- **An operator is applied to operands that can be computed with and that meet**, unless it divides constants by zero. -/
theorem combine_run (c : Context) (pos : Span) (hs : s.program.Standard) (hl : left.index < s.program.nodes.size)
    (hr : right.index < s.program.nodes.size) (h : s.program.operationType? op left right = some ty) :
    (∃ n t, (combine pos op left right).runAt c s = (some n, t) ∧ (t.program.node n).ty = ty ∧ t.log = s.log) ∨
    ∃ t target, (combine pos op left right).runAt c s = (none, t) ∧ op.resultType target = ty ∧
      Divided pos op.nodeKind target left right s t := by
  obtain ⟨⟨hleft, hright⟩, meeting, hmeeting, rfl⟩ := Program.operationType?_eq_some.1 h
  let met : BindState := { s with program := s.program.adapted left right }
  have hsame : met.program = { s.program with nodes := met.program.nodes } := s.program.adapted_eq left right
  have hstandard : met.program.Standard := (hs.adaptLiteral _ _).adaptLiteral _ _
  have hoperable : ∀ n ∈ [left, right], met.program.isOperable op (met.program.node n).ty := by
    intro n hn
    rw [hsame, Program.isOperable_nodes, ← hsame]
    rcases s.program.adapted_types left right n hn with hty | hty
    · rw [hty]
      exact hleft
    · rw [hty]
      exact hright
  have hoperableLeft := hoperable left List.mem_cons_self
  have hoperableRight := hoperable right (List.mem_cons_of_mem _ List.mem_cons_self)
  have hmeet : met.program.upperBound? (met.program.node left).ty (met.program.node right).ty = some meeting := by
    rw [← hmeeting, Program.meeting?_eq]
  obtain ⟨hknown, hconvertsLeft, hconvertsRight⟩ := hstandard.converts_operandType hoperableLeft hoperableRight hmeet
  have htarget : met.program.operandType op meeting = s.program.operandType op meeting := by
    rw [hsame, Program.operandType_nodes]
  have hconstant : ∀ n, met.program.isConstant n = s.program.isConstant n := by
    intro n
    rw [Program.isConstant, s.program.kind_adapted left right n, Program.isConstant]
  have hrun : (combine pos op left right).runAt c s =
      (operate pos op.nodeKind (met.program.operandType op meeting) (op.resultType (met.program.operandType op meeting))
        left right).runAt c met := by
    have happlies : (!(s.program.isOperable op (s.program.node left).ty &&
        s.program.isOperable op (s.program.node right).ty)) = false := by simp [hleft, hright]
    rw [combine, runAt_bind_some rfl, runAt_bind_some rfl, runAt_bind_some (runAt_ask _), happlies,
      if_neg Bool.false_ne_true, runAt_bind_some (upperBound_run hmeeting), runAt_bind_some (runAt_ask _)]
  have hsize : met.program.nodes.size = s.program.nodes.size :=
    (Program.size_adaptLiteral _ _ _).trans (Program.size_adaptLiteral _ _ _)
  rw [hrun]
  rcases operate_run hstandard (hsize ▸ hl) (hsize ▸ hr) hknown
      ⟨Program.ne_unknown_of_isOperable hoperableLeft, hconvertsLeft⟩
      ⟨Program.ne_unknown_of_isOperable hoperableRight, hconvertsRight⟩ with
    ⟨n, t, hmade, hgrown, hty⟩ | ⟨t, hnone, hdivided⟩
  · exact .inl ⟨n, t, hmade, hty.trans (by rw [htarget]), hgrown.log⟩
  · exact .inr ⟨t, _, hnone, by rw [htarget], hconstant left ▸ hconstant right ▸ hdivided.constants, hdivided.log,
      hdivided.made⟩

/-- **An operator is applied without an error to the operands that it has a type for**, if one of them is no constant. -/
theorem combine_accepts_iff (hs : s.program.Standard) (hl : left.index < s.program.nodes.size)
    (hr : right.index < s.program.nodes.size) (hconst : s.program.isConstant left = false) :
    Accepts (combine pos op left right) c s ↔ (s.program.operationType? op left right).isSome := by
  cases hty : s.program.operationType? op left right with
  | none => simpa using (combine_refuses hty).not_accepts
  | some ty =>
    rcases combine_run c pos hs hl hr hty with ⟨n, t, hrun, -, hlog⟩ | ⟨t, target, -, -, hdivided⟩
    · rw [Accepts, hrun, hlog]
      exact iff_of_true ⟨rfl, rfl⟩ rfl
    · rw [hdivided.constants.1] at hconst
      cases hconst

/-- Arithmetic, bitwise and relational operators do this on operands that are no pointers and have no declared operators. -/
theorem applyBinary_eq_combine {room : Room}
    (hop : op.Combines) (hbuiltin : ∀ n ∈ [left, right], s.program.isBuiltinOperand n)
    (hpointer : (s.program.node left).ty.isPointer = false ∧ (s.program.node right).ty.isPointer = false) :
    (applyBinary room pos op left right).runAt c s = (combine pos op left right).runAt c s := by
  rw [applyBinary, withOperator_run hbuiltin]
  rcases hop with hf | hf | hf | hf <;> rw [hf] <;> dsimp only
  · exact bindRelational_eq hf
  · rw [bindAdditive, runAt_bind_some rfl, runAt_bind_some rfl, hpointer.1, hpointer.2]
    exact bindArithmetic_eq (by rw [hf]; decide)
  · exact bindArithmetic_eq (by rw [hf]; decide)
  · exact bindArithmetic_eq (by rw [hf]; decide)

/-- An operator with two operands, in the scope of a module. -/
structure Pairing where
  op : BinaryOp
  left : Syntax
  right : Syntax

namespace Pairing

def room : Room := .ofDepth 8 "main" 8

def context : Context := { scope := ⟨2⟩ }

theorem ready (hs : s.Sound) (hscope : 2 < s.program.scopes.size) : Ready 0 context s :=
  ⟨hs, Nat.zero_le _, hscope, by rintro _ ⟨⟩, by rintro _ ⟨⟩⟩

/-- The state after both operands were bound, with them. -/
def bound (x : Pairing) (s : BindState) : Option (NodeId × NodeId) × BindState :=
  (operands room (part room x.left) (part room x.right)).runAt context s

end Pairing

end BindM

end Bindery
