import Bindery.Proofs.OperandRuns
/-!
# Compound assignments

`t op= v` computes what `t op v` does and keeps it in `t`. It asks less of its operands: where `t` is a number, `v` has
only to become one without being asked. So it takes values that the operator alone does not: `null`, references to
references, and floating-point numbers where bits are combined. Those are all.
-/
namespace Bindery

namespace Program

variable {p : Program} {op : BinaryOp} {a b : Ty}

def isFloat (p : Program) (ty : Ty) : Bool := (p.scalar? ty).any Scalar.isFloat

/-- What a compound assignment takes as a value and its operator does not. -/
def Overreaches (p : Program) (op : BinaryOp) (target value : Ty) : Prop :=
  value = .null ∨ value.isReference ∨ op.family = .bitwise ∧ (p.isFloat target ∨ p.isFloat value)

instance : Decidable (p.Overreaches op a b) := inferInstanceAs (Decidable (_ ∨ _))

theorem isNumeric_iff : p.isNumeric a ↔ ∃ x, p.scalar? a = some x ∧ x ≠ .bool := by
  unfold isNumeric
  rcases p.scalar? a with _ | _ | _ | _ <;> simp

theorem exists_builtin_of_isNumeric (h : p.isNumeric a) : ∃ id x, a = .direct id ∧ p.decl id = .builtin (.scalar x) := by
  obtain ⟨x, hx, -⟩ := isNumeric_iff.1 h
  obtain ⟨id, hid, hd⟩ := builtin?_eq_some_iff.1 (scalar?_eq_some.1 hx)
  exact ⟨id, x, hid, hd⟩

/-- By the classes of types, only numbers, `null` and references become numbers without being asked. -/
theorem number_of_valuePlan {x : Scalar} {source : TypeClass} (hx : x ≠ .bool) (ha : a ≠ .voidPtr)
    (h : (p.valuePlan .implicit b a source (.scalar x)).toBool) :
    (∃ y, source = .scalar y ∧ y ≠ .bool) ∨ source = .null ∨ ∃ pointee, source = .reference pointee := by
  cases source with
  | null => exact .inr (.inl rfl)
  | reference pointee => exact .inr (.inr ⟨pointee, rfl⟩)
  | scalar y =>
    refine .inl ⟨y, rfl, ?_⟩
    rintro rfl
    cases x <;> simp [valuePlan, scalarPlan, CastPlan.onlyExplicit, Except.toBool] at h hx
  | function => simp [valuePlan, ha, Except.toBool] at h
  | pointer pointee =>
    have hnone : (p.fromPointer .implicit pointee a (.scalar x)).toBool = false := by
      cases x with
      | bool | int => rfl
      | float => simp only [fromPointer]; split <;> rfl
    have hplan : p.valuePlan .implicit b a (.pointer pointee) (.scalar x) = p.fromPointer .implicit pointee a (.scalar x) :=
      rfl
    rw [hplan, hnone] at h
    cases h
  | unknown | void | packed | enum | aggregate | inert =>
    cases x <;> simp [valuePlan, enumToInt, Except.toBool] at h hx

/-- **Only numbers, `null` and references become numbers without being asked.** -/
theorem Standard.isNumeric_of_converts (hp : p.Standard) (ha : p.isNumeric a) (h : p.converts b a) :
    p.isNumeric b ∨ b = .null ∨ b.isReference := by
  by_cases heq : b = a
  · exact .inl (heq ▸ ha)
  obtain ⟨x, hx, hbool⟩ := isNumeric_iff.1 ha
  have hvoid : a ≠ .voidPtr := by
    rintro rfl
    cases hx
  cases hb : b with
  | reference => exact .inr (.inr rfl)
  | unknown | direct | pointer =>
    rw [← hb]
    have hplan : p.castPlan .implicit b a = p.valuePlan .implicit b a (p.classify b) (p.classify a) := by
      rw [hb, Program.castPlan, ← hb, if_neg heq]
      rintro _ ⟨⟩
    rw [converts, hplan, classify_eq_scalar_iff.2 hx] at h
    rcases number_of_valuePlan hbool hvoid h with ⟨y, hclass, hy⟩ | hclass | ⟨pointee, hclass⟩
    · exact .inl (isNumeric_iff.2 ⟨y, classify_eq_scalar_iff.1 hclass, hy⟩)
    · exact .inr (.inl (hp.null_of_classify hclass))
    · exact .inr (.inr (by rw [reference_of_classify hclass]; rfl))

theorem Standard.not_isAggregate (hp : p.Standard) (h : p.isNumeric b ∨ b = .null ∨ b.isReference) :
    p.isAggregate b = false := by
  unfold isAggregate typeDecl?
  rcases h with hb | rfl | href
  · obtain ⟨id, x, rfl, hd⟩ := exists_builtin_of_isNumeric hb
    rw [Ty.symbol?, Option.map_some, hd]
  · rw [show Ty.null.symbol? = some ⟨1⟩ from rfl, Option.map_some, hp.builtin ⟨1⟩ _ _ rfl]
  · cases b <;> cases href
    rfl

/-- What becomes a number without being asked has no declared operators. -/
theorem Standard.isAggregate_of_converts (hp : p.Standard) (ha : p.isNumeric a) (h : p.converts b a) :
    p.isAggregate b.stripReference = false := by
  cases b with
  | reference inner =>
    obtain ⟨x, hx, -⟩ := isNumeric_iff.1 ha
    obtain ⟨id, -, rfl, -⟩ := exists_builtin_of_isNumeric ha
    have hinner : p.converts inner (.direct id) := by
      rw [converts, Program.castPlan, if_neg (by rintro ⟨⟩), classify_eq_scalar_iff.2 hx] at h
      unfold converts
      cases hplan : p.castPlan .implicit inner (.direct id) with
      | ok steps => rfl
      | error cause =>
        rw [hplan] at h
        cases h
    exact hp.not_isAggregate (hp.isNumeric_of_converts ha hinner)
  | unknown | direct | pointer => exact hp.not_isAggregate (hp.isNumeric_of_converts ha h)

/-- What becomes a type meets with it in that type. -/
theorem Standard.upperBound?_of_converts (hp : p.Standard) (ha : p.isElementary a) (hb : p.isElementary b)
    (h : p.converts b a) : p.upperBound? a b = some a := by
  unfold upperBound?
  by_cases heq : a = b
  · simp only [if_pos heq]
  · have hno : ¬ p.converts a b := fun h' => heq (hp.converts_antisymm ha hb h' h)
    simp only [if_neg heq, if_neg hno, if_pos h]

theorem isElementary_of_isNumeric (h : p.isNumeric a) : p.isElementary a := by
  obtain ⟨x, hx, -⟩ := isNumeric_iff.1 h
  exact isElementary_iff.2 (.inl (by rw [hx]; rfl))

theorem isNumeric_of_isIntegral (h : p.isIntegral a) : p.isNumeric a := by
  unfold isIntegral at h
  unfold isNumeric
  split at h
  · rename_i heq
    rw [heq]
  · cases h

/-- Numbers can be computed with, but the bits of floating-point numbers. -/
theorem Standard.isArithmetic_iff (hp : p.Standard) (h : p.isNumeric a) :
    p.isArithmetic op a ↔ ¬ (op.family = .bitwise ∧ p.isFloat a) := by
  obtain ⟨x, hx, hbool⟩ := isNumeric_iff.1 h
  have hne : a ≠ .bool := by
    rintro rfl
    rw [hp.scalar?_bool] at hx
    exact hbool (Option.some.inj hx).symm
  unfold isArithmetic isFloat isIntegral
  split
  · rename_i hbitwise
    cases x <;> simp [hx, hbitwise, Scalar.isFloat, hne] at hbool ⊢
  · rename_i hbitwise
    exact iff_of_true h fun hfloat => hbitwise hfloat.1

variable {target value : NodeId}

theorem Standard.not_isArithmetic (hp : p.Standard) (h : a = .null ∨ a.isReference) : ¬ p.isArithmetic op a := by
  intro harithmetic
  rcases scalar?_isSome_of_isArithmetic harithmetic with hs | rfl
  · rcases h with rfl | href
    · rw [scalar?, builtin?, typeDecl?, show Ty.null.symbol? = some ⟨1⟩ from rfl, Option.map_some,
        hp.builtin ⟨1⟩ _ _ rfl] at hs
      cases hs
    · cases a <;> cases href
      cases hs
  · revert h
    decide

theorem Standard.not_null_of_isNumeric (hp : p.Standard) (h : p.isNumeric a) : ¬ (a = .null ∨ a.isReference) := by
  have hadd : p.isArithmetic .add a := (hp.isArithmetic_iff h).2 (by rintro ⟨⟨⟩, -⟩)
  exact fun h' => hp.not_isArithmetic h' hadd

theorem Standard.isBuiltinOperand_of_isNumeric (hp : p.Standard) (h : p.isNumeric (p.node value).ty) :
    p.isBuiltinOperand value := by
  have hplain := hp.not_isAggregate (.inl h)
  obtain ⟨id, -, hid, -⟩ := exists_builtin_of_isNumeric h
  rw [hid] at hplain
  rw [isBuiltinOperand, hid, show (Ty.direct id).stripReference = .direct id from rfl, hplain]
  rfl

/-- **The value of a compound assignment to a number** is a number, `null` or a reference, and has no declared operators. -/
theorem Sound.value_of_adapted (hp : p.Sound) (ha : p.isNumeric a)
    (h : p.converts ((p.adaptLiteral value a).node value).ty a) :
    (p.isNumeric (p.node value).ty ∨ (p.node value).ty = .null ∨ (p.node value).ty.isReference) ∧
      p.isBuiltinOperand value := by
  by_cases hadapts : p.adaptsTo value a
  · have hb := isNumeric_of_isIntegral (hp.isIntegral_of_adaptable (adaptable_of_adaptsTo hadapts).1)
    exact ⟨.inl hb, hp.standard.isBuiltinOperand_of_isNumeric hb⟩
  · rw [adaptLiteral, if_neg hadapts] at h
    refine ⟨hp.standard.isNumeric_of_converts ha h, ?_⟩
    rw [isBuiltinOperand, hp.standard.isAggregate_of_converts ha h]
    rfl

theorem not_isPointer (h : p.isNumeric a ∨ a = .null ∨ a.isReference) : a.isPointer = false := by
  rcases h with ha | rfl | href
  · obtain ⟨id, -, rfl, -⟩ := exists_builtin_of_isNumeric ha
    rfl
  · rfl
  · cases a <;> first | rfl | cases href

/-- A value that becomes the type of a target, after it took that type if it could, meets with the target in it. -/
theorem Standard.meeting?_target (hp : p.Standard) (hconst : p.isConstant target = false)
    (ha : p.isNumeric (p.node target).ty) (hb : p.isNumeric (p.node value).ty)
    (h : p.converts ((p.adaptLiteral value (p.node target).ty).node value).ty (p.node target).ty) :
    p.meeting? target value = some (p.node target).ty := by
  have hstays : ¬ p.adaptsTo target (p.node value).ty := by
    intro hadapts
    obtain ⟨v, -, -, hk, -⟩ := adaptsTo_iff.1 hadapts
    simp [isConstant, hk] at hconst
  have htarget : ((p.adaptLiteral value (p.node target).ty).node target).ty = (p.node target).ty := by
    rcases p.type_adaptLiteral value (p.node target).ty target with hty | hty <;> exact hty
  rw [meeting?, adapted_of_not_adaptsTo hstays, htarget]
  refine hp.upperBound?_of_converts (isElementary_of_isNumeric ha) (isElementary_of_isNumeric ?_) h
  rcases p.type_adaptLiteral value (p.node target).ty value with hty | hty
  · rwa [hty]
  · rwa [hty]

/-- **On a target and a value that its compound assignment takes, an operator has a type unless that overreaches.** -/
theorem Sound.operationType?_isSome (hp : p.Sound) (hconst : p.isConstant target = false)
    (hop : op.family ≠ .relational) (ha : p.isNumeric (p.node target).ty)
    (h : p.converts ((p.adaptLiteral value (p.node target).ty).node value).ty (p.node target).ty) :
    (p.operationType? op target value).isSome ↔ ¬ p.Overreaches op (p.node target).ty (p.node value).ty := by
  have hs := hp.standard
  have hsome : (p.operationType? op target value).isSome ↔ (p.isArithmetic op (p.node target).ty ∧
      p.isArithmetic op (p.node value).ty) ∧ (p.meeting? target value).isSome := by
    rw [operationType?, isOperable, isOperable, if_neg hop, if_neg hop]
    split <;> simp_all
  rcases (hp.value_of_adapted ha h).1 with hb | hb
  · have hplain := hs.not_null_of_isNumeric hb
    rw [hsome, hs.meeting?_target hconst ha hb h, hs.isArithmetic_iff ha, hs.isArithmetic_iff hb]
    constructor
    · rintro ⟨⟨hna, hnb⟩, -⟩ (hnull | href | ⟨hbits, hfloat | hfloat⟩)
      · exact hplain (.inl hnull)
      · exact hplain (.inr href)
      · exact hna ⟨hbits, hfloat⟩
      · exact hnb ⟨hbits, hfloat⟩
    · intro hno
      exact ⟨⟨fun h => hno (.inr (.inr ⟨h.1, .inl h.2⟩)), fun h => hno (.inr (.inr ⟨h.1, .inr h.2⟩))⟩, rfl⟩
  · rw [hsome]
    exact iff_of_false (fun h => hs.not_isArithmetic hb h.1.2) fun hno => hno (hb.imp_right .inl)

end Program

namespace BindM

open Sample

variable {c : Context} {s t : BindState} {target value : NodeId} {pos : Span} {op : BinaryOp}

/-- Where there is a result after a check, the check held. -/
theorem of_checked {α β : Type} {holds : Bool} {refusal : BindM β} {rest : BindM α} {f : β → BindM α} {r : α}
    (hrefuses : Refuses refusal c s)
    (h : (if (!holds) = true then refusal >>= f else rest).runAt c s = (some r, t)) :
    holds ∧ rest.runAt c s = (some r, t) := by
  cases holds with
  | true => exact ⟨rfl, h⟩
  | false =>
    have hnone := hrefuses.bind (f := f)
    rw [Refuses, show (refusal >>= f).runAt c s = (some r, t) from h] at hnone
    cases hnone.1

/-- **What a compound assignment asks of its operands.** Nothing is reported then. -/
theorem compoundValue_inv (hs : s.program.Standard) (hv : value.index < s.program.nodes.size) {r : CompoundKind × NodeId}
    (h : (compoundValue pos op target value).runAt c s = (some r, t)) : t.log = s.log ∧
      let p := s.program
      let a := (p.node target).ty
      let b := (p.node value).ty
      (a.isPointer ∧ op.family = .additive ∧ p.isIntegral b ∧
        ∃ m, (coerce value (p.pointerInt true)).runAt c s = (some m, t)) ∨
      (op.family = .shift ∧ p.isIntegral a ∧ p.isIntegral b) ∨
      (op.isCompound ∧ op.family ≠ .shift ∧ p.isNumeric a ∧
        p.converts ((p.adaptLiteral value a).node value).ty a) := by
  unfold compoundValue at h
  rw [runAt_bind_some rfl, runAt_bind_some rfl] at h
  split at h
  · rename_i hpointer
    rw [Bool.and_eq_true, beq_iff_eq] at hpointer
    rw [runAt_bind_some (runAt_ask _)] at h
    obtain ⟨hintegral, h⟩ := of_checked operatorError_refuses h
    rw [runAt_bind_some (runAt_ask _)] at h
    obtain ⟨m, u, hcoerce, hpure⟩ := runAt_bind_eq_some h
    cases hpure
    exact ⟨coerce_log hs hv hcoerce, .inl ⟨hpointer.1, hpointer.2, hintegral, m, hcoerce⟩⟩
  · split at h
    · rename_i hshift
      rw [runAt_bind_some (runAt_ask _)] at h
      obtain ⟨hintegral, h⟩ := of_checked operatorError_refuses h
      cases h
      rw [Bool.and_eq_true] at hintegral
      exact ⟨rfl, .inr (.inl ⟨hshift, hintegral⟩)⟩
    · rename_i hshift
      rw [runAt_bind_some (runAt_ask _)] at h
      split at h
      · rename_i hnumeric
        rw [Bool.and_eq_true] at hnumeric
        rw [runAt_bind_some rfl] at h
        obtain ⟨m, u, hcoerce, hpure⟩ := runAt_bind_eq_some h
        cases hpure
        have hlog := coerce_log (hs.adaptLiteral value _) (by rwa [Program.size_adaptLiteral]) hcoerce
        have hconverts := (of_coerce hcoerce).2.2
        rw [Program.converts_adaptLiteral] at hconverts
        exact ⟨hlog, .inr (.inr ⟨hnumeric.1, hshift, hnumeric.2, hconverts⟩)⟩
      · have hnone : Refuses (operatorError pos op target value : BindM (CompoundKind × NodeId)) c s :=
          operatorError_refuses
        rw [Refuses, h] at hnone
        cases hnone.1

/-! ## The operator alone -/

theorem bindShift_accepts (hs : s.program.Standard) (ht : target.index < s.program.nodes.size)
    (hconst : s.program.isConstant target = false) (ha : s.program.isIntegral (s.program.node target).ty)
    (hb : s.program.isIntegral (s.program.node value).ty) : Accepts (bindShift pos op target value) c s := by
  obtain ⟨x, hx, -⟩ := Program.isNumeric_iff.1 (Program.isNumeric_of_isIntegral ha)
  obtain ⟨id, -, hid, -⟩ := Program.exists_builtin_of_isNumeric (Program.isNumeric_of_isIntegral ha)
  have hscalar : (s.program.scalar? (s.program.node target).ty).isSome := by
    rw [hx]
    rfl
  have hknown : (s.program.node target).ty ≠ .unknown := by
    rw [hid]
    rintro ⟨⟩
  have hconverts := hs.converts_promote hscalar hscalar (s.program.converts_self _)
  obtain ⟨m, u, hcoerce, hgrown, hm, -, hmconst⟩ := coerce_run (c := c) hs ht hknown
    (Program.promote_ne_unknown hknown) hconverts
  have hdefined : (!(s.program.isIntegral (s.program.node target).ty && s.program.isIntegral (s.program.node value).ty)) =
      false := by rw [ha, hb]; rfl
  let node : Node := ⟨pos, s.program.promote (s.program.node target).ty, .shift op m value⟩
  have hrun : (bindShift pos op target value).runAt c s = (fold u.program.nextNode [m, value]).runAt c
      { u with program := u.program.addNode node } := by
    rw [bindShift, runAt_bind_some rfl, runAt_bind_some rfl, runAt_bind_some (runAt_ask _), hdefined]
    exact (runAt_bind_some rfl).trans ((runAt_bind_some hcoerce).trans (runAt_bind_some rfl))
  rcases fold_run (c := c) (s := { u with program := u.program.addNode node }) u.program.nextNode [m, value] with
    ⟨n, v, hfold, hgrown', -⟩ | ⟨hall, -⟩
  · rw [Accepts, hrun, hfold]
    exact ⟨rfl, congrArg Log.errorCount (hgrown'.log.trans hgrown.log)⟩
  · -- what the target is converted to is no constant either
    have hmade := (List.all_eq_true.1 hall) m List.mem_cons_self
    rw [(Grown.addNode u node).isConstant_eq hm] at hmade
    rw [hmconst hmade] at hconst
    cases hconst

theorem bindPointerArithmetic_accepts {m : NodeId} (hs : s.program.Standard) (hv : value.index < s.program.nodes.size)
    (hb : s.program.isIntegral (s.program.node value).ty)
    (hcoerce : (coerce value (s.program.pointerInt true)).runAt c s = (some m, t)) :
    Accepts (bindPointerArithmetic pos op target value) c s := by
  have hdefined : (!(s.program.isIntegral (s.program.node value).ty)) = false := by rw [hb]; rfl
  have hrun : (bindPointerArithmetic pos op target value).runAt c s =
      (addNode pos (s.program.node target).ty (.pointerArithmetic op target m)).runAt c t := by
    rw [bindPointerArithmetic, runAt_bind_some rfl, runAt_bind_some (runAt_ask _), hdefined]
    exact (runAt_bind_some rfl).trans (runAt_bind_some hcoerce)
  have hlog := coerce_log hs hv hcoerce
  rw [Accepts, hrun]
  exact ⟨rfl, congrArg Log.errorCount hlog⟩

/-- Integers are taken by both. -/
theorem not_overreaches {p : Program} {a b : Ty} (hp : p.Standard) (hop : op.family ≠ .bitwise) (hb : p.isIntegral b) :
    ¬ p.Overreaches op a b := by
  have hplain := hp.not_null_of_isNumeric (Program.isNumeric_of_isIntegral hb)
  rintro (hnull | href | ⟨hbits, -⟩)
  · exact hplain (.inl hnull)
  · exact hplain (.inr href)
  · exact hop hbits

theorem applyBinary_eq_pointer {room : Room} (hs : s.program.Standard) (hop : op.family = .additive)
    (ha : (s.program.node target).ty.isPointer) (hb : s.program.isNumeric (s.program.node value).ty) :
    (applyBinary room pos op target value).runAt c s = (bindPointerArithmetic pos op target value).runAt c s := by
  have htarget : s.program.isBuiltinOperand target := by
    unfold Program.isBuiltinOperand
    cases hty : (s.program.node target).ty <;> rw [hty] at ha <;> cases ha
    rfl
  have hbuiltin : ∀ n ∈ [target, value], s.program.isBuiltinOperand n := by
    simpa using ⟨htarget, hs.isBuiltinOperand_of_isNumeric hb⟩
  rw [applyBinary, withOperator_run hbuiltin, hop]
  dsimp only
  rw [bindAdditive, runAt_bind_some rfl, runAt_bind_some rfl, ha, Program.not_isPointer (.inl hb)]

theorem applyBinary_eq_shift {room : Room} (hs : s.program.Standard) (hop : op.family = .shift)
    (ha : s.program.isNumeric (s.program.node target).ty) (hb : s.program.isNumeric (s.program.node value).ty) :
    (applyBinary room pos op target value).runAt c s = (bindShift pos op target value).runAt c s := by
  have hbuiltin : ∀ n ∈ [target, value], s.program.isBuiltinOperand n := by
    simpa using ⟨hs.isBuiltinOperand_of_isNumeric ha, hs.isBuiltinOperand_of_isNumeric hb⟩
  rw [applyBinary, withOperator_run hbuiltin, hop]

/-- **An operator is applied without an error where its compound assignment takes the value and does not overreach.** -/
theorem applyBinary_accepts_iff {room : Room} {pos' : Span} {r : CompoundKind × NodeId} (hp : s.program.Sound)
    (ht : target.index < s.program.nodes.size) (hv : value.index < s.program.nodes.size)
    (hconst : s.program.isConstant target = false)
    (h : (compoundValue pos' op target value).runAt c s = (some r, t)) :
    Accepts (applyBinary room pos op target value) c s ↔
      ¬ s.program.Overreaches op (s.program.node target).ty (s.program.node value).ty := by
  have hs := hp.standard
  rcases (compoundValue_inv hs hv h).2 with ⟨ha, hop, hb, m, hcoerce⟩ | ⟨hop, ha, hb⟩ | ⟨hcompound, hop, ha, hb⟩
  · refine iff_of_true ?_ (not_overreaches hs (by rw [hop]; decide) hb)
    rw [Accepts, applyBinary_eq_pointer hs hop ha (Program.isNumeric_of_isIntegral hb)]
    exact bindPointerArithmetic_accepts hs hv hb hcoerce
  · refine iff_of_true ?_ (not_overreaches hs (by rw [hop]; decide) hb)
    rw [Accepts, applyBinary_eq_shift hs hop (Program.isNumeric_of_isIntegral ha) (Program.isNumeric_of_isIntegral hb)]
    exact bindShift_accepts hs ht hconst ha hb
  · obtain ⟨hvalue, hplain⟩ := hp.value_of_adapted ha hb
    have hbuiltin : ∀ n ∈ [target, value], s.program.isBuiltinOperand n := by
      simpa using ⟨hs.isBuiltinOperand_of_isNumeric ha, hplain⟩
    have hfamily : op.Combines ∧ op.family ≠ .relational := by
      unfold BinaryOp.isCompound at hcompound
      unfold BinaryOp.Combines
      cases hf : op.family <;> simp [hf] at hcompound hop ⊢
    rw [Accepts, applyBinary_eq_combine hfamily.1 hbuiltin ⟨Program.not_isPointer (.inl ha), Program.not_isPointer hvalue⟩,
      ← Accepts, combine_accepts_iff hs ht hv hconst]
    exact hp.operationType?_isSome hconst hfamily.2 ha hb

/-! ## Assignments -/

/-- **What a compound assignment without an error did before its operator**: it bound and read both operands without one,
and the target is no constant. -/
theorem bindAssign_inv {room : Room} {k : Nat} {target value : Part} (hroom : room.Good) (ht : target.Good)
    (hv : value.Good) (hc : Ready k c s) (h : Accepts (bindAssign room pos (some op) target value) c s) :
    ∃ a b t r u, (operands room target value).runAt c s = (some (a, b), t) ∧
      (t.program.Sound ∧ a.index < t.program.nodes.size ∧ b.index < t.program.nodes.size) ∧
      t.program.isConstant a = false ∧ t.log.errorCount = s.log.errorCount ∧
      (compoundValue pos op a b).runAt c t = (some r, u) := by
  obtain ⟨n, hn⟩ := Option.isSome_iff_exists.1 h.1
  have hrun : (bindAssign room pos (some op) target value).runAt c s =
    (some n, ((bindAssign room pos (some op) target value).runAt c s).2) := Prod.ext hn rfl
  have herrors := h.2
  generalize ((bindAssign room pos (some op) target value).runAt c s).2 = final at hrun herrors
  unfold bindAssign at hrun
  obtain ⟨⟨a₀, b₀⟩, t₀, hboth, hrest⟩ := runAt_bind_eq_some hrun
  rw [runAt_bind_some (runAt_ask _)] at hrest
  obtain ⟨hplace, hrest⟩ := of_checked (fail_refuses _ _ rfl) hrest
  obtain ⟨a, t₁, hreadTarget, hrest⟩ := runAt_bind_eq_some hrest
  obtain ⟨b, t, hreadValue, hrest⟩ := runAt_bind_eq_some hrest
  obtain ⟨⟨kind, m⟩, u, hvalue, hstatement⟩ := runAt_bind_eq_some hrest
  have hrun : (operands room target value).runAt c s = (some (a, b), t) :=
    (runAt_bind_some hboth).trans ((runAt_bind_some hreadTarget).trans (runAt_bind_some hreadValue))
  obtain ⟨hat, hresult⟩ := ((operands_closed hroom ht hv).ends hc).ended hrun
  have hrange : b.index < t.program.nodes.size := hresult.2.held.range
  refine ⟨a, b, t, (kind, m), u, hrun, ⟨hat.sound.program, hresult.1.held.range, hrange⟩, ?_, ?_, hvalue⟩
  · obtain ⟨-, ha₀, hb₀⟩ := ((bothValues_closed hroom ht hv).ends hc).ended hboth
    obtain ⟨a', t₁', hread, hgrown, ha, -, hconst⟩ := readThrough_run (c := c) ha₀.held.range
    cases hreadTarget.symm.trans hread
    obtain ⟨b', t', hread, hgrown', -⟩ := readThrough_run (c := c) (Nat.lt_of_lt_of_le hb₀.held.range hgrown.size)
    cases hreadValue.symm.trans hread
    rw [hgrown'.isConstant_eq ha]
    exact hconst hplace
  · have hlog := (compoundValue_inv hat.sound.program.standard hrange hvalue).1
    cases hstatement
    rw [← herrors, ← hlog]

/-- **A compound assignment takes what its operator takes, and three things besides.** Where `t op= v` is bound without an
error, `t op v` is in the same state, but for a value that is `null` or still a reference after it was read, and for
floating-point numbers where bits are combined. -/
theorem compound_accepts_iff {k : Nat} {c : Context} {s : BindState} (hc : Ready k c s) (limit : Nat) (entry : String)
    (depth : Nat) (pos : Span) (op : BinaryOp) (target value : Syntax) :
    let room := Room.ofDepth limit entry depth
    Accepts (bindAssign room pos (some op) (part room target) (part room value)) c s →
      ∃ a b t, (operands room (part room target) (part room value)).runAt c s = (some (a, b), t) ∧
        (Accepts (bindBinary room pos op (part room target) (part room value)) c s ↔
          ¬ t.program.Overreaches op (t.program.node a).ty (t.program.node b).ty) := by
  intro room h
  have hroom : room.Good := Room.ofDepth_good limit entry depth
  obtain ⟨a, b, t, r, u, hrun, ⟨hp, ha, hb⟩, hconst, herrors, hvalue⟩ :=
    bindAssign_inv hroom (part_good hroom target) (part_good hroom value) hc h
  refine ⟨a, b, t, hrun, ?_⟩
  rw [bindBinary_eq, Accepts, runAt_bind_some hrun, ← herrors]
  exact applyBinary_accepts_iff hp ha hb hconst hvalue

namespace Pairing

/-- `t op= v`. -/
def assigned (x : Pairing) : BindM NodeId := bindAssign room .synthetic (some x.op) (part room x.left) (part room x.right)

/-- `t op v`. -/
def applied (x : Pairing) : BindM NodeId := bindBinary room .synthetic x.op (part room x.left) (part room x.right)

end Pairing

/-- A number is added to an integer, an integer is shifted, and a pointer is moved. -/
def plainPairings : List Pairing :=
  [⟨.add, name "i", node (.int 1 none)⟩, ⟨.shl, name "i", node (.int 3 none)⟩, ⟨.sub, name "p", name "i"⟩]

/-- The bits of a floating-point number are combined, and `null` and a reference to a reference are added. -/
def overreachingPairings : List Pairing :=
  [⟨.bitAnd, name "d", node (.int 1 none)⟩, ⟨.add, name "i", node .null⟩, ⟨.add, name "i", name "r"⟩]

/-- Variables of an integer, a pointer, a floating-point and a reference type. -/
def numberModule : Sample fun s => 2 < s.program.scopes.size ∧
    (∀ x ∈ plainPairings, Accepts x.assigned Pairing.context s ∧ ∀ r ∈ (x.bound s).1,
      ¬ (x.bound s).2.program.Overreaches x.op ((x.bound s).2.program.node r.1).ty ((x.bound s).2.program.node r.2).ty) ∧
    ∀ x ∈ overreachingPairings, Accepts x.assigned Pairing.context s ∧ ¬ Accepts x.applied Pairing.context s where
  body := [field "i" (name "Int32"), field "p" (node (.pointerType (name "Int32"))), field "d" (name "Double"),
    field "r" (node (.referenceType (node (.referenceType (name "Int32")))))]
  shown := by decide +kernel

/-- Where nothing overreaches, the operators are applied too. -/
theorem plainPairings_applied : plainPairings.length = 3 ∧ ∀ x ∈ plainPairings,
    Accepts x.assigned Pairing.context numberModule.state ∧ Accepts x.applied Pairing.context numberModule.state := by
  refine ⟨rfl, fun x hx => ?_⟩
  obtain ⟨hscope, hplain, -⟩ := numberModule.holds
  obtain ⟨hassigned, hreach⟩ := hplain x hx
  have hc : Ready 0 Pairing.context numberModule.state := Pairing.ready numberModule.sound hscope
  obtain ⟨a, b, t, hrun, hiff⟩ := compound_accepts_iff hc 8 "main" 8 .synthetic x.op x.left x.right hassigned
  have hbound : x.bound numberModule.state = (some (a, b), t) := hrun
  rw [hbound] at hreach
  exact ⟨hassigned, hiff.2 (hreach (a, b) rfl)⟩

/-- **Three compound assignments are taken whose operators are not.** -/
theorem overreachingPairings_refused : overreachingPairings.length = 3 ∧ ∀ x ∈ overreachingPairings,
    Accepts x.assigned Pairing.context numberModule.state ∧ ¬ Accepts x.applied Pairing.context numberModule.state :=
  ⟨rfl, numberModule.holds.2.2⟩

end BindM

end Bindery
