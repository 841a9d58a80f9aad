import Bindery.Proofs.Reports
/-!
# Refused conversions

What it changes that a conversion is asked for. A conversion that is made anyway is made by the same steps, and one that
is refused for want of being asked for is made. All other refusals stay, for the same cause.

Two types without a rule are a gap in the rules and no fault of the source. The rules are meant to have no gap, and they
have one: a scalar, or a reference to one, and the type `Null`, which can be named like every other type.
-/
namespace Bindery

/-- What is left of a type when all its references are read. -/
def Ty.referent : Ty → Ty
  | .reference pointee => pointee.referent
  | ty => ty

/-- What becomes of a plan when the conversion is asked for. It has steps if only that was missing, and else it stays as
it is. The types are those of a gap if there is no rule for them. -/
inductive CastPlan.Relaxes (gap : Prop) : CastPlan → CastPlan → Prop
  | kept (steps : List CastStep) : Relaxes gap (.ok steps) (.ok steps)
  | allowed {steps : List CastStep} (hsteps : steps ≠ []) : Relaxes gap (.error .explicitOnly) (.ok steps)
  | refused {cause : CastFailure} (hcause : cause ≠ .explicitOnly) (hgap : cause = .internal → gap) :
    Relaxes gap (.error cause) (.error cause)

namespace CastPlan.Relaxes

variable {gap : Prop} {plan asked : CastPlan} {steps : List CastStep}

theorem notConvertible : Relaxes gap (.error .notConvertible) (.error .notConvertible) := .refused (by simp) (by simp)

theorem laneCountMismatch : Relaxes gap (.error .laneCountMismatch) (.error .laneCountMismatch) :=
  .refused (by simp) (by simp)

/-- A conversion that depends on the types only. -/
theorem onlyIf {condition : Prop} [Decidable condition] (steps : List CastStep) :
    Relaxes gap (if condition then .ok steps else .error .notConvertible)
      (if condition then .ok steps else .error .notConvertible) := by
  split
  · exact .kept steps
  · exact .notConvertible

theorem onlyExplicit (hsteps : steps ≠ []) : Relaxes gap (.onlyExplicit .implicit steps) (.onlyExplicit .explicit steps) :=
  .allowed hsteps

theorem after (step : CastStep) (h : Relaxes gap plan asked) : Relaxes gap (.after step plan) (.after step asked) := by
  cases h with
  | kept => exact .kept _
  | allowed => exact .allowed (List.cons_ne_nil _ _)
  | refused hcause hgap => exact .refused hcause hgap

theorem followedBy (step : CastStep) (h : Relaxes gap plan asked) :
    Relaxes gap (plan.followedBy step) (asked.followedBy step) := by
  cases h with
  | kept => exact .kept _
  | allowed => exact .allowed (by simp)
  | refused hcause hgap => exact .refused hcause hgap

theorem eq_ok (h : Relaxes gap (.ok steps) asked) : asked = .ok steps := by
  cases h
  rfl

/-- A conversion without a rule is one of a gap, asked for or not. -/
theorem gap_of_internal (h : Relaxes gap plan asked) (hinternal : plan = .error .internal ∨ asked = .error .internal) :
    gap := by
  cases h with
  | kept | allowed => simp at hinternal
  | refused _ hgap => exact hgap (by simpa using hinternal)

end CastPlan.Relaxes

namespace Program

variable {p : Program} {gap : Prop} {src dst : Ty}

open CastPlan

theorem intPlan_relaxes (fromBits : Nat) (fromSigned : Bool) (toBits : Nat) (toSigned : Bool) (dst : Ty) :
    Relaxes gap (intPlan .implicit fromBits fromSigned toBits toSigned dst)
      (intPlan .explicit fromBits fromSigned toBits toSigned dst) := by
  unfold intPlan
  split
  · split
    · exact .kept _
    · exact .onlyExplicit (by simp)
  · split
    · exact .onlyExplicit (by simp)
    · exact .onlyExplicit (by simp)

theorem scalarPlan_relaxes (source target : Scalar) (dst : Ty) :
    Relaxes gap (scalarPlan .implicit source target dst) (scalarPlan .explicit source target dst) := by
  unfold scalarPlan
  split
  · exact .kept _
  · split
    · exact .kept _
    · exact .onlyExplicit (by simp)
    · exact intPlan_relaxes ..
    · split
      · exact .kept _
      · exact .onlyExplicit (by simp)

/-- A scalar becomes any other one when that is asked for. -/
theorem scalarPlan_explicit (source target : Scalar) (dst : Ty) :
    ∃ steps, scalarPlan .explicit source target dst = .ok steps := by
  unfold scalarPlan intPlan
  split
  · exact ⟨_, rfl⟩
  · split
    · exact ⟨_, rfl⟩
    · exact ⟨_, rfl⟩
    · split_ifs <;> exact ⟨_, rfl⟩
    · split <;> exact ⟨_, rfl⟩

theorem indirectPlan_relaxes (source target dst : Ty) :
    Relaxes gap (p.indirectPlan .implicit source target dst) (p.indirectPlan .explicit source target dst) := by
  unfold indirectPlan
  split
  · exact .kept _
  · split
    · split
      · exact .kept _
      · exact .onlyExplicit (by simp)
    · exact .onlyExplicit (by simp)

theorem packedPlan_relaxes (source : Scalar) (sourceLanes : Nat) (target : Scalar) (targetLanes : Nat) (dst : Ty) :
    Relaxes gap (packedPlan .implicit source sourceLanes target targetLanes dst)
      (packedPlan .explicit source sourceLanes target targetLanes dst) := by
  unfold packedPlan
  split
  · exact .laneCountMismatch
  · -- the lanes convert as the scalars do, in one step
    have hlane : Relaxes gap _ _ := scalarPlan_relaxes source target (.ofScalar target)
    generalize scalarPlan .implicit source target (.ofScalar target) = plan at hlane ⊢
    generalize scalarPlan .explicit source target (.ofScalar target) = asked at hlane ⊢
    cases hlane with
    | kept => exact .kept _
    | allowed => exact .allowed (by simp)
    | refused hcause hgap => exact .refused hcause hgap

theorem broadcastPlan_relaxes (source target : Scalar) (dst : Ty) :
    Relaxes gap (broadcastPlan .implicit source target dst) (broadcastPlan .explicit source target dst) := by
  unfold broadcastPlan
  split
  · exact .notConvertible
  · exact (scalarPlan_relaxes source target _).followedBy _

/-- An enum becomes an integer when that is asked for, and only then. -/
theorem enumToInt_relaxes (base : Ty) (target : Scalar) (dst : Ty) :
    Relaxes gap (p.enumToInt .implicit base target dst) (p.enumToInt .explicit base target dst) := by
  unfold enumToInt
  cases p.scalar? base with
  | none => exact .allowed (by simp)
  | some source =>
    dsimp only
    split
    · exact .allowed (by simp)
    · obtain ⟨steps, hsteps⟩ := scalarPlan_explicit source target dst
      rw [hsteps]
      exact .allowed (List.cons_ne_nil _ _)

/-- An integer becomes an enum when that is asked for, and only then. -/
theorem intToEnum_relaxes (source : Scalar) (src base dst : Ty) :
    Relaxes gap (p.intToEnum .implicit source src base dst) (p.intToEnum .explicit source src base dst) := by
  unfold intToEnum
  cases p.scalar? base with
  | none => exact .allowed (by simp)
  | some target =>
    dsimp only
    split
    · exact .allowed (by simp)
    · obtain ⟨steps, hsteps⟩ := scalarPlan_explicit source target base
      rw [hsteps]
      exact .allowed (by simp)

theorem fromPointer_relaxes (pointee dst : Ty) (target : TypeClass) :
    Relaxes gap (p.fromPointer .implicit pointee dst target) (p.fromPointer .explicit pointee dst target) := by
  unfold fromPointer
  split
  · exact .onlyExplicit (by simp)
  · exact .onlyExplicit (by simp [pointerToInt])
  · rename_i bits
    split
    · exact .notConvertible
    · obtain ⟨steps, hsteps⟩ := scalarPlan_explicit p.bridge (.float bits) dst
      rw [hsteps]
      exact .allowed (List.cons_ne_nil _ _)
  · exact .notConvertible

theorem toPointer_relaxes (pointee dst : Ty) (source : TypeClass) :
    Relaxes gap (p.toPointer .implicit pointee dst source) (p.toPointer .explicit pointee dst source) := by
  unfold toPointer
  split
  · exact .onlyExplicit (by simp [intToPointer])
  · rename_i bits
    split
    · exact .notConvertible
    · obtain ⟨steps, hsteps⟩ := scalarPlan_explicit (.float bits) p.bridge (p.pointerInt true)
      rw [hsteps]
      exact .allowed (by simp)
  · exact .notConvertible

/-- The types without a rule: a scalar and `Null`. -/
def Gap (source target : TypeClass) : Prop := (∃ scalar, source = .scalar scalar) ∧ target = .null

/-- **Asking for the conversion of a value**, which is no reference, by the classes of the two types. -/
theorem valuePlan_relaxes {source target : TypeClass} (hvalue : ∀ pointee, source ≠ .reference pointee) :
    Relaxes (Gap source target) (p.valuePlan .implicit src dst source target)
      (p.valuePlan .explicit src dst source target) := by
  unfold valuePlan
  split
  all_goals first | exact .kept _ | exact .notConvertible | exact .laneCountMismatch | exact .onlyIf _ | skip
  case h_8 => exact .refused (by simp) (by simp)
  case h_9 | h_10 | h_21 => exact indirectPlan_relaxes ..
  case h_17 => exact packedPlan_relaxes ..
  case h_18 => exact broadcastPlan_relaxes ..
  case h_22 => exact fromPointer_relaxes ..
  case h_23 => exact toPointer_relaxes ..
  case h_26 => exact enumToInt_relaxes ..
  case h_27 => exact intToEnum_relaxes ..
  case h_28 => exact scalarPlan_relaxes ..
  case h_31 =>
    -- the rules before leave only scalars on this side, and only `Null` on the other
    refine .refused (by simp) fun _ => ?_
    cases source with
    | scalar scalar => cases target <;> simp_all [Gap]
    | _ => simp_all

/-- A scalar has no rule that makes it `null`. -/
theorem valuePlan_gap {source target : TypeClass} (intent : Intent) (h : Gap source target) :
    p.valuePlan intent src dst source target = .error .internal := by
  obtain ⟨⟨scalar, rfl⟩, rfl⟩ := h
  rfl

/-- **Asking for a conversion.** -/
theorem castPlan_relaxes (p : Program) (dst : Ty) : ∀ src : Ty,
    Relaxes (Gap (p.classify src.referent) (p.classify dst)) (p.castPlan .implicit src dst)
      (p.castPlan .explicit src dst)
  | .reference inner => by
    have hinner := castPlan_relaxes p dst inner
    unfold castPlan
    split
    · exact .kept _
    · split
      · exact .notConvertible
      · exact .notConvertible
      · exact .notConvertible
      · split
        · exact .kept _
        · exact indirectPlan_relaxes ..
      · exact indirectPlan_relaxes ..
      · exact hinner.after _
  | .unknown | .direct _ | .pointer _ => by
    unfold castPlan
    split
    · exact .kept _
    · refine valuePlan_relaxes fun pointee hsource => ?_
      cases reference_of_classify hsource

/-- **There is no rule for types with a gap between them**, through how many references the scalar may be read. -/
theorem castPlan_gap (p : Program) (intent : Intent) {dst : Ty} : ∀ {src : Ty},
    Gap (p.classify src.referent) (p.classify dst) → p.castPlan intent src dst = .error .internal
  | .reference inner, h => by
    have hdst := h.2
    have hne : Ty.reference inner ≠ dst := by
      rintro rfl
      cases hdst
    have hinner : p.castPlan intent inner dst = .error .internal := castPlan_gap p intent h
    unfold castPlan
    rw [if_neg hne, hdst]
    dsimp only
    rw [hinner]
    rfl
  | .unknown, h | .direct _, h | .pointer _, h => by
    unfold castPlan
    rw [if_neg ?_]
    · exact valuePlan_gap intent h
    · rintro rfl
      obtain ⟨⟨scalar, hscalar⟩, hnull⟩ := h
      cases hscalar.symm.trans hnull

/-- **There is a rule for two types just when there is no gap between them.** -/
theorem castPlan_eq_internal_iff (p : Program) (intent : Intent) (src dst : Ty) :
    p.castPlan intent src dst = .error .internal ↔ Gap (p.classify src.referent) (p.classify dst) := by
  refine ⟨fun h => (p.castPlan_relaxes dst src).gap_of_internal ?_, p.castPlan_gap intent⟩
  cases intent with
  | implicit => exact .inl h
  | explicit => exact .inr h

theorem classify_eq_scalar_iff {ty : Ty} {scalar : Scalar} :
    p.classify ty = .scalar scalar ↔ p.scalar? ty = some scalar := by
  refine ⟨fun h => scalar?_eq_some.2 (builtin_of_classify (.scalar scalar) (by simp) h), fun h => ?_⟩
  obtain ⟨id, rfl, hd⟩ := builtin?_eq_some_iff.1 (scalar?_eq_some.1 h)
  simp only [classify, hd, classifyDecl]

theorem Standard.classify_eq_null_iff (h : p.Standard) {ty : Ty} : p.classify ty = .null ↔ ty = .null := by
  refine ⟨h.null_of_classify, ?_⟩
  rintro rfl
  simp only [Ty.null, classify, h.builtin ⟨1⟩ _ _ rfl, classifyDecl]

/-- Nothing becomes what has no type. -/
theorem castPlan_unknown {intent : Intent} : ∀ {src : Ty}, src ≠ .unknown →
    p.castPlan intent src .unknown = .error .notConvertible
  | .unknown, h => absurd rfl h
  | .reference _, _ => rfl
  | .direct id, _ => by
    simp only [castPlan, reduceCtorEq, if_false]
    show valuePlan _ _ _ _ _ .unknown = _
    cases p.classify (.direct id) <;> rfl
  | .pointer _, _ => rfl

/-- The types are known if asking for the conversion would help. -/
theorem ne_unknown_of_explicitOnly {intent : Intent} (h : p.castPlan intent src dst = .error .explicitOnly) :
    src ≠ .unknown ∧ dst ≠ .unknown := by
  have hsrc : src ≠ .unknown := by
    rintro rfl
    unfold castPlan at h
    split at h <;> cases h
  refine ⟨hsrc, ?_⟩
  rintro rfl
  cases (castPlan_unknown hsrc).symm.trans h

end Program

namespace BindM

variable {c : Context} {s : BindState} {n : NodeId} {target : Ty} {intent : Intent}

/-- A conversion between known types makes the steps of its plan. -/
theorem convert_eq {steps : List CastStep} (hs : (s.program.node n).ty ≠ .unknown) (ht : target ≠ .unknown)
    (hplan : s.program.castPlan intent (s.program.node n).ty target = .ok steps) :
    (convert n target intent).runAt c s =
      (applySteps (s.program.node n).pos steps (s.program.isConstant n) n).runAt c s := by
  have hknown : ¬ ((s.program.node n).ty.isUnknown || target.isUnknown) := by
    simp only [Bool.or_eq_true, Ty.isUnknown_iff, not_or]
    exact ⟨hs, ht⟩
  unfold convert
  rw [runAt_bind_some rfl, runAt_bind_some rfl, if_neg hknown, runAt_bind_some rfl]
  dsimp only
  rw [hplan]
  exact runAt_bind_some rfl

theorem convert_refused {cause : CastFailure}
    (hplan : s.program.castPlan intent (s.program.node n).ty target = .error cause) :
    ((convert n target intent).runAt c s).1 = none := by
  unfold convert
  rw [runAt_bind_some rfl, runAt_bind_some rfl]
  split
  · rfl
  · rw [runAt_bind_some rfl]
    dsimp only
    rw [hplan]
    rfl

end BindM

namespace BindState

open Sample

set_option maxRecDepth 10000

/-- **Asking for a conversion allows more, and changes nothing else.** Between any two types of any state, a plan that is
not asked for is the plan that is asked for. If it is only refused because it was not asked for, then there is a plan
with steps, and every value of the first type is converted. A refusal for any other cause stays as it is, and none of a
conversion that was asked for is for want of asking. -/
theorem conversion_asked (s : BindState) (src dst : Ty) :
    let unasked := s.program.castPlan .implicit src dst
    let asked := s.program.castPlan .explicit src dst
    (∀ steps, unasked = .ok steps → asked = .ok steps) ∧
    (unasked = .error .explicitOnly → (∃ steps, steps ≠ [] ∧ asked = .ok steps) ∧
      ∀ c n, (s.program.node n).ty = src → ∃ m t, (BindM.convert n dst .explicit).runAt c s = (some m, t)) ∧
    (∀ cause, cause ≠ .explicitOnly → unasked = .error cause → asked = .error cause) ∧
    asked ≠ .error .explicitOnly := by
  intro unasked asked
  have hrelaxes : CastPlan.Relaxes _ unasked asked := s.program.castPlan_relaxes dst src
  have hconvert : ∀ steps, unasked = .error .explicitOnly → asked = .ok steps → ∀ c n, (s.program.node n).ty = src →
      ∃ m t, (BindM.convert n dst .explicit).runAt c s = (some m, t) := by
    rintro steps hunasked hasked c n rfl
    obtain ⟨hsrc, hdst⟩ := Program.ne_unknown_of_explicitOnly hunasked
    rw [BindM.convert_eq hsrc hdst hasked]
    exact BindM.applySteps_run steps _ n s
  clear_value unasked asked
  cases hrelaxes with
  | kept steps => simp
  | @allowed steps hsteps =>
    refine ⟨by simp, fun _ => ⟨⟨steps, hsteps, rfl⟩, hconvert steps rfl rfl⟩, fun cause hcause hunasked => ?_, by simp⟩
    cases hunasked
    exact absurd rfl hcause
  | refused hcause => simpa using hcause

/-- A literal that `UInt8` does not hold. -/
def wideLiteral : Sample fun s => (s.program.node ⟨0⟩).ty = .int 16 true ∧
    s.program.castPlan .implicit (.int 16 true) (.int 8 false) = .error .explicitOnly where
  body := [define "x" (node (.int 300 none))]
  shown := by decide +kernel

/-- The literal is converted to `UInt8` when that is asked for. -/
theorem wideLiteral_asked : ∃ m t,
    (BindM.convert ⟨0⟩ (.int 8 false) .explicit).runAt { scope := ⟨2⟩ } wideLiteral.state = (some m, t) := by
  obtain ⟨hty, hunasked⟩ := wideLiteral.holds
  obtain ⟨-, hallowed, -⟩ := conversion_asked wideLiteral.state (.int 16 true) (.int 8 false)
  exact (hallowed hunasked).2 _ ⟨0⟩ hty

/-- **Every conversion has a rule, but those from scalars to `Null`.** In every state that binding comes to, whatever two
types are and whether or not the conversion is asked for: there is no rule for it just when it is a conversion to `Null`
of a scalar, or of what leads to one through references. -/
theorem conversion_unruled (options : BindOptions) (names : NameTable) :
    (∀ batches, Reached options names (bindAll options names batches)) ∧
    ∀ s, Reached options names s → ∀ intent src dst,
      s.program.castPlan intent src dst = .error .internal ↔
        (∃ scalar, s.program.scalar? src.referent = some scalar) ∧ dst = .null := by
  refine ⟨fun batches => (bindAll_reached options names batches).1, fun s hs intent src dst => ?_⟩
  rw [Program.castPlan_eq_internal_iff, Program.Gap, hs.sound.program.standard.classify_eq_null_iff]
  simp only [Program.classify_eq_scalar_iff]

/-- An integer as `Null`. -/
def castToNull : Sample fun s => s.log.entries.map (·.describe) =
    ["error[Z9900] Internal: Internal binder error: no conversion rule from 'Int8' to 'Null'."] where
  body := [define "x" (node (.cast (node (.int 1 none)) (name "Null") .explicit))]
  shown := by decide +kernel

/-- There is no rule for a reference to an integer and `Null`, and one for a pointer. -/
theorem castToNull_unruled :
    let p := castToNull.state.program
    p.castPlan .implicit (.reference (.int 8 true)) .null = .error .internal ∧
      p.castPlan .implicit (.pointer (.int 8 true)) .null ≠ .error .internal := by
  intro p
  obtain ⟨batches, hbound⟩ := castToNull.eq_bindAll
  obtain ⟨hreached, hall⟩ := conversion_unruled {} {}
  have hs := hreached batches
  rw [← hbound] at hs
  have hscalar : p.scalar? (.int 8 true) = some (.int 8 true) :=
    castToNull.sound.program.standard.scalar?_ofScalar (a := .int 8 true) (by decide)
  refine ⟨(hall _ hs _ _ _).2 ⟨⟨_, hscalar⟩, rfl⟩, fun h => ?_⟩
  obtain ⟨⟨scalar, hpointer⟩, -⟩ := (hall _ hs _ _ _).1 h
  cases hpointer

/-- The gap is reported for a program that can be written. -/
theorem castToNull_reported : castToNull.state.log.entries.map (·.describe) =
    ["error[Z9900] Internal: Internal binder error: no conversion rule from 'Int8' to 'Null'."] := castToNull.holds

end BindState

end Bindery
