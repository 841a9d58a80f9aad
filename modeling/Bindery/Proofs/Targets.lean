import Bindery.Proofs.Constants
/-!
# Targets of conversions

What a step of a plan leads to is the type asked for, or a scalar on the way there, unless the step only reads a
reference. These types are known: they do not wait for a symbol that is still to be declared.
-/
namespace Bindery

/-- A step of a plan to a type leads there or to a scalar, or it reads a reference. -/
def CastStep.Heads (dst : Ty) (step : CastStep) : Prop :=
  step.kind = .dereference ∨ step.target = dst ∨ ∃ a, step.target = .ofScalar a

/-- The steps of a plan, if there is one, lead to a type. -/
def CastPlan.Heads (dst : Ty) (plan : CastPlan) : Prop := ∀ steps, plan = .ok steps → ∀ step ∈ steps, step.Heads dst

namespace CastPlan.Heads

variable {dst : Ty} {plan : CastPlan} {step : CastStep} {steps : List CastStep}

theorem error (cause : CastFailure) : Heads dst (.error cause) := by rintro _ ⟨⟩

theorem ok (h : ∀ step ∈ steps, step.Heads dst) : Heads dst (.ok steps) := by
  rintro _ ⟨⟩
  exact h

theorem one (kind : StepKind) : Heads dst (.ok [⟨kind, dst⟩]) := .ok (by simp [CastStep.Heads])

theorem onlyIf {condition : Prop} [Decidable condition] (kind : StepKind) (cause : CastFailure) :
    Heads dst (if condition then .ok [⟨kind, dst⟩] else .error cause) := by
  split
  · exact .one kind
  · exact .error cause

theorem onlyExplicit {intent : Intent} (h : Heads dst (.ok steps)) : Heads dst (.onlyExplicit intent steps) := by
  cases intent
  · exact .error _
  · exact h

theorem after (hs : step.Heads dst) (h : Heads dst plan) : Heads dst (.after step plan) := by
  rintro steps hp
  cases plan <;> cases hp
  exact List.forall_mem_cons.2 ⟨hs, h _ rfl⟩

theorem followedBy {mid : Ty} (h : Heads mid plan) (hmid : ∀ step, CastStep.Heads mid step → step.Heads dst)
    (hs : step.Heads dst) : Heads dst (plan.followedBy step) := by
  rintro steps hp
  cases plan <;> cases hp
  rename_i rest
  intro other ho
  rcases List.mem_append.1 ho with ho | ho
  · exact hmid other (h _ rfl other ho)
  · rw [List.mem_singleton.1 ho]
    exact hs

end CastPlan.Heads

namespace Program

variable {p : Program} {intent : Intent} {src dst : Ty}

open CastPlan (Heads)

theorem intPlan_heads (fromBits toBits : Nat) (fromSigned toSigned : Bool) :
    Heads dst (intPlan intent fromBits fromSigned toBits toSigned dst) := by
  unfold intPlan
  split
  · split
    · exact .one _
    · exact .onlyExplicit (.one _)
  · split
    · exact .onlyExplicit (.one _)
    · refine .onlyExplicit (.ok (List.forall_mem_cons.2 ⟨.inr (.inr ⟨.int toBits fromSigned, rfl⟩), ?_⟩))
      simp [CastStep.Heads]

theorem scalarPlan_heads (source target : Scalar) : Heads dst (scalarPlan intent source target dst) := by
  unfold scalarPlan
  split
  · exact .ok (by simp)
  · split
    · exact .one _
    · exact .onlyExplicit (.one _)
    · exact intPlan_heads _ _ _ _
    · split
      · exact .one _
      · exact .onlyExplicit (.one _)

theorem indirectPlan_heads (source target : Ty) : Heads dst (p.indirectPlan intent source target dst) := by
  unfold indirectPlan
  split
  · exact .one _
  · split
    · split
      · exact .one _
      · exact .onlyExplicit (.one _)
    · exact .onlyExplicit (.one _)

theorem heads_pointerInt {kind : StepKind} (signed : Bool) : CastStep.Heads dst ⟨kind, p.pointerInt signed⟩ :=
  .inr (.inr ⟨.int p.pointerWidth signed, rfl⟩)

theorem heads_scalar {a : Scalar} {step : CastStep} (h : step.Heads (.ofScalar a)) : step.Heads dst :=
  h.imp_right fun h => .inr (h.elim (fun h => ⟨a, h⟩) id)

theorem packedPlan_heads (source target : Scalar) (lanes lanes' : Nat) :
    Heads dst (packedPlan intent source lanes target lanes' dst) := by
  unfold packedPlan
  split
  · exact .error _
  · rcases scalarPlan intent source target (.ofScalar target) with cause | steps
    · exact .error cause
    · exact .one _

theorem broadcastPlan_heads (source target : Scalar) : Heads dst (broadcastPlan intent source target dst) := by
  unfold broadcastPlan
  split
  · exact .error _
  · exact (scalarPlan_heads _ _).followedBy (fun step h => heads_scalar h) (.inr (.inl rfl))

theorem fromPointer_heads (pointee : Ty) (target : TypeClass) : Heads dst (p.fromPointer intent pointee dst target) := by
  unfold fromPointer
  split
  · exact .onlyExplicit (.one _)
  · refine .onlyExplicit (.ok (List.forall_mem_cons.2 ⟨heads_pointerInt _, ?_⟩))
    split_ifs <;> simp [CastStep.Heads]
  · split
    · exact .error _
    · split
      · exact .error _
      · exact .after (heads_pointerInt _) (scalarPlan_heads _ _)
  · exact .error _

theorem toPointer_heads (pointee : Ty) (source : TypeClass) : Heads dst (p.toPointer intent pointee dst source) := by
  unfold toPointer
  split
  · refine .onlyExplicit (.ok fun step hs => ?_)
    rcases List.mem_append.1 hs with hs | hs
    · have hstep : ∃ kind signed, step = ⟨kind, p.pointerInt signed⟩ := by
        split_ifs at hs <;> simp only [List.mem_singleton, List.not_mem_nil] at hs <;> exact ⟨_, _, hs⟩
      obtain ⟨kind, signed, rfl⟩ := hstep
      exact heads_pointerInt signed
    · rw [List.mem_singleton.1 hs]
      exact .inr (.inl rfl)
  · split
    · exact .error _
    · split
      · exact .error _
      · exact (scalarPlan_heads _ _).followedBy (fun step h => heads_scalar (a := p.bridge) h) (.inr (.inl rfl))
  · exact .error _

namespace Standard

variable (hp : p.Standard)
include hp

theorem enumToInt_heads {base : Ty} (hc : p.classify src = .enum base) (target : Scalar) :
    Heads dst (p.enumToInt intent base target dst) := by
  obtain ⟨-, -, -, bits, signed, hm, rfl⟩ := hp.enum_base_of_classify hc
  have hbase : CastStep.Heads dst ⟨.bitCast, .ofScalar (.int bits signed)⟩ := .inr (.inr ⟨.int bits signed, rfl⟩)
  unfold Program.enumToInt
  split
  · exact .error _
  · split
    · exact .ok (by simpa using hbase)
    · exact .after hbase (scalarPlan_heads _ _)
  · exact .ok (by simpa using hbase)

theorem intToEnum_heads {base : Ty} (hc : p.classify dst = .enum base) (source : Scalar) :
    Heads dst (p.intToEnum intent source src base dst) := by
  obtain ⟨-, -, -, bits, signed, hm, rfl⟩ := hp.enum_base_of_classify hc
  unfold Program.intToEnum
  split
  · exact .error _
  · split
    · exact .one _
    · exact (scalarPlan_heads _ _).followedBy (fun step h => heads_scalar (a := .int bits signed) h) (.inr (.inl rfl))
  · exact .one _

theorem valuePlan_heads : Heads dst (p.valuePlan intent src dst (p.classify src) (p.classify dst)) := by
  unfold Program.valuePlan
  split
  all_goals first
    | exact .error _
    | exact .one _
    | exact .onlyIf _ _
    | exact indirectPlan_heads _ _
    | exact packedPlan_heads _ _ _ _
    | exact broadcastPlan_heads _ _
    | exact fromPointer_heads _ _
    | exact toPointer_heads _ _
    | exact scalarPlan_heads _ _
    | exact hp.enumToInt_heads ‹_› _
    | exact hp.intToEnum_heads ‹_› _

/-- **The steps of a plan lead to the type asked for, or to scalars**, unless they read a reference. -/
theorem castPlan_heads : ∀ src dst : Ty, Heads dst (p.castPlan intent src dst)
  | .reference inner, dst => by
    unfold Program.castPlan
    split
    · exact .ok (by simp)
    · split
      · exact .error _
      · exact .error _
      · exact .error _
      · split
        · exact .one _
        · exact indirectPlan_heads _ _
      · exact indirectPlan_heads _ _
      · exact .after (.inl rfl) (castPlan_heads inner dst)
  | .unknown, dst | .direct _, dst | .pointer _, dst => by
    unfold Program.castPlan
    split
    · exact .ok (by simp)
    · exact hp.valuePlan_heads

end Standard

/-- A plan with steps leads to no type without values. -/
theorem classify_of_castPlan {steps : List CastStep} (h : p.castPlan intent src dst = .ok steps) (hne : steps ≠ []) :
    p.classify dst ≠ .void := by
  intro hvoid
  rcases src with _ | _ | _ | inner <;> unfold castPlan at h <;> split at h
  all_goals first
    | exact hne (Except.ok.inj h).symm
    | (rw [hvoid] at h; cases h)
    | (rw [hvoid] at h; unfold valuePlan at h; split at h <;> simp_all)

theorem Known.of_classify {ty : Ty} (h : p.classify ty ≠ .void) : p.Known ty := by
  rintro id rfl
  refine lt_of_decl fun hd => h ?_
  rw [classify, hd]
  rfl

/-- Every scalar has the type of one of those that there are. -/
theorem exists_ofScalar_eq (a : Scalar) : ∃ b ∈ Scalar.all, Ty.ofScalar a = .ofScalar b := by
  cases a with
  | bool => exact ⟨.bool, by decide, rfl⟩
  | int bits signed =>
    simp only [Ty.ofScalar]
    unfold Ty.int
    split
    · exact ⟨.int 8 true, by decide, rfl⟩
    · exact ⟨.int 16 true, by decide, rfl⟩
    · exact ⟨.int 32 true, by decide, rfl⟩
    · exact ⟨.int 64 true, by decide, rfl⟩
    · exact ⟨.int 8 false, by decide, rfl⟩
    · exact ⟨.int 16 false, by decide, rfl⟩
    · exact ⟨.int 32 false, by decide, rfl⟩
    · exact ⟨.int 64 false, by decide, rfl⟩
  | float bits =>
    simp only [Ty.ofScalar, Ty.float]
    split
    · exact ⟨.float 32, by decide, rfl⟩
    · exact ⟨.float 64, by decide, rfl⟩

theorem Standard.known_ofScalar (hp : p.Standard) (a : Scalar) : p.Known (.ofScalar a) := by
  obtain ⟨b, hb, heq⟩ := exists_ofScalar_eq a
  rw [heq]
  rintro id hid
  obtain ⟨_, hid', hd⟩ := builtin?_eq_some_iff.1 (scalar?_eq_some.1 (hp.scalar?_ofScalar hb))
  cases hid.symm.trans hid'
  exact lt_of_decl (by rw [hd]; simp)

/-- **What a plan converts to is known.** -/
theorem Standard.known_of_castPlan (hp : p.Standard) {steps : List CastStep}
    (h : p.castPlan intent src dst = .ok steps) {step : CastStep} (hs : step ∈ steps) (hk : step.kind ≠ .dereference) :
    p.Known step.target := by
  rcases hp.castPlan_heads src dst steps h step hs with hread | hdst | ⟨a, ha⟩
  · exact absurd hread hk
  · rw [hdst]
    exact .of_classify (classify_of_castPlan h (List.ne_nil_of_mem hs))
  · rw [ha]
    exact hp.known_ofScalar a

end Program

end Bindery
