import Bindery.Proofs.ConstantCasts
/-!
# The types in which operands meet

Two operands meet in a type that both become without being asked. No two different scalars or enums become each other, so
that the type does not depend on which operand comes first. Literals take the type of the other operand before that, one
after the other. Since each has the smallest type for it, both take each other's type only if the types are the same, and
the order does not matter here either.
-/
namespace Bindery

/-! ## Scalars -/

namespace Scalar

/-- Whether a value of one scalar becomes one of another without being asked. -/
def becomes (a b : Scalar) : Bool := (Program.scalarPlan .implicit a b (.ofScalar b)).toBool

/-- The scalar in which an integer narrower than 32 bits takes part in a computation. -/
def promoted : Scalar → Scalar
  | .int bits signed => if bits < 32 then .int 32 signed else .int bits signed
  | a => a

theorem becomes_antisymm : ∀ a ∈ all, ∀ b ∈ all, a.becomes b → b.becomes a → a = b := by decide

/-- What becomes a scalar also becomes the one that this is promoted to. -/
theorem becomes_promoted : ∀ a ∈ all, ∀ b ∈ all, a.becomes b → a.becomes b.promoted ∧ b.promoted ∈ all := by decide

theorem ofScalar_injective : ∀ a ∈ all, ∀ b ∈ all, Ty.ofScalar a = .ofScalar b → a = b := by decide

end Scalar

namespace Program

variable {p : Program} {a b ty : Ty}

theorem Standard.exists_scalar (hp : p.Standard) (h : (p.scalar? ty).isSome) : ∃ a ∈ Scalar.all, ty = .ofScalar a := by
  obtain ⟨a, ha⟩ := Option.isSome_iff_exists.1 h
  exact ⟨a, hp.scalar?_eq_some_iff.1 ha⟩

/-- Between scalars, the class of a type says which plan there is. -/
theorem Standard.castPlan_ofScalar (hp : p.Standard) {a b : Scalar} (ha : a ∈ Scalar.all) (hb : b ∈ Scalar.all)
    (intent : Intent) : p.castPlan intent (.ofScalar a) (.ofScalar b) = Program.scalarPlan intent a b (.ofScalar b) := by
  by_cases hne : a = b
  · subst hne
    rw [castPlan_self]
    simp only [Program.scalarPlan, if_true]
  · have hty : Ty.ofScalar a ≠ .ofScalar b := fun h => hne (Scalar.ofScalar_injective a ha b hb h)
    obtain ⟨id, hid, -⟩ := builtin?_eq_some_iff.1 (scalar?_eq_some.1 (hp.scalar?_ofScalar ha))
    have hclass : ∀ c ∈ Scalar.all, p.classify (.ofScalar c) = .scalar c := fun c hc =>
      classify_eq_scalar_iff.2 (hp.scalar?_ofScalar hc)
    rw [Program.castPlan, if_neg hty, hclass a ha, hclass b hb]
    · cases b <;> cases a <;> simp [Program.valuePlan, Program.scalarPlan, hne] at hne ⊢
    · rw [hid]
      rintro _ ⟨⟩

theorem Standard.converts_ofScalar (hp : p.Standard) {a b : Scalar} (ha : a ∈ Scalar.all) (hb : b ∈ Scalar.all) :
    p.converts (.ofScalar a) (.ofScalar b) = a.becomes b := by
  rw [converts, hp.castPlan_ofScalar ha hb, Scalar.becomes]

theorem Standard.promote_ofScalar (hp : p.Standard) {a : Scalar} (ha : a ∈ Scalar.all) :
    p.promote (.ofScalar a) = .ofScalar a.promoted := by
  rw [promote, hp.scalar?_ofScalar ha]
  cases a with
  | int bits signed =>
    simp only [Scalar.promoted]
    split <;> rfl
  | _ => rfl

/-- **What becomes a scalar also becomes the type that it is promoted to.** -/
theorem Standard.converts_promote (hp : p.Standard) (ha : (p.scalar? a).isSome) (hb : (p.scalar? b).isSome)
    (h : p.converts a b) : p.converts a (p.promote b) := by
  obtain ⟨x, hx, rfl⟩ := hp.exists_scalar ha
  obtain ⟨y, hy, rfl⟩ := hp.exists_scalar hb
  rw [hp.converts_ofScalar hx hy] at h
  obtain ⟨hbecomes, hm⟩ := Scalar.becomes_promoted x hx y hy h
  rw [hp.promote_ofScalar hy, hp.converts_ofScalar hx hm]
  exact hbecomes

/-! ## Scalars and enums -/

/-- Truth values, numbers and enums. -/
def isElementary (p : Program) (ty : Ty) : Bool := (p.scalar? ty).isSome || p.isEnum ty

theorem isElementary_iff : p.isElementary ty ↔ (p.scalar? ty).isSome ∨ p.isEnum ty := by
  rw [isElementary, Bool.or_eq_true]

theorem converts_self (p : Program) (ty : Ty) : p.converts ty ty := by
  rw [converts, castPlan_self]
  rfl

/-- Nothing becomes an enum without being asked, but that enum. -/
theorem not_converts_enum (ha : p.isElementary a) (hb : p.isEnum b) (hne : a ≠ b) : ¬ p.converts a b := by
  rcases isElementary_iff.1 ha with hs | he
  · obtain ⟨x, hx⟩ := Option.isSome_iff_exists.1 hs
    obtain ⟨id, own, rfl, hd⟩ := isEnum_iff.1 hb
    obtain ⟨id', rfl, -⟩ := builtin?_eq_some_iff.1 (scalar?_eq_some.1 hx)
    have hclass : p.classify (.direct id') = .scalar x := classify_eq_scalar_iff.2 hx
    have hclass' : p.classify (.direct id) = .enum own.base := by simp only [classify, hd, classifyDecl]
    rw [converts, castPlan, if_neg hne, hclass, hclass']
    · cases x <;> simp [valuePlan, intToEnum, Except.toBool]
    · rintro _ ⟨⟩
  · rw [converts, castPlan_enums he hb hne]
    simp [Except.toBool]

/-- **No two different scalars or enums become each other.** -/
theorem Standard.converts_antisymm (hp : p.Standard) (ha : p.isElementary a) (hb : p.isElementary b)
    (hab : p.converts a b) (hba : p.converts b a) : a = b := by
  by_contra hne
  rcases isElementary_iff.1 ha with hs | he
  · rcases isElementary_iff.1 hb with hs' | he'
    · obtain ⟨x, hx, rfl⟩ := hp.exists_scalar hs
      obtain ⟨y, hy, rfl⟩ := hp.exists_scalar hs'
      rw [hp.converts_ofScalar hx hy] at hab
      rw [hp.converts_ofScalar hy hx] at hba
      exact hne (by rw [Scalar.becomes_antisymm x hx y hy hab hba])
    · exact not_converts_enum ha he' hne hab
  · exact not_converts_enum hb he (Ne.symm hne) hba

/-- **The type in which two types meet does not depend on their order.** -/
theorem Standard.upperBound?_comm (hp : p.Standard) (ha : p.isElementary a) (hb : p.isElementary b) :
    p.upperBound? a b = p.upperBound? b a := by
  by_cases heq : a = b
  · rw [heq]
  have hne : ¬ b = a := fun h => heq h.symm
  have hanti : p.converts a b → ¬ p.converts b a := fun hab hba => heq (hp.converts_antisymm ha hb hab hba)
  unfold upperBound?
  simp only [if_neg heq, if_neg hne]
  by_cases hab : p.converts a b
  · simp only [if_pos hab, if_neg (hanti hab)]
  · simp only [if_neg hab]
    split
    · rfl
    · rcases p.scalar? a with _ | _ | _ | _ <;> rcases p.scalar? b with _ | _ | _ | _ <;>
        simp only [Bool.true_and, Bool.false_and, Bool.and_comm]

/-- Both types become the one in which they meet, and that is one of them or `Double`. -/
theorem upperBound?_spec (h : p.upperBound? a b = some ty) :
    p.converts a ty ∧ p.converts b ty ∧ (ty = a ∨ ty = b ∨ ty = .double) := by
  unfold upperBound? at h
  by_cases heq : a = b
  · simp only [if_pos heq, Option.some.injEq] at h
    subst heq h
    exact ⟨p.converts_self _, p.converts_self _, .inl rfl⟩
  by_cases hab : p.converts a b
  · simp only [if_neg heq, if_pos hab, Option.some.injEq] at h
    subst h
    exact ⟨hab, p.converts_self _, .inr (.inl rfl)⟩
  by_cases hba : p.converts b a
  · simp only [if_neg heq, if_neg hab, if_pos hba, Option.some.injEq] at h
    subst h
    exact ⟨p.converts_self _, hba, .inl rfl⟩
  · simp only [if_neg heq, if_neg hab, if_neg hba, Option.ite_none_right_eq_some, Bool.and_eq_true, Option.some.injEq] at h
    obtain ⟨⟨⟨-, hdouble⟩, hdouble'⟩, rfl⟩ := h
    exact ⟨hdouble, hdouble', .inr (.inr rfl)⟩

/-! ## Literals -/

variable {n m left right : NodeId}

theorem node_adaptLiteral (p : Program) (n : NodeId) (ty : Ty) (m : NodeId) :
    (p.adaptLiteral n ty).node m = if n = m ∧ p.adaptsTo n ty then { p.node m with ty } else p.node m := by
  unfold adaptLiteral
  by_cases ha : p.adaptsTo n ty
  · have hlt := lt_of_adaptable (adaptable_of_adaptsTo ha).1
    rw [if_pos ha, node_modifyNode]
    by_cases hnm : n = m
    · rw [if_pos ⟨hnm, hnm ▸ hlt⟩, if_pos ⟨hnm, ha⟩]
    · rw [if_neg fun h => hnm h.1, if_neg fun h => hnm h.1]
  · rw [if_neg ha, if_neg fun h => ha h.2]

/-- A literal takes its own type by staying as it is. -/
theorem adaptLiteral_self (p : Program) (n : NodeId) : p.adaptLiteral n (p.node n).ty = p := by
  unfold adaptLiteral
  split
  · have hnodes : p.nodes.modify n.index ({ · with ty := (p.node n).ty }) = p.nodes := by
      refine Array.ext (by simp) fun i hi _ => ?_
      rw [Array.getElem_modify]
      split
      · rename_i heq
        subst heq
        simp [node, Array.getD, Array.size_modify ▸ hi]
      · rfl
    rw [modifyNode, hnodes]
  · rfl

/-- Two literals that take each other's smallest types have the same one. -/
theorem literalShape_eq_of_fits {v w : Int}
    (hv : wrapInt v (BindM.literalShape w).1 (BindM.literalShape w).2 = v)
    (hw : wrapInt w (BindM.literalShape v).1 (BindM.literalShape v).2 = w) :
    BindM.literalShape v = BindM.literalShape w := by
  unfold BindM.literalShape at *
  split_ifs at * <;> first | rfl | contradiction

theorem adaptsTo_iff : p.adaptsTo n ty ↔ ∃ v bits signed, (p.node n).kind = .literal (.int v) true ∧
    p.scalar? ty = some (.int bits signed) ∧ wrapInt v bits signed = v := by
  unfold adaptsTo adaptableInt?
  constructor
  · intro h
    split at h
    · rename_i v bits signed hv hs
      split at hv
      · cases hv
        exact ⟨v, bits, signed, ‹_›, hs, by simpa using h⟩
      · cases hv
    · cases h
  · rintro ⟨v, bits, signed, hk, hs, hfits⟩
    simp [hk, hs, hfits]

theorem Standard.type_eq_of_adaptsTo (hp : p.Standard) (hl : (p.node left).IsNatural) (hr : (p.node right).IsNatural)
    (hlr : p.adaptsTo left (p.node right).ty) (hrl : p.adaptsTo right (p.node left).ty) :
    (p.node left).ty = (p.node right).ty := by
  obtain ⟨v, bits, signed, hk, hs, hfits⟩ := adaptsTo_iff.1 hlr
  obtain ⟨w, bits', signed', hk', hs', hfits'⟩ := adaptsTo_iff.1 hrl
  have hscalar : ∀ v, p.scalar? (.int (BindM.literalShape v).1 (BindM.literalShape v).2) =
      some (.int (BindM.literalShape v).1 (BindM.literalShape v).2) := fun v => hp.scalar?_ofScalar (literalShape_mem v)
  rw [hr w hk', hscalar] at hs
  rw [hl v hk, hscalar] at hs'
  cases hs
  cases hs'
  rw [hl v hk, hr w hk', literalShape_eq_of_fits hfits hfits']

/-- The program in which two operands took each other's types, the first one first. -/
def adapted (p : Program) (left right : NodeId) : Program :=
  let q := p.adaptLiteral left (p.node right).ty
  q.adaptLiteral right (q.node left).ty

/-- If the first operand takes the type of the second one, the second one stays as it is. -/
theorem adapted_of_adaptsTo (h : p.adaptsTo left (p.node right).ty) :
    p.adapted left right = p.adaptLiteral left (p.node right).ty := by
  have hty : ((p.adaptLiteral left (p.node right).ty).node left).ty = (p.node right).ty := by
    rw [node_adaptLiteral, if_pos ⟨rfl, h⟩]
  have hty' : ((p.adaptLiteral left (p.node right).ty).node right).ty = (p.node right).ty := by
    rw [node_adaptLiteral]
    split <;> rfl
  rw [adapted, hty]
  nth_rewrite 2 [← hty']
  exact adaptLiteral_self _ _

theorem adapted_of_not_adaptsTo (h : ¬ p.adaptsTo left (p.node right).ty) :
    p.adapted left right = p.adaptLiteral right (p.node left).ty := by
  have hsame : p.adaptLiteral left (p.node right).ty = p := by rw [adaptLiteral, if_neg h]
  rw [adapted, hsame]

/-- **Which literal goes first does not matter**, as long as each has the smallest type for it. -/
theorem Standard.adapted_comm (hp : p.Standard) (hl : (p.node left).IsNatural) (hr : (p.node right).IsNatural) :
    p.adapted left right = p.adapted right left := by
  by_cases hlr : p.adaptsTo left (p.node right).ty
  · rw [adapted_of_adaptsTo hlr]
    by_cases hrl : p.adaptsTo right (p.node left).ty
    · have hty := hp.type_eq_of_adaptsTo hl hr hlr hrl
      rw [adapted_of_adaptsTo hrl, ← hty, adaptLiteral_self, hty, adaptLiteral_self]
    · rw [adapted_of_not_adaptsTo hrl]
  · rw [adapted_of_not_adaptsTo hlr]
    by_cases hrl : p.adaptsTo right (p.node left).ty
    · rw [adapted_of_adaptsTo hrl]
    · rw [adapted_of_not_adaptsTo hrl, adaptLiteral, if_neg hrl, adaptLiteral, if_neg hlr]

theorem type_adaptLiteral (p : Program) (m : NodeId) (ty : Ty) (n : NodeId) :
    ((p.adaptLiteral m ty).node n).ty = ty ∨ ((p.adaptLiteral m ty).node n).ty = (p.node n).ty := by
  rw [node_adaptLiteral]
  split
  · exact .inl rfl
  · exact .inr rfl

/-- The types of the operands afterwards are types that one of them had. -/
theorem adapted_types (p : Program) (left right : NodeId) : ∀ n ∈ [left, right],
    ((p.adapted left right).node n).ty = (p.node left).ty ∨ ((p.adapted left right).node n).ty = (p.node right).ty := by
  intro n hn
  have hown : (p.node n).ty = (p.node left).ty ∨ (p.node n).ty = (p.node right).ty := by
    simp only [List.mem_cons, List.not_mem_nil, or_false] at hn
    rcases hn with rfl | rfl
    · exact .inl rfl
    · exact .inr rfl
  by_cases h : p.adaptsTo left (p.node right).ty
  · rw [adapted_of_adaptsTo h]
    rcases p.type_adaptLiteral left (p.node right).ty n with hty | hty
    · exact .inr hty
    · rwa [hty]
  · rw [adapted_of_not_adaptsTo h]
    rcases p.type_adaptLiteral right (p.node left).ty n with hty | hty
    · exact .inl hty
    · rwa [hty]

theorem kind_adapted (p : Program) (left right n : NodeId) : ((p.adapted left right).node n).kind = (p.node n).kind := by
  have hone : ∀ (p : Program) (m : NodeId) (ty : Ty), ((p.adaptLiteral m ty).node n).kind = (p.node n).kind := by
    intro p m ty
    rw [node_adaptLiteral]
    split <;> rfl
  rw [adapted, hone, hone]

end Program

end Bindery
