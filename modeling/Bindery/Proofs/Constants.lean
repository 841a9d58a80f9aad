import Bindery.Binding.Operator
import Bindery.Proofs.Later
import Bindery.Proofs.Residues
/-!
# What constants denote

A type is inhabited by the constants it is meant for: an integer type and an enum by the integers in their range, a
floating-point type by numbers, `Bool` by truth values, `Null` and a pointer by `null`. Constants are computed so that
they inhabit their types, with two exceptions: a literal that is negated may lie below every integer type, and has the
type `UInt64` then; and the bits of a null pointer are kept as `null`, whatever integer type they are taken for.
-/
namespace Bindery

namespace Program

variable {p q : Program} {ty : Ty} {value : ConstValue} {wide null wide' null' : Prop}

/-- A value is one of those that a type is meant for. -/
def Inhabits (p : Program) (ty : Ty) : ConstValue → Prop
  | .int v => ∃ bits signed, p.constScalar? ty = some (.int bits signed) ∧ InRange bits signed v
  | .float _ => ∃ bits, p.constScalar? ty = some (.float bits)
  | .bool _ => p.constScalar? ty = some .bool
  | .null => ty = .null ∨ ty.isPointer

/-- A value inhabits a type, or is one of the exceptions that are allowed. -/
def Carries (p : Program) (wide null : Prop) (ty : Ty) (value : ConstValue) : Prop :=
  p.Inhabits ty value ∨
    (wide ∧ ty = .int 64 false ∧ ∃ v, value = .int v ∧ -2 ^ 64 < v ∧ v < -2 ^ 63) ∨
    null ∧ value = .null ∧ ∃ bits signed, p.constScalar? ty = some (.int bits signed)

theorem Carries.imp (h : p.Carries wide null ty value) (hw : wide → wide') (hn : null → null') :
    p.Carries wide' null' ty value := h.imp_right (.imp (.imp_left hw) (.imp_left hn))

theorem constScalar?_of_scalar {a : Scalar} (h : p.scalar? ty = some a) : p.constScalar? ty = some a := by
  obtain ⟨id, rfl, hd⟩ := builtin?_eq_some_iff.1 (scalar?_eq_some.1 h)
  simpa [constScalar?, typeDecl?, Ty.symbol?, hd] using h

/-- The scalar of a type is its own or that of the base of an enum. -/
theorem constScalar?_cases {a : Scalar} (h : p.constScalar? ty = some a) :
    p.scalar? ty = some a ∨ ∃ id own, ty = .direct id ∧ p.decl id = .enum own ∧ p.scalar? own.base = some a := by
  unfold constScalar? at h
  split at h
  · rename_i own hd
    rcases ty with _ | id | _ | _ <;> simp only [typeDecl?, Ty.symbol?, Option.map_none, Option.map_some, reduceCtorEq,
      Option.some.injEq] at hd
    exact .inr ⟨id, own, rfl, hd, h⟩
  · exact .inl h

theorem Later.constScalar? (h : p.Later q) {a : Scalar} (hs : p.constScalar? ty = some a) :
    q.constScalar? ty = some a := by
  rcases constScalar?_cases hs with hs | ⟨id, own, rfl, hd, hb⟩
  · exact constScalar?_of_scalar (h.scalar? hs)
  · obtain ⟨own', hd', hbase⟩ := h.enum hd
    simpa [Program.constScalar?, typeDecl?, Ty.symbol?, hd', hbase] using h.scalar? hb

theorem Inhabits.later (h : p.Later q) (hv : p.Inhabits ty value) : q.Inhabits ty value := by
  cases value with
  | int v =>
    obtain ⟨bits, signed, hs, hr⟩ := hv
    exact ⟨bits, signed, h.constScalar? hs, hr⟩
  | float v => exact hv.imp fun bits hs => h.constScalar? hs
  | bool v => exact h.constScalar? hv
  | null => exact hv

theorem Carries.later (h : p.Later q) (hv : p.Carries wide null ty value) : q.Carries wide null ty value :=
  Or.imp (.later h) (.imp_right fun ⟨hn, hnull, bits, signed, hs⟩ => ⟨hn, hnull, bits, signed, h.constScalar? hs⟩) hv

/-- A constant is computed in one of the scalar types. -/
theorem Standard.mem_all_of_constScalar (hp : p.Standard) {a : Scalar} (h : p.constScalar? ty = some a) :
    a ∈ Scalar.all := by
  rcases constScalar?_cases h with hs | ⟨-, own, -, -, hs⟩
  · exact (hp.scalar?_eq_some_iff.1 hs).1
  · exact (hp.scalar?_eq_some_iff.1 hs).1

/-- The integer types are not as wide as the numbers that constants are computed with. -/
theorem Standard.width (hp : p.Standard) {bits : Nat} {signed : Bool}
    (h : p.constScalar? ty = some (.int bits signed)) : 0 < bits ∧ bits ≤ 64 := by
  have hm := hp.mem_all_of_constScalar h
  simp only [Scalar.all, List.mem_cons, Scalar.int.injEq, reduceCtorEq, List.not_mem_nil, or_false, false_or] at hm
  omega

theorem Standard.inhabits_float (hp : p.Standard) (bits : Nat) (hb : .float bits ∈ Scalar.all) (v : Double) :
    p.Inhabits (.float bits) (.float v) := ⟨bits, constScalar?_of_scalar (hp.scalar?_ofScalar hb)⟩

theorem literalShape_mem (v : Int) : .int (BindM.literalShape v).1 (BindM.literalShape v).2 ∈ Scalar.all := by
  unfold BindM.literalShape
  split_ifs <;> decide

/-- The smallest type for a literal holds every number of 64 bits, negated or not, except those below `-2 ^ 63`. -/
theorem Standard.carries_literalShape (hp : p.Standard) {v : Int} (hv : -2 ^ 64 < v ∧ v < 2 ^ 64) :
    p.Carries True True (.int (BindM.literalShape v).1 (BindM.literalShape v).2) (.int v) := by
  have hin : ∀ {bits signed}, .int bits signed ∈ Scalar.all → InRange bits signed v →
      p.Carries True True (.int bits signed) (.int v) := fun hm hr =>
    .inl ⟨_, _, constScalar?_of_scalar (hp.scalar?_ofScalar hm), hr⟩
  have hwrap : ∀ {bits : Nat}, 0 < bits → bits < 128 → wrapInt v bits true = v → InRange bits true v :=
    fun h0 hlt => (inRange_iff h0 hlt).2
  unfold BindM.literalShape
  split_ifs with h8 h16 h32 h64
  · exact hin (by decide) (hwrap (by decide) (by decide) h8)
  · exact hin (by decide) (hwrap (by decide) (by decide) h16)
  · exact hin (by decide) (hwrap (by decide) (by decide) h32)
  · exact hin (by decide) (hwrap (by decide) (by decide) h64)
  · rw [← inRange_iff (by decide) (by decide)] at h64
    simp only [InRange, if_true] at h64
    by_cases h0 : 0 ≤ v
    · exact hin (by decide) ⟨h0, hv.2⟩
    · exact .inr (.inl ⟨trivial, rfl, v, rfl, hv.1, by omega⟩)

/-- A literal with a suffix is cut to the type that the suffix selects. -/
theorem Standard.carries_suffix (hp : p.Standard) (suffix : IntSuffix) (v : Int) :
    p.Carries True True (.int suffix.bits suffix.signed) (.int (wrapInt v suffix.bits suffix.signed)) := by
  obtain ⟨bits, signed, hw⟩ := suffix
  have hs : p.constScalar? (.int bits signed) = some (.int bits signed) := by
    refine constScalar?_of_scalar (hp.scalar?_ofScalar (a := .int bits signed) ?_)
    revert bits
    cases signed <;> decide
  obtain ⟨h0, hle⟩ := hp.width hs
  exact .inl ⟨bits, signed, hs, wrapInt_inRange h0 (by omega) v signed⟩

/-- An integer that a type carries is a number of 64 bits, negated or not. -/
theorem Carries.bound (hp : p.Standard) {v : Int} (h : p.Carries wide null ty (.int v)) : -2 ^ 64 < v ∧ v < 2 ^ 64 := by
  rcases h with ⟨bits, signed, hs, hr⟩ | ⟨-, -, _, ⟨⟩, hv⟩ | ⟨-, ⟨⟩, -⟩
  · exact hr.bound (hp.width hs).2
  · omega

theorem adaptableInt?_eq_some {n : NodeId} {v : Int} :
    p.adaptableInt? n = some v ↔ (p.node n).kind = .literal (.int v) true := by
  unfold adaptableInt?
  split <;> simp_all

/-- A literal that takes another type inhabits it. -/
theorem inhabits_of_adaptsTo {n : NodeId} {v : Int} {a : Bool} (hp : p.Standard) (h : p.adaptsTo n ty)
    (hk : (p.node n).kind = .literal (.int v) a) : p.Inhabits ty (.int v) := by
  unfold adaptsTo at h
  split at h
  · rename_i v' bits signed hv hs
    have hb := hp.width (constScalar?_of_scalar hs)
    obtain rfl : v = v' := by
      rw [adaptableInt?_eq_some.1 hv] at hk
      cases hk
      rfl
    exact ⟨bits, signed, constScalar?_of_scalar hs, (inRange_iff hb.1 (by omega)).2 (by simpa using h)⟩
  · cases h

/-! ## Folding -/

/-- The type that a node has, or had before it was retyped. -/
structure HadType (p : Program) (n : NodeId) (ty : Ty) : Prop where
  fixed : ¬ p.Adaptable n → (p.node n).ty = ty
  literal : p.Adaptable n → p.isIntegral ty

theorem HadType.later (h : p.Later q) {n : NodeId} (hn : n.index < p.nodes.size) (ht : p.HadType n ty) :
    q.HadType n ty where
  fixed ha := by
    rw [h.adaptable hn] at ha
    rw [h.type n hn ha, ht.fixed ha]
  literal ha := h.isIntegral (ht.literal ((h.adaptable hn).1 ha))

/-- A type that names no symbol outside the table. -/
def Known (p : Program) (ty : Ty) : Prop := ∀ id, ty = .direct id → id.index < p.symbols.size

theorem Known.later (h : p.Later q) (hk : p.Known ty) : q.Known ty := fun id hid =>
  Nat.lt_of_lt_of_le (hk id hid) h.symbols

/-- What a node has to be for its value to inhabit its type, and to stay as it is. -/
def Folds (p : Program) (node : Node) : Prop :=
  match node.kind with
  | .literal value _ => p.Carries True True node.ty value
  | .sizeOf .. => node.ty = .int 64 false
  | .constExpr inner => (p.node inner).ty = node.ty ∧ ¬ p.Adaptable inner
  | .unary .not _ => node.ty = .bool
  | .cast value step => (∃ s, step.Sends s ∧ p.HadType value s) ∧ p.Known step.target
  | _ => True

theorem Folds.later {node : Node} (h : p.Later q) (hc : ∀ m ∈ node.kind.children, m.index < p.nodes.size)
    (hf : p.Folds node) : q.Folds node := by
  unfold Folds at hf ⊢
  split
  · rename_i hk
    simp only [hk] at hf
    exact hf.later h
  · rename_i hk
    simpa only [hk] using hf
  · rename_i inner hk
    simp only [hk] at hf hc
    have hlt := hc inner (by simp [NodeKind.children])
    rw [h.type inner hlt hf.2, h.adaptable hlt]
    exact hf
  · rename_i hk
    simpa only [hk] using hf
  · rename_i value step hk
    simp only [hk] at hf hc
    obtain ⟨⟨s, hs, ht⟩, hknown⟩ := hf
    exact ⟨⟨s, hs, ht.later h (hc value (by simp [NodeKind.children]))⟩, hknown.later h⟩
  · trivial

end Program

/-- A literal that may still be retyped has the smallest type that holds it. -/
def Node.IsNatural (node : Node) : Prop :=
  ∀ v, node.kind = .literal (.int v) true → node.ty = .int (BindM.literalShape v).1 (BindM.literalShape v).2

theorem Node.IsNatural.of_not_adaptable {p : Program} {n : NodeId} (h : ¬ p.Adaptable n) : (p.node n).IsNatural :=
  fun _ hv => absurd ⟨_, hv⟩ h

end Bindery
