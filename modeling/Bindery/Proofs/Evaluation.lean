import Bindery.Proofs.Sound
/-!
# Constants inhabit their types

The value of a node inhabits the type of the node. This goes by the rules of evaluation: an operator gives a value of the
kind of its operands, reduced to the type of its node, and a conversion gives a value of the kind that its target asks
for. Two things come from outside these rules. A literal of the tree may lie below every integer type, and the bits of a
pointer that are taken for an integer, by a conversion or a literal that stands for one, may be `null`.

A later program gives every node the value that it had. A literal keeps its value when it is retyped, and what is computed
depends on the types of nodes that are none.
-/
namespace Bindery

variable {α β : Type}

theorem Except.bind_eq_ok {x : Except ConstError α} {f : α → Except ConstError β} {b : β} :
    (x >>= f) = .ok b ↔ ∃ a, x = .ok a ∧ f a = .ok b := by
  cases x with
  | error e => exact ⟨by rintro ⟨⟩, by rintro ⟨_, ⟨⟩, -⟩⟩
  | ok a => exact ⟨fun h => ⟨a, rfl, h⟩, by rintro ⟨_, ⟨⟩, h⟩; exact h⟩

/-- What follows a computation need only agree on its results. -/
theorem Except.bind_congr {x : Except ConstError α} {f g : α → Except ConstError β} (h : ∀ a, x = .ok a → f a = g a) :
    x >>= f = x >>= g := by
  cases x with
  | error e => rfl
  | ok a => exact h a rfl

theorem Except.map_eq_ok {x : Except ConstError α} {f : α → β} {b : β} (h : x.map f = .ok b) : ∃ a, f a = b := by
  cases x with
  | error e => cases h
  | ok a => exact ⟨a, Except.ok.inj h⟩

namespace Program

variable {p : Program} {ty : Ty} {value r : ConstValue} {wide null : Prop} {bits : Nat} {signed : Bool}

/-! ## Kinds of values -/

/-- A type with an integer among its constants is an integer type or an enum. -/
theorem Carries.int (hp : p.Standard) {v : Int} (h : p.Carries wide null ty (.int v)) :
    ∃ bits signed, p.constScalar? ty = some (.int bits signed) := by
  rcases h with ⟨bits, signed, hs, -⟩ | ⟨-, rfl, -⟩ | ⟨-, ⟨⟩, -⟩
  · exact ⟨bits, signed, hs⟩
  · exact ⟨64, false, constScalar?_of_scalar (hp.scalar?_ofScalar (a := .int 64 false) (by decide))⟩

theorem Carries.float {v : Double} (h : p.Carries wide null ty (.float v)) :
    ∃ bits, p.constScalar? ty = some (.float bits) := by
  rcases h with h | ⟨-, -, _, ⟨⟩, -⟩ | ⟨-, ⟨⟩, -⟩
  exact h

theorem Carries.bool {v : Bool} (h : p.Carries wide null ty (.bool v)) : p.constScalar? ty = some .bool := by
  rcases h with h | ⟨-, -, _, ⟨⟩, -⟩ | ⟨-, ⟨⟩, -⟩
  exact h

theorem Carries.of_null (h : p.Carries wide null ty .null) : (ty = .null ∨ ty.isPointer) ∨ null := by
  rcases h with h | ⟨-, -, _, ⟨⟩, -⟩ | ⟨h, -⟩
  · exact .inl h
  · exact .inr h

/-- An integer is reduced to the range of its type. -/
theorem inhabits_normalize_int (hp : p.Standard) (h : p.constScalar? ty = some (.int bits signed)) (v : Int) :
    p.Inhabits ty (p.normalize (.int v) ty) := by
  obtain ⟨h0, hle⟩ := hp.width h
  simp only [normalize, h]
  exact ⟨bits, signed, h, wrapInt_inRange h0 (by omega) v signed⟩

theorem inhabits_normalize_float (h : p.constScalar? ty = some (.float bits)) (v : Double) :
    p.Inhabits ty (p.normalize (.float v) ty) := by
  simp only [normalize, h]
  exact ⟨bits, h⟩

@[simp] theorem normalize_bool (v : Bool) : p.normalize (.bool v) ty = .bool v := by
  unfold normalize
  split <;> simp_all

@[simp] theorem normalize_null : p.normalize .null ty = .null := by
  unfold normalize
  split <;> simp_all

theorem Standard.constScalar?_bool (hp : p.Standard) : p.constScalar? .bool = some .bool :=
  constScalar?_of_scalar hp.scalar?_bool

/-! ## Operators -/

/-- An operator on one value gives a value of the same type. -/
theorem Carries.unary (hp : p.Standard) (h : p.Carries wide null ty value) {op : UnaryOp} (hop : op = .not → ty = .bool)
    (hr : ConstValue.unary op value = .ok r) : p.Inhabits ty (p.normalize r ty) := by
  unfold ConstValue.unary at hr
  split at hr <;> cases hr
  · obtain ⟨bits, signed, hs⟩ := h.int hp
    exact inhabits_normalize_int hp hs _
  · obtain ⟨bits, hs⟩ := h.float
    exact inhabits_normalize_float hs _
  · rw [hop rfl, normalize_bool]
    exact hp.constScalar?_bool
  · obtain ⟨bits, signed, hs⟩ := h.int hp
    exact inhabits_normalize_int hp hs _

/-- An arithmetic operator gives a value of the type of its operands. -/
theorem Carries.arithmetic (hp : p.Standard) {left right : ConstValue} (h : p.Carries wide null ty left) {op : BinaryOp}
    (hr : ConstValue.arithmetic op left right = .ok r) : p.Inhabits ty (p.normalize r ty) := by
  unfold ConstValue.arithmetic at hr
  split at hr
  · obtain ⟨v, rfl⟩ := Except.map_eq_ok hr
    obtain ⟨bits, signed, hs⟩ := h.int hp
    exact inhabits_normalize_int hp hs v
  · obtain ⟨v, rfl⟩ := Except.map_eq_ok hr
    obtain ⟨bits, hs⟩ := h.float
    exact inhabits_normalize_float hs v
  · obtain ⟨v, rfl⟩ := Except.map_eq_ok hr
    rw [normalize_bool]
    exact h.bool
  · cases hr

theorem inhabits_evalShift (hp : p.Standard) {op : BinaryOp} {left amount : Int}
    (hr : p.evalShift op ty left amount = .ok r) : p.Inhabits ty r := by
  unfold evalShift at hr
  split at hr
  · rename_i hs
    cases hr
    exact inhabits_normalize_int hp hs _
  · cases hr

/-! ## Conversions -/

/-- Only floating-point types have floating-point constants: the base of an enum is an integer. -/
theorem Standard.eq_float (hp : p.Standard) (h : p.constScalar? ty = some (.float bits)) : ty = .float bits := by
  rcases constScalar?_cases h with hs | ⟨id, own, -, hd, hs⟩
  · exact (hp.scalar?_eq_some_iff.1 hs).2
  · obtain ⟨bits', signed, hs'⟩ := hp.enum id own hd
    simp [hs'] at hs

theorem ofScalar_ne_null (a : Scalar) : Ty.ofScalar a ≠ .null ∧ ¬ (Ty.ofScalar a).isPointer := by
  cases a <;> simp only [Ty.ofScalar, Ty.int, Ty.float] <;> (try split) <;> simp [Ty.bool, Ty.null, Ty.isPointer]

/-- What a conversion from a type makes of a value: a value of the kind that its target asks for, or `null` as it was. -/
def Lands (p : Program) (s : Ty) (step : CastStep) (value : ConstValue) : ConstValue → Prop
  | .int _ => ∃ bits signed, p.constScalar? step.target = some (.int bits signed)
  | .float _ => ∃ bits, p.constScalar? step.target = some (.float bits)
  | .bool _ => p.constScalar? step.target = some .bool
  | .null => step.target.isPointer ∨ value = .null ∧ s ≠ .null ∧ (s.isPointer → step.kind = .bitCast) ∧
    ∃ bits signed, p.constScalar? step.target = some (.int bits signed)

theorem lands_convertRaw (hp : p.Standard) {s : Ty} {step : CastStep} (hs : step.Sends s)
    (hr : p.convertRaw value step = .ok r) : p.Lands s step value r := by
  have hscalar : ∀ {a : Scalar}, s = .ofScalar a → s ≠ .null ∧ (s.isPointer → step.kind = .bitCast) := by
    rintro a rfl
    exact ⟨(ofScalar_ne_null a).1, fun h => absurd h (ofScalar_ne_null a).2⟩
  unfold convertRaw at hr
  unfold CastStep.Sends at hs
  rcases hk : step.kind <;> rcases hc : p.constScalar? step.target with _ | _ | ⟨bits, signed⟩ | bits <;>
    simp only [hk, hc, reduceCtorEq] at hr hs
  case fromNull.none =>
    split at hr <;> cases hr
    exact .inl ‹_›
  case fromNull.some.bool | widen.some.bool | narrow.some.bool | bitCast.some.bool =>
    cases hr
    exact hc
  case fromNull.some.int =>
    cases hr
    exact ⟨bits, signed, hc⟩
  case fromNull.some.float =>
    cases hr
    exact ⟨bits, hc⟩
  case toBool.none | toBool.some.bool | toBool.some.int | toBool.some.float =>
    cases hr
    show p.constScalar? step.target = _
    rw [hs, hp.constScalar?_bool]
  case widen.some.float | narrow.some.float =>
    split at hr <;> cases hr
    exact ⟨bits, hc⟩
  case widen.some.int | narrow.some.int =>
    obtain ⟨a, ha⟩ := hs
    obtain ⟨hne, hpt⟩ := hscalar ha
    cases value <;> cases hr
    case null => exact .inr ⟨rfl, hne, hpt, bits, signed, hc⟩
    all_goals exact ⟨bits, signed, hc⟩
  case bitCast.some.int =>
    cases value <;> cases hr
    case null => exact .inr ⟨rfl, hs.1, fun _ => hk, bits, signed, hc⟩
    all_goals exact ⟨bits, signed, hc⟩
  case bitCast.some.float => exact absurd (hp.eq_float hc) (hs.2 bits)

/-- A conversion gives a value of its target, unless it keeps `null`. -/
theorem carries_convert (hp : p.Standard) {s : Ty} {step : CastStep} (hs : step.Sends s)
    (h : value = .null → s ≠ .null → (s.isPointer → step.kind = .bitCast) → null) (hr : p.convert value step = .ok r) :
    p.Carries wide null step.target r := by
  unfold convert at hr
  rcases hraw : p.convertRaw value step with e | raw
  · rw [hraw] at hr
    cases hr
  rw [hraw] at hr
  obtain rfl : p.normalize raw step.target = r := Except.ok.inj hr
  have hl := lands_convertRaw hp hs hraw
  cases raw with
  | int v =>
    obtain ⟨bits, signed, hc⟩ := hl
    exact .inl (inhabits_normalize_int hp hc v)
  | float v =>
    obtain ⟨bits, hc⟩ := hl
    exact .inl (inhabits_normalize_float hc v)
  | bool v =>
    rw [normalize_bool]
    exact .inl hl
  | null =>
    rw [normalize_null]
    rcases hl with hptr | ⟨hv, hne, hpt, hc⟩
    · exact .inl (.inr hptr)
    · exact .inr (.inr ⟨h hv hne hpt, rfl, hc⟩)

/-! ## Trees -/

/-- The tree of a node stands before the node. -/
theorem Ordered.index_le_of_within {n m : NodeId} (h : p.Ordered) (hw : p.Within NodeKind.children n m) : m.index ≤ n.index := by
  induction hw with
  | self => exact Nat.le_refl _
  | step hk _ ih => exact Nat.le_trans ih (Nat.le_of_lt (h _ _ hk))

/-- A node of the tree of a node is of some sort. -/
def Contains (p : Program) (sort : NodeId → Prop) (n : NodeId) : Prop :=
  ∃ m, p.Within NodeKind.children n m ∧ sort m

theorem Contains.self {sort : NodeId → Prop} {n : NodeId} (h : sort n) : p.Contains sort n := ⟨n, .self n, h⟩

theorem Contains.child {sort : NodeId → Prop} {n m : NodeId} (hm : m ∈ (p.node n).kind.children)
    (h : p.Contains sort m) : p.Contains sort n := by
  obtain ⟨k, hk, hs⟩ := h
  exact ⟨k, .step hm hk, hs⟩

/-- A literal integer that is not among the values of its type. -/
def Strays (p : Program) (n : NodeId) : Prop :=
  ∃ v adaptable, (p.node n).kind = .literal (.int v) adaptable ∧ ¬ p.Inhabits (p.node n).ty (.int v)

/-- The bits of a pointer are taken for a value of another type, or `null` stands for such a value. -/
def PointerBits (p : Program) (n : NodeId) : Prop :=
  match (p.node n).kind with
  | .cast value step => step.kind = .bitCast ∧ (p.node value).ty.isPointer
  | .literal value _ => value = .null ∧ ¬ p.Inhabits (p.node n).ty .null
  | _ => False

theorem lt_of_kind {n : NodeId} (h : (p.node n).kind ≠ (default : Node).kind) : n.index < p.nodes.size := by
  by_contra hn
  rw [node_of_le (Nat.le_of_not_lt hn)] at h
  exact h rfl

/-- The value of a literal inhabits its type, unless the literal is itself an exception. -/
theorem carries_literal {n : NodeId} {adaptable : Bool} (hk : (p.node n).kind = .literal value adaptable)
    (h : p.Carries True True (p.node n).ty value) : p.Carries (p.Strays n) (p.PointerBits n) (p.node n).ty value := by
  by_cases hi : p.Inhabits (p.node n).ty value
  · exact .inl hi
  rcases h with h | ⟨-, hty, v, rfl, hv⟩ | ⟨-, rfl, hc⟩
  · exact absurd h hi
  · exact .inr (.inl ⟨⟨v, adaptable, hk, hi⟩, hty, v, rfl, hv⟩)
  · exact .inr (.inr ⟨by simp [PointerBits, hk, hi], rfl, hc⟩)

/-- Only a literal that is an integer may still be retyped. -/
theorem Sound.not_adaptable_of_null (hp : p.Sound) {n : NodeId} {fuel : Nat} (hn : n.index < p.nodes.size)
    (h : p.evalUpTo fuel n = .ok .null) : ¬ p.Adaptable n := by
  rintro ⟨value, hk⟩
  obtain ⟨⟨i, rfl⟩, -⟩ := (hp.fits n hn).literal value hk
  cases fuel with
  | zero => cases h
  | succ fuel => simp [evalUpTo, hk] at h

theorem Sound.bound_of_adaptableInt (hp : p.Sound) {n : NodeId} {v : Int} (h : p.adaptableInt? n = some v) :
    -2 ^ 64 < v ∧ v < 2 ^ 64 := by
  have hk := adaptableInt?_eq_some.1 h
  have hf := (hp.fits n (lt_of_adaptable ⟨_, hk⟩)).folds
  unfold Folds at hf
  rw [hk] at hf
  exact hf.bound hp.standard

/-- **The integer of a literal is a value of its type**, unless it lies below all types and has the type `UInt64`. -/
theorem Sound.literal_fits (hp : p.Sound) {n : NodeId} {v : Int} {adaptable : Bool}
    (hk : (p.node n).kind = .literal (.int v) adaptable) :
    p.Inhabits (p.node n).ty (.int v) ∨ ((p.node n).ty = .int 64 false ∧ -2 ^ 64 < v ∧ v < -2 ^ 63) := by
  have hfolds := (hp.fits n (lt_of_kind (by rw [hk]; nofun))).folds
  simp only [Folds, hk] at hfolds
  rcases hfolds with hin | ⟨-, hty, _, ⟨⟩, hv⟩ | ⟨-, ⟨⟩, -⟩
  · exact .inl hin
  · exact .inr ⟨hty, hv⟩

/-- **The value of a node inhabits its type**, except where a literal in its tree does not or where the bits of a pointer
are taken. -/
theorem Sound.carries_evalUpTo (hp : p.Sound) {fuel : Nat} : ∀ {n : NodeId} {value : ConstValue}, n.index < p.nodes.size →
    p.evalUpTo fuel n = .ok value →
    p.Carries (p.Contains p.Strays n) (p.Contains p.PointerBits n) (p.node n).ty value := by
  have hst := hp.standard
  -- by the depth of the tree, one case for each kind of node that has a value
  induction fuel with
  | zero => intro n value _ h; cases h
  | succ fuel ih =>
    intro n value hn h
    have hf := hp.fits n hn
    have hfolds := hf.folds
    have htyped := hf.typed
    have hrange := hf.children
    -- a child is carried with the exceptions in its own tree
    have hchild : ∀ {m value}, m ∈ (p.node n).kind.children → p.evalUpTo fuel m = .ok value →
        p.Carries (p.Contains p.Strays n) (p.Contains p.PointerBits n) (p.node m).ty value := fun hm h =>
      (ih (hrange _ hm) h).imp (.child hm) (.child hm)
    unfold evalUpTo at h
    unfold Folds at hfolds
    unfold Typed at htyped
    cases hk : (p.node n).kind with
      simp only [hk, NodeKind.children, List.mem_cons, List.not_mem_nil, or_false] at h hfolds htyped hrange hchild
    | literal value adaptable =>
      cases h
      exact (carries_literal hk hfolds).imp .self .self
    | sizeOf target size =>
      cases h
      have hs := constScalar?_of_scalar (hst.scalar?_ofScalar (a := .int 64 false) (by decide))
      refine .inl ⟨64, false, by rwa [hfolds], Int.natCast_nonneg _, ?_⟩
      exact_mod_cast size.toNat_lt
    | constExpr inner =>
      rw [← hfolds.1]
      exact hchild rfl h
    | cast inner step =>
      obtain ⟨v, hv, hr⟩ := Except.bind_eq_ok.1 h
      obtain ⟨⟨s, hs, hhad⟩, -⟩ := hfolds
      rw [htyped]
      refine carries_convert hst hs ?_ hr
      rintro rfl hne hpt
      obtain rfl := hhad.fixed (hp.not_adaptable_of_null (hrange inner rfl) hv)
      rcases (hchild rfl hv).of_null with (hty | hptr) | hbits
      · exact absurd hty hne
      · exact .self (by simpa only [PointerBits, hk] using ⟨hpt hptr, hptr⟩)
      · exact hbits
    | unary op operand =>
      obtain ⟨v, hv, h⟩ := Except.bind_eq_ok.1 h
      obtain ⟨r, hr, h⟩ := Except.bind_eq_ok.1 h
      cases h
      rw [← htyped]
      refine .inl ((hchild rfl hv).unary hst ?_ hr)
      rintro rfl
      rw [htyped, hfolds]
    | arithmetic op left right =>
      obtain ⟨l, hl, h⟩ := Except.bind_eq_ok.1 h
      obtain ⟨r, -, h⟩ := Except.bind_eq_ok.1 h
      obtain ⟨v, hv, h⟩ := Except.bind_eq_ok.1 h
      cases h
      rw [← htyped.1]
      exact .inl ((hchild (.inl rfl) hl).arithmetic hst hv)
    | shift op left right =>
      obtain ⟨_, -, h⟩ := Except.bind_eq_ok.1 h
      obtain ⟨l, -, h⟩ := Except.bind_eq_ok.1 h
      obtain ⟨_, -, h⟩ := Except.bind_eq_ok.1 h
      obtain ⟨r, -, h⟩ := Except.bind_eq_ok.1 h
      exact .inl (inhabits_evalShift hst h)
    | condition op left right =>
      obtain ⟨l, -, h⟩ := Except.bind_eq_ok.1 h
      obtain ⟨r, -, h⟩ := Except.bind_eq_ok.1 h
      obtain ⟨b, -, h⟩ := Except.bind_eq_ok.1 h
      cases h
      rw [htyped.2]
      exact .inl hst.constScalar?_bool
    | ternary test whenTrue whenFalse =>
      obtain ⟨t, -, h⟩ := Except.bind_eq_ok.1 h
      split at h
      · rw [← htyped.2.1]
        exact hchild (.inr (.inl rfl)) h
      · rw [← htyped.2.2]
        exact hchild (.inr (.inr rfl)) h
    | _ => cases h

theorem Sound.carries_eval (hp : p.Sound) {n : NodeId} (hn : n.index < p.nodes.size) (h : p.eval n = .ok value) :
    p.Carries (p.Contains p.Strays n) (p.Contains p.PointerBits n) (p.node n).ty value := hp.carries_evalUpTo hn h

theorem Sound.carries_constValue? (hp : p.Sound) {n : NodeId} (hn : n.index < p.nodes.size)
    (h : p.constValue? n = some value) : p.Carries True True (p.node n).ty value := by
  unfold constValue? at h
  split at h
  · rcases he : p.eval n with e | v <;> rw [he] at h <;> cases h
    exact (hp.carries_eval hn he).imp (fun _ => trivial) fun _ => trivial
  · cases h

/-! ## Later programs -/

variable {q : Program}

/-- What is computed in a type stays so, once the type is in the table. -/
theorem Later.constScalar?_eq (h : p.Later q) (hp : p.Standard) (hk : p.Known ty) :
    q.constScalar? ty = p.constScalar? ty := by
  cases hs : p.constScalar? ty with
  | some a => exact h.constScalar? hs
  | none =>
    -- what is a scalar or an enum later was one before
    by_contra hne
    obtain ⟨a, ha⟩ := Option.ne_none_iff_exists'.1 hne
    rcases constScalar?_cases ha with hq | ⟨id, own, rfl, hd, -⟩
    · obtain ⟨id, rfl, hd⟩ := builtin?_eq_some_iff.1 (scalar?_eq_some.1 hq)
      have hl := h.decl id (hk id rfl)
      rw [hd] at hl
      cases hd' : p.decl id <;> rw [hd'] at hl <;> cases hl
      have hscalar := constScalar?_of_scalar (scalar?_eq_some.2 (builtin?_eq_some_iff.2 ⟨id, rfl, hd'⟩))
      cases hs.symm.trans hscalar
    · have hl := h.decl id (hk id rfl)
      rw [hd] at hl
      have henum : ∃ own', p.decl id = .enum own' := by
        cases hd' : p.decl id <;> rw [hd'] at hl <;> cases hl <;> exact ⟨_, rfl⟩
      obtain ⟨own', hd'⟩ := henum
      obtain ⟨bits, signed, hbase⟩ := hp.enum id own' hd'
      simp [Program.constScalar?, typeDecl?, Ty.symbol?, hd', hbase] at hs

theorem Later.normalize_eq (h : p.Later q) {a : Scalar} (hs : p.constScalar? ty = some a) (value : ConstValue) :
    q.normalize value ty = p.normalize value ty := by
  unfold normalize
  rw [h.constScalar? hs, hs]

/-- What inhabits a type is reduced as before. -/
theorem Later.normalize_of_inhabits (h : p.Later q) (hi : p.Inhabits ty (p.normalize value ty)) :
    q.normalize value ty = p.normalize value ty := by
  cases value with
  | bool v => simp
  | null => simp
  | int v =>
    have hint : ∃ w, p.normalize (.int v) ty = .int w := by
      unfold normalize
      split <;> simp_all
    obtain ⟨w, hw⟩ := hint
    rw [hw] at hi
    obtain ⟨bits, signed, hs, -⟩ := hi
    exact h.normalize_eq hs _
  | float v =>
    have hfloat : ∃ w, p.normalize (.float v) ty = .float w := by
      unfold normalize
      split <;> simp_all
    obtain ⟨w, hw⟩ := hfloat
    rw [hw] at hi
    obtain ⟨bits, hs⟩ := hi
    exact h.normalize_eq hs _

theorem Later.convert_eq (h : p.Later q) (hp : p.Standard) {step : CastStep} (hk : p.Known step.target)
    (value : ConstValue) : q.convert value step = p.convert value step := by
  unfold convert convertRaw normalize
  rw [h.constScalar?_eq hp hk]

theorem intOf_eq_ok {v : Int} : intOf value = .ok v ↔ value.asInt? = some v := by
  unfold intOf
  split <;> simp_all

/-- A shift of an integer has the type of the integer. -/
theorem Later.evalShift_eq (h : p.Later q) (hp : p.Standard) (hc : p.Carries wide null ty value) {v : Int}
    (hv : value.asInt? = some v) (op : BinaryOp) (amount : Int) :
    q.evalShift op ty v amount = p.evalShift op ty v amount := by
  have hscalar : ∃ a, p.constScalar? ty = some a := by
    cases value with
    | int => exact (hc.int hp).elim fun bits ⟨signed, hs⟩ => ⟨_, hs⟩
    | bool => exact ⟨_, hc.bool⟩
    | float | null => cases hv
  obtain ⟨a, hs⟩ := hscalar
  unfold evalShift
  simp only [h.constScalar? hs, hs, h.normalize_eq hs]

/-- **A later program evaluates the nodes that there were as before.** -/
theorem Later.evalUpTo_eq (h : p.Later q) (hp : p.Sound) : ∀ (fuel : Nat) {n : NodeId}, n.index < p.nodes.size →
    q.evalUpTo fuel n = p.evalUpTo fuel n
  | 0, _, _ => rfl
  | fuel + 1, n, hn => by
    have hst := hp.standard
    have hf := hp.fits n hn
    have hrange := hf.children
    have hfolds := hf.folds
    have htyped := hf.typed
    have hty : (∀ value, (p.node n).kind ≠ .literal value true) → (q.node n).ty = (p.node n).ty := fun hl =>
      h.type n hn fun ⟨value, hv⟩ => hl value hv
    have hc : ∀ m ∈ (p.node n).kind.children, q.evalUpTo fuel m = p.evalUpTo fuel m := fun m hm =>
      h.evalUpTo_eq hp fuel (hrange m hm)
    have hcarries : ∀ {m value}, m ∈ (p.node n).kind.children → p.evalUpTo fuel m = .ok value →
        p.Carries True True (p.node m).ty value := fun hm hv =>
      (hp.carries_evalUpTo (hrange _ hm) hv).imp (fun _ => trivial) fun _ => trivial
    unfold Folds at hfolds
    unfold Typed at htyped
    simp only [evalUpTo, h.kind n hn]
    cases hk : (p.node n).kind with
      simp only [hk, NodeKind.children, List.mem_cons, List.not_mem_nil, or_false, forall_eq_or_imp, forall_eq, ne_eq,
        reduceCtorEq, not_false_eq_true, implies_true, forall_const] at hrange hfolds htyped hty hc hcarries ⊢
    | constExpr => exact hc
    | cast inner step =>
      rw [hc]
      simp only [h.convert_eq hst hfolds.2]
    | unary op operand =>
      rw [hc, hty]
      refine Except.bind_congr fun v hv => Except.bind_congr fun r hr => ?_
      rw [h.normalize_of_inhabits]
      rw [← htyped]
      refine (hcarries rfl hv).unary hst ?_ hr
      rintro rfl
      rw [htyped, hfolds]
    | arithmetic op left right =>
      rw [hc.1, hc.2, hty]
      refine Except.bind_congr fun l hl => Except.bind_congr fun r _ => Except.bind_congr fun v hv => ?_
      rw [h.normalize_of_inhabits]
      rw [← htyped.1]
      exact (hcarries (.inl rfl) hl).arithmetic hst hv
    | shift op left right =>
      rw [hc.1, hc.2, hty]
      refine Except.bind_congr fun l hl => Except.bind_congr fun v hv => Except.bind_congr fun r _ => Except.bind_congr fun amount _ => ?_
      rw [← htyped.1]
      exact h.evalShift_eq hst (hcarries (.inl rfl) hl) (intOf_eq_ok.1 hv) op amount
    | condition op left right => rw [hc.1, hc.2]
    | ternary test whenTrue whenFalse => rw [hc.1, hc.2.1, hc.2.2]

theorem Later.eval_eq (h : p.Later q) (hp : p.Sound) {n : NodeId} (hn : n.index < p.nodes.size) :
    q.eval n = p.eval n := h.evalUpTo_eq hp _ hn

theorem Later.isConstant_eq (h : p.Later q) {n : NodeId} (hn : n.index < p.nodes.size) :
    q.isConstant n = p.isConstant n := by
  rw [isConstant, h.kind n hn, isConstant]

/-- A constant keeps its value. -/
theorem Later.constValue?_eq (h : p.Later q) (hp : p.Sound) {n : NodeId} (hn : n.index < p.nodes.size) :
    q.constValue? n = p.constValue? n := by
  rw [constValue?, h.isConstant_eq hn, h.eval_eq hp hn, constValue?]

theorem Computes.later (h : p.Later q) (hp : p.Sound) (hv : p.Computes value) : q.Computes value := by
  obtain ⟨n, hn, hv⟩ := hv
  exact ⟨n, Nat.lt_of_lt_of_le hn h.nodes, by rw [h.constValue?_eq hp hn, hv]⟩

end Program

end Bindery
