import Bindery.Conversion.Plan
import Bindery.Program.Layout
import Mathlib.Tactic.ByContra
/-!
# Plans of conversions are sound

A step of a plan is legal between two types when it is the primitive conversion that its kind says. A plan threads: each
of its steps is legal from the type that the steps before it lead to, and the last one leads to the type asked for.
What the rules rely on is that the builtin types are known by their symbols (`Standard`): a scalar has one type, an enum
is based on an integer, and the integer as wide as a pointer exists.
-/
namespace Bindery

/-- The scalars that have a type. -/
def Scalar.all : List Scalar :=
  [.bool, .int 8 true, .int 16 true, .int 32 true, .int 64 true, .int 8 false, .int 16 false, .int 32 false,
    .int 64 false, .float 32, .float 64]

/-- The primitive conversion that a step makes of a value of type `s` is one that exists. -/
def CastStep.Legal (p : Program) (s : Ty) (step : CastStep) : Prop :=
  match step.kind with
  | .dereference => s = .reference step.target
  | .referenceOf => step.target = .reference s
  | .addressOf => ∃ pointee, s = .reference pointee ∧ step.target = .pointer pointee
  | .fromNull => s = .null
  | .toBool => step.target = .bool ∧ ((p.scalar? s).isSome ∨ p.isEnum s ∨ s.isPointer)
  | .widen => ∃ a b, p.scalar? s = some a ∧ p.scalar? step.target = some b ∧ (a.bits < b.bits ∨ s = .bool)
  | .narrow => ∃ a b, p.scalar? s = some a ∧ p.scalar? step.target = some b ∧ b.bits ≤ a.bits
  | .bitCast => p.sizeOf s = p.sizeOf step.target
  | .packedFloatCast | .packedBitCast => ∃ a b lanes,
      p.builtin? s = some (.packed a lanes) ∧ p.builtin? step.target = some (.packed b lanes)
  | .packedBroadcast => ∃ element lanes, p.builtin? step.target = some (.packed element lanes) ∧ s = .ofScalar element

/-- What is known of a step by its types alone: it reads through a reference only, makes a truth value a `Bool`, changes
the width of scalars only, and takes no bits from `null` and none for a floating-point number. -/
def CastStep.Sends (s : Ty) (step : CastStep) : Prop :=
  match step.kind with
  | .dereference => s = .reference step.target
  | .toBool => step.target = .bool
  | .widen | .narrow => ∃ a, s = .ofScalar a
  | .bitCast => s ≠ .null ∧ ∀ bits, step.target ≠ .float bits
  | _ => True

namespace Ty

theorem int_ne_null (bits : Nat) (signed : Bool) : int bits signed ≠ null := by
  unfold int null
  split <;> simp

theorem int_ne_float (bits : Nat) (signed : Bool) (bits' : Nat) : int bits signed ≠ float bits' := by
  unfold int float
  split <;> split <;> simp

theorem ne_of_isIndirect {ty : Ty} (h : ty.isIndirect) : ty ≠ null ∧ ∀ bits, ty ≠ float bits := by
  refine ⟨?_, fun bits => ?_⟩
  · rintro rfl
    cases h
  · rintro rfl
    unfold float at h
    split at h <;> cases h

end Ty

namespace Program

variable {p : Program}

/-- An integer as wide as a pointer exists. -/
def HasPointerInt (p : Program) : Prop := p.pointerWidth = 32 ∨ p.pointerWidth = 64

/-- What holds of a step whatever the width of a pointer: it is legal if there is an integer of that width, and its types
are of the right kind. -/
def Allowed (p : Program) (s : Ty) (step : CastStep) : Prop := step.Sends s ∧ (p.HasPointerInt → step.Legal p s)

/-- Every step may follow the steps before it; `s` is the type before the first. -/
def Threads (may : Ty → CastStep → Prop) : Ty → List CastStep → Prop
  | _, [] => True
  | s, step :: rest => may s step ∧ Threads may step.target rest

theorem Threads.imp {may may' : Ty → CastStep → Prop} (h : ∀ s step, may s step → may' s step) :
    ∀ {s : Ty} {steps : List CastStep}, Threads may s steps → Threads may' s steps
  | _, [], _ => trivial
  | _, _ :: _, ⟨hs, ht⟩ => ⟨h _ _ hs, ht.imp h⟩

/-- The type that steps lead to. -/
def landing (s : Ty) (steps : List CastStep) : Ty := (steps.getLast?.map (·.target)).getD s

@[simp] theorem landing_nil (s : Ty) : landing s [] = s := rfl

@[simp] theorem landing_cons (s : Ty) (step : CastStep) (rest : List CastStep) :
    landing s (step :: rest) = landing step.target rest := by
  rcases rest with _ | ⟨next, rest⟩
  · rfl
  · simp only [landing, List.getLast?_cons, Option.map_some, Option.getD_some]

@[simp] theorem landing_append_singleton (s : Ty) (steps : List CastStep) (step : CastStep) :
    landing s (steps ++ [step]) = step.target := by simp [landing]

theorem threads_append {may : Ty → CastStep → Prop} : ∀ {s : Ty} {steps rest : List CastStep},
    Threads may s (steps ++ rest) ↔ Threads may s steps ∧ Threads may (landing s steps) rest
  | _, [], _ => by simp [Threads]
  | s, step :: steps, rest => by
    simp only [List.cons_append, Threads, landing_cons, threads_append, and_assoc]

/-- What the rules of conversion rely on: the builtin types stand at their places and nowhere else, and the base of an
enum is an integer. -/
structure Standard (p : Program) : Prop where
  builtin : ∀ (id : SymbolId) name own, Builtin.all[id.index]? = some (name, own) → p.decl id = .builtin own
  place : ∀ (id : SymbolId) own, p.decl id = .builtin own → own = .void ∨ ∃ name, Builtin.all[id.index]? = some (name, own)
  enum : ∀ (id : SymbolId) own, p.decl id = .enum own → ∃ bits signed, p.scalar? own.base = some (.int bits signed)
  size : 0 < p.symbols.size

theorem builtin?_eq_some_iff {ty : Ty} {own : Builtin} :
    p.builtin? ty = some own ↔ ∃ id, ty = .direct id ∧ p.decl id = .builtin own := by
  unfold builtin? typeDecl?
  rcases ty with _ | id | _ | _ <;> simp only [Ty.symbol?, Option.map_none, Option.map_some, reduceCtorEq, false_and,
    exists_false, Ty.direct.injEq]
  constructor
  · intro h
    split at h
    · rename_i hd
      simp only [Option.some.injEq] at h hd
      exact ⟨id, rfl, h ▸ hd⟩
    · cases h
  · rintro ⟨_, rfl, hd⟩
    rw [hd]

theorem scalar?_eq_some {ty : Ty} {a : Scalar} : p.scalar? ty = some a ↔ p.builtin? ty = some (.scalar a) := by
  unfold scalar?
  split
  · rename_i h
    rw [h]
    simp
  · rename_i h
    simp only [reduceCtorEq, false_iff]
    exact h a

/-- The type at the place of a builtin type: a scalar and `Null` have one, and the lanes of a packed type are scalars. -/
def Placed (ty : Ty) : Builtin → Prop
  | .void => True
  | .null => ty = .null
  | .scalar a => a ∈ Scalar.all ∧ ty = .ofScalar a
  | .packed element _ => element ∈ Scalar.all

theorem placed {e : (String × Builtin) × Nat} (he : e ∈ Builtin.all.zipIdx) : Placed (.direct ⟨e.2⟩) e.1.2 := by
  simp only [Builtin.all, List.zipIdx_cons, List.zipIdx_nil, List.mem_cons, List.not_mem_nil, or_false] at he
  rcases he with rfl | rfl | rfl | rfl | rfl | rfl | rfl | rfl | rfl | rfl | rfl | rfl | rfl | rfl | rfl | rfl | rfl <;>
    simp [Placed, Scalar.all, Ty.ofScalar, Ty.null, Ty.bool, Ty.int, Ty.float]

theorem scalar_placed : ∀ a ∈ Scalar.all, ∃ e ∈ Builtin.all.zipIdx, e.1.2 = .scalar a ∧ Ty.ofScalar a = .direct ⟨e.2⟩ := by
  decide

namespace Standard

variable (h : p.Standard)
include h

theorem placed {id : SymbolId} {own : Builtin} (hd : p.decl id = .builtin own) : Placed (.direct id) own := by
  obtain rfl | ⟨name, hn⟩ := h.place id _ hd
  · trivial
  · exact Program.placed (e := ((name, own), id.index)) (List.mem_zipIdx_iff_getElem?.2 hn)

/-- **A type is a scalar just when it is the one type of that scalar.** -/
theorem scalar?_eq_some_iff {ty : Ty} {a : Scalar} : p.scalar? ty = some a ↔ a ∈ Scalar.all ∧ ty = .ofScalar a := by
  rw [scalar?_eq_some, builtin?_eq_some_iff]
  constructor
  · rintro ⟨id, rfl, hd⟩
    exact h.placed hd
  · rintro ⟨ha, rfl⟩
    obtain ⟨⟨⟨name, own⟩, i⟩, he, rfl, hty⟩ := scalar_placed a ha
    exact ⟨⟨i⟩, hty, h.builtin ⟨i⟩ name _ (List.mem_zipIdx_iff_getElem?.1 he)⟩

theorem scalar?_ofScalar {a : Scalar} (ha : a ∈ Scalar.all) : p.scalar? (.ofScalar a) = some a :=
  h.scalar?_eq_some_iff.2 ⟨ha, rfl⟩

theorem scalar?_bool : p.scalar? .bool = some .bool := h.scalar?_ofScalar (a := .bool) (by decide)

/-- What is no builtin type is neither `Null` nor a floating-point number. -/
theorem ne_of_decl {id : SymbolId} (hd : ∀ own, p.decl id ≠ .builtin own) :
    Ty.direct id ≠ .null ∧ ∀ bits, Ty.direct id ≠ .float bits := by
  refine ⟨fun heq => ?_, fun bits heq => ?_⟩
  · cases heq
    exact hd _ (h.builtin ⟨1⟩ _ _ rfl)
  · unfold Ty.float at heq
    split at heq
    · cases heq
      exact hd _ (h.builtin ⟨11⟩ _ _ rfl)
    · cases heq
      exact hd _ (h.builtin ⟨12⟩ _ _ rfl)

theorem sizeOf_ofScalar {a : Scalar} (ha : a ∈ Scalar.all) : p.sizeOf (.ofScalar a) = .ofNat (a.bits / 8) := by
  obtain ⟨id, hid, hd⟩ := builtin?_eq_some_iff.1 (scalar?_eq_some.1 (h.scalar?_ofScalar ha))
  rw [hid]
  simp [sizeOf, layout, layoutUpTo, hd, Layout.natural]

end Standard

/-- A change of sign keeps the width, so the type in between exists. -/
theorem mem_all_signed {bits : Nat} {signed : Bool} (hb : .int bits signed ∈ Scalar.all) (signed' : Bool) :
    .int bits signed' ∈ Scalar.all := by
  simp only [Scalar.all, List.mem_cons, Scalar.int.injEq, reduceCtorEq, List.not_mem_nil, or_false, false_or] at hb ⊢
  cases signed' <;> simp <;> omega

/-! ## Sizes -/

theorem sizeOf_pointer (pointee : Ty) : p.sizeOf (.pointer pointee) = .ofNat (p.pointerWidth / 8) := by
  simp [sizeOf, layout, layoutUpTo, Layout.natural]

theorem sizeOf_reference (pointee : Ty) : p.sizeOf (.reference pointee) = .ofNat (p.pointerWidth / 8) := by
  simp [sizeOf, layout, layoutUpTo, Layout.natural]

/-! ## Classes -/

theorem pointer_of_classify {ty pointee : Ty} (hc : p.classify ty = .pointer pointee) : ty = .pointer pointee := by
  rcases ty with _ | id | _ | _ <;> simp only [classify, reduceCtorEq, TypeClass.pointer.injEq] at hc
  · unfold classifyDecl at hc
    split at hc <;> cases hc
  · rw [hc]

theorem reference_of_classify {ty pointee : Ty} (hc : p.classify ty = .reference pointee) : ty = .reference pointee := by
  rcases ty with _ | id | _ | _ <;> simp only [classify, reduceCtorEq, TypeClass.reference.injEq] at hc
  · unfold classifyDecl at hc
    split at hc <;> cases hc
  · rw [hc]

theorem builtin_of_classify {ty : Ty} (own : Builtin) (hv : own ≠ .void)
    (hc : p.classify ty = classifyDecl (.builtin own)) : p.builtin? ty = some own := by
  rcases ty with _ | id | _ | _
  · rcases own with _ | _ | _ | _ <;> simp [classify, classifyDecl] at hc
  · refine builtin?_eq_some_iff.2 ⟨id, rfl, ?_⟩
    simp only [classify] at hc
    rcases hd : p.decl id with own' | _ | _ | _ | _ | _ | _ | _ | _ | _ | _ | _ | _ | _ | _ | _ | _ <;>
      rcases own with _ | _ | _ | _ <;> simp_all [classifyDecl]
    all_goals rcases own' with _ | _ | _ | _ <;> simp_all
  · rcases own with _ | _ | _ | _ <;> simp [classify, classifyDecl] at hc
  · rcases own with _ | _ | _ | _ <;> simp [classify, classifyDecl] at hc

theorem function_of_classify {ty : Ty} (hc : p.classify ty = .function) : ∃ id own, ty = .direct id ∧ p.decl id = .function own := by
  rcases ty with _ | id | _ | _ <;> simp only [classify, reduceCtorEq] at hc
  unfold classifyDecl at hc
  split at hc <;> cases hc
  exact ⟨id, _, rfl, ‹_›⟩

theorem enum_of_classify {ty base : Ty} (hc : p.classify ty = .enum base) :
    ∃ id own, ty = .direct id ∧ p.decl id = .enum own ∧ own.base = base := by
  rcases ty with _ | id | _ | _ <;> simp only [classify, reduceCtorEq] at hc
  unfold classifyDecl at hc
  split at hc <;> cases hc
  exact ⟨id, _, rfl, ‹_›, rfl⟩

theorem sizeOf_function {ty : Ty} (hc : p.classify ty = .function) : p.sizeOf ty = .ofNat (p.pointerWidth / 8) := by
  obtain ⟨id, own, rfl, hd⟩ := function_of_classify hc
  simp [sizeOf, layout, layoutUpTo, hd, Layout.natural]

namespace Standard

variable (h : p.Standard)
include h

theorem scalar_of_classify {ty : Ty} {a : Scalar} (hc : p.classify ty = .scalar a) : a ∈ Scalar.all ∧ ty = .ofScalar a :=
  h.scalar?_eq_some_iff.1 (scalar?_eq_some.2 (builtin_of_classify (.scalar a) (by simp) hc))

theorem null_of_classify {ty : Ty} (hc : p.classify ty = .null) : ty = .null := by
  obtain ⟨id, rfl, hd⟩ := builtin?_eq_some_iff.1 (builtin_of_classify .null (by simp) hc)
  exact h.placed hd

theorem packed_of_classify {ty : Ty} {element : Scalar} {lanes : Nat} (hc : p.classify ty = .packed element lanes) :
    element ∈ Scalar.all ∧ p.builtin? ty = some (.packed element lanes) := by
  have hb := builtin_of_classify (.packed element lanes) (by simp) hc
  obtain ⟨id, rfl, hd⟩ := builtin?_eq_some_iff.1 hb
  exact ⟨h.placed hd, hb⟩

/-- An enum has the size of its base, which is an integer. -/
theorem enum_base_of_classify {ty base : Ty} (hc : p.classify ty = .enum base) :
    (ty ≠ .null ∧ ∀ bits, ty ≠ .float bits) ∧ p.isEnum ty ∧ p.sizeOf ty = p.sizeOf base ∧
      ∃ bits signed, .int bits signed ∈ Scalar.all ∧ base = .ofScalar (.int bits signed) := by
  obtain ⟨id, own, rfl, hd, rfl⟩ := enum_of_classify hc
  obtain ⟨bits, signed, hs⟩ := h.enum id own hd
  obtain ⟨hm, hb⟩ := h.scalar?_eq_some_iff.1 hs
  refine ⟨h.ne_of_decl (by simp [hd]), by simp [isEnum, typeDecl?, Ty.symbol?, hd], ?_, bits, signed, hm, hb⟩
  obtain ⟨n, hn⟩ : ∃ n, p.symbols.size = n + 1 := ⟨p.symbols.size - 1, by have := h.size; omega⟩
  obtain ⟨base, hbase, hd'⟩ := builtin?_eq_some_iff.1 (scalar?_eq_some.1 hs)
  simp [sizeOf, layout, layoutUpTo, hd, hn, hbase, hd']

end Standard

/-! ## Plans -/

/-- A plan, if there is one, threads from `src` to `dst`. -/
def Reaches (p : Program) (src dst : Ty) (plan : CastPlan) : Prop :=
  ∀ steps, plan = .ok steps → Threads p.Allowed src steps ∧ landing src steps = dst

variable {src mid dst : Ty} {intent : Intent} {plan : CastPlan} {step : CastStep}

theorem Reaches.error (cause : CastFailure) : p.Reaches src dst (.error cause) := by rintro _ ⟨⟩

theorem Reaches.nil (h : src = dst) : p.Reaches src dst (.ok []) := by
  rintro _ ⟨⟩
  exact ⟨trivial, h⟩

theorem Reaches.one {kind : StepKind} (h : p.Allowed src ⟨kind, dst⟩) : p.Reaches src dst (.ok [⟨kind, dst⟩]) := by
  rintro _ ⟨⟩
  exact ⟨⟨h, trivial⟩, rfl⟩

theorem Reaches.onlyExplicit {steps : List CastStep} (h : p.Reaches src dst (.ok steps)) :
    p.Reaches src dst (.onlyExplicit intent steps) := by
  cases intent
  · exact .error _
  · exact h

theorem Reaches.after (hs : p.Allowed src step) (h : p.Reaches step.target dst plan) :
    p.Reaches src dst (.after step plan) := by
  rintro steps hp
  rcases plan with cause | rest
  · cases hp
  · cases hp
    obtain ⟨ht, hl⟩ := h rest rfl
    exact ⟨⟨hs, ht⟩, by rw [landing_cons, hl]⟩

theorem Reaches.followedBy {kind : StepKind} (h : p.Reaches src mid plan) (hs : p.Allowed mid ⟨kind, dst⟩) :
    p.Reaches src dst (plan.followedBy ⟨kind, dst⟩) := by
  rintro steps hp
  rcases plan with cause | rest
  · cases hp
  · cases hp
    obtain ⟨ht, hl⟩ := h rest rfl
    exact ⟨threads_append.2 ⟨ht, by rw [hl]; exact ⟨hs, trivial⟩⟩, by rw [landing_append_singleton]⟩

theorem Reaches.indirectPlan {source target : Ty} (hs : p.sizeOf src = p.sizeOf dst) (hi : src.isIndirect)
    (hi' : dst.isIndirect) : p.Reaches src dst (p.indirectPlan intent source target dst) := by
  have hone : p.Reaches src dst (.ok [⟨.bitCast, dst⟩]) :=
    .one ⟨⟨(Ty.ne_of_isIndirect hi).1, (Ty.ne_of_isIndirect hi').2⟩, fun _ => hs⟩
  unfold Program.indirectPlan
  split
  · exact hone
  · split
    · split
      · exact hone
      · exact hone.onlyExplicit
    · exact hone.onlyExplicit

theorem Reaches.packedPlan {a b : Scalar} {lanes lanes' : Nat} (ha : p.builtin? src = some (.packed a lanes))
    (hb : p.builtin? dst = some (.packed b lanes')) : p.Reaches src dst (Program.packedPlan intent a lanes b lanes' dst) := by
  unfold Program.packedPlan
  split
  · exact .error _
  · rename_i hl
    obtain rfl : lanes = lanes' := not_not.1 hl
    rcases Program.scalarPlan intent a b (.ofScalar b) with cause | steps
    · exact .error cause
    · refine Reaches.one ?_
      split <;> exact ⟨trivial, fun _ => ⟨a, b, lanes, ha, hb⟩⟩

namespace Standard

variable (h : p.Standard)
include h

theorem bitCast_int {bits : Nat} {signed signed' : Bool} (ha : .int bits signed ∈ Scalar.all)
    (hb : .int bits signed' ∈ Scalar.all) : p.Allowed (.ofScalar (.int bits signed)) ⟨.bitCast, .ofScalar (.int bits signed')⟩ := by
  refine ⟨⟨Ty.int_ne_null _ _, Ty.int_ne_float _ _⟩, fun _ => ?_⟩
  show p.sizeOf _ = p.sizeOf _
  rw [h.sizeOf_ofScalar ha, h.sizeOf_ofScalar hb]
  rfl

theorem widen {a b : Scalar} (ha : a ∈ Scalar.all) (hb : b ∈ Scalar.all) (hlt : a.bits < b.bits) :
    p.Allowed (.ofScalar a) ⟨.widen, .ofScalar b⟩ :=
  ⟨⟨a, rfl⟩, fun _ => ⟨a, b, h.scalar?_ofScalar ha, h.scalar?_ofScalar hb, .inl hlt⟩⟩

theorem narrow {a b : Scalar} (ha : a ∈ Scalar.all) (hb : b ∈ Scalar.all) (hle : b.bits ≤ a.bits) :
    p.Allowed (.ofScalar a) ⟨.narrow, .ofScalar b⟩ :=
  ⟨⟨a, rfl⟩, fun _ => ⟨a, b, h.scalar?_ofScalar ha, h.scalar?_ofScalar hb, hle⟩⟩

theorem intPlan {fromBits toBits : Nat} {fromSigned toSigned : Bool} (ha : .int fromBits fromSigned ∈ Scalar.all)
    (hb : .int toBits toSigned ∈ Scalar.all) :
    p.Reaches (.ofScalar (.int fromBits fromSigned)) (.ofScalar (.int toBits toSigned))
      (Program.intPlan intent fromBits fromSigned toBits toSigned (.ofScalar (.int toBits toSigned))) := by
  unfold Program.intPlan
  split
  · split
    · exact .one (h.widen ha hb ‹_›)
    · exact (Reaches.one (h.narrow ha hb (Nat.le_of_not_lt ‹_›))).onlyExplicit
  · split
    · rename_i heq
      subst heq
      exact (Reaches.one (h.bitCast_int ha hb)).onlyExplicit
    · have hm := mem_all_signed hb fromSigned
      have hresize : p.Allowed (.ofScalar (.int fromBits fromSigned))
          ⟨if fromBits < toBits then .widen else .narrow, .int toBits fromSigned⟩ := by
        split
        · exact h.widen ha hm ‹_›
        · exact h.narrow ha hm (Nat.le_of_not_lt ‹_›)
      refine Reaches.onlyExplicit ?_
      rintro _ ⟨⟩
      exact ⟨⟨hresize, h.bitCast_int hm hb, trivial⟩, rfl⟩

/-- **The plan between two scalars.** -/
theorem scalarPlan {a b : Scalar} (ha : a ∈ Scalar.all) (hb : b ∈ Scalar.all) :
    p.Reaches (.ofScalar a) (.ofScalar b) (Program.scalarPlan intent a b (.ofScalar b)) := by
  unfold Program.scalarPlan
  split
  · exact .nil (by rw [‹a = b›])
  · split
    · exact .one ⟨rfl, fun _ => ⟨rfl, .inl (by rw [h.scalar?_ofScalar ha]; rfl)⟩⟩
    · refine Reaches.onlyExplicit (.one ⟨⟨.bool, rfl⟩, fun _ => ?_⟩)
      exact ⟨_, _, h.scalar?_bool, h.scalar?_ofScalar hb, .inr rfl⟩
    · exact h.intPlan ha hb
    · split
      · exact .one (h.widen ha hb ‹_›)
      · exact (Reaches.one (h.narrow ha hb (Nat.le_of_not_lt ‹_›))).onlyExplicit

theorem broadcastPlan {a b : Scalar} {lanes : Nat} (ha : a ∈ Scalar.all) (hb : b ∈ Scalar.all)
    (hd : p.builtin? dst = some (.packed b lanes)) :
    p.Reaches (.ofScalar a) dst (Program.broadcastPlan intent a b dst) := by
  unfold Program.broadcastPlan
  split
  · exact .error _
  · exact (h.scalarPlan ha hb).followedBy ⟨trivial, fun _ => ⟨b, lanes, hd, rfl⟩⟩

theorem enumToInt {base : Ty} {bits : Nat} {signed : Bool} (hc : p.classify src = .enum base)
    (hb : .int bits signed ∈ Scalar.all) :
    p.Reaches src (.ofScalar (.int bits signed)) (p.enumToInt intent base (.int bits signed) (.ofScalar (.int bits signed))) := by
  obtain ⟨⟨hne, -⟩, -, hsize, baseBits, baseSigned, hm, rfl⟩ := h.enum_base_of_classify hc
  have hcast : p.Allowed src ⟨.bitCast, .ofScalar (.int baseBits baseSigned)⟩ :=
    ⟨⟨hne, Ty.int_ne_float _ _⟩, fun _ => hsize⟩
  unfold Program.enumToInt
  rw [h.scalar?_ofScalar hm]
  cases intent
  · exact .error _
  · dsimp only
    split
    · rename_i heq
      rw [heq] at hcast ⊢
      exact .one hcast
    · exact .after hcast (h.scalarPlan hm hb)

theorem intToEnum {base : Ty} {bits : Nat} {signed : Bool} (hc : p.classify dst = .enum base)
    (ha : .int bits signed ∈ Scalar.all) :
    p.Reaches (.ofScalar (.int bits signed)) dst
      (p.intToEnum intent (.int bits signed) (.ofScalar (.int bits signed)) base dst) := by
  obtain ⟨⟨-, hne⟩, -, hsize, baseBits, baseSigned, hm, rfl⟩ := h.enum_base_of_classify hc
  have hcast : p.Allowed (.ofScalar (.int baseBits baseSigned)) ⟨.bitCast, dst⟩ :=
    ⟨⟨Ty.int_ne_null _ _, hne⟩, fun _ => hsize.symm⟩
  unfold Program.intToEnum
  rw [h.scalar?_ofScalar hm]
  cases intent
  · exact .error _
  · dsimp only
    split
    · rename_i heq
      rw [heq] at hcast
      exact .one hcast
    · exact (h.scalarPlan ha hm).followedBy hcast

end Standard

/-! ## Pointers -/

/-- The integer as wide as a pointer exists. -/
theorem HasPointerInt.mem (hw : p.HasPointerInt) (signed : Bool) : .int p.pointerWidth signed ∈ Scalar.all := by
  rcases hw with hw | hw <;> rw [hw] <;> cases signed <;> decide

theorem eq_of_onlyExplicit {steps plan : List CastStep} (h : CastPlan.onlyExplicit intent plan = .ok steps) :
    steps = plan := by
  cases intent with
  | implicit => cases h
  | explicit =>
    cases h
    rfl

/-- Whatever two scalars are, the plan between them leads from one to the other by steps between types of the right
kind. -/
theorem landing_scalarPlan {a b : Scalar} {steps : List CastStep}
    (h : Program.scalarPlan intent a b (.ofScalar b) = .ok steps) :
    landing (.ofScalar a) steps = .ofScalar b ∧ Threads CastStep.Sends (.ofScalar a) steps := by
  have hone : ∀ kind : StepKind, CastStep.Sends (.ofScalar a) ⟨kind, .ofScalar b⟩ → steps = [⟨kind, .ofScalar b⟩] →
      landing (.ofScalar a) steps = .ofScalar b ∧ Threads CastStep.Sends (.ofScalar a) steps := by
    rintro kind hk rfl
    exact ⟨rfl, hk, trivial⟩
  unfold Program.scalarPlan at h
  split at h
  · cases h
    exact ⟨by rw [‹a = b›]; rfl, trivial⟩
  split at h
  · cases h
    exact hone .toBool rfl rfl
  · exact hone .widen ⟨_, rfl⟩ (eq_of_onlyExplicit h)
  · unfold Program.intPlan at h
    split at h
    · split at h
      · cases h
        exact hone .widen ⟨_, rfl⟩ rfl
      · exact hone .narrow ⟨_, rfl⟩ (eq_of_onlyExplicit h)
    · split at h
      · exact hone .bitCast ⟨Ty.int_ne_null _ _, Ty.int_ne_float _ _⟩ (eq_of_onlyExplicit h)
      · -- the width is changed first, in one direction or the other
        obtain rfl := eq_of_onlyExplicit h
        refine ⟨rfl, ?_, ⟨Ty.int_ne_null _ _, Ty.int_ne_float _ _⟩, trivial⟩
        split <;> exact ⟨_, rfl⟩
  · split at h
    · cases h
      exact hone .widen ⟨_, rfl⟩ rfl
    · exact hone .narrow ⟨_, rfl⟩ (eq_of_onlyExplicit h)

/-- Between scalars one of which is an integer as wide as a pointer. -/
theorem Reaches.of_width {a b : Scalar} (h : p.HasPointerInt → p.Reaches (.ofScalar a) (.ofScalar b)
    (Program.scalarPlan intent a b (.ofScalar b))) :
    p.Reaches (.ofScalar a) (.ofScalar b) (Program.scalarPlan intent a b (.ofScalar b)) := by
  by_cases hw : p.HasPointerInt
  · exact h hw
  · intro steps hs
    obtain ⟨hl, hk⟩ := landing_scalarPlan hs
    exact ⟨hk.imp fun _ _ hs => ⟨hs, (absurd · hw)⟩, hl⟩

namespace Standard

variable (h : p.Standard)
include h

theorem sizeOf_pointerInt (hw : p.HasPointerInt) (signed : Bool) :
    p.sizeOf (p.pointerInt signed) = .ofNat (p.pointerWidth / 8) := h.sizeOf_ofScalar (hw.mem signed)

theorem bitCast_pointerInt (pointee : Ty) (signed : Bool) :
    p.Allowed (.pointer pointee) ⟨.bitCast, p.pointerInt signed⟩ := by
  refine ⟨⟨(Ty.ne_of_isIndirect rfl).1, Ty.int_ne_float _ _⟩, fun hw => ?_⟩
  show p.sizeOf _ = p.sizeOf _
  rw [sizeOf_pointer, h.sizeOf_pointerInt hw]

theorem pointerInt_bitCast (pointee : Ty) (signed : Bool) :
    p.Allowed (p.pointerInt signed) ⟨.bitCast, .pointer pointee⟩ := by
  refine ⟨⟨Ty.int_ne_null _ _, (Ty.ne_of_isIndirect rfl).2⟩, fun hw => ?_⟩
  show p.sizeOf _ = p.sizeOf _
  rw [sizeOf_pointer, h.sizeOf_pointerInt hw]

theorem pointerToInt {pointee : Ty} {bits : Nat} {signed : Bool} (hb : .int bits signed ∈ Scalar.all) :
    p.Reaches (.pointer pointee) (.ofScalar (.int bits signed))
      (.ok (p.pointerToInt bits signed (.ofScalar (.int bits signed)))) := by
  have hcast := h.bitCast_pointerInt pointee signed
  rintro _ ⟨⟩
  unfold Program.pointerToInt
  split
  · rename_i hlt
    exact ⟨⟨hcast, ⟨⟨.int p.pointerWidth signed, rfl⟩, fun hw => (h.widen (hw.mem signed) hb hlt).2 hw⟩, trivial⟩, rfl⟩
  · split
    · rename_i hlt
      have hnarrow : p.HasPointerInt → _ := fun hw => (h.narrow (hw.mem signed) hb (Nat.le_of_lt hlt)).2 hw
      exact ⟨⟨hcast, ⟨⟨.int p.pointerWidth signed, rfl⟩, hnarrow⟩, trivial⟩, rfl⟩
    · obtain rfl : bits = p.pointerWidth := by omega
      exact ⟨⟨hcast, trivial⟩, rfl⟩

theorem intToPointer {pointee : Ty} {bits : Nat} {signed : Bool} (hb : .int bits signed ∈ Scalar.all) :
    p.Reaches (.ofScalar (.int bits signed)) (.pointer pointee) (.ok (p.intToPointer bits signed (.pointer pointee))) := by
  have hcast := h.pointerInt_bitCast pointee signed
  rintro _ ⟨⟩
  unfold Program.intToPointer
  split
  · rename_i hlt
    exact ⟨⟨⟨⟨_, rfl⟩, fun hw => (h.widen hb (hw.mem signed) hlt).2 hw⟩, hcast, trivial⟩, rfl⟩
  · split
    · rename_i hlt
      exact ⟨⟨⟨⟨_, rfl⟩, fun hw => (h.narrow hb (hw.mem signed) (Nat.le_of_lt hlt)).2 hw⟩, hcast, trivial⟩, rfl⟩
    · obtain rfl : bits = p.pointerWidth := by omega
      exact ⟨⟨hcast, trivial⟩, rfl⟩

theorem fromPointer {pointee : Ty} {cls : TypeClass} (hd : p.classify dst = cls) :
    p.Reaches (.pointer pointee) dst (p.fromPointer intent pointee dst cls) := by
  unfold Program.fromPointer
  split
  · obtain ⟨-, rfl⟩ := h.scalar_of_classify hd
    have hstep : p.Allowed (.pointer pointee) ⟨.toBool, .bool⟩ := ⟨rfl, fun _ => ⟨rfl, .inr (.inr rfl)⟩⟩
    exact (Reaches.one hstep).onlyExplicit
  · obtain ⟨hm, rfl⟩ := h.scalar_of_classify hd
    exact (h.pointerToInt hm).onlyExplicit
  · obtain ⟨hm, rfl⟩ := h.scalar_of_classify hd
    split
    · exact .error _
    · cases intent
      · exact .error _
      · exact .after (h.bitCast_pointerInt pointee true) (.of_width fun hw => h.scalarPlan (hw.mem true) hm)
  · exact .error _

theorem toPointer {pointee : Ty} {cls : TypeClass} (hs : p.classify src = cls) :
    p.Reaches src (.pointer pointee) (p.toPointer intent pointee (.pointer pointee) cls) := by
  unfold Program.toPointer
  split
  · obtain ⟨hm, rfl⟩ := h.scalar_of_classify hs
    exact (h.intToPointer hm).onlyExplicit
  · obtain ⟨hm, rfl⟩ := h.scalar_of_classify hs
    split
    · exact .error _
    · cases intent
      · exact .error _
      · refine Reaches.followedBy ?_ (h.pointerInt_bitCast pointee true)
        exact .of_width fun hw => h.scalarPlan hm (hw.mem true)
  · exact .error _

theorem ne_of_function {ty : Ty} (hc : p.classify ty = .function) : ty ≠ .null ∧ ∀ bits, ty ≠ .float bits := by
  obtain ⟨id, own, rfl, hd⟩ := function_of_classify hc
  exact h.ne_of_decl (by simp [hd])

/-- The plan between different types, the first of which is no reference. -/
theorem valuePlan (hr : ¬ src.isReference) :
    p.Reaches src dst (p.valuePlan intent src dst (p.classify src) (p.classify dst)) := by
  generalize hcs : p.classify src = a
  generalize hcd : p.classify dst = b
  unfold Program.valuePlan
  split
  all_goals first | exact .error _ | skip
  case h_7 => exact .one ⟨trivial, fun _ => h.null_of_classify hcs⟩
  case h_9 =>
    obtain rfl := pointer_of_classify hcs
    obtain rfl := reference_of_classify hcd
    exact .indirectPlan (by rw [sizeOf_pointer, sizeOf_reference]) rfl rfl
  case h_10 =>
    obtain rfl := reference_of_classify hcs
    exact absurd rfl hr
  case h_11 =>
    obtain rfl := reference_of_classify hcd
    split
    · subst_vars
      exact .one ⟨trivial, fun _ => rfl⟩
    · exact .error _
  case h_14 =>
    refine .one ⟨⟨(h.ne_of_function hcs).1, (h.ne_of_function hcd).2⟩, fun _ => ?_⟩
    rw [CastStep.Legal, sizeOf_function hcs, sizeOf_function hcd]
  case h_15 =>
    split
    · subst_vars
      refine .one ⟨⟨(h.ne_of_function hcs).1, (Ty.ne_of_isIndirect rfl).2⟩, fun _ => ?_⟩
      rw [CastStep.Legal, sizeOf_function hcs]
      exact (sizeOf_pointer _).symm
    · exact .error _
  case h_16 =>
    split
    · subst_vars
      refine .one ⟨⟨(Ty.ne_of_isIndirect rfl).1, (h.ne_of_function hcd).2⟩, fun _ => ?_⟩
      rw [CastStep.Legal, sizeOf_function hcd]
      exact sizeOf_pointer _
    · exact .error _
  case h_17 => exact .packedPlan (h.packed_of_classify hcs).2 (h.packed_of_classify hcd).2
  case h_18 =>
    obtain ⟨hm, rfl⟩ := h.scalar_of_classify hcs
    obtain ⟨hm', hp⟩ := h.packed_of_classify hcd
    exact h.broadcastPlan hm hm' hp
  case h_21 =>
    obtain rfl := pointer_of_classify hcs
    obtain rfl := pointer_of_classify hcd
    exact .indirectPlan (by rw [sizeOf_pointer, sizeOf_pointer]) rfl rfl
  case h_22 =>
    obtain rfl := pointer_of_classify hcs
    exact h.fromPointer hcd
  case h_23 =>
    obtain rfl := pointer_of_classify hcd
    exact h.toPointer hcs
  case h_24 =>
    obtain ⟨-, rfl⟩ := h.scalar_of_classify hcd
    exact .one ⟨rfl, fun _ => ⟨rfl, .inr (.inl (h.enum_base_of_classify hcs).2.1)⟩⟩
  case h_25 =>
    obtain ⟨hm, rfl⟩ := h.scalar_of_classify hcs
    obtain ⟨-, rfl⟩ := h.scalar_of_classify hcd
    exact .one ⟨rfl, fun _ => ⟨rfl, .inl (by rw [h.scalar?_ofScalar hm]; rfl)⟩⟩
  case h_26 =>
    obtain ⟨hm, rfl⟩ := h.scalar_of_classify hcd
    exact h.enumToInt hcs hm
  case h_27 =>
    obtain ⟨hm, rfl⟩ := h.scalar_of_classify hcs
    exact h.intToEnum hcd hm
  case h_28 =>
    obtain ⟨hm, rfl⟩ := h.scalar_of_classify hcs
    obtain ⟨hm', rfl⟩ := h.scalar_of_classify hcd
    exact h.scalarPlan hm hm'

/-- **Every plan threads from the type it starts at to the type asked for.** -/
theorem castPlan : ∀ src dst : Ty, p.Reaches src dst (p.castPlan intent src dst)
  | .reference inner, dst => by
    unfold Program.castPlan
    split
    · exact .nil ‹_›
    · split
      · exact .error _
      · exact .error _
      · exact .error _
      · rename_i hd
        obtain rfl := pointer_of_classify hd
        split
        · subst_vars
          exact .one ⟨trivial, fun _ => ⟨_, rfl, rfl⟩⟩
        · exact .indirectPlan (by rw [sizeOf_pointer, sizeOf_reference]) rfl rfl
      · rename_i hd
        obtain rfl := reference_of_classify hd
        exact .indirectPlan (by rw [sizeOf_reference, sizeOf_reference]) rfl rfl
      · exact .after ⟨rfl, fun _ => rfl⟩ (castPlan inner dst)
  | .unknown, dst => by
    unfold Program.castPlan
    split
    · exact .nil ‹_›
    · exact h.valuePlan (by simp [Ty.isReference])
  | .direct id, dst => by
    unfold Program.castPlan
    split
    · exact .nil ‹_›
    · exact h.valuePlan (by simp [Ty.isReference])
  | .pointer pointee, dst => by
    unfold Program.castPlan
    split
    · exact .nil ‹_›
    · exact h.valuePlan (by simp [Ty.isReference])

end Standard

theorem castPlan_self (p : Program) (intent : Intent) (ty : Ty) : p.castPlan intent ty ty = .ok [] := by
  cases ty <;> simp [castPlan]

end Program

end Bindery
