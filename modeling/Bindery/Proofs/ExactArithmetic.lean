import Bindery.Proofs.ConstantCasts
import Mathlib.Data.Int.Bitwise
import Mathlib.Data.Int.ModEq
/-!
# Constant arithmetic is exact

Constants are computed in 128 bits, and what each operator gives is cut to the width of its type. A sum, a product or a
bit operation depends on the residues of its operands only, so the value of a whole tree is its exact value, computed
with integers of any size and cut to the type once.
-/
namespace Bindery

/-! ## Residues -/

variable {k : Nat} {a b a' b' : Int}

theorem bit_emod (x : Bool) (v : Int) (k : Nat) : Int.bit x v % pow2 (k + 1) = Int.bit x (v % pow2 k) := by
  have hpos : (0 : Int) < pow2 k := by exact_mod_cast pow2_pos k
  have hlow := Int.emod_nonneg v (Int.ne_of_gt hpos)
  have hhigh := Int.emod_lt_of_pos v hpos
  have hdouble : ((pow2 (k + 1) : Nat) : Int) = pow2 k * 2 := by rw [pow2_succ]; push_cast; rfl
  have hsplit : Int.bit x v = Int.bit x (v % pow2 k) + pow2 k * 2 * (v / pow2 k) := by
    have hdiv := Int.emod_add_mul_ediv v (pow2 k)
    rw [Int.bit_val, Int.bit_val, Int.mul_right_comm]
    omega
  rw [hsplit, hdouble, Int.add_mul_emod_self_left, Int.bit_val]
  exact Int.emod_eq_of_lt (by cases x <;> simp <;> omega) (by cases x <;> simp <;> omega)

/-- The lowest bits of the result of a bit operation depend on the lowest bits of the operands. -/
theorem bitwise_emod (f : Bool → Bool → Bool) : ∀ (k : Nat) {a b a' b' : Int}, a % pow2 k = a' % pow2 k →
    b % pow2 k = b' % pow2 k → Int.bitwise f a b % pow2 k = Int.bitwise f a' b' % pow2 k
  | 0, _, _, _, _, _, _ => by simp [pow2_zero, Int.emod_one]
  | k + 1, a, b, a', b', ha, hb => by
    have hsame : ∀ {v w : Int}, v % pow2 (k + 1) = w % pow2 (k + 1) →
        v.bodd = w.bodd ∧ v.div2 % pow2 k = w.div2 % pow2 k := by
      intro v w h
      rw [← Int.bit_decomp v, ← Int.bit_decomp w, bit_emod, bit_emod] at h
      have hodd := congrArg Int.bodd h
      rw [Int.bodd_bit, Int.bodd_bit] at hodd
      rw [hodd, Int.bit_val, Int.bit_val] at h
      exact ⟨hodd, by omega⟩
    obtain ⟨ha, ha'⟩ := hsame ha
    obtain ⟨hb, hb'⟩ := hsame hb
    rw [← Int.bit_decomp a, ← Int.bit_decomp b, ← Int.bit_decomp a', ← Int.bit_decomp b', Int.bitwise_bit,
      Int.bitwise_bit, bit_emod, bit_emod, ha, hb, bitwise_emod f k ha' hb']

/-! ## Exact values -/

/-- What an operator makes of an integer of any size. -/
def exactUnary? : UnaryOp → Option (Int → Int)
  | .neg => some fun v => -v
  | .bitNot => some Int.lnot
  | _ => none

/-- What an operator makes of two integers of any size. -/
def exactBinary? : BinaryOp → Option (Int → Int → Int)
  | .add => some (· + ·)
  | .sub => some (· - ·)
  | .mul => some (· * ·)
  | .bitAnd => some Int.land
  | .bitOr => some Int.lor
  | .bitXor => some Int.xor
  | _ => none

theorem lnot_eq (v : Int) : Int.lnot v = -v - 1 := by
  cases v with
  | ofNat n =>
    show Int.negSucc n = -(n : Int) - 1
    omega
  | negSucc n =>
    show (n : Int) = -Int.negSucc n - 1
    omega

/-- An operator on one integer gives the exact result, up to a multiple of the width. -/
theorem unary_residue {op : UnaryOp} {f : Int → Int} (hop : exactUnary? op = some f) (hk : k ≤ 128)
    (ha : a % pow2 k = a' % pow2 k) :
    ∃ w, ConstValue.unary op (.int a) = .ok (.int w) ∧ w % pow2 k = f a' % pow2 k := by
  cases op <;> cases hop
  case neg => exact ⟨_, rfl, (Wide.wrap_emod hk _).trans (Int.ModEq.neg ha)⟩
  case bitNot =>
    refine ⟨_, rfl, (Wide.wrap_emod hk _).trans ?_⟩
    rw [lnot_eq]
    exact Int.ModEq.sub_right 1 (Int.ModEq.neg ha)

/-- An operator on two integers gives the exact result, up to a multiple of the width. -/
theorem arithmetic_residue {op : BinaryOp} {f : Int → Int → Int} (hop : exactBinary? op = some f) (hk : k ≤ 128)
    (ha : a % pow2 k = a' % pow2 k) (hb : b % pow2 k = b' % pow2 k) :
    ∃ w, ConstValue.arithmetic op (.int a) (.int b) = .ok (.int w) ∧ w % pow2 k = f a' b' % pow2 k := by
  have hbits := (Wide.bits_emod hk a).trans ha
  have hbits' := (Wide.bits_emod hk b).trans hb
  cases op <;> cases hop
  case add => exact ⟨_, rfl, (Wide.wrap_emod hk _).trans (Int.ModEq.add ha hb)⟩
  case sub => exact ⟨_, rfl, (Wide.wrap_emod hk _).trans (Int.ModEq.sub ha hb)⟩
  case mul => exact ⟨_, rfl, (Wide.wrap_emod hk _).trans (Int.ModEq.mul ha hb)⟩
  case bitAnd =>
    refine ⟨_, rfl, (Wide.wrap_emod hk _).trans ?_⟩
    rw [← Int.bitwise_and, ← bitwise_emod and k hbits hbits', Int.bitwise_and]
    rfl
  case bitOr =>
    refine ⟨_, rfl, (Wide.wrap_emod hk _).trans ?_⟩
    rw [← Int.bitwise_or, ← bitwise_emod or k hbits hbits', Int.bitwise_or]
    rfl
  case bitXor =>
    refine ⟨_, rfl, (Wide.wrap_emod hk _).trans ?_⟩
    rw [← Int.bitwise_xor, ← bitwise_emod xor k hbits hbits', Int.bitwise_xor]
    rfl

namespace Program

variable {p : Program} {ty : Ty} {n : NodeId} {v : Int} {bits : Nat} {signed : Bool}

/-- The exact value of a tree of operators over integer literals, all of one type. What an operator gives may be marked
as a constant. -/
inductive Exact (p : Program) (ty : Ty) : NodeId → Int → Prop
  | literal {n : NodeId} {v : Int} {adaptable : Bool} : (p.node n).kind = .literal (.int v) adaptable →
    (p.node n).ty = ty → Exact p ty n v
  | constExpr {n inner : NodeId} {v : Int} : (p.node n).kind = .constExpr inner → (p.node n).ty = ty →
    p.isConstant inner = false → Exact p ty inner v → Exact p ty n v
  | unary {n operand : NodeId} {op : UnaryOp} {f : Int → Int} {v : Int} : (p.node n).kind = .unary op operand →
    (p.node n).ty = ty → exactUnary? op = some f → Exact p ty operand v → Exact p ty n (f v)
  | arithmetic {n left right : NodeId} {op : BinaryOp} {f : Int → Int → Int} {v w : Int} :
    (p.node n).kind = .arithmetic op left right → (p.node n).ty = ty → exactBinary? op = some f →
    Exact p ty left v → Exact p ty right w → Exact p ty n (f v w)

/-! ## The values of operators -/

theorem Ordered.evalUpTo_child (hp : p.Ordered) {m : NodeId} (hm : m ∈ (p.node n).kind.children) :
    p.evalUpTo n.index m = p.eval m := evalUpTo_eq hp _ _ m (hp n m hm) (Nat.lt_succ_self _)

theorem Ordered.eval_constExpr (hp : p.Ordered) {inner : NodeId} (hk : (p.node n).kind = .constExpr inner) :
    p.eval n = p.eval inner := by
  rw [eval, evalUpTo, hk]
  exact hp.evalUpTo_child (by simp [hk, NodeKind.children])

theorem Ordered.eval_unary (hp : p.Ordered) {op : UnaryOp} {operand : NodeId} {value : ConstValue}
    (hk : (p.node n).kind = .unary op operand) (h : p.eval operand = .ok value) :
    p.eval n = (ConstValue.unary op value).map (p.normalize · (p.node n).ty) := by
  have hchild : p.evalUpTo n.index operand = _ := hp.evalUpTo_child (by simp [hk, NodeKind.children])
  rw [h] at hchild
  rw [eval, evalUpTo, hk]
  simp only [hchild, bind, Except.bind]
  cases ConstValue.unary op value <;> rfl

theorem Ordered.eval_arithmetic (hp : p.Ordered) {op : BinaryOp} {left right : NodeId} {l r : ConstValue}
    (hk : (p.node n).kind = .arithmetic op left right) (hl : p.eval left = .ok l) (hr : p.eval right = .ok r) :
    p.eval n = (ConstValue.arithmetic op l r).map (p.normalize · (p.node n).ty) := by
  have hleft : p.evalUpTo n.index left = _ := hp.evalUpTo_child (by simp [hk, NodeKind.children])
  have hright : p.evalUpTo n.index right = _ := hp.evalUpTo_child (by simp [hk, NodeKind.children])
  rw [hl] at hleft
  rw [hr] at hright
  rw [eval, evalUpTo, hk]
  simp only [hleft, hright, bind, Except.bind]
  cases ConstValue.arithmetic op l r <;> rfl

theorem Ordered.eval_shift (hp : p.Ordered) {op : BinaryOp} {left right : NodeId}
    (hk : (p.node n).kind = .shift op left right) (hl : p.eval left = .ok (.int a)) (hr : p.eval right = .ok (.int b)) :
    p.eval n = p.evalShift op (p.node n).ty a b := by
  have hleft : p.evalUpTo n.index left = _ := hp.evalUpTo_child (by simp [hk, NodeKind.children])
  have hright : p.evalUpTo n.index right = _ := hp.evalUpTo_child (by simp [hk, NodeKind.children])
  rw [hl] at hleft
  rw [hr] at hright
  rw [eval, evalUpTo, hk]
  simp only [hleft, hright]
  rfl

theorem normalize_int (hty : p.constScalar? ty = some (.int bits signed)) (v : Int) :
    p.normalize (.int v) ty = .int (wrapInt v bits signed) := by
  simp only [normalize, hty]

/-- **The value of a tree is its exact value, up to a multiple of the width**, and what an operator gives is cut to the
type. -/
theorem Exact.eval (hp : p.Ordered) (h0 : 0 < bits) (hlt : bits < 128)
    (hty : p.constScalar? ty = some (.int bits signed)) (h : p.Exact ty n v) :
    ∃ w, p.eval n = .ok (.int w) ∧ w % pow2 bits = v % pow2 bits ∧
      (w = wrapInt v bits signed ∨ w = v ∧ ∃ adaptable, (p.node n).kind = .literal (.int v) adaptable) := by
  -- what an operator gives is cut, and only its residue counts for that
  have hcut : ∀ {r v : Int}, r % pow2 bits = v % pow2 bits →
      wrapInt r bits signed % pow2 bits = v % pow2 bits ∧ wrapInt r bits signed = wrapInt v bits signed := fun h =>
    ⟨(wrapInt_emod _ _ _).trans h, wrapInt_congr h0 hlt h signed⟩
  induction h with
  | literal hk _ => exact ⟨_, by simp [Program.eval, evalUpTo, hk], rfl, .inr ⟨rfl, _, hk⟩⟩
  | constExpr hk _ hnot _ ih =>
    obtain ⟨w, hw, hres, hcases⟩ := ih
    refine ⟨w, (hp.eval_constExpr hk).trans hw, hres, .inl (hcases.resolve_right ?_)⟩
    rintro ⟨-, adaptable, hliteral⟩
    simp [isConstant, hliteral] at hnot
  | unary hk hnode hop _ ih =>
    obtain ⟨w, hw, hres, -⟩ := ih
    obtain ⟨r, hr, hrres⟩ := unary_residue hop (Nat.le_of_lt hlt) hres
    refine ⟨wrapInt r bits signed, ?_, (hcut hrres).1, .inl (hcut hrres).2⟩
    rw [hp.eval_unary hk hw, hr, hnode, ← normalize_int hty]
    rfl
  | arithmetic hk hnode hop _ _ ihl ihr =>
    obtain ⟨l, hl, hlres, -⟩ := ihl
    obtain ⟨r, hr, hrres, -⟩ := ihr
    obtain ⟨x, hx, hxres⟩ := arithmetic_residue hop (Nat.le_of_lt hlt) hlres hrres
    refine ⟨wrapInt x bits signed, ?_, (hcut hxres).1, .inl (hcut hxres).2⟩
    rw [hp.eval_arithmetic hk hl hr, hx, hnode, ← normalize_int hty]
    rfl

/-! ## Division and shifts -/

theorem wrapInt_wrap (h0 : 0 < bits) (hlt : bits < 128) (v : Int) :
    wrapInt (Wide.wrap v) bits signed = wrapInt v bits signed :=
  wrapInt_congr h0 hlt (Wide.wrap_emod (Nat.le_of_lt hlt) v) signed

/-- The width of an integer type is a power of two. -/
theorem Standard.width_eq (hp : p.Standard) (h : p.constScalar? ty = some (.int bits signed)) :
    ∃ k ≤ 6, bits = pow2 k := by
  have hm := hp.mem_all_of_constScalar h
  simp only [Scalar.all, List.mem_cons, Scalar.int.injEq, reduceCtorEq, List.not_mem_nil, or_false, false_or] at hm
  rcases hm with hm | hm | hm | hm | hm | hm | hm | hm <;> obtain ⟨rfl, -⟩ := hm
  all_goals first | exact ⟨3, by decide, rfl⟩ | exact ⟨4, by decide, rfl⟩ | exact ⟨5, by decide, rfl⟩ |
    exact ⟨6, by decide, rfl⟩

/-- The amount of a shift is taken modulo the width. -/
theorem Standard.shift_amount (hp : p.Standard) (h : p.constScalar? ty = some (.int bits signed)) (amount : Int) :
    Wide.bits amount &&& (bits - 1) = (amount % bits).toNat := by
  obtain ⟨k, hk, rfl⟩ := hp.width_eq h
  have hmod : Wide.bits amount &&& (pow2 k - 1) = Wide.bits amount % pow2 k := Nat.and_two_pow_sub_one_eq_mod _ k
  have hres := Wide.bits_emod (show k ≤ 128 by omega) amount
  rw [hmod, ← hres]
  exact (Int.toNat_natCast _).symm

/-- The value of a node is an integer, reduced modulo a power of two into the range of a type. -/
def Yields (p : Program) (n : NodeId) (bits : Nat) (signed : Bool) (v : Int) : Prop :=
  ∃ w, p.eval n = .ok (.int w) ∧ InRange bits signed w ∧ w % 2 ^ bits = v % 2 ^ bits

theorem Yields.of_wrapInt (h0 : 0 < bits) (hlt : bits < 128) (h : p.eval n = .ok (.int (wrapInt v bits signed))) :
    p.Yields n bits signed v := by
  refine ⟨_, h, wrapInt_inRange h0 hlt v signed, ?_⟩
  rw [← natCast_pow2]
  exact wrapInt_emod v bits signed

/-- An operator that has no result for zero gives the exact result for any other number. -/
theorem Ordered.yields_division (ho : p.Ordered) (h0 : 0 < bits) (hlt : bits < 128)
    (hty : p.constScalar? (p.node n).ty = some (.int bits signed)) {op : BinaryOp} {left right : NodeId}
    (hk : (p.node n).kind = .arithmetic op left right) (hl : p.eval left = .ok (.int a)) (hr : p.eval right = .ok (.int b))
    {q : Int} (hop : ConstValue.intArithmetic op a b = if b = 0 then .error .divisionByZero else .ok (Wide.wrap q)) :
    (p.eval n = .error .divisionByZero ↔ b = 0) ∧ (b ≠ 0 → p.Yields n bits signed q) := by
  have hvalue := ho.eval_arithmetic hk hl hr
  rw [ConstValue.arithmetic, hop] at hvalue
  by_cases hb : b = 0
  · rw [if_pos hb] at hvalue
    exact ⟨iff_of_true hvalue hb, fun h => absurd hb h⟩
  · rw [if_neg hb] at hvalue
    refine ⟨iff_of_false (fun h => ?_) hb, fun _ => .of_wrapInt h0 hlt ?_⟩
    · cases hvalue.symm.trans h
    · rw [hvalue, ← wrapInt_wrap h0 hlt, ← normalize_int hty]
      rfl

/-- **Constant arithmetic is exact, and reduced once.** Take a type whose constants are integers of some width. The value
of a tree of operators over literals of this type is its exact value, reduced to the type. (A literal alone is not
reduced, so it has to be in the range of its type.) A quotient and a remainder are the exact ones, toward zero and
reduced to the type, and there is none just when the divisor is zero. A shift is a multiplication or a division by a power
of two, rounded down and reduced to the type, with the amount taken modulo the width. -/
theorem arithmetic_exact (hp : p.Standard) (ho : p.Ordered) (hty : p.constScalar? ty = some (.int bits signed)) :
    (∀ n v, p.Exact ty n v → ((∃ adaptable, (p.node n).kind = .literal (.int v) adaptable) → InRange bits signed v) →
      p.Yields n bits signed v) ∧
    ∀ n left right a b, (p.node n).ty = ty → p.eval left = .ok (.int a) → p.eval right = .ok (.int b) →
      ((p.node n).kind = .arithmetic .div left right →
        (p.eval n = .error .divisionByZero ↔ b = 0) ∧ (b ≠ 0 → p.Yields n bits signed (a.tdiv b))) ∧
      ((p.node n).kind = .arithmetic .rem left right →
        (p.eval n = .error .divisionByZero ↔ b = 0) ∧ (b ≠ 0 → p.Yields n bits signed (a.tmod b))) ∧
      ((p.node n).kind = .shift .shl left right → p.Yields n bits signed (a * 2 ^ (b % bits).toNat)) ∧
      ((p.node n).kind = .shift .shr left right → p.Yields n bits signed (a.fdiv (2 ^ (b % bits).toNat))) := by
  obtain ⟨h0, hle⟩ := hp.width hty
  have hlt : bits < 128 := by omega
  refine ⟨fun n v hexact hliteral => ?_, ?_⟩
  · obtain ⟨w, hw, -, hcut | ⟨rfl, hk⟩⟩ := hexact.eval ho h0 hlt hty
    · exact .of_wrapInt h0 hlt (hcut ▸ hw)
    · exact ⟨w, hw, hliteral hk, rfl⟩
  rintro n left right a b rfl hl hr
  refine ⟨fun hk => ho.yields_division h0 hlt hty hk hl hr rfl, fun hk => ho.yields_division h0 hlt hty hk hl hr rfl,
    fun hk => .of_wrapInt h0 hlt ?_, fun hk => .of_wrapInt h0 hlt ?_⟩ <;>
    rw [ho.eval_shift hk hl hr, evalShift, hty] <;>
    dsimp only [ConstValue.shift] <;>
    rw [normalize_int hty, hp.shift_amount hty]
  · rw [Wide.shiftLeft, wrapInt_wrap h0 hlt, natCast_pow2]
  · rw [Wide.shiftRight, natCast_pow2, Int.fdiv_eq_ediv_of_nonneg _ (Int.pow_nonneg (by decide))]

end Program

namespace BindState

open Sample

/-- A literal of a type that a suffix selects. -/
def suffixed (value : Nat) (suffix : String) : Syntax := node (.int value (IntSuffix.ofSpelling? suffix))

/-- A product that 128 bits do not hold, a quotient that its type does not hold, and a shift by more than the width. -/
def wideResults : Sample fun s =>
    ((s.program.node ⟨0⟩).kind = .literal (.int 18446744073709551615) false ∧ (s.program.node ⟨0⟩).ty = .int 64 false ∧
      (s.program.node ⟨1⟩).kind = .literal (.int 0) false ∧ (s.program.node ⟨1⟩).ty = .int 64 false ∧
      (s.program.node ⟨2⟩).kind = .unary .bitNot ⟨1⟩ ∧ (s.program.node ⟨2⟩).ty = .int 64 false ∧
      (s.program.node ⟨3⟩).kind = .constExpr ⟨2⟩ ∧ (s.program.node ⟨3⟩).ty = .int 64 false ∧
      (s.program.node ⟨4⟩).kind = .arithmetic .mul ⟨0⟩ ⟨3⟩ ∧ (s.program.node ⟨4⟩).ty = .int 64 false) ∧
    ((s.program.node ⟨7⟩).kind = .literal (.int (-2147483648)) false ∧
      (s.program.node ⟨8⟩).kind = .literal (.int (-1)) false ∧
      (s.program.node ⟨9⟩).kind = .arithmetic .div ⟨7⟩ ⟨8⟩ ∧ (s.program.node ⟨9⟩).ty = .int 32 true) ∧
    (s.program.node ⟨12⟩).kind = .literal (.int 3) false ∧ (s.program.node ⟨13⟩).kind = .literal (.int 255) false ∧
      (s.program.node ⟨14⟩).kind = .shift .shl ⟨12⟩ ⟨13⟩ ∧ (s.program.node ⟨14⟩).ty = .int 64 false where
  body :=
    [define "x" (node (.binary .mul (suffixed 18446744073709551615 "u64") (node (.unary .bitNot (suffixed 0 "u64"))))),
      define "y" (node (.binary .div (suffixed 2147483648 "i32") (suffixed 4294967295 "i32"))),
      define "z" (node (.binary .shl (suffixed 3 "u64") (suffixed 255 "u8")))]
  shown := by decide +kernel

/-- Over all integers, the product is `-(2 ^ 64 - 1)`, the quotient `2 ^ 31`, and the shift is one by `63` bits. -/
theorem wideResults_exact :
    let p := wideResults.state.program
    p.Yields ⟨4⟩ 64 false (-18446744073709551615) ∧ p.Yields ⟨9⟩ 32 true 2147483648 ∧ p.Yields ⟨14⟩ 64 false (3 * 2 ^ 63) := by
  obtain ⟨⟨hk0, ht0, hk1, ht1, hk2, ht2, hk3, ht3, hk4, ht4⟩, ⟨hk7, hk8, hk9, ht9⟩, hk12, hk13, hk14, ht14⟩ :=
    wideResults.holds
  have hp := wideResults.sound.program
  dsimp only
  generalize wideResults.state.program = p at *
  have hscalar : ∀ bits signed, .int bits signed ∈ Scalar.all → p.constScalar? (.int bits signed) = some (.int bits signed) :=
    fun _ _ hm => Program.constScalar?_of_scalar (hp.standard.scalar?_ofScalar hm)
  have hvalue : ∀ {n v adaptable}, (p.node n).kind = .literal (.int v) adaptable → p.eval n = .ok (.int v) := fun hk => by
    simp [Program.eval, Program.evalUpTo, hk]
  obtain ⟨htrees, hrest⟩ := Program.arithmetic_exact hp.standard hp.ordered (hscalar 64 false (by decide))
  obtain ⟨-, hquotients⟩ := Program.arithmetic_exact hp.standard hp.ordered (hscalar 32 true (by decide))
  refine ⟨?_, ?_, ?_⟩
  · have hmarked : p.Exact (.int 64 false) ⟨3⟩ (Int.lnot 0) :=
      .constExpr hk3 ht3 (by simp [Program.isConstant, hk2]) (.unary hk2 ht2 rfl (.literal hk1 ht1))
    exact htrees _ _ (.arithmetic (f := (· * ·)) hk4 ht4 rfl (.literal hk0 ht0) hmarked) (by simp [hk4])
  · exact ((hquotients _ _ _ _ _ ht9 (hvalue hk7) (hvalue hk8)).1 hk9).2 (by decide)
  · exact (hrest _ _ _ _ _ ht14 (hvalue hk12) (hvalue hk13)).2.2.1 hk14

end BindState

end Bindery
