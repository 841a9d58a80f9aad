import Bindery.Binding.Convert
import Mathlib.Algebra.Group.Int.Defs
/-!
# Integers of a width

A constant is cut to the width of its type by masking the lowest of its 128 bits and, for a signed type, by taking the
highest of those as the sign. That is arithmetic modulo a power of two, for negative integers too: the mask gives the
remainder (`Wide.bits_and_mask`), and the sign is set just from half the modulus on (`testBit_iff`). So a cut integer is
the one representative of its residue that the type holds, and of several cuts only the narrowest counts.
-/
namespace Bindery

theorem natCast_pow2 (n : Nat) : (pow2 n : Int) = 2 ^ n := Int.natCast_pow 2 n

theorem pow2_dvd {n m : Nat} (h : n ≤ m) : (pow2 n : Int) ∣ pow2 m := by
  exact_mod_cast Nat.pow_dvd_pow 2 h

theorem two_pow_le {n m : Nat} (h : n ≤ m) : (2 : Int) ^ n ≤ 2 ^ m := by
  exact_mod_cast Nat.pow_le_pow_right (by decide) h

/-- The highest bit of a number of `n + 1` bits is set just from half the modulus on. -/
theorem testBit_iff {n raw : Nat} (h : raw < pow2 (n + 1)) : raw.testBit n ↔ pow2 n ≤ raw := by
  refine ⟨fun hbit => Nat.le_of_not_lt fun hlt => ?_,
    fun hle => Nat.testBit_of_two_pow_le_and_two_pow_add_one_gt hle h⟩
  rw [Nat.testBit_lt_two_pow hlt] at hbit
  cases hbit

/-! ## Words of 128 bits -/

namespace Wide

variable {k : Nat}

/-- Computing in 128 bits keeps the residue of any smaller width. -/
theorem wrap_emod (hk : k ≤ 128) (v : Int) : wrap v % pow2 k = v % pow2 k := by
  rw [wrap, ← Int.emod_emod_of_dvd _ (pow2_dvd hk), Int.bmod_emod, Int.emod_emod_of_dvd _ (pow2_dvd hk)]

theorem bits_emod (hk : k ≤ 128) (v : Int) : (bits v : Int) % pow2 k = v % pow2 k := by
  have hpos : (0 : Int) < pow2 128 := by exact_mod_cast pow2_pos 128
  rw [bits, Int.toNat_of_nonneg (Int.emod_nonneg _ (Int.ne_of_gt hpos)), Int.emod_emod_of_dvd _ (pow2_dvd hk)]

/-- **Masking the lowest bits is taking the remainder**, also of a negative integer. -/
theorem bits_and_mask (hk : k ≤ 128) (v : Int) : ((bits v &&& (pow2 k - 1) : Nat) : Int) = v % pow2 k := by
  have hmod : bits v &&& (pow2 k - 1) = bits v % pow2 k := Nat.and_two_pow_sub_one_eq_mod _ k
  rw [hmod, Int.natCast_emod, bits_emod hk]

end Wide

/-! ## Cutting to a width -/

variable {v w : Int} {bits bits' : Nat}

/-- **Masking and taking the highest bit as the sign is arithmetic modulo a power of two.** -/
theorem wrapInt_succ {n : Nat} (hlt : n + 1 < 128) (v : Int) (signed : Bool) : wrapInt v (n + 1) signed =
    if signed ∧ 2 ^ n ≤ v % (2 ^ n * 2) then v % (2 ^ n * 2) - 2 ^ n * 2 else v % (2 ^ n * 2) := by
  have hpos : (0 : Int) < pow2 (n + 1) := by exact_mod_cast pow2_pos (n + 1)
  have hraw := Wide.bits_and_mask (Nat.le_of_lt hlt) v
  have hbound : Wide.bits v &&& (pow2 (n + 1) - 1) < pow2 (n + 1) := by
    have := Int.emod_lt_of_pos v hpos
    omega
  have hsign : (Wide.bits v &&& (pow2 (n + 1) - 1)).testBit n ↔ (2 : Int) ^ n ≤ v % (2 ^ n * 2) := by
    rw [testBit_iff hbound, ← Int.ofNat_le, hraw, natCast_pow2, natCast_pow2, Int.pow_succ]
  unfold wrapInt
  rw [if_neg (by omega)]
  simp only [Nat.add_sub_cancel, hsign, hraw, natCast_pow2, Int.pow_succ]

/-- The integers of a width, signed or unsigned. -/
def InRange (bits : Nat) (signed : Bool) (v : Int) : Prop :=
  if signed then -2 ^ (bits - 1) ≤ v ∧ v < 2 ^ (bits - 1) else 0 ≤ v ∧ v < 2 ^ bits

instance (bits : Nat) (signed : Bool) (v : Int) : Decidable (InRange bits signed v) :=
  inferInstanceAs (Decidable (if signed then _ else _))

theorem wrapInt_inRange (h0 : 0 < bits) (hlt : bits < 128) (v : Int) (signed : Bool) :
    InRange bits signed (wrapInt v bits signed) := by
  obtain ⟨n, rfl⟩ : ∃ n, bits = n + 1 := ⟨bits - 1, by omega⟩
  have hpos : (0 : Int) < 2 ^ n := Int.pow_pos (by decide)
  have hlow := Int.emod_nonneg v (show (2 ^ n * 2 : Int) ≠ 0 by omega)
  have hhigh := Int.emod_lt_of_pos v (show (0 : Int) < 2 ^ n * 2 by omega)
  rw [wrapInt_succ hlt, InRange, Int.pow_succ, Nat.add_sub_cancel]
  cases signed
  · simpa using ⟨hlow, hhigh⟩
  · simp only [true_and, if_true]
    split <;> omega

theorem InRange.bound {signed : Bool} (h : InRange bits signed v) (hb : bits ≤ 64) : -2 ^ 64 < v ∧ v < 2 ^ 64 := by
  have hall := two_pow_le hb
  have hhalf := two_pow_le (show bits - 1 ≤ 63 by omega)
  cases signed <;> simp only [InRange, Bool.false_eq_true, if_false, if_true] at h <;> omega

/-- A wider type of the same sign holds more. -/
theorem InRange.widen {signed : Bool} (h : InRange bits signed v) (hle : bits ≤ bits') : InRange bits' signed v := by
  have hall := two_pow_le hle
  have hhalf := two_pow_le (show bits - 1 ≤ bits' - 1 by omega)
  cases signed <;> simp only [InRange, Bool.false_eq_true, if_false, if_true] at h ⊢ <;> omega

/-- **An integer is in range just when cutting it to the width leaves it as it is.** -/
theorem inRange_iff (h0 : 0 < bits) (hlt : bits < 128) {signed : Bool} :
    InRange bits signed v ↔ wrapInt v bits signed = v := by
  refine ⟨fun hv => ?_, fun h => h ▸ wrapInt_inRange h0 hlt v signed⟩
  obtain ⟨n, rfl⟩ : ∃ n, bits = n + 1 := ⟨bits - 1, by omega⟩
  rw [InRange, Int.pow_succ, Nat.add_sub_cancel] at hv
  rw [wrapInt_succ hlt]
  cases signed
  · simp only [Bool.false_eq_true, if_false, false_and] at hv ⊢
    exact Int.emod_eq_of_lt hv.1 hv.2
  · simp only [if_true, true_and] at hv ⊢
    by_cases h : 0 ≤ v
    · rw [Int.emod_eq_of_lt h (by omega), if_neg (by omega)]
    · -- a negative number has its residue one round further
      have hv' : v % (2 ^ n * 2) = v + 2 ^ n * 2 := by
        rw [← Int.add_emod_right, Int.emod_eq_of_lt (by omega) (by omega)]
      rw [hv', if_pos (by omega)]
      omega

/-! ## Residues -/

/-- Cutting an integer keeps its residue. -/
theorem wrapInt_emod (v : Int) (bits : Nat) (signed : Bool) : wrapInt v bits signed % pow2 bits = v % pow2 bits := by
  by_cases hwidth : bits = 0 ∨ 128 ≤ bits
  · rw [wrapInt, if_pos hwidth]
  · obtain ⟨n, rfl⟩ : ∃ n, bits = n + 1 := ⟨bits - 1, by omega⟩
    rw [wrapInt_succ (by omega), natCast_pow2, Int.pow_succ]
    split
    · rw [Int.sub_emod, Int.emod_self, Int.sub_zero, Int.emod_emod, Int.emod_emod]
    · exact Int.emod_emod _ _

/-- Only the residue decides what an integer is cut to. -/
theorem wrapInt_congr (h0 : 0 < bits) (hlt : bits < 128) (h : v % pow2 bits = w % pow2 bits) (signed : Bool) :
    wrapInt v bits signed = wrapInt w bits signed := by
  obtain ⟨n, rfl⟩ : ∃ n, bits = n + 1 := ⟨bits - 1, by omega⟩
  rw [natCast_pow2, Int.pow_succ] at h
  rw [wrapInt_succ hlt, wrapInt_succ hlt, h]

/-- Of two cuts the narrower one decides, whatever the sign of the wider one. -/
theorem wrapInt_wrapInt (h0 : 0 < bits') (hlt : bits' < 128) (hle : bits' ≤ bits) (v : Int) (signed signed' : Bool) :
    wrapInt (wrapInt v bits signed) bits' signed' = wrapInt v bits' signed' := by
  refine wrapInt_congr h0 hlt ?_ signed'
  rw [← Int.emod_emod_of_dvd _ (pow2_dvd hle), wrapInt_emod, Int.emod_emod_of_dvd _ (pow2_dvd hle)]

/-- A representative in the range of the type is the one that cutting gives. -/
theorem eq_wrapInt (h0 : 0 < bits) (hlt : bits < 128) {signed : Bool} (hres : w % pow2 bits = v % pow2 bits)
    (hw : InRange bits signed w) : w = wrapInt v bits signed := by
  rw [← wrapInt_congr h0 hlt hres, (inRange_iff h0 hlt).1 hw]

/-- **A cut integer is the one representative of its residue in the range of the type.** So an integer stays as it is
just when the type holds it, and that is when a literal takes the type; cutting again changes nothing; and of two cuts
the narrower one decides. -/
theorem wrapInt_canonical (v : Int) {bits : Nat} (h0 : 1 ≤ bits) (hle : bits ≤ 64) (signed : Bool) :
    (∀ w, w = wrapInt v bits signed ↔ w % 2 ^ bits = v % 2 ^ bits ∧ InRange bits signed w) ∧
    (wrapInt v bits signed = v ↔ InRange bits signed v) ∧
    (∀ (p : Program) (n : NodeId) (target : Ty), p.adaptableInt? n = some v →
      p.scalar? target = some (.int bits signed) → (p.adaptsTo n target ↔ InRange bits signed v)) ∧
    wrapInt (wrapInt v bits signed) bits signed = wrapInt v bits signed ∧
    ∀ bits' signed', 1 ≤ bits' → bits' ≤ bits →
      wrapInt (wrapInt v bits signed) bits' signed' = wrapInt v bits' signed' := by
  have hlt : bits < 128 := by omega
  have hfits : wrapInt v bits signed = v ↔ InRange bits signed v := (inRange_iff h0 hlt).symm
  refine ⟨fun w => ?_, hfits, fun p n target hn htarget => ?_, wrapInt_wrapInt h0 hlt (Nat.le_refl bits) v _ _,
    fun bits' signed' h0' hle' => wrapInt_wrapInt h0' (by omega) hle' v signed signed'⟩
  · rw [← natCast_pow2]
    constructor
    · rintro rfl
      exact ⟨wrapInt_emod v bits signed, wrapInt_inRange h0 hlt v signed⟩
    · rintro ⟨hres, hw⟩
      exact eq_wrapInt h0 hlt hres hw
  · rw [← hfits, Program.adaptsTo, hn, htarget]
    exact beq_iff_eq

/-- A byte of ones is `-1` in eight signed bits, and its first four bits are kept by either cut. -/
theorem ones_canonical : wrapInt 255 8 true = -1 ∧ (255 : Int) % 2 ^ 8 = -1 % 2 ^ 8 ∧ ¬ InRange 8 true 255 ∧
    wrapInt (wrapInt 255 8 true) 4 false = wrapInt 255 4 false := by
  have h := wrapInt_canonical 255 (show 1 ≤ 8 by decide) (show 8 ≤ 64 by decide) true
  have hones : -1 = wrapInt 255 8 true := by decide
  refine ⟨hones.symm, ((h.1 (-1)).1 hones).1.symm, fun hr => ?_, h.2.2.2.2 4 false (by decide) (by decide)⟩
  have hsame := h.2.1.2 hr
  rw [← hones] at hsame
  exact absurd hsame (by decide)

end Bindery
