/-!
# Powers of two and ten

The bounds of number formats. Both are functions of their own, so that a bound reads the same wherever it is used.
-/
namespace Bindery

/-- The power of two with an exponent. -/
def pow2 (exponent : Nat) : Nat := Nat.pow 2 exponent

/-- The power of ten with an exponent. -/
def pow10 (exponent : Nat) : Nat := Nat.pow 10 exponent

theorem pow2_zero : pow2 0 = 1 := rfl

theorem pow2_succ (n : Nat) : pow2 (n + 1) = pow2 n * 2 := rfl

theorem pow2_pos : ∀ n, 0 < pow2 n
  | 0 => Nat.one_pos
  | n + 1 => by rw [pow2_succ]; exact Nat.mul_pos (pow2_pos n) (by decide)

theorem pow10_succ (n : Nat) : pow10 (n + 1) = pow10 n * 10 := rfl

theorem pow10_pos : ∀ n, 0 < pow10 n
  | 0 => Nat.one_pos
  | n + 1 => by rw [pow10_succ]; exact Nat.mul_pos (pow10_pos n) (by decide)

end Bindery
