import Mathlib

set_option autoImplicit false

/-!
# Integer arithmetic on binary64 numbers

An integer-valued double is kept as the integer it denotes. Results are rounded
to 53 significant bits, ties to even, so increments stop being exact at `2^53`.
Exponent overflow is not represented: a number from `2^1024` on stays an integer.
-/
namespace JsrProxy.Doubles

/-- The largest integer `n` such that `n` and `n + 1` are both exact. -/
def maxSafeInteger : ℤ := 2 ^ 53 - 1

def isSafeInteger (n : ℤ) : Bool := -maxSafeInteger ≤ n && n ≤ maxSafeInteger

/-- Round a magnitude to 53 significant bits, ties to even. -/
def roundMagnitude (n : ℕ) : ℕ :=
  let unit := 2 ^ (Nat.log2 n - 52)
  let low := n / unit
  let rest := n % unit
  if unit < 2 * rest ∨ (2 * rest = unit ∧ low % 2 = 1) then (low + 1) * unit else low * unit

def round (z : ℤ) : ℤ := if z < 0 then -(roundMagnitude z.natAbs : ℤ) else roundMagnitude z.natAbs

def add (a b : ℤ) : ℤ := round (a + b)

def mul (a b : ℤ) : ℤ := round (a * b)

theorem isSafeInteger_iff (n : ℤ) :
    isSafeInteger n = true ↔ -maxSafeInteger ≤ n ∧ n ≤ maxSafeInteger := by
  simp [isSafeInteger]

theorem log2_le_of_lt (n : ℕ) (h : n < 2 ^ 53) : Nat.log2 n ≤ 52 := by
  by_cases hn : n = 0
  · simp [hn, Nat.log2]
  · have := (Nat.log2_lt hn).2 h
    omega

theorem roundMagnitude_of_lt (n : ℕ) (h : n < 2 ^ 53) : roundMagnitude n = n := by
  have hs : Nat.log2 n - 52 = 0 := by
    have := log2_le_of_lt n h
    omega
  simp [roundMagnitude, hs, Nat.mod_one]

theorem round_of_nonneg (z : ℤ) (h0 : 0 ≤ z) (h : z ≤ 2 ^ 53) : round z = z := by
  have hneg : ¬ z < 0 := by omega
  rw [round, if_neg hneg]
  by_cases he : z = 2 ^ 53
  · subst he
    decide
  · rw [roundMagnitude_of_lt z.natAbs (by omega)]
    omega

/-- Counting up is exact as long as the result is at most `2^53`. -/
theorem add_one_of_lt (n : ℤ) (h0 : -1 ≤ n) (h : n < 2 ^ 53) : add n 1 = n + 1 :=
  round_of_nonneg (n + 1) (by omega) (by omega)

/-- At `2^53` the increment is lost: `2^53 + 1` is half way and rounds to even. -/
theorem add_one_saturates : add (2 ^ 53) 1 = 2 ^ 53 := by decide

theorem two_pow_53_le_roundMagnitude {n : ℕ} (h : 2 ^ 53 ≤ n) : 2 ^ 53 ≤ roundMagnitude n := by
  have hn : n ≠ 0 := by
    have : 0 < 2 ^ 53 := by decide
    omega
  have hlog : 53 ≤ Nat.log2 n := (Nat.le_log2 hn).2 h
  have hpow : 2 ^ Nat.log2 n = 2 ^ 52 * 2 ^ (Nat.log2 n - 52) := by
    rw [← pow_add]
    congr 1
    omega
  have hlow : 2 ^ 52 ≤ n / 2 ^ (Nat.log2 n - 52) := by
    rw [Nat.le_div_iff_mul_le (Nat.two_pow_pos _), ← hpow]
    exact Nat.log2_self_le hn
  have hunit : 2 ≤ 2 ^ (Nat.log2 n - 52) := by
    calc 2 = 2 ^ 1 := rfl
      _ ≤ 2 ^ (Nat.log2 n - 52) := Nat.pow_le_pow_right (by decide) (by omega)
  have hbound : 2 ^ 53 ≤ n / 2 ^ (Nat.log2 n - 52) * 2 ^ (Nat.log2 n - 52) := by
    calc 2 ^ 53 = 2 ^ 52 * 2 := rfl
      _ ≤ _ := Nat.mul_le_mul hlow hunit
  unfold roundMagnitude
  dsimp only
  split
  · exact hbound.trans (Nat.mul_le_mul_right _ (Nat.le_succ _))
  · exact hbound

theorem round_safe {n : ℕ} (h : isSafeInteger (round n) = true) : round n = n ∧ n < 2 ^ 53 := by
  have hn : n < 2 ^ 53 := by
    by_contra hge
    have hround := two_pow_53_le_roundMagnitude (Nat.le_of_not_lt hge)
    have hmax := ((isSafeInteger_iff _).1 h).2
    have hsign : ¬ ((n : ℤ) < 0) := by omega
    rw [round, if_neg hsign, Int.natAbs_natCast] at hmax
    unfold maxSafeInteger at hmax
    omega
  exact ⟨round_of_nonneg n (by omega) (by omega), hn⟩

end JsrProxy.Doubles
