import Mathlib

set_option autoImplicit false

/-! # Text as character lists, and decimal numerals -/
namespace JsrProxy

abbrev Str := List Char

abbrev Bytes := List UInt8

namespace Text

/-- The decimal numeral of an integer, as both runtimes print it. -/
def decimal (n : ℤ) : Str :=
  if n < 0 then '-' :: Nat.toDigits 10 n.natAbs else Nat.toDigits 10 n.natAbs

theorem toDigits_inj {m n : ℕ} (h : Nat.toDigits 10 m = Nat.toDigits 10 n) : m = n := by
  have hm := Nat.ofDigitChars_toDigits (b := 10) (n := m) (by decide) (by decide)
  have hn := Nat.ofDigitChars_toDigits (b := 10) (n := n) (by decide) (by decide)
  rw [← hm, ← hn, h]

theorem isDigit_of_mem_toDigits {n : ℕ} {c : Char} (h : c ∈ Nat.toDigits 10 n) :
    c.isDigit = true :=
  Nat.isDigit_of_mem_toDigits (by decide) (by decide) h

theorem toDigits_ne_nil (n : ℕ) : Nat.toDigits 10 n ≠ [] := by
  rw [Nat.toDigits_eq_if (by decide)]
  split <;> simp

theorem decimal_of_nonneg {n : ℤ} (h : 0 ≤ n) : decimal n = Nat.toDigits 10 n.natAbs := by
  rw [decimal, if_neg (by omega)]

theorem decimal_ne_nil (n : ℤ) : decimal n ≠ [] := by
  unfold decimal
  split
  · exact List.cons_ne_nil _ _
  · exact toDigits_ne_nil _

theorem isDigit_of_mem_decimal {n : ℤ} (h : 0 ≤ n) {c : Char} (hc : c ∈ decimal n) :
    c.isDigit = true := by
  rw [decimal_of_nonneg h] at hc
  exact isDigit_of_mem_toDigits hc

theorem mem_decimal {n : ℤ} {c : Char} (hc : c ∈ decimal n) : c = '-' ∨ c.isDigit = true := by
  unfold decimal at hc
  split at hc
  · rcases List.mem_cons.1 hc with h | h
    · exact .inl h
    · exact .inr (isDigit_of_mem_toDigits h)
  · exact .inr (isDigit_of_mem_toDigits hc)

theorem not_mem_decimal {n : ℤ} {c : Char} (hm : c ≠ '-') (hd : c.isDigit = false) :
    c ∉ decimal n := by
  intro hc
  rcases mem_decimal hc with h | h
  · exact hm h
  · rw [hd] at h
    exact Bool.false_ne_true h

theorem decimal_inj {m n : ℤ} (h : decimal m = decimal n) : m = n := by
  have hminus : ∀ k : ℕ, '-' ∉ Nat.toDigits 10 k := by
    intro k hk
    exact absurd (isDigit_of_mem_toDigits hk) (by decide)
  unfold decimal at h
  split at h <;> split at h
  · have := toDigits_inj (List.cons.inj h).2
    omega
  · exact absurd (h ▸ List.mem_cons_self) (hminus _)
  · exact absurd (h ▸ List.mem_cons_self) (hminus _)
  · have := toDigits_inj h
    omega

theorem isAlphanum_ascii {c : Char} (h : c.isAlphanum = true) : c.toNat < 0x80 := by
  simp only [Char.isAlphanum, Char.isAlpha, Char.isUpper, Char.isLower, Char.isDigit,
    Bool.or_eq_true, Bool.and_eq_true, decide_eq_true_eq, ge_iff_le, UInt32.le_iff_toNat_le] at h
  change ((65 ≤ c.toNat ∧ c.toNat ≤ 90) ∨ (97 ≤ c.toNat ∧ c.toNat ≤ 122)) ∨
    (48 ≤ c.toNat ∧ c.toNat ≤ 57) at h
  omega

theorem digitChar_of_isDigit {c : Char} (h : c.isDigit = true) :
    c.toNat - '0'.toNat < 10 ∧ Nat.digitChar (c.toNat - '0'.toNat) = c := by
  have hrange : 48 ≤ c.toNat ∧ c.toNat ≤ 57 := by
    simpa [Char.isDigit, UInt32.le_iff_toNat_le] using h
  have hlt : c.toNat - '0'.toNat < 10 := by
    change c.toNat - 48 < 10
    omega
  refine ⟨hlt, ?_⟩
  apply Char.toNat_inj.1
  rw [Nat.toNat_digitChar_of_lt_ten hlt]
  change 48 + (c.toNat - 48) = c.toNat
  omega

/-- Digits read after a positive number print as the number followed by them. -/
theorem toDigits_ofDigitChars {digits : Str} (h : ∀ c ∈ digits, c.isDigit = true) {n : ℕ}
    (hn : 0 < n) :
    Nat.toDigits 10 (Nat.ofDigitChars 10 digits n) = Nat.toDigits 10 n ++ digits := by
  induction digits generalizing n with
  | nil => rw [Nat.ofDigitChars_nil, List.append_nil]
  | cons c digits ih =>
    obtain ⟨hlt, hc⟩ := digitChar_of_isDigit (h c List.mem_cons_self)
    have hstep := Nat.toDigits_append_toDigits (b := 10) (n := n) (by decide) hn hlt
    rw [Nat.toDigits_of_lt_base hlt, hc] at hstep
    rw [Nat.ofDigitChars_cons, ih (fun d hd => h d (List.mem_cons_of_mem _ hd)) (by omega),
      ← hstep, List.append_assoc, List.singleton_append]

theorem split_at_first {α : Type} {a : α} {xs ys s t : List α} (hx : a ∉ xs) (hy : a ∉ ys)
    (h : xs ++ a :: s = ys ++ a :: t) : xs = ys ∧ s = t := by
  induction xs generalizing ys with
  | nil =>
    cases ys with
    | nil => exact ⟨rfl, (List.cons.inj h).2⟩
    | cons y ys => exact absurd (List.mem_cons.2 (.inl (List.cons.inj h).1)) hy
  | cons x xs ih =>
    cases ys with
    | nil => exact absurd (List.mem_cons.2 (.inl (List.cons.inj h).1.symm)) hx
    | cons y ys =>
      obtain ⟨hxy, hrest⟩ := List.cons.inj h
      have hx' : a ∉ xs := fun hm => hx (List.mem_cons_of_mem _ hm)
      have hy' : a ∉ ys := fun hm => hy (List.mem_cons_of_mem _ hm)
      obtain ⟨rfl, rfl⟩ := ih hx' hy' hrest
      exact ⟨by rw [hxy], rfl⟩

theorem split_at_last {α : Type} {a : α} {xs ys s t : List α} (hs : a ∉ s) (ht : a ∉ t)
    (h : xs ++ a :: s = ys ++ a :: t) : xs = ys ∧ s = t := by
  have hr : s.reverse ++ a :: xs.reverse = t.reverse ++ a :: ys.reverse := by
    simpa using congrArg List.reverse h
  obtain ⟨h1, h2⟩ := split_at_first (by simpa using hs) (by simpa using ht) hr
  exact ⟨List.reverse_injective h2, List.reverse_injective h1⟩

end Text
end JsrProxy
