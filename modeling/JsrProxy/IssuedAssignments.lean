import JsrProxy.PackageRegistryRuns

set_option autoImplicit false

/-!
# Issued assignments

What an allocator holds, and the order in which it came to hold it. Below the
bound where doubles stop counting, a new sequence is above every earlier one of
its major, so equal sequences of a major are one assignment.
-/
namespace JsrProxy
open Branches Executions

namespace VersionAllocator

def Held (allocator : VersionAllocator) (x : VersionAssignment) : Prop :=
  x ∈ allocator.snapshot.assignments

theorem held_iff {allocator : VersionAllocator} (h : allocator.Coherent) (x : VersionAssignment) :
    allocator.Held x ↔ (allocator.forMajor x.major).assignments.get? (key x.commitSha x.attempt)
      = some x := by
  rw [Held, mem_snapshot]
  constructor
  · rintro ⟨major, k, hk⟩
    have hmajor := ((h major).ofMajor k x hk).1
    have hkey := (h major).filed k x hk
    rw [hmajor, ← hkey]
    exact hk
  · intro hx
    exact ⟨x.major, _, hx⟩

theorem held_of_get? {allocator : VersionAllocator} {major : ℤ} {k : Str} {x : VersionAssignment}
    (hx : (allocator.forMajor major).assignments.get? k = some x) : allocator.Held x :=
  (mem_snapshot x).2 ⟨major, k, hx⟩

theorem Held.below {allocator : VersionAllocator} (h : allocator.Coherent) {x : VersionAssignment}
    (hx : allocator.Held x) : x.sequence ≤ (allocator.forMajor x.major).highWater :=
  ((h x.major).below _ x ((held_iff h x).1 hx)).2

def InRange (allocator : VersionAllocator) : Prop :=
  ∀ x, allocator.Held x → x.sequence ≤ Doubles.maxSafeInteger

theorem InRange.highWater {allocator : VersionAllocator} (h : allocator.Coherent)
    (hr : allocator.InRange) (m : ℤ) : (allocator.forMajor m).highWater < 2 ^ 53 := by
  rcases (h m).reached with he | ⟨k, x, hx, hs⟩
  · omega
  · have hle := hr x (held_of_get? hx)
    have hmax : Doubles.maxSafeInteger = 2 ^ 53 - 1 := rfl
    omega

theorem inRange_of_grows {a b : VersionAllocator} (ha : a.Coherent) (hb : b.Coherent)
    (hg : a.Grows b) (hr : b.InRange) : a.InRange := by
  intro x hx
  have h1 := Held.below ha hx
  have h2 := hg.highWater x.major
  have h3 := InRange.highWater hb hr x.major
  have hmax : Doubles.maxSafeInteger = 2 ^ 53 - 1 := rfl
  omega

/-- In range, equal sequences of a major are equal assignments, and a commit has had
    no more attempts than its sequence counts. -/
structure Exact (allocator : VersionAllocator) : Prop where
  coherent : allocator.Coherent
  distinct : ∀ x y, allocator.Held x → allocator.Held y → x.major = y.major →
    x.sequence = y.sequence → x = y
  attempts : ∀ x, allocator.Held x → x.attempt ≤ x.sequence

theorem exact_new : new.Exact where
  coherent := coherent_new
  distinct x y hx := by simp [held_iff coherent_new, forMajor_new, MajorAllocations.fresh] at hx
  attempts x hx := by simp [held_iff coherent_new, forMajor_new, MajorAllocations.fresh] at hx

/-- `log` lists with their timestamps, in order, the assignments that `after` holds
    beyond those of `before`. -/
structure Issued (before after : VersionAllocator) (log : List (VersionAssignment × ℤ)) : Prop where
  rises : ∀ e ∈ log, ∀ y, before.Held y → y.major = e.1.major → y.sequence < e.1.sequence
  ordered : log.Pairwise fun d e => d.1.major = e.1.major → d.1.sequence < e.1.sequence
  stamped : ∀ e ∈ log, e.2 ≤ e.1.sequence
  held : ∀ x, after.Held x ↔ before.Held x ∨ ∃ e ∈ log, e.1 = x

theorem issued_nil {a b : VersionAllocator} (h : ∀ x, b.Held x ↔ a.Held x) : Issued a b [] where
  rises e he := by cases he
  ordered := List.Pairwise.nil
  stamped e he := by cases he
  held x := by simp [h x]

theorem Issued.append {a b c : VersionAllocator} {log log' : List (VersionAssignment × ℤ)}
    (h : Issued a b log) (h' : Issued b c log') : Issued a c (log ++ log') where
  rises e he y hy hm := by
    rcases List.mem_append.1 he with he | he
    · exact h.rises e he y hy hm
    · exact h'.rises e he y ((h.held y).2 (.inl hy)) hm
  ordered := by
    rw [List.pairwise_append]
    refine ⟨h.ordered, h'.ordered, ?_⟩
    intro d hd e he hm
    exact h'.rises e he d.1 ((h.held d.1).2 (.inr ⟨d, hd, rfl⟩)) hm
  stamped e he := by
    rcases List.mem_append.1 he with he | he
    · exact h.stamped e he
    · exact h'.stamped e he
  held x := by
    rw [h'.held, h.held, or_assoc]
    apply or_congr_right
    simp only [List.mem_append, or_and_right, exists_or]

theorem held_congr {a b : VersionAllocator}
    (h : ∀ m k, (b.forMajor m).assignments.get? k = (a.forMajor m).assignments.get? k)
    (x : VersionAssignment) : b.Held x ↔ a.Held x := by
  simp only [Held, mem_snapshot, h]

theorem held_touch (allocator : VersionAllocator) (major : ℤ) (x : VersionAssignment) :
    (allocator.setMajor major (allocator.forMajor major)).Held x ↔ allocator.Held x :=
  held_congr (fun m k => by rw [forMajor_touch]) x

theorem Exact.of_held {a b : VersionAllocator} (h : a.Exact) (hb : b.Coherent)
    (he : ∀ x, b.Held x ↔ a.Held x) : b.Exact where
  coherent := hb
  distinct x y hx hy := h.distinct x y ((he x).1 hx) ((he y).1 hy)
  attempts x hx := h.attempts x ((he x).1 hx)

section Appending

variable {allocator : VersionAllocator} {major committedAt attempt : ℤ} {commitSha : Str}

theorem append_fresh (h : allocator.Coherent)
    (hn : ∀ n, (allocator.forMajor major).currentAttempts.get? commitSha = some n → n < attempt) :
    (allocator.forMajor major).assignments.get? (key commitSha attempt) = none := by
  cases hx : (allocator.forMajor major).assignments.get? (key commitSha attempt) with
  | none => rfl
  | some x =>
    obtain ⟨hc, ha⟩ := (h major).filed_at hx
    obtain ⟨n, hcur, hle⟩ := (h major).latest _ x hx
    rw [hc] at hcur
    have := hn n hcur
    omega

theorem held_append (h : allocator.Coherent)
    (hv : validateInputs major commitSha committedAt = .ok ()) (hrange : 0 ≤ attempt ∧ attempt ≤ 2 ^ 53)
    (hn : ∀ n, (allocator.forMajor major).currentAttempts.get? commitSha = some n → n < attempt)
    (x : VersionAssignment) :
    (allocator.setMajor major
      (append (allocator.forMajor major) major commitSha committedAt attempt).2).Held x ↔
      allocator.Held x ∨
        (append (allocator.forMajor major) major commitSha committedAt attempt).1 = x := by
  have hfree := append_fresh h hn
  have hcoherent := (h major).append hv hrange (fun n hc => (hn n hc).le)
  rw [held_iff (h.setMajor hcoherent), held_iff h, forMajor_setMajor]
  constructor
  · intro hx
    split_ifs at hx with hm
    · simp only [append, OrderedMap.get?_set] at hx
      split_ifs at hx with hk
      · exact .inr (Option.some.inj hx)
      · exact .inl (hm ▸ hx)
    · exact .inl hx
  · rintro (hx | rfl)
    · split_ifs with hm
      · simp only [append, OrderedMap.get?_set]
        rw [if_neg]
        · exact hm ▸ hx
        · intro hk
          rw [hk, hm, hfree] at hx
          cases hx
      · exact hx
    · change (if major = major then _ else _ : MajorAllocations).assignments.get? _ = _
      rw [if_pos rfl]
      exact OrderedMap.get?_set_self _ _ _

theorem nextSequence_above (h : allocator.Coherent)
    (hv : validateInputs major commitSha committedAt = .ok ())
    (hmark : (allocator.forMajor major).highWater < 2 ^ 53) (y : VersionAssignment)
    (hy : allocator.Held y) (hm : y.major = major) :
    y.sequence < nextSequence (allocator.forMajor major) committedAt := by
  obtain ⟨-, -, hts, htb⟩ := validateInputs_ok.1 hv
  have hspec := ((h major).nextSequence_spec hts htb).2.2.2.2 hmark
  have hle := Held.below h hy
  rw [hm] at hle
  omega

theorem issued_append (h : allocator.Coherent)
    (hv : validateInputs major commitSha committedAt = .ok ()) (hrange : 0 ≤ attempt ∧ attempt ≤ 2 ^ 53)
    (hn : ∀ n, (allocator.forMajor major).currentAttempts.get? commitSha = some n → n < attempt)
    (hmark : (allocator.forMajor major).highWater < 2 ^ 53) :
    Issued allocator
      (allocator.setMajor major
        (append (allocator.forMajor major) major commitSha committedAt attempt).2)
      [((append (allocator.forMajor major) major commitSha committedAt attempt).1,
        committedAt)] where
  rises e he y hy hm := by
    obtain rfl := List.mem_singleton.1 he
    exact nextSequence_above h hv hmark y hy hm
  ordered := List.pairwise_singleton _ _
  stamped e he := by
    obtain rfl := List.mem_singleton.1 he
    obtain ⟨-, -, hts, htb⟩ := validateInputs_ok.1 hv
    exact ((h major).nextSequence_spec hts htb).2.1
  held x := by
    rw [held_append h hv hrange hn]
    simp

theorem exact_append (h : allocator.Exact)
    (hv : validateInputs major commitSha committedAt = .ok ()) (hrange : 0 ≤ attempt ∧ attempt ≤ 2 ^ 53)
    (hn : ∀ n, (allocator.forMajor major).currentAttempts.get? commitSha = some n → n < attempt)
    (hmark : (allocator.forMajor major).highWater < 2 ^ 53)
    (hattempt : attempt ≤ nextSequence (allocator.forMajor major) committedAt) :
    (allocator.setMajor major
      (append (allocator.forMajor major) major commitSha committedAt attempt).2).Exact where
  coherent := h.coherent.setMajor
    ((h.coherent major).append hv hrange (fun n hc => (hn n hc).le))
  distinct x y hx hy hm hs := by
    have habove := nextSequence_above h.coherent hv hmark
    rcases (held_append h.coherent hv hrange hn x).1 hx with hx | rfl <;>
      rcases (held_append h.coherent hv hrange hn y).1 hy with hy | rfl
    · exact h.distinct x y hx hy hm hs
    · have := habove x hx hm
      have hseq : x.sequence = nextSequence (allocator.forMajor major) committedAt := hs
      omega
    · have := habove y hy hm.symm
      have hseq : nextSequence (allocator.forMajor major) committedAt = y.sequence := hs
      omega
    · rfl
  attempts x hx := by
    rcases (held_append h.coherent hv hrange hn x).1 hx with hx | rfl
    · exact h.attempts x hx
    · exact hattempt

theorem next_attempt (h : allocator.Exact)
    (hv : validateInputs major commitSha committedAt = .ok ())
    (hmark : (allocator.forMajor major).highWater < 2 ^ 53) {n : ℤ}
    (hc : (allocator.forMajor major).currentAttempts.get? commitSha = some n) :
    Doubles.add n 1 = n + 1 ∧ 0 ≤ n ∧ n < 2 ^ 53 ∧
      n + 1 ≤ nextSequence (allocator.forMajor major) committedAt := by
  obtain ⟨x, hx⟩ := (h.coherent major).current commitSha n hc
  have hheld : allocator.Held x := held_of_get? hx
  have hmajor := ((h.coherent major).ofMajor _ x hx).1
  have hatt := ((h.coherent major).filed_at hx).2
  have h1 := h.attempts x hheld
  have h2 := ((h.coherent major).below _ x hx).2
  have h3 := nextSequence_above h.coherent hv hmark x hheld hmajor
  have h4 := (h.coherent major).current_range hc
  refine ⟨Doubles.add_one_of_lt n (by omega) (by omega), h4.1, by omega, by omega⟩

end Appending

end VersionAllocator
end JsrProxy
