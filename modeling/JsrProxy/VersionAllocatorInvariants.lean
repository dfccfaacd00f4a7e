import JsrProxy.VersionAllocator

set_option autoImplicit false

/-!
# Invariants of the version allocator

Each major's allocations are read through their maps only, so that an allocator
rebuilt from a snapshot, whose maps are filled in another order, counts as the
same one.
-/
namespace JsrProxy
open Text Doubles

theorem key_inj {c d : Str} {m n : ℤ} (h : VersionAllocator.key c m = VersionAllocator.key d n) :
    c = d ∧ m = n := by
  have hm : '\x00' ∉ decimal m := not_mem_decimal (by decide) (by decide)
  have hn : '\x00' ∉ decimal n := not_mem_decimal (by decide) (by decide)
  obtain ⟨hc, hd⟩ := split_at_last hm hn h
  exact ⟨hc, decimal_inj hd⟩

theorem versionString_inj {m n s t : ℤ} (h : versionString m s = versionString n t) :
    m = n ∧ s = t := by
  have hm : '.' ∉ decimal m := not_mem_decimal (by decide) (by decide)
  have hn : '.' ∉ decimal n := not_mem_decimal (by decide) (by decide)
  have h' : decimal m ++ '.' :: ('1' :: '.' :: decimal s) =
      decimal n ++ '.' :: ('1' :: '.' :: decimal t) := by
    simpa [versionString, List.append_assoc] using h
  obtain ⟨hmaj, hrest⟩ := split_at_first hm hn h'
  have hseq : decimal s = decimal t := by simpa using hrest
  exact ⟨decimal_inj hmaj, decimal_inj hseq⟩

theorem localeLe_total (left right : Str) :
    localeLe left right = true ∨ localeLe right left = true := by
  unfold localeLe
  rw [show compare right left = (compare left right).swap from Std.OrientedCmp.eq_swap]
  cases compare left right <;> simp

theorem localeLe_trans {a b c : Str} (h : localeLe a b = true) (h' : localeLe b c = true) :
    localeLe a c = true := Std.TransCmp.isLE_trans h h'

theorem localeLe_antisymm {a b : Str} (h : localeLe a b = true) (h' : localeLe b a = true) :
    a = b := Std.LawfulEqCmp.eq_of_compare (Std.OrientedCmp.isLE_antisymm h h')

theorem validateInputs_ok {major committedAt : ℤ} {commitSha : Str} :
    validateInputs major commitSha committedAt = .ok () ↔
      (0 ≤ major ∧ major < 2 ^ 53) ∧ commitSha ≠ [] ∧ 0 ≤ committedAt ∧ committedAt < 2 ^ 53 := by
  unfold validateInputs
  have hsafe : ∀ n : ℤ, (!isSafeInteger n || decide (n < 0)) = true ↔ ¬ (0 ≤ n ∧ n < 2 ^ 53) := by
    intro n
    have h := isSafeInteger_iff n
    have hmax : maxSafeInteger = 2 ^ 53 - 1 := rfl
    rw [Bool.or_eq_true, Bool.not_eq_true', decide_eq_true_eq, ← Bool.not_eq_true, h]
    omega
  split_ifs with h1 h2 h3
  · rw [hsafe] at h1
    simp only [false_iff]
    rintro ⟨h, -⟩
    exact h1 h
  · have : commitSha = [] := List.length_eq_zero_iff.1 h2
    simp [this]
  · rw [hsafe] at h3
    simp only [false_iff]
    rintro ⟨-, -, h⟩
    exact h3 h
  · rw [hsafe] at h1 h3
    have hne : commitSha ≠ [] := fun h => h2 (List.length_eq_zero_iff.2 h)
    simp only [true_iff]
    exact ⟨Classical.not_not.1 h1, hne, Classical.not_not.1 h3⟩

/-- What the allocations of one major satisfy after any history. The high-water
    mark stops at `2^53`, where adding one no longer changes it. -/
structure MajorAllocations.Coherent (major : ℤ) (a : MajorAllocations) : Prop where
  filed : ∀ k x, a.assignments.get? k = some x → k = VersionAllocator.key x.commitSha x.attempt
  ofMajor : ∀ k x, a.assignments.get? k = some x →
    x.major = major ∧ x.version = versionString major x.sequence ∧ x.commitSha ≠ []
  majorRange : ∀ k x, a.assignments.get? k = some x → 0 ≤ major ∧ major < 2 ^ 53
  attemptRange : ∀ k x, a.assignments.get? k = some x → 0 ≤ x.attempt ∧ x.attempt ≤ 2 ^ 53
  below : ∀ k x, a.assignments.get? k = some x → 0 ≤ x.sequence ∧ x.sequence ≤ a.highWater
  reached : a.highWater = -1 ∨ ∃ k x, a.assignments.get? k = some x ∧ x.sequence = a.highWater
  current : ∀ c n, a.currentAttempts.get? c = some n →
    ∃ x, a.assignments.get? (VersionAllocator.key c n) = some x
  latest : ∀ k x, a.assignments.get? k = some x →
    ∃ n, a.currentAttempts.get? x.commitSha = some n ∧ x.attempt ≤ n
  bounded : a.highWater ≤ 2 ^ 53

def VersionAllocator.Coherent (allocator : VersionAllocator) : Prop :=
  ∀ major, (allocator.forMajor major).Coherent major

structure MajorAllocations.Same (a b : MajorAllocations) : Prop where
  highWater : a.highWater = b.highWater
  assignments : ∀ k, a.assignments.get? k = b.assignments.get? k
  currentAttempts : ∀ c, a.currentAttempts.get? c = b.currentAttempts.get? c

namespace MajorAllocations

theorem coherent_fresh (major : ℤ) : fresh.Coherent major where
  filed k x h := by simp [fresh] at h
  ofMajor k x h := by simp [fresh] at h
  majorRange k x h := by simp [fresh] at h
  attemptRange k x h := by simp [fresh] at h
  below k x h := by simp [fresh] at h
  reached := .inl rfl
  current c n h := by simp [fresh] at h
  latest k x h := by simp [fresh] at h
  bounded := by simp [fresh]

namespace Coherent

variable {major : ℤ} {a : MajorAllocations}

theorem highWater_ge (h : a.Coherent major) : -1 ≤ a.highWater := by
  rcases h.reached with he | ⟨k, x, hx, hs⟩
  · omega
  · have := (h.below k x hx).1
    omega

theorem filed_at (h : a.Coherent major) {c : Str} {n : ℤ} {x : VersionAssignment}
    (hx : a.assignments.get? (VersionAllocator.key c n) = some x) :
    x.commitSha = c ∧ x.attempt = n := by
  obtain ⟨hc, hn⟩ := key_inj (h.filed _ x hx)
  exact ⟨hc.symm, hn.symm⟩

theorem current_range (h : a.Coherent major) {c : Str} {n : ℤ}
    (hn : a.currentAttempts.get? c = some n) : 0 ≤ n ∧ n ≤ 2 ^ 53 := by
  obtain ⟨x, hx⟩ := h.current c n hn
  have hr := h.attemptRange _ x hx
  rw [(h.filed_at hx).2] at hr
  exact hr

/-- The next sequence is above every issued one, except that `2^53` repeats. -/
theorem nextSequence_spec (h : a.Coherent major) {committedAt : ℤ} (h0 : 0 ≤ committedAt)
    (h53 : committedAt < 2 ^ 53) :
    0 ≤ VersionAllocator.nextSequence a committedAt ∧
      committedAt ≤ VersionAllocator.nextSequence a committedAt ∧
      a.highWater ≤ VersionAllocator.nextSequence a committedAt ∧
      VersionAllocator.nextSequence a committedAt ≤ 2 ^ 53 ∧
      (a.highWater < 2 ^ 53 → a.highWater < VersionAllocator.nextSequence a committedAt) := by
  have hlow := h.highWater_ge
  have hhigh := h.bounded
  unfold VersionAllocator.nextSequence
  by_cases he : a.highWater = 2 ^ 53
  · rw [he, add_one_saturates]
    omega
  · rw [add_one_of_lt _ hlow (by omega)]
    omega

theorem nextSequence_saturated {committedAt : ℤ}
    (h53 : committedAt < 2 ^ 53) (hs : a.highWater = 2 ^ 53) :
    VersionAllocator.nextSequence a committedAt = 2 ^ 53 := by
  unfold VersionAllocator.nextSequence
  rw [hs, add_one_saturates]
  omega

theorem append (h : a.Coherent major) {commitSha : Str} {committedAt attempt : ℤ}
    (hv : validateInputs major commitSha committedAt = .ok ())
    (hn : 0 ≤ attempt ∧ attempt ≤ 2 ^ 53)
    (hcur : ∀ n, a.currentAttempts.get? commitSha = some n → n ≤ attempt) :
    (VersionAllocator.append a major commitSha committedAt attempt).2.Coherent major := by
  obtain ⟨hmajor, hsha, hts, htb⟩ := validateInputs_ok.1 hv
  obtain ⟨hpos, -, hup, hbound, -⟩ := h.nextSequence_spec hts htb
  have hcases : ∀ k x, (VersionAllocator.append a major commitSha committedAt attempt).2.assignments.get? k
      = some x → (k = VersionAllocator.key commitSha attempt ∧
        x = (VersionAllocator.append a major commitSha committedAt attempt).1) ∨
        a.assignments.get? k = some x := by
    intro k x hx
    simp only [VersionAllocator.append, OrderedMap.get?_set] at hx ⊢
    split_ifs at hx with hk
    · exact .inl ⟨hk, (Option.some.inj hx).symm⟩
    · exact .inr hx
  refine ⟨?_, ?_, ?_, ?_, ?_, ?_, ?_, ?_, hbound⟩
  · intro k x hx
    rcases hcases k x hx with ⟨rfl, rfl⟩ | hold
    · rfl
    · exact h.filed k x hold
  · intro k x hx
    rcases hcases k x hx with ⟨rfl, rfl⟩ | hold
    · exact ⟨rfl, rfl, hsha⟩
    · exact h.ofMajor k x hold
  · intro k x hx
    exact hmajor
  · intro k x hx
    rcases hcases k x hx with ⟨rfl, rfl⟩ | hold
    · exact hn
    · exact h.attemptRange k x hold
  · intro k x hx
    rcases hcases k x hx with ⟨rfl, rfl⟩ | hold
    · exact ⟨hpos, le_refl _⟩
    · have hb := h.below k x hold
      exact ⟨hb.1, hb.2.trans hup⟩
  · exact .inr ⟨VersionAllocator.key commitSha attempt, _, OrderedMap.get?_set_self _ _ _, rfl⟩
  · intro c n hc
    simp only [VersionAllocator.append, OrderedMap.get?_set] at hc ⊢
    by_cases he : c = commitSha
    · subst he
      rw [if_pos rfl] at hc
      obtain rfl := Option.some.inj hc
      exact ⟨_, if_pos rfl⟩
    · rw [if_neg he] at hc
      obtain ⟨x, hx⟩ := h.current c n hc
      rw [if_neg (fun hk => he (key_inj hk).1)]
      exact ⟨x, hx⟩
  · intro k x hx
    rcases hcases k x hx with ⟨rfl, rfl⟩ | hold
    · exact ⟨attempt, OrderedMap.get?_set_self _ _ _, le_refl _⟩
    · obtain ⟨n, hc, hle⟩ := h.latest k x hold
      simp only [VersionAllocator.append, OrderedMap.get?_set]
      by_cases he : x.commitSha = commitSha
      · rw [if_pos he]
        rw [he] at hc
        exact ⟨attempt, rfl, hle.trans (hcur n hc)⟩
      · rw [if_neg he]
        exact ⟨n, hc, hle⟩

/-- The mark and the current attempts follow from the assignments. -/
theorem same_of_assignments {b : MajorAllocations} (ha : a.Coherent major) (hb : b.Coherent major)
    (h : ∀ k, a.assignments.get? k = b.assignments.get? k) : a.Same b := by
  have hw : ∀ {c d : MajorAllocations}, c.Coherent major → d.Coherent major →
      (∀ k, c.assignments.get? k = d.assignments.get? k) → c.highWater ≤ d.highWater := by
    intro c d hc hd he
    rcases hc.reached with hm | ⟨k, x, hx, hs⟩
    · have := hd.highWater_ge
      omega
    · rw [he] at hx
      have := hd.below k x hx
      omega
  have hcur : ∀ {c d : MajorAllocations}, c.Coherent major → d.Coherent major →
      (∀ k, c.assignments.get? k = d.assignments.get? k) →
      ∀ s n, c.currentAttempts.get? s = some n →
        ∃ m, d.currentAttempts.get? s = some m ∧ n ≤ m := by
    intro c d hc hd he s n hn
    obtain ⟨x, hx⟩ := hc.current s n hn
    obtain ⟨hs, hatt⟩ := hc.filed_at hx
    rw [he] at hx
    obtain ⟨m, hm, hle⟩ := hd.latest _ x hx
    rw [hs] at hm
    exact ⟨m, hm, by omega⟩
  refine ⟨le_antisymm (hw ha hb h) (hw hb ha fun k => (h k).symm), h, ?_⟩
  intro s
  ext n
  constructor
  · intro hn
    obtain ⟨m, hm, hnm⟩ := hcur ha hb h s n hn
    obtain ⟨n', hn', hmn⟩ := hcur hb ha (fun k => (h k).symm) s m hm
    have : n' = n := Option.some.inj (hn'.symm.trans hn)
    have : m = n := by omega
    rw [← this]
    exact hm
  · intro hn
    obtain ⟨m, hm, hnm⟩ := hcur hb ha (fun k => (h k).symm) s n hn
    obtain ⟨n', hn', hmn⟩ := hcur ha hb h s m hm
    have : n' = n := Option.some.inj (hn'.symm.trans hn)
    have : m = n := by omega
    rw [← this]
    exact hm

end Coherent
end MajorAllocations

namespace VersionAllocator

theorem forMajor_new (major : ℤ) : new.forMajor major = .fresh := rfl

theorem coherent_new : new.Coherent := fun major => MajorAllocations.coherent_fresh major

@[simp] theorem forMajor_setMajor (allocator : VersionAllocator) (major m : ℤ)
    (a : MajorAllocations) :
    (allocator.setMajor major a).forMajor m = if m = major then a else allocator.forMajor m := by
  unfold forMajor setMajor
  rw [OrderedMap.get?_set]
  split_ifs <;> rfl

theorem forMajor_setMajor_self (allocator : VersionAllocator) (major : ℤ) (a : MajorAllocations) :
    (allocator.setMajor major a).forMajor major = a := by simp

theorem forMajor_touch (allocator : VersionAllocator) (major m : ℤ) :
    (allocator.setMajor major (allocator.forMajor major)).forMajor m = allocator.forMajor m := by
  rw [forMajor_setMajor]
  split_ifs with h
  · rw [h]
  · rfl

theorem Coherent.setMajor {allocator : VersionAllocator} (h : allocator.Coherent) {major : ℤ}
    {a : MajorAllocations} (ha : a.Coherent major) : (allocator.setMajor major a).Coherent := by
  intro m
  rw [forMajor_setMajor]
  split_ifs with hm
  · exact hm ▸ ha
  · exact h m

/-- Everything `allocate` can do: refuse its input, reuse, or append attempt zero. -/
theorem allocate_cases {allocator : VersionAllocator} (h : allocator.Coherent)
    (major : ℤ) (commitSha : Str) (committedAt : ℤ) :
    (∃ message, validateInputs major commitSha committedAt = .error message ∧
      allocate allocator major commitSha committedAt = (.error message, allocator)) ∨
    (∃ n x, validateInputs major commitSha committedAt = .ok () ∧
      (allocator.forMajor major).currentAttempts.get? commitSha = some n ∧
      (allocator.forMajor major).assignments.get? (key commitSha n) = some x ∧
      allocate allocator major commitSha committedAt =
        (.ok x, allocator.setMajor major (allocator.forMajor major))) ∨
    (validateInputs major commitSha committedAt = .ok () ∧
      (allocator.forMajor major).currentAttempts.get? commitSha = none ∧
      allocate allocator major commitSha committedAt =
        (.ok (append (allocator.forMajor major) major commitSha committedAt 0).1,
          allocator.setMajor major
            (append (allocator.forMajor major) major commitSha committedAt 0).2)) := by
  unfold allocate
  cases hv : validateInputs major commitSha committedAt with
  | error message => exact .inl ⟨message, rfl, rfl⟩
  | ok u =>
    cases hc : (allocator.forMajor major).currentAttempts.get? commitSha with
    | none => exact .inr (.inr ⟨rfl, rfl, by simp only [hc]⟩)
    | some n =>
      obtain ⟨x, hx⟩ := (h major).current commitSha n hc
      exact .inr (.inl ⟨n, x, rfl, rfl, hx, by simp only [hc, hx]⟩)

/-- Everything `recover` can do: refuse its input, miss, or append the next attempt. -/
theorem recover_cases (allocator : VersionAllocator) (major : ℤ) (commitSha : Str)
    (committedAt : ℤ) :
    (∃ message, validateInputs major commitSha committedAt = .error message ∧
      recover allocator major commitSha committedAt = (.error message, allocator)) ∨
    (∃ message, validateInputs major commitSha committedAt = .ok () ∧
      (allocator.forMajor major).currentAttempts.get? commitSha = none ∧
      recover allocator major commitSha committedAt =
        (.error message, allocator.setMajor major (allocator.forMajor major))) ∨
    (∃ n, validateInputs major commitSha committedAt = .ok () ∧
      (allocator.forMajor major).currentAttempts.get? commitSha = some n ∧
      recover allocator major commitSha committedAt =
        (.ok (append (allocator.forMajor major) major commitSha committedAt (add n 1)).1,
          allocator.setMajor major
            (append (allocator.forMajor major) major commitSha committedAt (add n 1)).2)) := by
  unfold recover
  cases hv : validateInputs major commitSha committedAt with
  | error message => exact .inl ⟨message, rfl, rfl⟩
  | ok u =>
    cases hc : (allocator.forMajor major).currentAttempts.get? commitSha with
    | none => exact .inr (.inl ⟨_, rfl, rfl, by simp only [hc]; rfl⟩)
    | some n => exact .inr (.inr ⟨n, rfl, rfl, by simp only [hc]⟩)

theorem Coherent.append_zero {allocator : VersionAllocator} (h : allocator.Coherent) {major : ℤ}
    {commitSha : Str} {committedAt : ℤ} (hv : validateInputs major commitSha committedAt = .ok ())
    (hc : (allocator.forMajor major).currentAttempts.get? commitSha = none) :
    (append (allocator.forMajor major) major commitSha committedAt 0).2.Coherent major := by
  refine (h major).append hv (by omega) ?_
  intro n hn
  rw [hc] at hn
  cases hn

theorem le_add_one {n : ℤ} (h : 0 ≤ n ∧ n ≤ 2 ^ 53) :
    n ≤ add n 1 ∧ 0 ≤ add n 1 ∧ add n 1 ≤ 2 ^ 53 := by
  by_cases he : n = 2 ^ 53
  · subst he
    rw [add_one_saturates]
    omega
  · rw [add_one_of_lt n (by omega) (by omega)]
    omega

theorem Coherent.append_next {allocator : VersionAllocator} (h : allocator.Coherent) {major : ℤ}
    {commitSha : Str} {committedAt n : ℤ}
    (hv : validateInputs major commitSha committedAt = .ok ())
    (hc : (allocator.forMajor major).currentAttempts.get? commitSha = some n) :
    (append (allocator.forMajor major) major commitSha committedAt (add n 1)).2.Coherent
      major := by
  obtain ⟨hle, hrange⟩ := le_add_one ((h major).current_range hc)
  refine (h major).append hv hrange ?_
  intro m hm
  have : m = n := Option.some.inj (hm.symm.trans hc)
  omega

theorem mem_snapshot {allocator : VersionAllocator} (x : VersionAssignment) :
    x ∈ allocator.snapshot.assignments ↔
      ∃ major k, (allocator.forMajor major).assignments.get? k = some x := by
  unfold snapshot
  rw [List.mem_insertionSort, List.mem_flatMap]
  constructor
  · rintro ⟨a, ha, hx⟩
    obtain ⟨major, hmajor⟩ := (OrderedMap.mem_values _ _).1 ha
    obtain ⟨k, hk⟩ := (OrderedMap.mem_values _ _).1 hx
    exact ⟨major, k, by rw [forMajor, hmajor]; exact hk⟩
  · rintro ⟨major, k, hk⟩
    cases hm : allocator.majors.get? major with
    | none =>
      rw [forMajor, hm] at hk
      exact absurd hk (by simp [MajorAllocations.fresh])
    | some a =>
      rw [forMajor, hm] at hk
      exact ⟨a, (OrderedMap.mem_values _ _).2 ⟨major, hm⟩, (OrderedMap.mem_values _ _).2 ⟨k, hk⟩⟩

structure Reads (read : List VersionAssignment) (allocator : VersionAllocator) : Prop where
  coherent : allocator.Coherent
  content : ∀ major k x, (allocator.forMajor major).assignments.get? k = some x ↔
    x ∈ read ∧ x.major = major ∧ k = key x.commitSha x.attempt

theorem reads_new : Reads [] new where
  coherent := coherent_new
  content major k x := by simp [forMajor_new, MajorAllocations.fresh]

theorem restore_ok {allocator result : VersionAllocator} {x : VersionAssignment}
    (h : restore allocator x = .ok result) :
    validateInputs x.major x.commitSha x.sequence = .ok () ∧
      (0 ≤ x.attempt ∧ x.attempt < 2 ^ 53) ∧ x.version = versionString x.major x.sequence ∧
      (allocator.forMajor x.major).assignments.get? (key x.commitSha x.attempt) = none ∧
      result = allocator.setMajor x.major (restored (allocator.forMajor x.major) x) := by
  unfold restore at h
  cases hv : validateInputs x.major x.commitSha x.sequence with
  | error message => rw [hv] at h; cases h
  | ok u =>
    rw [hv] at h
    dsimp only at h
    split_ifs at h with h1 h2 h3
    have hattempt : 0 ≤ x.attempt ∧ x.attempt < 2 ^ 53 := by
      have hs := isSafeInteger_iff x.attempt
      have hmax : maxSafeInteger = 2 ^ 53 - 1 := rfl
      rw [Bool.or_eq_true, Bool.not_eq_true', decide_eq_true_eq, ← Bool.not_eq_true, hs] at h1
      omega
    have hfree : (allocator.forMajor x.major).assignments.get? (key x.commitSha x.attempt)
        = none := by
      cases hg : (allocator.forMajor x.major).assignments.get? (key x.commitSha x.attempt) with
      | none => rfl
      | some y => exact absurd ((OrderedMap.has_eq_true _ _).2 ⟨y, hg⟩) h3
    exact ⟨rfl, hattempt, Classical.not_not.1 h2, hfree, (Except.ok.inj h).symm⟩

theorem restored_current (a : MajorAllocations) (x : VersionAssignment) (c : Str) (n : ℤ)
    (h : (restored a x).currentAttempts.get? c = some n) :
    (c = x.commitSha ∧ n = x.attempt) ∨ a.currentAttempts.get? c = some n := by
  simp only [restored] at h
  split_ifs at h
  · rw [OrderedMap.get?_set] at h
    split_ifs at h with hc
    · exact .inl ⟨hc, (Option.some.inj h).symm⟩
    · exact .inr h
  · exact .inr h

theorem restored_latest (a : MajorAllocations) (x : VersionAssignment) :
    (∃ n, (restored a x).currentAttempts.get? x.commitSha = some n ∧ x.attempt ≤ n) ∧
      ∀ c n, a.currentAttempts.get? c = some n →
        ∃ m, (restored a x).currentAttempts.get? c = some m ∧ n ≤ m := by
  simp only [restored]
  cases hc : a.currentAttempts.get? x.commitSha with
  | none =>
    simp only [if_true, OrderedMap.get?_set]
    refine ⟨⟨x.attempt, rfl, le_refl _⟩, ?_⟩
    intro c n hn
    have hne : c ≠ x.commitSha := by
      rintro rfl
      rw [hc] at hn
      cases hn
    rw [if_neg hne]
    exact ⟨n, hn, le_refl _⟩
  | some current =>
    simp only [decide_eq_true_eq]
    split_ifs with hlt
    · simp only [OrderedMap.get?_set]
      refine ⟨⟨x.attempt, rfl, le_refl _⟩, ?_⟩
      intro c n hn
      by_cases he : c = x.commitSha
      · rw [if_pos he]
        rw [he, hc] at hn
        have := Option.some.inj hn
        exact ⟨x.attempt, rfl, by omega⟩
      · rw [if_neg he]
        exact ⟨n, hn, le_refl _⟩
    · exact ⟨⟨current, hc, by omega⟩, fun c n hn => ⟨n, hn, le_refl _⟩⟩

theorem restored_coherent {a : MajorAllocations} {x : VersionAssignment}
    (h : a.Coherent x.major) (hv : validateInputs x.major x.commitSha x.sequence = .ok ())
    (hn : 0 ≤ x.attempt ∧ x.attempt < 2 ^ 53) (hversion : x.version = versionString x.major x.sequence)
    (hfree : a.assignments.get? (key x.commitSha x.attempt) = none) :
    (restored a x).Coherent x.major := by
  obtain ⟨hmajor, hsha, hts, htb⟩ := validateInputs_ok.1 hv
  have hbound := h.bounded
  have hcases : ∀ k y, (restored a x).assignments.get? k = some y →
      (k = key x.commitSha x.attempt ∧ y = x) ∨ a.assignments.get? k = some y := by
    intro k y hy
    simp only [restored, OrderedMap.get?_set] at hy
    split_ifs at hy with hk
    · exact .inl ⟨hk, (Option.some.inj hy).symm⟩
    · exact .inr hy
  have hkept : ∀ k y, a.assignments.get? k = some y →
      (restored a x).assignments.get? k = some y := by
    intro k y hy
    simp only [restored, OrderedMap.get?_set]
    rw [if_neg]
    · exact hy
    · rintro rfl
      rw [hfree] at hy
      cases hy
  have hself : (restored a x).assignments.get? (key x.commitSha x.attempt) = some x :=
    OrderedMap.get?_set_self _ _ _
  refine ⟨?_, ?_, ?_, ?_, ?_, ?_, ?_, ?_, ?_⟩
  · intro k y hy
    rcases hcases k y hy with ⟨rfl, rfl⟩ | hold
    · rfl
    · exact h.filed k y hold
  · intro k y hy
    rcases hcases k y hy with ⟨rfl, rfl⟩ | hold
    · exact ⟨rfl, hversion, hsha⟩
    · exact h.ofMajor k y hold
  · intro k y hy
    exact hmajor
  · intro k y hy
    rcases hcases k y hy with ⟨rfl, rfl⟩ | hold
    · exact ⟨hn.1, hn.2.le⟩
    · exact h.attemptRange k y hold
  · intro k y hy
    change 0 ≤ y.sequence ∧ y.sequence ≤ max a.highWater x.sequence
    rcases hcases k y hy with ⟨rfl, rfl⟩ | hold
    · exact ⟨hts, le_max_right _ _⟩
    · have hb := h.below k y hold
      exact ⟨hb.1, hb.2.trans (le_max_left _ _)⟩
  · right
    change ∃ k, ∃ y : VersionAssignment, _ ∧ y.sequence = max a.highWater x.sequence
    rcases le_total a.highWater x.sequence with hle | hle
    · exact ⟨_, x, hself, (max_eq_right hle).symm⟩
    · rcases h.reached with hm | ⟨k, y, hy, hs⟩
      · omega
      · exact ⟨k, y, hkept k y hy, by rw [max_eq_left hle, hs]⟩
  · intro c n hc
    rcases restored_current a x c n hc with ⟨rfl, rfl⟩ | hold
    · exact ⟨x, hself⟩
    · obtain ⟨y, hy⟩ := h.current c n hold
      exact ⟨y, hkept _ y hy⟩
  · intro k y hy
    rcases hcases k y hy with ⟨rfl, rfl⟩ | hold
    · exact (restored_latest a y).1
    · obtain ⟨n, hc, hle⟩ := h.latest k y hold
      obtain ⟨m, hm, hnm⟩ := (restored_latest a x).2 _ n hc
      exact ⟨m, hm, hle.trans hnm⟩
  · exact max_le hbound htb.le

theorem reads_restore {read : List VersionAssignment} {allocator result : VersionAllocator}
    {x : VersionAssignment} (h : Reads read allocator) (hr : restore allocator x = .ok result) :
    Reads (read ++ [x]) result := by
  obtain ⟨hv, hn, hversion, hfree, rfl⟩ := restore_ok hr
  refine ⟨h.coherent.setMajor (restored_coherent (h.coherent _) hv hn hversion hfree), ?_⟩
  intro major k y
  rw [forMajor_setMajor, List.mem_append, List.mem_singleton]
  by_cases hm : major = x.major
  · subst hm
    rw [if_pos rfl]
    simp only [restored, OrderedMap.get?_set]
    split_ifs with hk
    · subst hk
      constructor
      · intro hy
        have : x = y := Option.some.inj hy
        subst this
        exact ⟨.inr rfl, rfl, rfl⟩
      · rintro ⟨hy | rfl, hmajor, hkey⟩
        · have := (h.content x.major _ y).2 ⟨hy, hmajor, hkey⟩
          rw [hfree] at this
          cases this
        · rfl
    · rw [h.content]
      constructor
      · rintro ⟨hy, hrest⟩
        exact ⟨.inl hy, hrest⟩
      · rintro ⟨hy | rfl, hrest⟩
        · exact ⟨hy, hrest⟩
        · exact absurd hrest.2 hk
  · rw [if_neg hm, h.content]
    constructor
    · rintro ⟨hy, hrest⟩
      exact ⟨.inl hy, hrest⟩
    · rintro ⟨hy | rfl, hrest⟩
      · exact ⟨hy, hrest⟩
      · exact absurd hrest.1.symm hm

theorem reads_restoreAll {read rest : List VersionAssignment} {allocator result : VersionAllocator}
    (h : Reads read allocator) (hr : restoreAll allocator rest = .ok result) :
    Reads (read ++ rest) result := by
  induction rest generalizing read allocator with
  | nil =>
    obtain rfl := Except.ok.inj hr
    rwa [List.append_nil]
  | cons x rest ih =>
    unfold restoreAll at hr
    cases hx : restore allocator x with
    | error message => rw [hx] at hr; cases hr
    | ok next =>
      rw [hx] at hr
      have := ih (reads_restore h hx) hr
      rwa [List.append_assoc, List.singleton_append] at this

/-- A snapshot that loads rebuilds the allocator it was taken from, although the
    marks and the current attempts are not stored. -/
theorem fromSnapshot_same {allocator result : VersionAllocator} (h : allocator.Coherent)
    (hr : fromSnapshot allocator.snapshot = .ok result) :
    result.Coherent ∧ ∀ major, (allocator.forMajor major).Same (result.forMajor major) := by
  have hreads := reads_restoreAll reads_new hr
  rw [List.nil_append] at hreads
  refine ⟨hreads.coherent, fun major => (h major).same_of_assignments (hreads.coherent major) ?_⟩
  intro k
  ext x
  rw [hreads.content, mem_snapshot]
  constructor
  · intro hx
    exact ⟨⟨major, k, hx⟩, ((h major).ofMajor k x hx).1, (h major).filed k x hx⟩
  · rintro ⟨⟨m, l, hx⟩, hmajor, hkey⟩
    have hm : m = major := ((h m).ofMajor l x hx).1.symm.trans hmajor
    have hl : l = k := ((h m).filed l x hx).trans hkey.symm
    rw [← hm, ← hl]
    exact hx

end VersionAllocator
end JsrProxy
