import JsrProxy.PublishedOutcomes
import JsrProxy.VersionAllocationRuns

set_option autoImplicit false

/-!
# Recovery histories

The assignments of a commit, its current attempt and the audit log are three
records of the same recoveries. While sequences stay safe integers they agree.
-/
namespace JsrProxy.PackageRegistry
open Branches VersionAllocator Executions

def current (registry : PackageRegistry) (major : ℤ) (commitSha : Str) : Option ℤ :=
  (registry.allocator.forMajor major).currentAttempts.get? commitSha

def belongs (registry : PackageRegistry) (major : ℤ) (commitSha version : Str) : Bool :=
  (registry.versions.get? version).any fun record =>
    decide (record.major = major ∧ record.commitSha = commitSha)

def recoveryCount (registry : PackageRegistry) (major : ℤ) (commitSha : Str) : ℕ :=
  registry.recoveryLog.countP fun audit => belongs registry major commitSha audit.originalVersion

/-- Both versions of an audit entry have records, the original a published one, and
    the replacement stands for the same commit under a larger sequence. -/
def Audited (registry : PackageRegistry) (audit : RecoveryAudit) : Prop :=
  ∃ original replacement, registry.versions.get? audit.originalVersion = some original ∧
    registry.versions.get? audit.replacementVersion = some replacement ∧
    original.state.published = true ∧ replacement.major = original.major ∧
    replacement.commitSha = original.commitSha ∧ replacement.branch = original.branch ∧
    original.assignment.sequence < replacement.assignment.sequence

/-- The attempts of a commit count its recoveries, without gaps and in the order of
    their sequences. -/
structure History (registry : PackageRegistry) : Prop where
  counted : ∀ m c n, registry.current m c = some n → n = registry.recoveryCount m c
  dense : ∀ m c n, registry.current m c = some n → ∀ k, 0 ≤ k → k ≤ n →
    ∃ x, registry.allocator.Held x ∧ x.major = m ∧ x.commitSha = c ∧ x.attempt = k
  rising : ∀ x y, registry.allocator.Held x → registry.allocator.Held y → x.major = y.major →
    x.commitSha = y.commitSha → x.attempt < y.attempt → x.sequence < y.sequence
  audited : ∀ audit ∈ registry.recoveryLog, Audited registry audit
  distinct : (registry.recoveryLog.map RecoveryAudit.replacementVersion).Nodup

theorem history_new (name : PackageName) : (new name).History where
  counted m c n h := by cases h
  dense m c n h := by cases h
  rising x y hx := by
    obtain ⟨major, k, hget⟩ := (mem_snapshot x).1 hx
    cases hget
  audited audit h := by cases h
  distinct := List.nodup_nil

def Carries (before after : PackageRegistry) : Prop :=
  ∀ v record, before.versions.get? v = some record →
    ∃ record', after.versions.get? v = some record' ∧ Touched record record' ∧
      (record.state.published = true → record' = record)

theorem carries_of_get? {before after : PackageRegistry}
    (h : ∀ v record, before.versions.get? v = some record →
      after.versions.get? v = some record) : Carries before after :=
  fun v record hv => ⟨record, h v record hv, ⟨rfl, rfl, rfl, rfl, rfl⟩, fun _ => rfl⟩

theorem TouchesOne.carries {before after : PackageRegistry} (h : TouchesOne before after) :
    Carries before after := by
  rcases h with rfl | ⟨v, record, record', hv, hs, ht, rfl⟩
  · exact carries_of_get? fun _ _ hv => hv
  · intro w other hw
    simp only [updateVersion, OrderedMap.get?_set]
    split_ifs with he
    · subst he
      obtain rfl := Option.some.inj (hv.symm.trans hw)
      refine ⟨record', rfl, ht, ?_⟩
      intro hp
      rw [hs] at hp
      cases hp
    · exact ⟨other, hw, ⟨rfl, rfl, rfl, rfl, rfl⟩, fun _ => rfl⟩

theorem Audited.carried {before after : PackageRegistry} {audit : RecoveryAudit}
    (h : Audited before audit) (hc : Carries before after) : Audited after audit := by
  obtain ⟨original, replacement, ho, hr, hs, hmajor, hcommit, hbranch, hseq⟩ := h
  obtain ⟨original', ho', -, hkeep⟩ := hc _ _ ho
  obtain ⟨replacement', hr', ht, -⟩ := hc _ _ hr
  obtain rfl := hkeep hs
  refine ⟨original', replacement', ho', hr', hs, ?_, ?_, ?_, ?_⟩
  · rw [ht.major, hmajor]
  · rw [ht.commitSha, hcommit]
  · rw [ht.branch, hbranch]
  · rw [ht.assignment]
    exact hseq

theorem belongs_carried {before after : PackageRegistry} (hc : Carries before after) {v : Str}
    {record : VersionRecord} (hv : before.versions.get? v = some record) (major : ℤ)
    (commitSha : Str) : belongs after major commitSha v = belongs before major commitSha v := by
  obtain ⟨record', hv', ht, -⟩ := hc v record hv
  simp only [belongs, hv, hv', Option.any_some, ht.major, ht.commitSha]

theorem count_carried {before after : PackageRegistry}
    (haudited : ∀ audit ∈ before.recoveryLog, Audited before audit) (hc : Carries before after)
    (major : ℤ) (commitSha : Str) :
    (before.recoveryLog.countP fun audit => belongs after major commitSha audit.originalVersion)
      = before.recoveryCount major commitSha := by
  apply List.countP_congr
  intro audit ha
  obtain ⟨original, -, ho, -⟩ := haudited audit ha
  rw [belongs_carried hc ho]

theorem History.carried {before after : PackageRegistry} (h : before.History)
    (hheld : ∀ x, after.allocator.Held x ↔ before.allocator.Held x)
    (hcurrent : ∀ m c, after.current m c = before.current m c) (hc : Carries before after)
    (hlog : after.recoveryLog = before.recoveryLog) : after.History where
  counted m c n hn := by
    rw [hcurrent] at hn
    rw [h.counted m c n hn, ← count_carried h.audited hc, recoveryCount, hlog]
  dense m c n hn k h0 hk := by
    rw [hcurrent] at hn
    obtain ⟨x, hx, hrest⟩ := h.dense m c n hn k h0 hk
    exact ⟨x, (hheld x).2 hx, hrest⟩
  rising x y hx hy := h.rising x y ((hheld x).1 hx) ((hheld y).1 hy)
  audited audit ha := by
    rw [hlog] at ha
    exact (h.audited audit ha).carried hc
  distinct := by
    rw [hlog]
    exact h.distinct

theorem History.touchesOne {before after : PackageRegistry} (h : before.History)
    (ht : TouchesOne before after) : after.History := by
  have hallocator := touchesOne_allocator ht
  have hlog : after.recoveryLog = before.recoveryLog := by
    rcases ht with rfl | ⟨v, record, record', -, -, -, rfl⟩
    · rfl
    · rfl
  apply h.carried ?_ ?_ ht.carries hlog
  · intro x
    rw [hallocator]
  · intro m c
    rw [current, hallocator]
    rfl

theorem History.touchAllocator {registry : PackageRegistry} (h : registry.History)
    {allocator : VersionAllocator}
    (he : ∀ m, allocator.forMajor m = registry.allocator.forMajor m) :
    { registry with allocator := allocator }.History := by
  refine @History.carried registry { registry with allocator := allocator } h
    (held_congr (fun m k => by rw [he])) ?_ (carries_of_get? fun _ _ hv => hv) rfl
  intro m c
  simp only [current, he]

def nextAttempt : Option ℤ → ℤ
  | none => 0
  | some n => n + 1

/-- One assignment more: it takes the next attempt of its commit and lies above its
    whole major. -/
structure Extends (before after : PackageRegistry) (new : VersionAssignment) : Prop where
  held : ∀ x, after.allocator.Held x ↔ before.allocator.Held x ∨ new = x
  current : ∀ m c, after.current m c =
    if m = new.major ∧ c = new.commitSha then some new.attempt else before.current m c
  next : new.attempt = nextAttempt (before.current new.major new.commitSha)
  above : ∀ y, before.allocator.Held y → y.major = new.major → y.sequence < new.sequence
  latest : ∀ y, before.allocator.Held y → y.major = new.major → y.commitSha = new.commitSha →
    y.attempt < new.attempt
  carries : Carries before after

theorem Extends.dense {before after : PackageRegistry} {new : VersionAssignment}
    (he : Extends before after new) (h : before.History) (m : ℤ) (c : Str) (n : ℤ)
    (hn : after.current m c = some n) (k : ℤ) (h0 : 0 ≤ k) (hk : k ≤ n) :
    ∃ x, after.allocator.Held x ∧ x.major = m ∧ x.commitSha = c ∧ x.attempt = k := by
  rw [he.current] at hn
  split_ifs at hn with hnew
  · obtain ⟨rfl, rfl⟩ := hnew
    obtain rfl := Option.some.inj hn
    by_cases hlast : k = new.attempt
    · exact ⟨new, (he.held new).2 (.inr rfl), rfl, rfl, hlast.symm⟩
    · have hnext := he.next
      cases hc : before.current new.major new.commitSha with
      | none =>
        rw [hc] at hnext
        simp only [nextAttempt] at hnext
        omega
      | some n =>
        rw [hc] at hnext
        simp only [nextAttempt] at hnext
        obtain ⟨x, hx, hrest⟩ := h.dense _ _ n hc k h0 (by omega)
        exact ⟨x, (he.held x).2 (.inl hx), hrest⟩
  · obtain ⟨x, hx, hrest⟩ := h.dense m c n hn k h0 hk
    exact ⟨x, (he.held x).2 (.inl hx), hrest⟩

theorem Extends.rising {before after : PackageRegistry} {new : VersionAssignment}
    (he : Extends before after new) (h : before.History) (x y : VersionAssignment)
    (hx : after.allocator.Held x) (hy : after.allocator.Held y) (hm : x.major = y.major)
    (hc : x.commitSha = y.commitSha) (hlt : x.attempt < y.attempt) : x.sequence < y.sequence := by
  rcases (he.held x).1 hx with hx | rfl
  · rcases (he.held y).1 hy with hy | rfl
    · exact h.rising x y hx hy hm hc hlt
    · exact he.above x hx hm
  · rcases (he.held y).1 hy with hy | rfl
    · have hbelow := he.latest y hy hm.symm hc.symm
      omega
    · omega

theorem History.issued {before after : PackageRegistry} {new : VersionAssignment}
    (h : before.History) (hcoherent : before.Coherent) (he : Extends before after new)
    (hfresh : before.current new.major new.commitSha = none)
    (hlog : after.recoveryLog = before.recoveryLog) : after.History where
  counted m c n hn := by
    have hcount : after.recoveryCount m c = before.recoveryCount m c := by
      rw [← count_carried h.audited he.carries, recoveryCount, hlog]
    rw [hcount]
    rw [he.current] at hn
    split_ifs at hn with hnew
    · obtain ⟨rfl, rfl⟩ := hnew
      have hattempt := he.next
      rw [hfresh] at hattempt
      obtain rfl := Option.some.inj hn
      have hzero : before.recoveryCount new.major new.commitSha = 0 := by
        apply List.countP_eq_zero.2
        intro audit _ hbelongs
        obtain ⟨record, hrecord, hmatch⟩ := (Option.any_eq_true _ _).1 hbelongs
        obtain ⟨hmajor, hcommit⟩ := of_decide_eq_true hmatch
        -- a record's commit has a current attempt
        obtain ⟨n, hn⟩ := (hcoherent.record _ record hrecord).current
        rw [hmajor, hcommit] at hn
        have hnone := hfresh
        rw [current, hn] at hnone
        cases hnone
      rw [hzero, hattempt]
      rfl
    · exact h.counted m c n hn
  dense := he.dense h
  rising := he.rising h
  audited audit ha := by
    rw [hlog] at ha
    exact (h.audited audit ha).carried he.carries
  distinct := by
    rw [hlog]
    exact h.distinct

theorem History.recovered {before after : PackageRegistry} {new : VersionAssignment}
    (h : before.History) (he : Extends before after new) {n : ℤ}
    (hn : before.current new.major new.commitSha = some n) {audit : RecoveryAudit}
    (hlog : after.recoveryLog = before.recoveryLog ++ [audit]) (haudit : Audited after audit)
    (hbelongs : ∀ m c, belongs after m c audit.originalVersion
      = decide (new.major = m ∧ new.commitSha = c))
    (hfree : before.versions.get? audit.replacementVersion = none) : after.History where
  counted m c k hk := by
    have hcount : after.recoveryCount m c = before.recoveryCount m c +
        if new.major = m ∧ new.commitSha = c then 1 else 0 := by
      rw [recoveryCount, hlog, List.countP_append, count_carried h.audited he.carries,
        List.countP_singleton, hbelongs]
      simp only [decide_eq_true_eq]
    rw [he.current] at hk
    rw [hcount]
    split_ifs at hk with hnew
    · obtain ⟨rfl, rfl⟩ := hnew
      have hattempt := he.next
      rw [hn] at hattempt
      obtain rfl := Option.some.inj hk
      have hprior := h.counted _ _ n hn
      rw [if_pos ⟨rfl, rfl⟩, hattempt, nextAttempt, hprior]
      rfl
    · rw [if_neg (fun hsame => hnew ⟨hsame.1.symm, hsame.2.symm⟩), Nat.add_zero]
      exact h.counted m c k hk
  dense := he.dense h
  rising := he.rising h
  audited other ho := by
    rw [hlog] at ho
    rcases List.mem_append.1 ho with ho | ho
    · exact (h.audited other ho).carried he.carries
    · rw [List.mem_singleton.1 ho]
      exact haudit
  distinct := by
    rw [hlog, List.map_append, List.map_singleton]
    apply h.distinct.append (List.nodup_singleton _)
    rw [List.disjoint_singleton]
    intro hm
    obtain ⟨other, ho, hsame⟩ := List.mem_map.1 hm
    obtain ⟨-, replacement, -, hr, -⟩ := h.audited other ho
    rw [hsame, hfree] at hr
    cases hr

theorem InStep.extends_append {registry after : PackageRegistry} (h : registry.InStep)
    {major committedAt attempt : ℤ} {commitSha branch : Str}
    (hv : validateInputs major commitSha committedAt = .ok ())
    (hrange : 0 ≤ attempt ∧ attempt ≤ 2 ^ 53)
    (hnext : attempt = nextAttempt (registry.current major commitSha))
    (hmark : (registry.allocator.forMajor major).highWater < 2 ^ 53)
    (hallocator : after.allocator = registry.allocator.setMajor major
      (append (registry.allocator.forMajor major) major commitSha committedAt attempt).2)
    (hversions : after.versions = registry.versions.set
      (append (registry.allocator.forMajor major) major commitSha committedAt attempt).1.version
      (pendingRecord (append (registry.allocator.forMajor major) major commitSha committedAt
        attempt).1 branch commitSha major)) :
    Extends registry after
      (append (registry.allocator.forMajor major) major commitSha committedAt attempt).1 where
  held x := by
    have hbeyond : ∀ n, (registry.allocator.forMajor major).currentAttempts.get? commitSha = some n →
        n < attempt := by
      intro n hn
      rw [current, hn, nextAttempt] at hnext
      omega
    rw [hallocator]
    exact held_append h.exactly.coherent hv hrange hbeyond x
  current m c := by
    simp only [current, hallocator, forMajor_setMajor, append]
    by_cases hm : m = major
    · subst hm
      simp only [if_true, OrderedMap.get?_set, true_and]
    · simp only [hm, if_false, false_and]
  next := hnext
  above y hy hm := nextSequence_above h.exactly.coherent hv hmark y hy hm
  latest y hy hm hc := by
    obtain ⟨n, hn, hle⟩ := (h.exactly.coherent y.major).latest _ y
      ((held_iff h.exactly.coherent y).1 hy)
    change y.major = major at hm
    change y.commitSha = commitSha at hc
    rw [hm, hc] at hn
    rw [current, hn, nextAttempt] at hnext
    change y.attempt < attempt
    omega
  carries := by
    have hfree := h.version_free (nextSequence_above h.exactly.coherent hv hmark)
    apply carries_of_get?
    intro v record hrecord
    rw [hversions, OrderedMap.get?_set_of_ne]
    · exact hrecord
    · rintro rfl
      rw [show (append (registry.allocator.forMajor major) major commitSha committedAt
        attempt).1.version = versionString major
          (nextSequence (registry.allocator.forMajor major) committedAt) from rfl, hfree] at hrecord
      cases hrecord

theorem refreshBranch_history {registry : PackageRegistry} (h : registry.InStep)
    (hh : registry.History) (branch : SelectedBranch)
    (hmarks : ∀ m, (registry.allocator.forMajor m).highWater < 2 ^ 53) :
    (registry.refreshBranch branch).2.History := by
  rcases refreshBranch_cases h.coherent branch with
    ⟨message, -, he⟩ | ⟨n, x, -, -, -, he⟩ | ⟨record, hv, -, hrecord, he⟩ | ⟨hv, hc, hfree, he⟩
  · rw [he]
    exact hh
  · rw [he]
    exact hh.touchAllocator (forMajor_touch _ _)
  · have hnone := h.version_free (nextSequence_above h.exactly.coherent hv (hmarks branch.major))
    rw [show (registry.issue branch).1.version = versionString branch.major
      (nextSequence (registry.allocator.forMajor branch.major) branch.tip.committedAt) from rfl,
      hnone] at hrecord
    cases hrecord
  · rw [he]
    have hnext : 0 = nextAttempt (registry.current branch.major branch.tip.sha) := by
      rw [current, hc]
      rfl
    exact hh.issued h.coherent (h.extends_append hv (by omega) hnext (hmarks branch.major) rfl rfl)
      hc rfl

theorem refreshBranches_history {registry : PackageRegistry} (h : registry.InStep)
    (hh : registry.History) (created : List MaterializationJob) (branches : List SelectedBranch)
    (hr : (registry.refreshBranches created branches).2.allocator.InRange) :
    (registry.refreshBranches created branches).2.History := by
  induction branches generalizing registry created with
  | nil => exact hh
  | cons branch rest ih =>
    have hgrows := refreshBranches_grows h.coherent created (branch :: rest)
    have hfinal := refreshBranches_coherent h.coherent created (branch :: rest)
    have hmarks : ∀ m, (registry.allocator.forMajor m).highWater < 2 ^ 53 :=
      (inRange_of_grows h.exactly.coherent hfinal.allocator hgrows hr).highWater
        h.exactly.coherent
    have hadvances := refreshBranch_advances h branch hmarks
    have hnext := refreshBranch_history h hh branch hmarks
    unfold refreshBranches at hr ⊢
    cases hb : registry.refreshBranch branch with
    | mk result next =>
      rw [hb] at hadvances hnext hr
      cases result with
      | error message => exact hnext
      | ok job => exact ih hadvances.inStep hnext _ hr

theorem History.branches {registry : PackageRegistry} (h : registry.History) (state : BranchState) :
    { registry with branches := state }.History :=
  ⟨h.counted, h.dense, h.rising, h.audited, h.distinct⟩

theorem recoverVersion_history {registry : PackageRegistry} (h : registry.InStep)
    (hh : registry.History) (version reason : Str) (recoveredAt : ℤ)
    (hmarks : ∀ m, (registry.allocator.forMajor m).highWater < 2 ^ 53) :
    (registry.recoverVersion version reason recoveredAt).2.History := by
  rcases recoverVersion_cases registry version reason recoveredAt with
    ⟨message, allocator, hsame, he⟩ | ⟨record, n, hv, hs, hok, hc, he⟩
  · rw [he]
    exact hh.touchAllocator hsame
  · rw [he]
    obtain ⟨hadd, hn0, hn53, -⟩ := next_attempt h.exactly hok (hmarks record.major) hc
    have hnext : Doubles.add n 1 = nextAttempt (registry.current record.major record.commitSha) := by
      rw [current, hc]
      exact hadd
    have hextends := @InStep.extends_append registry { registry with
        allocator := registry.allocator.setMajor record.major (registry.reissue record n).2
        versions := registry.versions.set (registry.reissue record n).1.version
          (pendingRecord (registry.reissue record n).1 record.branch record.commitSha record.major)
        recoveryLog := registry.recoveryLog ++
          [⟨version, (registry.reissue record n).1.version, reason, recoveredAt⟩] } h
      _ _ _ _ _ hok (by omega) hnext (hmarks record.major) rfl rfl
    have hfree := h.version_free (nextSequence_above h.exactly.coherent hok (hmarks record.major))
    obtain ⟨record', hrecord', -, hkeep⟩ := hextends.carries version record hv
    obtain rfl := hkeep hs
    have hof := h.coherent.record version record' hv
    apply hh.recovered hextends hc rfl
    · refine ⟨record', _, hrecord', OrderedMap.get?_set_self _ _ _, hs, rfl, rfl, rfl, ?_⟩
      exact hextends.above record'.assignment (h.matched version record' hv) hof.assignedMajor
    · intro m c
      simp only [belongs, hrecord', Option.any_some]
      rfl
    · exact hfree

theorem apply_history {registry : PackageRegistry} (h : registry.InStep) (hh : registry.History)
    (op : Op) (hr : (registry.apply op).allocator.InRange) : (registry.apply op).History := by
  have hmarks : ∀ m, (registry.allocator.forMajor m).highWater < 2 ^ 53 :=
    (inRange_of_grows h.exactly.coherent (apply_coherent h.coherent op).allocator
      (apply_grows h.coherent op) hr).highWater h.exactly.coherent
  cases op with
  | refresh discovery =>
    change (registry.refresh discovery).2.allocator.InRange at hr
    change (registry.refresh discovery).2.History
    unfold refresh at hr ⊢
    cases hs : selectBranches discovery registry.branches with
    | error message => exact hh
    | ok selection =>
      rw [hs] at hr
      exact refreshBranches_history (h.branches _) (hh.branches _) _ _ hr
  | leaseNext now => exact hh.touchesOne (leaseNext_touches registry now)
  | releaseLease version => exact hh.touchesOne (releaseLease_touches registry version)
  | markReady version => exact hh.touchesOne (markReady_touches registry version)
  | markYanked version diagnostic =>
    exact hh.touchesOne (markYanked_touches registry version diagnostic)
  | recoverVersion version reason recoveredAt =>
    exact recoverVersion_history h hh version reason recoveredAt hmarks
  | reload =>
    unfold apply
    cases hs : fromSnapshot registry.snapshot with
    | error message => exact hh
    | ok restored =>
      obtain ⟨-, hsame, he⟩ := fromSnapshot_snapshot h.coherent hs
      have hversions : restored.versions = registry.versions := by rw [he]
      have hlog : restored.recoveryLog = registry.recoveryLog := by rw [he]
      apply hh.carried (held_congr (fun m k => ((hsame m).assignments k).symm))
        (fun m c => ((hsame m).currentAttempts c).symm) ?_ hlog
      apply carries_of_get?
      intro v record hv
      rw [hversions]
      exact hv

/-- A run that ends in range keeps a history all along. -/
theorem run_history {registry : PackageRegistry} (h : registry.InStep) (hh : registry.History)
    (ops : List Op) (hr : (run apply registry ops).allocator.InRange) :
    (run apply registry ops).History := by
  induction ops generalizing registry with
  | nil => exact hh
  | cons op ops ih =>
    have hc := apply_coherent h.coherent op
    have hlast := run_invariant Coherent (fun _ _ => True) (fun _ op hc _ => apply_coherent hc op)
      _ ops hc (admitted_true _ _ _)
    have hnext : (registry.apply op).allocator.InRange :=
      inRange_of_grows hc.allocator hlast.allocator (run_grows hc ops) hr
    exact ih (apply_advances h op hnext).inStep (apply_history h hh op hnext) hr

theorem recoverVersion_ok {registry : PackageRegistry} (h : registry.Coherent)
    (hr : registry.allocator.InRange) {version : Str} {record : VersionRecord}
    (hv : registry.versions.get? version = some record) (hs : record.state.published = true)
    (reason : Str) (recoveredAt : ℤ) :
    ∃ job, (registry.recoverVersion version reason recoveredAt).1 = .ok job := by
  have hof := h.record version record hv
  have hmark := hr.highWater h.allocator record.major
  have hissued := hof.issued
  obtain ⟨n, hn⟩ := hof.current
  have hok : validateInputs record.major record.commitSha record.assignment.sequence = .ok () :=
    validateInputs_ok.2 ⟨hof.majorRange, hof.commit_ne, by omega, by omega⟩
  have hrecover : ∃ x allocator, recover registry.allocator record.major record.commitSha
      record.assignment.sequence = (.ok x, allocator) := by
    rcases recover_cases registry.allocator record.major record.commitSha
        record.assignment.sequence with
      ⟨message, hbad, -⟩ | ⟨message, -, hnone, -⟩ | ⟨k, -, -, he⟩
    · rw [hok] at hbad
      cases hbad
    · rw [hn] at hnone
      cases hnone
    · exact ⟨_, _, he⟩
  obtain ⟨x, allocator, he⟩ := hrecover
  simp only [recoverVersion, hv, hs, he]
  exact ⟨_, rfl⟩

theorem recoverVersion_refused {registry : PackageRegistry} (h : registry.Coherent)
    (hr : registry.allocator.InRange) {version reason message : Str} {recoveredAt : ℤ}
    (he : (registry.recoverVersion version reason recoveredAt).1 = .error message) :
    (registry.recoverVersion version reason recoveredAt).2 = registry := by
  cases hv : registry.versions.get? version with
  | none => simp only [recoverVersion, hv]
  | some record =>
    cases hs : record.state.published with
    | false => simp only [recoverVersion, hv, hs, Bool.not_false, if_true]
    | true =>
      obtain ⟨job, hjob⟩ := recoverVersion_ok h hr hv hs reason recoveredAt
      rw [hjob] at he
      cases he

/-- Assignments, current attempts and the audit log tell the same recoveries. -/
structure RecoveryCoherent (registry : PackageRegistry) : Prop where
  attempts : ∀ major commitSha, (∃ x, registry.allocator.Held x ∧ x.major = major ∧
      x.commitSha = commitSha) → ∀ k : ℤ,
    (∃ x, registry.allocator.Held x ∧ x.major = major ∧ x.commitSha = commitSha ∧ x.attempt = k) ↔
      0 ≤ k ∧ k ≤ registry.recoveryCount major commitSha
  unique : ∀ x y, registry.allocator.Held x → registry.allocator.Held y → x.major = y.major →
    x.commitSha = y.commitSha → x.attempt = y.attempt → x = y
  rising : ∀ x y, registry.allocator.Held x → registry.allocator.Held y → x.major = y.major →
    x.commitSha = y.commitSha → x.attempt < y.attempt → x.sequence < y.sequence
  latest : ∀ x, registry.allocator.Held x →
    x.attempt = registry.recoveryCount x.major x.commitSha →
    registry.current x.major x.commitSha = some x.attempt ∧
      ∀ committedAt, validateInputs x.major x.commitSha committedAt = .ok () →
        (registry.allocator.allocate x.major x.commitSha committedAt).1 = .ok x
  audited : ∀ audit ∈ registry.recoveryLog, Audited registry audit
  distinct : (registry.recoveryLog.map RecoveryAudit.replacementVersion).Nodup
  refused : ∀ version reason message recoveredAt,
    (registry.recoverVersion version reason recoveredAt).1 = .error message →
    (registry.recoverVersion version reason recoveredAt).2 = registry

theorem held_current {registry : PackageRegistry} (h : registry.InStep) (hh : registry.History)
    {x : VersionAssignment} (hx : registry.allocator.Held x) :
    registry.current x.major x.commitSha = some (registry.recoveryCount x.major x.commitSha : ℤ) ∧
      x.attempt ≤ registry.recoveryCount x.major x.commitSha := by
  obtain ⟨n, hn, hle⟩ := (h.exactly.coherent x.major).latest _ x
    ((held_iff h.exactly.coherent x).1 hx)
  have hcount := hh.counted x.major x.commitSha n hn
  rw [← hcount]
  exact ⟨hn, hle⟩

/-- Every run whose sequences stay safe integers has a coherent recovery history. -/
theorem recoveryCoherent (name : PackageName) (ops : List Op)
    (hsafe : ∀ x ∈ (run apply (new name) ops).snapshot.allocator.assignments,
      x.sequence ≤ Doubles.maxSafeInteger) :
    RecoveryCoherent (run apply (new name) ops) := by
  have hinStep := (run_advances (inStep_new name) ops hsafe).inStep
  have hhistory := run_history (inStep_new name) (history_new name) ops hsafe
  have hcoherent := hinStep.exactly.coherent
  constructor
  case attempts =>
    rintro major commitSha ⟨y, hy, rfl, rfl⟩ k
    obtain ⟨hcurrent, -⟩ := held_current hinStep hhistory hy
    constructor
    · rintro ⟨x, hx, hm, hc, rfl⟩
      have hrange := (hcoherent x.major).attemptRange _ x ((held_iff hcoherent x).1 hx)
      have hle := (held_current hinStep hhistory hx).2
      rw [hm, hc] at hle
      exact ⟨hrange.1, hle⟩
    · rintro ⟨h0, hk⟩
      exact hhistory.dense _ _ _ hcurrent k h0 hk
  case unique =>
    intro x y hx hy hm hc ha
    have hgetx := (held_iff hcoherent x).1 hx
    have hgety := (held_iff hcoherent y).1 hy
    rw [hm, hc, ha, hgety] at hgetx
    exact (Option.some.inj hgetx).symm
  case rising => exact hhistory.rising
  case latest =>
    intro x hx hlast
    have hcurrent := (held_current hinStep hhistory hx).1
    rw [← hlast] at hcurrent
    refine ⟨hcurrent, ?_⟩
    intro committedAt hv
    have hget := (held_iff hcoherent x).1 hx
    have hattempt : (VersionAllocator.forMajor (run apply (new name) ops).allocator
      x.major).currentAttempts.get? x.commitSha = some x.attempt := hcurrent
    simp only [allocate, hv, hattempt, hget]
  case audited => exact hhistory.audited
  case distinct => exact hhistory.distinct
  case refused =>
    intro version reason message recoveredAt he
    exact recoverVersion_refused hinStep.coherent hsafe he

def repeatedRecoveries : List Op :=
  [.refresh ⟨"main".toList, OrderedMap.empty.set "main".toList ⟨"a".toList, 7⟩⟩,
    .markReady "0.1.7".toList,
    .recoverVersion "0.1.7".toList "repair".toList 1,
    .reload,
    .markReady "0.1.8".toList,
    .recoverVersion "0.1.8".toList "repair".toList 2,
    .recoverVersion "0.1.7".toList "repair".toList 3]

theorem repeatedRecoveries_coherent :
    RecoveryCoherent (run apply (new ⟨"acme".toList, "widget".toList⟩) repeatedRecoveries) :=
  recoveryCoherent _ _ (by decide)

end JsrProxy.PackageRegistry
