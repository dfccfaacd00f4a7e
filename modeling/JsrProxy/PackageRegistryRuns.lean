import JsrProxy.Executions
import JsrProxy.PackageRegistry
import JsrProxy.VersionAllocatorInvariants

set_option autoImplicit false

/-!
# Runs of the package registry

Every operation of the registry as one step, reloads included. A step that
throws leaves the registry as the throw left it in memory; a reload that throws
leaves the old registry in use.
-/
namespace JsrProxy
open Branches

namespace VersionAllocator

structure Grows (a b : VersionAllocator) : Prop where
  highWater : ∀ m, (a.forMajor m).highWater ≤ (b.forMajor m).highWater
  current : ∀ m c n, (a.forMajor m).currentAttempts.get? c = some n →
    ∃ n', (b.forMajor m).currentAttempts.get? c = some n'

theorem Grows.refl (a : VersionAllocator) : a.Grows a :=
  ⟨fun _ => le_refl _, fun _ _ n h => ⟨n, h⟩⟩

theorem Grows.trans {a b c : VersionAllocator} (h : a.Grows b) (h' : b.Grows c) : a.Grows c where
  highWater m := (h.highWater m).trans (h'.highWater m)
  current m commitSha n hn := by
    obtain ⟨n', hn'⟩ := h.current m commitSha n hn
    exact h'.current m commitSha n' hn'

theorem grows_of_forMajor {a b : VersionAllocator} (h : ∀ m, b.forMajor m = a.forMajor m) :
    a.Grows b where
  highWater m := by rw [h]
  current m c n hc := ⟨n, by rw [h]; exact hc⟩

theorem grows_touch (a : VersionAllocator) (major : ℤ) :
    a.Grows (a.setMajor major (a.forMajor major)) :=
  grows_of_forMajor (forMajor_touch a major)

theorem grows_append {a : VersionAllocator} (h : a.Coherent) {major committedAt attempt : ℤ}
    {commitSha : Str} (hv : validateInputs major commitSha committedAt = .ok ()) :
    a.Grows (a.setMajor major
      (append (a.forMajor major) major commitSha committedAt attempt).2) := by
  obtain ⟨-, -, hts, htb⟩ := validateInputs_ok.1 hv
  constructor
  · intro m
    rw [forMajor_setMajor]
    split_ifs with hm
    · subst hm
      exact ((h m).nextSequence_spec hts htb).2.2.1
    · exact le_refl _
  · intro m c n hc
    rw [forMajor_setMajor]
    split_ifs with hm
    · subst hm
      by_cases he : c = commitSha
      · subst he
        exact ⟨attempt, OrderedMap.get?_set_self _ _ _⟩
      · exact ⟨n, by simp only [append, OrderedMap.get?_set_of_ne _ _ he]; exact hc⟩
    · exact ⟨n, hc⟩

theorem grows_of_same {a b : VersionAllocator} (h : ∀ m, (a.forMajor m).Same (b.forMajor m)) :
    a.Grows b where
  highWater m := (h m).highWater.le
  current m c n hc := ⟨n, by rw [← (h m).currentAttempts]; exact hc⟩

end VersionAllocator

namespace PackageRegistry
open VersionAllocator

inductive Op
  | refresh (discovery : BranchDiscovery)
  | leaseNext (now : ℤ)
  | releaseLease (version : Str)
  | markReady (version : Str)
  | markYanked (version : Str) (diagnostic : TombstoneDiagnostic)
  | recoverVersion (version reason : Str) (recoveredAt : ℤ)
  | reload

def apply (registry : PackageRegistry) : Op → PackageRegistry
  | .refresh discovery => (registry.refresh discovery).2
  | .leaseNext now => (registry.leaseNext now).2
  | .releaseLease version => (registry.releaseLease version).2
  | .markReady version => (registry.markReady version).2
  | .markYanked version diagnostic => (registry.markYanked version diagnostic).2
  | .recoverVersion version reason recoveredAt =>
    (registry.recoverVersion version reason recoveredAt).2
  | .reload =>
    match fromSnapshot registry.snapshot with
    | .ok restored => restored
    | .error _ => registry

/-- A stored record stands under its own version, which its assignment names. -/
structure RecordOf (allocator : VersionAllocator) (v : Str) (record : VersionRecord) : Prop where
  version : record.version = v
  named : v = versionString record.major record.assignment.sequence
  assignedVersion : record.assignment.version = v
  assignedMajor : record.assignment.major = record.major
  assignedCommit : record.assignment.commitSha = record.commitSha
  majorRange : 0 ≤ record.major ∧ record.major < 2 ^ 53
  commit_ne : record.commitSha ≠ []
  issued : 0 ≤ record.assignment.sequence ∧
    record.assignment.sequence ≤ (allocator.forMajor record.major).highWater
  current : ∃ n, (allocator.forMajor record.major).currentAttempts.get? record.commitSha = some n

/-- What holds of a registry after any history whatsoever. -/
structure Coherent (registry : PackageRegistry) : Prop where
  allocator : registry.allocator.Coherent
  record : ∀ v record, registry.versions.get? v = some record →
    RecordOf registry.allocator v record
  covered : ∀ m k x, (registry.allocator.forMajor m).assignments.get? k = some x →
    ∃ record, registry.versions.get? x.version = some record

theorem RecordOf.grow {a b : VersionAllocator} (hg : a.Grows b) {v : Str} {record : VersionRecord}
    (h : RecordOf a v record) : RecordOf b v record := by
  obtain ⟨n, hn⟩ := h.current
  exact ⟨h.version, h.named, h.assignedVersion, h.assignedMajor, h.assignedCommit, h.majorRange,
    h.commit_ne, ⟨h.issued.1, h.issued.2.trans (hg.highWater _)⟩, hg.current _ _ n hn⟩

theorem coherent_new (name : PackageName) : (new name).Coherent where
  allocator := VersionAllocator.coherent_new
  record v record h := by simp [new] at h
  covered m k x h := by simp [new, forMajor_new, MajorAllocations.fresh] at h

theorem Coherent.extend {registry : PackageRegistry} (h : registry.Coherent)
    {allocator : VersionAllocator} {versions : OrderedMap Str VersionRecord} (x : VersionAssignment)
    (ha : allocator.Coherent) (hg : registry.allocator.Grows allocator)
    (hold : ∀ m k y, (allocator.forMajor m).assignments.get? k = some y →
      y = x ∨ (registry.allocator.forMajor m).assignments.get? k = some y)
    (hrec : ∀ v record, versions.get? v = some record →
      RecordOf allocator v record ∨ registry.versions.get? v = some record)
    (hkept : ∀ v record, registry.versions.get? v = some record →
      ∃ record', versions.get? v = some record')
    (hx : ∃ record, versions.get? x.version = some record)
    (log : List RecoveryAudit) (state : BranchState) :
    (PackageRegistry.mk allocator versions log registry.name state).Coherent where
  allocator := ha
  record v record hv := by
    rcases hrec v record hv with hr | hr
    · exact hr
    · exact (h.record v record hr).grow hg
  covered m k y hy := by
    rcases hold m k y hy with rfl | hy
    · exact hx
    · obtain ⟨record, hrecord⟩ := h.covered m k y hy
      exact hkept _ record hrecord

theorem Coherent.branches {registry : PackageRegistry} (h : registry.Coherent)
    (state : BranchState) : { registry with branches := state }.Coherent :=
  ⟨h.allocator, h.record, h.covered⟩

/-- Two records that differ in state, lease and diagnostic at most. -/
structure Touched (before after : VersionRecord) : Prop where
  branch : after.branch = before.branch
  commitSha : after.commitSha = before.commitSha
  major : after.major = before.major
  version : after.version = before.version
  assignment : after.assignment = before.assignment

theorem RecordOf.touched {allocator : VersionAllocator} {v : Str} {before after : VersionRecord}
    (h : RecordOf allocator v before) (ht : Touched before after) :
    RecordOf allocator v after := by
  refine ⟨ht.version.trans h.version, ?_, ?_, ?_, ?_, ?_, ?_, ?_, ?_⟩
  · rw [ht.major, ht.assignment]
    exact h.named
  · rw [ht.assignment]
    exact h.assignedVersion
  · rw [ht.major, ht.assignment]
    exact h.assignedMajor
  · rw [ht.commitSha, ht.assignment]
    exact h.assignedCommit
  · rw [ht.major]
    exact h.majorRange
  · rw [ht.commitSha]
    exact h.commit_ne
  · rw [ht.major, ht.assignment]
    exact h.issued
  · rw [ht.major, ht.commitSha]
    exact h.current

def TouchesOne (before after : PackageRegistry) : Prop :=
  after = before ∨ ∃ v record record', before.versions.get? v = some record ∧
    record.state.published = false ∧ Touched record record' ∧
    after = before.updateVersion v record'

theorem Coherent.touchesOne {before after : PackageRegistry} (h : before.Coherent)
    (ht : TouchesOne before after) : after.Coherent := by
  rcases ht with rfl | ⟨v, record, record', hv, -, ht, rfl⟩
  · exact h
  · refine ⟨h.allocator, ?_, ?_⟩
    · intro w other hw
      simp only [updateVersion, OrderedMap.get?_set] at hw
      split_ifs at hw with he
      · obtain rfl := Option.some.inj hw
        exact he ▸ (h.record v record hv).touched ht
      · exact h.record w other hw
    · intro m k x hx
      obtain ⟨other, ho⟩ := h.covered m k x hx
      simp only [updateVersion, OrderedMap.get?_set]
      split_ifs with he
      · exact ⟨record', rfl⟩
      · exact ⟨other, ho⟩

theorem requirePending_ok {registry : PackageRegistry} {version : Str} {record : VersionRecord}
    (h : registry.requirePending version = .ok record) :
    registry.versions.get? version = some record ∧ record.state.published = false := by
  unfold requirePending at h
  cases hv : registry.versions.get? version with
  | none => rw [hv] at h; cases h
  | some found =>
    rw [hv] at h
    dsimp only at h
    split_ifs at h with hs
    obtain rfl := Except.ok.inj h
    refine ⟨rfl, ?_⟩
    cases hstate : found.state <;> simp [hstate, JobState.published] at hs ⊢

theorem touched_asLeased (record : VersionRecord) (now : ℤ) : Touched record (record.asLeased now) :=
  ⟨rfl, rfl, rfl, rfl, rfl⟩

theorem touched_asPending (record : VersionRecord) : Touched record record.asPending :=
  ⟨rfl, rfl, rfl, rfl, rfl⟩

theorem touched_asReady (record : VersionRecord) : Touched record record.asReady :=
  ⟨rfl, rfl, rfl, rfl, rfl⟩

theorem touched_asYanked (record : VersionRecord) (diagnostic : TombstoneDiagnostic) :
    Touched record (record.asYanked diagnostic) := ⟨rfl, rfl, rfl, rfl, rfl⟩

theorem markReady_touches (registry : PackageRegistry) (version : Str) :
    TouchesOne registry (registry.markReady version).2 := by
  unfold markReady
  cases h : registry.requirePending version with
  | error message => exact .inl rfl
  | ok record =>
    obtain ⟨hv, hs⟩ := requirePending_ok h
    exact .inr ⟨version, record, _, hv, hs, touched_asReady _, rfl⟩

theorem markYanked_touches (registry : PackageRegistry) (version : Str)
    (diagnostic : TombstoneDiagnostic) :
    TouchesOne registry (registry.markYanked version diagnostic).2 := by
  unfold markYanked
  cases h : registry.requirePending version with
  | error message => exact .inl rfl
  | ok record =>
    obtain ⟨hv, hs⟩ := requirePending_ok h
    exact .inr ⟨version, record, _, hv, hs, touched_asYanked _ _, rfl⟩

theorem releaseLease_touches (registry : PackageRegistry) (version : Str) :
    TouchesOne registry (registry.releaseLease version).2 := by
  unfold releaseLease
  cases hv : registry.versions.get? version with
  | none => exact .inl rfl
  | some record =>
    dsimp only
    split_ifs with hs
    · exact .inl rfl
    · have hstate : record.state = .leased := Classical.not_not.1 hs
      exact .inr ⟨version, record, _, hv, by rw [hstate]; rfl, touched_asPending _, rfl⟩

theorem eligible_unpublished {now : ℤ} {record : VersionRecord} (h : eligible now record = true) :
    record.state.published = false := by
  cases hs : record.state <;> simp [eligible, hs, JobState.published] at h ⊢

theorem nextEligible_some {registry : PackageRegistry} {now : ℤ} {entry : Str × VersionRecord}
    (h : registry.nextEligible now = some entry) :
    registry.versions.get? entry.1 = some entry.2 ∧ eligible now entry.2 = true := by
  have hmem := List.mem_of_mem_head? h
  rw [List.mem_insertionSort, List.mem_filter] at hmem
  exact ⟨(OrderedMap.get?_eq_some _ _ _).2 hmem.1, hmem.2⟩

theorem nextEligible_none {registry : PackageRegistry} {now : ℤ} :
    registry.nextEligible now = none ↔
      ∀ v record, registry.versions.get? v = some record → eligible now record = false := by
  rw [nextEligible, List.head?_eq_none_iff, ← List.length_eq_zero_iff, List.length_insertionSort,
    List.length_eq_zero_iff, List.filter_eq_nil_iff]
  constructor
  · intro h v record hv
    exact Bool.eq_false_iff.2 (h (v, record) ((OrderedMap.get?_eq_some _ _ _).1 hv))
  · intro h entry hentry
    rw [h entry.1 entry.2 ((OrderedMap.get?_eq_some _ _ _).2 hentry)]
    exact Bool.false_ne_true

/-- The job that is leased next is the least one in version order. -/
theorem nextEligible_least {registry : PackageRegistry} {now : ℤ} {v w : Str}
    {record other : VersionRecord} (h : registry.nextEligible now = some (v, record))
    (hw : registry.versions.get? w = some other) (he : eligible now other = true) :
    localeLe record.version other.version = true := by
  have htotal : @Std.Total (Str × VersionRecord) fun left right =>
      localeLe left.2.version right.2.version = true :=
    ⟨fun left right => localeLe_total left.2.version right.2.version⟩
  have htrans : IsTrans (Str × VersionRecord) fun left right =>
      localeLe left.2.version right.2.version = true := ⟨fun _ _ _ => localeLe_trans⟩
  have hsorted := List.pairwise_insertionSort (fun left right : Str × VersionRecord =>
    localeLe left.2.version right.2.version = true)
    (registry.versions.entries.filter fun entry => eligible now entry.2)
  have hmem : (w, other) ∈ (registry.versions.entries.filter fun entry =>
      eligible now entry.2).insertionSort fun left right =>
        localeLe left.2.version right.2.version = true := by
    rw [List.mem_insertionSort, List.mem_filter]
    exact ⟨(OrderedMap.get?_eq_some _ _ _).1 hw, he⟩
  obtain ⟨rest, hsplit⟩ := List.head?_eq_some_iff.1 h
  rw [hsplit] at hsorted hmem
  rcases List.mem_cons.1 hmem with heq | hrest
  · obtain ⟨-, rfl⟩ := Prod.mk.inj heq
    exact (localeLe_total _ _).elim id id
  · exact (List.pairwise_cons.1 hsorted).1 _ hrest

theorem leaseNext_touches (registry : PackageRegistry) (now : ℤ) :
    TouchesOne registry (registry.leaseNext now).2 := by
  unfold leaseNext
  cases h : registry.nextEligible now with
  | none => exact .inl rfl
  | some entry =>
    obtain ⟨hv, he⟩ := nextEligible_some h
    exact .inr ⟨entry.1, entry.2, _, hv, eligible_unpublished he, touched_asLeased _ _, rfl⟩

theorem leaseNext_some {registry leased : PackageRegistry} {now : ℤ} {job : MaterializationJob}
    (h : registry.leaseNext now = (some job, leased)) :
    ∃ version record, registry.nextEligible now = some (version, record) ∧
      job = (record.asLeased now).toMaterializationJob ∧
      leased = registry.updateVersion version (record.asLeased now) := by
  unfold leaseNext at h
  cases hnext : registry.nextEligible now with
  | none =>
    rw [hnext] at h
    cases h
  | some entry =>
    rw [hnext, Prod.mk.injEq, Option.some.injEq] at h
    exact ⟨entry.1, entry.2, rfl, h.1.symm, h.2.symm⟩

theorem releaseLease_asLeased (registry : PackageRegistry) (version : Str) (record : VersionRecord)
    (now : ℤ) : (registry.updateVersion version (record.asLeased now)).releaseLease version =
      (.ok (), registry.updateVersion version record.asPending) := by
  have hself : (registry.versions.set version (record.asLeased now)).get? version
      = some (record.asLeased now) := OrderedMap.get?_set_self _ _ _
  unfold releaseLease
  simp only [updateVersion, hself]
  rw [if_neg (by simp [VersionRecord.asLeased])]
  simp only [OrderedMap.set_set]
  rfl

def issue (registry : PackageRegistry) (branch : SelectedBranch) :
    VersionAssignment × MajorAllocations :=
  append (registry.allocator.forMajor branch.major) branch.major branch.tip.sha
    branch.tip.committedAt 0

def reissue (registry : PackageRegistry) (record : VersionRecord) (n : ℤ) :
    VersionAssignment × MajorAllocations :=
  append (registry.allocator.forMajor record.major) record.major record.commitSha
    record.assignment.sequence (Doubles.add n 1)

/-- Everything `refreshBranch` can do. A new assignment whose version is already
    taken gets no record: this happens only when the mark is stuck at `2^53`. -/
theorem refreshBranch_cases {registry : PackageRegistry} (h : registry.Coherent)
    (branch : SelectedBranch) :
    (∃ message, validateInputs branch.major branch.tip.sha branch.tip.committedAt = .error message ∧
      registry.refreshBranch branch = (.error message, registry)) ∨
    (∃ n x, validateInputs branch.major branch.tip.sha branch.tip.committedAt = .ok () ∧
      (registry.allocator.forMajor branch.major).currentAttempts.get? branch.tip.sha = some n ∧
      (registry.allocator.forMajor branch.major).assignments.get? (key branch.tip.sha n) = some x ∧
      registry.refreshBranch branch = (.ok none, { registry with
        allocator := registry.allocator.setMajor branch.major
          (registry.allocator.forMajor branch.major) })) ∨
    (∃ record, validateInputs branch.major branch.tip.sha branch.tip.committedAt = .ok () ∧
      (registry.allocator.forMajor branch.major).currentAttempts.get? branch.tip.sha = none ∧
      registry.versions.get? (registry.issue branch).1.version = some record ∧
      registry.refreshBranch branch = (.ok none, { registry with
        allocator := registry.allocator.setMajor branch.major (registry.issue branch).2 })) ∨
    (validateInputs branch.major branch.tip.sha branch.tip.committedAt = .ok () ∧
      (registry.allocator.forMajor branch.major).currentAttempts.get? branch.tip.sha = none ∧
      registry.versions.get? (registry.issue branch).1.version = none ∧
      registry.refreshBranch branch =
        (.ok (some (pendingRecord (registry.issue branch).1 branch.branch branch.tip.sha
            branch.major).toMaterializationJob),
          { registry with
            allocator := registry.allocator.setMajor branch.major (registry.issue branch).2
            versions := registry.versions.set (registry.issue branch).1.version
              (pendingRecord (registry.issue branch).1 branch.branch branch.tip.sha
                branch.major) })) := by
  rcases allocate_cases h.allocator branch.major branch.tip.sha branch.tip.committedAt with
    ⟨message, hv, he⟩ | ⟨n, x, hv, hc, hx, he⟩ | ⟨hv, hc, he⟩
  · exact .inl ⟨message, hv, by simp only [refreshBranch, he]⟩
  · obtain ⟨record, hrecord⟩ := h.covered branch.major _ x hx
    exact .inr (.inl ⟨n, x, hv, hc, hx, by simp only [refreshBranch, he, hrecord]⟩)
  · cases hr : registry.versions.get? (registry.issue branch).1.version with
    | some record =>
      refine .inr (.inr (.inl ⟨record, hv, hc, rfl, ?_⟩))
      simp only [issue] at hr
      simp only [refreshBranch, he, hr]
      rfl
    | none =>
      refine .inr (.inr (.inr ⟨hv, hc, rfl, ?_⟩))
      simp only [issue] at hr
      simp only [refreshBranch, he, hr]
      rfl

/-- Everything `recoverVersion` can do: throw without touching a record, or file a
    replacement under the version of the next attempt. -/
theorem recoverVersion_cases (registry : PackageRegistry) (version reason : Str)
    (recoveredAt : ℤ) :
    (∃ message allocator, (∀ m, allocator.forMajor m = registry.allocator.forMajor m) ∧
      registry.recoverVersion version reason recoveredAt =
        (.error message, { registry with allocator := allocator })) ∨
    (∃ record n, registry.versions.get? version = some record ∧ record.state.published = true ∧
      validateInputs record.major record.commitSha record.assignment.sequence = .ok () ∧
      (registry.allocator.forMajor record.major).currentAttempts.get? record.commitSha = some n ∧
      registry.recoverVersion version reason recoveredAt =
        (.ok (pendingRecord (registry.reissue record n).1 record.branch record.commitSha
            record.major).toMaterializationJob,
          { registry with
            allocator := registry.allocator.setMajor record.major (registry.reissue record n).2
            versions := registry.versions.set (registry.reissue record n).1.version
              (pendingRecord (registry.reissue record n).1 record.branch record.commitSha
                record.major)
            recoveryLog := registry.recoveryLog ++
              [⟨version, (registry.reissue record n).1.version, reason, recoveredAt⟩] })) := by
  unfold recoverVersion
  cases hv : registry.versions.get? version with
  | none => exact .inl ⟨_, registry.allocator, fun _ => rfl, rfl⟩
  | some record =>
    dsimp only
    by_cases hs : record.state.published = true
    · rw [if_neg (by simp [hs])]
      rcases recover_cases registry.allocator record.major record.commitSha
        record.assignment.sequence with ⟨message, -, he⟩ | ⟨message, -, -, he⟩ | ⟨n, hok, hc, he⟩
      · exact .inl ⟨message, registry.allocator, fun _ => rfl, by rw [he]⟩
      · exact .inl ⟨message, _, forMajor_touch registry.allocator record.major, by rw [he]⟩
      · exact .inr ⟨record, n, rfl, hs, hok, hc, by rw [he]; rfl⟩
    · rw [if_pos (by simpa using hs)]
      exact .inl ⟨_, registry.allocator, fun _ => rfl, rfl⟩

theorem append_assignments {allocator : VersionAllocator} {major committedAt attempt : ℤ}
    {commitSha k : Str} {m : ℤ} {y : VersionAssignment}
    (h : ((allocator.setMajor major (append (allocator.forMajor major) major commitSha committedAt
      attempt).2).forMajor m).assignments.get? k = some y) :
    y = (append (allocator.forMajor major) major commitSha committedAt attempt).1 ∨
      (allocator.forMajor m).assignments.get? k = some y := by
  rw [forMajor_setMajor] at h
  split_ifs at h with hm
  · simp only [append, OrderedMap.get?_set] at h
    split_ifs at h
    · exact .inl (Option.some.inj h).symm
    · exact .inr (hm ▸ h)
  · exact .inr h

theorem recordOf_appended {allocator : VersionAllocator} (h : allocator.Coherent)
    {major committedAt attempt : ℤ} {commitSha : Str}
    (hv : validateInputs major commitSha committedAt = .ok ()) (branch : Str) :
    RecordOf (allocator.setMajor major
        (append (allocator.forMajor major) major commitSha committedAt attempt).2)
      (append (allocator.forMajor major) major commitSha committedAt attempt).1.version
      (pendingRecord (append (allocator.forMajor major) major commitSha committedAt attempt).1
        branch commitSha major) := by
  obtain ⟨hmajor, hsha, hts, htb⟩ := validateInputs_ok.1 hv
  have hself := forMajor_setMajor_self allocator major
    (append (allocator.forMajor major) major commitSha committedAt attempt).2
  refine ⟨rfl, rfl, rfl, rfl, rfl, hmajor, hsha, ⟨((h major).nextSequence_spec hts htb).1, ?_⟩, ?_⟩
  · exact (congrArg MajorAllocations.highWater hself).ge
  · refine ⟨attempt, ?_⟩
    change ((allocator.setMajor major _).forMajor major).currentAttempts.get? commitSha = _
    rw [hself]
    exact OrderedMap.get?_set_self _ _ _

theorem get?_set_old {versions : OrderedMap Str VersionRecord} {v w : Str}
    {new record : VersionRecord} (h : (versions.set w new).get? v = some record) :
    (v = w ∧ record = new) ∨ versions.get? v = some record := by
  rw [OrderedMap.get?_set] at h
  split_ifs at h with he
  · exact .inl ⟨he, (Option.some.inj h).symm⟩
  · exact .inr h

theorem get?_set_some (versions : OrderedMap Str VersionRecord) (v w : Str)
    (new record : VersionRecord) (h : versions.get? v = some record) :
    ∃ record', (versions.set w new).get? v = some record' := by
  rw [OrderedMap.get?_set]
  split_ifs
  · exact ⟨new, rfl⟩
  · exact ⟨record, h⟩

theorem Coherent.touchAllocator {registry : PackageRegistry} (h : registry.Coherent)
    {allocator : VersionAllocator}
    (he : ∀ m, allocator.forMajor m = registry.allocator.forMajor m) :
    { registry with allocator := allocator }.Coherent where
  allocator m := by
    rw [he]
    exact h.allocator m
  record v record hv := (h.record v record hv).grow (grows_of_forMajor he)
  covered m k x hx := by
    rw [he] at hx
    exact h.covered m k x hx

theorem refreshBranch_coherent {registry : PackageRegistry} (h : registry.Coherent)
    (branch : SelectedBranch) : (registry.refreshBranch branch).2.Coherent := by
  rcases refreshBranch_cases h branch with
    ⟨message, -, he⟩ | ⟨n, x, -, -, -, he⟩ | ⟨record, hv, hc, hrecord, he⟩ | ⟨hv, hc, hfree, he⟩
  · rw [he]
    exact h
  · rw [he]
    exact h.touchAllocator (forMajor_touch _ _)
  · rw [he]
    exact h.extend (registry.issue branch).1 (h.allocator.setMajor (h.allocator.append_zero hv hc))
      (grows_append h.allocator hv) (fun m k y hy => append_assignments hy)
      (fun v record hv => .inr hv) (fun v record hv => ⟨record, hv⟩) ⟨record, hrecord⟩ _ _
  · rw [he]
    refine h.extend (registry.issue branch).1
      (h.allocator.setMajor (h.allocator.append_zero hv hc))
      (grows_append h.allocator hv) (fun m k y hy => append_assignments hy) ?_
      (fun v record hv => get?_set_some _ v _ _ record hv) ⟨_, OrderedMap.get?_set_self _ _ _⟩ _ _
    intro v record hv'
    rcases get?_set_old hv' with ⟨rfl, rfl⟩ | hold
    · exact .inl (recordOf_appended h.allocator hv branch.branch)
    · exact .inr hold

theorem refreshBranches_coherent {registry : PackageRegistry} (h : registry.Coherent)
    (created : List MaterializationJob) (branches : List SelectedBranch) :
    (registry.refreshBranches created branches).2.Coherent := by
  induction branches generalizing registry created with
  | nil => exact h
  | cons branch rest ih =>
    have hnext := refreshBranch_coherent h branch
    unfold refreshBranches
    cases hb : registry.refreshBranch branch with
    | mk result next =>
      rw [hb] at hnext
      cases result with
      | error message => exact hnext
      | ok job => exact ih hnext _

theorem refresh_coherent {registry : PackageRegistry} (h : registry.Coherent)
    (discovery : BranchDiscovery) : (registry.refresh discovery).2.Coherent := by
  unfold refresh
  cases selectBranches discovery registry.branches with
  | error message => exact h
  | ok selection => exact refreshBranches_coherent (h.branches _) _ _

theorem recoverVersion_coherent {registry : PackageRegistry} (h : registry.Coherent)
    (version reason : Str) (recoveredAt : ℤ) :
    (registry.recoverVersion version reason recoveredAt).2.Coherent := by
  rcases recoverVersion_cases registry version reason recoveredAt with
    ⟨message, allocator, hsame, he⟩ | ⟨record, n, -, -, hv, hc, he⟩
  · rw [he]
    exact h.touchAllocator hsame
  · rw [he]
    refine h.extend (registry.reissue record n).1
      (h.allocator.setMajor (h.allocator.append_next hv hc))
      (grows_append h.allocator hv) (fun m k y hy => append_assignments hy) ?_
      (fun v record hv => get?_set_some _ v _ _ record hv) ⟨_, OrderedMap.get?_set_self _ _ _⟩ _ _
    intro v other hv'
    rcases get?_set_old hv' with ⟨rfl, rfl⟩ | hold
    · exact .inl (recordOf_appended h.allocator hv record.branch)
    · exact .inr hold

theorem restoreVersions_entries (versions : OrderedMap Str VersionRecord)
    (es : List (Str × VersionRecord)) (hnodup : ((versions.entries ++ es).map Prod.fst).Nodup)
    (hkeyed : ∀ e ∈ es, e.2.version = e.1) :
    restoreVersions versions (es.map Prod.snd) =
      .ok (es.foldl (fun acc e => acc.set e.1 e.2) versions) := by
  induction es generalizing versions with
  | nil => rfl
  | cons e es ih =>
    have hkey : e.2.version = e.1 := hkeyed e List.mem_cons_self
    have hnew : e.1 ∉ versions.entries.map Prod.fst := by
      rw [List.map_append, List.nodup_append] at hnodup
      intro hm
      exact hnodup.2.2 e.1 hm e.1 (by simp) rfl
    have hfree : versions.has e.2.version = false := by
      rw [hkey, OrderedMap.has, (OrderedMap.get?_eq_none _ _).2 hnew]
      rfl
    have hset : (versions.set e.1 e.2).entries = versions.entries ++ [e] :=
      OrderedMap.entries_set_new versions e.2 hnew
    rw [List.map_cons, restoreVersions, if_neg (by rw [hfree]; exact Bool.false_ne_true), hkey,
      List.foldl_cons]
    apply ih
    · rw [hset, List.append_assoc, List.singleton_append]
      exact hnodup
    · intro f hf
      exact hkeyed f (List.mem_cons_of_mem _ hf)

theorem restoreVersions_values {versions : OrderedMap Str VersionRecord}
    (h : ∀ v record, versions.get? v = some record → record.version = v) :
    restoreVersions .empty versions.values = .ok versions := by
  have hnodup : ((OrderedMap.empty.entries ++ versions.entries).map Prod.fst).Nodup := versions.nodup
  have hkeyed : ∀ e ∈ versions.entries, e.2.version = e.1 := by
    intro e he
    exact h e.1 e.2 ((OrderedMap.get?_eq_some _ _ _).2 he)
  rw [OrderedMap.values, restoreVersions_entries _ _ hnodup hkeyed]
  congr 1
  exact OrderedMap.ext_entries (OrderedMap.foldl_set_entries _ _ hnodup)

/-- A reload that succeeds gives back the records and an allocator with the same
    assignments, marks and current attempts. -/
theorem fromSnapshot_snapshot {registry restored : PackageRegistry} (h : registry.Coherent)
    (hr : fromSnapshot registry.snapshot = .ok restored) :
    restored.allocator.Coherent ∧
      (∀ m, (registry.allocator.forMajor m).Same (restored.allocator.forMajor m)) ∧
      restored = { registry with allocator := restored.allocator } := by
  have hversions := restoreVersions_values (fun v record hv => (h.record v record hv).version)
  unfold fromSnapshot at hr
  cases ha : VersionAllocator.fromSnapshot registry.snapshot.allocator with
  | error message => rw [ha] at hr; cases hr
  | ok allocator =>
    rw [ha, show restoreVersions .empty registry.snapshot.versions = .ok registry.versions from
      hversions] at hr
    obtain rfl := Except.ok.inj hr
    obtain ⟨hc, hsame⟩ := fromSnapshot_same h.allocator ha
    exact ⟨hc, hsame, rfl⟩

theorem reload_coherent {registry : PackageRegistry} (h : registry.Coherent) :
    (registry.apply .reload).Coherent := by
  unfold apply
  cases hr : fromSnapshot registry.snapshot with
  | error message => exact h
  | ok restored =>
    obtain ⟨hc, hsame, he⟩ := fromSnapshot_snapshot h hr
    dsimp only
    rw [he]
    refine ⟨hc, ?_, ?_⟩
    · intro v record hv
      exact (h.record v record hv).grow (grows_of_same hsame)
    · intro m k x hx
      rw [← (hsame m).assignments] at hx
      exact h.covered m k x hx

theorem apply_coherent {registry : PackageRegistry} (h : registry.Coherent) (op : Op) :
    (registry.apply op).Coherent := by
  cases op with
  | refresh discovery => exact refresh_coherent h discovery
  | leaseNext now => exact h.touchesOne (leaseNext_touches registry now)
  | releaseLease version => exact h.touchesOne (releaseLease_touches registry version)
  | markReady version => exact h.touchesOne (markReady_touches registry version)
  | markYanked version diagnostic =>
    exact h.touchesOne (markYanked_touches registry version diagnostic)
  | recoverVersion version reason recoveredAt =>
    exact recoverVersion_coherent h version reason recoveredAt
  | reload => exact reload_coherent h

/-- Every history, whatever its numbers and however often it throws, is coherent. -/
theorem run_coherent (name : PackageName) (ops : List Op) :
    (Executions.run apply (new name) ops).Coherent :=
  Executions.run_invariant Coherent (fun _ _ => True) (fun _ op h _ => apply_coherent h op) _ ops
    (coherent_new name) (Executions.admitted_true _ _ _)

end PackageRegistry
end JsrProxy
