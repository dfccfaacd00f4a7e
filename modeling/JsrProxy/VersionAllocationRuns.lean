import JsrProxy.IssuedAssignments

set_option autoImplicit false

/-!
# Version allocation over whole runs

As long as every sequence stays a safe integer, records and assignments match
one to one, each new version is above all earlier ones of its major, and only a
recovery moves a commit to another version.
-/
namespace JsrProxy
open Branches Executions

namespace VersionAllocator

def currentVersion (allocator : VersionAllocator) (major : ℤ) (commitSha : Str) : Option Str :=
  match (allocator.forMajor major).currentAttempts.get? commitSha with
  | none => none
  | some n => ((allocator.forMajor major).assignments.get? (key commitSha n)).map (·.version)

theorem currentVersion_congr {a b : VersionAllocator} {major : ℤ} {commitSha : Str}
    (hc : (b.forMajor major).currentAttempts.get? commitSha
      = (a.forMajor major).currentAttempts.get? commitSha)
    (ha : ∀ n, (b.forMajor major).assignments.get? (key commitSha n)
      = (a.forMajor major).assignments.get? (key commitSha n)) :
    b.currentVersion major commitSha = a.currentVersion major commitSha := by
  simp only [currentVersion, hc, ha]

theorem currentVersion_touch (allocator : VersionAllocator) (touched major : ℤ) (commitSha : Str) :
    (allocator.setMajor touched (allocator.forMajor touched)).currentVersion major commitSha
      = allocator.currentVersion major commitSha :=
  currentVersion_congr (by rw [forMajor_touch]) (fun n => by rw [forMajor_touch])

theorem currentVersion_append (allocator : VersionAllocator) {major m committedAt attempt : ℤ}
    {commitSha c : Str} (h : ¬ (m = major ∧ c = commitSha)) :
    (allocator.setMajor major
      (append (allocator.forMajor major) major commitSha committedAt attempt).2).currentVersion m c
      = allocator.currentVersion m c := by
  apply currentVersion_congr
  · rw [forMajor_setMajor]
    split_ifs with hm
    · have hne : c ≠ commitSha := fun hc => h ⟨hm, hc⟩
      simp only [append]
      rw [OrderedMap.get?_set_of_ne _ _ hne, hm]
    · rfl
  · intro n
    rw [forMajor_setMajor]
    split_ifs with hm
    · have hne : key c n ≠ key commitSha attempt := fun hk => h ⟨hm, (key_inj hk).1⟩
      simp only [append]
      rw [OrderedMap.get?_set_of_ne _ _ hne, hm]
    · rfl

end VersionAllocator

namespace PackageRegistry
open VersionAllocator

/-- Records and assignments are in step: every record stands for an assignment. -/
structure InStep (registry : PackageRegistry) : Prop where
  coherent : registry.Coherent
  exactly : registry.allocator.Exact
  matched : ∀ v record, registry.versions.get? v = some record →
    registry.allocator.Held record.assignment

theorem inStep_new (name : PackageName) : (new name).InStep where
  coherent := coherent_new name
  exactly := exact_new
  matched v record h := by simp [new] at h

/-- Two assignments of one version are one assignment. -/
theorem InStep.version_inj {registry : PackageRegistry} (h : registry.InStep)
    {x y : VersionAssignment} (hx : registry.allocator.Held x) (hy : registry.allocator.Held y)
    (hv : x.version = y.version) : x = y := by
  have hgx := (held_iff h.exactly.coherent x).1 hx
  have hgy := (held_iff h.exactly.coherent y).1 hy
  have hnx := ((h.exactly.coherent x.major).ofMajor _ x hgx).2.1
  have hny := ((h.exactly.coherent y.major).ofMajor _ y hgy).2.1
  rw [hnx, hny] at hv
  obtain ⟨hm, hs⟩ := versionString_inj hv
  exact h.exactly.distinct x y hx hy hm hs

theorem InStep.recorded {registry : PackageRegistry} (h : registry.InStep)
    {x : VersionAssignment} (hx : registry.allocator.Held x) :
    ∃ record, registry.versions.get? x.version = some record ∧ record.assignment = x := by
  obtain ⟨record, hr⟩ :=
    h.coherent.covered _ _ x ((held_iff h.exactly.coherent x).1 hx)
  have hversion := (h.coherent.record _ record hr).assignedVersion
  exact ⟨record, hr, h.version_inj (h.matched _ record hr) hx hversion⟩

theorem InStep.version_free {registry : PackageRegistry} (h : registry.InStep) {major sequence : ℤ}
    (habove : ∀ y, registry.allocator.Held y → y.major = major → y.sequence < sequence) :
    registry.versions.get? (versionString major sequence) = none := by
  cases hr : registry.versions.get? (versionString major sequence) with
  | none => rfl
  | some record =>
    have hrecord := h.coherent.record _ record hr
    obtain ⟨hm, hs⟩ := versionString_inj hrecord.named
    have hlt := habove record.assignment (h.matched _ record hr)
      (hrecord.assignedMajor.trans hm.symm)
    omega

def branchIssues (registry : PackageRegistry) (branch : SelectedBranch) :
    List (VersionAssignment × ℤ) :=
  match registry.refreshBranch branch with
  | (.ok (some job), next) => ((next.versions.get? job.version).map fun record =>
      (record.assignment, branch.tip.committedAt)).toList
  | _ => []

def branchesIssues (registry : PackageRegistry) : List SelectedBranch → List (VersionAssignment × ℤ)
  | [] => []
  | branch :: rest =>
    match registry.refreshBranch branch with
    | (.error _, _) => []
    | (.ok _, next) => branchIssues registry branch ++ branchesIssues next rest

def refreshIssues (registry : PackageRegistry) (discovery : BranchDiscovery) :
    List (VersionAssignment × ℤ) :=
  match selectBranches discovery registry.branches with
  | .error _ => []
  | .ok selection => branchesIssues { registry with branches := selection.state } selection.branches

def issues (registry : PackageRegistry) : Op → List (VersionAssignment × ℤ)
  | .refresh discovery => refreshIssues registry discovery
  | .recoverVersion version reason recoveredAt =>
    match registry.recoverVersion version reason recoveredAt, registry.versions.get? version with
    | (.ok job, next), some superseded => ((next.versions.get? job.version).map fun record =>
        (record.assignment, superseded.assignment.sequence)).toList
    | _, _ => []
  | _ => []

def issueLog : PackageRegistry → List Op → List (VersionAssignment × ℤ)
  | _, [] => []
  | registry, op :: ops => issues registry op ++ issueLog (registry.apply op) ops

/-- A registry in step moves to one in step, and `log` lists what it issued. -/
structure Advances (before after : PackageRegistry) (log : List (VersionAssignment × ℤ)) : Prop where
  inStep : after.InStep
  issued : Issued before.allocator after.allocator log

theorem Advances.append {a b c : PackageRegistry} {log log' : List (VersionAssignment × ℤ)}
    (h : Advances a b log) (h' : Advances b c log') : Advances a c (log ++ log') :=
  ⟨h'.inStep, h.issued.append h'.issued⟩

theorem InStep.advances_nil {before after : PackageRegistry} (h : before.InStep)
    (hc : after.Coherent) (ha : ∀ x, after.allocator.Held x ↔ before.allocator.Held x)
    (hr : ∀ v record, after.versions.get? v = some record →
      ∃ record', before.versions.get? v = some record' ∧ record.assignment = record'.assignment) :
    Advances before after [] where
  inStep := by
    refine ⟨hc, h.exactly.of_held hc.allocator ha, ?_⟩
    intro v record hv
    obtain ⟨record', hv', he⟩ := hr v record hv
    rw [ha, he]
    exact h.matched v record' hv'
  issued := issued_nil ha

theorem InStep.touchesOne {before after : PackageRegistry} (h : before.InStep)
    (ht : TouchesOne before after) : Advances before after [] := by
  have hc := h.coherent.touchesOne ht
  rcases ht with rfl | ⟨v, record, record', hv, -, ht, rfl⟩
  · exact h.advances_nil hc (fun _ => Iff.rfl) (fun _ record hr => ⟨record, hr, rfl⟩)
  · refine h.advances_nil hc (fun _ => Iff.rfl) ?_
    intro w other hw
    simp only [updateVersion, OrderedMap.get?_set] at hw
    split_ifs at hw with he
    · obtain rfl := Option.some.inj hw
      exact ⟨record, he ▸ hv, ht.assignment⟩
    · exact ⟨other, hw, rfl⟩

theorem InStep.advances_append {registry : PackageRegistry} (h : registry.InStep)
    {major committedAt attempt : ℤ} {commitSha : Str} (after : PackageRegistry) (branch : Str)
    (hv : validateInputs major commitSha committedAt = .ok ())
    (hrange : 0 ≤ attempt ∧ attempt ≤ 2 ^ 53)
    (hn : ∀ n, (registry.allocator.forMajor major).currentAttempts.get? commitSha = some n →
      n < attempt)
    (hmark : (registry.allocator.forMajor major).highWater < 2 ^ 53)
    (hattempt : attempt ≤ nextSequence (registry.allocator.forMajor major) committedAt)
    (hafter : after.Coherent)
    (hallocator : after.allocator = registry.allocator.setMajor major
      (append (registry.allocator.forMajor major) major commitSha committedAt attempt).2)
    (hversions : after.versions = registry.versions.set
      (append (registry.allocator.forMajor major) major commitSha committedAt attempt).1.version
      (pendingRecord (append (registry.allocator.forMajor major) major commitSha committedAt
        attempt).1 branch commitSha major)) :
    Advances registry after
      [((append (registry.allocator.forMajor major) major commitSha committedAt attempt).1,
        committedAt)] where
  inStep := by
    refine ⟨hafter, ?_, ?_⟩
    · rw [hallocator]
      exact exact_append h.exactly hv hrange hn hmark hattempt
    · intro v record hr
      rw [hallocator, held_append h.exactly.coherent hv hrange hn]
      rw [hversions] at hr
      rcases get?_set_old hr with ⟨-, rfl⟩ | hold
      · exact .inr rfl
      · exact .inl (h.matched v record hold)
  issued := by
    rw [hallocator]
    exact issued_append h.exactly.coherent hv hrange hn hmark

theorem branchIssues_of_created {registry next : PackageRegistry} {branch : SelectedBranch}
    {record : VersionRecord}
    (he : registry.refreshBranch branch = (.ok (some record.toMaterializationJob), next))
    (hr : next.versions.get? record.version = some record) :
    branchIssues registry branch = [(record.assignment, branch.tip.committedAt)] := by
  simp only [branchIssues, he, hr, Option.map_some, Option.toList_some]

theorem branchIssues_of_none {registry next : PackageRegistry} {branch : SelectedBranch}
    (he : registry.refreshBranch branch = (.ok none, next)) : branchIssues registry branch = [] := by
  simp only [branchIssues, he]

theorem branchIssues_of_error {registry next : PackageRegistry} {branch : SelectedBranch}
    {message : Str} (he : registry.refreshBranch branch = (.error message, next)) :
    branchIssues registry branch = [] := by
  simp only [branchIssues, he]

theorem refreshBranch_advances {registry : PackageRegistry} (h : registry.InStep)
    (branch : SelectedBranch) (hmarks : ∀ m, (registry.allocator.forMajor m).highWater < 2 ^ 53) :
    Advances registry (registry.refreshBranch branch).2 (branchIssues registry branch) := by
  have hcoherent := refreshBranch_coherent h.coherent branch
  rcases refreshBranch_cases h.coherent branch with
    ⟨message, -, he⟩ | ⟨n, x, -, -, -, he⟩ | ⟨record, hv, -, hrecord, he⟩ | ⟨hv, hc, hfree, he⟩
  · rw [branchIssues_of_error he, he]
    exact h.advances_nil h.coherent (fun _ => Iff.rfl) (fun _ record hr => ⟨record, hr, rfl⟩)
  · rw [branchIssues_of_none he]
    rw [he] at hcoherent ⊢
    exact h.advances_nil hcoherent (held_touch _ _) (fun _ record hr => ⟨record, hr, rfl⟩)
  · have hnone := h.version_free (nextSequence_above h.exactly.coherent hv (hmarks branch.major))
    rw [show (registry.issue branch).1.version = versionString branch.major
      (nextSequence (registry.allocator.forMajor branch.major) branch.tip.committedAt) from rfl,
      hnone] at hrecord
    cases hrecord
  · have hset := OrderedMap.get?_set_self registry.versions (registry.issue branch).1.version
      (pendingRecord (registry.issue branch).1 branch.branch branch.tip.sha branch.major)
    rw [branchIssues_of_created he hset]
    rw [he] at hcoherent ⊢
    obtain ⟨-, -, hts, htb⟩ := validateInputs_ok.1 hv
    have hn : ∀ n, (registry.allocator.forMajor branch.major).currentAttempts.get? branch.tip.sha
        = some n → n < 0 := by
      intro n hn
      rw [hc] at hn
      cases hn
    exact h.advances_append _ branch.branch hv (by omega) hn (hmarks branch.major)
      ((h.exactly.coherent branch.major).nextSequence_spec hts htb).1 hcoherent rfl rfl

theorem refreshBranch_grows {registry : PackageRegistry} (h : registry.Coherent)
    (branch : SelectedBranch) :
    registry.allocator.Grows (registry.refreshBranch branch).2.allocator := by
  rcases refreshBranch_cases h branch with
    ⟨message, -, he⟩ | ⟨n, x, -, -, -, he⟩ | ⟨record, hv, -, -, he⟩ | ⟨hv, -, -, he⟩ <;> rw [he]
  · exact .refl _
  · exact grows_touch _ _
  · exact grows_append h.allocator hv
  · exact grows_append h.allocator hv

theorem refreshBranches_grows {registry : PackageRegistry} (h : registry.Coherent)
    (created : List MaterializationJob) (branches : List SelectedBranch) :
    registry.allocator.Grows (registry.refreshBranches created branches).2.allocator := by
  induction branches generalizing registry created with
  | nil => exact .refl _
  | cons branch rest ih =>
    have hnext := refreshBranch_coherent h branch
    have hgrows := refreshBranch_grows h branch
    unfold refreshBranches
    cases hb : registry.refreshBranch branch with
    | mk result next =>
      rw [hb] at hnext hgrows
      cases result with
      | error message => exact hgrows
      | ok job => exact hgrows.trans (ih hnext _)

theorem touchesOne_allocator {before after : PackageRegistry} (h : TouchesOne before after) :
    after.allocator = before.allocator := by
  rcases h with rfl | ⟨v, record, record', -, -, -, rfl⟩ <;> rfl

theorem apply_grows {registry : PackageRegistry} (h : registry.Coherent) (op : Op) :
    registry.allocator.Grows (registry.apply op).allocator := by
  have htouch : ∀ after, TouchesOne registry after → registry.allocator.Grows after.allocator := by
    intro after ht
    rw [touchesOne_allocator ht]
    exact .refl _
  cases op with
  | refresh discovery =>
    change registry.allocator.Grows (registry.refresh discovery).2.allocator
    unfold refresh
    cases selectBranches discovery registry.branches with
    | error message => exact .refl _
    | ok selection => exact refreshBranches_grows (h.branches selection.state) _ _
  | leaseNext now => exact htouch _ (leaseNext_touches registry now)
  | releaseLease version => exact htouch _ (releaseLease_touches registry version)
  | markReady version => exact htouch _ (markReady_touches registry version)
  | markYanked version diagnostic => exact htouch _ (markYanked_touches registry version diagnostic)
  | recoverVersion version reason recoveredAt =>
    change registry.allocator.Grows (registry.recoverVersion version reason recoveredAt).2.allocator
    rcases recoverVersion_cases registry version reason recoveredAt with
      ⟨message, allocator, hsame, he⟩ | ⟨record, n, -, -, hv, -, he⟩ <;> rw [he]
    · exact grows_of_forMajor hsame
    · exact grows_append h.allocator hv
  | reload =>
    unfold apply
    cases hr : fromSnapshot registry.snapshot with
    | error message => exact .refl _
    | ok restored => exact grows_of_same (fromSnapshot_snapshot h hr).2.1

theorem run_grows {registry : PackageRegistry} (h : registry.Coherent) (ops : List Op) :
    registry.allocator.Grows (run apply registry ops).allocator :=
  run_related Coherent (fun _ _ => True) (fun a b => a.allocator.Grows b.allocator)
    (fun _ op hc _ => apply_coherent hc op) (fun _ op hc _ => apply_grows hc op)
    (fun a => .refl a.allocator) (fun _ _ _ hab hbc => hab.trans hbc) registry ops h (admitted_true _ _ _)

theorem refreshBranches_advances {registry : PackageRegistry} (h : registry.InStep)
    (created : List MaterializationJob) (branches : List SelectedBranch)
    (hr : (registry.refreshBranches created branches).2.allocator.InRange) :
    Advances registry (registry.refreshBranches created branches).2
      (branchesIssues registry branches) := by
  induction branches generalizing registry created with
  | nil => exact h.advances_nil h.coherent (fun _ => Iff.rfl) (fun _ record hv => ⟨record, hv, rfl⟩)
  | cons branch rest ih =>
    have hgrows := refreshBranches_grows h.coherent created (branch :: rest)
    have hfinal := refreshBranches_coherent h.coherent created (branch :: rest)
    have hmarks : ∀ m, (registry.allocator.forMajor m).highWater < 2 ^ 53 :=
      (inRange_of_grows h.exactly.coherent hfinal.allocator hgrows hr).highWater
        h.exactly.coherent
    have hstep := refreshBranch_advances h branch hmarks
    unfold refreshBranches at hr ⊢
    unfold branchesIssues
    cases hb : registry.refreshBranch branch with
    | mk result next =>
      rw [hb] at hstep hr
      cases result with
      | error message =>
        rw [branchIssues_of_error hb] at hstep
        exact hstep
      | ok job => exact hstep.append (ih hstep.inStep _ hr)

theorem InStep.branches {registry : PackageRegistry} (h : registry.InStep) (state : BranchState) :
    { registry with branches := state }.InStep := ⟨h.coherent.branches state, h.exactly, h.matched⟩

theorem refresh_advances {registry : PackageRegistry} (h : registry.InStep)
    (discovery : BranchDiscovery) (hr : (registry.refresh discovery).2.allocator.InRange) :
    Advances registry (registry.refresh discovery).2 (refreshIssues registry discovery) := by
  unfold refresh at hr ⊢
  unfold refreshIssues
  cases hs : selectBranches discovery registry.branches with
  | error message =>
    exact h.advances_nil h.coherent (fun _ => Iff.rfl) (fun _ record hv => ⟨record, hv, rfl⟩)
  | ok selection =>
    rw [hs] at hr
    have hadvances := refreshBranches_advances (h.branches selection.state) [] selection.branches hr
    exact ⟨hadvances.inStep, hadvances.issued⟩

theorem recoverVersion_advances {registry : PackageRegistry} (h : registry.InStep)
    (version reason : Str) (recoveredAt : ℤ)
    (hmarks : ∀ m, (registry.allocator.forMajor m).highWater < 2 ^ 53) :
    Advances registry (registry.recoverVersion version reason recoveredAt).2
      (issues registry (.recoverVersion version reason recoveredAt)) := by
  have hcoherent := recoverVersion_coherent h.coherent version reason recoveredAt
  rcases recoverVersion_cases registry version reason recoveredAt with
    ⟨message, allocator, hsame, he⟩ | ⟨record, n, hv, -, hok, hc, he⟩
  · have hissues : issues registry (.recoverVersion version reason recoveredAt) = [] := by
      simp only [issues, he]
    rw [hissues]
    rw [he] at hcoherent ⊢
    exact h.advances_nil hcoherent (held_congr (fun m k => by rw [hsame]))
      (fun _ record hr => ⟨record, hr, rfl⟩)
  · have hset := OrderedMap.get?_set_self registry.versions (registry.reissue record n).1.version
      (pendingRecord (registry.reissue record n).1 record.branch record.commitSha record.major)
    have hissues : issues registry (.recoverVersion version reason recoveredAt)
        = [((registry.reissue record n).1, record.assignment.sequence)] := by
      simp only [issues, he, hv]
      change (Option.map _ (OrderedMap.get? _ (registry.reissue record n).1.version)).toList = _
      rw [hset]
      rfl
    rw [hissues]
    rw [he] at hcoherent ⊢
    obtain ⟨hadd, hn0, hn53, hle⟩ := next_attempt h.exactly hok (hmarks record.major) hc
    have hfresh : ∀ k, (registry.allocator.forMajor record.major).currentAttempts.get?
        record.commitSha = some k → k < Doubles.add n 1 := by
      intro k hk
      have hkn : k = n := Option.some.inj (hk.symm.trans hc)
      omega
    exact h.advances_append _ record.branch hok (by omega) hfresh (hmarks record.major)
      (by omega) hcoherent rfl rfl

theorem apply_advances {registry : PackageRegistry} (h : registry.InStep) (op : Op)
    (hr : (registry.apply op).allocator.InRange) :
    Advances registry (registry.apply op) (issues registry op) := by
  have hcoherent := apply_coherent h.coherent op
  have hmarks : ∀ m, (registry.allocator.forMajor m).highWater < 2 ^ 53 :=
    (inRange_of_grows h.exactly.coherent hcoherent.allocator (apply_grows h.coherent op) hr).highWater
      h.exactly.coherent
  cases op with
  | refresh discovery => exact refresh_advances h discovery hr
  | leaseNext now => exact h.touchesOne (leaseNext_touches registry now)
  | releaseLease version => exact h.touchesOne (releaseLease_touches registry version)
  | markReady version => exact h.touchesOne (markReady_touches registry version)
  | markYanked version diagnostic => exact h.touchesOne (markYanked_touches registry version diagnostic)
  | recoverVersion version reason recoveredAt =>
    exact recoverVersion_advances h version reason recoveredAt hmarks
  | reload =>
    unfold apply at hcoherent ⊢
    unfold issues
    cases hs : fromSnapshot registry.snapshot with
    | error message =>
      exact h.advances_nil h.coherent (fun _ => Iff.rfl) (fun _ record hv => ⟨record, hv, rfl⟩)
    | ok restored =>
      rw [hs] at hcoherent
      obtain ⟨-, hsame, he⟩ := fromSnapshot_snapshot h.coherent hs
      refine h.advances_nil hcoherent
        (held_congr (fun m k => ((hsame m).assignments k).symm)) ?_
      intro v record hv
      rw [he] at hv
      exact ⟨record, hv, rfl⟩

/-- A run that ends in range was in range all along. -/
theorem run_advances {registry : PackageRegistry} (h : registry.InStep) (ops : List Op)
    (hr : (run apply registry ops).allocator.InRange) :
    Advances registry (run apply registry ops) (issueLog registry ops) := by
  induction ops generalizing registry with
  | nil => exact h.advances_nil h.coherent (fun _ => Iff.rfl) (fun _ record hv => ⟨record, hv, rfl⟩)
  | cons op ops ih =>
    have hc := apply_coherent h.coherent op
    have hnext : (registry.apply op).allocator.InRange :=
      inRange_of_grows hc.allocator (run_invariant Coherent (fun _ _ => True)
        (fun _ op hc _ => apply_coherent hc op) _ ops hc (admitted_true _ _ _)).allocator
        (run_grows hc ops) hr
    have hstep := apply_advances h op hnext
    exact hstep.append (ih hstep.inStep hr)

def Recovers (major : ℤ) (commitSha : Str) (registry : PackageRegistry) : Op → Prop
  | .recoverVersion version reason recoveredAt =>
    ∃ job, (registry.recoverVersion version reason recoveredAt).1 = .ok job ∧
      job.major = major ∧ job.commitSha = commitSha
  | _ => False

theorem refreshBranch_current {registry : PackageRegistry} (h : registry.Coherent)
    (branch : SelectedBranch) {major : ℤ} {commitSha v : Str}
    (hv : registry.allocator.currentVersion major commitSha = some v) :
    (registry.refreshBranch branch).2.allocator.currentVersion major commitSha = some v := by
  have hnew : (registry.allocator.forMajor branch.major).currentAttempts.get? branch.tip.sha = none →
      ¬ (major = branch.major ∧ commitSha = branch.tip.sha) := by
    rintro hc ⟨rfl, rfl⟩
    simp only [currentVersion, hc] at hv
    cases hv
  rcases refreshBranch_cases h branch with
    ⟨message, -, he⟩ | ⟨n, x, -, -, -, he⟩ | ⟨record, -, hc, -, he⟩ | ⟨-, hc, -, he⟩ <;> rw [he]
  · exact hv
  · exact (currentVersion_touch _ _ _ _).trans hv
  · exact (currentVersion_append _ (hnew hc)).trans hv
  · exact (currentVersion_append _ (hnew hc)).trans hv

theorem refreshBranches_current {registry : PackageRegistry} (h : registry.Coherent)
    (created : List MaterializationJob) (branches : List SelectedBranch) {major : ℤ}
    {commitSha v : Str} (hv : registry.allocator.currentVersion major commitSha = some v) :
    (registry.refreshBranches created branches).2.allocator.currentVersion major commitSha
      = some v := by
  induction branches generalizing registry created with
  | nil => exact hv
  | cons branch rest ih =>
    have hcoherent := refreshBranch_coherent h branch
    have hnext := refreshBranch_current h branch hv
    unfold refreshBranches
    cases hb : registry.refreshBranch branch with
    | mk result next =>
      rw [hb] at hcoherent hnext
      cases result with
      | error message => exact hnext
      | ok job => exact ih hcoherent _ hnext

theorem apply_current {registry : PackageRegistry} (h : registry.Coherent) {op : Op} {major : ℤ}
    {commitSha v : Str} (hop : ¬ Recovers major commitSha registry op)
    (hv : registry.allocator.currentVersion major commitSha = some v) :
    (registry.apply op).allocator.currentVersion major commitSha = some v := by
  have htouch : ∀ after, TouchesOne registry after →
      after.allocator.currentVersion major commitSha = some v := by
    intro after ht
    rw [touchesOne_allocator ht]
    exact hv
  cases op with
  | refresh discovery =>
    change (registry.refresh discovery).2.allocator.currentVersion major commitSha = _
    unfold refresh
    cases selectBranches discovery registry.branches with
    | error message => exact hv
    | ok selection => exact refreshBranches_current (h.branches selection.state) _ _ hv
  | leaseNext now => exact htouch _ (leaseNext_touches registry now)
  | releaseLease version => exact htouch _ (releaseLease_touches registry version)
  | markReady version => exact htouch _ (markReady_touches registry version)
  | markYanked version diagnostic => exact htouch _ (markYanked_touches registry version diagnostic)
  | recoverVersion version reason recoveredAt =>
    change (registry.recoverVersion version reason recoveredAt).2.allocator.currentVersion
      major commitSha = _
    rcases recoverVersion_cases registry version reason recoveredAt with
      ⟨message, allocator, hsame, he⟩ | ⟨record, n, -, -, -, -, he⟩
    · rw [he]
      exact (currentVersion_congr (by rw [hsame]) (fun k => by rw [hsame])).trans hv
    · have hother : ¬ (major = record.major ∧ commitSha = record.commitSha) := by
        rintro ⟨rfl, rfl⟩
        exact hop ⟨_, congrArg Prod.fst he, rfl, rfl⟩
      rw [he]
      exact (currentVersion_append _ hother).trans hv
  | reload =>
    unfold apply
    cases hs : fromSnapshot registry.snapshot with
    | error message => exact hv
    | ok restored =>
      obtain ⟨-, hsame, -⟩ := fromSnapshot_snapshot h hs
      exact (currentVersion_congr ((hsame major).currentAttempts commitSha).symm
        (fun n => ((hsame major).assignments _).symm)).trans hv

theorem run_current {registry : PackageRegistry} (h : registry.Coherent) (ops : List Op)
    {major : ℤ} {commitSha v : Str}
    (hops : Admitted apply (fun s op => ¬ Recovers major commitSha s op) registry ops)
    (hv : registry.allocator.currentVersion major commitSha = some v) :
    (run apply registry ops).allocator.currentVersion major commitSha = some v :=
  (run_invariant (fun s => s.Coherent ∧ s.allocator.currentVersion major commitSha = some v)
    (fun s op => ¬ Recovers major commitSha s op)
    (fun _ op hs hop => ⟨apply_coherent hs.1 op, apply_current hs.1 hop hs.2⟩)
    registry ops ⟨h, hv⟩ hops).2

theorem refreshBranch_reuses {registry : PackageRegistry} (h : registry.Coherent)
    (branch : SelectedBranch) {v : Str}
    (hv : registry.allocator.currentVersion branch.major branch.tip.sha = some v)
    (hok : validateInputs branch.major branch.tip.sha branch.tip.committedAt = .ok ()) :
    (registry.refreshBranch branch).1 = .ok none ∧
      (registry.refreshBranch branch).2.versions = registry.versions := by
  rcases refreshBranch_cases h branch with
    ⟨message, he, -⟩ | ⟨n, x, -, -, -, he⟩ | ⟨record, -, hc, -, -⟩ | ⟨-, hc, -, -⟩
  · rw [hok] at he
    cases he
  · rw [he]
    exact ⟨rfl, rfl⟩
  · simp only [currentVersion, hc] at hv
    cases hv
  · simp only [currentVersion, hc] at hv
    cases hv

/-- What a run has allocated, and to whom. -/
structure AllocatesInOrder (name : PackageName) (ops : List Op) : Prop where
  unique : ∀ x ∈ (run apply (new name) ops).snapshot.allocator.assignments,
    ∀ y ∈ (run apply (new name) ops).snapshot.allocator.assignments, x.version = y.version →
      x.major = y.major ∧ x.commitSha = y.commitSha ∧ x.attempt = y.attempt
  recordAssigned : ∀ v record, (run apply (new name) ops).versions.get? v = some record →
    record.assignment ∈ (run apply (new name) ops).snapshot.allocator.assignments ∧
      record.version = v ∧ record.assignment.version = v ∧
      record.assignment.major = record.major ∧ record.assignment.commitSha = record.commitSha
  assignmentRecorded : ∀ x ∈ (run apply (new name) ops).snapshot.allocator.assignments,
    ∃! record, record ∈ (run apply (new name) ops).versions.values ∧ record.assignment = x
  logged : ∀ x, x ∈ (run apply (new name) ops).snapshot.allocator.assignments ↔
    ∃ e ∈ issueLog (new name) ops, e.1 = x
  increasing : (issueLog (new name) ops).Pairwise fun d e =>
    d.1.major = e.1.major → d.1.sequence < e.1.sequence
  stamped : ∀ e ∈ issueLog (new name) ops, e.2 ≤ e.1.sequence
  kept : ∀ before after major commitSha v, ops = before ++ after →
    (run apply (new name) before).allocator.currentVersion major commitSha = some v →
    Admitted apply (fun s op => ¬ Recovers major commitSha s op)
      (run apply (new name) before) after →
    (run apply (new name) ops).allocator.currentVersion major commitSha = some v ∧
      ∀ branch, branch.major = major → branch.tip.sha = commitSha →
        validateInputs major commitSha branch.tip.committedAt = .ok () →
        ((run apply (new name) ops).refreshBranch branch).1 = .ok none ∧
          ((run apply (new name) ops).refreshBranch branch).2.versions
            = (run apply (new name) ops).versions

/-- Every run whose sequences are safe integers allocates each version once and in
    order, and keeps records and assignments in step. -/
theorem allocatesInOrder (name : PackageName) (ops : List Op)
    (hsafe : ∀ x ∈ (run apply (new name) ops).snapshot.allocator.assignments,
      x.sequence ≤ Doubles.maxSafeInteger) :
    AllocatesInOrder name ops := by
  obtain ⟨hinStep, hissued⟩ := run_advances (inStep_new name) ops hsafe
  have hcoherent := hinStep.coherent
  have hnone : ∀ x, ¬ (new name).allocator.Held x := by
    intro x hx
    have hget := (held_iff VersionAllocator.coherent_new x).1 hx
    simp [forMajor_new, MajorAllocations.fresh] at hget
  constructor
  case unique =>
    intro x hx y hy hv
    obtain rfl := hinStep.version_inj hx hy hv
    exact ⟨rfl, rfl, rfl⟩
  case recordAssigned =>
    intro v record hv
    have hrecord := hcoherent.record v record hv
    exact ⟨hinStep.matched v record hv, hrecord.version, hrecord.assignedVersion,
      hrecord.assignedMajor, hrecord.assignedCommit⟩
  case assignmentRecorded =>
    intro x hx
    obtain ⟨record, hv, he⟩ := hinStep.recorded hx
    refine ⟨record, ⟨(OrderedMap.mem_values _ _).2 ⟨_, hv⟩, he⟩, ?_⟩
    rintro other ⟨hother, rfl⟩
    obtain ⟨w, hw⟩ := (OrderedMap.mem_values _ _).1 hother
    rw [(hcoherent.record w other hw).assignedVersion, hw] at hv
    exact Option.some.inj hv
  case logged =>
    intro x
    refine (hissued.held x).trans ⟨?_, .inr⟩
    rintro (hx | hx)
    · exact absurd hx (hnone x)
    · exact hx
  case increasing => exact hissued.ordered
  case stamped => exact hissued.stamped
  case kept =>
    intro before after major commitSha v heq hv hops
    have hkept := run_current (run_coherent name before) after hops hv
    rw [← run_append, ← heq] at hkept
    refine ⟨hkept, ?_⟩
    rintro branch rfl rfl hok
    exact refreshBranch_reuses hcoherent branch hkept hok

def equalStampsRun : List Op :=
  [.refresh ⟨"main".toList, OrderedMap.empty.set "main".toList ⟨"a".toList, 7⟩⟩,
    .markReady "0.1.7".toList,
    .refresh ⟨"main".toList, OrderedMap.empty.set "main".toList ⟨"b".toList, 7⟩⟩,
    .recoverVersion "0.1.7".toList "repair".toList 1,
    .reload,
    .refresh ⟨"main".toList, OrderedMap.empty.set "main".toList ⟨"b".toList, 3⟩⟩]

theorem equalStampsRun_allocatesInOrder :
    AllocatesInOrder ⟨"acme".toList, "widget".toList⟩ equalStampsRun :=
  allocatesInOrder _ _ (by decide)

end PackageRegistry
end JsrProxy
