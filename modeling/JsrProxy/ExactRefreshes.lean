import JsrProxy.RecoveryHistories
import JsrProxy.RefusedDiscoveries

set_option autoImplicit false

/-!
# What a refresh creates, and what it repeats

A refresh creates one job for each selected tip that its major has not seen, and
nothing the second time. A mark stuck at `2^53` breaks the first half only: the
version it repeats already has a record.
-/
namespace JsrProxy
open Branches VersionAllocator Executions

namespace Branches

theorem highest_unique {majors : Set ℤ} {a b : Option ℤ} (ha : Highest majors a)
    (hb : Highest majors b) : a = b := by
  cases a with
  | none =>
    cases b with
    | none => rfl
    | some m =>
      have hmem := hb.1
      rw [show majors = ∅ from ha] at hmem
      exact absurd hmem (Set.notMem_empty m)
  | some m =>
    cases b with
    | none =>
      have hmem := ha.1
      rw [show majors = ∅ from hb] at hmem
      exact absurd hmem (Set.notMem_empty m)
    | some n => rw [IsGreatest.unique ha hb]

theorem observedAfter_again (discovery : BranchDiscovery) (prior : BranchState) :
    observedAfter discovery ⟨observedAfter discovery prior⟩ = observedAfter discovery prior := by
  have hfirst := observedAfter_greatest discovery prior
  have hsecond := observedAfter_greatest discovery ⟨observedAfter discovery prior⟩
  apply highest_unique hsecond
  dsimp only
  cases ho : observedAfter discovery prior with
  | none =>
    rw [ho] at hfirst
    have hnone := (Set.union_empty_iff.1 hfirst).2
    simpa [Highest] using hnone
  | some highest =>
    rw [ho] at hfirst
    refine ⟨.inl rfl, ?_⟩
    rintro m (hm | hm)
    · exact (Option.some.inj hm).ge
    · exact hfirst.2 (.inr hm)

theorem selectBranches_again {discovery : BranchDiscovery} {prior : BranchState}
    {selection : BranchSelection} (h : selectBranches discovery prior = .ok selection) :
    selectBranches discovery selection.state = .ok selection := by
  obtain ⟨defaultTip, hd⟩ := selectBranches_default h
  rw [selectBranches_ok hd] at h
  rw [← Except.ok.inj h, selectBranches_ok hd, observedAfter_again]

/-- Two selected branches never share a major. -/
theorem selectBranches_distinct {discovery : BranchDiscovery} {prior : BranchState}
    (hprior : prior.InRange) {selection : BranchSelection}
    (h : selectBranches discovery prior = .ok selection) :
    (selection.branches.map SelectedBranch.major).Nodup := by
  obtain ⟨defaultTip, hd⟩ := selectBranches_default h
  rw [selectBranches_ok hd] at h
  rw [← Except.ok.inj h]
  apply selection_distinct (observedAfter_greatest discovery prior)
  · rintro m (hm | ⟨e, -, hm⟩)
    · exact hprior m hm
    · exact releaseMajor_range hm
  · intro r hr
    obtain ⟨hentry, hmajor⟩ := mem_releasesOf.1 hr
    exact .inr ⟨_, hentry, hmajor⟩

end Branches

namespace PackageRegistry

theorem Coherent.version_free {registry : PackageRegistry} (h : registry.Coherent)
    {major sequence : ℤ} (habove : (registry.allocator.forMajor major).highWater < sequence) :
    registry.versions.get? (versionString major sequence) = none := by
  cases hv : registry.versions.get? (versionString major sequence) with
  | none => rfl
  | some record =>
    have hof := h.record _ record hv
    obtain ⟨hmajor, hsequence⟩ := versionString_inj hof.named
    have hissued := hof.issued.2
    rw [← hmajor, ← hsequence] at hissued
    omega

theorem Coherent.version_taken {registry : PackageRegistry} (h : registry.Coherent) {major : ℤ}
    (hmark : (registry.allocator.forMajor major).highWater = 2 ^ 53) :
    ∃ record, registry.versions.get? (versionString major (2 ^ 53)) = some record := by
  rcases (h.allocator major).reached with hnone | ⟨k, x, hx, hsequence⟩
  · omega
  · obtain ⟨record, hrecord⟩ := h.covered major k x hx
    rw [((h.allocator major).ofMajor k x hx).2.1, hsequence, hmark] at hrecord
    exact ⟨record, hrecord⟩

/-- A tip that its major has not seen, in a major whose mark can still rise. -/
def Creates (registry : PackageRegistry) (branch : SelectedBranch) : Prop :=
  registry.current branch.major branch.tip.sha = none ∧
    (registry.allocator.forMajor branch.major).highWater < 2 ^ 53

instance (registry : PackageRegistry) (branch : SelectedBranch) :
    Decidable (Creates registry branch) :=
  inferInstanceAs (Decidable (_ ∧ _))

def freshRecord (registry : PackageRegistry) (branch : SelectedBranch) : VersionRecord :=
  pendingRecord (registry.issue branch).1 branch.branch branch.tip.sha branch.major

def Filed (registry : PackageRegistry) (job : MaterializationJob) : Prop :=
  job.state = .pending ∧ ∃ record, registry.versions.get? job.version = some record ∧
    record.toMaterializationJob = job

theorem refreshBranch_creates {registry : PackageRegistry} (h : registry.Coherent)
    {branch : SelectedBranch}
    (hv : validateInputs branch.major branch.tip.sha branch.tip.committedAt = .ok ())
    (hc : Creates registry branch) :
    ∃ job, (registry.refreshBranch branch).1 = .ok (some job) ∧ job.major = branch.major ∧
      job.commitSha = branch.tip.sha ∧ Filed (registry.refreshBranch branch).2 job := by
  obtain ⟨-, -, hstamp, hbound⟩ := validateInputs_ok.1 hv
  have hspec := (h.allocator branch.major).nextSequence_spec hstamp hbound
  rcases refreshBranch_cases h branch with
    ⟨message, hbad, -⟩ | ⟨n, x, -, hn, -, -⟩ | ⟨record, -, -, hrecord, -⟩ | ⟨-, -, -, he⟩
  · rw [hv] at hbad
    cases hbad
  · have hnone := hc.1
    rw [current, hn] at hnone
    cases hnone
  · have hfree := h.version_free (hspec.2.2.2.2 hc.2)
    rw [show (registry.issue branch).1.version = versionString branch.major
      (nextSequence (registry.allocator.forMajor branch.major) branch.tip.committedAt) from rfl,
      hfree] at hrecord
    cases hrecord
  · rw [he]
    exact ⟨_, rfl, rfl, rfl, rfl, _, OrderedMap.get?_set_self _ _ _, rfl⟩

theorem refreshBranch_repeats {registry : PackageRegistry} (h : registry.Coherent)
    {branch : SelectedBranch}
    (hv : validateInputs branch.major branch.tip.sha branch.tip.committedAt = .ok ())
    (hc : ¬ Creates registry branch) : (registry.refreshBranch branch).1 = .ok none := by
  rcases refreshBranch_cases h branch with
    ⟨message, hbad, -⟩ | ⟨n, x, -, -, -, he⟩ | ⟨record, -, -, -, he⟩ | ⟨-, hn, hfree, he⟩
  · rw [hv] at hbad
    cases hbad
  · rw [he]
  · rw [he]
  · exfalso
    apply hc
    refine ⟨hn, ?_⟩
    -- at the mark `2^53` the issued version would be taken
    by_contra hge
    have hmark : (registry.allocator.forMajor branch.major).highWater = 2 ^ 53 := by
      have := (h.allocator branch.major).bounded
      omega
    obtain ⟨record, hrecord⟩ := h.version_taken hmark
    have hnext := MajorAllocations.Coherent.nextSequence_saturated
      (validateInputs_ok.1 hv).2.2.2 hmark
    rw [show (registry.issue branch).1.version = versionString branch.major
      (nextSequence (registry.allocator.forMajor branch.major) branch.tip.committedAt) from rfl,
      hnext, hrecord] at hfree
    cases hfree

theorem Filed.kept {before after : PackageRegistry} {job : MaterializationJob}
    (hkept : ∀ v record, before.versions.get? v = some record →
      after.versions.get? v = some record) (h : Filed before job) : Filed after job := by
  obtain ⟨hs, record, hv, he⟩ := h
  exact ⟨hs, record, hkept _ _ hv, he⟩

def jobTip (job : MaterializationJob) : ℤ × Str := (job.major, job.commitSha)

def selectedTip (branch : SelectedBranch) : ℤ × Str := (branch.major, branch.tip.sha)

theorem creates_next {registry : PackageRegistry} (h : registry.Coherent)
    {branch other : SelectedBranch}
    (hv : validateInputs branch.major branch.tip.sha branch.tip.committedAt = .ok ())
    (hne : branch.major ≠ other.major) :
    Creates (registry.refreshBranch branch).2 other ↔ Creates registry other := by
  have hfor := refreshBranch_forMajor h hv other.major
  rw [if_neg hne] at hfor
  simp only [Creates, current, hfor]

theorem freshRecord_next {registry : PackageRegistry} (h : registry.Coherent)
    {branch other : SelectedBranch}
    (hv : validateInputs branch.major branch.tip.sha branch.tip.committedAt = .ok ())
    (hne : branch.major ≠ other.major) :
    (registry.refreshBranch branch).2.freshRecord other = registry.freshRecord other := by
  have hfor := refreshBranch_forMajor h hv other.major
  rw [if_neg hne] at hfor
  simp only [freshRecord, issue, hfor]

theorem refreshBranch_get?_iff {registry : PackageRegistry} (h : registry.Coherent)
    {branch : SelectedBranch}
    (hv : validateInputs branch.major branch.tip.sha branch.tip.committedAt = .ok ())
    (v : Str) (record : VersionRecord) :
    (registry.refreshBranch branch).2.versions.get? v = some record ↔
      registry.versions.get? v = some record ∨ Creates registry branch ∧ v = record.version ∧
        record = registry.freshRecord branch := by
  by_cases hc : Creates registry branch
  · obtain ⟨-, -, hstamp, hbound⟩ := validateInputs_ok.1 hv
    have hfree := h.version_free
      (((h.allocator branch.major).nextSequence_spec hstamp hbound).2.2.2.2 hc.2)
    change registry.versions.get? (registry.issue branch).1.version = none at hfree
    have hversions : (registry.refreshBranch branch).2.versions = registry.versions.set
        (registry.issue branch).1.version (registry.freshRecord branch) := by
      rcases refreshBranch_cases h branch with
        ⟨message, hbad, -⟩ | ⟨n, x, -, hn, -, -⟩ | ⟨taken, -, -, htaken, -⟩ | ⟨-, -, -, he⟩
      · rw [hv] at hbad
        cases hbad
      · have hnone := hc.1
        rw [current, hn] at hnone
        cases hnone
      · rw [hfree] at htaken
        cases htaken
      · rw [he]
        rfl
    rw [hversions, OrderedMap.get?_set]
    constructor
    · intro hset
      split_ifs at hset with hsame
      · obtain rfl := Option.some.inj hset
        exact .inr ⟨hc, hsame, rfl⟩
      · exact .inl hset
    · rintro (hold | ⟨-, rfl, rfl⟩)
      · rw [if_neg]
        · exact hold
        · rintro rfl
          rw [hfree] at hold
          cases hold
      · exact if_pos rfl
  · have hkept : (registry.refreshBranch branch).2.versions = registry.versions := by
      have hnone := refreshBranch_repeats h hv hc
      rcases refreshBranch_cases h branch with
        ⟨message, -, he⟩ | ⟨n, x, -, -, -, he⟩ | ⟨taken, -, -, -, he⟩ | ⟨-, -, -, he⟩
      · rw [he]
      · rw [he]
      · rw [he]
      · rw [he] at hnone
        cases hnone
    rw [hkept]
    exact ⟨.inl, fun hcase => hcase.resolve_right fun hnew => hc hnew.1⟩

/-- A pass over valid branches of different majors files one record for each tip that
    creates one, and leaves the others. -/
theorem refreshBranches_get?_iff {registry : PackageRegistry} (h : registry.Coherent)
    (created : List MaterializationJob) {branches : List SelectedBranch}
    (hdistinct : (branches.map SelectedBranch.major).Nodup)
    (hv : ∀ b ∈ branches, validateInputs b.major b.tip.sha b.tip.committedAt = .ok ())
    (v : Str) (record : VersionRecord) :
    (registry.refreshBranches created branches).2.versions.get? v = some record ↔
      registry.versions.get? v = some record ∨ ∃ b ∈ branches, Creates registry b ∧
        v = record.version ∧ record = registry.freshRecord b := by
  induction branches generalizing registry created with
  | nil => simp [refreshBranches]
  | cons first rest ih =>
    rw [List.map_cons, List.nodup_cons] at hdistinct
    have hvalid := hv first List.mem_cons_self
    have hcoherent := refreshBranch_coherent h first
    have hfirst := refreshBranch_get?_iff h hvalid v record
    obtain ⟨job, hjob⟩ := refreshBranch_created h hvalid
    have hlater : ∀ b ∈ rest,
        (Creates (registry.refreshBranch first).2 b ↔ Creates registry b) ∧
          (registry.refreshBranch first).2.freshRecord b = registry.freshRecord b := by
      intro b hb
      have hne : first.major ≠ b.major := by
        intro hsame
        apply hdistinct.1
        rw [hsame]
        exact List.mem_map_of_mem hb
      exact ⟨creates_next h hvalid hne, freshRecord_next h hvalid hne⟩
    unfold refreshBranches
    cases hb : registry.refreshBranch first with
    | mk result next =>
      rw [hb] at hcoherent hjob hfirst hlater
      obtain rfl : result = .ok job := hjob
      dsimp only at hfirst hlater ⊢
      rw [ih hcoherent _ hdistinct.2 (fun b hm => hv b (List.mem_cons_of_mem _ hm)), hfirst,
        or_assoc]
      refine or_congr_right ?_
      rw [List.exists_mem_cons_iff]
      refine or_congr_right (exists_congr fun b => and_congr_right fun hm => ?_)
      rw [(hlater b hm).1, (hlater b hm).2]

/-- A pass over valid branches of different majors creates one job for each tip that
    creates one on its own, in their order. -/
theorem refreshBranches_created_tips {registry : PackageRegistry} (h : registry.Coherent)
    (created : List MaterializationJob) {branches : List SelectedBranch}
    (hdistinct : (branches.map SelectedBranch.major).Nodup)
    (hv : ∀ b ∈ branches, validateInputs b.major b.tip.sha b.tip.committedAt = .ok ()) :
    ∃ jobs, (registry.refreshBranches created branches).1 = .ok (created ++ jobs) ∧
      jobs.map jobTip
        = (branches.filter fun b => Creates registry b).map selectedTip ∧
      ∀ job ∈ jobs, Filed (registry.refreshBranches created branches).2 job := by
  induction branches generalizing registry created with
  | nil => exact ⟨[], by rw [List.append_nil]; rfl, rfl, fun job hj => absurd hj List.not_mem_nil⟩
  | cons branch rest ih =>
    rw [List.map_cons, List.nodup_cons] at hdistinct
    have hvalid := hv branch List.mem_cons_self
    have hcoherent := refreshBranch_coherent h branch
    have hfilter : (rest.filter fun b => Creates (registry.refreshBranch branch).2 b)
        = rest.filter fun b => Creates registry b := by
      apply List.filter_congr
      intro b hb
      have hne : branch.major ≠ b.major := by
        intro hsame
        apply hdistinct.1
        rw [hsame]
        exact List.mem_map_of_mem hb
      rw [decide_eq_decide]
      exact creates_next h hvalid hne
    by_cases hc : Creates registry branch
    · obtain ⟨job, hjob, hmajor, hcommit, hfiled⟩ := refreshBranch_creates h hvalid hc
      unfold refreshBranches
      cases hb : registry.refreshBranch branch with
      | mk result next =>
        rw [hb] at hcoherent hjob hfiled hfilter
        obtain rfl : result = .ok (some job) := hjob
        obtain ⟨jobs, hresult, htips, hall⟩ := ih hcoherent (created ++ [job]) hdistinct.2
          (fun b hm => hv b (List.mem_cons_of_mem _ hm))
        refine ⟨job :: jobs, ?_, ?_, ?_⟩
        · rw [List.append_assoc, List.singleton_append] at hresult
          exact hresult
        · rw [List.filter_cons, if_pos (decide_eq_true hc), List.map_cons, List.map_cons, htips,
            hfilter, jobTip, selectedTip, hmajor, hcommit]
        · intro other ho
          rcases List.mem_cons.1 ho with rfl | ho
          · exact hfiled.kept (refreshBranches_get? hcoherent _ rest)
          · exact hall other ho
    · have hnone := refreshBranch_repeats h hvalid hc
      unfold refreshBranches
      cases hb : registry.refreshBranch branch with
      | mk result next =>
        rw [hb] at hcoherent hnone hfilter
        obtain rfl : result = .ok none := hnone
        obtain ⟨jobs, hresult, htips, hall⟩ := ih hcoherent (created ++ []) hdistinct.2
          (fun b hm => hv b (List.mem_cons_of_mem _ hm))
        refine ⟨jobs, ?_, ?_, hall⟩
        · refine hresult.trans ?_
          rw [List.append_nil]
        · have hnot : ¬ decide (Creates registry branch) = true := by
            rw [decide_eq_true_eq]
            exact hc
          rw [List.filter_cons, if_neg hnot, htips, hfilter]

def OwnRecord (registry : PackageRegistry) (branch : SelectedBranch) : Prop :=
  ∃ v record, registry.allocator.currentVersion branch.major branch.tip.sha = some v ∧
    registry.versions.get? v = some record ∧ record.major = branch.major ∧
    record.commitSha = branch.tip.sha

theorem refreshBranches_own {registry : PackageRegistry} (h : registry.Coherent)
    (created : List MaterializationJob) (branches : List SelectedBranch) {branch : SelectedBranch}
    (ho : OwnRecord registry branch) :
    OwnRecord (registry.refreshBranches created branches).2 branch := by
  obtain ⟨v, record, hcurrent, hv, hmajor, hcommit⟩ := ho
  exact ⟨v, record, refreshBranches_current h created branches hcurrent,
    refreshBranches_get? h created branches v record hv, hmajor, hcommit⟩

theorem refreshBranch_own {registry : PackageRegistry} (h : registry.Coherent)
    {branch : SelectedBranch}
    (hv : validateInputs branch.major branch.tip.sha branch.tip.committedAt = .ok ())
    (hc : Creates registry branch) : OwnRecord (registry.refreshBranch branch).2 branch := by
  obtain ⟨job, hjob, -⟩ := refreshBranch_creates h hv hc
  rcases refreshBranch_cases h branch with
    ⟨message, -, he⟩ | ⟨n, x, -, -, -, he⟩ | ⟨record, -, -, -, he⟩ | ⟨-, -, -, he⟩
  · rw [he] at hjob
    cases hjob
  · rw [he] at hjob
    cases hjob
  · rw [he] at hjob
    cases hjob
  · rw [he]
    refine ⟨_, _, ?_, OrderedMap.get?_set_self _ _ _, rfl, rfl⟩
    simp only [currentVersion, forMajor_setMajor, if_true, issue, append, OrderedMap.get?_set_self,
      Option.map_some]

theorem refreshBranches_creates_own {registry : PackageRegistry} (h : registry.Coherent)
    (created : List MaterializationJob) {branches : List SelectedBranch}
    (hdistinct : (branches.map SelectedBranch.major).Nodup)
    (hv : ∀ b ∈ branches, validateInputs b.major b.tip.sha b.tip.committedAt = .ok ())
    {branch : SelectedBranch} (hmem : branch ∈ branches) (hc : Creates registry branch) :
    OwnRecord (registry.refreshBranches created branches).2 branch := by
  induction branches generalizing registry created with
  | nil => cases hmem
  | cons first rest ih =>
    rw [List.map_cons, List.nodup_cons] at hdistinct
    have hvalid := hv first List.mem_cons_self
    have hcoherent := refreshBranch_coherent h first
    obtain ⟨job, hjob⟩ := refreshBranch_created h hvalid
    have hfirst : branch = first → OwnRecord (registry.refreshBranch first).2 branch := by
      rintro rfl
      exact refreshBranch_own h hvalid hc
    have hlater : branch ∈ rest → Creates (registry.refreshBranch first).2 branch := by
      intro hm
      have hne : first.major ≠ branch.major := by
        intro hsame
        apply hdistinct.1
        rw [hsame]
        exact List.mem_map_of_mem hm
      exact (creates_next h hvalid hne).2 hc
    unfold refreshBranches
    cases hb : registry.refreshBranch first with
    | mk result next =>
      rw [hb] at hcoherent hjob hfirst hlater
      obtain rfl : result = .ok job := hjob
      rcases List.mem_cons.1 hmem with heq | hm
      · exact refreshBranches_own hcoherent _ rest (hfirst heq)
      · exact ih hcoherent _ hdistinct.2 (fun b hm => hv b (List.mem_cons_of_mem _ hm)) hm
          (hlater hm)

theorem setMajor_forMajor {allocator : VersionAllocator} {major n : ℤ} {commitSha : Str}
    (h : (allocator.forMajor major).currentAttempts.get? commitSha = some n) :
    allocator.setMajor major (allocator.forMajor major) = allocator := by
  unfold setMajor forMajor at *
  cases hm : allocator.majors.get? major with
  | none =>
    rw [hm] at h
    cases h
  | some allocations => rw [Option.getD_some, OrderedMap.set_of_get? _ hm]

theorem refreshBranch_again {registry : PackageRegistry} (h : registry.Coherent)
    {branch : SelectedBranch} {n : ℤ}
    (hv : validateInputs branch.major branch.tip.sha branch.tip.committedAt = .ok ())
    (hn : registry.current branch.major branch.tip.sha = some n) :
    registry.refreshBranch branch = (.ok none, registry) := by
  rcases refreshBranch_cases h branch with
    ⟨message, hbad, -⟩ | ⟨k, x, -, -, -, he⟩ | ⟨record, -, hc, -⟩ | ⟨-, hc, -⟩
  · rw [hv] at hbad
    cases hbad
  · rw [he, setMajor_forMajor hn]
  · rw [current, hc] at hn
    cases hn
  · rw [current, hc] at hn
    cases hn

theorem refreshBranches_again {registry : PackageRegistry} (h : registry.Coherent)
    (created : List MaterializationJob) {branches : List SelectedBranch}
    (hv : ∀ b ∈ branches, validateInputs b.major b.tip.sha b.tip.committedAt = .ok ())
    (hknown : ∀ b ∈ branches, ∃ n, registry.current b.major b.tip.sha = some n) :
    registry.refreshBranches created branches = (.ok created, registry) := by
  induction branches with
  | nil => rfl
  | cons branch rest ih =>
    obtain ⟨n, hn⟩ := hknown branch List.mem_cons_self
    rw [refreshBranches, refreshBranch_again h (hv branch List.mem_cons_self) hn]
    change registry.refreshBranches (created ++ []) rest = _
    rw [List.append_nil]
    exact ih (fun b hm => hv b (List.mem_cons_of_mem _ hm))
      (fun b hm => hknown b (List.mem_cons_of_mem _ hm))

theorem refreshBranch_assigned {registry : PackageRegistry} (h : registry.Coherent)
    {branch : SelectedBranch}
    (hv : validateInputs branch.major branch.tip.sha branch.tip.committedAt = .ok ()) :
    ∃ n, (registry.refreshBranch branch).2.current branch.major branch.tip.sha = some n := by
  have hfor := refreshBranch_forMajor h hv branch.major
  rw [if_pos rfl] at hfor
  rw [current, hfor]
  cases hc : (registry.allocator.forMajor branch.major).currentAttempts.get? branch.tip.sha with
  | some n => exact ⟨n, by rw [assignTip_some hc, hc]⟩
  | none => exact ⟨0, by rw [assignTip_none hc]; exact OrderedMap.get?_set_self _ _ _⟩

theorem refreshBranches_assigned {registry : PackageRegistry} (h : registry.Coherent)
    (created : List MaterializationJob) {branches : List SelectedBranch}
    (hv : ∀ b ∈ branches, validateInputs b.major b.tip.sha b.tip.committedAt = .ok ())
    {branch : SelectedBranch} (hmem : branch ∈ branches) :
    ∃ n, (registry.refreshBranches created branches).2.current branch.major branch.tip.sha
      = some n := by
  induction branches generalizing registry created with
  | nil => cases hmem
  | cons first rest ih =>
    have hvalid := hv first List.mem_cons_self
    have hcoherent := refreshBranch_coherent h first
    have hassigned := refreshBranch_assigned h hvalid
    obtain ⟨job, hjob⟩ := refreshBranch_created h hvalid
    unfold refreshBranches
    cases hb : registry.refreshBranch first with
    | mk result next =>
      rw [hb] at hcoherent hjob hassigned
      obtain rfl : result = .ok job := hjob
      rcases List.mem_cons.1 hmem with rfl | hm
      · obtain ⟨n, hn⟩ := hassigned
        exact (refreshBranches_grows hcoherent _ rest).current _ _ n hn
      · exact ih hcoherent _ (fun b hm => hv b (List.mem_cons_of_mem _ hm)) hm

theorem run_branches {registry : PackageRegistry} (h : registry.Coherent) (ops : List Op)
    (hops : ∀ op ∈ ops, ∀ discovery, op ≠ .refresh discovery) :
    (run apply registry ops).Coherent ∧ (run apply registry ops).branches = registry.branches := by
  induction ops generalizing registry with
  | nil => exact ⟨h, rfl⟩
  | cons op ops ih =>
    obtain ⟨hcoherent, hbranches⟩ := ih (apply_coherent h op)
      (fun op hm => hops op (List.mem_cons_of_mem _ hm))
    rcases apply_branches h op with he | ⟨discovery, selection, he, -, -⟩
    · exact ⟨hcoherent, hbranches.trans he⟩
    · exact absurd he (hops op List.mem_cons_self discovery)

theorem refresh_of_selected {registry : PackageRegistry} {discovery : BranchDiscovery}
    {selection : BranchSelection} (hs : selectBranches discovery registry.branches = .ok selection) :
    registry.refresh discovery
      = refreshBranches { registry with branches := selection.state } [] selection.branches := by
  rw [refresh, hs]

theorem refresh_valid {registry : PackageRegistry} (h : registry.Coherent)
    {discovery : BranchDiscovery} {selection : BranchSelection} {created : List MaterializationJob}
    (hs : selectBranches discovery registry.branches = .ok selection)
    (hok : (registry.refresh discovery).1 = .ok created) :
    ∀ b ∈ selection.branches, validateInputs b.major b.tip.sha b.tip.committedAt = .ok () := by
  rw [refresh_of_selected hs] at hok
  by_contra hinvalid
  push Not at hinvalid
  obtain ⟨message, herror⟩ := refreshBranches_invalid (h.branches selection.state) [] hinvalid
  rw [herror] at hok
  cases hok

/-- A refresh creates exactly the missing jobs, leaves what there was, and does nothing
    when it is repeated. -/
structure RefreshExact (registry : PackageRegistry) (discovery : BranchDiscovery)
    (selection : BranchSelection) (created : List MaterializationJob) : Prop where
  missing : created.map jobTip =
    (selection.branches.filter fun b => registry.current b.major b.tip.sha = none).map selectedTip
  once : (created.map jobTip).Nodup
  filed : ∀ job ∈ created, Filed (registry.refresh discovery).2 job
  kept : ∀ v record, registry.versions.get? v = some record →
    (registry.refresh discovery).2.versions.get? v = some record
  recorded : ∀ b ∈ selection.branches, OwnRecord (registry.refresh discovery).2 b
  repeated : ∀ ops : List Op, (∀ op ∈ ops, ∀ other, op ≠ .refresh other) →
    ((run apply (registry.refresh discovery).2 ops).refresh discovery).1 = .ok [] ∧
      ((run apply (registry.refresh discovery).2 ops).refresh discovery).2.snapshot
        = (run apply (registry.refresh discovery).2 ops).snapshot

/-- No selected tip gets a version that is already taken, and none got one before: a new
    tip meets a mark below `2^53`, and a known one still has the record of its version. -/
def Unrepeated (registry : PackageRegistry) (selection : BranchSelection) : Prop :=
  ∀ b ∈ selection.branches,
    (registry.current b.major b.tip.sha = none →
      (registry.allocator.forMajor b.major).highWater < 2 ^ 53) ∧
    (registry.current b.major b.tip.sha ≠ none → OwnRecord registry b)

theorem refresh_repeated {registry : PackageRegistry} (h : registry.Coherent)
    {discovery : BranchDiscovery} {selection : BranchSelection} {created : List MaterializationJob}
    (hs : selectBranches discovery registry.branches = .ok selection)
    (hok : (registry.refresh discovery).1 = .ok created) {ops : List Op}
    (hops : ∀ op ∈ ops, ∀ other, op ≠ .refresh other) :
    (run apply (registry.refresh discovery).2 ops).refresh discovery
      = (.ok [], run apply (registry.refresh discovery).2 ops) := by
  have hvalid := refresh_valid h hs hok
  have hafter := refresh_coherent h discovery
  have hassigned : ∀ b ∈ selection.branches, ∃ n,
      (registry.refresh discovery).2.current b.major b.tip.sha = some n := by
    intro b hb
    rw [refresh_of_selected hs]
    exact refreshBranches_assigned (h.branches selection.state) [] hvalid hb
  have hstate : (registry.refresh discovery).2.branches = selection.state := by
    rw [refresh_of_selected hs]
    exact refreshBranches_branches _ _ _
  generalize (registry.refresh discovery).2 = after at hafter hassigned hstate
  obtain ⟨hlater, hbranches⟩ := run_branches hafter ops hops
  have hgrows := run_grows hafter ops
  generalize run apply after ops = later at hlater hbranches hgrows
  rw [hstate] at hbranches
  have hselect : selectBranches discovery later.branches = .ok selection := by
    rw [hbranches]
    exact selectBranches_again hs
  rw [refresh_of_selected hselect, ← hbranches]
  apply refreshBranches_again hlater [] hvalid
  intro b hb
  obtain ⟨n, hn⟩ := hassigned b hb
  exact hgrows.current _ _ n hn

theorem ownRecord_of_after {before after : PackageRegistry} (h : before.Coherent)
    {b : SelectedBranch}
    (hcurrent : ∀ v, before.allocator.currentVersion b.major b.tip.sha = some v →
      after.allocator.currentVersion b.major b.tip.sha = some v)
    (hkept : ∀ v record, before.versions.get? v = some record →
      after.versions.get? v = some record)
    (hknown : before.current b.major b.tip.sha ≠ none) (ho : OwnRecord after b) :
    OwnRecord before b := by
  obtain ⟨v, record, hv, hrecord, hmajor, hcommit⟩ := ho
  obtain ⟨n, hn⟩ := Option.ne_none_iff_exists'.1 hknown
  obtain ⟨x, hx⟩ := (h.allocator b.major).current _ n hn
  obtain ⟨original, horiginal⟩ := h.covered _ _ x hx
  have hbefore : before.allocator.currentVersion b.major b.tip.sha = some x.version := by
    rw [current] at hn
    simp only [currentVersion, hn, hx, Option.map_some]
  rw [hcurrent _ hbefore] at hv
  obtain rfl := Option.some.inj hv
  rw [hkept _ _ horiginal] at hrecord
  obtain rfl := Option.some.inj hrecord
  exact ⟨x.version, original, hbefore, horiginal, hmajor, hcommit⟩

/-- In every reachable registry a refresh is exact and idempotent when no version is
    repeated for a selected tip, and then only. -/
theorem refreshExact_iff (name : PackageName) (ops : List Op) (discovery : BranchDiscovery)
    (selection : BranchSelection) (created : List MaterializationJob)
    (hs : selectBranches discovery (run apply (new name) ops).branches = .ok selection)
    (hok : ((run apply (new name) ops).refresh discovery).1 = .ok created) :
    RefreshExact (run apply (new name) ops) discovery selection created ↔
      Unrepeated (run apply (new name) ops) selection := by
  have h := run_coherent name ops
  have hrange := run_inRange name ops
  generalize run apply (new name) ops = registry at h hrange hs hok ⊢
  have hvalid := refresh_valid h hs hok
  have hdistinct := selectBranches_distinct hrange hs
  have hpass := h.branches selection.state
  have hrefresh := refresh_of_selected hs
  obtain ⟨jobs, hjobs, htips, hfiled⟩ := refreshBranches_created_tips hpass [] hdistinct hvalid
  obtain rfl : created = jobs := by
    rw [hrefresh, hjobs] at hok
    exact (Except.ok.inj hok).symm
  have hkept : ∀ v record, registry.versions.get? v = some record →
      (registry.refresh discovery).2.versions.get? v = some record := refresh_get? h discovery
  constructor
  · intro hexact b hb
    constructor
    · intro hnone
      -- the job of this tip was created, so its major could still rise
      have hmem : selectedTip b ∈ created.map jobTip := by
        rw [hexact.missing]
        exact List.mem_map_of_mem (List.mem_filter.2 ⟨hb, decide_eq_true hnone⟩)
      rw [htips] at hmem
      obtain ⟨other, hother, hsame⟩ := List.mem_map.1 hmem
      have hcreates : Creates registry other := of_decide_eq_true (List.mem_filter.1 hother).2
      rw [← (Prod.mk.inj hsame).1]
      exact hcreates.2
    · intro hknown
      apply ownRecord_of_after h ?_ hkept hknown (hexact.recorded b hb)
      intro v hv
      rw [hrefresh]
      exact refreshBranches_current hpass [] selection.branches hv
  · intro hunrepeated
    constructor
    case missing =>
      rw [htips]
      congr 1
      apply List.filter_congr
      intro b hb
      rw [decide_eq_decide]
      exact ⟨fun hc => hc.1, fun hnone => ⟨hnone, (hunrepeated b hb).1 hnone⟩⟩
    case once =>
      rw [htips]
      have hmajors : ((selection.branches.filter fun b => Creates registry b).map
          SelectedBranch.major).Nodup := hdistinct.sublist (List.filter_sublist.map _)
      apply List.Nodup.of_map Prod.fst
      rw [List.map_map]
      exact hmajors
    case filed =>
      rw [hrefresh]
      exact hfiled
    case kept => exact hkept
    case recorded =>
      intro b hb
      rw [hrefresh]
      by_cases hnone : registry.current b.major b.tip.sha = none
      · exact refreshBranches_creates_own hpass [] hdistinct hvalid hb
          ⟨hnone, (hunrepeated b hb).1 hnone⟩
      · exact refreshBranches_own hpass [] _ ((hunrepeated b hb).2 hnone)
    case repeated =>
      intro later hlater
      rw [refresh_repeated h hs hok hlater]
      exact ⟨rfl, rfl⟩

/-- Three commits of one major, the first stamped with the last safe integer. -/
def stuckMark : List Op :=
  [.refresh ⟨"main".toList, OrderedMap.empty.set "main".toList ⟨"a".toList, 2 ^ 53 - 1⟩⟩,
    .refresh ⟨"main".toList, OrderedMap.empty.set "main".toList ⟨"b".toList, 7⟩⟩]

def thirdTip : BranchDiscovery :=
  ⟨"main".toList, OrderedMap.empty.set "main".toList ⟨"c".toList, 7⟩⟩

theorem stuckMark_inexact :
    ∃ selection, selectBranches thirdTip
        (run apply (new ⟨"acme".toList, "widget".toList⟩) stuckMark).branches = .ok selection ∧
      ((run apply (new ⟨"acme".toList, "widget".toList⟩) stuckMark).refresh thirdTip).1 = .ok [] ∧
      ¬ RefreshExact (run apply (new ⟨"acme".toList, "widget".toList⟩) stuckMark) thirdTip
        selection [] := by
  refine ⟨⟨⟨none⟩, [⟨"main".toList, 0, ⟨"c".toList, 7⟩⟩]⟩, by decide +kernel, by decide +kernel, ?_⟩
  intro h
  have hmissing := h.missing
  revert hmissing
  decide +kernel

theorem refreshExact_iff_stuckMark :
    RefreshExact (run apply (new ⟨"acme".toList, "widget".toList⟩) stuckMark) thirdTip
        ⟨⟨none⟩, [⟨"main".toList, 0, ⟨"c".toList, 7⟩⟩]⟩ [] ↔
      Unrepeated (run apply (new ⟨"acme".toList, "widget".toList⟩) stuckMark)
        ⟨⟨none⟩, [⟨"main".toList, 0, ⟨"c".toList, 7⟩⟩]⟩ :=
  refreshExact_iff ⟨"acme".toList, "widget".toList⟩ stuckMark thirdTip _ _ (by decide +kernel)
    (by decide +kernel)

end PackageRegistry
end JsrProxy
