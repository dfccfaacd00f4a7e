import JsrProxy.PackageRegistryRuns

set_option autoImplicit false

/-!
# Published outcomes over whole runs

A ready or yanked record is final as long as no recovery is asked of a major
whose high-water mark is stuck at `2^53` with that last version published. There
`recoverVersion` computes the same version again and files a pending record over
the published one.
-/
namespace JsrProxy.PackageRegistry
open Branches VersionAllocator Executions

/-- Published records stay as they are and no record disappears. -/
def KeepsRecords (before after : PackageRegistry) : Prop :=
  ∀ v record, before.versions.get? v = some record →
    ∃ record', after.versions.get? v = some record' ∧
      (record.state.published = true → record' = record)

theorem KeepsRecords.refl (registry : PackageRegistry) : KeepsRecords registry registry :=
  fun _ record hv => ⟨record, hv, fun _ => rfl⟩

theorem KeepsRecords.trans {a b c : PackageRegistry} (h : KeepsRecords a b)
    (h' : KeepsRecords b c) : KeepsRecords a c := by
  intro v record hv
  obtain ⟨middle, hm, hkeep⟩ := h v record hv
  obtain ⟨last, hl, hkeep'⟩ := h' v middle hm
  refine ⟨last, hl, ?_⟩
  intro hp
  obtain rfl := hkeep hp
  exact hkeep' hp

theorem keepsRecords_of_eq {before after : PackageRegistry}
    (h : after.versions = before.versions) : KeepsRecords before after := by
  intro v record hv
  exact ⟨record, by rw [h]; exact hv, fun _ => rfl⟩

theorem TouchesOne.keepsRecords {before after : PackageRegistry} (h : TouchesOne before after) :
    KeepsRecords before after := by
  rcases h with rfl | ⟨v, record, record', hv, hs, -, rfl⟩
  · exact .refl _
  · intro w other hw
    simp only [updateVersion, OrderedMap.get?_set]
    split_ifs with he
    · subst he
      obtain rfl := Option.some.inj (hv.symm.trans hw)
      refine ⟨record', rfl, ?_⟩
      intro hp
      rw [hs] at hp
      cases hp
    · exact ⟨other, hw, fun _ => rfl⟩

theorem refreshBranch_get? {registry : PackageRegistry} (h : registry.Coherent)
    (branch : SelectedBranch) (v : Str) (record : VersionRecord)
    (hv : registry.versions.get? v = some record) :
    (registry.refreshBranch branch).2.versions.get? v = some record := by
  rcases refreshBranch_cases h branch with
    ⟨_, -, he⟩ | ⟨_, _, -, -, -, he⟩ | ⟨_, -, -, -, he⟩ | ⟨-, -, hfree, he⟩
  · rw [he]
    exact hv
  · rw [he]
    exact hv
  · rw [he]
    exact hv
  · rw [he]
    have hne : v ≠ (registry.issue branch).1.version := by
      rintro rfl
      rw [hfree] at hv
      cases hv
    exact (OrderedMap.get?_set_of_ne _ _ hne).trans hv

theorem refreshBranches_get? {registry : PackageRegistry} (h : registry.Coherent)
    (created : List MaterializationJob) (branches : List SelectedBranch) (v : Str)
    (record : VersionRecord) (hv : registry.versions.get? v = some record) :
    (registry.refreshBranches created branches).2.versions.get? v = some record := by
  induction branches generalizing registry created with
  | nil => exact hv
  | cons branch rest ih =>
    have hcoherent := refreshBranch_coherent h branch
    have hnext := refreshBranch_get? h branch v record hv
    unfold refreshBranches
    cases hb : registry.refreshBranch branch with
    | mk result next =>
      rw [hb] at hcoherent hnext
      cases result with
      | error message => exact hnext
      | ok job => exact ih hcoherent _ hnext

theorem refresh_get? {registry : PackageRegistry} (h : registry.Coherent)
    (discovery : BranchDiscovery) (v : Str) (record : VersionRecord)
    (hv : registry.versions.get? v = some record) :
    (registry.refresh discovery).2.versions.get? v = some record := by
  unfold refresh
  cases selectBranches discovery registry.branches with
  | error message => exact hv
  | ok selection => exact refreshBranches_get? (h.branches _) _ _ v record hv

/-- A recovery is in range unless it is asked of a published version below `2^53`
    in a major whose mark is `2^53` and whose version `2^53` is itself published. -/
def RecoversInRange (registry : PackageRegistry) : Op → Prop
  | .recoverVersion version _ _ => ∀ record, registry.versions.get? version = some record →
      record.state.published = true → record.assignment.sequence < 2 ^ 53 →
      (registry.allocator.forMajor record.major).highWater = 2 ^ 53 →
      ∀ last, registry.versions.get? (versionString record.major (2 ^ 53)) = some last →
        last.state.published = false
  | _ => True

theorem reissue_version (registry : PackageRegistry) (record : VersionRecord) (n : ℤ) :
    (registry.reissue record n).1.version = versionString record.major
      (nextSequence (registry.allocator.forMajor record.major) record.assignment.sequence) := rfl

theorem reissue_unpublished {registry : PackageRegistry} (h : registry.Coherent)
    {version reason : Str} {recoveredAt : ℤ}
    (hin : RecoversInRange registry (.recoverVersion version reason recoveredAt))
    {record : VersionRecord} {n : ℤ} (hv : registry.versions.get? version = some record)
    (hs : record.state.published = true)
    (hok : validateInputs record.major record.commitSha record.assignment.sequence = .ok ())
    {other : VersionRecord}
    (hother : registry.versions.get? (registry.reissue record n).1.version = some other) :
    other.state.published = false := by
  obtain ⟨-, -, hts, htb⟩ := validateInputs_ok.1 hok
  have hspec := (h.allocator record.major).nextSequence_spec hts htb
  have hrec := h.record _ other hother
  obtain ⟨hmajor, hseq⟩ := versionString_inj (hrec.named.symm.trans (reissue_version _ _ n))
  have hissued := hrec.issued.2
  rw [hmajor, hseq] at hissued
  have hmark : (registry.allocator.forMajor record.major).highWater = 2 ^ 53 := by
    have := (h.allocator record.major).bounded
    omega
  have hnext := MajorAllocations.Coherent.nextSequence_saturated htb hmark
  rw [reissue_version, hnext] at hother
  exact hin record hv hs htb hmark other hother

theorem recoverVersion_keepsRecords {registry : PackageRegistry} (h : registry.Coherent)
    {version reason : Str} {recoveredAt : ℤ}
    (hin : RecoversInRange registry (.recoverVersion version reason recoveredAt)) :
    KeepsRecords registry (registry.recoverVersion version reason recoveredAt).2 := by
  rcases recoverVersion_cases registry version reason recoveredAt with
    ⟨message, allocator, -, he⟩ | ⟨record, n, hv, hs, hok, -, he⟩
  · rw [he]
    exact keepsRecords_of_eq rfl
  · rw [he]
    intro w other hw
    simp only [OrderedMap.get?_set]
    split_ifs with heq
    · subst heq
      refine ⟨_, rfl, ?_⟩
      intro hp
      rw [reissue_unpublished h hin hv hs hok hw] at hp
      cases hp
    · exact ⟨other, hw, fun _ => rfl⟩

theorem apply_keepsRecords {registry : PackageRegistry} (h : registry.Coherent) {op : Op}
    (hin : RecoversInRange registry op) : KeepsRecords registry (registry.apply op) := by
  cases op with
  | refresh discovery =>
    intro v record hv
    exact ⟨record, refresh_get? h discovery v record hv, fun _ => rfl⟩
  | leaseNext now => exact (leaseNext_touches registry now).keepsRecords
  | releaseLease version => exact (releaseLease_touches registry version).keepsRecords
  | markReady version => exact (markReady_touches registry version).keepsRecords
  | markYanked version diagnostic =>
    exact (markYanked_touches registry version diagnostic).keepsRecords
  | recoverVersion version reason recoveredAt => exact recoverVersion_keepsRecords h hin
  | reload =>
    unfold apply
    cases hr : fromSnapshot registry.snapshot with
    | error message => exact .refl _
    | ok restored =>
      obtain ⟨-, -, he⟩ := fromSnapshot_snapshot h hr
      exact keepsRecords_of_eq (by rw [he])

theorem mem_packageMeta {registry : PackageRegistry} (h : registry.Coherent) (v : Str)
    (yanked : Bool) :
    (v, yanked) ∈ registry.packageMeta.versions ↔
      ∃ record, registry.versions.get? v = some record ∧ record.state.published = true ∧
        decide (record.state = .yanked) = yanked := by
  simp only [packageMeta, List.mem_map, List.mem_filter, OrderedMap.mem_values, Prod.mk.injEq]
  constructor
  · rintro ⟨record, ⟨⟨k, hk⟩, hp⟩, rfl, hy⟩
    exact ⟨record, by rw [(h.record k record hk).version]; exact hk, hp, hy⟩
  · rintro ⟨record, hv, hp, hy⟩
    exact ⟨record, ⟨⟨v, hv⟩, hp⟩, (h.record v record hv).version, hy⟩

/-- What a published version may expect of every later state. -/
structure Preserved (before after : PackageRegistry) : Prop where
  listed : ∀ v yanked, (v, yanked) ∈ before.packageMeta.versions →
    (v, yanked) ∈ after.packageMeta.versions ∧
      ∀ flag, (v, flag) ∈ after.packageMeta.versions → flag = yanked
  record : ∀ v record, before.versions.get? v = some record → record.state.published = true →
    ∃ record', after.versions.get? v = some record' ∧ record'.state = record.state ∧
      record'.branch = record.branch ∧ record'.commitSha = record.commitSha ∧
      record'.major = record.major ∧ record'.diagnostic = record.diagnostic ∧
      record'.assignment = record.assignment
  kept : ∀ v record, before.versions.get? v = some record →
    ∃ record', after.versions.get? v = some record'

def HidesUnpublished (registry : PackageRegistry) : Prop :=
  ∀ v record, registry.versions.get? v = some record → record.state.published = false →
    ∀ flag, (v, flag) ∉ registry.packageMeta.versions

/-- The published outcomes of a run are immutable from each state to each later one. -/
def OutcomesImmutable (name : PackageName) (ops : List Op) : Prop :=
  ∀ before middle after, ops = before ++ middle ++ after →
    Preserved (run apply (new name) before) (run apply (new name) (before ++ middle)) ∧
      HidesUnpublished (run apply (new name) before)

theorem preserved_of_keepsRecords {before after : PackageRegistry} (hb : before.Coherent)
    (ha : after.Coherent) (h : KeepsRecords before after) : Preserved before after where
  listed v yanked hl := by
    obtain ⟨record, hv, hp, hy⟩ := (mem_packageMeta hb v yanked).1 hl
    obtain ⟨record', hv', hkeep⟩ := h v record hv
    obtain rfl := hkeep hp
    refine ⟨(mem_packageMeta ha v yanked).2 ⟨record', hv', hp, hy⟩, ?_⟩
    intro flag hflag
    obtain ⟨other, hother, -, hf⟩ := (mem_packageMeta ha v flag).1 hflag
    obtain rfl := Option.some.inj (hother.symm.trans hv')
    exact hf.symm.trans hy
  record v record hv hp := by
    obtain ⟨record', hv', hkeep⟩ := h v record hv
    obtain rfl := hkeep hp
    exact ⟨record', hv', rfl, rfl, rfl, rfl, rfl, rfl⟩
  kept v record hv := by
    obtain ⟨record', hv', -⟩ := h v record hv
    exact ⟨record', hv'⟩

theorem hidesUnpublished {registry : PackageRegistry} (h : registry.Coherent) :
    HidesUnpublished registry := by
  intro v record hv hs flag hl
  obtain ⟨other, hother, hp, -⟩ := (mem_packageMeta h v flag).1 hl
  obtain rfl := Option.some.inj (hother.symm.trans hv)
  rw [hs] at hp
  cases hp

theorem recoverVersion_of_current {registry : PackageRegistry} {version reason : Str}
    {recoveredAt n : ℤ} {record : VersionRecord}
    (hv : registry.versions.get? version = some record) (hs : record.state.published = true)
    (hok : validateInputs record.major record.commitSha record.assignment.sequence = .ok ())
    (hc : (registry.allocator.forMajor record.major).currentAttempts.get? record.commitSha
      = some n) :
    (registry.recoverVersion version reason recoveredAt).2.versions =
      registry.versions.set (registry.reissue record n).1.version
        (pendingRecord (registry.reissue record n).1 record.branch record.commitSha
          record.major) := by
  simp only [recoverVersion, hv, hs, recover, hok, hc, Bool.not_true, Bool.false_eq_true, if_false]
  rfl

/-- Out of range, a recovery replaces a published record by a pending one. -/
theorem recoverVersion_overwrites {registry : PackageRegistry} (h : registry.Coherent)
    {version reason : Str} {recoveredAt : ℤ} {record last : VersionRecord}
    (hv : registry.versions.get? version = some record) (hs : record.state.published = true)
    (hseq : record.assignment.sequence < 2 ^ 53)
    (hmark : (registry.allocator.forMajor record.major).highWater = 2 ^ 53)
    (hlast : registry.versions.get? (versionString record.major (2 ^ 53)) = some last)
    (hp : last.state.published = true) :
    ¬ Preserved registry (registry.recoverVersion version reason recoveredAt).2 := by
  intro hpres
  have hrec := h.record version record hv
  obtain ⟨n, hc⟩ := hrec.current
  have hok : validateInputs record.major record.commitSha record.assignment.sequence = .ok () :=
    validateInputs_ok.2 ⟨hrec.majorRange, hrec.commit_ne, hrec.issued.1, hseq⟩
  have hversion : (registry.reissue record n).1.version = versionString record.major (2 ^ 53) := by
    rw [reissue_version, MajorAllocations.Coherent.nextSequence_saturated hseq hmark]
  obtain ⟨record', hv', hstate, -⟩ := hpres.record _ last hlast hp
  rw [recoverVersion_of_current hv hs hok hc, hversion, OrderedMap.get?_set_self] at hv'
  obtain rfl := Option.some.inj hv'
  rw [← hstate] at hp
  cases hp

/-- Over any run, published outcomes are immutable exactly when every recovery is
    in range. -/
theorem outcomesImmutable_iff (name : PackageName) (ops : List Op) :
    OutcomesImmutable name ops ↔ Admitted apply RecoversInRange (new name) ops := by
  constructor
  · intro h
    apply admitted_of_prefixes
    intro before op after heq
    have hpres := (h before [op] after (by rw [heq, List.append_assoc]; rfl)).1
    rw [run_append] at hpres
    have hcoherent := run_coherent name before
    cases op with
    | recoverVersion version reason recoveredAt =>
      intro record hv hs hseq hmark last hlast
      by_contra hp
      exact recoverVersion_overwrites hcoherent hv hs hseq hmark hlast
        (Bool.eq_true_of_not_eq_false hp) hpres
    | refresh | leaseNext | releaseLease | markReady | markYanked | reload => trivial
  · intro h before middle after heq
    rw [heq, admitted_append, admitted_append] at h
    have hcoherent := run_coherent name before
    have hkeeps : KeepsRecords (run apply (new name) before)
        (run apply (new name) (before ++ middle)) := by
      rw [run_append]
      exact run_related Coherent RecoversInRange KeepsRecords
        (fun _ op hc _ => apply_coherent hc op) (fun _ _ hc hin => apply_keepsRecords hc hin)
        KeepsRecords.refl (fun _ _ _ => KeepsRecords.trans) _ middle hcoherent h.1.2
    exact ⟨preserved_of_keepsRecords hcoherent (run_coherent name _) hkeeps,
      hidesUnpublished hcoherent⟩

/-- A tip stamped `2^53 - 1`, recovered twice. -/
def saturatingRun : List Op :=
  [.refresh ⟨"main".toList, OrderedMap.empty.set "main".toList ⟨"sha".toList, 2 ^ 53 - 1⟩⟩,
    .markReady "0.1.9007199254740991".toList,
    .recoverVersion "0.1.9007199254740991".toList "repair".toList 1,
    .markReady "0.1.9007199254740992".toList,
    .recoverVersion "0.1.9007199254740991".toList "repair".toList 2]

/-- The second recovery unlists the ready version `0.1.9007199254740992`. -/
theorem saturatingRun_unlists :
    ¬ OutcomesImmutable ⟨"acme".toList, "widget".toList⟩ saturatingRun := by
  intro h
  have hpres := (h (saturatingRun.take 4) (saturatingRun.drop 4) [] rfl).1
  have hlisted := (hpres.listed "0.1.9007199254740992".toList false (by decide)).1
  exact absurd hlisted (by decide)

end JsrProxy.PackageRegistry
