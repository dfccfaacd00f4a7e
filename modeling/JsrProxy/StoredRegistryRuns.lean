import JsrProxy.PackageObject
import JsrProxy.PublishedOutcomes
import JsrProxy.VersionAllocationRuns

set_option autoImplicit false

/-!
# The stored registry

Every handler leaves the stored snapshot alone or replaces it by that of one
registry transition. A snapshot loads only while its sequences are safe integers,
so what a handler works on is in range and its records and assignments are in step.
-/
namespace JsrProxy
open Branches

namespace VersionAllocator

theorem restoreAll_valid {allocator result : VersionAllocator} {rest : List VersionAssignment}
    (h : restoreAll allocator rest = .ok result) :
    ∀ x ∈ rest, validateInputs x.major x.commitSha x.sequence = .ok () := by
  induction rest generalizing allocator with
  | nil =>
    intro x hx
    cases hx
  | cons y rest ih =>
    unfold restoreAll at h
    cases hy : restore allocator y with
    | error message =>
      rw [hy] at h
      cases h
    | ok next =>
      rw [hy] at h
      intro x hx
      rcases List.mem_cons.1 hx with rfl | hx
      · exact (restore_ok hy).1
      · exact ih h x hx

theorem inRange_of_loads {allocator result : VersionAllocator}
    (h : fromSnapshot allocator.snapshot = .ok result) : allocator.InRange := by
  intro x hx
  obtain ⟨-, -, -, hbound⟩ := validateInputs_ok.1 (restoreAll_valid h x hx)
  have hmax : Doubles.maxSafeInteger = 2 ^ 53 - 1 := rfl
  omega

theorem held_same {a b : VersionAllocator} (h : ∀ m, (a.forMajor m).Same (b.forMajor m))
    (x : VersionAssignment) : b.Held x ↔ a.Held x :=
  held_congr (fun m k => ((h m).assignments k).symm) x

end VersionAllocator

namespace PackageRegistry
open VersionAllocator

/-- What holds of a registry after any history, in range or not. -/
structure Sound (registry : PackageRegistry) : Prop where
  coherent : registry.Coherent
  inStep : registry.allocator.InRange → registry.InStep

theorem Sound.apply {registry : PackageRegistry} (h : registry.Sound) (op : Op) :
    (registry.apply op).Sound := by
  have hcoherent := apply_coherent h.coherent op
  refine ⟨hcoherent, ?_⟩
  intro hr
  have hbefore := inRange_of_grows h.coherent.allocator hcoherent.allocator
    (apply_grows h.coherent op) hr
  exact (apply_advances (h.inStep hbefore) op hr).inStep

end PackageRegistry

namespace PackageObject
open VersionAllocator PackageRegistry

def records (stored : Stored) : List VersionRecord :=
  match stored with
  | none => []
  | some stored => stored.versions

def assignments (stored : Stored) : List VersionAssignment :=
  match stored with
  | none => []
  | some stored => stored.allocator.assignments

def Sound (stored : Stored) : Prop :=
  ∀ snapshot, stored = some snapshot →
    ∃ registry : PackageRegistry, registry.Sound ∧ snapshot = registry.snapshot

theorem sound_none : Sound none := by
  intro snapshot h
  cases h

theorem sound_saveRegistry {registry : PackageRegistry} (h : registry.Sound) :
    Sound (saveRegistry registry) := by
  rintro snapshot ⟨⟩
  exact ⟨registry, h, rfl⟩

/-- A loaded registry is in range and in step, and shows what was stored. -/
structure Loaded (stored : Stored) (registry : PackageRegistry) : Prop where
  inStep : registry.InStep
  inRange : registry.allocator.InRange
  held : ∀ x, registry.allocator.Held x ↔ x ∈ assignments stored
  records : registry.versions.values = records stored

theorem Loaded.sound {stored : Stored} {registry : PackageRegistry} (h : Loaded stored registry) :
    registry.Sound :=
  ⟨h.inStep.coherent, fun _ => h.inStep⟩

theorem loaded_new (name : PackageName) : Loaded none (.new name) where
  inStep := inStep_new name
  inRange x hx := by
    have hget := (held_iff VersionAllocator.coherent_new x).1 hx
    simp [forMajor_new, MajorAllocations.fresh] at hget
  held x := by
    constructor
    · intro hx
      have hget := (held_iff VersionAllocator.coherent_new x).1 hx
      simp [forMajor_new, MajorAllocations.fresh] at hget
    · intro hx
      cases hx
  records := rfl

theorem loaded_snapshot {registry restored : PackageRegistry} (h : registry.Sound)
    (hr : fromSnapshot registry.snapshot = .ok restored) :
    Loaded (saveRegistry registry) restored := by
  obtain ⟨hcoherent, hsame, he⟩ := fromSnapshot_snapshot h.coherent hr
  have hload : ∃ allocator, VersionAllocator.fromSnapshot registry.allocator.snapshot
      = .ok allocator := by
    unfold PackageRegistry.fromSnapshot at hr
    cases ha : VersionAllocator.fromSnapshot registry.snapshot.allocator with
    | error message =>
      rw [ha] at hr
      cases hr
    | ok allocator => exact ⟨allocator, ha⟩
  obtain ⟨allocator, ha⟩ := hload
  have hrange := inRange_of_loads ha
  have hinStep := h.inStep hrange
  have hheld := held_same hsame
  have hversions : restored.versions = registry.versions := by rw [he]
  refine ⟨⟨?_, hinStep.exactly.of_held hcoherent hheld, ?_⟩, ?_, hheld, ?_⟩
  · rw [he]
    refine ⟨hcoherent, ?_, ?_⟩
    · intro v record hv
      exact (hinStep.coherent.record v record hv).grow (grows_of_same hsame)
    · intro m k x hx
      exact hinStep.coherent.covered m k x (((hsame m).assignments k).trans hx)
  · intro v record hv
    rw [hversions] at hv
    exact (hheld record.assignment).2 (hinStep.matched v record hv)
  · intro x hx
    exact hrange x ((hheld x).1 hx)
  · rw [hversions]
    rfl

theorem registry_loaded {stored : Stored} {initialName : Option PackageName}
    {loaded : PackageRegistry} (h : Sound stored)
    (hr : registry stored initialName = .ok loaded) : Loaded stored loaded := by
  unfold registry at hr
  cases stored with
  | none =>
    cases initialName with
    | none => cases hr
    | some name =>
      obtain rfl := Except.ok.inj hr
      exact loaded_new name
  | some snapshot =>
    obtain ⟨source, hsource, rfl⟩ := h snapshot rfl
    cases hl : fromSnapshot source.snapshot with
    | error message =>
      simp only [hl] at hr
      cases hr
    | ok restored =>
      simp only [hl] at hr
      have hloaded := loaded_snapshot hsource hl
      cases initialName with
      | none =>
        obtain rfl := Except.ok.inj hr
        exact hloaded
      | some name =>
        dsimp only at hr
        split_ifs at hr
        obtain rfl := Except.ok.inj hr
        exact hloaded

/-- One registry transition on the stored state, or none. -/
def Transition (stored after : Stored) (op : PackageRegistry.Op) : Prop :=
  after = stored ∨ ∃ (initialName : Option PackageName) (loaded : PackageRegistry),
    registry stored initialName = .ok loaded ∧ after = saveRegistry (loaded.apply op)

theorem Transition.sound {stored after : Stored} {op : PackageRegistry.Op}
    (h : Transition stored after op) (hs : Sound stored) : Sound after := by
  rcases h with rfl | ⟨initialName, loaded, hr, rfl⟩
  · exact hs
  · exact sound_saveRegistry ((registry_loaded hs hr).sound.apply op)

theorem refresh_transition (stored : Stored) (package : PackageName) (defaultBranch : Str)
    (branches : List (Str × CommitTip)) :
    ∃ discovery, Transition stored (refresh stored package defaultBranch branches).2
      (.refresh discovery) := by
  unfold refresh
  cases parseDiscovery defaultBranch branches with
  | none => exact ⟨⟨defaultBranch, .empty⟩, .inl rfl⟩
  | some discovery =>
    refine ⟨discovery, ?_⟩
    cases hr : registry stored (some package) with
    | error message => exact .inl rfl
    | ok loaded =>
      cases he : loaded.refresh discovery with
      | mk result next =>
        cases result with
        | error message => exact .inl (by simp only [he])
        | ok created =>
          refine .inr ⟨some package, loaded, hr, ?_⟩
          simp only [he, PackageRegistry.apply]

theorem recover_transition (stored : Stored) (version reason : Str) (recoveredAt : ℤ) :
    Transition stored (recover stored version reason recoveredAt).2
      (.recoverVersion version (trim reason) recoveredAt) := by
  unfold recover
  split_ifs
  · exact .inl rfl
  · cases hr : registry stored none with
    | error message => exact .inl rfl
    | ok loaded =>
      cases he : loaded.recoverVersion version (trim reason) recoveredAt with
      | mk result next =>
        cases result with
        | error message => exact .inl (by simp only [he])
        | ok job =>
          refine .inr ⟨none, loaded, hr, ?_⟩
          simp only [he, PackageRegistry.apply]

theorem lease_transition (stored : Stored) (now : ℤ) :
    Transition stored (lease stored now).2 (.leaseNext now) := by
  unfold lease
  cases hr : registry stored none with
  | error message => exact .inl rfl
  | ok loaded =>
    cases he : loaded.leaseNext now with
    | mk result next =>
      cases result with
      | none => exact .inl (by simp only [he])
      | some job =>
        refine .inr ⟨none, loaded, hr, ?_⟩
        simp only [he, PackageRegistry.apply]

def Outcome.op (version : Str) : Outcome → PackageRegistry.Op
  | .ready => .markReady version
  | .yanked diagnostic => .markYanked version diagnostic

theorem complete_transition (stored : Stored) (version : Str) (outcome : Outcome) :
    Transition stored (complete stored version outcome).2 (Outcome.op version outcome) := by
  unfold complete
  cases hr : registry stored none with
  | error message => exact .inl rfl
  | ok loaded =>
    cases outcome with
    | ready =>
      cases he : loaded.markReady version with
      | mk result next =>
        cases result with
        | error message => exact .inl (by simp only [he])
        | ok _ =>
          refine .inr ⟨none, loaded, hr, ?_⟩
          simp only [he, Outcome.op, PackageRegistry.apply]
    | yanked diagnostic =>
      cases he : loaded.markYanked version diagnostic with
      | mk result next =>
        cases result with
        | error message => exact .inl (by simp only [he])
        | ok _ =>
          refine .inr ⟨none, loaded, hr, ?_⟩
          simp only [he, Outcome.op, PackageRegistry.apply]

theorem releaseLease_transition (stored : Stored) (version : Str) :
    Transition stored (releaseLease stored version).2 (.releaseLease version) := by
  unfold releaseLease
  cases hr : registry stored none with
  | error message => exact .inl rfl
  | ok loaded =>
    cases he : loaded.releaseLease version with
    | mk result next =>
      cases result with
      | error message => exact .inl (by simp only [he])
      | ok _ =>
        refine .inr ⟨none, loaded, hr, ?_⟩
        simp only [he, PackageRegistry.apply]

theorem mem_values_iff {registry : PackageRegistry} (h : registry.Coherent)
    (record : VersionRecord) :
    record ∈ registry.versions.values ↔ registry.versions.get? record.version = some record := by
  rw [OrderedMap.mem_values]
  constructor
  · rintro ⟨v, hv⟩
    rw [(h.record v record hv).version]
    exact hv
  · intro hv
    exact ⟨_, hv⟩

theorem Loaded.mem_records {stored : Stored} {registry : PackageRegistry}
    (h : Loaded stored registry) (record : VersionRecord) :
    record ∈ PackageObject.records stored ↔
      registry.versions.get? record.version = some record := by
  rw [← h.records]
  exact mem_values_iff h.inStep.coherent record

theorem records_unique {stored : Stored} (h : Sound stored) {a b : VersionRecord}
    (ha : a ∈ records stored) (hb : b ∈ records stored) (hv : a.version = b.version) : a = b := by
  cases stored with
  | none => cases ha
  | some snapshot =>
    obtain ⟨registry, hsound, rfl⟩ := h snapshot rfl
    have hga := (mem_values_iff hsound.coherent a).1 ha
    have hgb := (mem_values_iff hsound.coherent b).1 hb
    rw [hv, hgb] at hga
    exact (Option.some.inj hga).symm

/-- One record was replaced by another of its version. -/
def Replaces (stored after : Stored) (record replacement : VersionRecord) : Prop :=
  record ∈ records stored ∧ replacement.version = record.version ∧
    ∀ other, other ∈ records after ↔
      other = replacement ∨ (other ∈ records stored ∧ other.version ≠ record.version)

theorem replaces_updateVersion {stored : Stored} {loaded : PackageRegistry}
    (h : Loaded stored loaded) {v : Str} {record replacement : VersionRecord}
    (hv : loaded.versions.get? v = some record) (ht : Touched record replacement) :
    Replaces stored (saveRegistry (loaded.updateVersion v replacement)) record replacement := by
  have hversion : record.version = v := (h.inStep.coherent.record v record hv).version
  have hreplacement : replacement.version = v := ht.version.trans hversion
  have hmem : record ∈ records stored := by
    rw [h.mem_records, hversion]
    exact hv
  refine ⟨hmem, ht.version, ?_⟩
  intro other
  change other ∈ (loaded.versions.set v replacement).values ↔ _
  rw [OrderedMap.mem_values, h.mem_records, hversion]
  constructor
  · rintro ⟨w, hw⟩
    rw [OrderedMap.get?_set] at hw
    split_ifs at hw with he
    · exact .inl (Option.some.inj hw).symm
    · have hother := (h.inStep.coherent.record w other hw).version
      refine .inr ⟨?_, ?_⟩
      · rw [hother]
        exact hw
      · rw [hother]
        exact he
  · rintro (rfl | ⟨hother, hne⟩)
    · exact ⟨v, OrderedMap.get?_set_self _ _ _⟩
    · exact ⟨_, (OrderedMap.get?_set_of_ne _ _ hne).trans hother⟩

theorem lease_inv {stored after : Stored} {now : ℤ} {name : PackageName} {job : MaterializationJob}
    (he : lease stored now = (.leased name job, after)) :
    ∃ loaded version record, registry stored none = .ok loaded ∧
      loaded.nextEligible now = some (version, record) ∧
      job = (record.asLeased now).toMaterializationJob ∧
      after = saveRegistry (loaded.updateVersion version (record.asLeased now)) := by
  unfold lease at he
  cases hr : registry stored none with
  | error message =>
    rw [hr] at he
    cases he
  | ok loaded =>
    cases hn : loaded.leaseNext now with
    | mk result leased =>
      simp only [hr, hn] at he
      cases result with
      | none => cases he
      | some other =>
        obtain ⟨version, record, hnext, rfl, rfl⟩ := leaseNext_some hn
        cases he
        exact ⟨loaded, version, record, rfl, hnext, rfl, rfl⟩

theorem lease_leased {stored after : Stored} {now : ℤ} {name : PackageName}
    {job : MaterializationJob} (h : Sound stored)
    (he : lease stored now = (.leased name job, after)) :
    ∃ record, PackageRegistry.eligible now record = true ∧
      job = (record.asLeased now).toMaterializationJob ∧
      Replaces stored after record (record.asLeased now) := by
  obtain ⟨loaded, version, record, hr, hn, hjob, rfl⟩ := lease_inv he
  obtain ⟨hv, heligible⟩ := nextEligible_some hn
  exact ⟨record, heligible, hjob,
    replaces_updateVersion (registry_loaded h hr) hv (touched_asLeased _ _)⟩

/-- A lease goes to the least eligible record in version order. -/
theorem lease_least {stored : Stored} {now : ℤ} {name : PackageName} {job : MaterializationJob}
    (h : Sound stored) (he : (lease stored now).1 = .leased name job) :
    ∃ record ∈ records stored, PackageRegistry.eligible now record = true ∧
      job.version = record.version ∧ ∀ other ∈ records stored,
        PackageRegistry.eligible now other = true → localeLe record.version other.version = true := by
  obtain ⟨loaded, version, record, hr, hn, rfl, -⟩ := lease_inv (Prod.ext he rfl)
  have hloaded := registry_loaded h hr
  obtain ⟨hv, heligible⟩ := nextEligible_some hn
  refine ⟨record, ?_, heligible, rfl, ?_⟩
  · rw [← hloaded.records]
    exact (OrderedMap.mem_values _ _).2 ⟨_, hv⟩
  · intro other hother hown
    exact nextEligible_least hn ((hloaded.mem_records other).1 hother) hown

theorem lease_exists {stored : Stored} {loaded : PackageRegistry} {record : VersionRecord} {now : ℤ}
    (h : Sound stored) (hr : registry stored none = .ok loaded) (hm : record ∈ records stored)
    (he : PackageRegistry.eligible now record = true) :
    ∃ name job, (lease stored now).1 = .leased name job := by
  have hv := ((registry_loaded h hr).mem_records record).1 hm
  unfold lease leaseNext
  simp only [hr]
  cases hn : loaded.nextEligible now with
  | none =>
    rw [nextEligible_none.1 hn _ _ hv] at he
    cases he
  | some entry => exact ⟨_, _, rfl⟩

theorem lease_not_leased (stored : Stored) (now : ℤ)
    (he : ∀ name job, (lease stored now).1 ≠ .leased name job) : (lease stored now).2 = stored := by
  unfold lease at he ⊢
  cases hr : registry stored none with
  | error message => rfl
  | ok loaded =>
    cases hn : loaded.leaseNext now with
    | mk result next =>
      cases result with
      | none => simp only [hn]
      | some job =>
        simp only [hr, hn] at he
        exact absurd rfl (he _ _)

def Outcome.settle (record : VersionRecord) : Outcome → VersionRecord
  | .ready => record.asReady
  | .yanked diagnostic => record.asYanked diagnostic

theorem touched_settle (record : VersionRecord) (outcome : Outcome) :
    Touched record (Outcome.settle record outcome) := by
  cases outcome with
  | ready => exact touched_asReady record
  | yanked diagnostic => exact touched_asYanked record diagnostic

/-- A completion settles the unpublished record of its version, or changes nothing. -/
theorem complete_cases {stored : Stored} (h : Sound stored) (version : Str) (outcome : Outcome) :
    (complete stored version outcome).2 = stored ∨
      ∃ loaded record, registry stored none = .ok loaded ∧ record.version = version ∧
        record.state.published = false ∧ Replaces stored
          (complete stored version outcome).2 record (Outcome.settle record outcome) := by
  unfold complete
  cases hr : registry stored none with
  | error message => exact .inl rfl
  | ok loaded =>
    have hloaded := registry_loaded h hr
    cases hp : loaded.requirePending version with
    | error message =>
      left
      cases outcome <;> simp only [markReady, markYanked, hp]
    | ok record =>
      obtain ⟨hv, hs⟩ := requirePending_ok hp
      have hreplaces := replaces_updateVersion hloaded hv (touched_settle record outcome)
      refine .inr ⟨loaded, record, rfl, (hloaded.inStep.coherent.record version record hv).version,
        hs, ?_⟩
      cases outcome <;> simp only [markReady, markYanked, hp] <;> exact hreplaces

/-- A release returns a leased record to the queue, or changes nothing. -/
theorem releaseLease_cases {stored : Stored} (h : Sound stored) (version : Str) :
    (releaseLease stored version).2 = stored ∨
      ∃ loaded record, registry stored none = .ok loaded ∧ record.version = version ∧
        record.state = .leased ∧
        Replaces stored (releaseLease stored version).2 record record.asPending := by
  unfold releaseLease
  cases hr : registry stored none with
  | error message => exact .inl rfl
  | ok loaded =>
    have hloaded := registry_loaded h hr
    cases hv : loaded.versions.get? version with
    | none =>
      left
      simp only [PackageRegistry.releaseLease, hv]
    | some record =>
      by_cases hs : record.state = .leased
      · have hreplaces := replaces_updateVersion hloaded hv (touched_asPending record)
        refine .inr ⟨loaded, record, rfl,
          (hloaded.inStep.coherent.record version record hv).version, hs, ?_⟩
        simp only [PackageRegistry.releaseLease, hv, hs, ne_eq, not_true_eq_false, if_false]
        exact hreplaces
      · left
        simp only [PackageRegistry.releaseLease, hv, ne_eq, hs, not_false_eq_true, if_true]

theorem complete_leased {stored : Stored} {loaded : PackageRegistry} {record : VersionRecord}
    (h : Sound stored) (hr : registry stored none = .ok loaded) (hm : record ∈ records stored)
    (hs : record.state = .leased) (outcome : Outcome) :
    Replaces stored (complete stored record.version outcome).2 record
      (Outcome.settle record outcome) := by
  have hloaded := registry_loaded h hr
  have hv := (hloaded.mem_records record).1 hm
  have hp : loaded.requirePending record.version = .ok record := by
    simp only [requirePending, hv, hs, ne_eq, not_true_eq_false, and_false, if_false]
  have hreplaces := replaces_updateVersion hloaded hv (touched_settle record outcome)
  unfold complete
  rw [hr]
  cases outcome <;> simp only [markReady, markYanked, hp] <;> exact hreplaces

theorem releaseLease_leased {stored : Stored} {loaded : PackageRegistry} {record : VersionRecord}
    (h : Sound stored) (hr : registry stored none = .ok loaded) (hm : record ∈ records stored)
    (hs : record.state = .leased) :
    Replaces stored (releaseLease stored record.version).2 record record.asPending := by
  have hloaded := registry_loaded h hr
  have hv := (hloaded.mem_records record).1 hm
  unfold releaseLease
  simp only [hr, PackageRegistry.releaseLease, hv, hs, ne_eq, not_true_eq_false, if_false]
  exact replaces_updateVersion hloaded hv (touched_asPending record)

theorem recoverVersion_get? {registry : PackageRegistry} (h : registry.InStep)
    (hr : registry.allocator.InRange) (version reason : Str) (recoveredAt : ℤ) (v : Str)
    (record : VersionRecord) (hv : registry.versions.get? v = some record) :
    (registry.recoverVersion version reason recoveredAt).2.versions.get? v = some record := by
  rcases recoverVersion_cases registry version reason recoveredAt with
    ⟨message, allocator, -, he⟩ | ⟨superseded, n, -, -, hok, -, he⟩
  · rw [he]
    exact hv
  · rw [he]
    have hfree := h.version_free (nextSequence_above h.exactly.coherent hok
      (hr.highWater h.exactly.coherent superseded.major))
    have hne : v ≠ (registry.reissue superseded n).1.version := by
      rintro rfl
      rw [show (registry.reissue superseded n).1.version = versionString superseded.major
        (nextSequence (registry.allocator.forMajor superseded.major)
          superseded.assignment.sequence) from rfl, hfree] at hv
      cases hv
    exact (OrderedMap.get?_set_of_ne _ _ hne).trans hv

theorem records_refresh {stored : Stored} (h : Sound stored) (package : PackageName)
    (defaultBranch : Str) (branches : List (Str × CommitTip)) (record : VersionRecord)
    (hm : record ∈ records stored) :
    record ∈ records (refresh stored package defaultBranch branches).2 := by
  obtain ⟨discovery, ht⟩ := refresh_transition stored package defaultBranch branches
  rcases ht with he | ⟨initialName, loaded, hr, he⟩
  · rw [he]
    exact hm
  · have hloaded := registry_loaded h hr
    rw [he]
    exact (OrderedMap.mem_values _ _).2 ⟨_, refresh_get? hloaded.inStep.coherent discovery _ record
      ((hloaded.mem_records record).1 hm)⟩

theorem records_recover {stored : Stored} (h : Sound stored) (version reason : Str)
    (recoveredAt : ℤ) (record : VersionRecord) (hm : record ∈ records stored) :
    record ∈ records (recover stored version reason recoveredAt).2 := by
  rcases recover_transition stored version reason recoveredAt with he | ⟨initialName, loaded, hr, he⟩
  · rw [he]
    exact hm
  · have hloaded := registry_loaded h hr
    rw [he]
    exact (OrderedMap.mem_values _ _).2 ⟨_, recoverVersion_get? hloaded.inStep hloaded.inRange
      version (trim reason) recoveredAt _ record ((hloaded.mem_records record).1 hm)⟩

end PackageObject
end JsrProxy
