import JsrProxy.FailedRequests

set_option autoImplicit false

/-!
# Failing jobs

What becomes of the other jobs while materializations fail operationally: a job that
is given back to the queue stands where it stood, so the next attempt is at it again.
-/
namespace JsrProxy

namespace PackageRegistry
open VersionAllocator

/-- One attempt that fails: the next job is leased and its lease released. -/
def failNext (registry : PackageRegistry) (now : ℤ) : Option Str × PackageRegistry :=
  match registry.leaseNext now with
  | (none, after) => (none, after)
  | (some job, leased) => (some job.version, (leased.releaseLease job.version).2)

def failures : PackageRegistry → List ℤ → List (Option Str)
  | _, [] => []
  | registry, now :: later => (registry.failNext now).1 :: failures (registry.failNext now).2 later

def eligibleRecords (registry : PackageRegistry) (now : ℤ) : List VersionRecord :=
  registry.versions.values.filter (eligible now)

/-- As many attempts from now on as there are eligible jobs lease as many versions. -/
def Rotates (registry : PackageRegistry) (now : ℤ) : Prop :=
  ∀ times : List ℤ, times.length = (registry.eligibleRecords now).length →
    (now :: times).Pairwise (· ≤ ·) →
      ∃ versions : List Str, registry.failures times = versions.map some ∧ versions.Nodup

theorem eligible_later {now later : ℤ} {record : VersionRecord} (hle : now ≤ later)
    (h : eligible now record = true) : eligible later record = true := by
  unfold eligible at h ⊢
  cases hleased : record.leasedAt with
  | none =>
    rw [hleased] at h
    exact h
  | some leasedAt =>
    simp only [hleased, Bool.or_eq_true, Bool.and_eq_true, decide_eq_true_eq] at h ⊢
    rcases h with hpending | ⟨hstate, hexpired⟩
    · exact .inl hpending
    · exact .inr ⟨hstate, by omega⟩

theorem failNext_some {registry : PackageRegistry} (hc : registry.Coherent) {now : ℤ} {v : Str}
    {record : VersionRecord} (h : registry.nextEligible now = some (v, record)) :
    registry.failNext now = (some v, registry.updateVersion v record.asPending) := by
  obtain ⟨hget, -⟩ := nextEligible_some h
  have hversion : record.version = v := (hc.record v record hget).version
  have hjob : (record.asLeased now).toMaterializationJob.version = v := hversion
  have hlease : registry.leaseNext now = (some (record.asLeased now).toMaterializationJob,
      registry.updateVersion v (record.asLeased now)) := by
    unfold leaseNext
    rw [h]
  unfold failNext
  rw [hlease]
  dsimp only
  rw [hjob, releaseLease_asLeased]

theorem failNext_coherent {registry : PackageRegistry} (h : registry.Coherent) (now : ℤ) :
    (registry.failNext now).2.Coherent := by
  unfold failNext
  have hleased := h.touchesOne (leaseNext_touches registry now)
  cases hlease : registry.leaseNext now with
  | mk job leased =>
    rw [hlease] at hleased
    cases job with
    | none => exact hleased
    | some job => exact hleased.touchesOne (releaseLease_touches leased job.version)

/-- The job that was next stays next after it has failed. -/
theorem nextEligible_failed {registry : PackageRegistry} (hc : registry.Coherent) {now : ℤ} {v : Str}
    {record : VersionRecord} (h : registry.nextEligible now = some (v, record)) :
    (registry.updateVersion v record.asPending).nextEligible now = some (v, record.asPending) := by
  obtain ⟨hget, -⟩ := nextEligible_some h
  have hself : (registry.updateVersion v record.asPending).versions.get? v = some record.asPending :=
    OrderedMap.get?_set_self _ _ _
  have hpending : eligible now record.asPending = true := by simp [eligible, VersionRecord.asPending]
  cases hnext : (registry.updateVersion v record.asPending).nextEligible now with
  | none =>
    have hnone := nextEligible_none.1 hnext v _ hself
    rw [hpending] at hnone
    cases hnone
  | some entry =>
    obtain ⟨w, other⟩ := entry
    obtain ⟨hw, heligible⟩ := nextEligible_some hnext
    by_cases hv : w = v
    · subst hv
      rw [hself] at hw
      rw [Option.some.inj hw]
    · have hold : registry.versions.get? w = some other := by
        rw [← hw]
        exact (OrderedMap.get?_set_of_ne _ _ hv).symm
      have hleast := nextEligible_least h hold heligible
      have hfirst : localeLe other.version record.asPending.version = true :=
        nextEligible_least hnext hself hpending
      have hsame : other.version = record.version := localeLe_antisymm hfirst hleast
      rw [(hc.record w other hold).version, (hc.record v record hget).version] at hsame
      exact absurd hsame hv

/-- As long as one job is the first that is eligible, every attempt leases it. -/
theorem failures_blocked {registry : PackageRegistry} (hc : registry.Coherent) {v : Str} {times : List ℤ}
    (h : ∀ now ∈ times, ∃ record, registry.nextEligible now = some (v, record)) :
    registry.failures times = List.replicate times.length (some v) := by
  induction times generalizing registry with
  | nil => rfl
  | cons now later ih =>
    obtain ⟨record, hnext⟩ := h now List.mem_cons_self
    have hcoherent := failNext_coherent hc now
    rw [failures, List.length_cons, List.replicate_succ]
    rw [failNext_some hc hnext] at hcoherent ⊢
    rw [ih hcoherent]
    intro time htime
    obtain ⟨other, hother⟩ := h time (List.mem_cons_of_mem _ htime)
    have hget := (nextEligible_some hnext).1
    rw [(nextEligible_some hother).1] at hget
    obtain rfl := Option.some.inj hget
    exact ⟨_, nextEligible_failed hc hother⟩

theorem nextEligible_of_mem {registry : PackageRegistry} {now later : ℤ} {record : VersionRecord}
    (h : record ∈ registry.eligibleRecords now) (hle : now ≤ later) :
    ∃ entry, registry.nextEligible later = some entry := by
  obtain ⟨hmem, heligible⟩ := List.mem_filter.1 h
  obtain ⟨v, hv⟩ := (OrderedMap.mem_values _ _).1 hmem
  cases hnext : registry.nextEligible later with
  | none =>
    have hnone := nextEligible_none.1 hnext v record hv
    rw [eligible_later hle heligible] at hnone
    cases hnone
  | some entry => exact ⟨entry, rfl⟩

theorem saveRegistry_failNext {saved loaded leased : PackageRegistry} {now : ℤ} {job : MaterializationJob}
    (h : fromSnapshot saved.snapshot = .ok loaded) (hl : loaded.leaseNext now = (some job, leased)) :
    PackageObject.saveRegistry (loaded.failNext now).2 = some (withPending saved.snapshot job.version) := by
  obtain ⟨-, released, hreleased, hsaved⟩ := leased_saved h hl
  have hfailed : (loaded.failNext now).2 = released := by
    simp only [failNext, hl, hreleased]
  rw [hfailed, PackageObject.saveRegistry, hsaved]

open ObjectHandlers MetadataRequest in
theorem materialize_failNext (env : ObjectEnv) (body : Option MaterializeBody) (choices : ℕ → Choice)
    (state : World × ℕ) {saved : PackageRegistry} (hrow : state.1.row = PackageObject.saveRegistry saved)
    (henv : env.materializes = true)
    (h : ((materialize env body).run (answerObject choices) state).1.status? = some 503) :
    ∃ loaded, fromSnapshot saved.snapshot = .ok loaded ∧
      ((materialize env body).run (answerObject choices) state).2.1.row =
        PackageObject.saveRegistry (loaded.failNext (choices state.2).time).2 := by
  rcases materialize_released env body choices state hrow h with ⟨hnot, -⟩ | ⟨loaded, job, leased, hload, hl, hafter⟩
  · rw [henv] at hnot
    cases hnot
  · exact ⟨loaded, hload, hafter.trans (saveRegistry_failNext hload hl).symm⟩

theorem rotates_of_le {registry : PackageRegistry} (hc : registry.Coherent) {now : ℤ}
    (h : (registry.eligibleRecords now).length ≤ 1) : Rotates registry now := by
  intro times hlength hordered
  cases times with
  | nil => exact ⟨[], rfl, List.nodup_nil⟩
  | cons time later =>
    rw [List.length_cons] at hlength
    have hlater : later = [] := List.eq_nil_of_length_eq_zero (by omega)
    subst hlater
    obtain ⟨record, hrecord⟩ := List.exists_mem_of_length_pos
      (by omega : 0 < (registry.eligibleRecords now).length)
    have hle : now ≤ time := (List.pairwise_cons.1 hordered).1 time List.mem_cons_self
    obtain ⟨⟨v, next⟩, hnext⟩ := nextEligible_of_mem hrecord hle
    refine ⟨[v], ?_, List.nodup_singleton v⟩
    rw [failures, failures, failNext_some hc hnext]
    rfl

theorem le_of_rotates {registry : PackageRegistry} (hc : registry.Coherent) {now : ℤ}
    (h : Rotates registry now) : (registry.eligibleRecords now).length ≤ 1 := by
  cases heligible : registry.eligibleRecords now with
  | nil => exact Nat.zero_le 1
  | cons record rest =>
    have hmem : record ∈ registry.eligibleRecords now := by
      rw [heligible]
      exact List.mem_cons_self
    obtain ⟨⟨v, next⟩, hnext⟩ := nextEligible_of_mem hmem le_rfl
    -- all the attempts at the same time
    have hordered : (now :: List.replicate (registry.eligibleRecords now).length now).Pairwise (· ≤ ·) := by
      rw [← List.replicate_succ]
      exact List.pairwise_replicate.2 (.inr le_rfl)
    obtain ⟨versions, hversions, hnodup⟩ := h _ List.length_replicate hordered
    rw [failures_blocked hc fun time htime => ⟨next, by rw [List.eq_of_mem_replicate htime, hnext]⟩,
      List.length_replicate, ← List.map_replicate] at hversions
    have hsame := List.map_injective_iff.2 (Option.some_injective Str) hversions
    rw [← hsame, List.nodup_replicate] at hnodup
    rw [← heligible]
    exact hnodup

/-- Failing jobs make way for others exactly where there is no other. -/
theorem rotates_iff (name : PackageName) (ops : List Op) (now : ℤ) :
    Rotates (Executions.run apply (new name) ops) now ↔
      ((Executions.run apply (new name) ops).eligibleRecords now).length ≤ 1 :=
  ⟨le_of_rotates (run_coherent name ops), rotates_of_le (run_coherent name ops)⟩

def twoCommits : List Op :=
  [.refresh ⟨"main".toList, OrderedMap.empty.set "main".toList ⟨"a".toList, 7⟩⟩,
    .refresh ⟨"main".toList, OrderedMap.empty.set "main".toList ⟨"b".toList, 8⟩⟩]

/-- The first of the two is attempted twice. -/
theorem twoCommits_blocked :
    ¬ Rotates (Executions.run apply (new ⟨"acme".toList, "widget".toList⟩) twoCommits) 0 := by
  intro h
  have hordered : ([0, 0, 0] : List ℤ).Pairwise (· ≤ ·) := by decide
  obtain ⟨versions, hversions, hnodup⟩ := h [0, 0] (by decide +kernel) hordered
  have hfailures : failures (Executions.run apply (new ⟨"acme".toList, "widget".toList⟩) twoCommits) [0, 0] =
      ["0.1.7".toList, "0.1.7".toList].map some := by decide +kernel
  rw [hfailures] at hversions
  rw [← List.map_injective_iff.2 (Option.some_injective Str) hversions] at hnodup
  exact absurd hnodup (by decide)

end PackageRegistry
end JsrProxy
