import JsrProxy.StoredRegistryRuns

set_option autoImplicit false

/-!
# Leases of concurrent handlers

Any number of `/materialize` requests, each of which leases a version at some
time and ends later, if ever. The registry keeps the time of a lease but not its
handler, so a handler that was overtaken can end the lease of another. As long
as that does not happen, no version is leased twice within the lease timeout.
-/
namespace JsrProxy
open Branches Executions

structure HandlerLease where
  handler : ℕ
  version : Str
  leasedAt : ℤ
deriving DecidableEq, Repr

structure LeaseState where
  stored : Stored
  clock : ℤ
  /-- Every lease handed out so far, the newest first. -/
  leases : List HandlerLease
  ended : List ℕ
deriving DecidableEq

inductive LeaseEvent
  | refresh (package : PackageName) (defaultBranch : Str) (branches : List (Str × CommitTip))
  | recover (version reason : Str) (recoveredAt : ℤ)
  | lease (handler : ℕ) (now : ℤ)
  | complete (handler : ℕ) (outcome : Outcome)
  | releaseLease (handler : ℕ)

namespace LeaseState
open PackageObject

def start (clock : ℤ) : LeaseState := ⟨none, clock, [], []⟩

def leaseOf (s : LeaseState) (handler : ℕ) : Option HandlerLease :=
  s.leases.find? fun l => l.handler = handler

def newest (s : LeaseState) (version : Str) : Option HandlerLease :=
  s.leases.find? fun l => l.version = version

def step (s : LeaseState) : LeaseEvent → LeaseState
  | .refresh package defaultBranch branches =>
    { s with stored := (PackageObject.refresh s.stored package defaultBranch branches).2 }
  | .recover version reason recoveredAt =>
    { s with stored := (PackageObject.recover s.stored version reason recoveredAt).2 }
  | .lease handler now =>
    match PackageObject.lease s.stored now with
    | (.leased _ job, stored) =>
      { s with stored := stored, clock := now, leases := ⟨handler, job.version, now⟩ :: s.leases }
    | (_, stored) => { s with stored := stored, clock := now }
  | .complete handler outcome =>
    match s.leaseOf handler with
    | none => s
    | some l => { s with
        stored := (PackageObject.complete s.stored l.version outcome).2
        ended := handler :: s.ended }
  | .releaseLease handler =>
    match s.leaseOf handler with
    | none => s
    | some l => { s with
        stored := (PackageObject.releaseLease s.stored l.version).2
        ended := handler :: s.ended }

def Running (s : LeaseState) (l : HandlerLease) : Prop := l ∈ s.leases ∧ l.handler ∉ s.ended

def Allowed (s : LeaseState) : LeaseEvent → Prop
  | .lease handler now => handler ∉ s.leases.map HandlerLease.handler ∧ s.clock ≤ now
  | .complete handler _ => ∃ l, s.Running l ∧ l.handler = handler
  | .releaseLease handler => ∃ l, s.Running l ∧ l.handler = handler
  | _ => True

/-- The stored record is leased, and this is the lease that made it so. -/
def InForce (s : LeaseState) (l : HandlerLease) : Prop :=
  s.newest l.version = some l ∧
    ∃ record ∈ records s.stored, record.version = l.version ∧ record.state = .leased

def SparesOthers (s : LeaseState) (handler : ℕ) (e : LeaseEvent) : Prop :=
  ∀ l, s.Running l → l.handler ≠ handler → s.InForce l → (s.step e).InForce l

/-- No version is leased again while a lease of less than the timeout is held, and
    nobody ends the lease of another. -/
def Exclusive (s : LeaseState) : LeaseEvent → Prop
  | .lease _ now => ∀ name job, (PackageObject.lease s.stored now).1 = .leased name job →
      ∀ l, s.Running l → l.version = job.version → l.leasedAt + materializationLeaseTimeoutMs ≤ now
  | .complete handler outcome => s.SparesOthers handler (.complete handler outcome)
  | .releaseLease handler => s.SparesOthers handler (.releaseLease handler)
  | _ => True

/-- The lease in force on a handler's version is not that of another running handler. -/
def NotOvertaken (s : LeaseState) (handler : ℕ) : Prop :=
  ∀ loaded, registry s.stored none = .ok loaded →
    ∀ l, s.Running l → l.handler = handler →
      ∀ l', s.Running l' → l'.handler ≠ handler → l'.version = l.version → ¬ s.InForce l'

def EndsOwnLease (s : LeaseState) : LeaseEvent → Prop
  | .complete handler _ => s.NotOvertaken handler
  | .releaseLease handler => s.NotOvertaken handler
  | _ => True

structure Coherent (s : LeaseState) : Prop where
  sound : Sound s.stored
  distinct : (s.leases.map HandlerLease.handler).Nodup

theorem Coherent.lease_unique {s : LeaseState} (h : s.Coherent) {l l' : HandlerLease}
    (hl : l ∈ s.leases) (hl' : l' ∈ s.leases) (he : l.handler = l'.handler) : l = l' :=
  List.inj_on_of_nodup_map h.distinct hl hl' he

theorem Coherent.leaseOf_eq {s : LeaseState} (h : s.Coherent) {l : HandlerLease}
    (hl : l ∈ s.leases) : s.leaseOf l.handler = some l := by
  cases hf : s.leaseOf l.handler with
  | none =>
    have := List.find?_eq_none.1 hf l hl
    simp at this
  | some l' =>
    have hmem := List.mem_of_find?_eq_some hf
    have hhandler := List.find?_some hf
    rw [h.lease_unique hmem hl (of_decide_eq_true hhandler)]

theorem step_complete {s : LeaseState} (h : s.Coherent) {l : HandlerLease} (hl : l ∈ s.leases)
    (outcome : Outcome) : s.step (.complete l.handler outcome) =
      { s with
        stored := (PackageObject.complete s.stored l.version outcome).2
        ended := l.handler :: s.ended } := by
  simp only [step, h.leaseOf_eq hl]

theorem step_releaseLease {s : LeaseState} (h : s.Coherent) {l : HandlerLease}
    (hl : l ∈ s.leases) : s.step (.releaseLease l.handler) =
      { s with
        stored := (PackageObject.releaseLease s.stored l.version).2
        ended := l.handler :: s.ended } := by
  simp only [step, h.leaseOf_eq hl]

theorem step_lease_cases (s : LeaseState) (handler : ℕ) (now : ℤ) :
    (∃ name job stored, PackageObject.lease s.stored now = (.leased name job, stored) ∧
      s.step (.lease handler now) =
        { s with stored := stored, clock := now, leases := ⟨handler, job.version, now⟩ :: s.leases }) ∨
    ((∀ name job, (PackageObject.lease s.stored now).1 ≠ .leased name job) ∧
      s.step (.lease handler now) = { s with clock := now }) := by
  have hsame := lease_not_leased s.stored now
  cases he : PackageObject.lease s.stored now with
  | mk result stored =>
    rw [he] at hsame
    cases result with
    | leased name job => exact .inl ⟨name, job, stored, rfl, by simp only [step, he]⟩
    | threw message =>
      have hne : ∀ name job, Lease.threw message ≠ .leased name job := by simp
      have hstored : stored = s.stored := hsame hne
      exact .inr ⟨hne, by simp only [step, he, hstored]⟩
    | idle report =>
      have hne : ∀ name job, Lease.idle report ≠ .leased name job := by simp
      have hstored : stored = s.stored := hsame hne
      exact .inr ⟨hne, by simp only [step, he, hstored]⟩

theorem coherent_start (clock : ℤ) : (start clock).Coherent := ⟨sound_none, List.nodup_nil⟩

theorem step_transition (s : LeaseState) (e : LeaseEvent) :
    ∃ op, Transition s.stored (s.step e).stored op := by
  cases e with
  | refresh package defaultBranch branches =>
    obtain ⟨discovery, ht⟩ := refresh_transition s.stored package defaultBranch branches
    exact ⟨_, ht⟩
  | recover version reason recoveredAt =>
    exact ⟨_, recover_transition s.stored version reason recoveredAt⟩
  | lease handler now =>
    rcases step_lease_cases s handler now with ⟨name, job, stored, he, hstep⟩ | ⟨-, hstep⟩
    · have ht := lease_transition s.stored now
      rw [he] at ht
      rw [hstep]
      exact ⟨_, ht⟩
    · rw [hstep]
      exact ⟨.leaseNext now, .inl rfl⟩
  | complete handler outcome =>
    cases hl : s.leaseOf handler with
    | none => exact ⟨.reload, .inl (by simp only [step, hl])⟩
    | some l =>
      have ht := complete_transition s.stored l.version outcome
      exact ⟨_, by simpa only [step, hl] using ht⟩
  | releaseLease handler =>
    cases hl : s.leaseOf handler with
    | none => exact ⟨.reload, .inl (by simp only [step, hl])⟩
    | some l =>
      have ht := releaseLease_transition s.stored l.version
      exact ⟨_, by simpa only [step, hl] using ht⟩

theorem Coherent.step {s : LeaseState} (h : s.Coherent) (e : LeaseEvent) (ha : s.Allowed e) :
    (s.step e).Coherent := by
  obtain ⟨op, ht⟩ := step_transition s e
  refine ⟨ht.sound h.sound, ?_⟩
  cases e with
  | refresh package defaultBranch branches => exact h.distinct
  | recover version reason recoveredAt => exact h.distinct
  | lease handler now =>
    rcases step_lease_cases s handler now with ⟨name, job, stored, -, hstep⟩ | ⟨-, hstep⟩
    · rw [hstep]
      exact List.nodup_cons.2 ⟨ha.1, h.distinct⟩
    · rw [hstep]
      exact h.distinct
  | complete handler outcome =>
    obtain ⟨l, ⟨hl, -⟩, rfl⟩ := ha
    rw [step_complete h hl]
    exact h.distinct
  | releaseLease handler =>
    obtain ⟨l, ⟨hl, -⟩, rfl⟩ := ha
    rw [step_releaseLease h hl]
    exact h.distinct

/-- What both ends do: the record of the version changes, if the object loads. -/
structure Ends (s : LeaseState) (l : HandlerLease) (after : Stored) (e : LeaseEvent) : Prop where
  step : s.step e = { s with stored := after, ended := l.handler :: s.ended }
  changes : after = s.stored ∨ ∃ loaded record replacement, registry s.stored none = .ok loaded ∧
    record.version = l.version ∧ Replaces s.stored after record replacement
  unleases : ∀ loaded, registry s.stored none = .ok loaded → ∀ record ∈ records s.stored,
    record.version = l.version → record.state = .leased → ∃ replacement : VersionRecord,
      replacement.state ≠ .leased ∧ Replaces s.stored after record replacement

theorem ends_complete {s : LeaseState} (h : s.Coherent) {l : HandlerLease} (hl : l ∈ s.leases)
    (outcome : Outcome) : s.Ends l (PackageObject.complete s.stored l.version outcome).2
      (.complete l.handler outcome) where
  step := step_complete h hl outcome
  changes := by
    rcases complete_cases h.sound l.version outcome with he | ⟨loaded, record, hr, hv, -, hreplaces⟩
    · exact .inl he
    · exact .inr ⟨loaded, record, _, hr, hv, hreplaces⟩
  unleases loaded hr record hm hv hs := by
    refine ⟨Outcome.settle record outcome, ?_, ?_⟩
    · cases outcome <;> simp [Outcome.settle, VersionRecord.asReady, VersionRecord.asYanked]
    · rw [← hv]
      exact complete_leased h.sound hr hm hs outcome

theorem ends_releaseLease {s : LeaseState} (h : s.Coherent) {l : HandlerLease}
    (hl : l ∈ s.leases) : s.Ends l (PackageObject.releaseLease s.stored l.version).2
      (.releaseLease l.handler) where
  step := step_releaseLease h hl
  changes := by
    rcases releaseLease_cases h.sound l.version with he | ⟨loaded, record, hr, hv, -, hreplaces⟩
    · exact .inl he
    · exact .inr ⟨loaded, record, _, hr, hv, hreplaces⟩
  unleases loaded hr record hm hv hs := by
    refine ⟨record.asPending, by simp [VersionRecord.asPending], ?_⟩
    rw [← hv]
    exact releaseLease_leased h.sound hr hm hs

theorem Ends.record_kept {s : LeaseState} {l l' : HandlerLease} {after : Stored}
    {e : LeaseEvent} (he : s.Ends l after e) (hl : s.Running l) (hl' : s.Running l')
    (hne : l'.handler ≠ l.handler) (hown : s.NotOvertaken l.handler) (hforce : s.InForce l')
    {record : VersionRecord} (hm : record ∈ records s.stored) (hv : record.version = l'.version) :
    record ∈ records after := by
  rcases he.changes with hsame | ⟨loaded, changed, replacement, hr, hchanged, hreplaces⟩
  · rw [hsame]
    exact hm
  · have hother : record.version ≠ changed.version := by
      intro heq
      have hversion : l'.version = l.version := by rw [← hv, heq, hchanged]
      exact hown loaded hr l hl rfl l' hl' hne hversion hforce
    exact (hreplaces.2.2 record).2 (.inr ⟨hm, hother⟩)

theorem Ends.spares_iff {s : LeaseState} (h : s.Coherent) {l : HandlerLease} {after : Stored}
    {e : LeaseEvent} (he : s.Ends l after e) (hl : s.Running l) :
    s.SparesOthers l.handler e ↔ s.NotOvertaken l.handler := by
  constructor
  · intro hspares loaded hr k hk hkl l' hl' hne hv hforce
    obtain rfl := h.lease_unique hk.1 hl.1 hkl
    have hafter := hspares l' hl' hne hforce
    obtain ⟨-, record, hm, hrv, hs⟩ := hforce
    obtain ⟨replacement, hunleased, hreplaces⟩ := he.unleases loaded hr record hm (hrv.trans hv) hs
    rw [he.step] at hafter
    obtain ⟨-, still, hstill, hsv, hleased⟩ := hafter
    rcases (hreplaces.2.2 still).1 hstill with rfl | ⟨-, hother⟩
    · exact hunleased hleased
    · exact hother (hsv.trans hrv.symm)
  · intro hown l' hl' hne hforce
    obtain ⟨hnewest, record, hm, hv, hs⟩ := id hforce
    have hkept := he.record_kept hl hl' hne hown hforce hm hv
    rw [he.step]
    exact ⟨hnewest, record, hkept, hv, hs⟩

/-- The timeout has passed, or the registry still shows this very lease. -/
def Guarded (s : LeaseState) (l : HandlerLease) : Prop :=
  l.leasedAt + materializationLeaseTimeoutMs ≤ s.clock ∨
    (s.newest l.version = some l ∧ ∃ record ∈ records s.stored, record.version = l.version ∧
      record.state = .leased ∧ record.leasedAt = some l.leasedAt)

structure Orderly (s : LeaseState) : Prop where
  coherent : s.Coherent
  guarded : ∀ l, s.Running l → s.Guarded l

theorem orderly_start (clock : ℤ) : (start clock).Orderly :=
  ⟨coherent_start clock, fun l hl => by cases hl.1⟩

theorem eligible_expired {now leasedAt : ℤ} {record : VersionRecord}
    (h : PackageRegistry.eligible now record = true) (hs : record.state = .leased)
    (hl : record.leasedAt = some leasedAt) : leasedAt + materializationLeaseTimeoutMs ≤ now := by
  simpa [PackageRegistry.eligible, hs, hl] using h

theorem Orderly.expired {s : LeaseState} (h : s.Orderly) {now : ℤ} (hclock : s.clock ≤ now)
    {record : VersionRecord} (hm : record ∈ records s.stored)
    (he : PackageRegistry.eligible now record = true) {l : HandlerLease} (hl : s.Running l)
    (hv : l.version = record.version) : l.leasedAt + materializationLeaseTimeoutMs ≤ now := by
  rcases h.guarded l hl with hpast | ⟨-, held, hheld, hversion, hs, hleasedAt⟩
  · omega
  · have hsame := records_unique h.coherent.sound hheld hm (hversion.trans hv)
    rw [hsame] at hs hleasedAt
    exact eligible_expired he hs hleasedAt

theorem Guarded.of_kept {s : LeaseState} {l : HandlerLease} (h : s.Guarded l) {after : Stored}
    (hkept : ∀ record ∈ records s.stored, record ∈ records after) :
    ({ s with stored := after } : LeaseState).Guarded l := by
  rcases h with hpast | ⟨hnewest, record, hm, hrest⟩
  · exact .inl hpast
  · exact .inr ⟨hnewest, record, hkept record hm, hrest⟩

theorem Orderly.lease {s : LeaseState} (h : s.Orderly) {handler : ℕ} {now : ℤ}
    (ha : s.Allowed (.lease handler now)) :
    (s.step (.lease handler now)).Orderly ∧ s.Exclusive (.lease handler now) := by
  have hcoherent := h.coherent.step _ ha
  rcases step_lease_cases s handler now with ⟨name, job, stored, he, hstep⟩ | ⟨hnone, hstep⟩
  · obtain ⟨record, heligible, hjob, hreplaces⟩ := lease_leased h.coherent.sound he
    have hversion : job.version = record.version := by rw [hjob]; rfl
    have hexpired : ∀ l, s.Running l → l.version = record.version →
        l.leasedAt + materializationLeaseTimeoutMs ≤ now :=
      fun l hl hv => h.expired ha.2 hreplaces.1 heligible hl hv
    constructor
    · refine ⟨hcoherent, ?_⟩
      rw [hstep]
      rintro l ⟨hl, hrunning⟩
      rcases List.mem_cons.1 hl with rfl | hold
      · refine .inr ⟨by simp [newest], record.asLeased now, ?_, hversion.symm, rfl, rfl⟩
        exact (hreplaces.2.2 _).2 (.inl rfl)
      · by_cases hv : l.version = record.version
        · exact .inl (hexpired l ⟨hold, hrunning⟩ hv)
        · rcases h.guarded l ⟨hold, hrunning⟩ with hpast | ⟨hnewest, held, hheld, hhv, hrest⟩
          · exact .inl (hpast.trans ha.2)
          · refine .inr ⟨?_, held, (hreplaces.2.2 held).2 (.inr ⟨hheld, hhv ▸ hv⟩), hhv, hrest⟩
            have hne : ¬ job.version = l.version := fun heq => hv (heq.symm.trans hversion)
            simp only [newest, List.find?_cons, hne, decide_false]
            exact hnewest
    · intro name' job' he' l hl hv
      rw [he] at he'
      obtain ⟨-, rfl⟩ := Lease.leased.inj he'
      exact hexpired l hl (hv.trans hversion)
  · constructor
    · refine ⟨hcoherent, ?_⟩
      rw [hstep]
      intro l hl
      rcases h.guarded l hl with hpast | hheld
      · exact .inl (hpast.trans ha.2)
      · exact .inr hheld
    · intro name job he
      exact absurd he (hnone name job)

theorem Orderly.ends {s : LeaseState} (h : s.Orderly) {l : HandlerLease} {after : Stored}
    {e : LeaseEvent} (ha : s.Allowed e) (he : s.Ends l after e) (hl : s.Running l)
    (hown : s.NotOvertaken l.handler) : (s.step e).Orderly := by
  refine ⟨h.coherent.step e ha, ?_⟩
  rw [he.step]
  rintro l' ⟨hl', hrunning⟩
  obtain ⟨hne, hold⟩ := not_or.1 (mt List.mem_cons.2 hrunning)
  rcases h.guarded l' ⟨hl', hold⟩ with hpast | ⟨hnewest, record, hm, hv, hs, hleasedAt⟩
  · exact .inl hpast
  · have hkept := he.record_kept hl ⟨hl', hold⟩ hne hown
      ⟨hnewest, record, hm, hv, hs⟩ hm hv
    exact .inr ⟨hnewest, record, hkept, hv, hs, hleasedAt⟩

theorem endsOwnLease_of_exclusive {s : LeaseState} (h : s.Coherent) {e : LeaseEvent} (ha : s.Allowed e)
    (hx : s.Exclusive e) : s.EndsOwnLease e := by
  cases e with
  | complete handler outcome =>
    obtain ⟨l, hl, rfl⟩ := ha
    exact ((ends_complete h hl.1 outcome).spares_iff h hl).1 hx
  | releaseLease handler =>
    obtain ⟨l, hl, rfl⟩ := ha
    exact ((ends_releaseLease h hl.1).spares_iff h hl).1 hx
  | refresh | recover | lease => trivial

theorem Orderly.step {s : LeaseState} (h : s.Orderly) {e : LeaseEvent} (ha : s.Allowed e)
    (hown : s.EndsOwnLease e) : (s.step e).Orderly ∧ s.Exclusive e := by
  cases e with
  | refresh package defaultBranch branches =>
    refine ⟨⟨h.coherent.step _ ha, ?_⟩, trivial⟩
    intro l hl
    exact (h.guarded l hl).of_kept (records_refresh h.coherent.sound package defaultBranch branches)
  | recover version reason recoveredAt =>
    refine ⟨⟨h.coherent.step _ ha, ?_⟩, trivial⟩
    intro l hl
    exact (h.guarded l hl).of_kept (records_recover h.coherent.sound version reason recoveredAt)
  | lease handler now => exact h.lease ha
  | complete handler outcome =>
    obtain ⟨l, hl, rfl⟩ := id ha
    have hends := ends_complete h.coherent hl.1 outcome
    exact ⟨h.ends ha hends hl hown, (hends.spares_iff h.coherent hl).2 hown⟩
  | releaseLease handler =>
    obtain ⟨l, hl, rfl⟩ := id ha
    have hends := ends_releaseLease h.coherent hl.1
    exact ⟨h.ends ha hends hl hown, (hends.spares_iff h.coherent hl).2 hown⟩

/-- Over any interleaving, leases are exclusive exactly when no handler that was
    overtaken ends the lease of its successor. -/
theorem leases_exclusive_iff (clock : ℤ) (es : List LeaseEvent)
    (h : Admitted step Allowed (start clock) es) :
    Admitted step Exclusive (start clock) es ↔ Admitted step EndsOwnLease (start clock) es := by
  constructor
  · intro hx
    exact admitted_of_invariant Coherent (fun s e => s.Allowed e ∧ s.Exclusive e) EndsOwnLease
      (fun _ e hs ha => hs.step e ha.1) (fun _ _ hs ha => endsOwnLease_of_exclusive hs ha.1 ha.2) _ es
      (coherent_start clock) ((admitted_and _ es).2 ⟨h, hx⟩)
  · intro hown
    exact admitted_of_invariant Orderly (fun s e => s.Allowed e ∧ s.EndsOwnLease e) Exclusive
      (fun _ _ hs ha => (hs.step ha.1 ha.2).1) (fun _ _ hs ha => (hs.step ha.1 ha.2).2) _ es
      (orderly_start clock) ((admitted_and _ es).2 ⟨h, hown⟩)

/-- Handler 1 is overtaken by handler 2 and then releases the lease of handler 2, so
    that handler 3 leases the version one millisecond after handler 2 did. -/
def overtakenRun : List LeaseEvent :=
  [.refresh ⟨"acme".toList, "widget".toList⟩ "main".toList [("main".toList, ⟨"a".toList, 7⟩)],
    .lease 1 0, .lease 2 120000, .releaseLease 1, .lease 3 120001]

theorem overtakenRun_allowed : Admitted step Allowed (start 0) overtakenRun :=
  ⟨trivial, ⟨by decide, by decide⟩, ⟨by decide, by decide⟩,
    ⟨⟨1, "0.1.7".toList, 0⟩, ⟨by decide, by decide⟩, rfl⟩, ⟨by decide, by decide⟩, trivial⟩

theorem leases_exclusive_iff_overtakenRun :
    Admitted step Exclusive (start 0) overtakenRun ↔
      Admitted step EndsOwnLease (start 0) overtakenRun :=
  leases_exclusive_iff 0 overtakenRun overtakenRun_allowed

theorem overtakenRun_not_exclusive :
    Admitted step Allowed (start 0) overtakenRun ∧
      ¬ Admitted step Exclusive (start 0) overtakenRun := by
  refine ⟨overtakenRun_allowed, ?_⟩
  rintro ⟨-, -, -, -, hlease, -⟩
  have hexpired := hlease ⟨"acme".toList, "widget".toList⟩
    ⟨"main".toList, "a".toList, 0, "0.1.7".toList, .leased, some 120001, none⟩ rfl
    ⟨2, "0.1.7".toList, 120000⟩ ⟨by decide, by decide⟩ rfl
  exact absurd hexpired (by decide)

end LeaseState
end JsrProxy
