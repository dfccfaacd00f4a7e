import JsrProxy.Http
import JsrProxy.LoadableSnapshots
import JsrProxy.MaterializationLeases
import JsrProxy.Programs

set_option autoImplicit false

/-!
# Metadata requests

What the Worker does for an authorised request of a package's `meta.json`. It
asks for materialization when the refreshed registry has a pending job. A lease
that ran out counts as a job for the registry but not for the Worker.
-/
namespace JsrProxy
open Branches

structure PackageAnswer where
  packageMeta : Option PackageMeta
  jobs : Option (List MaterializationJob)
deriving DecidableEq, Repr

inductive PackageCall
  | refresh (package : PackageName) (defaultBranch : Str) (branches : List (Str × CommitTip))
  | materialize (owner repository pat statusUrl : Str)

abbrev packageCalls : Effects := ⟨PackageCall, fun _ => Reply PackageAnswer⟩

/-- What `discoverGitHubBranches` comes to. The seconds of a refusal are absent
    when GitHub names none or zero. -/
inductive Discovery
  | found (discovery : BranchDiscovery)
  | refused (status : ℕ) (retryAfterSeconds : Option Str)
  | failed

inductive Received (α : Type)
  | threw (message : Str)
  | refused (headers : Headers)
  | parsed (body : α)

namespace Reply

variable {α β : Type}

def map (f : α → β) : Reply α → Reply β
  | json status body => json status (f body)
  | text status message retryAfter => text status message retryAfter
  | threw message => threw message

def headers : Reply α → Headers
  | json _ _ => [("content-type".toList, "application/json".toList)]
  | text _ _ retryAfter => ("content-type".toList, "text/plain;charset=UTF-8".toList) ::
      (retryAfter.map fun seconds => ("retry-after".toList, seconds)).toList
  | threw _ => []

def received (reply : Reply α) : Received α :=
  match reply with
  | threw message => .threw message
  | json status body => if Response.isOk status then .parsed body else .refused reply.headers
  | text status _ _ =>
    if Response.isOk status then .threw "body is not JSON".toList else .refused reply.headers

end Reply

def PackageMeta.json (packageMeta : PackageMeta) : Json :=
  .object [("scope".toList, .string packageMeta.scope), ("name".toList, .string packageMeta.name),
    ("versions".toList, .object (packageMeta.versions.map fun entry =>
      (entry.1, .object [("yanked".toList, .bool entry.2)])))]

open Executions in
theorem LeaseState.run_reached (clock : ℤ) (es : List LeaseEvent) :
    PackageObject.Reached (run LeaseState.step (.start clock) es).stored :=
  run_invariant (fun s => PackageObject.Reached s.stored) (fun _ _ => True)
    (fun s e h _ => (LeaseState.step_transition s e).elim fun _ ht => ht.reached h)
    (.start clock) es PackageObject.reached_none (admitted_true _ _ _)

namespace MetadataRequest

/-- The end of `refreshPackageMetadata`: the versions, or another try when there are none yet. -/
def answer (packageMeta : PackageMeta) (jobs : List MaterializationJob) : Response :=
  if packageMeta.versions.length = 0 &&
      jobs.any fun job => job.state = .pending || job.state = .leased then
    .text 503 "package materialization pending".toList [("retry-after".toList, "1".toList)]
  else
    .json 200 packageMeta.json [("cache-control".toList, "public, max-age=60".toList)]

def materializePending (identity : PackageName) (owner repository pat origin : Str) :
    Program packageCalls (Except Str Response) :=
  .call (.materialize owner repository pat (origin ++ "/-/status/@".toList ++ identity.scope ++
    '/' :: identity.name)) fun materialization =>
      match materialization.received with
      | .threw message => .done (.error message)
      | .refused headers => .done (.ok (.text 503 "package materialization pending".toList
          [("retry-after".toList, (headers.get "retry-after".toList).getD "1".toList)]))
      | .parsed result =>
        match result.packageMeta, result.jobs with
        | some packageMeta, some jobs => .done (.ok (answer packageMeta jobs))
        | _, _ => .done (.ok
            (.text 502 "package materialization returned an invalid response".toList []))

def refreshPackageMetadata (identity : PackageName) (owner repository pat origin : Str)
    (discovery : Discovery) : Program packageCalls (Except Str Response) :=
  match discovery with
  | .refused status retryAfterSeconds =>
    if status = 401 ∨ status = 404 then .done (.ok (.text 404 "not found".toList []))
    else .done (.ok (.text 503 "GitHub branch discovery unavailable".toList
      (retryAfterSeconds.map fun seconds => ("retry-after".toList, seconds)).toList))
  | .failed => .done (.ok (.text 502 "GitHub branch discovery failed".toList []))
  | .found discovery =>
    .call (.refresh identity discovery.defaultBranch discovery.branches.entries) fun response =>
      match response.received with
      | .threw message => .done (.error message)
      | .refused headers => .done (.ok (.text 503 "package registry unavailable".toList headers))
      | .parsed result =>
        match result.packageMeta, result.jobs with
        | some packageMeta, some jobs =>
          if jobs.any fun job => job.state = .pending then
            materializePending identity owner repository pat origin
          else .done (.ok (answer packageMeta jobs))
        | _, _ => .done (.ok
            (.text 502 "package registry returned an invalid response".toList []))

open PackageObject PackageRegistry VersionAllocator

/-- The object as a metadata request meets it. What comes of a `/materialize` is left open. -/
def serve (materialize : Stored → Reply PackageAnswer × Stored) (stored : Stored) :
    PackageCall → Reply PackageAnswer × Stored
  | .refresh package defaultBranch branches =>
    let (reply, refreshed) := PackageObject.refresh stored package defaultBranch branches
    (reply.map fun body => ⟨some body.1.packageMeta, some body.1.jobs⟩, refreshed)
  | .materialize _ _ _ _ => materialize stored

/-- The request sends `/materialize`, and this job is the one that it leases. -/
def Resumes (now : ℤ) (job : MaterializationJob) (calls : List (Stored × PackageCall)) : Prop :=
  ∃ after owner repository pat statusUrl, (after, .materialize owner repository pat statusUrl) ∈ calls ∧
    ∃ name leased, (lease after now).1 = .leased name leased ∧ leased.version = job.version

/-- The discovery selects a commit that has no assignment in its major. -/
def BringsNew (stored : Stored) (identity : PackageName) (discovery : BranchDiscovery) : Prop :=
  ∃ loaded selection, registry stored (some identity) = .ok loaded ∧
    selectBranches discovery loaded.branches = .ok selection ∧
    ∃ b ∈ selection.branches, ∀ x ∈ assignments stored, x.major = b.major → x.commitSha ≠ b.tip.sha

theorem bringsNew_iff {stored : Stored} {identity : PackageName} {discovery : BranchDiscovery}
    {loaded : PackageRegistry} {selection : BranchSelection}
    (hr : registry stored (some identity) = .ok loaded)
    (hs : selectBranches discovery loaded.branches = .ok selection) :
    BringsNew stored identity discovery ↔ ∃ b ∈ selection.branches,
      ∀ x ∈ assignments stored, x.major = b.major → x.commitSha ≠ b.tip.sha := by
  constructor
  · rintro ⟨loaded', selection', hr', hs', hb⟩
    rw [hr] at hr'
    obtain rfl := Except.ok.inj hr'
    rw [hs] at hs'
    obtain rfl := Except.ok.inj hs'
    exact hb
  · intro hb
    exact ⟨loaded, selection, hr, hs, hb⟩

/-- The least sequence from the commit's time on that lies above all of its major. -/
def Succeeds (stored : Stored) (branch : SelectedBranch) (sequence : ℤ) : Prop :=
  IsLeast {n | branch.tip.committedAt ≤ n ∧
    ∀ x ∈ assignments stored, x.major = branch.major → x.sequence < n} sequence

/-- Every commit that the discovery brings new finds room in its major, and a version
    that is not leased before the job. -/
def StaysFirst (stored : Stored) (identity : PackageName) (discovery : BranchDiscovery)
    (job : MaterializationJob) : Prop :=
  ∀ loaded selection, registry stored (some identity) = .ok loaded →
    selectBranches discovery loaded.branches = .ok selection →
    ∀ b ∈ selection.branches,
      (∀ x ∈ assignments stored, x.major = b.major → x.commitSha ≠ b.tip.sha) →
      Roomy stored b.major ∧ ∀ sequence, Succeeds stored b sequence →
        localeLe job.version (versionString b.major sequence) = true

def HasPending (stored : Stored) : Prop := ∃ record ∈ records stored, record.state = .pending

theorem calls_materializePending {σ : Type}
    (handle : σ → (call : packageCalls.Op) → packageCalls.Ret call × σ) (identity : PackageName)
    (owner repository pat origin : Str) (s : σ) :
    (materializePending identity owner repository pat origin).calls handle s =
      [(s, .materialize owner repository pat (origin ++ "/-/status/@".toList ++ identity.scope ++
        '/' :: identity.name))] := by
  unfold materializePending
  rw [Program.calls_call]
  dsimp only
  split
  · rfl
  · rfl
  · split <;> rfl

theorem any_pending_iff {registry : PackageRegistry} :
    ((report registry).jobs.any fun job => job.state = .pending) = true ↔
      HasPending (saveRegistry registry) := by
  simp [report, PackageRegistry.jobs, HasPending, records, saveRegistry, PackageRegistry.snapshot]

theorem materialize_mem_calls {materialize : Stored → Reply PackageAnswer × Stored}
    {stored after : Stored} {identity : PackageName} {owner repository pat origin : Str}
    {owner' repository' pat' statusUrl : Str} {discovery : BranchDiscovery}
    {refreshed : PackageRegistry} {created : List MaterializationJob}
    (h : PackageObject.refresh stored identity discovery.defaultBranch discovery.branches.entries
      = (.json 200 (report refreshed, created), saveRegistry refreshed)) :
    (after, PackageCall.materialize owner' repository' pat' statusUrl) ∈
        (refreshPackageMetadata identity owner repository pat origin (.found discovery)).calls
          (serve materialize) stored ↔
      HasPending (saveRegistry refreshed) ∧ after = saveRegistry refreshed ∧ owner' = owner ∧
        repository' = repository ∧ pat' = pat ∧ statusUrl = origin ++ "/-/status/@".toList ++
          identity.scope ++ '/' :: identity.name := by
  rw [← any_pending_iff, refreshPackageMetadata, Program.calls_call]
  simp only [serve, h, Reply.map, Reply.received, Response.isOk]
  cases hp : (report refreshed).jobs.any fun job => job.state = .pending with
  | false => simp [hp]
  | true =>
    simp [hp, calls_materializePending]

theorem hasPending_refreshBranches {stored : Stored} {loaded : PackageRegistry}
    (h : Loaded stored loaded) (state : BranchState) {branches : List SelectedBranch}
    (hv : ∀ b ∈ branches, validateInputs b.major b.tip.sha b.tip.committedAt = .ok ()) :
    HasPending (saveRegistry (({ loaded with branches := state }).refreshBranches [] branches).2) ↔
      HasPending stored ∨ ∃ b ∈ branches, ∀ x ∈ assignments stored,
        x.major = b.major → x.commitSha ≠ b.tip.sha := by
  have hinStep := h.inStep.branches state
  have hnew : ∀ b : SelectedBranch, (∀ x ∈ assignments stored, x.major = b.major →
      x.commitSha ≠ b.tip.sha) ↔
        (loaded.allocator.forMajor b.major).currentAttempts.get? b.tip.sha = none := by
    intro b
    have hcurrent := current_iff h b.major b.tip.sha
    rw [← Option.ne_none_iff_exists'] at hcurrent
    rw [← not_iff_not, ← ne_eq, hcurrent]
    push Not
    exact Iff.rfl
  have hmem : ∀ record, record ∈ records (saveRegistry (PackageRegistry.refreshBranches
      { loaded with branches := state } [] branches).2) ↔ ∃ v, (PackageRegistry.refreshBranches
        { loaded with branches := state } [] branches).2.versions.get? v = some record :=
    fun record => OrderedMap.mem_values _ _
  constructor
  · rintro ⟨record, hrecord, hpending⟩
    by_cases hall : ∃ b ∈ branches, ∀ x ∈ assignments stored, x.major = b.major →
        x.commitSha ≠ b.tip.sha
    · exact .inr hall
    · left
      refine ⟨record, ?_, hpending⟩
      have hsame := refreshBranches_known hinStep.coherent [] branches (by
        intro b hb
        by_contra hnone
        apply hall
        refine ⟨b, hb, (hnew b).2 ?_⟩
        rw [Option.eq_none_iff_forall_ne_some]
        intro n hn
        exact hnone ⟨n, hn⟩)
      obtain ⟨v, hget⟩ := (hmem record).1 hrecord
      rw [hsame] at hget
      rw [← h.records]
      exact (OrderedMap.mem_values _ _).2 ⟨v, hget⟩
  · rintro (⟨record, hrecord, hpending⟩ | ⟨b, hb, hb'⟩)
    · have hkept := refreshBranches_get? hinStep.coherent [] branches record.version record
        ((h.mem_records record).1 hrecord)
      exact ⟨record, (hmem record).2 ⟨_, hkept⟩, hpending⟩
    · obtain ⟨v, record, hget, hpending⟩ :=
        refreshBranches_pending hinStep h.inRange [] hv ⟨b, hb, (hnew b).1 hb'⟩
      exact ⟨record, (hmem record).2 ⟨v, hget⟩, hpending⟩

theorem succeeds_iff {stored : Stored} {loaded : PackageRegistry} (h : Loaded stored loaded)
    {branch : SelectedBranch} (hstamp : 0 ≤ branch.tip.committedAt) {sequence : ℤ} :
    Succeeds stored branch sequence ↔ sequence =
      nextSequence (loaded.allocator.forMajor branch.major) branch.tip.committedAt := by
  have hcoherent := h.inStep.exactly.coherent
  have hlow := (hcoherent branch.major).highWater_ge
  have hmark := h.inRange.highWater hcoherent branch.major
  have hnext : nextSequence (loaded.allocator.forMajor branch.major) branch.tip.committedAt
      = max branch.tip.committedAt ((loaded.allocator.forMajor branch.major).highWater + 1) := by
    rw [nextSequence, Doubles.add_one_of_lt _ hlow hmark]
  have hleast : Succeeds stored branch
      (nextSequence (loaded.allocator.forMajor branch.major) branch.tip.committedAt) := by
    rw [hnext]
    constructor
    · refine ⟨le_max_left _ _, ?_⟩
      intro x hx hmajor
      have hbelow := ((h.held x).2 hx).below hcoherent
      rw [hmajor] at hbelow
      omega
    · rintro n ⟨htime, habove⟩
      apply max_le htime
      -- the mark is the sequence of some assignment, or stands below them all
      rcases (hcoherent branch.major).reached with hnone | ⟨k, x, hx, hsequence⟩
      · omega
      · have hlt := habove x ((h.held x).1 (held_of_get? hx))
          ((hcoherent branch.major).ofMajor k x hx).1
        omega
  exact ⟨fun hs => hs.unique hleast, fun hs => hs ▸ hleast⟩

theorem mem_records_refreshed {stored : Stored} {loaded : PackageRegistry}
    (h : Loaded stored loaded) (state : BranchState) {branches : List SelectedBranch}
    (hdistinct : (branches.map SelectedBranch.major).Nodup)
    (hv : ∀ b ∈ branches, validateInputs b.major b.tip.sha b.tip.committedAt = .ok ())
    {record : VersionRecord} :
    record ∈ records (saveRegistry
        (({ loaded with branches := state }).refreshBranches [] branches).2) ↔
      record ∈ records stored ∨ ∃ b ∈ branches,
        (∀ x ∈ assignments stored, x.major = b.major → x.commitSha ≠ b.tip.sha) ∧
          record = loaded.freshRecord b := by
  have hcoherent := h.inStep.coherent.branches state
  have hcreates : ∀ b : SelectedBranch, Creates { loaded with branches := state } b ↔
      ∀ x ∈ assignments stored, x.major = b.major → x.commitSha ≠ b.tip.sha := by
    intro b
    have hnone := h.current_none_iff b.major b.tip.sha
    simp only [not_and] at hnone
    rw [← hnone]
    exact and_iff_left (h.inRange.highWater h.inStep.coherent.allocator b.major)
  have hmem := mem_values_iff (refreshBranches_coherent hcoherent [] branches) record
  refine hmem.trans ?_
  rw [refreshBranches_get?_iff hcoherent [] hdistinct hv, h.mem_records]
  refine or_congr_right (exists_congr fun b => and_congr_right fun _ => ?_)
  rw [hcreates b]
  exact and_congr_right fun _ => and_iff_right rfl

/-- The first eligible record by version is the one that is leased. -/
theorem lease_first_iff {stored : Stored} {now : ℤ} {record : VersionRecord} (h : Sound stored)
    (hm : record ∈ records stored) (he : eligible now record = true) {loaded : PackageRegistry}
    (hr : registry stored none = .ok loaded) :
    (∃ name leased, (lease stored now).1 = .leased name leased ∧
        leased.version = record.version) ↔
      ∀ other ∈ records stored, eligible now other = true →
        localeLe record.version other.version = true := by
  constructor
  · rintro ⟨name, leased, hlease, hsame⟩ other hother heligible
    obtain ⟨picked, -, -, hversion, hleast⟩ := lease_least h hlease
    rw [← hsame, hversion]
    exact hleast other hother heligible
  · intro hfirst
    obtain ⟨name, leased, hlease⟩ := lease_exists h hr hm he
    obtain ⟨picked, hpicked, heligible, hversion, hleast⟩ := lease_least h hlease
    refine ⟨name, leased, hlease, hversion.trans ?_⟩
    exact localeLe_antisymm (hleast record hm he) (hfirst picked hpicked heligible)

theorem saveRegistry_loads_iff {saved : PackageRegistry} (h : saved.Sound) :
    (∃ loaded, registry (saveRegistry saved) none = .ok loaded) ↔ saved.allocator.InRange := by
  constructor
  · rintro ⟨loaded, hloaded⟩ x hx
    have hread := registry_loaded (sound_saveRegistry h) hloaded
    exact hread.inRange x ((hread.held x).2 hx)
  · intro hrange
    obtain ⟨restored, hrestored, -⟩ := (h.inStep hrange).loads hrange
    refine ⟨restored, ?_⟩
    simp only [registry, saveRegistry, hrestored]

/-- What a refresh that succeeds leaves: the records that were stored, and a fresh one for
    each commit that is new to its major. -/
structure Refreshed (stored : Stored) (identity : PackageName) (discovery : BranchDiscovery)
    (loaded : PackageRegistry) (selection : BranchSelection) (refreshed : PackageRegistry) : Prop where
  known : Loaded stored loaded
  read : registry stored (some identity) = .ok loaded
  selected : selectBranches discovery loaded.branches = .ok selection
  stamps : ∀ b ∈ selection.branches, 0 ≤ b.tip.committedAt
  sound : refreshed.Sound
  pending : HasPending (saveRegistry refreshed) ↔ HasPending stored ∨ BringsNew stored identity discovery
  records : ∀ record, record ∈ records (saveRegistry refreshed) ↔ record ∈ records stored ∨
    ∃ b ∈ selection.branches, (∀ x ∈ assignments stored, x.major = b.major → x.commitSha ≠ b.tip.sha) ∧
      record = loaded.freshRecord b
  loads : (∃ reloaded, registry (saveRegistry refreshed) none = .ok reloaded) ↔
    ∀ b ∈ selection.branches, (∀ x ∈ assignments stored, x.major = b.major → x.commitSha ≠ b.tip.sha) →
      Roomy stored b.major

theorem refreshed_of_succeeded {stored : Stored} (h : PackageObject.Reached stored) {identity : PackageName}
    {discovery : BranchDiscovery} {body : PackageReport × List MaterializationJob}
    (hrefresh : (PackageObject.refresh stored identity discovery.defaultBranch
      discovery.branches.entries).1 = .json 200 body) :
    ∃ loaded selection refreshed created, Refreshed stored identity discovery loaded selection refreshed ∧
      PackageObject.refresh stored identity discovery.defaultBranch discovery.branches.entries
        = (.json 200 (report refreshed, created), saveRegistry refreshed) := by
  rcases refresh_cases stored identity discovery.defaultBranch discovery.branches.entries h.sound with
    ⟨parsed, loaded, selection, hparse, hread, hselected, hvalid, created, he⟩ | ⟨-, -, hfails⟩
  swap
  · exact absurd hrefresh (hfails _ _)
  obtain rfl := parseDiscovery_eq hparse
  have hloaded := registry_loaded h.sound hread
  have hdistinct := selectBranches_distinct (registry_branches h hread) hselected
  have hsound : (PackageRegistry.refreshBranches { loaded with branches := selection.state } []
      selection.branches).2.Sound := by
    have hnext := hloaded.sound.apply (.refresh parsed)
    change (loaded.refresh parsed).2.Sound at hnext
    rw [refresh_of_selected hselected] at hnext
    exact hnext
  refine ⟨loaded, selection, _, created, ⟨hloaded, hread, hselected, ?_, hsound, ?_, ?_, ?_⟩, he⟩
  · exact fun b hb => (validateInputs_ok.1 (hvalid b hb)).2.2.1
  · rw [bringsNew_iff hread hselected]
    exact hasPending_refreshBranches hloaded selection.state hvalid
  · exact fun record => mem_records_refreshed hloaded selection.state hdistinct hvalid
  · rw [saveRegistry_loads_iff hsound, refreshBranches_inRange_iff
      (hloaded.inStep.coherent.branches selection.state) hloaded.inRange [] hdistinct hvalid]
    refine forall₂_congr fun b _ => ?_
    refine imp_congr ?_ (hloaded.mark_lt_iff b.major)
    have hnone := hloaded.current_none_iff b.major b.tip.sha
    simp only [not_and] at hnone
    exact hnone

open Executions in
/-- A metadata request resumes the next job exactly when a record is pending, which an
    expired lease is not, or its discovery brings a commit that is new to its major, and
    when no such commit fills up its major or gets a version that goes first. -/
theorem resumes_iff (clock : ℤ) (es : List LeaseEvent) (identity : PackageName)
    (owner repository pat origin : Str) (discovery : BranchDiscovery) (now : ℤ)
    (materialize : Stored → Reply PackageAnswer × Stored)
    (body : PackageReport × List MaterializationJob) (name : PackageName) (job : MaterializationJob)
    (hrefresh : (PackageObject.refresh (run LeaseState.step (.start clock) es).stored identity
      discovery.defaultBranch discovery.branches.entries).1 = .json 200 body)
    (hjob : (lease (run LeaseState.step (.start clock) es).stored now).1 = .leased name job) :
    Resumes now job
        ((refreshPackageMetadata identity owner repository pat origin (.found discovery)).calls
          (serve materialize) (run LeaseState.step (.start clock) es).stored) ↔
      (HasPending (run LeaseState.step (.start clock) es).stored ∨
        BringsNew (run LeaseState.step (.start clock) es).stored identity discovery) ∧
      StaysFirst (run LeaseState.step (.start clock) es).stored identity discovery job := by
  have hreached := LeaseState.run_reached clock es
  generalize (run LeaseState.step (.start clock) es).stored = stored at hreached hrefresh hjob ⊢
  obtain ⟨loaded, selection, refreshed, created, h, he⟩ := refreshed_of_succeeded hreached hrefresh
  have hstored : Sound (saveRegistry refreshed) := sound_saveRegistry h.sound
  obtain ⟨picked, hpicked, heligible, hversion, hleast⟩ := lease_least hreached.sound hjob
  have hkept := (h.records picked).2 (.inl hpicked)
  rw [← h.pending]
  constructor
  · rintro ⟨after, owner', repository', pat', statusUrl, hcall, name', leased, hlease, hsame⟩
    obtain ⟨hp, rfl, -⟩ := (materialize_mem_calls he).1 hcall
    obtain ⟨reloaded, -, -, hreload, -⟩ := lease_inv (Prod.ext hlease rfl)
    have hleast' := (lease_first_iff hstored hkept heligible hreload).1
      ⟨name', leased, hlease, hsame.trans hversion⟩
    refine ⟨hp, ?_⟩
    intro loaded' selection' hread hselected b hb hnew
    obtain rfl := Except.ok.inj (h.read.symm.trans hread)
    obtain rfl := Except.ok.inj (h.selected.symm.trans hselected)
    refine ⟨h.loads.1 ⟨reloaded, hreload⟩ b hb hnew, ?_⟩
    intro sequence hsucceeds
    rw [(succeeds_iff h.known (h.stamps b hb)).1 hsucceeds, hversion]
    exact hleast' (loaded.freshRecord b) ((h.records _).2 (.inr ⟨b, hb, hnew, rfl⟩)) rfl
  · rintro ⟨hp, hstays⟩
    have hnew := hstays loaded selection h.read h.selected
    obtain ⟨reloaded, hreload⟩ := h.loads.2 fun b hb hunseen => (hnew b hb hunseen).1
    refine ⟨_, _, _, _, _, (materialize_mem_calls he).2 ⟨hp, rfl, rfl, rfl, rfl, rfl⟩, ?_⟩
    rw [hversion]
    apply (lease_first_iff hstored hkept heligible hreload).2
    -- another eligible record was there before, or is that of a new commit
    intro other hother hothers
    rcases (h.records other).1 hother with hold | ⟨b, hb, hbrought, rfl⟩
    · exact hleast other hold hothers
    · rw [← hversion]
      exact (hnew b hb hbrought).2 _ ((succeeds_iff h.known (h.stamps b hb)).2 rfl)

def abandonedRun : List LeaseEvent :=
  [.refresh ⟨"acme".toList, "widget".toList⟩ "main".toList [("main".toList, ⟨"a".toList, 7⟩)],
    .lease 1 0]

def abandoned : Stored := (Executions.run LeaseState.step (.start 0) abandonedRun).stored

def unchangedTip : BranchDiscovery := ⟨"main".toList, .set .empty "main".toList ⟨"a".toList, 7⟩⟩

def unavailable (stored : Stored) : Reply PackageAnswer × Stored :=
  (.text 503 "materialization unavailable".toList (some "1".toList), stored)

def laterRequest : Program packageCalls (Except Str Response) :=
  refreshPackageMetadata ⟨"acme".toList, "widget".toList⟩ "acme".toList "widget".toList "pat".toList
    "https://jsr.example".toList (.found unchangedTip)

def abandonedJob : MaterializationJob :=
  ⟨"main".toList, "a".toList, 0, "0.1.7".toList, .leased, some 120000, none⟩

theorem abandonedRun_allowed : Executions.Admitted LeaseState.step LeaseState.Allowed (.start 0)
    abandonedRun := ⟨trivial, ⟨by decide, by decide⟩, trivial⟩

theorem abandoned_refresh : ∃ body, (PackageObject.refresh abandoned
    ⟨"acme".toList, "widget".toList⟩ unchangedTip.defaultBranch unchangedTip.branches.entries).1
      = .json 200 body := ⟨_, rfl⟩

theorem abandoned_lease : (lease abandoned 120000).1 =
    .leased ⟨"acme".toList, "widget".toList⟩ abandonedJob := by decide

theorem resumes_iff_abandoned :
    Resumes 120000 abandonedJob (laterRequest.calls (serve unavailable) abandoned) ↔
      (HasPending abandoned ∨
        BringsNew abandoned ⟨"acme".toList, "widget".toList⟩ unchangedTip) ∧
      StaysFirst abandoned ⟨"acme".toList, "widget".toList⟩ unchangedTip abandonedJob := by
  obtain ⟨body, hbody⟩ := abandoned_refresh
  exact resumes_iff 0 abandonedRun ⟨"acme".toList, "widget".toList⟩
    "acme".toList "widget".toList "pat".toList "https://jsr.example".toList unchangedTip 120000
    unavailable body ⟨"acme".toList, "widget".toList⟩ abandonedJob hbody abandoned_lease

/-- The lease ran out and the refresh succeeds, but the Worker asks for nothing. -/
theorem abandoned_not_resumed :
    Executions.Admitted LeaseState.step LeaseState.Allowed (.start 0) abandonedRun ∧
      (∃ body, (PackageObject.refresh abandoned ⟨"acme".toList, "widget".toList⟩
        unchangedTip.defaultBranch unchangedTip.branches.entries).1 = .json 200 body) ∧
      (lease abandoned 120000).1 = .leased ⟨"acme".toList, "widget".toList⟩ abandonedJob ∧
      ¬ Resumes 120000 abandonedJob (laterRequest.calls (serve unavailable) abandoned) := by
  refine ⟨abandonedRun_allowed, abandoned_refresh, abandoned_lease, ?_⟩
  rintro ⟨after, owner, repository, pat, statusUrl, hcall, -⟩
  have hcalls : laterRequest.calls (serve unavailable) abandoned = [(abandoned,
      .refresh ⟨"acme".toList, "widget".toList⟩ "main".toList [("main".toList, ⟨"a".toList, 7⟩)])] :=
    rfl
  rw [hcalls, List.mem_singleton] at hcall
  cases hcall

end MetadataRequest

end JsrProxy
