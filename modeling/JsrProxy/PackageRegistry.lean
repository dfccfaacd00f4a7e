import JsrProxy.VersionAllocator

set_option autoImplicit false

/-!
# The package registry

The mutable state of one synthetic package and its transitions. A transition
returns its result or the message it throws, and the registry it leaves behind
in either case: a throw does not undo what was already written in memory.
-/
namespace JsrProxy
open Branches VersionAllocator

structure PackageName where
  scope : Str
  name : Str
deriving DecidableEq, Repr

inductive JobState
  | pending
  | leased
  | ready
  | yanked
deriving DecidableEq, Repr

structure TombstoneDiagnostic where
  id : Str
  failureClass : Str
  message : Str
deriving DecidableEq, Repr

structure MaterializationJob where
  branch : Str
  commitSha : Str
  major : ℤ
  version : Str
  state : JobState
  leasedAt : Option ℤ
  diagnostic : Option TombstoneDiagnostic
deriving DecidableEq, Repr

structure RecoveryAudit where
  originalVersion : Str
  replacementVersion : Str
  reason : Str
  recoveredAt : ℤ
deriving DecidableEq, Repr

structure VersionRecord extends MaterializationJob where
  assignment : VersionAssignment
deriving DecidableEq, Repr

structure PackageRegistrySnapshot where
  name : PackageName
  branches : BranchState
  allocator : VersionAllocatorSnapshot
  versions : List VersionRecord
  recoveries : List RecoveryAudit
deriving DecidableEq, Repr

/-- A JSR package `meta.json` document: each version with its yanked flag. -/
structure PackageMeta where
  scope : Str
  name : Str
  versions : List (Str × Bool)
deriving DecidableEq, Repr

structure PackageRegistry where
  allocator : VersionAllocator
  versions : OrderedMap Str VersionRecord
  recoveryLog : List RecoveryAudit
  name : PackageName
  branches : BranchState
deriving DecidableEq

def materializationLeaseTimeoutMs : ℤ := 120000

def JobState.published : JobState → Bool
  | .ready | .yanked => true
  | .pending | .leased => false

namespace VersionRecord

def asLeased (record : VersionRecord) (now : ℤ) : VersionRecord :=
  { record with state := .leased, leasedAt := some now }

def asPending (record : VersionRecord) : VersionRecord :=
  { record with state := .pending, leasedAt := none }

def asReady (record : VersionRecord) : VersionRecord :=
  { record with state := .ready, leasedAt := none }

def asYanked (record : VersionRecord) (diagnostic : TombstoneDiagnostic) : VersionRecord :=
  { record with state := .yanked, leasedAt := none, diagnostic := some diagnostic }

end VersionRecord

namespace PackageRegistry

def new (name : PackageName) : PackageRegistry := ⟨.new, .empty, [], name, ⟨none⟩⟩

def restoreVersions : OrderedMap Str VersionRecord → List VersionRecord →
    Except Str (OrderedMap Str VersionRecord)
  | versions, [] => .ok versions
  | versions, version :: rest =>
    if versions.has version.version then .error ("duplicate version: ".toList ++ version.version)
    else restoreVersions (versions.set version.version version) rest

/-- Rehydrates one package registry from Durable Object storage. -/
def fromSnapshot (stored : PackageRegistrySnapshot) : Except Str PackageRegistry :=
  match VersionAllocator.fromSnapshot stored.allocator with
  | .error message => .error message
  | .ok allocator =>
    match restoreVersions .empty stored.versions with
    | .error message => .error message
    | .ok versions => .ok ⟨allocator, versions, stored.recoveries, stored.name, stored.branches⟩

def snapshot (registry : PackageRegistry) : PackageRegistrySnapshot where
  name := registry.name
  branches := registry.branches
  allocator := registry.allocator.snapshot
  versions := registry.versions.values
  recoveries := registry.recoveryLog

def setVersion (registry : PackageRegistry) (record : VersionRecord) : PackageRegistry :=
  { registry with versions := registry.versions.set record.version record }

def pendingRecord (assignment : VersionAssignment) (branch commitSha : Str) (major : ℤ) :
    VersionRecord where
  branch := branch
  commitSha := commitSha
  major := major
  version := assignment.version
  state := .pending
  leasedAt := none
  diagnostic := none
  assignment := assignment

/-- One selected branch tip: its assignment, and a pending record unless one exists. -/
def refreshBranch (registry : PackageRegistry) (branch : SelectedBranch) :
    Except Str (Option MaterializationJob) × PackageRegistry :=
  let (result, allocator) :=
    allocate registry.allocator branch.major branch.tip.sha branch.tip.committedAt
  let allocated := { registry with allocator := allocator }
  match result with
  | .error message => (.error message, allocated)
  | .ok assignment =>
    match registry.versions.get? assignment.version with
    | some _ => (.ok none, allocated)
    | none =>
      let record := pendingRecord assignment branch.branch branch.tip.sha branch.major
      (.ok (some record.toMaterializationJob), allocated.setVersion record)

def refreshBranches (registry : PackageRegistry) (created : List MaterializationJob) :
    List SelectedBranch → Except Str (List MaterializationJob) × PackageRegistry
  | [] => (.ok created, registry)
  | branch :: rest =>
    match refreshBranch registry branch with
    | (.error message, failed) => (.error message, failed)
    | (.ok job, refreshed) => refreshBranches refreshed (created ++ job.toList) rest

/-- Observes branch tips and creates materialization jobs for new assignments. -/
def refresh (registry : PackageRegistry) (discovery : BranchDiscovery) :
    Except Str (List MaterializationJob) × PackageRegistry :=
  match selectBranches discovery registry.branches with
  | .error message => (.error message, registry)
  | .ok selection =>
    refreshBranches { registry with branches := selection.state } [] selection.branches

/-- Supersedes one published outcome after an authenticated proxy repair. -/
def recoverVersion (registry : PackageRegistry) (version reason : Str) (recoveredAt : ℤ) :
    Except Str MaterializationJob × PackageRegistry :=
  match registry.versions.get? version with
  | none => (.error ("version ".toList ++ version ++ " cannot be recovered".toList), registry)
  | some record =>
    if !record.state.published then
      (.error ("version ".toList ++ version ++ " cannot be recovered".toList), registry)
    else
      let (result, allocator) :=
        recover registry.allocator record.major record.commitSha record.assignment.sequence
      let allocated := { registry with allocator := allocator }
      match result with
      | .error message => (.error message, allocated)
      | .ok assignment =>
        let replacement := pendingRecord assignment record.branch record.commitSha record.major
        let audit := ⟨version, replacement.version, reason, recoveredAt⟩
        (.ok replacement.toMaterializationJob,
          { allocated.setVersion replacement with recoveryLog := registry.recoveryLog ++ [audit] })

def stateName : JobState → Str
  | .pending => "pending".toList
  | .leased => "leased".toList
  | .ready => "ready".toList
  | .yanked => "yanked".toList

def requirePending (registry : PackageRegistry) (version : Str) : Except Str VersionRecord :=
  match registry.versions.get? version with
  | none => .error ("unknown version: ".toList ++ version)
  | some record =>
    if record.state ≠ .pending ∧ record.state ≠ .leased then
      .error ("version ".toList ++ version ++ " cannot transition from ".toList ++
        stateName record.state)
    else .ok record

def updateVersion (registry : PackageRegistry) (version : Str) (record : VersionRecord) :
    PackageRegistry :=
  { registry with versions := registry.versions.set version record }

def markReady (registry : PackageRegistry) (version : Str) : Except Str Unit × PackageRegistry :=
  match registry.requirePending version with
  | .error message => (.error message, registry)
  | .ok record => (.ok (), registry.updateVersion version record.asReady)

def markYanked (registry : PackageRegistry) (version : Str) (diagnostic : TombstoneDiagnostic) :
    Except Str Unit × PackageRegistry :=
  match registry.requirePending version with
  | .error message => (.error message, registry)
  | .ok record => (.ok (), registry.updateVersion version (record.asYanked diagnostic))

/-- A pending record, or a leased one whose lease has run out. -/
def eligible (now : ℤ) (candidate : VersionRecord) : Bool :=
  candidate.state = .pending || (candidate.state = .leased &&
    match candidate.leasedAt with
    | none => true
    | some leasedAt => leasedAt + materializationLeaseTimeoutMs ≤ now)

def nextEligible (registry : PackageRegistry) (now : ℤ) : Option (Str × VersionRecord) :=
  ((registry.versions.entries.filter fun entry => eligible now entry.2).insertionSort
    fun left right => localeLe left.2.version right.2.version).head?

/-- Leases the next pending or expired job so only one Container can materialize it. -/
def leaseNext (registry : PackageRegistry) (now : ℤ) :
    Option MaterializationJob × PackageRegistry :=
  match registry.nextEligible now with
  | none => (none, registry)
  | some (version, record) =>
    (some (record.asLeased now).toMaterializationJob,
      registry.updateVersion version (record.asLeased now))

/-- Returns a failed or interrupted lease to the pending queue. -/
def releaseLease (registry : PackageRegistry) (version : Str) :
    Except Str Unit × PackageRegistry :=
  match registry.versions.get? version with
  | none => (.error ("unknown version: ".toList ++ version), registry)
  | some record =>
    if record.state ≠ .leased then
      (.error ("version ".toList ++ version ++ " is not leased".toList), registry)
    else (.ok (), registry.updateVersion version record.asPending)

/-- Returns only concrete versions that are safe for a client to resolve. -/
def packageMeta (registry : PackageRegistry) : PackageMeta where
  scope := registry.name.scope
  name := registry.name.name
  versions := (registry.versions.values.filter fun record => record.state.published).map
    fun record => (record.version, record.state = .yanked)

def jobs (registry : PackageRegistry) : List MaterializationJob :=
  registry.versions.values.map VersionRecord.toMaterializationJob

def recoveries (registry : PackageRegistry) : List RecoveryAudit := registry.recoveryLog

end PackageRegistry
end JsrProxy
