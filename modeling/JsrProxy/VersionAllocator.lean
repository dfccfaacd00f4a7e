import JsrProxy.Branches

set_option autoImplicit false

/-!
# Version allocation

One high-water mark per major, the assignments of that major, and the current
attempt of each commit. Every operation returns the allocator it leaves behind,
also when it throws.
-/
namespace JsrProxy
open Text

structure VersionAssignment where
  major : ℤ
  sequence : ℤ
  attempt : ℤ
  commitSha : Str
  version : Str
deriving DecidableEq, Repr

structure VersionAllocatorSnapshot where
  assignments : List VersionAssignment
deriving DecidableEq, Repr

structure MajorAllocations where
  highWater : ℤ
  assignments : OrderedMap Str VersionAssignment
  currentAttempts : OrderedMap Str ℤ
deriving DecidableEq

structure VersionAllocator where
  majors : OrderedMap ℤ MajorAllocations
deriving DecidableEq

def versionString (major sequence : ℤ) : Str :=
  decimal major ++ ".1.".toList ++ decimal sequence

/-- `localeCompare(left, right) <= 0` on version strings. Their characters are
    digits and dots, which collate in code point order. -/
def localeLe (left right : Str) : Bool := (compare left right).isLE

def validateInputs (major : ℤ) (commitSha : Str) (committedAt : ℤ) : Except Str Unit :=
  if !Doubles.isSafeInteger major || major < 0 then
    .error "major must be a non-negative safe integer".toList
  else if commitSha.length = 0 then .error "commit SHA must not be empty".toList
  else if !Doubles.isSafeInteger committedAt || committedAt < 0 then
    .error "commit timestamp must be a non-negative whole Unix second".toList
  else .ok ()

def MajorAllocations.fresh : MajorAllocations := ⟨-1, .empty, .empty⟩

namespace VersionAllocator

def new : VersionAllocator := ⟨.empty⟩

def forMajor (allocator : VersionAllocator) (major : ℤ) : MajorAllocations :=
  (allocator.majors.get? major).getD .fresh

def setMajor (allocator : VersionAllocator) (major : ℤ) (allocations : MajorAllocations) : VersionAllocator :=
  ⟨allocator.majors.set major allocations⟩

def key (commitSha : Str) (attempt : ℤ) : Str := commitSha ++ '\x00' :: decimal attempt

def nextSequence (allocations : MajorAllocations) (committedAt : ℤ) : ℤ :=
  max committedAt (Doubles.add allocations.highWater 1)

def append (allocations : MajorAllocations) (major : ℤ) (commitSha : Str) (committedAt : ℤ)
    (attempt : ℤ) : VersionAssignment × MajorAllocations :=
  let sequence := nextSequence allocations committedAt
  let assignment := ⟨major, sequence, attempt, commitSha, versionString major sequence⟩
  (assignment, {
    highWater := sequence
    assignments := allocations.assignments.set (key commitSha attempt) assignment
    currentAttempts := allocations.currentAttempts.set commitSha attempt })

/-- A commit keeps the assignment of its current attempt; a new one gets attempt zero. -/
def allocate (allocator : VersionAllocator) (major : ℤ) (commitSha : Str) (committedAt : ℤ) :
    Except Str VersionAssignment × VersionAllocator :=
  match validateInputs major commitSha committedAt with
  | .error message => (.error message, allocator)
  | .ok () =>
    let allocations := allocator.forMajor major
    match allocations.currentAttempts.get? commitSha with
    | some attempt =>
      match allocations.assignments.get? (key commitSha attempt) with
      | some assignment => (.ok assignment, allocator.setMajor major allocations)
      | none => (.error "assignment is undefined".toList, allocator.setMajor major allocations)
    | none =>
      let (assignment, updated) := append allocations major commitSha committedAt 0
      (.ok assignment, allocator.setMajor major updated)

/-- Allocates a replacement only for an administrator-approved tombstone recovery. -/
def recover (allocator : VersionAllocator) (major : ℤ) (commitSha : Str) (committedAt : ℤ) :
    Except Str VersionAssignment × VersionAllocator :=
  match validateInputs major commitSha committedAt with
  | .error message => (.error message, allocator)
  | .ok () =>
    let allocations := allocator.forMajor major
    match allocations.currentAttempts.get? commitSha with
    | none => (.error "cannot recover a commit without an existing assignment".toList,
        allocator.setMajor major allocations)
    | some current =>
      let (assignment, updated) :=
        append allocations major commitSha committedAt (Doubles.add current 1)
      (.ok assignment, allocator.setMajor major updated)

def snapshot (allocator : VersionAllocator) : VersionAllocatorSnapshot :=
  ⟨(allocator.majors.values.flatMap fun allocations => allocations.assignments.values).insertionSort
    fun left right => localeLe left.version right.version⟩

/-- One stored assignment put back: the high-water mark and the current attempt
    are not stored but recomputed here. -/
def restored (a : MajorAllocations) (assignment : VersionAssignment) : MajorAllocations where
  highWater := max a.highWater assignment.sequence
  assignments := a.assignments.set (key assignment.commitSha assignment.attempt) assignment
  currentAttempts :=
    if (match a.currentAttempts.get? assignment.commitSha with
        | none => true
        | some currentAttempt => decide (currentAttempt < assignment.attempt)) then
      a.currentAttempts.set assignment.commitSha assignment.attempt
    else a.currentAttempts

def restore (allocator : VersionAllocator) (assignment : VersionAssignment) :
    Except Str VersionAllocator :=
  match validateInputs assignment.major assignment.commitSha assignment.sequence with
  | .error message => .error message
  | .ok () =>
    if !Doubles.isSafeInteger assignment.attempt || assignment.attempt < 0 then
      .error "assignment attempt must be a non-negative safe integer".toList
    else if assignment.version ≠ versionString assignment.major assignment.sequence then
      .error ("assignment has an invalid version: ".toList ++ assignment.version)
    else
      let allocations := allocator.forMajor assignment.major
      if allocations.assignments.has (key assignment.commitSha assignment.attempt) then
        .error ("duplicate assignment: ".toList ++ assignment.version)
      else .ok (allocator.setMajor assignment.major (restored allocations assignment))

def restoreAll : VersionAllocator → List VersionAssignment → Except Str VersionAllocator
  | allocator, [] => .ok allocator
  | allocator, assignment :: rest =>
    match restore allocator assignment with
    | .error message => .error message
    | .ok restored => restoreAll restored rest

/-- Recreates an allocator from a Durable Object storage snapshot. -/
def fromSnapshot (stored : VersionAllocatorSnapshot) : Except Str VersionAllocator :=
  restoreAll .new stored.assignments

end VersionAllocator
end JsrProxy
