import JsrProxy.JsonText
import JsrProxy.PackageHandlers

set_option autoImplicit false

/-!
# The text of a stored snapshot

A snapshot as `JSON.stringify` writes it, with its undefined members dropped, and
as it is read back. A numeral stands for itself, since only numbers that the
registry holds are written.
-/
namespace JsrProxy
open Branches Text

namespace Json

def whole (n : ℤ) : Json := .number (decimal n)

def readDigits (digits : Str) : Option ℤ :=
  if digits.all Char.isDigit then some (Nat.ofDigitChars 10 digits 0) else none

def readWhole : Option Json → Option ℤ
  | some (.number ('-' :: digits)) => (readDigits digits).map Neg.neg
  | some (.number digits) => readDigits digits
  | _ => none

def readArray {α : Type} (read : Option Json → Option α) : Option Json → Option (List α)
  | some (.array items) => items.mapM fun item => read (some item)
  | _ => none

def member (value : Option Json) (key : Str) : Option Json := value.bind (·.get? key)

/-- A member that is dropped when its value is undefined. -/
def optional (key : Str) (value : Option Json) : List (JsString × Json) :=
  (value.map fun value => (.text key, value)).toList

def readOptional {α : Type} (read : Option Json → Option α) (value : Option Json) : Option (Option α) :=
  match value with
  | none => some none
  | some value => (read (some value)).map some

theorem readDigits_toDigits (n : ℕ) : readDigits (Nat.toDigits 10 n) = some (n : ℤ) := by
  have hdigits : (Nat.toDigits 10 n).all Char.isDigit = true := by
    rw [List.all_eq_true]
    exact fun c hc => isDigit_of_mem_toDigits hc
  rw [readDigits, if_pos hdigits, Nat.ofDigitChars_toDigits (by decide) (by decide)]

theorem decimal_cases (n : ℤ) :
    (n < 0 ∧ decimal n = '-' :: Nat.toDigits 10 n.natAbs) ∨
      (0 ≤ n ∧ decimal n = Nat.toDigits 10 n.natAbs) := by
  by_cases h : n < 0
  · exact .inl ⟨h, by rw [decimal, if_pos h]⟩
  · exact .inr ⟨by omega, by rw [decimal, if_neg h]⟩

theorem toDigits_not_minus (n : ℕ) (rest : Str) : Nat.toDigits 10 n ≠ '-' :: rest := by
  intro h
  have hd : '-'.isDigit = true := @isDigit_of_mem_toDigits n '-' (h ▸ List.mem_cons_self)
  revert hd
  decide

theorem isNumber_decimal (n : ℤ) :
    isNumber (decimal n) = true ∧ ∀ c ∈ decimal n, isNumberChar c = true := by
  obtain ⟨hnumber, hchars⟩ := isNumber_toDigits n.natAbs
  rcases decimal_cases n with ⟨-, he⟩ | ⟨-, he⟩ <;> rw [he]
  · constructor
    · rwa [isNumber.eq_2 _ fun rest h => toDigits_not_minus _ rest h] at hnumber
    · intro c hc
      rcases List.mem_cons.1 hc with rfl | hc
      · rfl
      · exact hchars c hc
  · exact ⟨hnumber, hchars⟩

theorem readWhole_whole (n : ℤ) : readWhole (some (whole n)) = some n := by
  rw [whole]
  rcases decimal_cases n with ⟨hn, he⟩ | ⟨hn, he⟩ <;> rw [he]
  · rw [readWhole, readDigits_toDigits, Option.map_some]
    congr 1
    omega
  · rw [readWhole]
    · rw [readDigits_toDigits]
      congr 1
      omega
    · exact fun digits h => toDigits_not_minus _ digits h

/-- A way to write values of a type that reads each of them back. -/
structure Codec (α : Type) where
  write : α → Json
  read : Option Json → Option α
  valid : ∀ x, (write x).Valid
  reads : ∀ x, read (some (write x)) = some x

namespace Codec

variable {α : Type}

def wholeNumber : Codec ℤ where
  write := whole
  read := readWhole
  valid n := isNumber_decimal n
  reads := readWhole_whole

def text : Codec Str where
  write text := .string text
  read := ObjectHandlers.textOf
  valid _ := trivial
  reads _ := rfl

theorem mapM_write (codec : Codec α) (xs : List α) :
    (xs.map codec.write).mapM (fun item => codec.read (some item)) = some xs := by
  rw [List.mapM_map]
  induction xs with
  | nil => rfl
  | cons x xs ih =>
    rw [List.mapM_cons, Function.comp_apply, codec.reads, ih]
    rfl

def list (codec : Codec α) : Codec (List α) where
  write xs := .array (xs.map codec.write)
  read := readArray codec.read
  valid xs := by
    apply validItems_iff.2
    intro item hitem
    obtain ⟨x, -, rfl⟩ := List.mem_map.1 hitem
    exact codec.valid x
  reads xs := codec.mapM_write xs

theorem readOptional_write (codec : Codec α) (x : Option α) :
    readOptional codec.read (x.map codec.write) = some x := by
  cases x with
  | none => rfl
  | some x =>
    rw [Option.map_some, readOptional, codec.reads]
    rfl

theorem valid_optional (codec : Codec α) (key : Str) (x : Option α) :
    ∀ entry ∈ optional key (x.map codec.write), (∃ key : Str, entry.1 = key) ∧ entry.2.Valid := by
  intro entry hentry
  cases x with
  | none => cases hentry
  | some x =>
    obtain rfl := List.mem_singleton.1 hentry
    exact ⟨⟨key, rfl⟩, codec.valid x⟩

end Codec
end Json

namespace PackageRegistrySnapshot
open Json

def nameCodec : Codec PackageName where
  write name := .object [("scope".toList, .string name.scope), ("name".toList, .string name.name)]
  read value := do
    let scope ← Codec.text.read (member value "scope".toList)
    let name ← Codec.text.read (member value "name".toList)
    some ⟨scope, name⟩
  valid _ := ⟨trivial, trivial, trivial⟩
  reads _ := rfl

def branchesCodec : Codec BranchState where
  write branches := .object (optional "highestObservedReleaseMajor".toList
    (branches.highestObservedReleaseMajor.map Codec.wholeNumber.write))
  read value := do
    let highest ← readOptional Codec.wholeNumber.read (member value "highestObservedReleaseMajor".toList)
    some ⟨highest⟩
  valid branches := validMembers_iff.2 (Codec.wholeNumber.valid_optional _ _)
  reads branches := by
    obtain ⟨highest⟩ := branches
    have hmember : member (some (.object (optional "highestObservedReleaseMajor".toList
        (highest.map Codec.wholeNumber.write)))) "highestObservedReleaseMajor".toList
        = highest.map Codec.wholeNumber.write := by
      cases highest <;> rfl
    rw [hmember, Codec.readOptional_write]
    rfl

def assignmentCodec : Codec VersionAssignment where
  write assignment := .object [("major".toList, whole assignment.major),
    ("sequence".toList, whole assignment.sequence), ("attempt".toList, whole assignment.attempt),
    ("commitSha".toList, .string assignment.commitSha), ("version".toList, .string assignment.version)]
  read value := do
    let major ← Codec.wholeNumber.read (member value "major".toList)
    let sequence ← Codec.wholeNumber.read (member value "sequence".toList)
    let attempt ← Codec.wholeNumber.read (member value "attempt".toList)
    let commitSha ← Codec.text.read (member value "commitSha".toList)
    let version ← Codec.text.read (member value "version".toList)
    some ⟨major, sequence, attempt, commitSha, version⟩
  valid _ := ⟨isNumber_decimal _, isNumber_decimal _, isNumber_decimal _, trivial, trivial, trivial⟩
  reads x := by
    change ((readWhole (some (whole x.major))).bind fun major =>
      (readWhole (some (whole x.sequence))).bind fun sequence =>
      (readWhole (some (whole x.attempt))).bind fun attempt =>
      some ⟨major, sequence, attempt, x.commitSha, x.version⟩) = some x
    simp only [readWhole_whole, Option.bind_some]

def stateOf (name : Str) : Option JobState :=
  [JobState.pending, .leased, .ready, .yanked].find? fun state => PackageRegistry.stateName state = name

def stateCodec : Codec JobState where
  write state := .string (PackageRegistry.stateName state)
  read value := (Codec.text.read value).bind stateOf
  valid _ := trivial
  reads state := by cases state <;> rfl

def diagnosticCodec : Codec TombstoneDiagnostic where
  write diagnostic := .object [("id".toList, .string diagnostic.id),
    ("failureClass".toList, .string diagnostic.failureClass),
    ("message".toList, .string diagnostic.message)]
  read value := do
    let id ← Codec.text.read (member value "id".toList)
    let failureClass ← Codec.text.read (member value "failureClass".toList)
    let message ← Codec.text.read (member value "message".toList)
    some ⟨id, failureClass, message⟩
  valid _ := ⟨trivial, trivial, trivial, trivial⟩
  reads _ := rfl

def writeVersion (record : VersionRecord) : Json :=
  .object ([(JsString.text "branch".toList, .string record.branch),
      ("commitSha".toList, .string record.commitSha), ("major".toList, whole record.major),
      ("version".toList, .string record.version), ("state".toList, stateCodec.write record.state)] ++
    optional "leasedAt".toList (record.leasedAt.map Codec.wholeNumber.write) ++
    optional "diagnostic".toList (record.diagnostic.map diagnosticCodec.write) ++
    [(JsString.text "assignment".toList, assignmentCodec.write record.assignment)])

def readVersion (value : Option Json) : Option VersionRecord := do
  let branch ← Codec.text.read (member value "branch".toList)
  let commitSha ← Codec.text.read (member value "commitSha".toList)
  let major ← Codec.wholeNumber.read (member value "major".toList)
  let version ← Codec.text.read (member value "version".toList)
  let state ← stateCodec.read (member value "state".toList)
  let leasedAt ← readOptional Codec.wholeNumber.read (member value "leasedAt".toList)
  let diagnostic ← readOptional diagnosticCodec.read (member value "diagnostic".toList)
  let assignment ← assignmentCodec.read (member value "assignment".toList)
  some ⟨⟨branch, commitSha, major, version, state, leasedAt, diagnostic⟩, assignment⟩

theorem writeVersion_members (record : VersionRecord) :
    member (some (writeVersion record)) "branch".toList = some (.string record.branch) ∧
      member (some (writeVersion record)) "commitSha".toList = some (.string record.commitSha) ∧
      member (some (writeVersion record)) "major".toList = some (whole record.major) ∧
      member (some (writeVersion record)) "version".toList = some (.string record.version) ∧
      member (some (writeVersion record)) "state".toList = some (stateCodec.write record.state) ∧
      member (some (writeVersion record)) "leasedAt".toList
        = record.leasedAt.map Codec.wholeNumber.write ∧
      member (some (writeVersion record)) "diagnostic".toList
        = record.diagnostic.map diagnosticCodec.write ∧
      member (some (writeVersion record)) "assignment".toList
        = some (assignmentCodec.write record.assignment) := by
  obtain ⟨⟨branch, commitSha, major, version, state, leasedAt, diagnostic⟩, assignment⟩ := record
  cases leasedAt <;> cases diagnostic <;> exact ⟨rfl, rfl, rfl, rfl, rfl, rfl, rfl, rfl⟩

def versionCodec : Codec VersionRecord where
  write := writeVersion
  read := readVersion
  valid record := by
    apply validMembers_iff.2
    intro entry hentry
    simp only [List.mem_append, List.mem_cons, List.not_mem_nil, or_false] at hentry
    rcases hentry with ((hhead | hleased) | hdiagnostic) | rfl
    · rcases hhead with rfl | rfl | rfl | rfl | rfl
      · exact ⟨⟨_, rfl⟩, trivial⟩
      · exact ⟨⟨_, rfl⟩, trivial⟩
      · exact ⟨⟨_, rfl⟩, isNumber_decimal _⟩
      · exact ⟨⟨_, rfl⟩, trivial⟩
      · exact ⟨⟨_, rfl⟩, trivial⟩
    · exact Codec.wholeNumber.valid_optional _ _ entry hleased
    · exact diagnosticCodec.valid_optional _ _ entry hdiagnostic
    · exact ⟨⟨_, rfl⟩, assignmentCodec.valid _⟩
  reads record := by
    obtain ⟨hbranch, hsha, hmajor, hversion, hstate, hleased, hdiagnostic, hassignment⟩ :=
      writeVersion_members record
    rw [readVersion, hbranch, hsha, hmajor, hversion, hstate, hleased, hdiagnostic, hassignment,
      stateCodec.reads, Codec.readOptional_write, Codec.readOptional_write, assignmentCodec.reads,
      show Codec.wholeNumber.read (some (whole record.major)) = some record.major from
        readWhole_whole record.major]
    rfl

def recoveryCodec : Codec RecoveryAudit where
  write recovery := .object [("originalVersion".toList, .string recovery.originalVersion),
    ("replacementVersion".toList, .string recovery.replacementVersion),
    ("reason".toList, .string recovery.reason), ("recoveredAt".toList, whole recovery.recoveredAt)]
  read value := do
    let originalVersion ← Codec.text.read (member value "originalVersion".toList)
    let replacementVersion ← Codec.text.read (member value "replacementVersion".toList)
    let reason ← Codec.text.read (member value "reason".toList)
    let recoveredAt ← Codec.wholeNumber.read (member value "recoveredAt".toList)
    some ⟨originalVersion, replacementVersion, reason, recoveredAt⟩
  valid _ := ⟨trivial, trivial, trivial, isNumber_decimal _, trivial⟩
  reads x := by
    change ((readWhole (some (whole x.recoveredAt))).bind fun recoveredAt =>
      some ⟨x.originalVersion, x.replacementVersion, x.reason, recoveredAt⟩) = some x
    rw [readWhole_whole, Option.bind_some]

/-- The snapshot, in which only `recoveries` may be missing. -/
def codec : Codec PackageRegistrySnapshot where
  write snapshot := .object [("name".toList, nameCodec.write snapshot.name),
    ("branches".toList, branchesCodec.write snapshot.branches),
    ("allocator".toList, .object
      [("assignments".toList, assignmentCodec.list.write snapshot.allocator.assignments)]),
    ("versions".toList, versionCodec.list.write snapshot.versions),
    ("recoveries".toList, recoveryCodec.list.write snapshot.recoveries)]
  read value := do
    let name ← nameCodec.read (member value "name".toList)
    let branches ← branchesCodec.read (member value "branches".toList)
    let assignments ← assignmentCodec.list.read
      (member (member value "allocator".toList) "assignments".toList)
    let versions ← versionCodec.list.read (member value "versions".toList)
    let recoveries ← readOptional recoveryCodec.list.read (member value "recoveries".toList)
    some ⟨name, branches, ⟨assignments⟩, versions, recoveries.getD []⟩
  valid snapshot := ⟨nameCodec.valid _, branchesCodec.valid _,
    ⟨assignmentCodec.list.valid _, trivial⟩, versionCodec.list.valid _, recoveryCodec.list.valid _,
    trivial⟩
  reads snapshot := by
    change ((nameCodec.read (some (nameCodec.write snapshot.name))).bind fun name =>
      (branchesCodec.read (some (branchesCodec.write snapshot.branches))).bind fun branches =>
      (assignmentCodec.list.read
        (some (assignmentCodec.list.write snapshot.allocator.assignments))).bind fun assignments =>
      (versionCodec.list.read (some (versionCodec.list.write snapshot.versions))).bind fun versions =>
      (readOptional recoveryCodec.list.read
        ((some snapshot.recoveries).map recoveryCodec.list.write)).bind fun recoveries =>
      some ⟨name, branches, ⟨assignments⟩, versions, recoveries.getD []⟩) = some snapshot
    rw [nameCodec.reads, branchesCodec.reads, assignmentCodec.list.reads, versionCodec.list.reads,
      Codec.readOptional_write]
    rfl

/-- `JSON.stringify(snapshot)` -/
def stringify (snapshot : PackageRegistrySnapshot) : Str := (codec.write snapshot).write

/-- `JSON.parse(text)` as a snapshot. -/
def parse (text : Str) : Option PackageRegistrySnapshot := (Json.parse text).bind fun value =>
  codec.read (some value)

theorem parse_stringify (snapshot : PackageRegistrySnapshot) :
    parse (stringify snapshot) = some snapshot := by
  rw [parse, stringify, Json.parse_write (codec.valid snapshot), Option.bind_some, codec.reads]

end PackageRegistrySnapshot
end JsrProxy
