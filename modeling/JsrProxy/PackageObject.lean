import JsrProxy.PackageRegistry

set_option autoImplicit false

/-!
# The package Durable Object

What each request does to the one stored snapshot of a package. A handler loads
the registry, changes it and saves it without waiting in between, so each of the
functions below is one step of the object. Nothing is saved when the registry
throws. Requests and answers are taken as the values their JSON texts stand for.
-/
namespace JsrProxy
open Branches

/-- What a handler answers. What it throws reaches the caller in place of a response. -/
inductive Reply (α : Type)
  | json (status : ℕ) (body : α)
  | text (status : ℕ) (message : Str) (retryAfter : Option Str)
  | threw (message : Str)
deriving DecidableEq, Repr

structure PackageReport where
  packageMeta : PackageMeta
  jobs : List MaterializationJob
deriving DecidableEq, Repr

abbrev Stored := Option PackageRegistrySnapshot

inductive Outcome
  | ready
  | yanked (diagnostic : TombstoneDiagnostic)
deriving DecidableEq, Repr

/-- What the lease at the start of `#materialize` comes to. -/
inductive Lease
  | threw (message : Str)
  | idle (report : PackageReport)
  | leased (name : PackageName) (job : MaterializationJob)
deriving DecidableEq, Repr

/-- The characters that `String.prototype.trim` removes. -/
def isWhitespace (c : Char) : Bool :=
  c ∈ ['\t', '\n', '\x0b', '\x0c', '\r', ' ', '\u00a0', '\u1680', '\u2028', '\u2029', '\u202f',
    '\u205f', '\u3000', '\ufeff'] || ('\u2000' ≤ c && c ≤ '\u200a')

def trim (text : Str) : Str := ((text.dropWhile isWhitespace).reverse.dropWhile isWhitespace).reverse

/-- `String.prototype.length`, in UTF-16 code units. -/
def utf16Length (text : Str) : ℕ := (text.map fun c => if c.toNat < 0x10000 then 1 else 2).sum

namespace PackageObject

def registry (stored : Stored) (initialName : Option PackageName) : Except Str PackageRegistry :=
  match stored with
  | some snapshot =>
    match PackageRegistry.fromSnapshot snapshot with
    | .error message => .error message
    | .ok registry =>
      match initialName with
      | some name =>
        if registry.name ≠ name then
          .error "package identity does not match Durable Object state".toList
        else .ok registry
      | none => .ok registry
  | none =>
    match initialName with
    | none => .error "package state has not been initialized".toList
    | some name => .ok (.new name)

def saveRegistry (registry : PackageRegistry) : Stored := some registry.snapshot

def report (registry : PackageRegistry) : PackageReport := ⟨registry.packageMeta, registry.jobs⟩

def parseTips (tips : OrderedMap Str CommitTip) :
    List (Str × CommitTip) → Option (OrderedMap Str CommitTip)
  | [] => some tips
  | (name, tip) :: rest =>
    if !Doubles.isSafeInteger tip.committedAt || tip.committedAt < 0 || tips.has name then none
    else parseTips (tips.set name tip) rest

def parseDiscovery (defaultBranch : Str) (branches : List (Str × CommitTip)) :
    Option BranchDiscovery :=
  (parseTips .empty branches).map fun tips => ⟨defaultBranch, tips⟩

/-- `POST /refresh`: the jobs it creates come with the report. -/
def refresh (stored : Stored) (package : PackageName) (defaultBranch : Str)
    (branches : List (Str × CommitTip)) :
    Reply (PackageReport × List MaterializationJob) × Stored :=
  match parseDiscovery defaultBranch branches with
  | none => (.text 400 "invalid package refresh".toList none, stored)
  | some discovery =>
    match registry stored (some package) with
    | .error message => (.threw message, stored)
    | .ok registry =>
      match registry.refresh discovery with
      | (.error message, _) => (.threw message, stored)
      | (.ok created, refreshed) => (.json 200 (report refreshed, created), saveRegistry refreshed)

def recover (stored : Stored) (version reason : Str) (recoveredAt : ℤ) :
    Reply (MaterializationJob × List RecoveryAudit) × Stored :=
  if (trim reason).length = 0 || utf16Length reason > 1000 || !Doubles.isSafeInteger recoveredAt ||
      recoveredAt < 0 then
    (.text 400 "invalid recovery request".toList none, stored)
  else
    match registry stored none with
    | .error message => (.threw message, stored)
    | .ok registry =>
      match registry.recoverVersion version (trim reason) recoveredAt with
      | (.error message, _) => (.text 409 message none, stored)
      | (.ok job, recovered) => (.json 202 (job, recovered.recoveries), saveRegistry recovered)

def lease (stored : Stored) (now : ℤ) : Lease × Stored :=
  match registry stored none with
  | .error message => (.threw message, stored)
  | .ok registry =>
    match registry.leaseNext now with
    | (none, _) => (.idle (report registry), stored)
    | (some job, leased) => (.leased registry.name job, saveRegistry leased)

def complete (stored : Stored) (version : Str) (outcome : Outcome) : Reply PackageReport × Stored :=
  match registry stored none with
  | .error message => (.threw message, stored)
  | .ok registry =>
    match (match outcome with
      | .ready => registry.markReady version
      | .yanked diagnostic => registry.markYanked version diagnostic) with
    | (.error _, _) => (.text 409 "materialization completion conflicted".toList none, stored)
    | (.ok (), completed) => (.json 200 (report completed), saveRegistry completed)

def releaseLease (stored : Stored) (version : Str) : Reply PackageReport × Stored :=
  match registry stored none with
  | .error message => (.threw message, stored)
  | .ok registry =>
    match registry.releaseLease version with
    | (.error _, _) => (.text 409 "materialization lease conflicted".toList none, stored)
    | (.ok (), released) =>
      (.text 503 "materialization unavailable".toList (some "1".toList), saveRegistry released)

end PackageObject
end JsrProxy
