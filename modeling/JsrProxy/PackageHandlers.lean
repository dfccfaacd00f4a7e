import JsrProxy.Configuration
import JsrProxy.GitHubAuth
import JsrProxy.Interleavings
import JsrProxy.PackageObject
import JsrProxy.R2Publication

set_option autoImplicit false

/-!
# Handlers of the Durable Objects

The handlers of the admission and the package object, call by call. Whatever a
handler waits for is one call, and each answer comes with the time at which the
handler goes on. Bodies of requests are taken as the values their texts stand for,
absent where the types do not fit.
-/
namespace JsrProxy
open Branches

inductive Redirect
  | follow
  | manual
deriving DecidableEq, Repr

/-- A request whose body is passed on as it arrives. -/
structure StreamedRequest where
  method : Str
  url : Url
  headers : Headers
  body : Body
deriving DecidableEq, Repr

inductive ObjectCall
  | readDecision (key : Str)
  | writeDecision (key : Str) (record : AdmissionRecord)
  | readSnapshot
  | writeSnapshot (snapshot : PackageRegistrySnapshot)
  | fetch (request : Request) (redirect : Redirect)
  | container (name : Str) (request : StreamedRequest)
  | bucket (call : R2Call)

def ObjectCall.Answer : ObjectCall → Type
  | readDecision _ => Except Str (Option AdmissionRecord)
  | writeDecision _ _ => Except Str Unit
  | readSnapshot => Except Str Stored
  | writeSnapshot _ => Except Str Unit
  | fetch _ _ => Except Str Fetched
  | container _ _ => Except Str Fetched
  | bucket _ => Except Str (Option R2StoredObject)

abbrev objectCalls : Effects := ⟨ObjectCall, fun call => call.Answer × ℤ⟩

structure AbsoluteUrl where
  protocol : Str
  hostname : Str
  url : Url
deriving DecidableEq, Repr

/-- What the objects are deployed with, and the library functions that they rest on. -/
structure ObjectEnv where
  config : Option Str
  /-- The Container and the bucket are bound. -/
  materializes : Bool
  toLowerCase : Str → Str
  parseUrl : Str → Option AbsoluteUrl

/-- The values that replies carry as JSON. With `unavailable` comes a `retry-after` of the
    seconds rounded up, unless they are zero. -/
inductive ObjectBody
  | decision (record : AdmissionRecord)
  | unavailable (retryAfterSeconds : Option ℚ)
  | refreshed (report : PackageReport) (created : List MaterializationJob)
  | recovered (job : MaterializationJob) (recoveries : List RecoveryAudit)
  | packageMeta (packageMeta : PackageMeta)
  | report (report : PackageReport)
  | status (report : PackageReport) (recoveries : List RecoveryAudit)
deriving DecidableEq, Repr

structure AuthorizeBody where
  fingerprint : Str
  owner : Str
  repository : Str
  pat : Str
deriving DecidableEq, Repr

structure RefreshBody where
  package : PackageName
  defaultBranch : Str
  branches : List (Str × CommitTip)
deriving DecidableEq, Repr

structure RecoverBody where
  version : Str
  reason : Str
  recoveredAt : ℤ
deriving DecidableEq, Repr

structure MaterializeBody where
  owner : Str
  repository : Str
  pat : Str
  statusUrl : Str
deriving DecidableEq, Repr

inductive CompletionState
  | ready
  | yanked
deriving DecidableEq, Repr

structure CompleteBody where
  version : Str
  state : CompletionState
  diagnostic : Option TombstoneDiagnostic
deriving DecidableEq, Repr

/-- The requests of the two objects, `check` being that of the admission object. -/
inductive ObjectRequest
  | check (pat : Option Str)
  | authorize (body : Option AuthorizeBody)
  | refresh (body : Option RefreshBody)
  | recover (body : Option RecoverBody)
  | materialize (body : Option MaterializeBody)
  | complete (body : Option CompleteBody)
  | metadata
  | status
  | unknown
deriving DecidableEq, Repr

namespace ObjectHandlers
open PackageObject

abbrev Handling := Program objectCalls (Reply ObjectBody)

def respond (status : ℕ) (message : String) : Handling := .done (.text status message.toList none)

def await (call : ObjectCall) (next : call.Answer → ℤ → Handling) : Handling :=
  .call (call : objectCalls.Op) fun answer : call.Answer × ℤ => next answer.1 answer.2

def orThrow {α : Type} (answer : Except Str α) (next : α → Handling) : Handling :=
  match answer with
  | .error message => .done (.threw message)
  | .ok result => next result

def cachedDecision (key : Str) (otherwise : Handling) : Handling :=
  await (.readDecision key) fun answer now =>
    orThrow answer fun cached =>
      match cached with
      | some record => if now < record.expiresAt then .done (.json 200 (.decision record)) else otherwise
      | none => otherwise

def decide (key : Str) (record : AdmissionRecord) : Handling :=
  await (.writeDecision key record) fun answer _ =>
    orThrow answer fun () => .done (.json 200 (.decision record))

def askGitHub (path pat : Str) (next : Fetched → AdmissionRecord → Handling) : Handling :=
  orThrow (Auth.githubRequest path pat) fun request =>
    await (.fetch request .follow) fun answer now =>
      orThrow answer fun github =>
        match Auth.classifyGitHubResponse github now with
        | .unavailable retryAfterSeconds => .done (.json 503 (.unavailable retryAfterSeconds))
        | .decision decision => next github decision

def stringOf (value : Option Json) : Option JsString :=
  match value with
  | some (.string text) => some text
  | _ => none

/-- The text that is passed on of a string. -/
def textOf (value : Option Json) : Option Str := (stringOf value).map JsString.wellFormed

def admissionKey : Str := "admission".toList

def admitted (env : ObjectEnv) (github : Fetched) (decision : AdmissionRecord) :
    Except Str AdmissionRecord :=
  if decision.granted then
    (Config.parseConfig env.config).map fun config =>
      match stringOf (github.body.json.bind (·.get? "login".toList)) with
      | some login => ⟨config.trustedGitHubUsers.contains login, decision.expiresAt⟩
      | none => ⟨false, decision.expiresAt⟩
  else .ok ⟨false, decision.expiresAt⟩

/-- `AdmissionDurableObjectV2.fetch` -/
def check (env : ObjectEnv) (pat : Option Str) : Handling :=
  match pat with
  | none | some [] => respond 400 "invalid admission request"
  | some pat =>
    cachedDecision admissionKey
      (askGitHub "/user".toList pat fun github decision =>
        orThrow (admitted env github decision) fun record => decide admissionKey record)

def repositoryKey (fingerprint : Str) : Str := "repository:".toList ++ fingerprint

def repositoryPath (owner repository : Str) : Str :=
  "/repos/".toList ++ UrlPath.encodeURIComponent owner ++ '/' :: UrlPath.encodeURIComponent repository

def repositoryDecision (env : ObjectEnv) (repository : Str) (github : Fetched)
    (decision : AdmissionRecord) : AdmissionRecord :=
  if decision.granted then
    match stringOf (github.body.json.bind (·.get? "name".toList)) with
    | some (.text name) =>
      if env.toLowerCase name ≠ repository then ⟨false, decision.expiresAt⟩ else decision
    | _ => ⟨false, decision.expiresAt⟩
  else decision

def authorize (env : ObjectEnv) (body : Option AuthorizeBody) : Handling :=
  match body with
  | none => respond 400 "invalid authorization request"
  | some body =>
    cachedDecision (repositoryKey body.fingerprint)
      (askGitHub (repositoryPath body.owner body.repository) body.pat fun github decision =>
        decide (repositoryKey body.fingerprint) (repositoryDecision env body.repository github decision))

def readRegistry (initialName : Option PackageName) (next : PackageRegistry → ℤ → Handling) : Handling :=
  await .readSnapshot fun answer now =>
    orThrow answer fun stored =>
      orThrow (registry stored initialName) fun registry => next registry now

/-- Persists one state-machine transition in this SQLite-only Durable Object. -/
def saveRegistry (registry : PackageRegistry) (next : Except Str Unit → Handling) : Handling :=
  await (.writeSnapshot registry.snapshot) fun answer _ => next answer

def refresh (body : Option RefreshBody) : Handling :=
  match body with
  | none => respond 400 "invalid package refresh"
  | some body =>
    match parseDiscovery body.defaultBranch body.branches with
    | none => respond 400 "invalid package refresh"
    | some discovery =>
      readRegistry (some body.package) fun registry _ =>
        match registry.refresh discovery with
        | (.error message, _) => .done (.threw message)
        | (.ok created, refreshed) =>
          saveRegistry refreshed fun saved =>
            orThrow saved fun () => .done (.json 200 (.refreshed (PackageObject.report refreshed) created))

/-- What throws while the recovery is applied and saved is a conflict. -/
def recover (body : Option RecoverBody) : Handling :=
  match body with
  | none => respond 400 "invalid recovery request"
  | some body =>
    if (trim body.reason).length = 0 || utf16Length body.reason > 1000 ||
        !Doubles.isSafeInteger body.recoveredAt || body.recoveredAt < 0 then
      respond 400 "invalid recovery request"
    else
      readRegistry none fun registry _ =>
        match registry.recoverVersion body.version (trim body.reason) body.recoveredAt with
        | (.error message, _) => .done (.text 409 message none)
        | (.ok job, recovered) =>
          saveRegistry recovered fun saved =>
            match saved with
            | .error message => .done (.text 409 message none)
            | .ok () => .done (.json 202 (.recovered job recovered.recoveries))

def completed (registry : PackageRegistry) (body : CompleteBody) : Except (Reply ObjectBody) PackageRegistry :=
  match body.state with
  | .ready =>
    match registry.markReady body.version with
    | (.error message, _) => .error (.text 409 message none)
    | (.ok (), completed) => .ok completed
  | .yanked =>
    match body.diagnostic with
    | none => .error (.text 400 "invalid tombstone diagnostic".toList none)
    | some diagnostic =>
      match registry.markYanked body.version diagnostic with
      | (.error message, _) => .error (.text 409 message none)
      | (.ok (), completed) => .ok completed

def complete (body : Option CompleteBody) : Handling :=
  match body with
  | none => respond 400 "invalid completion"
  | some body =>
    readRegistry none fun registry _ =>
      match completed registry body with
      | .error reply => .done reply
      | .ok completed =>
        saveRegistry completed fun saved =>
          orThrow saved fun () => .done (.json 200 (.packageMeta completed.packageMeta))

def metadata : Handling :=
  readRegistry none fun registry _ => .done (.json 200 (.packageMeta registry.packageMeta))

def status : Handling :=
  readRegistry none fun registry _ =>
    .done (.json 200 (.status (PackageObject.report registry) registry.recoveries))

def releaseLease (version : Str) : Handling :=
  readRegistry none fun registry _ =>
    match registry.releaseLease version with
    | (.error _, _) => respond 409 "materialization lease conflicted"
    | (.ok (), released) =>
      saveRegistry released fun saved =>
        orThrow saved fun () =>
          .done (.text 503 "materialization unavailable".toList (some "1".toList))

def codeload : Str := "codeload.github.com".toList

def tarballPath (owner repository commitSha : Str) : Str :=
  "/repos/".toList ++ UrlPath.encodeURIComponent owner ++ '/' ::
    UrlPath.encodeURIComponent repository ++ "/tarball/".toList ++ UrlPath.encodeURIComponent commitSha

/-- Where an answer without an archive redirects to, if it may be followed. -/
def archiveRedirect (env : ObjectEnv) (archive : Fetched) : Option Url :=
  if "30".toList.isPrefixOf (Nat.toDigits 10 archive.status) then
    match archive.headers.get "location".toList with
    | none | some [] => none
    | some location =>
      match env.parseUrl location with
      | none => none
      | some redirect =>
        if redirect.protocol = "https:".toList ∧ redirect.hostname = codeload then some redirect.url
        else none
  else none

def githubArchive (env : ObjectEnv) (owner repository commitSha pat : Str)
    (next : Except Str (Option Body) → Handling) : Handling :=
  match Auth.githubRequest (tarballPath owner repository commitSha) pat with
  | .error message => next (.error message)
  | .ok request =>
    await (.fetch request .manual) fun archive _ =>
      match archive with
      | .error message => next (.error message)
      | .ok archive =>
        if archive.ok && archive.body ≠ .absent && archive.hostname = codeload then
          next (.ok (some archive.body))
        else
          match archiveRedirect env archive with
          | none => next (.ok none)
          | some url =>
            await (.fetch ⟨"GET".toList, url, [], []⟩ .manual) fun source _ =>
              match source with
              | .error message => next (.error message)
              | .ok source =>
                if source.ok && source.body ≠ .absent then next (.ok (some source.body))
                else next (.ok none)

def packageId (name : PackageName) : Str := '@' :: name.scope ++ '/' :: name.name

def materializationJson (name : PackageName) (job : MaterializationJob) (body : MaterializeBody) : Json :=
  .object [("job".toList, .object [
      ("package".toList, .object [("scope".toList, .string name.scope), ("name".toList, .string name.name)]),
      ("branch".toList, .string job.branch), ("commitSha".toList, .string job.commitSha),
      ("version".toList, .string job.version)]),
    ("source".toList, .object [("owner".toList, .string body.owner),
      ("repository".toList, .string body.repository)]),
    ("statusUrl".toList, .string body.statusUrl)]

def materializationRequest (name : PackageName) (job : MaterializationJob) (body : MaterializeBody)
    (archive : Body) : Except Str StreamedRequest :=
  match Headers.normalize (materializationJson name job body).write with
  | none => .error "invalid header value".toList
  | some materialization => .ok ⟨"POST".toList,
      .parse "https://materializer.internal".toList "/materialize-archive".toList,
      [("content-type".toList, "application/gzip".toList),
        ("x-jsrproxy-materialization".toList, materialization)], archive⟩

def parseDiagnostic (value : Option Json) : Option TombstoneDiagnostic :=
  match textOf (value.bind (·.get? "id".toList)), textOf (value.bind (·.get? "failureClass".toList)),
    textOf (value.bind (·.get? "message".toList)) with
  | some id, some failureClass, some message => some ⟨id, failureClass, message⟩
  | _, _, _ => none

def validMaterializedArtifact (value : Json) : Bool :=
  (textOf (value.get? "key".toList)).isSome && (textOf (value.get? "sha256".toList)).isSome &&
    (textOf (value.get? "body".toList)).isSome

def parseMaterializationOutcome (value : Json) : Option (Outcome × List Json) :=
  match value.get? "uploads".toList with
  | some (.array (upload :: uploads)) =>
    if (upload :: uploads).all validMaterializedArtifact then
      match textOf (value.get? "state".toList) with
      | some state =>
        if state = "ready".toList then some (.ready, upload :: uploads)
        else if state = "yanked".toList then
          (parseDiagnostic (value.get? "diagnostic".toList)).map fun diagnostic =>
            (.yanked diagnostic, upload :: uploads)
        else none
      | none => none
    else none
  | _ => none

def publishing {α : Type} : Program r2Calls α → (α → Handling) → Handling
  | .done result, next => next result
  | .call op rest, next => await (.bucket op) fun answer _ => publishing (rest answer) next

def settled (registry : PackageRegistry) (version : Str) : Outcome → Except Str Unit × PackageRegistry
  | .ready => registry.markReady version
  | .yanked diagnostic => registry.markYanked version diagnostic

def finish (version : Str) (outcome : Outcome) : Handling :=
  readRegistry none fun registry _ =>
    match settled registry version outcome with
    | (.error _, _) => respond 409 "materialization completion conflicted"
    | (.ok (), completed) =>
      saveRegistry completed fun saved =>
        orThrow saved fun () => .done (.json 200 (.report (PackageObject.report completed)))

/-- What is made of the Container's answer. The text of a refusal is read for the log. -/
def received (version : Str) (response : Fetched) : Handling :=
  if !response.ok then
    match response.body with
    | .broken message => .done (.threw message)
    | _ => releaseLease version
  else
    match response.body.json.bind parseMaterializationOutcome with
    | none => releaseLease version
    | some (outcome, uploads) =>
      publishing (R2Publication.publishArtifactBatch (R2Publication.batchRequest uploads)) fun publication =>
        orThrow publication fun publication =>
          if !publication.ok then releaseLease version else finish version outcome

/-- The work on a leased job. Whatever throws before the Container answers ends the lease. -/
def materializeJob (env : ObjectEnv) (name : PackageName) (job : MaterializationJob) (body : MaterializeBody) :
    Handling :=
  githubArchive env body.owner body.repository job.commitSha body.pat fun archive =>
    match archive with
    | .error _ | .ok none => releaseLease job.version
    | .ok (some archive) =>
      match materializationRequest name job body archive with
      | .error _ => releaseLease job.version
      | .ok request =>
        await (.container (packageId name) request) fun response _ =>
          match response with
          | .error _ => releaseLease job.version
          | .ok response => received job.version response

def materialize (env : ObjectEnv) (body : Option MaterializeBody) : Handling :=
  match body with
  | none => respond 400 "invalid materialization request"
  | some body =>
    if body.owner.isEmpty || body.repository.isEmpty || body.pat.isEmpty || body.statusUrl.isEmpty then
      respond 400 "invalid materialization request"
    else if !env.materializes then respond 503 "materializer is not configured"
    else
      readRegistry none fun registry now =>
        match registry.leaseNext now with
        | (none, _) => .done (.json 200 (.report (PackageObject.report registry)))
        | (some job, leased) =>
          saveRegistry leased fun saved =>
            orThrow saved fun () => materializeJob env registry.name job body

def handle (env : ObjectEnv) : ObjectRequest → Handling
  | .check pat => check env pat
  | .authorize body => authorize env body
  | .refresh body => refresh body
  | .recover body => recover body
  | .materialize body => materialize env body
  | .complete body => complete body
  | .metadata => metadata
  | .status => status
  | .unknown => respond 404 "not found"

end ObjectHandlers

structure World where
  row : Stored
  decisions : Str → Option AdmissionRecord
  objects : R2Bucket
  clock : ℤ

inductive BucketFault
  | before (message : Str)
  | after (message : Str)
deriving DecidableEq, Repr

/-- What the outside decides about one call: when it is answered, whether the storage
    throws, what GitHub or the Container answers, and whether the bucket fails. -/
structure Choice where
  time : ℤ
  fault : Option Str
  fetched : Except Str Fetched
  bucketFault : Option BucketFault

namespace World

def bucketAnswer (objects : R2Bucket) (fault : Option BucketFault) (call : R2Call) :
    Except Str (Option R2StoredObject) × R2Bucket :=
  match call with
  | .head key =>
    match fault with
    | none => (.ok ((objects key).map fun object => ⟨object.sha256⟩), objects)
    | some (.before message) | some (.after message) => (.error message, objects)
  | .put key object =>
    match fault with
    | some (.before message) => (.error message, objects)
    | some (.after message) => (.error message, objects.put key object)
    | none =>
      match objects key with
      | none => (.ok (some ⟨object.sha256⟩), objects.put key object)
      | some _ => (.ok none, objects)

def perform (world : World) (choice : Choice) : (call : ObjectCall) → call.Answer × World
  | .readDecision key =>
    match choice.fault with
    | some message => (.error message, world)
    | none => (.ok (world.decisions key), world)
  | .writeDecision key record =>
    match choice.fault with
    | some message => (.error message, world)
    | none => (.ok (), { world with decisions := Function.update world.decisions key (some record) })
  | .readSnapshot =>
    match choice.fault with
    | some message => (.error message, world)
    | none => (.ok world.row, world)
  | .writeSnapshot snapshot =>
    match choice.fault with
    | some message => (.error message, world)
    | none => (.ok (), { world with row := some snapshot })
  | .fetch _ _ => (choice.fetched, world)
  | .container _ _ => (choice.fetched, world)
  | .bucket call =>
    ((bucketAnswer world.objects choice.bucketFault call).1,
      { world with objects := (bucketAnswer world.objects choice.bucketFault call).2 })

theorem perform_row {call : ObjectCall} (h : ∀ snapshot, call ≠ .writeSnapshot snapshot) (world : World)
    (choice : Choice) : (world.perform choice call).2.row = world.row := by
  cases call with
  | writeSnapshot snapshot => exact absurd rfl (h snapshot)
  | fetch | container | bucket => rfl
  | readDecision | writeDecision | readSnapshot =>
    unfold perform
    cases choice.fault <;> rfl

theorem perform_objects {call : ObjectCall} (h : ∀ op, call ≠ .bucket op) (world : World)
    (choice : Choice) : (world.perform choice call).2.objects = world.objects := by
  cases call with
  | bucket op => exact absurd rfl (h op)
  | fetch | container => rfl
  | readDecision | writeDecision | readSnapshot | writeSnapshot =>
    unfold perform
    cases choice.fault <;> rfl

theorem perform_readSnapshot {world : World} {choice : Choice} {stored : Stored}
    (h : (world.perform choice .readSnapshot).1 = .ok stored) : world.row = stored := by
  unfold perform at h
  cases hfault : choice.fault with
  | some message =>
    rw [hfault] at h
    cases h
  | none =>
    rw [hfault] at h
    exact Except.ok.inj h

def answer (world : World) (choice : Choice) (call : objectCalls.Op) : objectCalls.Ret call × World :=
  let (result, world) := world.perform choice call
  ((result, choice.time), { world with clock := choice.time })

theorem bucketAnswer_step (objects : R2Bucket) (fault : Option BucketFault) (call : R2Call) :
    R2Step objects call (bucketAnswer objects fault call).1 (bucketAnswer objects fault call).2 := by
  cases call with
  | head key =>
    cases fault with
    | none => exact .head objects key
    | some fault =>
      cases fault with
      | before message => exact .headFails objects key message
      | after message => exact .headFails objects key message
  | put key object =>
    cases fault with
    | none =>
      cases h : objects key with
      | none =>
        simp only [bucketAnswer, h]
        exact .created objects key object h
      | some existing =>
        simp only [bucketAnswer, h]
        exact .exists objects key object existing h
    | some fault =>
      cases fault with
      | before message => exact .putFails objects key object message
      | after message => exact .answerLost objects key object message

end World

abbrev ObjectPool := Pool objectCalls World ObjectRequest (Reply ObjectBody)

abbrev ObjectEvent := PoolEvent ObjectRequest Choice

abbrev ObjectScene := Scene objectCalls World ObjectRequest

def ObjectPool.step (env : ObjectEnv) (pool : ObjectPool) (e : ObjectEvent) : ObjectPool :=
  Pool.step (ObjectHandlers.handle env) World.answer pool e

end JsrProxy
