import JsrProxy.Artifacts
import JsrProxy.Fallthrough
import JsrProxy.PackageHandlers

set_option autoImplicit false

/-!
# Requests of the Worker

The Worker's `fetch`, call by call: from the path of a request to the gates, the
package's routes or the fall-through. The bound objects may answer whatever they
like. Discovering the branches is one call, as it touches neither an object nor the
bucket.
-/
namespace JsrProxy

/-- The magnitude of a number's literal. -/
def Json.magnitude (literal : Str) : ℚ :=
  let mantissa := literal.takeWhile fun c => c ≠ 'e' && c ≠ 'E'
  let exponent := (literal.dropWhile fun c => c ≠ 'e' && c ≠ 'E').drop 1
  let power : ℤ := Nat.ofDigitChars 10 (exponent.filter Char.isDigit) 0
  Nat.ofDigitChars 10 (mantissa.filter Char.isDigit) 0 *
    10 ^ ((if exponent.head? = some '-' then -power else power) -
      ((mantissa.dropWhile (· ≠ '.')).drop 1).length)

/-- A number up to half the least positive double is read as zero. -/
def Json.truthy : Json → Bool
  | .null => false
  | .bool b => b
  | .number literal => 2 ^ (-1075 : ℤ) < Json.magnitude literal
  | .string text => !text.wellFormed.isEmpty
  | .array _ => true
  | .object _ => true

/-- `json()` of a response, which throws for a body that fails to be read or parsed. -/
def Body.parsed : Body → Except Str Json
  | .broken message => .error message
  | body => match body.json with
    | none => .error "body is not JSON".toList
    | some value => .ok value

/-- The calls of the Worker. Objects are named, their requests typed. -/
inductive WorkerCall
  | admission (name : Str) (request : ObjectRequest)
  | package (name : Str) (request : ObjectRequest)
  | discover (owner repository pat : Str)
  | get (key : Str)
  | upstream (call : FallthroughCall)

def WorkerCall.Answer : WorkerCall → Type
  | admission _ _ => Except Str Fetched
  | package _ _ => Except Str Fetched
  | discover _ _ _ => Discovery
  | get _ => Except Str (Option R2ObjectLike)
  | upstream call => call.Answer

abbrev outsideCalls : Effects := ⟨WorkerCall, WorkerCall.Answer⟩

structure WorkerEnv where
  config : Option Str
  authFingerprintSecret : Option Str
  recoverySecret : Option Str
  /-- Which of `ADMISSION`, `PACKAGES` and `ARTIFACTS` are bound. -/
  admission : Bool
  packages : Bool
  artifacts : Bool

/-- A response of the Worker's own, or one that passes a body on. -/
inductive WorkerResponse
  | own (response : Response)
  | passed (status : ℕ) (headers : Headers) (body : Body)
deriving DecidableEq, Repr

namespace Worker
open Identity ObjectHandlers

abbrev Serving := Program outsideCalls (Except Str WorkerResponse)

def respond (status : ℕ) (message : String) (headers : Headers) : Serving :=
  .done (.ok (.own (.text status message.toList headers)))

def throw (message : Str) : Serving := .done (.error message)

def ask (call : WorkerCall) (next : call.Answer → Serving) : Serving :=
  .call (call : outsideCalls.Op) next

def orThrow {α : Type} (answer : Except Str α) (next : α → Serving) : Serving :=
  match answer with
  | .error message => throw message
  | .ok result => next result

/-- Reading a property of null throws. -/
def property (value : Json) (key : String) : Except Str (Option Json) :=
  match value with
  | .null => .error "Cannot read properties of null".toList
  | value => .ok (value.get? key.toList)

def leadingScope (input : Str) : Option (Str × Str) :=
  if isScope (input.takeWhile isNameChar) then
    some (input.takeWhile isNameChar, input.dropWhile isNameChar)
  else none

def configuredScope (pathname : Str) (scopes : OrderedMap Str GitHubScope) : Option Str :=
  match (afterPrefix "/@".toList pathname).bind leadingScope with
  | some (scope, rest) => if rest.head? = some '/' ∧ scopes.has scope then some scope else none
  | none => none

def configuredRouteScope (route pathname : Str) (scopes : OrderedMap Str GitHubScope) : Option Str :=
  match (afterPrefix route pathname).bind leadingScope with
  | some (scope, rest) =>
    if (rest = [] ∨ rest.head? = some '/') ∧ scopes.has scope then some scope else none
  | none => none

def configuredStatusScope (pathname : Str) (scopes : OrderedMap Str GitHubScope) : Option Str :=
  configuredRouteScope statusRoute pathname scopes

def configuredRecoveryScope (pathname : Str) (scopes : OrderedMap Str GitHubScope) : Option Str :=
  configuredRouteScope recoveryRoute pathname scopes

def requestedIdentity (pathname : Str) : Option PackageName :=
  match parsePackageStatusPath pathname, parsePackageRecoveryPath pathname with
  | some status, _ => some status.identity
  | none, some recovery => some recovery.identity
  | none, none => parsePackageIdentity pathname

def requestedScope (pathname : Str) (scopes : OrderedMap Str GitHubScope) : Option Str :=
  match parsePackageStatusPath pathname, parsePackageRecoveryPath pathname with
  | some status, _ => some status.identity.scope
  | none, some recovery => some recovery.identity.scope
  | none, none =>
    ((configuredScope pathname scopes).or (configuredStatusScope pathname scopes)).or
      (configuredRecoveryScope pathname scopes)

def recoverySecretHeader : Str := "x-jsrproxy-recovery-secret".toList

/-- A response that passes on a body. A status without a body must not have one. -/
def passOn (response : Fetched) : Serving :=
  if response.status ∈ [101, 204, 205, 304] ∧ response.body ≠ .absent then
    throw "Response with null body status cannot have body".toList
  else .done (.ok (.passed response.status [("cache-control".toList, "no-store".toList),
    ("content-type".toList, (response.headers.get "content-type".toList).getD
      "text/plain; charset=utf-8".toList)] response.body))

def recoverPackage (env : WorkerEnv) (now : ℤ) (request : Request) (identity : PackageName)
    (version : Str) : Serving :=
  if request.method ≠ "POST".toList then
    respond 405 "method not allowed" [("allow".toList, "POST".toList)]
  else
    match env.recoverySecret with
    | none | some [] => respond 503 "recovery is not configured" []
    | some secret =>
      if request.headers.get recoverySecretHeader ≠ some secret then respond 404 "not found" []
      else
        match textOf ((Json.parse (Utf8.decode request.body)).bind (·.get? "reason".toList)) with
        | none => respond 400 "recovery reason is required" []
        | some reason =>
          if !env.packages then respond 503 "synthetic registry is not configured" []
          else
            ask (.package (packageId identity) (.recover (some ⟨version, reason, now⟩))) fun response =>
              orThrow response passOn

/-- The members of an object, which a spread copies, with another value for one of them. -/
def spreadWith (value : Json) (key : String) (member : Json) : Json :=
  .object (((Config.entries value).foldl (fun map entry => map.set entry.1 entry.2)
    OrderedMap.empty).set (.text key.toList) member).entries

/-- The jobs of a version. Reading a property of null throws. -/
def jobsOf (version : Str) : List Json → Except Str (List Json)
  | [] => .ok []
  | job :: jobs =>
    match property job "version", jobsOf version jobs with
    | .error message, _ => .error message
    | .ok _, .error message => .error message
    | .ok found, .ok jobs => .ok (if stringOf found = some (.text version) then job :: jobs else jobs)

def noStore : Headers := [("cache-control".toList, "no-store".toList)]

def versionStatus (packageMeta : Json) (jobs : List Json) (version : Str) : Except Str Response :=
  match property packageMeta "versions" with
  | .error message => .error message
  | .ok none => .error "Cannot read properties of undefined".toList
  | .ok (some versions) =>
    match versions with
    | .null => .error "Cannot read properties of null".toList
    | versions =>
      match jobsOf version jobs with
      | .error message => .error message
      | .ok jobs =>
        match (versions.get? version).filter Json.truthy with
        | none =>
          if jobs.isEmpty then .ok (.text 404 "not found".toList [])
          else .ok (.json 200 (.object [("meta".toList, spreadWith packageMeta "versions" (.object [])),
            ("jobs".toList, .array jobs)]) noStore)
        | some entry => .ok (.json 200 (.object [
            ("meta".toList, spreadWith packageMeta "versions" (.object [(version, entry)])),
            ("jobs".toList, .array jobs)]) noStore)

def statusAnswer (response : Fetched) (version : Option Str) : Except Str Response :=
  if !response.ok then .ok (.text 503 "package status unavailable".toList response.headers)
  else
    match response.body.json with
    | none => .ok (.text 502 "package status is invalid".toList [])
    | some status =>
      match (status.get? "meta".toList).filter Json.truthy, status.get? "jobs".toList with
      | some packageMeta, some (.array jobs) =>
        match version with
        | none => .ok (.json 200 status noStore)
        | some version => versionStatus packageMeta jobs version
      | _, _ => .ok (.text 502 "package status is invalid".toList [])

def packageStatus (identity : PackageName) (version : Option Str) : Serving :=
  ask (.package (packageId identity) .status) fun response =>
    orThrow response fun response =>
      orThrow (statusAnswer response version) fun response => .done (.ok (.own response))

def someState (states : List Str) : List Json → Except Str Bool
  | [] => .ok false
  | job :: jobs =>
    match property job "state" with
    | .error message => .error message
    | .ok found => if (textOf found).any (· ∈ states) then .ok true else someState states jobs

def jobsInState (states : List Str) (jobs : Json) : Except Str Bool :=
  match jobs with
  | .array jobs => someState states jobs
  | _ => .error "jobs.some is not a function".toList

def versionCount (packageMeta : Json) : Except Str ℕ :=
  match property packageMeta "versions" with
  | .error message => .error message
  | .ok none | .ok (some .null) => .error "Cannot convert undefined or null to object".toList
  | .ok (some versions) => .ok (Config.entries versions).length

def pendingState : Str := "pending".toList

def metadataAnswer (packageMeta jobs : Json) : Except Str Response :=
  match versionCount packageMeta, jobsInState [pendingState, "leased".toList] jobs with
  | .error message, _ => .error message
  | .ok 0, .error message => .error message
  | .ok 0, .ok true =>
    .ok (.text 503 "package materialization pending".toList [("retry-after".toList, "1".toList)])
  | .ok _, _ => .ok (.json 200 packageMeta [("cache-control".toList, "public, max-age=60".toList)])

/-- The members `meta` and `jobs` of an object's answer, if neither is falsy. -/
def registryAnswer (response : Fetched) : Except Str (Option (Json × Json)) :=
  match response.body.parsed with
  | .error message => .error message
  | .ok result =>
    match property result "meta", property result "jobs" with
    | .error message, _ | _, .error message => .error message
    | .ok packageMeta, .ok jobs =>
      match packageMeta.filter Json.truthy, jobs.filter Json.truthy with
      | some packageMeta, some jobs => .ok (some (packageMeta, jobs))
      | _, _ => .ok none

def materializePackage (identity : PackageName) (owner repository pat origin : Str) : Serving :=
  ask (.package (packageId identity) (.materialize (some ⟨owner, repository, pat,
      origin ++ "/-/status/".toList ++ packageId identity⟩))) fun materialization =>
    orThrow materialization fun materialization =>
      if !materialization.ok then
        respond 503 "package materialization pending" [("retry-after".toList,
          (materialization.headers.get "retry-after".toList).getD "1".toList)]
      else
        orThrow (registryAnswer materialization) fun result =>
          match result with
          | none => respond 502 "package materialization returned an invalid response" []
          | some (packageMeta, jobs) =>
            orThrow (metadataAnswer packageMeta jobs) fun response => .done (.ok (.own response))

def refreshPackage (identity : PackageName) (owner repository pat origin : Str)
    (discovery : Branches.BranchDiscovery) : Serving :=
  ask (.package (packageId identity) (.refresh (some ⟨identity, discovery.defaultBranch,
      discovery.branches.entries⟩))) fun response =>
    orThrow response fun response =>
      if !response.ok then respond 503 "package registry unavailable" response.headers
      else
        orThrow (registryAnswer response) fun result =>
          match result with
          | none => respond 502 "package registry returned an invalid response" []
          | some (packageMeta, jobs) =>
            orThrow (jobsInState [pendingState] jobs) fun pending =>
              if pending then materializePackage identity owner repository pat origin
              else orThrow (metadataAnswer packageMeta jobs) fun response => .done (.ok (.own response))

def refreshPackageMetadata (identity : PackageName) (owner repository pat origin : Str) : Serving :=
  ask (.discover owner repository pat) fun discovery : Discovery =>
    match discovery with
    | .refused status retryAfterSeconds =>
      if status = 401 ∨ status = 404 then respond 404 "not found" []
      else respond 503 "GitHub branch discovery unavailable"
        (retryAfterSeconds.map fun seconds => ("retry-after".toList, seconds)).toList
    | .failed => respond 502 "GitHub branch discovery failed" []
    | .found discovery => refreshPackage identity owner repository pat origin discovery

def retrieve {α : Type} : Program artifactCalls α → (α → Serving) → Serving
  | .done result, next => next result
  | .call op rest, next => ask (.get op.key) fun answer => retrieve (rest answer) next

def serveArtifact (artifact : ArtifactPath) (request : Request) : Serving :=
  retrieve (R2Artifacts.serveArtifact artifact.versionPrefix artifact.key request) fun response =>
    .done (response.map .own)

/-- What a request for a package gets once both gates granted it. -/
def serveGranted (env : WorkerEnv) (request : Request) (identity : PackageName)
    (owner repository pat : Str) : Serving :=
  match parsePackageStatusPath request.url.pathname with
  | some status => packageStatus identity status.version
  | none =>
    if isPackageMetadataPath request.url.pathname then
      refreshPackageMetadata identity owner repository pat request.url.origin
    else
      match env.artifacts, syntheticArtifactPath request.url.pathname identity with
      | true, some artifact => serveArtifact artifact request
      | _, _ => .done (.ok (.own (.json 501
          (.object [("error".toList, .string "synthetic registry materialization is not configured".toList)])
          noStore)))

def isGranted (response : Fetched) : Except Str Bool :=
  match response.body.parsed with
  | .error message => .error message
  | .ok body => (property body "granted").map fun granted => granted.any Json.truthy

def gate (answer : Except Str Fetched) (next : Serving) : Serving :=
  orThrow answer fun response =>
    if !response.ok then respond 503 "GitHub authorization unavailable" response.headers
    else orThrow (isGranted response) fun granted => if granted then next else respond 404 "not found" []

def authorize (env : WorkerEnv) (request : Request) (identity : PackageName) (scope : GitHubScope)
    (repository fingerprint pat : Str) : Serving :=
  ask (.admission fingerprint (.check (some pat))) fun admission =>
    gate admission
      (ask (.package (packageId identity) (.authorize (some ⟨fingerprint, scope.owner, repository, pat⟩)))
        fun packageAuthorization =>
          gate packageAuthorization (serveGranted env request identity scope.owner repository pat))

def servePackage (env : WorkerEnv) (now : ℤ) (request : Request) (identity : PackageName)
    (scope : GitHubScope) : Serving :=
  match parsePackageRecoveryPath request.url.pathname with
  | some recovery => recoverPackage env now request identity recovery.version
  | none =>
    match Auth.githubPat request.headers with
    | none => respond 401 "GitHub PAT required" []
    | some pat =>
      match env.authFingerprintSecret.filter fun secret => !secret.isEmpty with
      | none => respond 503 "synthetic registry is not configured" []
      | some secret =>
        if !env.admission || !env.packages then respond 503 "synthetic registry is not configured" []
        else
          match proxyableRepositoryName identity.name with
          | none => respond 404 "invalid package name" []
          | some repository =>
            authorize env request identity scope repository (Auth.fingerprintPat secret pat) pat

def forward {α : Type} : Program fallthroughCalls α → (α → Serving) → Serving
  | .done result, next => next result
  | .call op rest, next => ask (.upstream op) fun answer => forward (rest answer) next

def fallThrough (request : Request) : Serving :=
  forward (Fallthrough.fallThrough true request) fun response => .done (response.map .own)

def fetch (env : WorkerEnv) (now : ℤ) (request : Request) : Serving :=
  match Config.parseConfig env.config with
  | .error message => throw message
  | .ok config =>
    match requestedIdentity request.url.pathname with
    | none =>
      if (requestedScope request.url.pathname config.scopes).isSome then
        respond 404 "invalid package name" []
      else fallThrough request
    | some identity =>
      match config.scopes.get? identity.scope with
      | some scope => servePackage env now request identity scope
      | none => fallThrough request

end Worker
end JsrProxy
