import JsrProxy.SnapshotTexts
import JsrProxy.WorkerCalls

set_option autoImplicit false

/-!
# Texts between the Worker and its objects

The requests that the Worker sends to the admission and the package objects, as the JSON
texts it writes and as the objects read and check them, and the replies as the objects
write them. A numeral stands for itself.
-/
namespace JsrProxy
open Branches Json PackageRegistrySnapshot ObjectHandlers

def admissionOrigin : Str := "https://admission.internal".toList

def packageOrigin : Str := "https://package.internal".toList

namespace ObjectTexts

def post (origin path : Str) (body : Json) : Request :=
  ⟨"POST".toList, .parse origin path, [], Utf8.encode body.write⟩

def get (origin path : Str) : Request := ⟨"GET".toList, .parse origin path, [], []⟩

def branchJson (entry : Str × CommitTip) : Json :=
  .object [("name".toList, .string entry.1), ("sha".toList, .string entry.2.sha),
    ("committedAt".toList, whole entry.2.committedAt)]

def checkJson (pat : Str) : Json := .object [("pat".toList, .string pat)]

def authorizeJson (body : AuthorizeBody) : Json :=
  .object [("fingerprint".toList, .string body.fingerprint), ("owner".toList, .string body.owner),
    ("repository".toList, .string body.repository), ("pat".toList, .string body.pat)]

def refreshJson (body : RefreshBody) : Json :=
  .object [("package".toList, nameCodec.write body.package),
    ("discovery".toList, .object [("defaultBranch".toList, .string body.defaultBranch),
      ("branches".toList, .array (body.branches.map branchJson))])]

def recoverJson (body : RecoverBody) : Json :=
  .object [("version".toList, .string body.version), ("reason".toList, .string body.reason),
    ("recoveredAt".toList, whole body.recoveredAt)]

def materializeJson (body : MaterializeBody) : Json :=
  .object [("owner".toList, .string body.owner), ("repository".toList, .string body.repository),
    ("pat".toList, .string body.pat), ("statusUrl".toList, .string body.statusUrl)]

def sent : ObjectRequest → Option Request
  | .check (some pat) => some (post admissionOrigin "/check".toList (checkJson pat))
  | .authorize (some body) => some (post packageOrigin "/authorize".toList (authorizeJson body))
  | .refresh (some body) => some (post packageOrigin "/refresh".toList (refreshJson body))
  | .recover (some body) => some (post packageOrigin "/recover".toList (recoverJson body))
  | .materialize (some body) => some (post packageOrigin "/materialize".toList (materializeJson body))
  | .status => some (get packageOrigin "/status".toList)
  | _ => none

/-- `request.json().catch(() => undefined)` -/
def jsonOf (request : Request) : Option Json := Json.parse (Utf8.decode request.body)

def readAuthorize (body : Option Json) : Option AuthorizeBody := do
  let fingerprint ← textOf (member body "fingerprint".toList)
  let owner ← textOf (member body "owner".toList)
  let repository ← textOf (member body "repository".toList)
  let pat ← textOf (member body "pat".toList)
  some ⟨fingerprint, owner, repository, pat⟩

def parsePackageName (value : Option Json) : Option PackageName := do
  let scope ← textOf (member value "scope".toList)
  let name ← textOf (member value "name".toList)
  some ⟨scope, name⟩

def readBranch (branch : Option Json) : Option (Str × CommitTip) := do
  let name ← textOf (member branch "name".toList)
  let sha ← textOf (member branch "sha".toList)
  let committedAt ← readWhole (member branch "committedAt".toList)
  some (name, ⟨sha, committedAt⟩)

def readRefresh (body : Option Json) : Option RefreshBody := do
  let package ← parsePackageName (member body "package".toList)
  let defaultBranch ← textOf (member (member body "discovery".toList) "defaultBranch".toList)
  let branches ← readArray readBranch (member (member body "discovery".toList) "branches".toList)
  some ⟨package, defaultBranch, branches⟩

def readRecover (body : Option Json) : Option RecoverBody := do
  let version ← textOf (member body "version".toList)
  let reason ← textOf (member body "reason".toList)
  let recoveredAt ← readWhole (member body "recoveredAt".toList)
  some ⟨version, reason, recoveredAt⟩

def readMaterialize (body : Option Json) : Option MaterializeBody := do
  let owner ← textOf (member body "owner".toList)
  let repository ← textOf (member body "repository".toList)
  let pat ← textOf (member body "pat".toList)
  let statusUrl ← textOf (member body "statusUrl".toList)
  some ⟨owner, repository, pat, statusUrl⟩

def readState (state : Option Str) : Option CompletionState :=
  if state = some "ready".toList then some .ready
  else if state = some "yanked".toList then some .yanked
  else none

def readComplete (body : Option Json) : Option CompleteBody := do
  let version ← textOf (member body "version".toList)
  let state ← readState (textOf (member body "state".toList))
  some ⟨version, state, parseDiagnostic (member body "diagnostic".toList)⟩

def packageRequest (request : Request) : ObjectRequest :=
  let isPost (path : String) : Bool :=
    request.method = "POST".toList && request.url.pathname = path.toList
  let isGet (path : String) : Bool :=
    request.method = "GET".toList && request.url.pathname = path.toList
  if isPost "/authorize" then .authorize (readAuthorize (jsonOf request))
  else if isPost "/refresh" then .refresh (readRefresh (jsonOf request))
  else if isPost "/recover" then .recover (readRecover (jsonOf request))
  else if isPost "/materialize" then .materialize (readMaterialize (jsonOf request))
  else if isPost "/complete" then .complete (readComplete (jsonOf request))
  else if isGet "/metadata" then .metadata
  else if isGet "/status" then .status
  else .unknown

def admissionRequest (request : Request) : ObjectRequest :=
  if request.method = "POST".toList ∧ request.url.pathname = "/check".toList then
    .check (textOf (member (jsonOf request) "pat".toList))
  else .unknown

def received (request : ObjectRequest) (text : Request) : ObjectRequest :=
  match request with
  | .check _ => admissionRequest text
  | _ => packageRequest text

theorem valid_checkJson (pat : Str) : (checkJson pat).Valid := ⟨trivial, trivial⟩

theorem valid_authorizeJson (body : AuthorizeBody) : (authorizeJson body).Valid :=
  ⟨trivial, trivial, trivial, trivial, trivial⟩

theorem valid_branches (entries : List (Str × CommitTip)) : Json.Valid (.array (entries.map branchJson)) := by
  apply validItems_iff.2
  intro item hitem
  obtain ⟨entry, -, rfl⟩ := List.mem_map.1 hitem
  exact ⟨trivial, trivial, isNumber_decimal _, trivial⟩

theorem valid_refreshJson (body : RefreshBody) : (refreshJson body).Valid :=
  ⟨nameCodec.valid body.package, ⟨trivial, valid_branches body.branches, trivial⟩, trivial⟩

theorem valid_recoverJson (body : RecoverBody) : (recoverJson body).Valid :=
  ⟨trivial, trivial, isNumber_decimal _, trivial⟩

theorem valid_materializeJson (body : MaterializeBody) : (materializeJson body).Valid :=
  ⟨trivial, trivial, trivial, trivial, trivial⟩

theorem jsonOf_post (origin path : Str) {body : Json} (h : body.Valid) :
    jsonOf (post origin path body) = some body := Json.parse_decode_write h

theorem readBranch_branchJson (entry : Str × CommitTip) : readBranch (some (branchJson entry)) = some entry := by
  obtain ⟨name, sha, committedAt⟩ := entry
  change ((readWhole (some (whole committedAt))).bind fun committedAt =>
    some (name, (⟨sha, committedAt⟩ : CommitTip))) = _
  rw [readWhole_whole, Option.bind_some]

theorem readArray_branches (entries : List (Str × CommitTip)) :
    readArray readBranch (some (.array (entries.map branchJson))) = some entries := by
  rw [readArray, List.mapM_map]
  induction entries with
  | nil => rfl
  | cons entry entries ih =>
    rw [List.mapM_cons, Function.comp_apply, readBranch_branchJson, ih]
    rfl

theorem readRefresh_refreshJson (body : RefreshBody) : readRefresh (some (refreshJson body)) = some body := by
  obtain ⟨⟨scope, name⟩, defaultBranch, branches⟩ := body
  change ((readArray readBranch (some (.array (branches.map branchJson)))).bind fun branches =>
    some (⟨⟨scope, name⟩, defaultBranch, branches⟩ : RefreshBody)) = _
  rw [readArray_branches, Option.bind_some]

theorem readRecover_recoverJson (body : RecoverBody) : readRecover (some (recoverJson body)) = some body := by
  obtain ⟨version, reason, recoveredAt⟩ := body
  change ((readWhole (some (whole recoveredAt))).bind fun recoveredAt =>
    some (⟨version, reason, recoveredAt⟩ : RecoverBody)) = _
  rw [readWhole_whole, Option.bind_some]

/-- The object reads each request as the Worker meant it. -/
theorem received_sent {request : ObjectRequest} {text : Request} (h : sent request = some text) :
    received request text = request := by
  cases request with
  | check pat =>
    cases pat with
    | none => cases h
    | some pat =>
      obtain rfl := Option.some.inj h
      change ObjectRequest.check (textOf (member (jsonOf _) _)) = _
      rw [jsonOf_post _ _ (valid_checkJson pat)]
      rfl
  | authorize body =>
    cases body with
    | none => cases h
    | some body =>
      obtain rfl := Option.some.inj h
      change ObjectRequest.authorize (readAuthorize (jsonOf _)) = _
      rw [jsonOf_post _ _ (valid_authorizeJson body)]
      rfl
  | refresh body =>
    cases body with
    | none => cases h
    | some body =>
      obtain rfl := Option.some.inj h
      change ObjectRequest.refresh (readRefresh (jsonOf _)) = _
      rw [jsonOf_post _ _ (valid_refreshJson body), readRefresh_refreshJson]
  | recover body =>
    cases body with
    | none => cases h
    | some body =>
      obtain rfl := Option.some.inj h
      change ObjectRequest.recover (readRecover (jsonOf _)) = _
      rw [jsonOf_post _ _ (valid_recoverJson body), readRecover_recoverJson]
  | materialize body =>
    cases body with
    | none => cases h
    | some body =>
      obtain rfl := Option.some.inj h
      change ObjectRequest.materialize (readMaterialize (jsonOf _)) = _
      rw [jsonOf_post _ _ (valid_materializeJson body)]
      rfl
  | status =>
    obtain rfl := Option.some.inj h
    rfl
  | complete body | metadata | unknown => cases h

/-- `copyJob` as JSON, without what is undefined. -/
def jobJson (job : MaterializationJob) : Json :=
  .object ([(JsString.text "branch".toList, .string job.branch),
      ("commitSha".toList, .string job.commitSha), ("major".toList, whole job.major),
      ("version".toList, .string job.version), ("state".toList, stateCodec.write job.state)] ++
    optional "leasedAt".toList (job.leasedAt.map whole) ++
    optional "diagnostic".toList (job.diagnostic.map diagnosticCodec.write))

def jobsJson (jobs : List MaterializationJob) : Json := .array (jobs.map jobJson)

/-- The body of a reply. How a number of seconds is written is left open. -/
def bodyJson (number : ℚ → Str) : ObjectBody → Json
  | .decision record => .object [("granted".toList, .bool record.granted),
      ("expiresAt".toList, whole record.expiresAt)]
  | .unavailable retryAfterSeconds => .object (("kind".toList, .string "unavailable".toList) ::
      optional "retryAfterSeconds".toList (retryAfterSeconds.map fun seconds => .number (number seconds)))
  | .refreshed report created => .object [("meta".toList, report.packageMeta.json),
      ("jobs".toList, jobsJson report.jobs), ("created".toList, jobsJson created)]
  | .recovered job recoveries => .object [("job".toList, jobJson job),
      ("recoveries".toList, recoveryCodec.list.write recoveries)]
  | .packageMeta packageMeta => packageMeta.json
  | .report report => .object [("meta".toList, report.packageMeta.json), ("jobs".toList, jobsJson report.jobs)]
  | .status report recoveries => .object [("meta".toList, report.packageMeta.json),
      ("jobs".toList, jobsJson report.jobs), ("recoveries".toList, recoveryCodec.list.write recoveries)]

def bodyHeaders (number : ℚ → Str) : ObjectBody → Headers
  | .unavailable (some seconds) =>
    if seconds = 0 then [] else [("retry-after".toList, number ⌈seconds⌉)]
  | _ => []

def fetched (number : ℚ → Str) : Reply ObjectBody → Except Str Fetched
  | .json status body => .ok ⟨status, bodyHeaders number body ++ [("content-type".toList, "application/json".toList)],
      .bytes (Utf8.encode (bodyJson number body).write), []⟩
  | .text status message retryAfter => .ok ⟨status, ("content-type".toList, "text/plain;charset=UTF-8".toList) ::
      (retryAfter.map fun seconds => ("retry-after".toList, seconds)).toList,
      .bytes (Utf8.encode message), []⟩
  | .threw message => .error message

theorem valid_metaJson (packageMeta : PackageMeta) : packageMeta.json.Valid := by
  refine ⟨trivial, trivial, validMembers_iff.2 ?_, trivial⟩
  intro member hmember
  obtain ⟨entry, -, rfl⟩ := List.mem_map.1 hmember
  exact ⟨⟨_, rfl⟩, trivial, trivial⟩

theorem valid_jobJson (job : MaterializationJob) : (jobJson job).Valid := by
  apply validMembers_iff.2
  intro member hmember
  rcases List.mem_append.1 hmember with hmember | hdiagnostic
  · rcases List.mem_append.1 hmember with hhead | hleased
    · simp only [List.mem_cons, List.not_mem_nil, or_false] at hhead
      rcases hhead with rfl | rfl | rfl | rfl | rfl
      · exact ⟨⟨_, rfl⟩, trivial⟩
      · exact ⟨⟨_, rfl⟩, trivial⟩
      · exact ⟨⟨_, rfl⟩, isNumber_decimal _⟩
      · exact ⟨⟨_, rfl⟩, trivial⟩
      · exact ⟨⟨_, rfl⟩, trivial⟩
    · exact Codec.wholeNumber.valid_optional _ _ member hleased
  · exact diagnosticCodec.valid_optional _ _ member hdiagnostic

theorem valid_jobsJson (jobs : List MaterializationJob) : (jobsJson jobs).Valid := by
  apply validItems_iff.2
  intro item hitem
  obtain ⟨job, -, rfl⟩ := List.mem_map.1 hitem
  exact valid_jobJson job

theorem valid_bodyJson (number : ℚ → Str) {body : ObjectBody}
    (h : ∀ retryAfterSeconds, body ≠ .unavailable retryAfterSeconds) : (bodyJson number body).Valid := by
  cases body with
  | decision record => exact ⟨trivial, isNumber_decimal _, trivial⟩
  | unavailable retryAfterSeconds => exact absurd rfl (h retryAfterSeconds)
  | refreshed report created =>
    exact ⟨valid_metaJson _, valid_jobsJson _, valid_jobsJson _, trivial⟩
  | recovered job recoveries => exact ⟨valid_jobJson job, recoveryCodec.list.valid _, trivial⟩
  | packageMeta packageMeta => exact valid_metaJson packageMeta
  | report report => exact ⟨valid_metaJson _, valid_jobsJson _, trivial⟩
  | status report recoveries =>
    exact ⟨valid_metaJson _, valid_jobsJson _, recoveryCodec.list.valid _, trivial⟩

theorem parsed_of_json {body : Body} {value : Json} (h : body.json = some value) : body.parsed = .ok value := by
  cases body with
  | absent | broken => cases h
  | bytes content =>
    rw [Body.parsed, h]
    rintro message ⟨⟩

/-- The text of a reply is read as the JSON that it was written from. -/
theorem parsed_fetched {number : ℚ → Str} {status : ℕ} {body : ObjectBody} {response : Fetched}
    (hfetched : fetched number (.json status body) = .ok response)
    (h : ∀ retryAfterSeconds, body ≠ .unavailable retryAfterSeconds) :
    response.status = status ∧ response.body.json = some (bodyJson number body) ∧
      response.body.parsed = .ok (bodyJson number body) := by
  obtain rfl := Except.ok.inj hfetched
  have hparse : Body.json (.bytes (Utf8.encode (bodyJson number body).write)) = some (bodyJson number body) :=
    Json.parse_decode_write (valid_bodyJson number h)
  exact ⟨rfl, hparse, parsed_of_json hparse⟩

theorem isGranted_decision {number : ℚ → Str} {status : ℕ} {record : AdmissionRecord} {response : Fetched}
    (hfetched : fetched number (.json status (.decision record)) = .ok response) :
    Worker.isGranted response = .ok record.granted := by
  obtain ⟨-, -, hparsed⟩ := parsed_fetched hfetched nofun
  rw [Worker.isGranted, hparsed]
  rfl

end ObjectTexts
end JsrProxy
