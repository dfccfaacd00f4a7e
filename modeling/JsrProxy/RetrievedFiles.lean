import JsrProxy.Artifacts
import JsrProxy.PublishedFiles

set_option autoImplicit false

/-!
# Retrieved files

Whether a request for a published file finds it. The key of an upload is decoded,
the key of a request is not, so a file whose path has a brace is stored under one
key and asked for under another.
-/
namespace JsrProxy

open Publication R2Publication

def OthersPut (s t : R2Bucket) : Prop :=
  ∃ job files exports, IsAllocated job ∧
    (∀ file ∈ files, Service.validatePackagePath file.path = .ok ()) ∧
    PutsOf (batchOf job files exports) s t

/-- The version's batch was accepted, perhaps after attempts at the same batch, and
    perhaps followed by other publications. -/
def IsPublished (job : Materializer.MaterializationJob) (files : List ArtifactFile)
    (exports : BTreeMap Str) (bucket : R2Bucket) : Prop :=
  ∃ (before after : R2Bucket) (response : Response),
    (∀ key, IsVersionKey job key → ∀ held, before key = some held →
      ∃ object ∈ batchOf job files exports, object.key = key ∧ object.stored = held) ∧
    Program.Runs R2Step (publishArtifactBatch (batchRequest
      ((publish Service.batchedArtifactStore job [] files exports).2.map Service.uploadJson))) before
      (.ok response) after ∧
    response.ok = true ∧ Relation.ReflTransGen OthersPut after bucket

theorem othersPut_grows {s t : R2Bucket} (h : Relation.ReflTransGen OthersPut s t) : s.Grows t := by
  induction h with
  | refl => exact ObjectStore.Grows.refl s
  | tail _ hstep ih =>
    obtain ⟨job, files, exports, -, -, hputs⟩ := hstep
    exact ih.trans (putsOf_grows _ _ hputs)

theorem percent_not_mem_key {job : Materializer.MaterializationJob} (hjob : IsAllocated job)
    {files : List ArtifactFile} {exports : BTreeMap Str}
    (haccepted : ∀ file ∈ files, Service.validatePackagePath file.path = .ok ())
    {object : BatchObject} (hobject : object ∈ batchOf job files exports) : '%' ∉ object.key := by
  have hpercent : ¬ ('%' = '/' ∨ Service.isAcceptedByte '%' = true) := by
    rintro (h | h)
    · cases h
    · exact (Service.accepted_plain h).2.1 rfl
  have hfront : '%' ∉ packageKeyPrefix job := fun h => hpercent (packageKeyPrefix_chars hjob h)
  rcases List.mem_append.1 hobject with hobject | hobject
  · obtain ⟨file, hfile, rfl⟩ := List.mem_map.1 hobject
    intro h
    rcases List.mem_append.1 h with h | h
    · exact hfront h
    · rcases List.mem_cons.1 h with h | h
      · cases h
      · exact hpercent (Service.accepted_mem (haccepted file hfile) h)
  · simp only [List.mem_cons, List.not_mem_nil, or_false] at hobject
    rcases hobject with rfl | rfl
    all_goals
      intro h
      rcases List.mem_append.1 h with h | h
      · exact hfront h
      · exact absurd h (by decide)

section
variable {job : Materializer.MaterializationJob} {files : List ArtifactFile} {exports : BTreeMap Str}
  {bucket : R2Bucket} (hjob : IsAllocated job)
  (haccepted : ∀ file ∈ files, Service.validatePackagePath file.path = .ok ())
  (hnodup : (files.map ArtifactFile.path).Nodup) (h : IsPublished job files exports bucket)
include hjob haccepted hnodup h

/-- A published version has its batch in the bucket, and no key with a percent sign. -/
theorem published_held :
    (∀ object ∈ batchOf job files exports, bucket object.key = some object.stored) ∧
      ∀ path, '%' ∈ path → bucket (fileKey job path) = none := by
  obtain ⟨before, after, response, hbefore, hrun, hok, hothers⟩ := h
  rw [publish_batched job files exports haccepted hnodup, List.map_map] at hrun
  have hdistinct := batchOf_keys_nodup job exports hnodup
  have hsame : ∀ object ∈ batchOf job files exports, ∀ held, before object.key = some held →
      held = object.stored := by
    intro object hobject held hheld
    obtain ⟨other, hother, hkey, rfl⟩ := hbefore _ (isVersionKey_of_batch hobject) held hheld
    rw [List.inj_on_of_nodup_map hdistinct hother hobject hkey]
  obtain ⟨hstored, hputs⟩ := batch_stored (batchOf_ne_nil job files exports)
    (batchOf_addressed hjob exports haccepted) hdistinct hsame hrun hok
  refine ⟨fun object hobject => othersPut_grows hothers _ _ (hstored object hobject), ?_⟩
  intro path hpath
  have hkey : '%' ∈ fileKey job path := List.mem_append_right _ (List.mem_cons_of_mem _ hpath)
  have hafter : after (fileKey job path) = none := by
    cases hheld : after (fileKey job path) with
    | none => rfl
    | some held =>
      exfalso
      rcases putsOf_held hputs hheld with hheld | ⟨object, hobject, he, -⟩
      · obtain ⟨object, hobject, he, -⟩ := hbefore _ (.inr (.inr ⟨path, rfl⟩)) held hheld
        exact percent_not_mem_key hjob haccepted hobject (he ▸ hkey)
      · exact percent_not_mem_key hjob haccepted hobject (he ▸ hkey)
  clear hputs hstored hrun
  induction hothers with
  | refl => exact hafter
  | tail _ hstep ih =>
    obtain ⟨job', files', exports', hjob', haccepted', hputs⟩ := hstep
    rcases hputs with rfl | ⟨object, hobject, rfl⟩
    · exact ih
    · rw [ObjectStore.put_of_ne _ _ _, ih]
      rintro he
      exact percent_not_mem_key hjob' haccepted' hobject (he ▸ hkey)

end

theorem published_exists {job : Materializer.MaterializationJob} (hjob : IsAllocated job)
    {files : List ArtifactFile} (exports : BTreeMap Str)
    (haccepted : ∀ file ∈ files, Service.validatePackagePath file.path = .ok ())
    (hnodup : (files.map ArtifactFile.path).Nodup) : ∃ bucket, IsPublished job files exports bucket := by
  obtain ⟨bucket, hruns⟩ := publishUploads_runs ObjectStore.empty (batchOf_addressed hjob exports haccepted)
    (batchOf_keys_nodup _ exports hnodup) (fun _ _ => rfl)
  rw [← publishArtifactBatch_uploads (batchOf_ne_nil _ _ _)] at hruns
  refine ⟨bucket, ObjectStore.empty, bucket, ⟨204, [], []⟩, ?_, ?_, rfl, .refl⟩
  · intro key _ held hheld
    cases hheld
  · rw [publish_batched job files exports haccepted hnodup, List.map_map]
    exact hruns

theorem syntheticArtifactPath_filePath {job : Materializer.MaterializationJob} (hjob : IsAllocated job)
    {path : Str} (hpath : Service.validatePackagePath path = .ok ()) :
    Worker.isPackageMetadataPath (UrlPath.pathname (filePath job.package job.version path)) = false ∧
      Worker.syntheticArtifactPath (UrlPath.pathname (filePath job.package job.version path)) job.package
        = some ⟨packageKeyPrefix job,
            fileKey job (UrlPath.percentEncode UrlPath.inPathSet path)⟩ := by
  obtain ⟨-, hsplit⟩ := pathname_filePath (urlSegment_scope hjob.scope) (urlSegment_scope hjob.name)
    (urlSegment_version hjob) hpath
  have hjoin : ['/'].intercalate ((path.splitOn '/').map (UrlPath.percentEncode UrlPath.inPathSet))
      = UrlPath.percentEncode UrlPath.inPathSet path := by
    rw [← UrlPath.percentEncode_intercalate (by decide), List.intercalate_splitOn]
  obtain ⟨file, rest, hparts⟩ := List.exists_cons_of_ne_nil
    (by simp :
      (path.splitOn '/').map (UrlPath.percentEncode UrlPath.inPathSet) ≠ [])
  rw [hparts] at hsplit hjoin
  have hversion : job.version.isEmpty = false := by
    rw [List.isEmpty_eq_false_iff]
    obtain ⟨major, sequence, -, -, hversion⟩ := hjob.version
    rw [hversion]
    simp [versionString, Text.decimal_ne_nil]
  constructor
  · rw [Worker.isPackageMetadataPath, hsplit]
  · rw [Worker.syntheticArtifactPath, hsplit]
    have hkey : ∀ base version tail : Str,
        base ++ '/' :: (version ++ ['/'] ++ tail) = base ++ '/' :: version ++ '/' :: tail := by simp
    dsimp only
    rw [hversion, if_neg Bool.false_ne_true,
      List.intercalate_cons_of_ne_nil (List.cons_ne_nil file rest), hjoin, hkey]
    rfl

inductive GetStep : R2Bucket → (call : ArtifactGet) → Except Str (Option R2ObjectLike) → R2Bucket → Prop
  | found (bucket : R2Bucket) (key etag uploaded : Str) :
    GetStep bucket ⟨key⟩
      (.ok ((bucket key).map fun object => ⟨object.value, etag, uploaded, object.contentType⟩)) bucket
  | fails (bucket : R2Bucket) (key message : Str) : GetStep bucket ⟨key⟩ (.error message) bucket

def AuthorizedStep (s : R2Bucket) :
    (call : Worker.workerCalls.Op) → Worker.workerCalls.Ret call → R2Bucket → Prop
  | .inl _, _, _ => True
  | .inr get, answer, t => GetStep s get answer t

/-- The response has the bytes, or confirms that the caller's copy is current. -/
def Serves (bytes : Bytes) (request : Request) (response : Response) : Prop :=
  (response.status = 200 ∧ response.body = bytes) ∨
    (response.status = 304 ∧ ∃ value, request.headers.get "if-none-match".toList = some value ∧
      response.headers.get "etag".toList = some value ∨
      request.headers.get "if-modified-since".toList = some value ∧
        response.headers.get "last-modified".toList = some value)

theorem serveObject_serves (key : Str) (object : R2ObjectLike) (request : Request) :
    Serves object.body request (R2Artifacts.serveObject key object request) := by
  unfold R2Artifacts.serveObject
  dsimp only
  split_ifs with hcurrent
  · right
    refine ⟨rfl, ?_⟩
    rcases hcurrent with hcurrent | hcurrent
    · exact ⟨_, .inl ⟨hcurrent, rfl⟩⟩
    · exact ⟨_, .inr ⟨hcurrent, rfl⟩⟩
  · exact .inl ⟨rfl, rfl⟩

theorem serveArtifact_answer {bucket bucket' : R2Bucket} {versionPrefix key : Str} {marker : R2Object}
    {request : Request} {response : Response}
    (hmarker : bucket (versionPrefix ++ ".ready.json".toList) = some marker)
    (hrun : Program.Runs GetStep (R2Artifacts.serveArtifact versionPrefix key request) bucket
      (.ok response) bucket') :
    (bucket key = none → response = R2Artifacts.notFound) ∧
      ∀ object, bucket key = some object → Serves object.value request response := by
  cases hrun with
  | call hstep hrest =>
    cases hstep with
    | fails => cases hrest
    | found =>
      rw [hmarker, Option.map_some] at hrest
      cases hrest with
      | call hstep hrest =>
        cases hstep with
        | fails => cases hrest
        | found _ etag uploaded =>
          constructor
          · intro hnone
            rw [hnone, Option.map_none] at hrest
            cases hrest
            rfl
          · intro object hobject
            rw [hobject, Option.map_some] at hrest
            cases hrest
            exact serveObject_serves key ⟨object.value, etag, uploaded, object.contentType⟩ request

theorem serveArtifact_runs {bucket : R2Bucket} {versionPrefix : Str} {marker : R2Object}
    (hmarker : bucket (versionPrefix ++ ".ready.json".toList) = some marker) (key : Str)
    (request : Request) : ∃ response, Program.Runs GetStep
      (R2Artifacts.serveArtifact versionPrefix key request) bucket (.ok response) bucket := by
  have hfound := GetStep.found bucket (versionPrefix ++ ".ready.json".toList) [] []
  rw [hmarker, Option.map_some] at hfound
  have hget := GetStep.found bucket key [] []
  cases hobject : bucket key with
  | none =>
    rw [hobject, Option.map_none] at hget
    exact ⟨_, .call hfound (.call hget (.done _ _))⟩
  | some object =>
    rw [hobject, Option.map_some] at hget
    exact ⟨_, .call hfound (.call hget (.done _ _))⟩

/-- Every request for the file is answered with its bytes, unless the bucket fails. -/
def Retrievable (job : Materializer.MaterializationJob) (file : ArtifactFile) (bucket : R2Bucket) : Prop :=
  ∀ (origin owner repository pat : Str) (discovery : Discovery) (request : Request),
    request.method = "GET".toList →
    request.url = .parse origin (filePath job.package job.version file.path) →
    ∃ identity, Identity.parsePackageIdentity request.url.pathname = some identity ∧
      (∃ response bucket', Program.Runs AuthorizedStep (Worker.answerAuthorized identity owner repository
        pat discovery request) bucket (.ok response) bucket') ∧
      ∀ response bucket', Program.Runs AuthorizedStep (Worker.answerAuthorized identity owner repository
        pat discovery request) bucket (.ok response) bucket' → Serves file.bytes request response

section
variable {pathname : Str} {job : Materializer.MaterializationJob} {files : List ArtifactFile}
  {exports : BTreeMap Str} {bucket : R2Bucket} {file : ArtifactFile}
  (hidentity : Identity.parsePackageIdentity pathname = some job.package) (hjob : IsAllocated job)
  (haccepted : ∀ file ∈ files, Service.validatePackagePath file.path = .ok ())
  (hnodup : (files.map ArtifactFile.path).Nodup) (hpublished : IsPublished job files exports bucket)
  (hfile : file ∈ files)

include hidentity hjob haccepted hfile in
theorem answerAuthorized_file {origin : Str} {request : Request}
    (hurl : request.url = .parse origin (filePath job.package job.version file.path)) :
    Identity.parsePackageIdentity request.url.pathname = some job.package ∧
      ∀ owner repository pat discovery,
        Worker.answerAuthorized job.package owner repository pat discovery request =
          (R2Artifacts.serveArtifact (packageKeyPrefix job)
            (fileKey job (UrlPath.percentEncode UrlPath.inPathSet file.path)) request).right := by
  have hpath : request.url.pathname
      = UrlPath.pathname (filePath job.package job.version file.path) := by rw [hurl, Url.parse]
  obtain ⟨hmeta, hartifact⟩ := syntheticArtifactPath_filePath hjob (haccepted file hfile)
  constructor
  · rw [hpath, (pathname_filePath (urlSegment_scope hjob.scope) (urlSegment_scope hjob.name)
      (urlSegment_version hjob) (haccepted file hfile)).1]
    exact Identity.parsePackageIdentity_again hidentity _
  · intro owner repository pat discovery
    rw [Worker.answerAuthorized, hpath, hmeta, hartifact, if_neg Bool.false_ne_true]

include hidentity hjob haccepted hnodup hpublished hfile

theorem retrievable_of_plain (hopen : '{' ∉ file.path) (hclose : '}' ∉ file.path) :
    Retrievable job file bucket := by
  obtain ⟨hheld, -⟩ := published_held hjob haccepted hnodup hpublished
  have hmarker : bucket (packageKeyPrefix job ++ ".ready.json".toList)
      = some (markerObject job files).stored :=
    hheld (markerObject job files) (List.mem_append_right _ (by simp))
  have hobject : bucket (fileKey job file.path) = some (fileObject job file).stored :=
    hheld (fileObject job file) (List.mem_append_left _ (List.mem_map_of_mem hfile))
  have hkey : UrlPath.percentEncode UrlPath.inPathSet file.path = file.path :=
    encode_accepted (fun c hc => Service.accepted_mem (haccepted file hfile) hc) hopen hclose
  intro origin owner repository pat discovery request _ hurl
  obtain ⟨hfound, hanswer⟩ := answerAuthorized_file hidentity hjob haccepted hfile hurl
  refine ⟨job.package, hfound, ?_, ?_⟩
  · obtain ⟨response, hrun⟩ := serveArtifact_runs hmarker (fileKey job file.path) request
    refine ⟨response, bucket, ?_⟩
    rw [hanswer, hkey]
    exact Program.runs_right.2 hrun
  · intro response bucket' hrun
    rw [hanswer, hkey] at hrun
    exact (serveArtifact_answer hmarker (Program.runs_right.1 hrun)).2 _ hobject

theorem not_retrievable_of_brace {c : Char} (hc : c ∈ file.path) (hbrace : UrlPath.inPathSet c = true) :
    ¬ Retrievable job file bucket := by
  obtain ⟨hheld, habsent⟩ := published_held hjob haccepted hnodup hpublished
  have hmarker : bucket (packageKeyPrefix job ++ ".ready.json".toList)
      = some (markerObject job files).stored :=
    hheld (markerObject job files) (List.mem_append_right _ (by simp))
  have hpercent := UrlPath.percent_mem_percentEncode hc hbrace
  intro hretrievable
  have hanswered : ∀ request : Request,
      request.url = .parse [] (filePath job.package job.version file.path) →
      request.method = "GET".toList → False := by
    intro request hurl hmethod
    obtain ⟨hidentified, hanswer⟩ := answerAuthorized_file hidentity hjob haccepted hfile hurl
    obtain ⟨found, hfound, ⟨response, bucket', hrun⟩, hserves⟩ :=
      hretrievable [] [] [] [] .failed request hmethod hurl
    rw [hidentified, Option.some.injEq] at hfound
    have hserved := hserves response bucket' hrun
    rw [← hfound, hanswer] at hrun
    rw [(serveArtifact_answer hmarker (Program.runs_right.1 hrun)).1 (habsent _ hpercent)] at hserved
    rcases hserved with ⟨hstatus, -⟩ | ⟨hstatus, -⟩ <;> exact absurd hstatus (by decide)
  exact hanswered ⟨"GET".toList, .parse [] (filePath job.package job.version file.path), [], []⟩ rfl rfl

end

/-- A published file can be retrieved exactly when its path has no braces. -/
theorem retrievable_iff {pathname : Str} {identity : PackageName}
    (hidentity : Identity.parsePackageIdentity pathname = some identity) {major sequence : ℤ}
    (hmajor : 0 ≤ major) (hsequence : 0 ≤ sequence) {branch commitSha : Str}
    {files : List ArtifactFile} {exports : BTreeMap Str}
    (haccepted : ∀ file ∈ files, Service.validatePackagePath file.path = .ok ())
    (hnodup : (files.map ArtifactFile.path).Nodup) {bucket : R2Bucket}
    (hpublished : IsPublished ⟨identity, branch, commitSha, versionString major sequence⟩ files exports
      bucket) {file : ArtifactFile} (hfile : file ∈ files) :
    Retrievable ⟨identity, branch, commitSha, versionString major sequence⟩ file bucket ↔
      '{' ∉ file.path ∧ '}' ∉ file.path := by
  obtain ⟨hscope, hname, -⟩ := Identity.parsePackageIdentity_some hidentity
  have hjob : IsAllocated ⟨identity, branch, commitSha, versionString major sequence⟩ :=
    ⟨hscope, hname, major, sequence, hmajor, hsequence, rfl⟩
  constructor
  · intro hretrievable
    constructor <;> intro hc
    · exact not_retrievable_of_brace hidentity hjob haccepted hnodup hpublished hfile hc (by decide)
        hretrievable
    · exact not_retrievable_of_brace hidentity hjob haccepted hnodup hpublished hfile hc (by decide)
        hretrievable
  · rintro ⟨hopen, hclose⟩
    exact retrievable_of_plain hidentity hjob haccepted hnodup hpublished hfile hopen hclose

theorem retrievable_iff_route : ∃ bucket, IsPublished routeJob [routeFile] ∅ bucket ∧
    (Retrievable routeJob routeFile bucket ↔ '{' ∉ routeFile.path ∧ '}' ∉ routeFile.path) := by
  obtain ⟨bucket, hpublished⟩ := published_exists routeJob_isAllocated ∅ routeFile_accepted
    routeFile_nodup
  exact ⟨bucket, hpublished, retrievable_iff routeJob_identity (by decide) (by decide) routeFile_accepted
    routeFile_nodup hpublished List.mem_cons_self⟩

theorem routeFile_not_retrievable : ∃ bucket, IsPublished routeJob [routeFile] ∅ bucket ∧
    ¬ Retrievable routeJob routeFile bucket := by
  obtain ⟨bucket, hpublished⟩ := published_exists routeJob_isAllocated ∅ routeFile_accepted
    routeFile_nodup
  exact ⟨bucket, hpublished, not_retrievable_of_brace routeJob_identity routeJob_isAllocated
    routeFile_accepted routeFile_nodup hpublished List.mem_cons_self
    (by decide : '{' ∈ routeFile.path) (by decide)⟩

end JsrProxy
