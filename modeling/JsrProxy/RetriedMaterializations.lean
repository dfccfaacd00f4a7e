import JsrProxy.MaterializedPackages

set_option autoImplicit false

/-!
# Retried materializations

Two requests that drive one job. A package is published with the same bytes by
either, while a tombstone carries the status URL of the caller that built it.
-/
namespace JsrProxy

namespace R2Publication
open Service

def available (bucket : R2Bucket) : (call : R2Call) → Except Str (Option R2StoredObject) × R2Bucket
  | .head key => (.ok ((bucket key).map fun object => ⟨object.sha256⟩), bucket)
  | .put key object =>
    match bucket key with
    | none => (.ok (some ⟨object.sha256⟩), bucket.put key object)
    | some _ => (.ok none, bucket)

def storedUpload (upload : BatchedArtifact) : R2Object :=
  ⟨(Base64.decode upload.body).getD [], some upload.sha256, some (contentType upload.key)⟩

def written (bucket : R2Bucket) (uploads : List BatchedArtifact) : R2Bucket :=
  uploads.foldl (fun bucket upload => bucket.put upload.key (storedUpload upload)) bucket

/-- Whichever leading uploads of the first batch reached R2, the second batch is accepted. -/
def FinishedBy (first second : List BatchedArtifact) : Prop :=
  ∀ (bucket : R2Bucket) (front : List BatchedArtifact), front <+: first →
    (∀ upload ∈ first, bucket upload.key = none) →
    ∃ response, (Program.run available (publishArtifactBatch (batchRequest (second.map uploadJson)))
      (written bucket front)).1 = .ok response ∧ response.ok = true

theorem storedUpload_upload (object : BatchObject) : storedUpload object.upload = object.stored := by
  rw [storedUpload, object.decode_upload]
  rfl

theorem written_puts (batch : List BatchObject) {front : List BatchObject} (hfront : front ⊆ batch)
    (bucket : R2Bucket) :
    Relation.ReflTransGen (PutsOf batch) bucket (written bucket (front.map BatchObject.upload)) := by
  induction front generalizing bucket with
  | nil => exact .refl
  | cons object rest ih =>
    have hput : PutsOf batch bucket (bucket.put object.key object.stored) :=
      .inr ⟨object, hfront List.mem_cons_self, rfl⟩
    have hrest := ih (fun o ho => hfront (List.mem_cons_of_mem _ ho)) (bucket.put object.key object.stored)
    rw [← storedUpload_upload object] at hput hrest
    exact .head hput hrest

theorem putArtifact_available (object : BatchObject) (bucket : R2Bucket)
    (hfree : bucket object.key = none ∨ object.HeldBy bucket) :
    ∃ response, Program.run available (putArtifact object.key object.bytes (sha256Hex object.bytes)) bucket
      = (.ok response, bucket.put object.key object.stored) ∧ response.ok = true := by
  rcases hfree with hnone | ⟨held, hheld, hsha⟩
  · refine ⟨⟨201, [], []⟩, ?_, rfl⟩
    rw [putArtifact, Program.run_call]
    simp only [available, hnone]
    rfl
  · refine ⟨⟨200, [], []⟩, ?_, rfl⟩
    rw [putArtifact, Program.run_call]
    simp only [available, hheld, Program.run_call, Option.map_some, Option.bind_some, hsha, if_true,
      Program.run_done, ObjectStore.put_of_some hheld]

/-- An available bucket accepts a batch of which it holds a part already. -/
theorem publishUploads_available (bucket : R2Bucket) {batch : List BatchObject}
    (haddressed : ∀ object ∈ batch, object.Addressed) (hdistinct : (batch.map BatchObject.key).Nodup)
    (hfree : ∀ object ∈ batch, bucket object.key = none ∨ object.HeldBy bucket) :
    ∃ response, (Program.run available
      (publishUploads (batch.map fun object => uploadJson object.upload)) bucket).1 = .ok response ∧
      response.ok = true := by
  induction batch generalizing bucket with
  | nil => exact ⟨_, rfl, rfl⟩
  | cons object rest ih =>
    obtain ⟨request, hrequest, hpublish⟩ := publishArtifact_upload (haddressed object List.mem_cons_self)
    obtain ⟨hnew, hrest⟩ := List.nodup_cons.1 hdistinct
    obtain ⟨response, hrun, hok⟩ := putArtifact_available object bucket (hfree object List.mem_cons_self)
    rw [List.map_cons, publishUploads_cons hrequest, hpublish, Program.run_bind, hrun]
    dsimp only
    rw [if_pos hok]
    apply ih _ (fun o ho => haddressed o (List.mem_cons_of_mem _ ho)) hrest
    intro o ho
    rcases hfree o (List.mem_cons_of_mem _ ho) with hnone | hheld
    · left
      rw [ObjectStore.put_of_ne, hnone]
      intro he
      exact hnew (he ▸ List.mem_map_of_mem ho)
    · exact .inr (hheld.grows (ObjectStore.put_grows _ _ _))

theorem finishedBy_self {batch : List BatchObject} (hne : batch ≠ [])
    (haddressed : ∀ object ∈ batch, object.Addressed) (hdistinct : (batch.map BatchObject.key).Nodup) :
    FinishedBy (batch.map BatchObject.upload) (batch.map BatchObject.upload) := by
  intro bucket front hfront hempty
  obtain ⟨chosen, hchosen, rfl⟩ := List.prefix_map_iff.1 hfront
  rw [List.map_map]
  change ∃ response, (Program.run available (publishArtifactBatch (batchRequest
    (batch.map fun object => uploadJson object.upload))) _).1 = .ok response ∧ response.ok = true
  rw [publishArtifactBatch_uploads hne]
  apply publishUploads_available _ haddressed hdistinct
  intro object hobject
  cases hheld : written bucket (chosen.map BatchObject.upload) object.key with
  | none => exact .inl rfl
  | some held =>
    right
    rcases putsOf_held (written_puts batch hchosen.subset bucket) hheld with hbefore | hput
    · have hnone := hempty object.upload (List.mem_map_of_mem hobject)
      rw [show object.upload.key = object.key from rfl, hbefore] at hnone
      cases hnone
    · obtain ⟨other, hother, hkey, rfl⟩ := hput
      rw [List.inj_on_of_nodup_map hdistinct hother hobject hkey] at hheld
      exact ⟨object.stored, hheld, rfl⟩

end R2Publication

namespace Service
open R2Publication

/-- What a caller's origin makes of a job: the Worker sends its own status URL along. -/
def requestFrom (job : Materializer.MaterializationJob) (source : SourceRepository) (origin : Str) :
    MaterializationRequest where
  job := job
  source := source
  statusUrl := origin ++ "/-/status/@".toList ++ job.package.scope ++ '/' :: job.package.name

theorem failureModule_inj {diagnostic : TombstoneDiagnostic} {statusUrl statusUrl' : Str}
    (h : Tombstone.failureModule diagnostic statusUrl = Tombstone.failureModule diagnostic statusUrl') :
    statusUrl = statusUrl' := by
  unfold Tombstone.failureModule at h
  have htext := List.append_cancel_left (List.append_cancel_right (Utf8.encode_inj h))
  exact List.append_cancel_left (Json.writeString_inj htext)

theorem upload_inj {object object' : BatchObject} (h : object.upload = object'.upload) :
    object.bytes = object'.bytes := by
  have hbody : Base64.decode object.upload.body = Base64.decode object'.upload.body := by rw [h]
  rw [BatchObject.decode_upload, BatchObject.decode_upload, Option.some.injEq] at hbody
  exact hbody

def uploadsOf (libraries : Libraries) (job : Materializer.MaterializationJob) (source : SourceRepository)
    (archive : Bytes) (origin : Str) : Option (List BatchedArtifact) :=
  match runMaterialization libraries (requestFrom job source origin) archive with
  | .error _ => none
  | .ok outcome => some outcome.uploads

variable (libraries : Libraries) (job : Materializer.MaterializationJob) (source : SourceRepository)
  (archive : Bytes)

theorem sourcePackage_requestFrom (origin origin' : Str) :
    sourcePackage libraries archive (requestFrom job source origin)
      = sourcePackage libraries archive (requestFrom job source origin') := rfl

theorem uploadsOf_ready {origin : Str} {package : List ArtifactFile × BTreeMap Str}
    (h : sourcePackage libraries archive (requestFrom job source origin) = .ok package) :
    uploadsOf libraries job source archive origin =
      some ((Publication.batchOf job package.1 package.2).map BatchObject.upload) := by
  rw [uploadsOf, runMaterialization_ready _ _ _ h]
  rfl

theorem uploadsOf_yanked {origin : Str} {failure : SourceFailure}
    (h : sourcePackage libraries archive (requestFrom job source origin) = .error failure) :
    uploadsOf libraries job source archive origin =
      some ((Publication.batchOf job (tombstoneOf failure (requestFrom job source origin)).files
        (tombstoneOf failure (requestFrom job source origin)).exports).map BatchObject.upload) := by
  rw [uploadsOf, runMaterialization_yanked _ _ _ h]
  rfl

/-- The tombstone of one failure differs between origins. -/
theorem uploadsOf_yanked_inj {origin origin' : Str} {failure : SourceFailure}
    (h : sourcePackage libraries archive (requestFrom job source origin) = .error failure)
    (hsame : uploadsOf libraries job source archive origin = uploadsOf libraries job source archive origin') :
    origin = origin' := by
  rw [uploadsOf_yanked _ _ _ _ h,
    uploadsOf_yanked _ _ _ _ ((sourcePackage_requestFrom _ _ _ _ origin' origin).trans h),
    Option.some.injEq] at hsame
  have hmodule := (List.cons.inj (List.cons.inj hsame).2).1
  have hurl := failureModule_inj (upload_inj hmodule)
  simp only [requestFrom] at hurl
  exact List.append_cancel_right (List.append_cancel_right (List.append_cancel_right hurl))

theorem uploadsOf_batch (origin : Str) : ∃ files exports, Publishable files ∧
    uploadsOf libraries job source archive origin =
      some ((Publication.batchOf job files exports).map BatchObject.upload) := by
  obtain ⟨outcome, files, exports, houtcome, hfiles, huploads⟩ :=
    runMaterialization_uploads libraries (requestFrom job source origin) archive
  refine ⟨files, exports, hfiles, ?_⟩
  rw [uploadsOf, houtcome]
  exact congrArg some huploads

/-- A caller takes over what another began exactly if the sources make a package, or
    their origins are the same. -/
theorem retried_iff {job : Materializer.MaterializationJob} (hjob : IsAllocated job)
    (origin origin' : Str) :
    (∃ first second, uploadsOf libraries job source archive origin = some first ∧
      uploadsOf libraries job source archive origin' = some second ∧ first = second ∧
      FinishedBy first second) ↔
      (∃ package, sourcePackage libraries archive (requestFrom job source origin) = .ok package) ∨
        origin = origin' := by
  constructor
  · rintro ⟨first, second, hfirst, hsecond, rfl, -⟩
    cases h : sourcePackage libraries archive (requestFrom job source origin) with
    | ok package => exact .inl ⟨package, rfl⟩
    | error failure =>
      right
      exact uploadsOf_yanked_inj libraries job source archive h (hfirst.trans hsecond.symm)
  · intro h
    have hsame : uploadsOf libraries job source archive origin
        = uploadsOf libraries job source archive origin' := by
      rcases h with ⟨package, hpackage⟩ | rfl
      · rw [uploadsOf_ready _ _ _ _ hpackage,
          uploadsOf_ready _ _ _ _ ((sourcePackage_requestFrom _ _ _ _ origin' origin).trans hpackage)]
      · rfl
    obtain ⟨files, exports, hfiles, huploads⟩ := uploadsOf_batch libraries job source archive origin
    refine ⟨_, _, huploads, hsame.symm.trans huploads, rfl, ?_⟩
    exact finishedBy_self (Publication.batchOf_ne_nil _ _ _)
      (Publication.batchOf_addressed hjob _ hfiles.accepted)
      (Publication.batchOf_keys_nodup _ _ hfiles.distinct)

/-- The gzip file of a tar archive with `widget-abc/mod.ts` and no configuration. -/
def bareArchive : Bytes :=
  [31, 139, 8, 0, 0, 0, 0, 0, 2, 3, 43, 207, 76, 73, 79, 45, 209, 77, 76, 74, 214, 207, 205, 79,
    209, 43, 41, 102, 160, 62, 48, 0, 2, 51, 19, 19, 48, 13, 4, 232, 180, 129, 129, 161, 49, 130,
    13, 18, 55, 52, 52, 48, 54, 97, 80, 48, 96, 160, 3, 40, 45, 46, 73, 44, 82, 80, 96, 24, 161,
    32, 181, 162, 32, 191, 168, 68, 161, 186, 214, 154, 139, 97, 20, 140, 130, 81, 48, 10, 70, 193,
    200, 1, 0, 88, 34, 253, 250, 0, 8, 0, 0]

def bareEntry : TarEntry :=
  ⟨Utf8.encode "widget-abc/mod.ts".toList, .regular, some 11, Utf8.encode "export \x7b\x7d;\n".toList, false⟩

def bareLibraries : Libraries where
  entries bytes := if bytes = bareArchive then some [some bareEntry] else some [none]
  configuration _ := .error "expected value at line 1 column 1".toList
  ast := ⟨Str, .ok, fun _ source _ => .ok source, fun _ program => program, fun _ _ program => .ok program⟩

def bareSource : SourceRepository := ⟨"acme".toList, "widget".toList⟩

def deployedOrigin : Str := "https://jsr.example.com".toList

def localOrigin : Str := "http://localhost:8787".toList

theorem retried_iff_bare :
    (∃ first second, uploadsOf bareLibraries Publication.routeJob bareSource bareArchive deployedOrigin
      = some first ∧ uploadsOf bareLibraries Publication.routeJob bareSource bareArchive localOrigin
        = some second ∧ first = second ∧ FinishedBy first second) ↔
      (∃ package, sourcePackage bareLibraries bareArchive
        (requestFrom Publication.routeJob bareSource deployedOrigin) = .ok package) ∨
          deployedOrigin = localOrigin :=
  retried_iff bareLibraries bareSource bareArchive Publication.routeJob_isAllocated deployedOrigin localOrigin

def bareUploads (origin : Str) : List BatchedArtifact :=
  (uploadsOf bareLibraries Publication.routeJob bareSource bareArchive origin).getD []

theorem bareUploads_batch (origin : Str) : ∃ files exports,
    uploadsOf bareLibraries Publication.routeJob bareSource bareArchive origin = some (bareUploads origin) ∧
      bareUploads origin = (Publication.batchOf Publication.routeJob files exports).map BatchObject.upload := by
  obtain ⟨files, exports, -, huploads⟩ :=
    uploadsOf_batch bareLibraries Publication.routeJob bareSource bareArchive origin
  refine ⟨files, exports, ?_⟩
  rw [bareUploads, huploads]
  exact ⟨rfl, rfl⟩

def isAccepted (answer : Except Str Response) : Bool :=
  match answer with
  | .error _ => false
  | .ok response => response.ok

theorem bareUploads_refused : isAccepted (Program.run available
    (publishUploads ((bareUploads localOrigin).map uploadJson))
    (written ObjectStore.empty ((bareUploads deployedOrigin).take 2))).1 = false := by decide +kernel

/-- What the one caller left half published, the other can never finish. -/
theorem otherOrigin_refused : ∃ (libraries : Libraries) (job : Materializer.MaterializationJob)
    (source : SourceRepository) (archive : Bytes) (origin origin' : Str)
    (first second : List BatchedArtifact), IsAllocated job ∧
      uploadsOf libraries job source archive origin = some first ∧
      uploadsOf libraries job source archive origin' = some second ∧ first ≠ second ∧
      ¬ FinishedBy first second := by
  obtain ⟨-, -, hfirst, -⟩ := bareUploads_batch deployedOrigin
  obtain ⟨files, exports, hsecond, hbatch⟩ := bareUploads_batch localOrigin
  have hfails : (sourcePackage bareLibraries bareArchive
      (requestFrom Publication.routeJob bareSource deployedOrigin)).toBool = false := by decide +kernel
  refine ⟨bareLibraries, Publication.routeJob, bareSource, bareArchive, deployedOrigin, localOrigin, _, _,
    Publication.routeJob_isAllocated, hfirst, hsecond, ?_, ?_⟩
  · intro hsame
    cases h : sourcePackage bareLibraries bareArchive
        (requestFrom Publication.routeJob bareSource deployedOrigin) with
    | ok package =>
      rw [h] at hfails
      cases hfails
    | error failure =>
      have horigin : deployedOrigin = localOrigin := by
        apply uploadsOf_yanked_inj bareLibraries Publication.routeJob bareSource bareArchive h
        rw [hfirst, hsecond, hsame]
      exact absurd horigin (by decide)
  · intro hfinished
    obtain ⟨response, hrun, hok⟩ := hfinished ObjectStore.empty _ (List.take_prefix 2 _) (fun _ _ => rfl)
    have hread : publishArtifactBatch (batchRequest ((bareUploads localOrigin).map uploadJson))
        = publishUploads ((bareUploads localOrigin).map uploadJson) := by
      rw [hbatch, List.map_map]
      exact publishArtifactBatch_uploads (Publication.batchOf_ne_nil _ _ _)
    have hrefused := bareUploads_refused
    rw [← hread, hrun, isAccepted, hok] at hrefused
    cases hrefused

end Service
end JsrProxy
