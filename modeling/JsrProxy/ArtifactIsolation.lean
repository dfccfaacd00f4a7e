import JsrProxy.PublishedFiles
import JsrProxy.WorkerCalls

set_option autoImplicit false

/-!
# Isolation of artifacts

Neither scopes, names nor versions contain a slash, so the segments of a key tell
which package and version it belongs to, and whether it is a marker. No other version
writes it, and no other package's requests read it.
-/
namespace JsrProxy
open Publication

theorem splitOn_segment {segment : Str} (h : '/' ∉ segment) (rest : Str) :
    (segment ++ '/' :: rest).splitOn '/' = segment :: rest.splitOn '/' := by
  apply List.splitOn_append_cons_of_forall_mem_beq_eq_false _ '/' BEq.rfl rest
  rintro c hc
  exact beq_eq_false_iff_ne.2 fun he => h (he ▸ hc)

theorem splitOn_last {segment : Str} (h : '/' ∉ segment) : segment.splitOn '/' = [segment] := by
  have hjoin := List.splitOn_intercalate '/' (fun part (hp : part ∈ [segment]) => List.mem_singleton.1 hp ▸ h)
    (List.cons_ne_nil _ _)
  rwa [List.intercalate_singleton] at hjoin

structure PlainIdentity (identity : PackageName) : Prop where
  scope : '/' ∉ identity.scope
  name : '/' ∉ identity.name

theorem splitOn_versionPrefix {identity : PackageName} (h : PlainIdentity identity) (version rest : Str) :
    (versionPrefix identity version ++ rest).splitOn '/'
      = "synthetic".toList :: identity.scope :: identity.name :: (version ++ rest).splitOn '/' := by
  have hassoc : ∀ front scope name : Str, front ++ ['/'] ++ scope ++ '/' :: name ++ '/' :: version ++ rest
      = front ++ '/' :: (scope ++ '/' :: (name ++ '/' :: (version ++ rest))) := by simp
  have hform : versionPrefix identity version ++ rest = "synthetic".toList ++ '/' :: (identity.scope ++
      '/' :: (identity.name ++ '/' :: (version ++ rest))) := hassoc "synthetic".toList _ _
  rw [hform, splitOn_segment (by decide), splitOn_segment h.scope, splitOn_segment h.name]

theorem splitOn_markerKey {identity : PackageName} (h : PlainIdentity identity) {version : Str}
    (hversion : '/' ∉ version) : (markerKey identity version).splitOn '/' = ["synthetic".toList,
      identity.scope, identity.name, version ++ ".ready.json".toList] := by
  rw [markerKey, splitOn_versionPrefix h, splitOn_last]
  intro hc
  rcases List.mem_append.1 hc with hc | hc
  · exact hversion hc
  · exact absurd hc (by decide)

theorem splitOn_metadata {identity : PackageName} (h : PlainIdentity identity) {version : Str}
    (hversion : '/' ∉ version) : (versionPrefix identity version ++ "_meta.json".toList).splitOn '/' =
      ["synthetic".toList, identity.scope, identity.name, version ++ "_meta.json".toList] := by
  rw [splitOn_versionPrefix h, splitOn_last]
  intro hc
  rcases List.mem_append.1 hc with hc | hc
  · exact hversion hc
  · exact absurd hc (by decide)

theorem splitOn_below {identity : PackageName} (h : PlainIdentity identity) {version : Str}
    (hversion : '/' ∉ version) (rest : Str) : (versionPrefix identity version ++ '/' :: rest).splitOn '/' =
      "synthetic".toList :: identity.scope :: identity.name :: version :: rest.splitOn '/' := by
  rw [splitOn_versionPrefix h, splitOn_segment hversion]

theorem marker_ne_metadata (version version' : Str) :
    version ++ ".ready.json".toList ≠ version' ++ "_meta.json".toList := by
  intro h
  have hsplit : version ++ ".ready.json".toList = (version ++ ['.']) ++ "ready.json".toList := by
    rw [List.append_assoc]
    rfl
  have hlength : "ready.json".toList.length = "_meta.json".toList.length := by decide
  have hne : "ready.json".toList ≠ "_meta.json".toList := by decide
  rw [hsplit] at h
  exact hne (List.append_inj' h hlength).2

theorem not_slash_of_isScope {scope : Str} (h : Identity.isScope scope = true) : '/' ∉ scope := by
  intro hc
  have hchar := (Identity.isScope_chars h).2 _ hc
  rw [Identity.isNameChar_slash] at hchar
  cases hchar

theorem R2Publication.IsAllocated.plain {job : Materializer.MaterializationJob}
    (h : R2Publication.IsAllocated job) : PlainIdentity job.package ∧ '/' ∉ job.version := by
  refine ⟨⟨not_slash_of_isScope h.scope, not_slash_of_isScope h.name⟩, ?_⟩
  exact (R2Publication.urlSegment_version h).key.not_mem.1

theorem isVersionKey_segments {job : Materializer.MaterializationJob} (h : R2Publication.IsAllocated job)
    {key : Str} (hkey : IsVersionKey job key) : ∃ segment rest, key.splitOn '/' = "synthetic".toList ::
      job.package.scope :: job.package.name :: segment :: rest ∧
      (rest = [] ∧ (segment = job.version ++ "_meta.json".toList ∨
        segment = job.version ++ ".ready.json".toList) ∨ rest ≠ [] ∧ segment = job.version) := by
  obtain ⟨hplain, hversion⟩ := h.plain
  rcases hkey with rfl | rfl | ⟨path, rfl⟩
  · exact ⟨_, _, splitOn_metadata hplain hversion, .inl ⟨rfl, .inl rfl⟩⟩
  · exact ⟨_, _, splitOn_markerKey hplain hversion, .inl ⟨rfl, .inr rfl⟩⟩
  · exact ⟨_, _, splitOn_below hplain hversion path, .inr ⟨List.splitOn_ne_nil _ _, rfl⟩⟩

/-- A key belongs to one version. -/
theorem isVersionKey_unique {job job' : Materializer.MaterializationJob} (h : R2Publication.IsAllocated job)
    (h' : R2Publication.IsAllocated job') {key : Str} (hkey : IsVersionKey job key)
    (hkey' : IsVersionKey job' key) : job.package = job'.package ∧ job.version = job'.version := by
  obtain ⟨segment, rest, hsplit, hform⟩ := isVersionKey_segments h hkey
  obtain ⟨segment', rest', hsplit', hform'⟩ := isVersionKey_segments h' hkey'
  rw [hsplit] at hsplit'
  simp only [List.cons.injEq, true_and] at hsplit'
  obtain ⟨hscope, hname, rfl, rfl⟩ := hsplit'
  refine ⟨?_, ?_⟩
  · cases hpackage : job.package
    cases hpackage' : job'.package
    rw [hpackage, hpackage'] at hscope hname
    exact congrArg₂ PackageName.mk hscope hname
  · rcases hform with ⟨hrest, hform⟩ | ⟨hrest, hform⟩
    · rcases hform' with ⟨-, hform'⟩ | ⟨hrest', -⟩
      · rcases hform with rfl | rfl
        · rcases hform' with hform' | hform'
          · exact List.append_cancel_right hform'
          · exact absurd hform'.symm (marker_ne_metadata _ _)
        · rcases hform' with hform' | hform'
          · exact absurd hform' (marker_ne_metadata _ _)
          · exact List.append_cancel_right hform'
      · exact absurd hrest hrest'
    · rcases hform' with ⟨hrest', -⟩ | ⟨-, hform'⟩
      · exact absurd hrest' hrest
      · exact hform.symm.trans hform'

def uploadsOf (job : Materializer.MaterializationJob) (files : List ArtifactFile) (exports : BTreeMap Str) :
    List Service.BatchedArtifact :=
  (publish Service.batchedArtifactStore job [] files exports).2

theorem publishFiles_keys {job : Materializer.MaterializationJob} {manifest : BTreeMap ManifestEntry}
    {uploads : List Service.BatchedArtifact} {files : List ArtifactFile}
    (h : ∀ upload ∈ uploads, IsVersionKey job upload.key) :
    ∀ upload ∈ (publishFiles Service.batchedArtifactStore job manifest uploads files).2,
      IsVersionKey job upload.key := by
  induction files generalizing manifest uploads with
  | nil => exact h
  | cons file rest ih =>
    unfold publishFiles
    split
    · exact h
    · split_ifs
      · exact h
      · apply ih
        intro upload hupload
        rcases List.mem_append.1 hupload with hupload | hupload
        · exact h upload hupload
        · rw [List.mem_singleton.1 hupload]
          exact .inr (.inr ⟨file.path, rfl⟩)

theorem isVersionKey_of_upload {job : Materializer.MaterializationJob} {files : List ArtifactFile}
    {exports : BTreeMap Str} {upload : Service.BatchedArtifact} (h : upload ∈ uploadsOf job files exports) :
    IsVersionKey job upload.key := by
  have hfiles := @publishFiles_keys job ∅ [] files (fun _ hmem => absurd hmem List.not_mem_nil)
  unfold uploadsOf publish at h
  cases hpublished : publishFiles Service.batchedArtifactStore job ∅ [] files with
  | mk result uploads =>
    rw [hpublished] at h hfiles
    cases result with
    | error error => exact hfiles upload h
    | ok manifest =>
      rcases List.mem_append.1 h with h | h
      · rcases List.mem_append.1 h with h | h
        · exact hfiles upload h
        · rw [List.mem_singleton.1 h]
          exact .inl rfl
      · rw [List.mem_singleton.1 h]
        exact .inr (.inl rfl)

/-- An object is read under the path's identity: the marker of a version, or once it was
    found something of that version, which is no marker. No other package writes it. -/
def IsolatedRead (request : Request) (past : List WorkerExchange) (key : Str) : Prop :=
  ∃ identity version, Worker.requestedIdentity request.url.pathname = some identity ∧
    version ≠ [] ∧ '/' ∉ version ∧
    "synthetic/".toList ++ identity.scope ++ '/' :: identity.name ++ ['/'] <+: key ∧
    (key = markerKey identity version ∨
      (key = versionPrefix identity version ++ "_meta.json".toList ∨
        ∃ rest, key = versionPrefix identity version ++ '/' :: rest) ∧
      (∃ marker : R2ObjectLike, (⟨(.get (markerKey identity version) : WorkerCall),
        (.ok (some marker) : Except Str (Option R2ObjectLike))⟩ : WorkerExchange) ∈ past) ∧
      ∀ job, R2Publication.IsAllocated job → key ≠ readyMarkerKey job) ∧
    ∀ job, R2Publication.IsAllocated job → IsVersionKey job key → job.package = identity

/-- Jobs for different versions have no key in common, and no file has the key of a marker
    or of metadata. -/
structure IsolatedWrites (job job' : Materializer.MaterializationJob) : Prop where
  disjoint : job.package ≠ job'.package ∨ job.version ≠ job'.version →
    ∀ files files' exports exports', ∀ upload ∈ uploadsOf job files exports,
      ∀ upload' ∈ uploadsOf job' files' exports', upload.key ≠ upload'.key
  unforged : ∀ path, fileKey job path ≠ readyMarkerKey job' ∧ fileKey job path ≠ metadataKey job'

theorem plainIdentity_requested {pathname : Str} {identity : PackageName}
    (h : Worker.requestedIdentity pathname = some identity) : PlainIdentity identity := by
  obtain ⟨⟨_, _, input, -, hscope⟩, hname⟩ := Worker.requestedIdentity_some h
  constructor
  · rw [hscope]
    intro hc
    have hchar := List.mem_takeWhile_imp hc
    rw [Identity.isNameChar_slash] at hchar
    cases hchar
  · unfold Identity.proxyableRepositoryName at hname
    dsimp only at hname
    split_ifs at hname with hvalid
    rw [← Option.some.inj hname]
    exact not_slash_of_isScope hvalid.1

theorem contentKey_ne_marker {identity : PackageName} (h : PlainIdentity identity) {version key : Str}
    (hversion : '/' ∉ version) (hkey : IsContentKey identity version key)
    {job : Materializer.MaterializationJob} (hjob : R2Publication.IsAllocated job) :
    key ≠ readyMarkerKey job := by
  obtain ⟨hplain, hjobVersion⟩ := hjob.plain
  have hmarker := splitOn_markerKey hplain hjobVersion
  rintro rfl
  change markerKey job.package job.version = _ ∨ ∃ rest, markerKey job.package job.version = _ at hkey
  rcases hkey with hkey | ⟨rest, hkey⟩
  · rw [hkey, splitOn_metadata h hversion] at hmarker
    simp only [List.cons.injEq, true_and, and_true] at hmarker
    exact marker_ne_metadata _ _ hmarker.2.2.symm
  · rw [hkey, splitOn_below h hversion] at hmarker
    simp only [List.cons.injEq, true_and] at hmarker
    exact List.splitOn_ne_nil _ _ hmarker.2.2.2

theorem versionKey_package {identity : PackageName} (h : PlainIdentity identity) {version rest : Str}
    {job : Materializer.MaterializationJob} (hjob : R2Publication.IsAllocated job)
    (hkey : IsVersionKey job (versionPrefix identity version ++ rest)) : job.package = identity := by
  obtain ⟨segment, rest', hsplit, -⟩ := isVersionKey_segments hjob hkey
  rw [splitOn_versionPrefix h] at hsplit
  simp only [List.cons.injEq, true_and] at hsplit
  cases hpackage : job.package
  rw [hpackage] at hsplit
  cases identity
  exact congrArg₂ PackageName.mk hsplit.1.symm hsplit.2.1.symm

theorem isolatedRead_of_readFor {identity : PackageName} {request : Request} {past : List WorkerExchange}
    {key : Str} (hidentity : Worker.requestedIdentity request.url.pathname = some identity)
    (h : ReadFor identity past key) : IsolatedRead request past key := by
  have hplain := plainIdentity_requested hidentity
  obtain ⟨version, hne, hversion, hread⟩ := h
  have hassoc : ∀ front scope name rest : Str, front ++ scope ++ '/' :: name ++ ['/'] ++ (version ++ rest)
      = front ++ scope ++ '/' :: name ++ '/' :: version ++ rest := by simp
  have hform : ∃ rest, key = versionPrefix identity version ++ rest := by
    rcases hread with rfl | ⟨rfl | ⟨rest, rfl⟩, -⟩
    · exact ⟨_, rfl⟩
    · exact ⟨_, rfl⟩
    · exact ⟨_, rfl⟩
  obtain ⟨rest, hrest⟩ := hform
  refine ⟨identity, version, hidentity, hne, hversion, ⟨version ++ rest, ?_⟩, ?_, ?_⟩
  · rw [hrest]
    exact hassoc _ _ _ _
  · rcases hread with hmarker | ⟨hcontent, hfound⟩
    · exact .inl hmarker
    · exact .inr ⟨hcontent, hfound, fun job hjob => contentKey_ne_marker hplain hversion hcontent hjob⟩
  · intro job hjob hkey
    rw [hrest] at hkey
    exact versionKey_package hplain hjob hkey

theorem isolatedWrites {job job' : Materializer.MaterializationJob} (hjob : R2Publication.IsAllocated job)
    (hjob' : R2Publication.IsAllocated job') : IsolatedWrites job job' where
  disjoint hne files files' exports exports' upload hupload upload' hupload' hkey := by
    have hversion := isVersionKey_of_upload hupload
    rw [hkey] at hversion
    obtain ⟨hpackage, hsame⟩ := isVersionKey_unique hjob hjob' hversion (isVersionKey_of_upload hupload')
    rcases hne with hne | hne
    · exact hne hpackage
    · exact hne hsame
  unforged path := by
    obtain ⟨hplain, hversion⟩ := hjob.plain
    obtain ⟨hplain', hversion'⟩ := hjob'.plain
    have hfile := splitOn_below hplain hversion path
    constructor
    · intro hkey
      change versionPrefix job.package job.version ++ '/' :: path = markerKey job'.package job'.version at hkey
      rw [hkey, splitOn_markerKey hplain' hversion'] at hfile
      simp only [List.cons.injEq, true_and] at hfile
      exact List.splitOn_ne_nil _ _ hfile.2.2.2.symm
    · intro hkey
      change versionPrefix job.package job.version ++ '/' :: path
        = versionPrefix job'.package job'.version ++ "_meta.json".toList at hkey
      rw [hkey, splitOn_metadata hplain' hversion'] at hfile
      simp only [List.cons.injEq, true_and] at hfile
      exact List.splitOn_ne_nil _ _ hfile.2.2.2.symm

/-- Requests read what is their package's, and jobs write what is their version's. -/
theorem artifactsIsolated (env : WorkerEnv) (now : ℤ) (request : Request)
    (answer : List WorkerExchange → (call : outsideCalls.Op) → outsideCalls.Ret call)
    {job job' : Materializer.MaterializationJob} (hjob : R2Publication.IsAllocated job)
    (hjob' : R2Publication.IsAllocated job') :
    (∀ past key, (past, .get key) ∈ (Worker.fetch env now request).calls (Program.recording answer) [] →
      IsolatedRead request past key) ∧ IsolatedWrites job job' := by
  refine ⟨?_, isolatedWrites hjob hjob'⟩
  intro past key hmem
  rcases Worker.fetch_cases env now request with ⟨result, hfetch⟩ | hfalls | hserved
  · rw [hfetch] at hmem
    exact absurd hmem List.not_mem_nil
  · rw [Worker.fetch_fallsThrough hfalls] at hmem
    obtain ⟨forwarded, hcall⟩ := (Worker.within_fallThrough request []).calls answer _ hmem
    cases hcall
  · obtain ⟨config, identity, scope, -, hidentity, -, hfetch⟩ := hserved
    rw [hfetch] at hmem
    have hname := (Worker.requestedIdentity_some hidentity).2
    obtain ⟨-, hread⟩ := (@Worker.within_servePackage env request identity [] now scope hname).calls answer _ hmem
    exact isolatedRead_of_readFor hidentity hread

def laterJob : Materializer.MaterializationJob := { routeJob with version := "0.1.8".toList }

theorem laterJob_isAllocated : R2Publication.IsAllocated laterJob :=
  ⟨by decide, by decide, 0, 8, by decide, by decide, by decide⟩

def routeRequest : Request := { widgetRequest with
  url := { widgetRequest.url with pathname := "/@acme/widget/0.1.7_meta.json".toList } }

def keysRead (calls : List (List WorkerExchange × WorkerCall)) : List Str :=
  calls.filterMap fun met =>
    match met.2 with
    | .get key => some key
    | _ => none

theorem artifactsIsolated_route :
    keysRead ((Worker.fetch acmeEnv 0 routeRequest).calls (@Program.recording outsideCalls grantAll) []) =
      ["synthetic/acme/widget/0.1.7.ready.json".toList, "synthetic/acme/widget/0.1.7_meta.json".toList] ∧
    (∀ past key, (past, .get key) ∈ (Worker.fetch acmeEnv 0 routeRequest).calls
        (@Program.recording outsideCalls grantAll) [] → IsolatedRead routeRequest past key) ∧
      IsolatedWrites routeJob laterJob :=
  ⟨by decide +kernel, artifactsIsolated acmeEnv 0 routeRequest grantAll routeJob_isAllocated laterJob_isAllocated⟩

end JsrProxy
