import JsrProxy.MaterializedPackages

set_option autoImplicit false

/-!
# Complete batches

Whatever archive a job comes with, its materialization answers one batch for the
version, of a package or of a tombstone.
-/
namespace JsrProxy
namespace Service

/-- The uploads are those of the files, with the metadata and the marker behind them. -/
structure CompleteBatch (job : Materializer.MaterializationJob) (files : List ArtifactFile)
    (uploads : List BatchedArtifact) : Prop where
  keys : uploads.map BatchedArtifact.key =
    files.map (fun file => Publication.packageKeyPrefix job ++ '/' :: file.path) ++
      [Publication.packageKeyPrefix job ++ "_meta.json".toList,
        Publication.packageKeyPrefix job ++ ".ready.json".toList]
  distinct : (uploads.map BatchedArtifact.key).Nodup
  encoded : ∀ upload ∈ uploads, ∃ bytes, Base64.decode upload.body = some bytes ∧
    upload.sha256 = Publication.sha256Hex bytes
  contents : (uploads.take files.length).map (fun upload => Base64.decode upload.body) =
    files.map fun file => some file.bytes

/-- What the files of a package that is ready satisfy. -/
structure PackageFiles (files : List ArtifactFile) : Prop where
  accepted : ∀ file ∈ files, validatePackagePath file.path = .ok ()
  distinct : (files.map fun file => toAsciiLowercase file.path).Nodup
  configured : "deno.json".toList ∈ files.map ArtifactFile.path
  converted : "jsr.json".toList ∉ files.map ArtifactFile.path
  totalLimit : (files.map fun file => file.bytes.length).sum ≤ 20 * 1024 * 1024

theorem batchOf_complete (job : Materializer.MaterializationJob) {files : List ArtifactFile}
    (exports : BTreeMap Str) (h : Publishable files) :
    CompleteBatch job files ((Publication.batchOf job files exports).map BatchObject.upload) where
  keys := by
    simp only [Publication.batchOf, List.map_append, List.map_map]
    rfl
  distinct := by
    rw [List.map_map]
    exact Publication.batchOf_keys_nodup job exports h.distinct
  encoded upload hupload := by
    obtain ⟨object, -, rfl⟩ := List.mem_map.1 hupload
    exact ⟨object.bytes, object.decode_upload, rfl⟩
  contents := by
    have hfiles : files.length = ((files.map (Publication.fileObject job)).map BatchObject.upload).length := by
      rw [List.length_map, List.length_map]
    rw [Publication.batchOf, List.map_append, hfiles, List.take_left, List.map_map, List.map_map]
    apply List.map_congr_left
    intro file _
    exact BatchObject.decode_upload _

theorem packaged_mem (job : Materializer.MaterializationJob) (files : BTreeMap Bytes)
    (config : SourceConfiguration) :
    "deno.json".toList ∈ packaged job files config ∧ "jsr.json".toList ∉ packaged job files config := by
  constructor
  · exact Std.ExtTreeMap.mem_insert_self
  · unfold packaged
    rw [Std.ExtTreeMap.mem_insert, not_or]
    refine ⟨by decide, ?_⟩
    rw [Std.ExtTreeMap.mem_erase]
    rintro ⟨hne, -⟩
    exact hne Std.ReflCmp.compare_self

theorem artifactFiles_path {files : BTreeMap Bytes} {path : Str} :
    path ∈ (artifactFiles files).map ArtifactFile.path ↔ path ∈ files := by
  rw [artifactFiles, List.map_map, ← Std.ExtTreeMap.isSome_getElem?_iff_mem, Option.isSome_iff_exists]
  constructor
  · intro h
    obtain ⟨entry, hentry, rfl⟩ := List.mem_map.1 h
    exact ⟨entry.2, Std.ExtTreeMap.mem_toList_iff_getElem?_eq_some.1 hentry⟩
  · rintro ⟨contents, h⟩
    exact List.mem_map.2 ⟨(path, contents), Std.ExtTreeMap.mem_toList_iff_getElem?_eq_some.2 h, rfl⟩

theorem packageFiles_files {libraries : Libraries} {input : MaterializationRequest}
    {files : BTreeMap Bytes} {package : List ArtifactFile × BTreeMap Str}
    (h : packageFiles libraries input files = .ok package) : PackageFiles package.1 := by
  obtain ⟨_, config, files', _, _, _, _, hlimits, rfl⟩ := (packageFiles_ok _ _ _ _).1 h
  have hwithin := (validateOutputLimits_ok _).1 hlimits
  obtain ⟨hdeno, hjsr⟩ := packaged_mem input.job files' config
  refine ⟨(artifactFiles_publishable hlimits).accepted, ?_, artifactFiles_path.2 hdeno,
    fun hmem => hjsr (artifactFiles_path.1 hmem), ?_⟩
  · rw [artifactFiles, List.map_map]
    exact hwithin.distinct
  · rw [artifactFiles, List.map_map]
    exact hwithin.totalLimit

theorem sourcePackage_files {libraries : Libraries} {input : MaterializationRequest} {archive : Bytes}
    {package : List ArtifactFile × BTreeMap Str}
    (h : sourcePackage libraries archive input = .ok package) : PackageFiles package.1 := by
  unfold sourcePackage at h
  cases hu : unpackArchive libraries.entries archive with
  | error failure => simp only [hu, reduceCtorEq] at h
  | ok files =>
    simp only [hu] at h
    exact packageFiles_files h

/-- A run answers a complete batch: ready with that of the package if the sources make
    one, else yanked. -/
theorem runMaterialization_complete (libraries : Libraries) (input : MaterializationRequest)
    (archive : Bytes) : ∃ outcome files, runMaterialization libraries input archive = .ok outcome ∧
      CompleteBatch input.job files outcome.uploads ∧
      ((∃ uploads, outcome = .ready uploads) ↔
        ∃ package, sourcePackage libraries archive input = .ok package) ∧
      ((∃ diagnostic uploads, outcome = .yanked diagnostic uploads) ↔
        ∃ failure, sourcePackage libraries archive input = .error failure) ∧
      ∀ package, sourcePackage libraries archive input = .ok package →
        files = package.1 ∧ PackageFiles files := by
  cases h : sourcePackage libraries archive input with
  | ok package =>
    refine ⟨_, package.1, runMaterialization_ready _ _ _ h,
      batchOf_complete input.job package.2 (sourcePackage_publishable h), ?_, ?_, ?_⟩
    · simp
    · simp
    · intro other hother
      obtain rfl := Except.ok.inj hother
      exact ⟨rfl, sourcePackage_files h⟩
  | error failure =>
    refine ⟨_, (tombstoneOf failure input).files, runMaterialization_yanked _ _ _ h,
      batchOf_complete input.job _ (tombstone_publishable failure input), ?_, ?_, ?_⟩
    · simp
    · simp
    · intro other hother
      cases hother

end Service
end JsrProxy
