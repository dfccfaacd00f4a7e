import JsrProxy.CompleteBatches
import JsrProxy.DamagedTransfers

set_option autoImplicit false

/-!
# Published exports

The export maps that materialization publishes. Export targets are looked up in the
sources, from which `jsr.json` is removed afterwards, and a package that breaks the
output limits becomes a tombstone without the export keys of its sources.
-/
namespace JsrProxy

theorem toOption_eq_some {ε α : Type} {result : Except ε α} {value : α} :
    result.toOption = some value ↔ result = .ok value := by
  cases result with
  | error error => simp [Except.toOption]
  | ok other => simp [Except.toOption]

namespace Publication

theorem mem_manifestOf (files : List ArtifactFile) (path : Str) :
    ('/' :: path) ∈ manifestOf files ↔ path ∈ files.map ArtifactFile.path := by
  have hfold : ∀ manifest : BTreeMap ManifestEntry, ('/' :: path) ∈ files.foldl (fun manifest file =>
      manifest.insert ('/' :: file.path) (manifestEntry file.bytes)) manifest ↔
        ('/' :: path) ∈ manifest ∨ path ∈ files.map ArtifactFile.path := by
    induction files with
    | nil => simp
    | cons file rest ih =>
      intro manifest
      have hcompare : compare ('/' :: file.path) ('/' :: path) = .eq ↔ path = file.path := by
        rw [Std.LawfulEqCmp.compare_eq_iff_eq, List.cons.injEq, eq_comm (a := file.path)]
        simp
      rw [List.foldl_cons, ih, Std.ExtTreeMap.mem_insert, hcompare, List.map_cons, List.mem_cons]
      tauto
  rw [manifestOf, hfold]
  simp

end Publication

namespace Service

/-- The configuration that `source_package` reads, with the files it is the root of. -/
def Configured (libraries : Libraries) (archive : Bytes) (files : BTreeMap Bytes)
    (config : SourceConfiguration) : Prop :=
  unpackArchive libraries.entries archive = .ok files ∧ ∃ path, configPath files = some path ∧
    parseRootConfiguration libraries.configuration (files.getD path []) = .ok config

variable (libraries : Libraries) (input : MaterializationRequest) (archive : Bytes)

theorem sourcePackage_ok (package : List ArtifactFile × BTreeMap Str) :
    sourcePackage libraries archive input = .ok package ↔ ∃ files config files',
      Configured libraries archive files config ∧ rewritten libraries.ast files config = .ok files' ∧
      missingExport files' config = none ∧ validateOutputLimits (packaged input.job files' config) = .ok () ∧
      package = (artifactFiles (packaged input.job files' config), config.exports) := by
  unfold sourcePackage
  cases hu : unpackArchive libraries.entries archive with
  | error failure => simp [Configured, hu]
  | ok files =>
    dsimp only
    rw [packageFiles_ok]
    constructor
    · rintro ⟨path, config, files', hpath, hconfig, hrest⟩
      exact ⟨files, config, files', ⟨hu, path, hpath, hconfig⟩, hrest⟩
    · rintro ⟨other, config, files', ⟨hother, path, hpath, hconfig⟩, hrest⟩
      rw [hu, Except.ok.injEq] at hother
      subst hother
      exact ⟨path, config, files', hpath, hconfig, hrest⟩

theorem mem_packaged (job : Materializer.MaterializationJob) (files : BTreeMap Bytes)
    (config : SourceConfiguration) (path : Str) : path ∈ packaged job files config ↔
      path = "deno.json".toList ∨ path ∈ files ∧ path ≠ "jsr.json".toList := by
  by_cases hdeno : path = "deno.json".toList
  · have hmem : path ∈ packaged job files config := by
      rw [hdeno]
      exact (packaged_mem job files config).1
    exact iff_of_true hmem (.inl hdeno)
  · have hcompare : ∀ key : Str, compare key path = .eq ↔ path = key := by
      intro key
      rw [Std.LawfulEqCmp.compare_eq_iff_eq, eq_comm]
    rw [packaged, Std.ExtTreeMap.mem_insert, Std.ExtTreeMap.mem_erase, Std.ExtTreeMap.mem_erase]
    simp only [hcompare, hdeno, false_or, ne_eq, not_false_eq_true, true_and, and_comm]

/-- The exports of a package are files of it, unless one is the `jsr.json` that the
    emitted `deno.json` replaces. -/
theorem exports_exist_iff (package : List ArtifactFile × BTreeMap Str)
    (hpackage : sourcePackage libraries archive input = .ok package) :
    ∃ files config result uploads, Configured libraries archive files config ∧
      Publication.publish batchedArtifactStore input.job [] package.1 package.2 = (.ok result, uploads) ∧
      ((∀ key target : Str, package.2[key]? = some target →
          trimStartMatches target ∈ package.1.map ArtifactFile.path ∧
          ('/' :: trimStartMatches target) ∈ result.metadata.manifest) ↔
        ∀ key target : Str, config.exports[key]? = some target →
          trimStartMatches target ≠ "jsr.json".toList) := by
  have hpublishable := sourcePackage_publishable hpackage
  obtain ⟨files, config, files', hconfig, hfiles, hmissing, hlimits, rfl⟩ :=
    (sourcePackage_ok _ _ _ _).1 hpackage
  refine ⟨files, config, _, _, hconfig, Publication.publish_batched input.job _ config.exports
    hpublishable.accepted hpublishable.distinct, ?_⟩
  have hpresent : ∀ key target : Str, config.exports[key]? = some target →
      trimStartMatches target ∈ files' := by
    intro key target htarget
    exact missingExport_none.1 hmissing (key, target)
      (Std.ExtTreeMap.mem_toList_iff_getElem?_eq_some.2 htarget)
  have hlisted : ∀ path, ('/' :: path) ∈ (Publication.metadataOf input.job
      (Publication.manifestOf (artifactFiles (packaged input.job files' config)))
      config.exports).manifest ↔ path ∈ packaged input.job files' config := by
    intro path
    exact (Publication.mem_manifestOf _ _).trans artifactFiles_path
  simp only [hlisted, artifactFiles_path, mem_packaged, and_self]
  constructor
  · intro h key target htarget
    rcases h key target htarget with hdeno | ⟨-, hjsr⟩
    · rw [hdeno]
      decide
    · exact hjsr
  · intro h key target htarget
    exact .inr ⟨hpresent key target htarget, h key target htarget⟩

/-- The gzip file of a tar archive with `widget-abc/jsr.json`, which exports itself. -/
def selfExportArchive : Bytes :=
  [31, 139, 8, 0, 0, 0, 0, 0, 2, 255, 43, 207, 76, 73, 79, 45, 209, 77, 76, 74, 214, 207, 42, 46,
    210, 203, 42, 206, 207, 99, 160, 54, 48, 0, 2, 51, 19, 19, 48, 13, 4, 232, 180, 129, 129, 49,
    18, 27, 36, 110, 104, 104, 98, 108, 202, 160, 96, 192, 64, 7, 80, 90, 92, 146, 88, 4, 180, 158,
    97, 100, 130, 106, 165, 212, 138, 130, 252, 162, 146, 98, 37, 43, 37, 61, 120, 18, 80, 170, 101,
    24, 5, 163, 96, 20, 140, 130, 81, 48, 172, 1, 0, 2, 215, 190, 0, 0, 8, 0, 0]

def selfExportConfiguration : Bytes := Utf8.encode "\x7b\"exports\":\"./jsr.json\"\x7d".toList

def selfExportLibraries : Libraries where
  entries bytes :=
    if bytes = selfExportArchive then
      some [some ⟨Utf8.encode "widget-abc/jsr.json".toList, .regular, some 24, selfExportConfiguration, false⟩]
    else none
  configuration bytes :=
    if bytes = selfExportConfiguration then .ok ⟨some (.string "./jsr.json".toList), ∅⟩
    else .error "expected value at line 1 column 1".toList
  ast := widgetLibraries.ast

theorem selfExport_ok : ∃ package,
    sourcePackage selfExportLibraries selfExportArchive widgetRequest = .ok package ∧
      package.1.map ArtifactFile.path = ["deno.json".toList] ∧
      package.2[".".toList]? = some "./jsr.json".toList := by
  have hrun : (sourcePackage selfExportLibraries selfExportArchive widgetRequest).toOption.map
      (fun package => (package.1.map ArtifactFile.path, package.2[".".toList]?)) =
        some (["deno.json".toList], some "./jsr.json".toList) := by
    decide +kernel
  obtain ⟨package, hpackage, heq⟩ := Option.map_eq_some_iff.1 hrun
  rw [Prod.mk.injEq] at heq
  exact ⟨package, toOption_eq_some.1 hpackage, heq.1, heq.2⟩

theorem exports_exist_iff_selfExport : ∃ package,
    sourcePackage selfExportLibraries selfExportArchive widgetRequest = .ok package ∧
    ∃ files config result uploads, Configured selfExportLibraries selfExportArchive files config ∧
      Publication.publish batchedArtifactStore widgetRequest.job [] package.1 package.2
        = (.ok result, uploads) ∧
      ((∀ key target : Str, package.2[key]? = some target →
          trimStartMatches target ∈ package.1.map ArtifactFile.path ∧
          ('/' :: trimStartMatches target) ∈ result.metadata.manifest) ↔
        ∀ key target : Str, config.exports[key]? = some target →
          trimStartMatches target ≠ "jsr.json".toList) := by
  obtain ⟨package, hpackage, -, -⟩ := selfExport_ok
  exact ⟨package, hpackage,
    exports_exist_iff selfExportLibraries widgetRequest selfExportArchive package hpackage⟩

/-- A package whose one export was `jsr.json` is ready without it. -/
theorem export_removed : ∃ (libraries : Libraries) (input : MaterializationRequest) (archive : Bytes)
    (package : List ArtifactFile × BTreeMap Str) (key target : Str),
    sourcePackage libraries archive input = .ok package ∧ package.2[key]? = some target ∧
      trimStartMatches target ∉ package.1.map ArtifactFile.path := by
  obtain ⟨package, hpackage, hpaths, hexport⟩ := selfExport_ok
  refine ⟨selfExportLibraries, widgetRequest, selfExportArchive, package, _, _, hpackage, hexport, ?_⟩
  rw [hpaths]
  decide

def FailsBeforeLimits (libraries : Libraries) (files : BTreeMap Bytes) (config : SourceConfiguration) :
    Prop :=
  (∃ message, rewritten libraries.ast files config = .error message) ∨
    ∃ files' path, rewritten libraries.ast files config = .ok files' ∧
      missingExport files' config = some path

theorem validateFiles_exports {seen : BTreeMap Str} {total : ℕ} (files : List (Str × Bytes))
    {failure : SourceFailure} (h : validateFiles seen total files = .error failure) :
    failure.exports = none := by
  induction files generalizing seen total with
  | nil => cases h
  | cons file rest ih =>
    obtain ⟨path, contents⟩ := file
    unfold validateFiles at h
    cases hv : validatePackagePath path with
    | error failure' =>
      simp only [hv, Except.error.injEq] at h
      rw [← h]
      unfold validatePackagePath at hv
      split_ifs at hv
      rw [← Except.error.inj hv]
      rfl
    | ok =>
      cases hs : seen[toAsciiLowercase path]? with
      | some existing =>
        simp only [hv, hs, Except.error.injEq] at h
        rw [← h]
        rfl
      | none =>
        simp only [hv, hs] at h
        split_ifs at h with hsize hsum
        · rw [← Except.error.inj h]
        · rw [← Except.error.inj h]
        · exact ih h

theorem validateOutputLimits_exports {files : BTreeMap Bytes} {failure : SourceFailure}
    (h : validateOutputLimits files = .error failure) : failure.exports = none := by
  unfold validateOutputLimits at h
  cases hv : validateFiles ∅ 0 files.toList with
  | error failure' =>
    simp only [hv, Except.error.injEq] at h
    rw [← h]
    exact validateFiles_exports _ hv
  | ok total =>
    simp only [hv] at h
    split_ifs at h
    rw [← Except.error.inj h]

theorem sourcePackage_configured {files : BTreeMap Bytes} {config : SourceConfiguration}
    {failure : SourceFailure} (hconfig : Configured libraries archive files config)
    (h : sourcePackage libraries archive input = .error failure) :
    FailsBeforeLimits libraries files config ∧ failure.exports = some config.exports ∨
      ¬ FailsBeforeLimits libraries files config ∧ failure.exports = none := by
  obtain ⟨hu, path, hpath, hparse⟩ := hconfig
  simp only [sourcePackage, packageFiles, hu, hpath, hparse] at h
  unfold FailsBeforeLimits
  cases hr : rewritten libraries.ast files config with
  | error message =>
    simp only [hr, Except.error.injEq] at h
    rw [← h]
    exact .inl ⟨.inl ⟨message, rfl⟩, rfl⟩
  | ok files' =>
    simp only [hr] at h
    cases hm : missingExport files' config with
    | some absent =>
      simp only [hm, Except.error.injEq] at h
      rw [← h]
      exact .inl ⟨.inr ⟨files', absent, rfl, hm⟩, rfl⟩
    | none =>
      simp only [hm] at h
      cases hl : validateOutputLimits (packaged input.job files' config) with
      | ok => simp only [hl, reduceCtorEq] at h
      | error failure' =>
        simp only [hl, Except.error.injEq] at h
        rw [← h]
        refine .inr ⟨?_, validateOutputLimits_exports hl⟩
        rintro (⟨message, hmessage⟩ | ⟨files'', absent, hfiles, habsent⟩)
        · cases hmessage
        · rw [← Except.ok.inj hfiles, hm] at habsent
          cases habsent

theorem validatePackagePath_exports {path : Str} {failure : SourceFailure}
    (h : validatePackagePath path = .error failure) : failure.exports = none := by
  unfold validatePackagePath at h
  split_ifs at h
  rw [← Except.error.inj h]
  rfl

theorem unpackFile_exports {state : Unpacking} {entry : TarEntry} {relative : Str}
    {failure : SourceFailure} (h : unpackFile state entry relative = .error failure) :
    failure.exports = none := by
  unfold unpackFile at h
  cases hsize : entry.size with
  | none =>
    simp only [hsize, Except.error.injEq] at h
    rw [← h]
    rfl
  | some size =>
    cases hread : entry.read (maxSourceFileBytes + 1) with
    | none =>
      simp only [hsize, hread] at h
      split_ifs at h
      · rw [← Except.error.inj h]
      · rw [← Except.error.inj h]
      · rw [← Except.error.inj h]
        rfl
    | some contents =>
      cases hseen : state.caseInsensitivePaths[toAsciiLowercase relative]? with
      | some existing =>
        simp only [hsize, hread, hseen] at h
        split_ifs at h <;> rw [← Except.error.inj h] <;> rfl
      | none =>
        simp only [hsize, hread, hseen] at h
        split_ifs at h <;> rw [← Except.error.inj h] <;> rfl

theorem unpackEntry_exports {state : Unpacking} {entry : TarEntry} {failure : SourceFailure}
    (h : unpackEntry state entry = .error failure) : failure.exports = none := by
  unfold unpackEntry at h
  cases hp : entryPath entry with
  | error failure' =>
    simp only [hp, Except.error.injEq] at h
    rw [← h]
    unfold entryPath at hp
    split at hp
    · rw [← Except.error.inj hp]
      rfl
    · split at hp
      · rw [← Except.error.inj hp]
        rfl
      · split_ifs at hp <;> rw [← Except.error.inj hp] <;> rfl
  | ok parts =>
    obtain ⟨root, relative⟩ := parts
    simp only [hp] at h
    cases hr : enterRoot state root with
    | error failure' =>
      simp only [hr, Except.error.injEq] at h
      rw [← h]
      unfold enterRoot at hr
      split at hr
      · split_ifs at hr
        rw [← Except.error.inj hr]
        rfl
      · cases hr
    | ok entered =>
      simp only [hr] at h
      unfold unpackBelowRoot at h
      cases hv : validatePackagePath (['/'].intercalate relative) with
      | error failure' =>
        simp only [hv] at h
        split_ifs at h
        · rw [← Except.error.inj h]
          rfl
        · rw [← Except.error.inj h]
          rfl
        · rw [← Except.error.inj h]
          exact validatePackagePath_exports hv
      | ok =>
        simp only [hv] at h
        split_ifs at h
        · rw [← Except.error.inj h]
          rfl
        · rw [← Except.error.inj h]
          rfl
        · rw [← Except.error.inj h]
          rfl
        · exact unpackFile_exports h

theorem unpackEntries_exports {state : Unpacking} (items : List (Option TarEntry))
    {failure : SourceFailure} (h : unpackEntries state items = .error failure) :
    failure.exports = none := by
  induction items generalizing state with
  | nil => cases h
  | cons item rest ih =>
    cases item with
    | none =>
      rw [← Except.error.inj h]
      rfl
    | some entry =>
      rw [unpackEntries] at h
      cases he : unpackEntry state entry with
      | error failure' =>
        simp only [he, Except.error.injEq] at h
        rw [← h]
        exact unpackEntry_exports he
      | ok after =>
        simp only [he] at h
        exact ih h

theorem sourcePackage_unconfigured {failure : SourceFailure}
    (hconfig : ¬ ∃ files config, Configured libraries archive files config)
    (h : sourcePackage libraries archive input = .error failure) : failure.exports = none := by
  unfold sourcePackage at h
  cases hu : unpackArchive libraries.entries archive with
  | error failure' =>
    simp only [hu, Except.error.injEq] at h
    rw [← h]
    unfold unpackArchive at hu
    cases hentries : libraries.entries archive with
    | none =>
      simp only [hentries, Except.error.injEq] at hu
      rw [← hu]
      rfl
    | some items =>
      simp only [hentries] at hu
      cases hi : unpackEntries .start items with
      | ok state =>
        rw [hi] at hu
        cases hu
      | error failure'' =>
        rw [hi] at hu
        rw [← Except.error.inj hu]
        exact unpackEntries_exports items hi
  | ok files =>
    simp only [hu, packageFiles] at h
    cases hpath : configPath files with
    | none =>
      simp only [hpath, Except.error.injEq] at h
      rw [← h]
    | some path =>
      simp only [hpath] at h
      cases hparse : parseRootConfiguration libraries.configuration (files.getD path []) with
      | error error =>
        simp only [hparse, Except.error.injEq] at h
        rw [← h]
      | ok config => exact absurd ⟨files, config, hu, path, hpath, hparse⟩ hconfig

theorem configured_exports {files : BTreeMap Bytes} {config : SourceConfiguration}
    (h : Configured libraries archive files config) : config.exports.isEmpty = false := by
  obtain ⟨-, path, -, hparse⟩ := h
  unfold parseRootConfiguration at hparse
  cases hraw : libraries.configuration (files.getD path []) with
  | error error => simp only [hraw, reduceCtorEq] at hparse
  | ok raw =>
    simp only [hraw] at hparse
    split_ifs at hparse with hnone
    cases he : JsrExports.exportsMapFromJson raw.exports with
    | error error => simp only [he, reduceCtorEq] at hparse
    | ok exports =>
      simp only [he] at hparse
      split_ifs at hparse with hempty
      rw [← Except.ok.inj hparse]
      exact Bool.eq_false_iff.2 hempty

theorem tombstoneExports_none (key : Str) :
    key ∈ Tombstone.tombstoneExports none ↔ key = ".".toList := by
  rw [Tombstone.tombstoneExports, Std.ExtTreeMap.mem_insert, Std.LawfulEqCmp.compare_eq_iff_eq,
    eq_comm]
  simp

theorem tombstoneExports_some {exports : BTreeMap Str} (h : exports.isEmpty = false) (key : Str) :
    key ∈ Tombstone.tombstoneExports (some exports) ↔ key ∈ exports := by
  simp only [Tombstone.tombstoneExports, h, Bool.false_eq_true, if_false, Std.ExtTreeMap.mem_map]

theorem tombstoneExports_target (exports : Option (BTreeMap Str)) (key target : Str)
    (h : (Tombstone.tombstoneExports exports)[key]? = some target) :
    target = "./".toList ++ Tombstone.failureModulePath := by
  have hdefault : ((∅ : BTreeMap Str).insert ".".toList
      ("./".toList ++ Tombstone.failureModulePath))[key]? = some target →
        target = "./".toList ++ Tombstone.failureModulePath := by
    intro hget
    rw [get_insert] at hget
    split_ifs at hget
    · exact (Option.some.inj hget).symm
    · simp at hget
  unfold Tombstone.tombstoneExports at h
  cases exports with
  | none => exact hdefault h
  | some exports =>
    dsimp only at h
    split_ifs at h
    · exact hdefault h
    · rw [Std.ExtTreeMap.getElem?_map, Option.map_eq_some_iff] at h
      obtain ⟨-, -, heq⟩ := h
      exact heq.symm

/-- A tombstone keeps the export keys of its sources if these fail before the output
    limits, or have the default export alone. -/
theorem tombstone_exports_iff (failure : SourceFailure)
    (hfailure : sourcePackage libraries archive input = .error failure) :
    runMaterialization libraries input archive = .ok (.yanked (diagnosticOf failure input)
      ((Publication.batchOf input.job (tombstoneOf failure input).files
        (tombstoneOf failure input).exports).map BatchObject.upload)) ∧
    Tombstone.failureModulePath ∈ (tombstoneOf failure input).files.map ArtifactFile.path ∧
    (∀ key target : Str, (tombstoneOf failure input).exports[key]? = some target →
      target = "./".toList ++ Tombstone.failureModulePath) ∧
    (∀ files config, Configured libraries archive files config →
      ((∀ key, key ∈ (tombstoneOf failure input).exports ↔ key ∈ config.exports) ↔
        FailsBeforeLimits libraries files config ∨ ∀ key, key ∈ config.exports ↔ key = ".".toList)) ∧
    ((¬ ∃ files config, Configured libraries archive files config) →
      ∀ key, key ∈ (tombstoneOf failure input).exports ↔ key = ".".toList) := by
  have hexports : (tombstoneOf failure input).exports = Tombstone.tombstoneExports failure.exports := rfl
  refine ⟨runMaterialization_yanked libraries input archive hfailure, ?_, ?_, ?_, ?_⟩
  · exact List.mem_cons_of_mem _ List.mem_cons_self
  · intro key target htarget
    exact tombstoneExports_target _ key target htarget
  · intro files config hconfig
    rw [hexports]
    rcases sourcePackage_configured libraries input archive hconfig hfailure with
      ⟨hfails, hsome⟩ | ⟨hlimits, hnone⟩
    · rw [hsome]
      exact iff_of_true (tombstoneExports_some (configured_exports libraries archive hconfig))
        (.inl hfails)
    · rw [hnone]
      simp only [tombstoneExports_none, hlimits, false_or]
      exact ⟨fun h key => (h key).symm, fun h key => (h key).symm⟩
  · intro hconfig key
    rw [hexports, sourcePackage_unconfigured libraries input archive hconfig hfailure]
    exact tombstoneExports_none key

/-- The gzip file of a tar archive in which `Deno.json` collides with the emitted
    configuration, whose exports come from `jsr.json`. -/
def collidingArchive : Bytes :=
  [31, 139, 8, 0, 0, 0, 0, 0, 2, 255, 237, 214, 177, 14, 194, 32, 16, 128, 97, 102, 159, 162, 97,
    151, 130, 197, 154, 180, 171, 47, 210, 90, 98, 108, 98, 49, 64, 83, 19, 194, 187, 123, 177, 131,
    166, 14, 93, 44, 11, 247, 45, 71, 88, 24, 200, 31, 152, 110, 221, 85, 185, 125, 211, 94, 242,
    179, 26, 52, 235, 173, 30, 200, 159, 113, 80, 74, 249, 158, 96, 57, 65, 241, 181, 134, 125, 33,
    142, 7, 73, 50, 78, 34, 24, 173, 107, 12, 28, 79, 210, 228, 195, 142, 160, 116, 77, 159, 254,
    123, 107, 54, 201, 127, 189, 127, 201, 151, 253, 203, 162, 196, 254, 163, 244, 79, 213, 243,
    161, 141, 179, 180, 242, 148, 229, 118, 108, 105, 5, 243, 174, 59, 6, 123, 33, 96, 33, 201, 244,
    63, 223, 249, 6, 103, 172, 246, 47, 126, 222, 127, 126, 194, 247, 63, 138, 185, 254, 204, 135,
    26, 255, 1, 8, 33, 148, 146, 23, 193, 223, 21, 61, 0, 16, 0, 0]

def collidingConfiguration : Bytes :=
  Utf8.encode "\x7b\"exports\":\x7b\"./sub\":\"./mod.ts\"\x7d\x7d".toList

def collidingLibraries : Libraries where
  entries bytes :=
    if bytes = collidingArchive then
      some [some ⟨Utf8.encode "widget-abc/Deno.json".toList, .regular, some 3,
          Utf8.encode "\x7b\x7d\n".toList, false⟩,
        some ⟨Utf8.encode "widget-abc/jsr.json".toList, .regular, some 32, collidingConfiguration, false⟩,
        some ⟨Utf8.encode "widget-abc/mod.ts".toList, .regular, some 11, widgetModule, false⟩]
    else none
  configuration bytes :=
    if bytes = collidingConfiguration then
      .ok ⟨some (.object [("./sub".toList, .string "./mod.ts".toList)]), ∅⟩
    else .error "expected value at line 1 column 1".toList
  ast := widgetLibraries.ast

theorem colliding_configured : ∃ files config,
    Configured collidingLibraries collidingArchive files config ∧ "./sub".toList ∈ config.exports := by
  have hrun : ((unpackArchive collidingLibraries.entries collidingArchive).toOption.bind fun files =>
      (configPath files).bind fun path =>
        (parseRootConfiguration collidingLibraries.configuration (files.getD path [])).toOption.map
          fun config => decide ("./sub".toList ∈ config.exports)) = some true := by
    decide +kernel
  obtain ⟨files, hfiles, hrest⟩ := Option.bind_eq_some_iff.1 hrun
  obtain ⟨path, hpath, hrest⟩ := Option.bind_eq_some_iff.1 hrest
  obtain ⟨config, hconfig, hsub⟩ := Option.map_eq_some_iff.1 hrest
  exact ⟨files, config, ⟨toOption_eq_some.1 hfiles, path, hpath,
    toOption_eq_some.1 hconfig⟩, of_decide_eq_true hsub⟩

def collidingFailure : Option SourceFailure :=
  match sourcePackage collidingLibraries collidingArchive widgetRequest with
  | .ok _ => none
  | .error failure => some failure

theorem colliding_failure : ∃ failure,
    sourcePackage collidingLibraries collidingArchive widgetRequest = .error failure ∧
      "./sub".toList ∉ (tombstoneOf failure widgetRequest).exports := by
  have hrun : (collidingFailure.map fun failure => decide ("./sub".toList ∈
      Tombstone.tombstoneExports failure.exports)) = some false := by
    decide +kernel
  obtain ⟨failure, hfailure, hsub⟩ := Option.map_eq_some_iff.1 hrun
  unfold collidingFailure at hfailure
  cases h : sourcePackage collidingLibraries collidingArchive widgetRequest with
  | ok package =>
    rw [h] at hfailure
    cases hfailure
  | error other =>
    rw [h] at hfailure
    obtain rfl := Option.some.inj hfailure
    exact ⟨other, rfl, of_decide_eq_false hsub⟩

theorem tombstone_exports_iff_colliding : ∃ failure,
    sourcePackage collidingLibraries collidingArchive widgetRequest = .error failure ∧
    runMaterialization collidingLibraries widgetRequest collidingArchive =
      .ok (.yanked (diagnosticOf failure widgetRequest) ((Publication.batchOf widgetRequest.job
        (tombstoneOf failure widgetRequest).files
        (tombstoneOf failure widgetRequest).exports).map BatchObject.upload)) ∧
    Tombstone.failureModulePath ∈ (tombstoneOf failure widgetRequest).files.map ArtifactFile.path ∧
    (∀ key target : Str, (tombstoneOf failure widgetRequest).exports[key]? = some target →
      target = "./".toList ++ Tombstone.failureModulePath) ∧
    (∀ files config, Configured collidingLibraries collidingArchive files config →
      ((∀ key, key ∈ (tombstoneOf failure widgetRequest).exports ↔ key ∈ config.exports) ↔
        FailsBeforeLimits collidingLibraries files config ∨
          ∀ key, key ∈ config.exports ↔ key = ".".toList)) ∧
    ((¬ ∃ files config, Configured collidingLibraries collidingArchive files config) →
      ∀ key, key ∈ (tombstoneOf failure widgetRequest).exports ↔ key = ".".toList) := by
  obtain ⟨failure, hfailure, -⟩ := colliding_failure
  exact ⟨failure, hfailure,
    tombstone_exports_iff collidingLibraries widgetRequest collidingArchive failure hfailure⟩

/-- The tombstone of a package that breaks the output limits lacks the export `./sub`. -/
theorem export_key_lost : ∃ (libraries : Libraries) (input : MaterializationRequest) (archive : Bytes)
    (files : BTreeMap Bytes) (config : SourceConfiguration) (failure : SourceFailure) (key : Str),
    Configured libraries archive files config ∧ sourcePackage libraries archive input = .error failure ∧
      key ∈ config.exports ∧ key ∉ (tombstoneOf failure input).exports := by
  obtain ⟨files, config, hconfig, hsub⟩ := colliding_configured
  obtain ⟨failure, hfailure, hlost⟩ := colliding_failure
  exact ⟨collidingLibraries, widgetRequest, collidingArchive, files, config, failure, _, hconfig,
    hfailure, hsub, hlost⟩

end Service
end JsrProxy
