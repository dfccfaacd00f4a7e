import JsrProxy.ImportRewriting
import JsrProxy.Publication
import JsrProxy.RootConfiguration

set_option autoImplicit false

/-!
# Materialization

`run_materialization`: the sources of an archive become the files of a package, or
their failure becomes a tombstone, and either is published as one batch. The
readers of archives and configurations and the module parser are parameters.
-/
namespace JsrProxy

structure SourceRepository where
  owner : Str
  repository : Str
deriving DecidableEq, Repr

/-- Credential-free Container input derived by the Worker after it fetches source bytes. -/
structure MaterializationRequest where
  job : Materializer.MaterializationJob
  source : SourceRepository
  statusUrl : Str
deriving DecidableEq, Repr

/-- The libraries behind the materializer. -/
structure Libraries where
  entries : Service.ArchiveReader
  configuration : ConfigurationReader
  ast : DenoAst

def StoreError.message : StoreError → Str
  | .existingObjectHasDifferentHash key => "existing object has a different hash: ".toList ++ key
  | .unavailable message => "storage unavailable: ".toList ++ message

def PublicationError.message : PublicationError → Str
  | .invalidPath path => "invalid package path: ".toList ++ path
  | .duplicatePath path => "duplicate package path: ".toList ++ path
  | .storage error => error.message

namespace Tombstone

def failureModulePath : Str := "_jsrproxy_materialization_failure.ts".toList

end Tombstone

def configurationJson (job : Materializer.MaterializationJob) (exports : BTreeMap Str) : Json :=
  .object [("name".toList, .string ('@' :: job.package.scope ++ '/' :: job.package.name)),
    ("version".toList, .string job.version), ("exports".toList, Publication.exportsJson exports)]

def configurationBytes (job : Materializer.MaterializationJob) (exports : BTreeMap Str) : Bytes :=
  Publication.toVec (configurationJson job exports) ++ Utf8.encode ['\n']

/-- A complete package artifact for an irreversible yanked failure version. -/
structure Tombstone where
  files : List ArtifactFile
  exports : BTreeMap Str

namespace Tombstone

def failureModule (diagnostic : TombstoneDiagnostic) (statusUrl : Str) : Bytes :=
  Utf8.encode ("throw new Error(".toList ++
    Json.writeString ("jsrproxy materialization failed (".toList ++ diagnostic.id ++ ", ".toList ++
      diagnostic.failureClass ++ "): ".toList ++ diagnostic.message ++ ". See ".toList ++ statusUrl) ++
    ");\n".toList)

def tombstoneExports (sourceExports : Option (BTreeMap Str)) : BTreeMap Str :=
  match sourceExports with
  | none => (∅ : BTreeMap Str).insert ".".toList ("./".toList ++ failureModulePath)
  | some exports =>
    if exports.isEmpty then (∅ : BTreeMap Str).insert ".".toList ("./".toList ++ failureModulePath)
    else exports.map fun _ _ => "./".toList ++ failureModulePath

/-- Builds a valid package that fails loudly when an exact yanked version is imported. -/
def buildTombstone (job : Materializer.MaterializationJob) (sourceExports : Option (BTreeMap Str))
    (diagnostic : TombstoneDiagnostic) (statusUrl : Str) : Tombstone where
  files := [⟨"deno.json".toList, configurationBytes job (tombstoneExports sourceExports)⟩,
    ⟨failureModulePath, failureModule diagnostic statusUrl⟩]
  exports := tombstoneExports sourceExports

end Tombstone

namespace Service

def extensionOf (path : Str) : Option Str :=
  if '.' ∈ path then some (path.reverse.takeWhile (· ≠ '.')).reverse else none

def isRewritten (path : Str) : Bool :=
  match extensionOf path with
  | none => false
  | some extension =>
    (["ts", "mts", "cts", "tsx", "js", "mjs", "cjs", "jsx"].map String.toList).contains extension

def rewriteFiles (ast : DenoAst) (imports : BTreeMap Str) (files : BTreeMap Bytes) :
    List (Str × Bytes) → Except Str (BTreeMap Bytes)
  | [] => .ok files
  | (path, bytes) :: rest =>
    if !isRewritten path then rewriteFiles ast imports files rest
    else
      match ImportRewriting.rewriteImportMapSpecifiers ast path bytes imports with
      | .error message => .error message
      | .ok text => rewriteFiles ast imports (files.insert path (Utf8.encode text)) rest

def rewriteSourceImports (ast : DenoAst) (files : BTreeMap Bytes) (imports : BTreeMap Str) :
    Except Str (BTreeMap Bytes) := rewriteFiles ast imports files files.toList

/-- The loop over the generated files: the paths seen, in lower case, and the size so far. -/
def validateFiles (caseInsensitivePaths : BTreeMap Str) (total : ℕ) :
    List (Str × Bytes) → Except SourceFailure ℕ
  | [] => .ok total
  | (path, contents) :: rest =>
    match validatePackagePath path with
    | .error failure => .error failure
    | .ok () =>
      match caseInsensitivePaths[toAsciiLowercase path]? with
      | some existing => .error (invalidArchive
          ("generated package has case-insensitive duplicate paths: ".toList ++ existing ++
            " and ".toList ++ path))
      | none =>
        if contents.length > maxSourceFileBytes then
          .error ⟨"source-file-too-large".toList,
            "a generated package file exceeds the materializer limit".toList, none⟩
        else if total + contents.length ≥ 2 ^ 64 then
          .error ⟨"source-package-too-large".toList,
            "the generated package exceeds the materializer limit".toList, none⟩
        else validateFiles (caseInsensitivePaths.insert (toAsciiLowercase path) path)
          (total + contents.length) rest

def validateOutputLimits (files : BTreeMap Bytes) : Except SourceFailure Unit :=
  match validateFiles ∅ 0 files.toList with
  | .error failure => .error failure
  | .ok total =>
    if total > maxTotalSourceBytes then
      .error ⟨"source-package-too-large".toList,
        "the generated package exceeds the materializer limit".toList, none⟩
    else .ok ()

def configPath (files : BTreeMap Bytes) : Option Str :=
  if "deno.json".toList ∈ files then some "deno.json".toList
  else if "jsr.json".toList ∈ files then some "jsr.json".toList
  else none

/-- `path.trim_start_matches("./")` -/
def trimStartMatches : Str → Str
  | '.' :: '/' :: rest => trimStartMatches rest
  | path => path

def missingExport (files : BTreeMap Bytes) (config : SourceConfiguration) : Option Str :=
  (config.exports.toList.map fun entry => trimStartMatches entry.2).find? fun path => !decide (path ∈ files)

def rewritten (ast : DenoAst) (files : BTreeMap Bytes) (config : SourceConfiguration) :
    Except Str (BTreeMap Bytes) :=
  if config.imports.isEmpty then .ok files else rewriteSourceImports ast files config.imports

/-- The files of the package, in which the emitted configuration replaces those of the source. -/
def packaged (job : Materializer.MaterializationJob) (files : BTreeMap Bytes) (config : SourceConfiguration) :
    BTreeMap Bytes :=
  ((files.erase "deno.json".toList).erase "jsr.json".toList).insert "deno.json".toList
    (configurationBytes job config.exports)

def artifactFiles (files : BTreeMap Bytes) : List ArtifactFile :=
  files.toList.map fun entry => ⟨entry.1, entry.2⟩

/-- `source_package` from where the archive is unpacked. -/
def packageFiles (libraries : Libraries) (input : MaterializationRequest) (files : BTreeMap Bytes) :
    Except SourceFailure (List ArtifactFile × BTreeMap Str) :=
  match configPath files with
  | none => .error ⟨"missing-root-config".toList,
      "the repository has no root deno.json or jsr.json".toList, none⟩
  | some path =>
    match parseRootConfiguration libraries.configuration (files.getD path []) with
    | .error error => .error ⟨"invalid-root-config".toList, error.message, none⟩
    | .ok config =>
      match rewritten libraries.ast files config with
      | .error message => .error ⟨"unrewritable-import-map".toList, message, some config.exports⟩
      | .ok files =>
        match missingExport files config with
        | some path => .error ⟨"missing-export-file".toList,
            "the exported file ".toList ++ path ++ " is absent from the recorded Git tree".toList,
            some config.exports⟩
        | none =>
          match validateOutputLimits (packaged input.job files config) with
          | .error failure => .error failure
          | .ok () => .ok (artifactFiles (packaged input.job files config), config.exports)

def sourcePackage (libraries : Libraries) (archive : Bytes) (input : MaterializationRequest) :
    Except SourceFailure (List ArtifactFile × BTreeMap Str) :=
  match unpackArchive libraries.entries archive with
  | .error failure => .error failure
  | .ok files => packageFiles libraries input files

def diagnosticOf (failure : SourceFailure) (input : MaterializationRequest) : TombstoneDiagnostic where
  id := ("mat-".toList ++ Sha256.hex (Sha256.digest (Utf8.encode
    (input.job.version ++ failure.failureClass ++ failure.message)))).take 16
  failureClass := failure.failureClass
  message := failure.message

inductive MaterializationOutcome
  | ready (uploads : List BatchedArtifact)
  | yanked (diagnostic : TombstoneDiagnostic) (uploads : List BatchedArtifact)
deriving DecidableEq, Repr

def MaterializationOutcome.uploads : MaterializationOutcome → List BatchedArtifact
  | .ready uploads => uploads
  | .yanked _ uploads => uploads

inductive MaterializationError
  | artifactPublicationUnavailable (error : Str)
deriving DecidableEq, Repr

def publishArtifacts (input : MaterializationRequest) (files : List ArtifactFile) (exports : BTreeMap Str) :
    Except MaterializationError (List BatchedArtifact) :=
  match Publication.publish batchedArtifactStore input.job [] files exports with
  | (.error error, _) => .error (.artifactPublicationUnavailable error.message)
  | (.ok _, uploads) => .ok uploads

def tombstoneOf (failure : SourceFailure) (input : MaterializationRequest) : Tombstone :=
  Tombstone.buildTombstone input.job failure.exports (diagnosticOf failure input) input.statusUrl

def runMaterialization (libraries : Libraries) (input : MaterializationRequest) (archive : Bytes) :
    Except MaterializationError MaterializationOutcome :=
  match sourcePackage libraries archive input with
  | .ok (files, exports) => (publishArtifacts input files exports).map .ready
  | .error failure =>
    (publishArtifacts input (tombstoneOf failure input).files (tombstoneOf failure input).exports).map
      (.yanked (diagnosticOf failure input))

end Service
end JsrProxy
