import JsrProxy.JsonText
import JsrProxy.PackageRegistry
import JsrProxy.Sha256
import JsrProxy.SourceArchive

set_option autoImplicit false

/-!
# Publication

How the materializer publishes a package version: its files, the version metadata
that lists them, and the ready marker last, each under a key that is written once.
-/
namespace JsrProxy

namespace Materializer

/-- Durable, credential-free input of a materialization. -/
structure MaterializationJob where
  package : PackageName
  branch : Str
  commitSha : Str
  version : Str
deriving DecidableEq, Repr

end Materializer

structure ArtifactFile where
  path : Str
  bytes : Bytes
deriving DecidableEq, Repr

structure ManifestEntry where
  size : ℕ
  checksum : Str
deriving DecidableEq, Repr

structure Provenance where
  branch : Str
  commitSha : Str
deriving DecidableEq, Repr

structure PackageMetadata where
  manifest : BTreeMap ManifestEntry
  exports : BTreeMap Str
  provenance : Provenance

structure PublicationResult where
  metadata : PackageMetadata
  manifestSha256 : Str
  metadataKey : Str
  readyMarkerKey : Str

inductive StoreError
  | existingObjectHasDifferentHash (key : Str)
  | unavailable (message : Str)
deriving DecidableEq, Repr

inductive PublicationError
  | invalidPath (path : Str)
  | duplicatePath (path : Str)
  | storage (error : StoreError)
deriving DecidableEq, Repr

/-- A store that creates each key once, over its states. -/
structure ArtifactStore (σ : Type) where
  putIfAbsent : σ → Str → Bytes → Str → Except StoreError Unit × σ

namespace Publication

def sha256Hex (bytes : Bytes) : Str := Sha256.hex (Sha256.digest bytes)

def manifestEntryJson (entry : ManifestEntry) : Json :=
  .object [("size".toList, .number (Nat.toDigits 10 entry.size)),
    ("checksum".toList, .string entry.checksum)]

def manifestJson (manifest : BTreeMap ManifestEntry) : Json :=
  .object (manifest.toList.map fun entry => (entry.1, manifestEntryJson entry.2))

def exportsJson (exports : BTreeMap Str) : Json :=
  .object (exports.toList.map fun entry => (entry.1, .string entry.2))

def provenanceJson (provenance : Provenance) : Json :=
  .object [("branch".toList, .string provenance.branch),
    ("commit_sha".toList, .string provenance.commitSha)]

def metadataJson (metadata : PackageMetadata) : Json :=
  .object [("manifest".toList, manifestJson metadata.manifest),
    ("exports".toList, exportsJson metadata.exports),
    ("jsrproxy".toList, provenanceJson metadata.provenance)]

def markerJson (manifestSha256 : Str) : Json :=
  .object [("manifest_sha256".toList, .string manifestSha256)]

def toVec (value : Json) : Bytes := Utf8.encode value.write

def packageKeyPrefix (job : Materializer.MaterializationJob) : Str :=
  "synthetic/".toList ++ job.package.scope ++ '/' :: job.package.name ++ '/' :: job.version

def metadataKey (job : Materializer.MaterializationJob) : Str := packageKeyPrefix job ++ "_meta.json".toList

def readyMarkerKey (job : Materializer.MaterializationJob) : Str := packageKeyPrefix job ++ ".ready.json".toList

def fileKey (job : Materializer.MaterializationJob) (path : Str) : Str := packageKeyPrefix job ++ '/' :: path

def validatePath (path : Str) : Except PublicationError Unit :=
  if path.isEmpty || path.head? = some '/' || (path.splitOn '/').any fun part =>
      part.isEmpty || part = ".".toList || part = "..".toList then
    .error (.invalidPath path)
  else .ok ()

def manifestEntry (bytes : Bytes) : ManifestEntry :=
  ⟨bytes.length, "sha256-".toList ++ sha256Hex bytes⟩

variable {σ : Type} (store : ArtifactStore σ)

/-- The loop over the files, which fills the manifest. -/
def publishFiles (job : Materializer.MaterializationJob) (manifest : BTreeMap ManifestEntry) (s : σ) :
    List ArtifactFile → Except PublicationError (BTreeMap ManifestEntry) × σ
  | [] => (.ok manifest, s)
  | file :: rest =>
    match validatePath file.path with
    | .error error => (.error error, s)
    | .ok () =>
      if ('/' :: file.path) ∈ manifest then (.error (.duplicatePath file.path), s)
      else
        match store.putIfAbsent s (fileKey job file.path) file.bytes (sha256Hex file.bytes) with
        | (.error error, s) => (.error (.storage error), s)
        | (.ok (), s) =>
          publishFiles job (manifest.insert ('/' :: file.path) (manifestEntry file.bytes)) s rest

def metadataOf (job : Materializer.MaterializationJob) (manifest : BTreeMap ManifestEntry)
    (exports : BTreeMap Str) : PackageMetadata :=
  ⟨manifest, exports, ⟨job.branch, job.commitSha⟩⟩

/-- Publishes immutable files and metadata, then the ready marker last. -/
def publish (job : Materializer.MaterializationJob) (s : σ) (files : List ArtifactFile) (exports : BTreeMap Str) :
    Except PublicationError PublicationResult × σ :=
  match publishFiles store job ∅ s files with
  | (.error error, s) => (.error error, s)
  | (.ok manifest, s) =>
    let manifestSha256 := sha256Hex (toVec (manifestJson manifest))
    let metadataBytes := toVec (metadataJson (metadataOf job manifest exports))
    match store.putIfAbsent s (metadataKey job) metadataBytes (sha256Hex metadataBytes) with
    | (.error error, s) => (.error (.storage error), s)
    | (.ok (), s) =>
      let markerBytes := toVec (markerJson manifestSha256)
      match store.putIfAbsent s (readyMarkerKey job) markerBytes (sha256Hex markerBytes) with
      | (.error error, s) => (.error (.storage error), s)
      | (.ok (), s) => (.ok ⟨metadataOf job manifest exports, manifestSha256, metadataKey job,
          readyMarkerKey job⟩, s)

end Publication

namespace Service

structure BatchedArtifact where
  key : Str
  sha256 : Str
  body : Str
deriving DecidableEq, Repr

def uploadJson (upload : BatchedArtifact) : Json :=
  .object [("key".toList, .string upload.key), ("sha256".toList, .string upload.sha256),
    ("body".toList, .string upload.body)]

def base64Digit (sextet : UInt8) : Char :=
  "ABCDEFGHIJKLMNOPQRSTUVWXYZabcdefghijklmnopqrstuvwxyz0123456789+/".toList.getD sextet.toNat '='

def base64Chunk (first second third : UInt8) (length : ℕ) : Str :=
  [base64Digit (first >>> 2), base64Digit ((first &&& 0b11) <<< 4 ||| second >>> 4),
    if 1 < length then base64Digit ((second &&& 0b1111) <<< 2 ||| third >>> 6) else '=',
    if 2 < length then base64Digit (third &&& 0b111111) else '=']

def base64Encode : Bytes → Str
  | [] => []
  | [first] => base64Chunk first 0 0 1
  | [first, second] => base64Chunk first second 0 2
  | first :: second :: third :: rest => base64Chunk first second third 3 ++ base64Encode rest

/-- The store that gathers the uploads of one batch and never fails. -/
def batchedArtifactStore : ArtifactStore (List BatchedArtifact) where
  putIfAbsent uploads key bytes sha256 := (.ok (), uploads ++ [⟨key, sha256, base64Encode bytes⟩])

end Service
end JsrProxy
