import JsrProxy.Base64
import JsrProxy.Http
import JsrProxy.Identity
import JsrProxy.ObjectStore
import JsrProxy.Programs
import JsrProxy.Publication

set_option autoImplicit false

/-!
# Publication to R2

The Durable Object's side of a publication: each upload of a batch is checked and
written unless its key exists, and an existing object must have the same digest.
-/
namespace JsrProxy

structure R2Object where
  value : Bytes
  sha256 : Option Str
  contentType : Option Str
deriving DecidableEq, Repr

structure R2StoredObject where
  sha256 : Option Str
deriving DecidableEq, Repr

/-- A put is conditional on the key being absent. -/
inductive R2Call
  | head (key : Str)
  | put (key : Str) (object : R2Object)

abbrev r2Calls : Effects := ⟨R2Call, fun _ => Except Str (Option R2StoredObject)⟩

abbrev R2Bucket := ObjectStore Str R2Object

/-- A strongly consistent bucket that may fail before or after it writes. -/
inductive R2Step : R2Bucket → (call : R2Call) → Except Str (Option R2StoredObject) → R2Bucket → Prop
  | head (bucket : R2Bucket) (key : Str) :
    R2Step bucket (.head key) (.ok ((bucket key).map fun object => ⟨object.sha256⟩)) bucket
  | headFails (bucket : R2Bucket) (key message : Str) :
    R2Step bucket (.head key) (.error message) bucket
  | created (bucket : R2Bucket) (key : Str) (object : R2Object) (h : bucket key = none) :
    R2Step bucket (.put key object) (.ok (some ⟨object.sha256⟩)) (bucket.put key object)
  | exists (bucket : R2Bucket) (key : Str) (object existing : R2Object)
      (h : bucket key = some existing) : R2Step bucket (.put key object) (.ok none) bucket
  | putFails (bucket : R2Bucket) (key : Str) (object : R2Object) (message : Str) :
    R2Step bucket (.put key object) (.error message) bucket
  | answerLost (bucket : R2Bucket) (key : Str) (object : R2Object) (message : Str) :
    R2Step bucket (.put key object) (.error message) (bucket.put key object)

namespace R2Publication

def sha256Header : Str := "x-jsrproxy-sha256".toList

def isLineTerminator (c : Char) : Bool := c ∈ ['\n', '\r', '\u2028', '\u2029']

/-- What may follow the version in a key. -/
def isArtifactSuffix : Str → Bool
  | [] => true
  | '/' :: rest => rest.all fun c => !isLineTerminator c
  | suffix => suffix = ".ready.json".toList || suffix = "_meta.json".toList

/-- The pattern of an artifact key. -/
def isArtifactKey (key : Str) : Bool :=
  if "synthetic/".toList.isPrefixOf key then
    match Identity.scopeAndName (key.drop 10) with
    | some (_, _, '/' :: input) =>
      match Identity.takeVersion input with
      | some (_, suffix) => isArtifactSuffix suffix
      | none => false
    | _ => false
  else false

def decodeSegment (segment : Str) : Option Str :=
  match UrlPath.decodeURIComponent segment with
  | none => none
  | some decoded =>
    if decoded.isEmpty || decoded = ".".toList || decoded = "..".toList || decoded.contains '\\' then none
    else some decoded

def artifactKey (pathname : Str) : Option Str :=
  match pathname.splitOn '/' with
  | [] => none
  | first :: segments =>
    if first ≠ [] ∨ segments.head? ≠ some "synthetic".toList ∨ segments.length < 4 then none
    else
      match segments.mapM decodeSegment with
      | none => none
      | some decoded =>
        if isArtifactKey (['/'].intercalate decoded) then some (['/'].intercalate decoded) else none

def hasExtension (key : Str) (extensions : List String) : Bool :=
  extensions.any fun extension => ('.' :: extension.toList).isSuffixOf key

def contentType (key : Str) : Str :=
  if hasExtension key ["ts", "mts", "cts", "tsx"] then "application/typescript".toList
  else if hasExtension key ["js", "mjs", "cjs", "jsx"] then "application/javascript".toList
  else if hasExtension key ["json"] then "application/json".toList
  else if hasExtension key ["wasm"] then "application/wasm".toList
  else "application/octet-stream".toList

/-- `[0-9a-f]{64}` -/
def isSha256Hex (text : Str) : Bool := text.length = 64 && text.all Sha256.isHexDigit

def sha256Hex (bytes : Bytes) : Str := Sha256.hex (Sha256.digest bytes)

/-- Writes a checked artifact, or compares the one that is there. -/
def putArtifact (key : Str) (bytes : Bytes) (expected : Str) :
    Program r2Calls (Except Str Response) :=
  .call (.put key ⟨bytes, some expected, some (contentType key)⟩) fun written =>
    match written with
    | .error message => .done (.error message)
    | .ok (some _) => .done (.ok ⟨201, [], []⟩)
    | .ok none =>
      .call (.head key) fun existing =>
        match existing with
        | .error message => .done (.error message)
        | .ok existing =>
          if existing.bind R2StoredObject.sha256 = some expected then .done (.ok ⟨200, [], []⟩)
          else .done (.ok (.text 409 "artifact key already exists with different bytes".toList []))

/-- Accepts one immutable materializer upload. -/
def publishArtifact (request : Request) : Program r2Calls (Except Str Response) :=
  if request.method ≠ "PUT".toList then
    .done (.ok (.text 405 "method not allowed".toList [("allow".toList, "PUT".toList)]))
  else
    match artifactKey request.url.pathname with
    | none => .done (.ok (.text 400 "invalid artifact key".toList []))
    | some key =>
      match request.headers.get sha256Header with
      | none => .done (.ok (.text 400 ("missing or invalid ".toList ++ sha256Header) []))
      | some expected =>
        if !isSha256Hex expected then
          .done (.ok (.text 400 ("missing or invalid ".toList ++ sha256Header) []))
        else if sha256Hex request.body ≠ expected then
          .done (.ok (.text 422 "artifact checksum did not match body".toList []))
        else putArtifact key request.body expected

/-- The texts of one upload. Reading a property of null throws. -/
def readUpload (upload : Json) : Except Str (Option (Str × Str × Str)) :=
  match upload with
  | .null => .error "cannot read properties of null".toList
  | upload =>
    match upload.get? "key".toList, upload.get? "sha256".toList, upload.get? "body".toList with
    | some (.string key), some (.string sha256), some (.string body) =>
      .ok (some (key.wellFormed, sha256.wellFormed, body.wellFormed))
    | _, _, _ => .ok none

def uploadRequest (key sha256 : Str) (bytes : Bytes) : Except Str Request :=
  match Headers.normalize sha256 with
  | none => .error "invalid header value".toList
  | some value =>
    .ok ⟨"PUT".toList, .parse "http://artifacts.r2".toList ('/' :: key), [(sha256Header, value)], bytes⟩

/-- The uploads in turn, up to the first that is not accepted. -/
def publishUploads : List Json → Program r2Calls (Except Str Response)
  | [] => .done (.ok ⟨204, [], []⟩)
  | upload :: rest =>
    match readUpload upload with
    | .error message => .done (.error message)
    | .ok none => .done (.ok (.text 400 "invalid artifact batch".toList []))
    | .ok (some (key, sha256, body)) =>
      match Base64.decode body with
      | none => .done (.ok (.text 400 "invalid artifact body".toList []))
      | some bytes =>
        match uploadRequest key sha256 bytes with
        | .error message => .done (.error message)
        | .ok request =>
          (publishArtifact request).bind fun response =>
            match response with
            | .error message => .done (.error message)
            | .ok response => if response.ok then publishUploads rest else .done (.ok response)

/-- Publishes a complete materialization. The ready marker remains the final item. -/
def publishArtifactBatch (request : Request) : Program r2Calls (Except Str Response) :=
  if request.method ≠ "PUT".toList ∨ request.url.pathname ≠ "/batch".toList then
    .done (.ok (.text 404 "not found".toList []))
  else
    match (Json.parse (Utf8.decode request.body)).bind fun body => body.get? "uploads".toList with
    | some (.array (upload :: uploads)) => publishUploads (upload :: uploads)
    | _ => .done (.ok (.text 400 "invalid artifact batch".toList []))

/-- The request that `#materialize` makes of the uploads of an outcome. -/
def batchRequest (uploads : List Json) : Request where
  method := "PUT".toList
  url := .parse "https://artifacts.internal".toList "/batch".toList
  headers := []
  body := Utf8.encode (Json.object [("uploads".toList, .array uploads)]).write

end R2Publication
end JsrProxy
