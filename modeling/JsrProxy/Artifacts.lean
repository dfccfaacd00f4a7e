import JsrProxy.Identity
import JsrProxy.MetadataRequests
import JsrProxy.R2Publication

set_option autoImplicit false

/-!
# Artifacts

How the Worker answers an authorised request below a package: which object of the
bucket a path asks for, and how it is served once the version's ready marker exists.
-/
namespace JsrProxy

/-- An object as `get` delivers it, with the time of its upload as a UTC string. -/
structure R2ObjectLike where
  body : Bytes
  httpEtag : Str
  uploaded : Str
  contentType : Option Str
deriving DecidableEq, Repr

structure ArtifactGet where
  key : Str

abbrev artifactCalls : Effects := ⟨ArtifactGet, fun _ => Except Str (Option R2ObjectLike)⟩

namespace R2Artifacts

def contentType (key : Str) : Str := R2Publication.contentType key

def notFound : Response := .text 404 "not found".toList []

def serveObject (key : Str) (object : R2ObjectLike) (request : Request) : Response :=
  let etag := '"' :: object.httpEtag ++ ['"']
  if request.headers.get "if-none-match".toList = some etag ∨
      request.headers.get "if-modified-since".toList = some object.uploaded then
    ⟨304, [("etag".toList, etag), ("last-modified".toList, object.uploaded)], []⟩
  else
    ⟨200, [("content-type".toList, object.contentType.getD (contentType key)),
      ("cache-control".toList, "public, max-age=31536000, immutable".toList),
      ("etag".toList, etag), ("last-modified".toList, object.uploaded)], object.body⟩

/-- Serves a concrete version only when its immutable ready marker exists. -/
def serveArtifact (versionPrefix key : Str) (request : Request) :
    Program artifactCalls (Except Str Response) :=
  .call ⟨versionPrefix ++ ".ready.json".toList⟩ fun marker =>
    match marker with
    | .error message => .done (.error message)
    | .ok none => .done (.ok notFound)
    | .ok (some _) =>
      .call ⟨key⟩ fun object =>
        match object with
        | .error message => .done (.error message)
        | .ok none => .done (.ok notFound)
        | .ok (some object) => .done (.ok (serveObject key object request))

end R2Artifacts

namespace Worker

structure ArtifactPath where
  versionPrefix : Str
  key : Str
deriving DecidableEq, Repr

def syntheticArtifactPath (pathname : Str) (identity : PackageName) : Option ArtifactPath :=
  let base := "synthetic/".toList ++ identity.scope ++ '/' :: identity.name
  match pathname.splitOn '/' with
  | [_, _, _, last] =>
    if "_meta.json".toList.isSuffixOf last && 10 < last.length then
      some ⟨base ++ '/' :: last.take (last.length - 10), base ++ '/' :: last⟩
    else none
  | _ :: _ :: _ :: version :: file :: rest =>
    if version.isEmpty then none
    else some ⟨base ++ '/' :: version, base ++ '/' :: ['/'].intercalate (version :: file :: rest)⟩
  | _ => none

def isPackageMetadataPath (pathname : Str) : Bool :=
  match pathname.splitOn '/' with
  | [_, _, _, last] => last = "meta.json".toList
  | _ => false

abbrev workerCalls : Effects := packageCalls.sum artifactCalls

/-- What a request below a package gets once both gates granted it. The recovery and
    status routes are not below a package. -/
def answerAuthorized (identity : PackageName) (owner repository pat : Str) (discovery : Discovery)
    (request : Request) : Program workerCalls (Except Str Response) :=
  if isPackageMetadataPath request.url.pathname then
    (MetadataRequest.refreshPackageMetadata identity owner repository pat request.url.origin
      discovery).left
  else
    match syntheticArtifactPath request.url.pathname identity with
    | some artifact => (R2Artifacts.serveArtifact artifact.versionPrefix artifact.key request).right
    | none => .done (.ok (.json 501
        (.object [("error".toList, .string "synthetic registry materialization is not configured".toList)])
        [("cache-control".toList, "no-store".toList)]))

end Worker
end JsrProxy
