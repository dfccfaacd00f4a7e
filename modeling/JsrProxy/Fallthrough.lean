import JsrProxy.Http
import JsrProxy.Programs
import JsrProxy.Sha256

set_option autoImplicit false

/-!
# Fall-through

How a request that no configured scope claims is forwarded to `jsr.io`. Immutable
answers are cached, modules only once they match the checksum of their metadata.
-/
namespace JsrProxy

inductive FallthroughCall
  | fetch (request : Request)
  | cacheMatch (key : Request)
  | cachePut (key : Request) (response : Response)

def FallthroughCall.Answer : FallthroughCall → Type
  | fetch _ => Except Str Response
  | cacheMatch _ => Except Str (Option Response)
  | cachePut _ _ => Except Str Unit

abbrev fallthroughCalls : Effects := ⟨FallthroughCall, FallthroughCall.Answer⟩

namespace Fallthrough

abbrev Forwarding := Program fallthroughCalls (Except Str Response)

def fetch (request : Request) : Forwarding :=
  Program.perform (E := fallthroughCalls) (.fetch request)

def acceptRegistryContent : Str :=
  ("application/json, application/javascript, text/javascript, application/typescript, " ++
    "text/typescript, application/wasm, */*;q=0.8").toList

inductive ImmutablePath
  | versionMetadata
  | module (version path : Str)
deriving DecidableEq, Repr

def decodeModulePath (path : Str) : Option Str :=
  match UrlPath.decodeURIComponent path with
  | none => none
  | some decoded =>
    if (decoded.splitOn '/').any fun part => part = [] || part = ".".toList || part = "..".toList then none
    else some decoded

def immutablePath (pathname : Str) : Option ImmutablePath :=
  match pathname.splitOn '/' with
  | [_, scope, _, last] =>
    if scope.head? = some '@' ∧ "_meta.json".toList.isSuffixOf last = true then some .versionMetadata
    else none
  | _ :: scope :: name :: version :: file :: rest =>
    if scope.head? = some '@' ∧ name ≠ [] ∧ version ≠ [] then
      match decodeModulePath (['/'].intercalate (file :: rest)) with
      | none => none
      | some path => if path = [] then none else some (.module version path)
    else none
  | _ => none

def upstreamRequest (request : Request) : Request where
  method := request.method
  url := { request.url with origin := "https://jsr.io".toList }
  headers := ((request.headers.delete "authorization".toList).delete "sec-fetch-dest".toList).set
    "accept".toList acceptRegistryContent
  body := request.body

def cacheKey (url : Url) : Request := ⟨"GET".toList, url, [], []⟩

/-- The metadata's URL. Setting a path parses it again. -/
def metadataUrl (url : Url) (version : Str) : Url where
  origin := url.origin
  pathname := UrlPath.pathname (['/'].intercalate ((url.pathname.splitOn '/').take 3) ++
    '/' :: version ++ "_meta.json".toList)
  search := []

def cacheResponse (cached : Bool) (key : Request) (response : Response) : Forwarding :=
  if cached && response.ok then
    (Program.perform (E := fallthroughCalls) (.cachePut key response)).andThen fun _ => .done (.ok response)
  else .done (.ok response)

def orCached (cached : Bool) (key : Request) (otherwise : Forwarding) : Forwarding :=
  if cached then
    (Program.perform (E := fallthroughCalls) (.cacheMatch key)).andThen fun found =>
      match found with
      | some response => .done (.ok response)
      | none => otherwise
  else otherwise

def fetchVersionMetadata (cached : Bool) (moduleRequest : Request) (version : Str) : Forwarding :=
  let url := metadataUrl moduleRequest.url version
  orCached cached (cacheKey url)
    ((fetch ⟨"GET".toList, url, moduleRequest.headers, []⟩).andThen fun response =>
      cacheResponse cached (cacheKey url) response)

/-- Metadata that is not JSON is taken as empty. -/
def readVersionMetadata (response : Response) : Json :=
  (Json.parse (Utf8.decode response.body)).getD (.object [])

def sha256Checksum (bytes : Bytes) : Str := "sha256-".toList ++ Sha256.hex (Sha256.digest bytes)

def isUsableChecksum (checksum : Str) : Bool :=
  "sha256-".toList.isPrefixOf checksum && (checksum.drop 7).length = 64 &&
    (checksum.drop 7).all Sha256.isHexDigit

/-- The checksum of a manifest entry. Reading a property of null throws. -/
def expectedChecksum (metadata : Json) (path : Str) : Except Str (Option Str) :=
  match metadata with
  | .null => .error "cannot read properties of null".toList
  | metadata =>
    match ((metadata.get? "manifest".toList).bind (·.get? path)).bind (·.get? "checksum".toList) with
    | some (.string (.text checksum)) =>
      if isUsableChecksum checksum then .ok (some checksum) else .ok none
    | _ => .ok none

/-- A response that carries the bytes. A status without a body throws. -/
def verified (response : Response) (bytes : Bytes) : Except Str Response :=
  if response.status = 204 ∨ response.status = 205 then
    .error "response with null body status cannot have body".toList
  else .ok ⟨response.status, response.headers, bytes⟩

def checkModule (cached : Bool) (upstream : Request) (expected : Str) (response : Response) : Forwarding :=
  if !response.ok then .done (.ok response)
  else if sha256Checksum response.body ≠ expected then
    .done (.ok (.text 502 "upstream module bytes did not match version metadata".toList []))
  else
    match verified response response.body with
    | .error message => .done (.error message)
    | .ok verified => cacheResponse cached (cacheKey upstream.url) verified

def fetchModule (cached : Bool) (upstream : Request) (path : Str) (metadataResponse : Response) :
    Forwarding :=
  if !metadataResponse.ok then .done (.ok metadataResponse)
  else
    match expectedChecksum (readVersionMetadata metadataResponse) path with
    | .error message => .done (.error message)
    | .ok none => .done (.ok
        (.text 502 "upstream version metadata has no usable checksum for this module".toList []))
    | .ok (some expected) =>
      (fetch upstream).andThen fun response => checkModule cached upstream expected response

/-- Forwards a JSR read without forwarding caller credentials. -/
def fallThrough (cached : Bool) (request : Request) : Forwarding :=
  let upstream := upstreamRequest request
  if request.method ≠ "GET".toList then fetch upstream
  else
    match immutablePath upstream.url.pathname with
    | none => fetch upstream
    | some .versionMetadata =>
      orCached cached (cacheKey upstream.url)
        ((fetch upstream).andThen fun response => cacheResponse cached (cacheKey upstream.url) response)
    | some (.module version path) =>
      orCached cached (cacheKey upstream.url)
        ((fetchVersionMetadata cached upstream version).andThen fun metadataResponse =>
          fetchModule cached upstream path metadataResponse)

end Fallthrough
end JsrProxy
