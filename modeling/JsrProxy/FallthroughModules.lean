import JsrProxy.Fallthrough
import JsrProxy.PublishedFiles

set_option autoImplicit false

/-!
# Modules through the fall-through

What a module read comes to when the upstream's manifest has the format that
`publish` writes. Its keys begin with a slash, the looked-up path does not, so no
checksum is ever found.
-/
namespace JsrProxy

open R2Publication

abbrev Cache := Url → Option Response

namespace Fallthrough

def answerCall (upstream : Request → Except Str Response) (cache : Cache) :
    (call : FallthroughCall) → call.Answer × Cache
  | .fetch request => (upstream request, cache)
  | .cacheMatch key => (.ok (cache key.url), cache)
  | .cachePut key response => (.ok (), Function.update cache key.url (some response))

/-- Each key is a slash and a path, each entry has a checksum. -/
def IsJsrManifest (members : List (JsString × Json)) : Prop :=
  ∀ member ∈ members, ∃ path checksum, member.1.wellFormed = '/' :: path ∧
    member.2.get? "checksum".toList = some (.string (.text checksum)) ∧ isUsableChecksum checksum = true

theorem isUsableChecksum_sha256 (bytes : Bytes) :
    isUsableChecksum ("sha256-".toList ++ Sha256.hex (Sha256.digest bytes)) = true := by
  have hlength : (Sha256.hex (Sha256.digest bytes)).length = 64 := by
    rw [Sha256.length_hex, Sha256.length_digest]
  have hdrop : ("sha256-".toList ++ Sha256.hex (Sha256.digest bytes)).drop 7
      = Sha256.hex (Sha256.digest bytes) := List.drop_left' rfl
  have hlead : "sha256-".toList.isPrefixOf ("sha256-".toList ++ Sha256.hex (Sha256.digest bytes))
      = true := List.isPrefixOf_iff_prefix.2 (List.prefix_append _ _)
  have hdigits : (Sha256.hex (Sha256.digest bytes)).all Sha256.isHexDigit = true :=
    List.all_eq_true.2 fun c hc => Sha256.isHexDigit_of_mem_hex hc
  rw [isUsableChecksum, hdrop, hlength, hlead, hdigits]
  rfl

theorem isJsrManifest_publish {files : List ArtifactFile}
    (hnodup : (files.map ArtifactFile.path).Nodup) : IsJsrManifest
      ((Publication.manifestOf files).toList.map fun entry =>
        (.text entry.1, Publication.manifestEntryJson entry.2)) := by
  intro member hmember
  obtain ⟨file, -, hpath, hentry⟩ := (Publication.mem_listed hnodup).1 hmember
  refine ⟨file.path, _, congrArg JsString.wellFormed hpath, ?_, isUsableChecksum_sha256 file.bytes⟩
  rw [hentry]
  rfl

theorem get?_publish {files : List ArtifactFile} (hnodup : (files.map ArtifactFile.path).Nodup)
    {file : ArtifactFile} (hfile : file ∈ files) :
    (Json.object ((Publication.manifestOf files).toList.map fun entry =>
        (.text entry.1, Publication.manifestEntryJson entry.2))).get? ('/' :: file.path)
      = some (Publication.manifestEntryJson (Publication.manifestEntry file.bytes)) := by
  have hkeys := Publication.listed_nodup (Publication.manifestOf files)
  rw [← List.nodup_reverse, ← List.map_reverse] at hkeys
  have hmem := List.mem_reverse.2 ((Publication.mem_listed hnodup).2 ⟨file, hfile, rfl, rfl⟩)
  rw [← (OrderedMap.get?_eq_some ⟨_, hkeys⟩ _ _).2 hmem, Json.get?, OrderedMap.get?]

def Lists (response : Response) (members : List (JsString × Json)) : Prop :=
  response.ok = true ∧ ∃ metadata, Json.parse (Utf8.decode response.body) = some metadata ∧
    metadata.get? "manifest".toList = some (.object members)

/-- Without its slash a path is not a key of such a manifest. -/
theorem expectedChecksum_jsr {response : Response} {members : List (JsString × Json)}
    (hlists : Lists response members) (hjsr : IsJsrManifest members) {path : Str}
    (hpath : path.head? ≠ some '/') :
    expectedChecksum (readVersionMetadata response) path = .ok none := by
  obtain ⟨-, metadata, hparse, hmanifest⟩ := hlists
  have hnone : (Json.object members).get? path = none := by
    rw [Json.get?, List.lookup_eq_none_iff]
    intro member hmember
    obtain ⟨path', checksum, hkey, -⟩ := hjsr member (List.mem_reverse.1 hmember)
    rw [bne_iff_ne]
    intro he
    rw [← he] at hkey
    obtain rfl : path = '/' :: path' := hkey
    exact hpath rfl
  rw [readVersionMetadata, hparse, Option.getD_some]
  cases metadata with
  | null => cases hmanifest
  | _ =>
    simp only [expectedChecksum, hmanifest, Option.bind_some, hnone, Option.bind_none]

def registryOrigin : Str := "https://jsr.io".toList

def versionMetadataPath (identity : PackageName) (version : Str) : Str :=
  '/' :: '@' :: (identity.scope ++ '/' :: (identity.name ++ '/' :: (version ++ "_meta.json".toList)))

section
variable {identity : PackageName} {version path : Str} (hscope : UrlSegment identity.scope)
  (hname : UrlSegment identity.name) (hversion : UrlSegment version)
  (hpath : Service.validatePackagePath path = .ok ())
include hscope hname hversion hpath

theorem immutablePath_filePath :
    immutablePath (UrlPath.pathname (filePath identity version path)) = some (.module version path) := by
  obtain ⟨-, hsplit⟩ := pathname_filePath hscope hname hversion hpath
  have hjoin : ['/'].intercalate ((path.splitOn '/').map (UrlPath.percentEncode UrlPath.inPathSet))
      = UrlPath.percentEncode UrlPath.inPathSet path := by
    rw [← UrlPath.percentEncode_intercalate (by decide), List.intercalate_splitOn]
  have hdecode : decodeModulePath (UrlPath.percentEncode UrlPath.inPathSet path) = some path := by
    have hplain : UrlPath.decodeURIComponent (UrlPath.percentEncode UrlPath.inPathSet path) = some path := by
      apply UrlPath.decodeURIComponent_percentEncode
      intro c hc he
      exfalso
      rcases Service.accepted_mem hpath hc with rfl | haccepted
      · exact absurd he (by decide)
      · exact (Service.accepted_plain haccepted).2.1 he
    have hparts : ((path.splitOn '/').any fun part =>
        part = [] || part = ".".toList || part = "..".toList) = false := by
      rw [List.any_eq_false]
      intro part hpart
      have hsegment := keySegment_component (Service.accepted_splitOn hpath part hpart)
      rw [Bool.or_eq_true, Bool.or_eq_true, decide_eq_true_eq, decide_eq_true_eq, decide_eq_true_eq]
      rintro ((h | h) | h)
      · exact hsegment.nonempty h
      · exact hsegment.notDot h
      · exact hsegment.notDots h
    rw [decodeModulePath, hplain]
    simp only [hparts, Bool.false_eq_true, if_false]
  obtain ⟨file, rest, hcons⟩ := List.exists_cons_of_ne_nil
    (by simp : (path.splitOn '/').map (UrlPath.percentEncode UrlPath.inPathSet) ≠ [])
  have hne : path ≠ [] := by
    rintro rfl
    exact (keySegment_component (Service.accepted_splitOn hpath [] List.mem_cons_self)).nonempty rfl
  have hat : ('@' :: identity.scope).head? = some '@' := rfl
  rw [hcons] at hsplit hjoin
  rw [immutablePath, hsplit]
  simp only [hat, hname.key.nonempty, hversion.key.nonempty, ne_eq, not_false_eq_true, and_self, if_true,
    hjoin, hdecode, hne, if_false]

theorem metadataUrl_filePath (url : Url)
    (hurl : url.pathname = UrlPath.pathname (filePath identity version path)) :
    metadataUrl url version = ⟨url.origin, versionMetadataPath identity version, []⟩ := by
  obtain ⟨-, hsplit⟩ := pathname_filePath hscope hname hversion hpath
  have hat := urlSegment_at hscope
  have hlast : UrlSegment (version ++ "_meta.json".toList) := by
    have hsuffix : "_meta.json".toList.all
        (fun c => Service.isAcceptedByte c && (c != '{') && (c != '}')) = true := by decide
    refine ⟨⟨?_, ?_, ?_, ?_⟩, ?_⟩
    · intro c hc
      rcases List.mem_append.1 hc with hc | hc
      · exact hversion.key.accepted c hc
      · have hchar := List.all_eq_true.1 hsuffix c hc
        simp only [Bool.and_eq_true] at hchar
        exact hchar.1.1
    · exact fun he => hversion.key.nonempty (List.append_eq_nil_iff.1 he).1
    · intro he
      have hlength := congrArg List.length he
      simp at hlength
    · intro he
      have hlength := congrArg List.length he
      simp at hlength
    · intro c hc
      rcases List.mem_append.1 hc with hc | hc
      · exact hversion.unbraced c hc
      · have hchar := List.all_eq_true.1 hsuffix c hc
        simp only [Bool.and_eq_true, bne_iff_ne] at hchar
        exact ⟨hchar.1.2, hchar.2⟩
  have hsegments : ∀ s ∈ [('@' :: identity.scope), identity.name, version ++ "_meta.json".toList],
      UrlSegment s := by
    intro s hs
    simp only [List.mem_cons, List.not_mem_nil, or_false] at hs
    rcases hs with rfl | rfl | rfl
    · exact hat
    · exact hname
    · exact hlast
  obtain ⟨hparsed, -⟩ := pathname_segments (List.cons_ne_nil _ _) fun s hs => (hsegments s hs).key
  have hmap : [('@' :: identity.scope), identity.name, version ++ "_meta.json".toList].map
      (UrlPath.percentEncode UrlPath.inPathSet)
        = [('@' :: identity.scope), identity.name, version ++ "_meta.json".toList] := by
    rw [List.map_congr_left fun s hs => (hsegments s hs).encode, List.map_id']
  have hjoin : '/' :: ['/'].intercalate
      [('@' :: identity.scope), identity.name, version ++ "_meta.json".toList]
        = versionMetadataPath identity version := by
    rw [← UrlPath.flatMap_slash (List.cons_ne_nil _ _)]
    simp [versionMetadataPath]
  have hinput : ['/'].intercalate ((url.pathname.splitOn '/').take 3)
      ++ '/' :: version ++ "_meta.json".toList = versionMetadataPath identity version := by
    rw [hurl, hsplit]
    simp [versionMetadataPath, List.intercalate_cons_of_ne_nil]
  rw [hmap, hjoin] at hparsed
  rw [metadataUrl, hinput, hparsed]

end

variable {upstream : Request → Except Str Response} {cached : Bool} {cache : Cache}

theorem run_orCached (key : Request) (otherwise : Forwarding) :
    Program.run (answerCall upstream) (orCached cached key otherwise) cache =
      match if cached then cache key.url else none with
      | some response => (.ok response, cache)
      | none => Program.run (answerCall upstream) otherwise cache := by
  cases cached with
  | false => rfl
  | true =>
    rw [orCached, if_pos rfl, if_pos rfl]
    change Program.run (answerCall upstream) (match cache key.url with
      | some response => .done (.ok response)
      | none => otherwise) cache = _
    cases cache key.url with
    | none => rfl
    | some response => rfl

theorem run_cacheResponse (key : Request) (response : Response) :
    ∃ cache', Program.run (answerCall upstream) (cacheResponse cached key response) cache
      = (.ok response, cache') ∧ ∀ url, url ≠ key.url → cache' url = cache url := by
  unfold cacheResponse
  split
  · refine ⟨Function.update cache key.url (some response), rfl, ?_⟩
    intro url hurl
    exact Function.update_of_ne hurl _ _
  · exact ⟨cache, rfl, fun _ _ => rfl⟩

theorem run_fetchVersionMetadata {request : Request} {version : Str} {members : List (JsString × Json)}
    (hcache : ∀ response, cache (metadataUrl request.url version) = some response →
      Lists response members)
    (hmetadata : ∀ r : Request, r.method = "GET".toList → r.url = metadataUrl request.url version →
      ∃ response, upstream r = .ok response ∧ Lists response members) :
    ∃ response cache', Program.run (answerCall upstream)
      (fetchVersionMetadata cached request version) cache = (.ok response, cache') ∧
      Lists response members ∧ ∀ url, url ≠ metadataUrl request.url version → cache' url = cache url := by
  rw [fetchVersionMetadata, run_orCached]
  cases hfound : if cached then cache (cacheKey (metadataUrl request.url version)).url else none with
  | some response =>
    have hheld : cache (metadataUrl request.url version) = some response := by
      cases cached with
      | false => cases hfound
      | true => exact hfound
    exact ⟨response, cache, rfl, hcache response hheld, fun _ _ => rfl⟩
  | none =>
    obtain ⟨response, hresponse, hlists⟩ :=
      hmetadata ⟨"GET".toList, metadataUrl request.url version, request.headers, []⟩ rfl rfl
    obtain ⟨cache', hrun, hothers⟩ := @run_cacheResponse upstream cached cache
      (cacheKey (metadataUrl request.url version)) response
    refine ⟨response, cache', ?_, hlists, hothers⟩
    rw [← hrun]
    exact Program.run_andThen _ (congrArg (·, cache) hresponse)

/-- A read of the module comes to its bytes if they match the checksum, and else to an
    error that leaves nothing cached. -/
def ReadsModule (bytes : Bytes) (checksum : Str) (moduleUrl : Url) (result : Except Str Response × Cache) :
    Prop :=
  (sha256Checksum bytes = checksum →
    ∃ response, result.1 = .ok response ∧ response.status = 200 ∧ response.body = bytes) ∧
  (sha256Checksum bytes ≠ checksum →
    (∃ response, result.1 = .ok response ∧ response.status = 502) ∧ result.2 moduleUrl = none)

section
variable {identity : PackageName} {version path : Str} (hscope : UrlSegment identity.scope)
  (hname : UrlSegment identity.name) (hversion : UrlSegment version)
  (hpath : Service.validatePackagePath path = .ok ()) {request : Request}
  (hmethod : request.method = "GET".toList)
  (hurl : request.url.pathname = UrlPath.pathname (filePath identity version path))
  {members : List (JsString × Json)} (hjsr : IsJsrManifest members)
  (hcache : ∀ response, cache ⟨registryOrigin, versionMetadataPath identity version, []⟩ = some response →
    Lists response members)
  (hmetadata : ∀ r : Request, r.method = "GET".toList →
    r.url = ⟨registryOrigin, versionMetadataPath identity version, []⟩ →
    ∃ response, upstream r = .ok response ∧ Lists response members)
  (hmodule : cache (upstreamRequest request).url = none)
include hscope hname hversion hpath hmethod hurl hjsr hcache hmetadata hmodule

theorem fallThrough_module : ∃ response cache',
    Program.run (answerCall upstream) (fallThrough cached request) cache = (.ok response, cache') ∧
      response.status = 502 ∧ cache' (upstreamRequest request).url = none := by
  have hupstream : (upstreamRequest request).url.pathname
      = UrlPath.pathname (filePath identity version path) := hurl
  have himmutable := immutablePath_filePath hscope hname hversion hpath
  have hmeta : metadataUrl (upstreamRequest request).url version
      = ⟨registryOrigin, versionMetadataPath identity version, []⟩ :=
    metadataUrl_filePath hscope hname hversion hpath _ hupstream
  have hne : (upstreamRequest request).url ≠ metadataUrl (upstreamRequest request).url version := by
    intro he
    have hpaths := congrArg Url.pathname he
    rw [hmeta, hupstream, (pathname_filePath hscope hname hversion hpath).1] at hpaths
    simp only [filePath, versionMetadataPath, List.cons.injEq, true_and, List.append_cancel_left_eq] at hpaths
    exact absurd (List.cons.inj hpaths).1 (by decide)
  rw [← hmeta] at hcache hmetadata
  obtain ⟨metadata, cache', hrun, hlists, hothers⟩ :=
    @run_fetchVersionMetadata upstream cached cache (upstreamRequest request) version members hcache hmetadata
  have hhead : path.head? ≠ some '/' := by
    intro hslash
    obtain ⟨tail, rfl⟩ : ∃ tail, path = '/' :: tail := by
      cases path with
      | nil => cases hslash
      | cons c tail => exact ⟨tail, congrArg (· :: tail) (Option.some.inj hslash)⟩
    have hpart : [] ∈ ('/' :: tail).splitOn '/' := by
      rw [Segments.splitOn_cons_self]
      exact List.mem_cons_self
    exact (keySegment_component (Service.accepted_splitOn hpath [] hpart)).nonempty rfl
  refine ⟨.text 502 "upstream version metadata has no usable checksum for this module".toList [], cache',
    ?_, rfl, ?_⟩
  · have hnone : (if cached then cache (cacheKey (upstreamRequest request).url).url else none) = none := by
      cases cached with
      | false => rfl
      | true => exact hmodule
    rw [fallThrough, hmethod, if_neg (by simp), hupstream, himmutable]
    simp only [run_orCached, hnone]
    rw [Program.run_andThen _ hrun, fetchModule, hlists.1, expectedChecksum_jsr hlists hjsr hhead]
    rfl
  · rw [hothers _ hne, hmodule]

end

/-- Upstream lists the module with a checksum and has bytes for it. -/
structure ListedModule (upstream : Request → Except Str Response) (members : List (JsString × Json))
    (metadataUrl moduleUrl : Url) (path : Str) (bytes : Bytes) (checksum : Str) : Prop where
  manifest : IsJsrManifest members
  entry : ((Json.object members).get? ('/' :: path)).bind (·.get? "checksum".toList)
    = some (.string (.text checksum))
  metadata : ∀ r : Request, r.method = "GET".toList → r.url = metadataUrl →
    ∃ response, upstream r = .ok response ∧ Lists response members
  served : ∀ r : Request, r.method = "GET".toList → r.url = moduleUrl →
    ∃ response, upstream r = .ok response ∧ response.status = 200 ∧ response.body = bytes

/-- A module read keeps its promise exactly when it is to fail: when upstream has
    other bytes than the manifest lists. -/
theorem readsModule_iff {identity : PackageName} {version path : Str} (hscope : UrlSegment identity.scope)
    (hname : UrlSegment identity.name) (hversion : UrlSegment version)
    (hpath : Service.validatePackagePath path = .ok ()) {request : Request}
    (hmethod : request.method = "GET".toList)
    (hurl : request.url.pathname = UrlPath.pathname (filePath identity version path))
    {members : List (JsString × Json)} {bytes : Bytes} {checksum : Str}
    (hlisted : ListedModule upstream members ⟨registryOrigin, versionMetadataPath identity version, []⟩
      (upstreamRequest request).url path bytes checksum)
    (hcache : ∀ response, cache ⟨registryOrigin, versionMetadataPath identity version, []⟩ = some response →
      Lists response members)
    (hmodule : cache (upstreamRequest request).url = none) :
    ReadsModule bytes checksum (upstreamRequest request).url
        (Program.run (answerCall upstream) (fallThrough cached request) cache) ↔
      sha256Checksum bytes ≠ checksum := by
  obtain ⟨response, cache', hrun, hstatus, hnone⟩ := @fallThrough_module upstream cached cache _ _ _ hscope
    hname hversion hpath _ hmethod hurl _ hlisted.manifest hcache hlisted.metadata hmodule
  rw [hrun]
  constructor
  · intro hreads heq
    obtain ⟨served, hserved, hok, -⟩ := hreads.1 heq
    rw [← Except.ok.inj hserved, hstatus] at hok
    exact absurd hok (by decide)
  · intro hne
    exact ⟨fun heq => absurd heq hne, fun _ => ⟨⟨response, rfl, hstatus⟩, hnone⟩⟩

def publishedUpstream (job : Materializer.MaterializationJob) (files : List ArtifactFile) (bytes : Bytes)
    (request : Request) : Except Str Response :=
  if request.url.pathname = versionMetadataPath job.package job.version then
    .ok ⟨200, [], (Publication.metadataObject job files ∅).bytes⟩
  else .ok ⟨200, [], bytes⟩

theorem publishedUpstream_listed {job : Materializer.MaterializationJob} {files : List ArtifactFile}
    (hnodup : (files.map ArtifactFile.path).Nodup) {file : ArtifactFile} (hfile : file ∈ files)
    (bytes : Bytes) {moduleUrl : Url}
    (hurl : moduleUrl.pathname ≠ versionMetadataPath job.package job.version) :
    ListedModule (publishedUpstream job files bytes)
      ((Publication.manifestOf files).toList.map fun entry =>
        (.text entry.1, Publication.manifestEntryJson entry.2))
      ⟨registryOrigin, versionMetadataPath job.package job.version, []⟩ moduleUrl file.path bytes
      (sha256Checksum file.bytes) where
  manifest := isJsrManifest_publish hnodup
  entry := by
    rw [get?_publish hnodup hfile]
    rfl
  metadata := by
    intro r _ hr
    have hparse := Json.parse_decode_write
      (Publication.valid_metadataJson (Publication.metadataOf job (Publication.manifestOf files) ∅))
    refine ⟨⟨200, [], (Publication.metadataObject job files ∅).bytes⟩, ?_, rfl, _, hparse, rfl⟩
    rw [publishedUpstream, hr, if_pos rfl]
  served := by
    intro r _ hr
    refine ⟨⟨200, [], bytes⟩, ?_, rfl, rfl⟩
    rw [publishedUpstream, hr, if_neg hurl]

def routeRequest : Request :=
  ⟨"GET".toList, ⟨"https://proxy.invalid".toList,
    UrlPath.pathname (filePath Publication.routeJob.package Publication.routeJob.version
      Publication.routeFile.path), []⟩, [], []⟩

theorem routeRequest_pathname : (upstreamRequest routeRequest).url.pathname
    ≠ versionMetadataPath Publication.routeJob.package Publication.routeJob.version := by
  decide +kernel

theorem readsModule_iff_route : ReadsModule []
      (sha256Checksum Publication.routeFile.bytes) (upstreamRequest routeRequest).url
      (Program.run (answerCall (publishedUpstream Publication.routeJob [Publication.routeFile] []))
        (fallThrough true routeRequest) fun _ => none) ↔
    sha256Checksum [] ≠ sha256Checksum Publication.routeFile.bytes :=
  readsModule_iff (urlSegment_scope Publication.routeJob_isAllocated.scope)
    (urlSegment_scope Publication.routeJob_isAllocated.name)
    (urlSegment_version Publication.routeJob_isAllocated)
    (Publication.routeFile_accepted _ List.mem_cons_self) rfl rfl
    (publishedUpstream_listed Publication.routeFile_nodup List.mem_cons_self [] routeRequest_pathname)
    (fun _ h => nomatch h) rfl

/-- Upstream serves a published file with its own checksum, and the read fails. -/
theorem routeFile_not_read : ¬ ReadsModule Publication.routeFile.bytes
    (sha256Checksum Publication.routeFile.bytes) (upstreamRequest routeRequest).url
    (Program.run (answerCall (publishedUpstream Publication.routeJob [Publication.routeFile]
      Publication.routeFile.bytes)) (fallThrough true routeRequest) fun _ => none) := by
  have hlisted := publishedUpstream_listed Publication.routeFile_nodup List.mem_cons_self
    Publication.routeFile.bytes routeRequest_pathname
  obtain ⟨response, cache', hrun, hstatus, -⟩ := @fallThrough_module _ true (fun _ => none) _ _ _
    (urlSegment_scope Publication.routeJob_isAllocated.scope)
    (urlSegment_scope Publication.routeJob_isAllocated.name)
    (urlSegment_version Publication.routeJob_isAllocated)
    (Publication.routeFile_accepted _ List.mem_cons_self) routeRequest rfl rfl _ hlisted.manifest
    (fun _ h => nomatch h) hlisted.metadata rfl
  rw [hrun]
  intro hreads
  obtain ⟨served, hserved, hok, -⟩ := hreads.1 rfl
  rw [← Except.ok.inj hserved, hstatus] at hok
  exact absurd hok (by decide)

end Fallthrough
end JsrProxy
