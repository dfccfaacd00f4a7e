import JsrProxy.FallthroughModules
import JsrProxy.ParsedPaths

set_option autoImplicit false

/-!
# The cache of the fall-through

What the cache holds after any number of forwarded requests, whatever upstream answers
and however its answers change. A module is only kept next to the metadata that it was
checked against, and nothing is ever replaced.
-/
namespace JsrProxy.Fallthrough

structure Surroundings where
  upstream : ℕ → Request → Except Str Response
  trouble : ℕ → Option Str

structure Moment where
  time : ℕ
  cache : Cache

namespace Moment

def tick (moment : Moment) : Moment := ⟨moment.time + 1, moment.cache⟩

def keep (moment : Moment) (url : Url) (response : Response) : Moment :=
  ⟨moment.time + 1, Function.update moment.cache url (some response)⟩

end Moment

/-- Each call takes its time. The cache keeps what it is given until it is given
    something else, and fails without an effect. -/
def Surroundings.answerCall (surroundings : Surroundings) (moment : Moment) :
    (call : FallthroughCall) → call.Answer × Moment
  | .fetch request => (surroundings.upstream moment.time request, moment.tick)
  | .cacheMatch key =>
    match surroundings.trouble moment.time with
    | some message => (.error message, moment.tick)
    | none => (.ok (moment.cache key.url), moment.tick)
  | .cachePut key response =>
    match surroundings.trouble moment.time with
    | some message => (.error message, moment.tick)
    | none => (.ok (), moment.keep key.url response)

def ReceivedRequest : Type := { request : Request // ∃ input, request.url.pathname = UrlPath.pathname input }

def forward (surroundings : Surroundings) (moment : Moment) (request : ReceivedRequest) : Moment :=
  (Program.run surroundings.answerCall (fallThrough true request.1) moment).2

def forwarded (surroundings : Surroundings) (requests : List ReceivedRequest) : Moment :=
  Executions.run (forward surroundings) ⟨0, fun _ => none⟩ requests

variable {surroundings : Surroundings} {moment : Moment}

def Adds (url : Url) (before after : Cache) : Prop :=
  after = before ∨ ∃ response, before url = none ∧ after = Function.update before url (some response)

theorem run_orCached_cases (key : Request) (otherwise : Forwarding) :
    let result := Program.run surroundings.answerCall (orCached true key otherwise) moment
    (∃ message, result = (.error message, moment.tick)) ∨
      (∃ response, moment.cache key.url = some response ∧ result = (.ok response, moment.tick)) ∨
      (moment.cache key.url = none ∧
        result = Program.run surroundings.answerCall otherwise moment.tick) := by
  dsimp only
  rw [orCached, if_pos rfl]
  unfold Program.andThen Program.perform
  simp only [Program.bind, Program.run_call, Surroundings.answerCall]
  cases htrouble : surroundings.trouble moment.time with
  | some message => exact .inl ⟨message, rfl⟩
  | none =>
    cases hfound : moment.cache key.url with
    | some response => exact .inr (.inl ⟨response, rfl, rfl⟩)
    | none => exact .inr (.inr ⟨rfl, rfl⟩)

theorem run_fetch (request : Request) : Program.run surroundings.answerCall (fetch request) moment
    = (surroundings.upstream moment.time request, moment.tick) := rfl

theorem run_cacheResponse_cases (key : Request) (response : Response) :
    let result := Program.run surroundings.answerCall (cacheResponse true key response) moment
    (response.ok = false ∧ result = (.ok response, moment)) ∨
      (∃ message, result = (.error message, moment.tick)) ∨
      (response.ok = true ∧ result = (.ok response, moment.keep key.url response)) := by
  dsimp only
  rw [cacheResponse, Bool.true_and]
  cases hok : response.ok with
  | false => exact .inl ⟨rfl, rfl⟩
  | true =>
    rw [if_pos rfl]
    unfold Program.andThen Program.perform
    simp only [Program.bind, Program.run_call, Surroundings.answerCall]
    cases htrouble : surroundings.trouble moment.time with
    | some message => exact .inr (.inl ⟨message, rfl⟩)
    | none => exact .inr (.inr ⟨trivial, rfl⟩)

theorem run_fetchVersionMetadata_cases (request : Request) (version : Str) :
    let result := Program.run surroundings.answerCall (fetchVersionMetadata true request version) moment
    Adds (metadataUrl request.url version) moment.cache result.2.cache ∧
      ∀ metadata, result.1 = .ok metadata → metadata.ok = true →
        result.2.cache (metadataUrl request.url version) = some metadata := by
  dsimp only
  rw [fetchVersionMetadata]
  rcases run_orCached_cases (cacheKey (metadataUrl request.url version)) _ with
    ⟨message, hrun⟩ | ⟨cached, hfound, hrun⟩ | ⟨hnone, hrun⟩
  · rw [hrun]
    refine ⟨.inl rfl, ?_⟩
    intro metadata hm
    cases hm
  · rw [hrun]
    refine ⟨.inl rfl, ?_⟩
    intro metadata hm _
    rw [← Except.ok.inj hm]
    exact hfound
  · rw [hrun]
    cases hfetch : surroundings.upstream moment.tick.time
        ⟨"GET".toList, metadataUrl request.url version, request.headers, []⟩ with
    | error message =>
      rw [Program.run_andThen_error _ (by rw [run_fetch, hfetch])]
      refine ⟨.inl rfl, ?_⟩
      intro metadata hm
      cases hm
    | ok response =>
      rw [Program.run_andThen _ (by rw [run_fetch, hfetch])]
      rcases run_cacheResponse_cases (cacheKey (metadataUrl request.url version)) response with
        ⟨hok, hrun⟩ | ⟨message, hrun⟩ | ⟨hok, hrun⟩
      · rw [hrun]
        refine ⟨.inl rfl, ?_⟩
        intro metadata hm hgood
        rw [← Except.ok.inj hm, hok] at hgood
        cases hgood
      · rw [hrun]
        refine ⟨.inl rfl, ?_⟩
        intro metadata hm
        cases hm
      · rw [hrun]
        refine ⟨.inr ⟨response, hnone, rfl⟩, ?_⟩
        intro metadata hm _
        rw [← Except.ok.inj hm]
        exact Function.update_self _ _ _

/-- All that is checked before a module is kept. -/
structure Checked (surroundings : Surroundings) (upstream : Request) (version path : Str)
    (start mid : Moment) (metadata response : Response) : Prop where
  lookedUp : Program.run surroundings.answerCall (fetchVersionMetadata true upstream version) start
    = (.ok metadata, mid)
  found : metadata.ok = true
  listed : expectedChecksum (readVersionMetadata metadata) path
    = .ok (some (sha256Checksum response.body))
  served : surroundings.upstream mid.time upstream = .ok response
  good : response.ok = true

/-- What forwarding a request may do to the cache. -/
inductive Effect (surroundings : Surroundings) (request : Request) (moment : Moment) : Cache → Prop
  | unchanged : Effect surroundings request moment moment.cache
  | versionMetadata (response : Response)
      (hpath : immutablePath request.url.pathname = some .versionMetadata)
      (hnone : moment.cache (upstreamRequest request).url = none) :
      Effect surroundings request moment
        (Function.update moment.cache (upstreamRequest request).url (some response))
  | lookup (version path : Str) (after : Cache)
      (hpath : immutablePath request.url.pathname = some (.module version path))
      (hadds : Adds (metadataUrl (upstreamRequest request).url version) moment.cache after) :
      Effect surroundings request moment after
  | module (version path : Str) (mid : Moment) (metadata response : Response)
      (hpath : immutablePath request.url.pathname = some (.module version path))
      (hget : request.method = "GET".toList)
      (hnone : moment.cache (upstreamRequest request).url = none)
      (hchecked : Checked surroundings (upstreamRequest request) version path moment.tick mid metadata
        response) :
      Effect surroundings request moment
        (Function.update mid.cache (upstreamRequest request).url (some response))

theorem verified_eq {response served : Response} (h : verified response response.body = .ok served) :
    served = response := by
  unfold verified at h
  split_ifs at h
  exact (Except.ok.inj h).symm

theorem run_fetchModule_cases (upstream : Request) (path : Str) (metadata : Response) :
    let result := Program.run surroundings.answerCall (fetchModule true upstream path metadata) moment
    result.2.cache = moment.cache ∨ ∃ response, metadata.ok = true ∧
      expectedChecksum (readVersionMetadata metadata) path
        = .ok (some (sha256Checksum response.body)) ∧
      surroundings.upstream moment.time upstream = .ok response ∧ response.ok = true ∧
      result.2.cache = Function.update moment.cache upstream.url (some response) := by
  dsimp only
  unfold fetchModule
  cases hfound : metadata.ok with
  | false => exact .inl rfl
  | true =>
    rw [if_neg (by decide)]
    cases hlisted : expectedChecksum (readVersionMetadata metadata) path with
    | error message => exact .inl rfl
    | ok checksum =>
      cases checksum with
      | none => exact .inl rfl
      | some expected =>
        dsimp only
        cases hfetch : surroundings.upstream moment.time upstream with
        | error message =>
          rw [Program.run_andThen_error _ (by rw [run_fetch, hfetch])]
          exact .inl rfl
        | ok response =>
          rw [Program.run_andThen _ (by rw [run_fetch, hfetch]), checkModule]
          cases hok : response.ok with
          | false => exact .inl rfl
          | true =>
            rw [if_neg (by decide)]
            by_cases hsum : sha256Checksum response.body = expected
            · rw [if_neg (not_not_intro hsum)]
              cases hserved : verified response response.body with
              | error message => exact .inl rfl
              | ok served =>
                obtain rfl := verified_eq hserved
                dsimp only
                rcases run_cacheResponse_cases (cacheKey upstream.url) served with
                  ⟨-, hrun⟩ | ⟨message, hrun⟩ | ⟨-, hrun⟩
                · rw [hrun]
                  exact .inl rfl
                · rw [hrun]
                  exact .inl rfl
                · rw [hrun]
                  exact .inr ⟨served, rfl, by rw [hsum], rfl, hok, rfl⟩
            · rw [if_pos hsum]
              exact .inl rfl

theorem fallThrough_effect (request : Request) : Effect surroundings request moment
    (Program.run surroundings.answerCall (fallThrough true request) moment).2.cache := by
  unfold fallThrough
  dsimp only
  by_cases hget : request.method = "GET".toList
  · rw [if_neg (not_not_intro hget)]
    cases hpath : immutablePath (upstreamRequest request).url.pathname with
    | none => exact .unchanged
    | some kind =>
      cases kind with
      | versionMetadata =>
        dsimp only
        rcases run_orCached_cases (cacheKey (upstreamRequest request).url) _ with
          ⟨message, hrun⟩ | ⟨cached, -, hrun⟩ | ⟨hnone, hrun⟩
        · rw [hrun]
          exact .unchanged
        · rw [hrun]
          exact .unchanged
        · rw [hrun]
          cases hfetch : surroundings.upstream moment.tick.time (upstreamRequest request) with
          | error message =>
            rw [Program.run_andThen_error _ (by rw [run_fetch, hfetch])]
            exact .unchanged
          | ok response =>
            rw [Program.run_andThen _ (by rw [run_fetch, hfetch])]
            rcases run_cacheResponse_cases (cacheKey (upstreamRequest request).url) response with
              ⟨-, hrun⟩ | ⟨message, hrun⟩ | ⟨-, hrun⟩
            · rw [hrun]
              exact .unchanged
            · rw [hrun]
              exact .unchanged
            · rw [hrun]
              exact .versionMetadata response hpath hnone
      | module version path =>
        dsimp only
        rcases run_orCached_cases (cacheKey (upstreamRequest request).url) _ with
          ⟨message, hrun⟩ | ⟨cached, -, hrun⟩ | ⟨hnone, hrun⟩
        · rw [hrun]
          exact .unchanged
        · rw [hrun]
          exact .unchanged
        · rw [hrun]
          obtain ⟨hadds, -⟩ := @run_fetchVersionMetadata_cases surroundings moment.tick
            (upstreamRequest request) version
          cases hlookup : Program.run surroundings.answerCall
              (fetchVersionMetadata true (upstreamRequest request) version) moment.tick with
          | mk result mid =>
            rw [hlookup] at hadds
            cases result with
            | error message =>
              rw [Program.run_andThen_error _ hlookup]
              exact .lookup version path _ hpath hadds
            | ok metadata =>
              rw [Program.run_andThen _ hlookup]
              rcases run_fetchModule_cases (upstreamRequest request) path metadata with
                hkept | ⟨response, hfound, hlisted, hserved, hgood, hkept⟩
              · rw [hkept]
                exact .lookup version path _ hpath hadds
              · rw [hkept]
                exact .module version path mid metadata response hpath hget hnone
                  ⟨hlookup, hfound, hlisted, hserved, hgood⟩
  · rw [if_pos hget]
    exact .unchanged

def modulePath (identity : PackageName) (version path : Str) : Str :=
  '/' :: '@' :: (identity.scope ++ '/' :: (identity.name ++ '/' :: (version ++ '/' :: path)))

def versionMetadataUrl (identity : PackageName) (version : Str) : Url :=
  ⟨registryOrigin, versionMetadataPath identity version, []⟩

structure Unsplit (identity : PackageName) (version : Str) : Prop where
  scope : '/' ∉ identity.scope
  name : '/' ∉ identity.name
  version : '/' ∉ version

theorem splitOn_modulePath {identity : PackageName} {version : Str} (h : Unsplit identity version)
    (path : Str) : (modulePath identity version path).splitOn '/'
      = [] :: ('@' :: identity.scope) :: identity.name :: version :: path.splitOn '/' := by
  have hscope : '/' ∉ '@' :: identity.scope := by
    simp [h.scope]
  rw [modulePath, Segments.splitOn_cons_self, ← List.cons_append,
    List.splitOn_append_cons_self_of_not_mem hscope, List.splitOn_append_cons_self_of_not_mem h.name,
    List.splitOn_append_cons_self_of_not_mem h.version]

theorem splitOn_versionMetadataPath {identity : PackageName} {version : Str}
    (h : Unsplit identity version) : (versionMetadataPath identity version).splitOn '/'
      = [[], '@' :: identity.scope, identity.name, version ++ "_meta.json".toList] := by
  have hscope : '/' ∉ '@' :: identity.scope := by
    simp [h.scope]
  have hlast : '/' ∉ version ++ "_meta.json".toList := by
    rw [List.mem_append, not_or]
    exact ⟨h.version, by decide⟩
  rw [versionMetadataPath, Segments.splitOn_cons_self, ← List.cons_append,
    List.splitOn_append_cons_self_of_not_mem hscope, List.splitOn_append_cons_self_of_not_mem h.name,
    List.splitOn_eq_singleton hlast]

theorem immutablePath_versionMetadataPath {identity : PackageName} {version : Str}
    (h : Unsplit identity version) :
    immutablePath (versionMetadataPath identity version) = some .versionMetadata := by
  have hsuffix : "_meta.json".toList.isSuffixOf (version ++ "_meta.json".toList) = true :=
    List.isSuffixOf_iff_suffix.2 (List.suffix_append _ _)
  rw [immutablePath, splitOn_versionMetadataPath h]
  exact if_pos ⟨rfl, hsuffix⟩

theorem decodeModulePath_some {raw path : Str} (h : decodeModulePath raw = some path) :
    UrlPath.decodeURIComponent raw = some path := by
  unfold decodeModulePath at h
  cases hdecoded : UrlPath.decodeURIComponent raw with
  | none =>
    rw [hdecoded] at h
    cases h
  | some decoded =>
    rw [hdecoded] at h
    dsimp only at h
    split_ifs at h
    exact h

/-- What is immutable under a module's path is a module, by its decoded path. -/
theorem immutablePath_modulePath {identity : PackageName} {version : Str} (h : Unsplit identity version)
    {raw : Str} (hpath : immutablePath (modulePath identity version raw) ≠ none) :
    ∃ path, immutablePath (modulePath identity version raw) = some (.module version path) ∧
      UrlPath.decodeURIComponent raw = some path := by
  obtain ⟨file, rest, hcons⟩ := List.exists_cons_of_ne_nil (List.splitOn_ne_nil '/' raw)
  have hraw : ['/'].intercalate (file :: rest) = raw := by
    rw [← hcons, List.intercalate_splitOn]
  rw [immutablePath, splitOn_modulePath h, hcons] at hpath ⊢
  dsimp only at hpath ⊢
  rw [hraw] at hpath ⊢
  split_ifs at hpath ⊢ with hnamed
  · cases hdecoded : decodeModulePath raw with
    | none =>
      rw [hdecoded] at hpath
      exact absurd rfl hpath
    | some path =>
      rw [hdecoded] at hpath
      dsimp only at hpath ⊢
      split_ifs at hpath ⊢ with hempty
      · exact absurd rfl hpath
      · exact ⟨path, rfl, decodeModulePath_some hdecoded⟩
  · exact absurd rfl hpath

theorem parsedSegment_metadata {version : Str} (h : UrlPath.ParsedSegment version) :
    UrlPath.ParsedSegment (version ++ "_meta.json".toList) where
  plain := by
    intro c hc
    rcases List.mem_append.1 hc with hc | hc
    · exact h.plain c hc
    · have hsuffix : "_meta.json".toList.all
          (fun d => UrlPath.isPlain d && !UrlPath.inPathSet d) = true := by decide
      have hchar := List.all_eq_true.1 hsuffix c hc
      rw [Bool.and_eq_true, Bool.not_eq_true'] at hchar
      exact hchar
  notSingleDot := by
    apply decide_eq_false
    intro hm
    have hlength : ∀ s ∈ [".".toList, "%2e".toList], s.length ≤ 6 := by decide
    have hshort := hlength _ hm
    simp at hshort
  notDoubleDot := by
    apply decide_eq_false
    intro hm
    have hlength : ∀ s ∈ ["..".toList, ".%2e".toList, "%2e.".toList, "%2e%2e".toList],
        s.length ≤ 6 := by decide
    have hshort := hlength _ hm
    simp at hshort

theorem immutablePath_module_segments {segments : List Str} {pathname version path : Str}
    (hsplit : pathname.splitOn '/' = [] :: segments)
    (h : immutablePath pathname = some (.module version path)) :
    ∃ scope name file rest, segments = ('@' :: scope) :: name :: version :: file :: rest := by
  rw [immutablePath, hsplit] at h
  rcases segments with - | ⟨scope, - | ⟨name, - | ⟨third, - | ⟨file, rest⟩⟩⟩⟩
  · cases h
  · cases h
  · cases h
  · dsimp only at h
    split_ifs at h
    cases h
  · dsimp only at h
    split_ifs at h with hnamed
    cases hdecoded : decodeModulePath (['/'].intercalate (file :: rest)) with
    | none =>
      rw [hdecoded] at h
      cases h
    | some decoded =>
      rw [hdecoded] at h
      dsimp only at h
      split_ifs at h
      cases h
      cases scope with
      | nil => cases hnamed.1
      | cons c scope =>
        rw [Option.some.inj hnamed.1]
        exact ⟨scope, name, file, rest, rfl⟩

theorem immutablePath_module {url : Url} {version path : Str}
    (hparsed : ∃ input, url.pathname = UrlPath.pathname input)
    (h : immutablePath url.pathname = some (.module version path)) :
    ∃ identity raw, Unsplit identity version ∧ url.pathname = modulePath identity version raw ∧
      metadataUrl url version = ⟨url.origin, versionMetadataPath identity version, []⟩ := by
  obtain ⟨input, hinput⟩ := hparsed
  obtain ⟨segments, hne, hsegments, hpathname⟩ := UrlPath.pathname_parsed input
  rw [← hinput] at hpathname
  have hsplit := UrlPath.splitOn_parsed hne hsegments
  rw [← hpathname] at hsplit
  obtain ⟨scope, name, file, rest, rfl⟩ := immutablePath_module_segments hsplit h
  have hscope := hsegments ('@' :: scope) (by simp)
  have hname := hsegments name (by simp)
  have hversion := hsegments version (by simp)
  have hmetadata : ∀ s ∈ ['@' :: scope, name, version ++ "_meta.json".toList],
      UrlPath.ParsedSegment s := by
    intro s hs
    simp only [List.mem_cons, List.not_mem_nil, or_false] at hs
    rcases hs with rfl | rfl | rfl
    · exact hscope
    · exact hname
    · exact parsedSegment_metadata hversion
  refine ⟨⟨scope, name⟩, ['/'].intercalate (file :: rest), ⟨?_, hname.noSlash, hversion.noSlash⟩, ?_, ?_⟩
  · exact fun hc => hscope.noSlash (List.mem_cons_of_mem _ hc)
  · rw [hpathname, modulePath]
    simp only [List.flatMap_cons]
    rw [← List.flatMap_cons, UrlPath.flatMap_slash (List.cons_ne_nil _ _)]
    simp
  · have hjoined : ['/'].intercalate ((url.pathname.splitOn '/').take 3) ++
        '/' :: version ++ "_meta.json".toList
        = ['@' :: scope, name, version ++ "_meta.json".toList].flatMap ('/' :: ·) := by
      rw [hsplit]
      simp [List.intercalate_cons_of_ne_nil]
    rw [metadataUrl, hjoined, UrlPath.pathname_of_parsed (List.cons_ne_nil _ _) hmetadata]
    simp [versionMetadataPath]

/-- What holds of every cache. Each module stands next to metadata that lists it. -/
structure Intact (cache : Cache) : Prop where
  origin : ∀ url response, cache url = some response → url.origin = registryOrigin
  parsed : ∀ url response, cache url = some response → ∃ input, url.pathname = UrlPath.pathname input
  immutable : ∀ url response, cache url = some response → immutablePath url.pathname ≠ none
  checked : ∀ url response version path, cache url = some response →
    immutablePath url.pathname = some (.module version path) →
    ∃ metadata, cache (metadataUrl url version) = some metadata ∧
      expectedChecksum (readVersionMetadata metadata) path
        = .ok (some (sha256Checksum response.body))

def Cache.Grows (before after : Cache) : Prop :=
  ∀ url response, before url = some response → after url = some response

theorem grows_update {cache : Cache} {url : Url} (h : cache url = none) (response : Response) :
    Cache.Grows cache (Function.update cache url (some response)) := by
  intro other held hheld
  have hne : other ≠ url := by
    rintro rfl
    rw [h] at hheld
    cases hheld
  rw [Function.update_of_ne hne]
  exact hheld

theorem Adds.grows {url : Url} {before after : Cache} (h : Adds url before after) :
    Cache.Grows before after := by
  rcases h with rfl | ⟨response, hnone, rfl⟩
  · exact fun _ _ h => h
  · exact grows_update hnone response

theorem Adds.others {url : Url} {before after : Cache} (h : Adds url before after) {other : Url}
    (hne : other ≠ url) : after other = before other := by
  rcases h with rfl | ⟨response, -, rfl⟩
  · rfl
  · exact Function.update_of_ne hne _ _

/-- A new entry is metadata, or a module that the cached metadata lists. -/
theorem Intact.update {cache : Cache} (h : Intact cache) {url : Url} {response : Response}
    (hnone : cache url = none) (horigin : url.origin = registryOrigin)
    (hparsed : ∃ input, url.pathname = UrlPath.pathname input)
    (himmutable : immutablePath url.pathname ≠ none)
    (hchecked : ∀ version path, immutablePath url.pathname = some (.module version path) →
      ∃ metadata, cache (metadataUrl url version) = some metadata ∧
        expectedChecksum (readVersionMetadata metadata) path
          = .ok (some (sha256Checksum response.body))) :
    Intact (Function.update cache url (some response)) := by
  have hentry : ∀ {other held}, Function.update cache url (some response) other = some held →
      (other = url ∧ held = response) ∨ cache other = some held := by
    intro other held hheld
    by_cases he : other = url
    · rw [he, Function.update_self] at hheld
      exact .inl ⟨he, (Option.some.inj hheld).symm⟩
    · rw [Function.update_of_ne he] at hheld
      exact .inr hheld
  refine ⟨?_, ?_, ?_, ?_⟩
  · intro other held hheld
    rcases hentry hheld with ⟨rfl, -⟩ | hheld
    · exact horigin
    · exact h.origin other held hheld
  · intro other held hheld
    rcases hentry hheld with ⟨rfl, -⟩ | hheld
    · exact hparsed
    · exact h.parsed other held hheld
  · intro other held hheld
    rcases hentry hheld with ⟨rfl, -⟩ | hheld
    · exact himmutable
    · exact h.immutable other held hheld
  · intro other held version path hheld hpath
    rcases hentry hheld with ⟨rfl, rfl⟩ | hheld
    · obtain ⟨metadata, hmetadata, hlisted⟩ := hchecked version path hpath
      exact ⟨metadata, grows_update hnone _ _ _ hmetadata, hlisted⟩
    · obtain ⟨metadata, hmetadata, hlisted⟩ := h.checked other held version path hheld hpath
      exact ⟨metadata, grows_update hnone _ _ _ hmetadata, hlisted⟩

theorem intact_empty : Intact fun _ => none where
  origin := fun _ _ h => nomatch h
  parsed := fun _ _ h => nomatch h
  immutable := fun _ _ h => nomatch h
  checked := fun _ _ _ _ h => nomatch h

theorem metadataUrl_origin (url : Url) (version : Str) :
    (metadataUrl url version).origin = url.origin := by
  rw [metadataUrl]

theorem metadataUrl_parsed (url : Url) (version : Str) :
    ∃ input, (metadataUrl url version).pathname = UrlPath.pathname input := by
  refine ⟨['/'].intercalate ((url.pathname.splitOn '/').take 3) ++
    '/' :: version ++ "_meta.json".toList, ?_⟩
  rw [metadataUrl]

section
variable {url : Url} {version path : Str} (hparsed : ∃ input, url.pathname = UrlPath.pathname input)
  (hpath : immutablePath url.pathname = some (.module version path))
include hparsed hpath

theorem immutablePath_metadataUrl :
    immutablePath (metadataUrl url version).pathname = some .versionMetadata := by
  obtain ⟨identity, raw, hunsplit, -, hurl⟩ := immutablePath_module hparsed hpath
  rw [hurl]
  exact immutablePath_versionMetadataPath hunsplit

theorem metadataUrl_ne {other : Url} {version' path' : Str}
    (hother : immutablePath other.pathname = some (.module version' path')) :
    other ≠ metadataUrl url version := by
  rintro rfl
  rw [immutablePath_metadataUrl hparsed hpath] at hother
  cases hother

theorem Intact.adds {before after : Cache} (h : Intact before) (horigin : url.origin = registryOrigin)
    (hadds : Adds (metadataUrl url version) before after) : Intact after := by
  have hkind := immutablePath_metadataUrl hparsed hpath
  rcases hadds with rfl | ⟨response, hnone, rfl⟩
  · exact h
  · apply h.update hnone ((metadataUrl_origin url version).trans horigin) (metadataUrl_parsed url version)
    · rw [hkind]
      exact Option.some_ne_none _
    · intro version' path' hmodule
      rw [hkind] at hmodule
      cases hmodule

end

theorem Checked.kept {upstream : Request} {version path : Str} {start mid : Moment}
    {metadata response : Response}
    (h : Checked surroundings upstream version path start mid metadata response) :
    Adds (metadataUrl upstream.url version) start.cache mid.cache ∧
      mid.cache (metadataUrl upstream.url version) = some metadata := by
  obtain ⟨hadds, hheld⟩ := @run_fetchVersionMetadata_cases surroundings start upstream version
  rw [h.lookedUp] at hadds hheld
  exact ⟨hadds, hheld metadata rfl h.found⟩

/-- Forwarding a request replaces nothing and leaves the cache intact. -/
theorem Effect.preserves {request : Request} {after : Cache}
    (heffect : Effect surroundings request moment after)
    (hparsed : ∃ input, request.url.pathname = UrlPath.pathname input) (h : Intact moment.cache) :
    Intact after ∧ Cache.Grows moment.cache after := by
  have hurl : ∃ input, (upstreamRequest request).url.pathname = UrlPath.pathname input := hparsed
  cases heffect with
  | unchanged => exact ⟨h, fun _ _ h => h⟩
  | versionMetadata response hpath hnone =>
    have hkind : immutablePath (upstreamRequest request).url.pathname = some .versionMetadata := hpath
    refine ⟨h.update hnone rfl hurl ?_ ?_, grows_update hnone response⟩
    · rw [hkind]
      exact Option.some_ne_none _
    · intro version path hmodule
      rw [hkind] at hmodule
      cases hmodule
  | lookup version path after hpath hadds =>
    exact ⟨h.adds hurl hpath rfl hadds, hadds.grows⟩
  | module version path mid metadata response hpath hget hnone hchecked =>
    have hkind : immutablePath (upstreamRequest request).url.pathname
      = some (.module version path) := hpath
    obtain ⟨hadds, hheld⟩ := hchecked.kept
    have hfree : mid.cache (upstreamRequest request).url = none := by
      rw [hadds.others (metadataUrl_ne hurl hpath hkind)]
      exact hnone
    have hmid : Intact mid.cache := h.adds hurl hpath rfl hadds
    refine ⟨hmid.update hfree rfl hurl ?_ ?_, fun url held hhold =>
      grows_update hfree response url held (hadds.grows url held hhold)⟩
    · rw [hkind]
      exact Option.some_ne_none _
    · intro version' path' hmodule
      rw [hkind] at hmodule
      cases hmodule
      exact ⟨metadata, hheld, hchecked.listed⟩

theorem forwarded_intact (surroundings : Surroundings) (requests : List ReceivedRequest) :
    Intact (forwarded surroundings requests).cache :=
  Executions.run_invariant (fun moment : Moment => Intact moment.cache) (fun _ _ => True)
    (fun _ request h _ => ((fallThrough_effect request.1).preserves request.2 h).1) _ requests
    intact_empty (Executions.admitted_true _ _ _)

theorem forwarded_append (surroundings : Surroundings) (earlier later : List ReceivedRequest) :
    forwarded surroundings (earlier ++ later)
      = Executions.run (forward surroundings) (forwarded surroundings earlier) later :=
  Executions.run_append _ _ _ _

theorem forwarded_grows (surroundings : Surroundings) (earlier later : List ReceivedRequest) :
    Cache.Grows (forwarded surroundings earlier).cache
      (forwarded surroundings (earlier ++ later)).cache := by
  rw [forwarded_append]
  have hrun : ∀ moment : Moment, Intact moment.cache →
      Cache.Grows moment.cache (Executions.run (forward surroundings) moment later).cache := by
    induction later with
    | nil => exact fun _ _ _ _ h => h
    | cons request rest ih =>
      intro moment hintact url response hheld
      obtain ⟨hnext, hgrows⟩ := (fallThrough_effect request.1).preserves request.2 hintact
      exact ih _ hnext url response (hgrows url response hheld)
  exact hrun _ (forwarded_intact surroundings earlier)

def ListsChecksum (metadata : Response) (path checksum : Str) : Prop :=
  ∃ document, Json.parse (Utf8.decode metadata.body) = some document ∧
    ((document.get? "manifest".toList).bind (·.get? path)).bind (·.get? "checksum".toList)
      = some (.string (.text checksum))

theorem lists_of_expectedChecksum {metadata : Response} {path checksum : Str}
    (h : expectedChecksum (readVersionMetadata metadata) path = .ok (some checksum)) :
    ListsChecksum metadata path checksum := by
  unfold readVersionMetadata at h
  cases hparse : Json.parse (Utf8.decode metadata.body) with
  | none =>
    rw [hparse] at h
    cases h
  | some document =>
    rw [hparse, Option.getD_some] at h
    refine ⟨document, hparse, ?_⟩
    unfold expectedChecksum at h
    split at h
    · cases h
    · split at h
      · rename_i hlisted
        split_ifs at h
        · rw [hlisted, Option.some.inj (Except.ok.inj h)]
        · cases h
      · cases h

theorem Effect.checked {request : Request} {after : Cache}
    (heffect : Effect surroundings request moment after)
    (hparsed : ∃ input, request.url.pathname = UrlPath.pathname input) {url : Url} {version path : Str}
    (hpath : immutablePath url.pathname = some (.module version path))
    (hnew : after url ≠ moment.cache url) :
    (upstreamRequest request).url = url ∧ request.method = "GET".toList ∧
      ∃ mid metadata response, Checked surroundings (upstreamRequest request) version path moment.tick mid
        metadata response ∧ after url = some response := by
  have hurl : ∃ input, (upstreamRequest request).url.pathname = UrlPath.pathname input := hparsed
  cases heffect with
  | unchanged => exact absurd rfl hnew
  | versionMetadata response hkind hnone =>
    have hne : url ≠ (upstreamRequest request).url := by
      rintro rfl
      rw [show immutablePath (upstreamRequest request).url.pathname = some .versionMetadata from hkind]
        at hpath
      cases hpath
    exact absurd (Function.update_of_ne hne _ _) hnew
  | lookup version' path' after hmodule hadds =>
    exact absurd (hadds.others (metadataUrl_ne hurl hmodule hpath)) hnew
  | module version' path' mid metadata response hmodule hget hnone hchecked =>
    obtain ⟨hadds, -⟩ := hchecked.kept
    by_cases he : url = (upstreamRequest request).url
    · rw [he] at hpath
      obtain ⟨rfl, rfl⟩ := ImmutablePath.module.inj (Option.some.inj (hmodule.symm.trans hpath))
      refine ⟨he.symm, hget, mid, metadata, response, hchecked, ?_⟩
      rw [he]
      exact Function.update_self _ _ _
    · rw [Function.update_of_ne he, hadds.others (metadataUrl_ne hurl hmodule hpath)] at hnew
      exact absurd rfl hnew

/-- What the requests leave in the cache. -/
structure CacheIntegrity (surroundings : Surroundings) (requests : List ReceivedRequest) : Prop where
  verified : ∀ identity version raw url response, Unsplit identity version →
    url.pathname = modulePath identity version raw →
    (forwarded surroundings requests).cache url = some response →
    ∃ metadata path, (forwarded surroundings requests).cache (versionMetadataUrl identity version)
        = some metadata ∧
      UrlPath.decodeURIComponent raw = some path ∧
      ListsChecksum metadata path (sha256Checksum response.body)
  neverReplaced : ∀ earlier later, requests = earlier ++ later →
    ∀ url response, (forwarded surroundings earlier).cache url = some response →
      (forwarded surroundings requests).cache url = some response
  onlyChecked : ∀ earlier request later, requests = earlier ++ request :: later →
    ∀ url version path, immutablePath url.pathname = some (.module version path) →
      (forwarded surroundings (earlier ++ [request])).cache url
        ≠ (forwarded surroundings earlier).cache url →
      (upstreamRequest request.1).url = url ∧ request.1.method = "GET".toList ∧
        ∃ mid metadata response, Checked surroundings (upstreamRequest request.1) version path
            (forwarded surroundings earlier).tick mid metadata response ∧
          (forwarded surroundings (earlier ++ [request])).cache url = some response

theorem cacheIntegrity (surroundings : Surroundings) (requests : List ReceivedRequest) :
    CacheIntegrity surroundings requests where
  verified := by
    intro identity version raw url response hunsplit hurl hheld
    have hintact := forwarded_intact surroundings requests
    have himmutable := hintact.immutable url response hheld
    have hparsed := hintact.parsed url response hheld
    have horigin := hintact.origin url response hheld
    rw [hurl] at himmutable
    obtain ⟨path, hpath, hdecoded⟩ := immutablePath_modulePath hunsplit himmutable
    rw [← hurl] at hpath
    obtain ⟨metadata, hmetadata, hlisted⟩ := hintact.checked url response version path hheld hpath
    obtain ⟨identity', raw', hunsplit', hurl', hmetadataUrl⟩ := immutablePath_module hparsed hpath
    have hsplit := congrArg (List.splitOn '/') (hurl.symm.trans hurl')
    rw [splitOn_modulePath hunsplit, splitOn_modulePath hunsplit'] at hsplit
    have hsame : identity' = identity := by
      cases identity
      cases identity'
      simp only [List.cons.injEq] at hsplit
      rw [hsplit.2.1.2, hsplit.2.2.1]
    rw [hmetadataUrl, horigin, hsame] at hmetadata
    exact ⟨metadata, path, hmetadata, hdecoded, lists_of_expectedChecksum hlisted⟩
  neverReplaced := by
    intro earlier later hrequests
    rw [hrequests]
    exact forwarded_grows surroundings earlier later
  onlyChecked := by
    intro earlier request later _ url version path hpath hnew
    rw [forwarded_append] at hnew ⊢
    exact (fallThrough_effect request.1).checked request.2 hpath hnew

def emptyModule : Surroundings where
  upstream := fun _ request =>
    if request.url.pathname = "/@a/b/1_meta.json".toList then
      .ok (.json 200 (.object [("manifest".toList, .object [("m.ts".toList,
        .object [("checksum".toList, .string (sha256Checksum []))])])]) [])
    else .ok ⟨200, [], []⟩
  trouble := fun _ => none

/-- A checked module is kept. -/
example : (forwarded emptyModule [⟨⟨"GET".toList,
      .parse "https://proxy.invalid".toList "/@a/b/1/m.ts?x".toList, [], []⟩, _, rfl⟩]).cache
    ⟨registryOrigin, "/@a/b/1/m.ts".toList, "?x".toList⟩ = some ⟨200, [], []⟩ := by
  decide +kernel

end JsrProxy.Fallthrough
