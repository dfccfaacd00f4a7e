import JsrProxy.WorkerRequests

set_option autoImplicit false

/-!
# Calls of the Worker

What each call of the Worker's `fetch` presupposes. A package's registry and artifacts
are reached only after both objects granted the caller's credential, and only under the
identity of the path, content only once the marker of its version was found.
-/
namespace JsrProxy
open Identity ObjectHandlers

abbrev WorkerExchange := Exchange outsideCalls

def admissionAnswered (fingerprint pat : Str) (response : Fetched) : WorkerExchange :=
  ⟨(.admission fingerprint (.check (some pat)) : WorkerCall), (.ok response : Except Str Fetched)⟩

def authorizationAnswered (identity : PackageName) (body : AuthorizeBody) (response : Fetched) :
    WorkerExchange :=
  ⟨(.package (packageId identity) (.authorize (some body)) : WorkerCall),
    (.ok response : Except Str Fetched)⟩

/-- A success whose `granted` is truthy. -/
def Granting (response : Fetched) : Prop := response.ok = true ∧ Worker.isGranted response = .ok true

/-- Both objects have granted the credential that the request carries. -/
def GrantedBoth (env : WorkerEnv) (request : Request) (identity : PackageName) (owner : Str)
    (past : List WorkerExchange) : Prop :=
  ∃ pat secret admission authorization, Auth.githubPat request.headers = some pat ∧
    env.authFingerprintSecret = some secret ∧
    admissionAnswered (Auth.fingerprintPat secret pat) pat admission ∈ past ∧ Granting admission ∧
    authorizationAnswered identity ⟨Auth.fingerprintPat secret pat, owner, identity.name, pat⟩
      authorization ∈ past ∧ Granting authorization

/-- A well-formed recovery path with the exact configured secret. -/
def CarriesSecret (env : WorkerEnv) (request : Request) : Prop :=
  (parsePackageRecoveryPath request.url.pathname).isSome = true ∧ ∃ secret, secret ≠ [] ∧
    env.recoverySecret = some secret ∧ request.headers.get Worker.recoverySecretHeader = some secret

def versionPrefix (identity : PackageName) (version : Str) : Str :=
  "synthetic/".toList ++ identity.scope ++ '/' :: identity.name ++ '/' :: version

def markerKey (identity : PackageName) (version : Str) : Str :=
  versionPrefix identity version ++ ".ready.json".toList

def IsContentKey (identity : PackageName) (version key : Str) : Prop :=
  key = versionPrefix identity version ++ "_meta.json".toList ∨
    ∃ rest, key = versionPrefix identity version ++ '/' :: rest

/-- The marker of a version is read, or else its content once that marker was found. -/
def ReadFor (identity : PackageName) (past : List WorkerExchange) (key : Str) : Prop :=
  ∃ version, version ≠ [] ∧ '/' ∉ version ∧ (key = markerKey identity version ∨
    IsContentKey identity version key ∧ ∃ marker : R2ObjectLike,
      (⟨(.get (markerKey identity version) : WorkerCall),
        (.ok (some marker) : Except Str (Option R2ObjectLike))⟩ : WorkerExchange) ∈ past)

/-- The call is meant for the package of a configured scope, and not before both grants. -/
def Guarded (env : WorkerEnv) (request : Request) (identity : PackageName) (owner : Str)
    (past : List WorkerExchange) : WorkerCall → Prop
  | .upstream _ => False
  | .package name (.authorize _) => name = packageId identity
  | .package name (.recover _) => name = packageId identity ∧ CarriesSecret env request
  | .package name _ => name = packageId identity ∧ GrantedBoth env request identity owner past
  | .get key => GrantedBoth env request identity owner past ∧ ReadFor identity past key
  | .admission _ _ => True
  | .discover _ _ _ => True

def FallsThrough (env : WorkerEnv) (pathname : Str) : Prop :=
  ∃ config, Config.parseConfig env.config = .ok config ∧
    match Worker.requestedIdentity pathname with
    | none => Worker.requestedScope pathname config.scopes = none
    | some identity => config.scopes.get? identity.scope = none

namespace Worker

theorem scopeAndName_eq {input scope name rest : Str} (h : scopeAndName input = some (scope, name, rest)) :
    scope = input.takeWhile isNameChar := by
  unfold scopeAndName at h
  split at h
  · split_ifs at h
    obtain ⟨rfl, -⟩ := Prod.mk.inj (Option.some.inj h)
    rfl
  · cases h

theorem proxyable_again {repository name : Str} (h : proxyableRepositoryName repository = some name) :
    proxyableRepositoryName name = some name := by
  unfold proxyableRepositoryName at h
  dsimp only at h
  split_ifs at h with hvalid
  obtain rfl := Option.some.inj h
  have hsame : toAsciiLowercase (toAsciiLowercase repository) = toAsciiLowercase repository := by
    conv_rhs => rw [← List.map_id (toAsciiLowercase repository)]
    apply List.map_congr_left
    intro c hc
    exact toLower_of_isNameChar ((isScope_chars hvalid.1).2 c hc)
  rw [proxyableRepositoryName, hsame]
  exact if_pos hvalid

theorem route_some {route pathname scope name rest : Str}
    (h : (afterPrefix route pathname).bind scopeAndName = some (scope, name, rest)) :
    ∃ input, pathname = route ++ input ∧ scope = input.takeWhile isNameChar := by
  obtain ⟨input, hinput, hparsed⟩ := Option.bind_eq_some_iff.1 h
  unfold afterPrefix at hinput
  split_ifs at hinput with hlead
  obtain ⟨input', rfl⟩ := List.isPrefixOf_iff_prefix.1 hlead
  obtain rfl := Option.some.inj hinput
  rw [List.drop_left] at hparsed
  exact ⟨input', rfl, scopeAndName_eq hparsed⟩

theorem parsePackageStatusPath_some {pathname : Str} {status : StatusPath}
    (h : parsePackageStatusPath pathname = some status) :
    (∃ input, pathname = statusRoute ++ input ∧ status.identity.scope = input.takeWhile isNameChar) ∧
      proxyableRepositoryName status.identity.name = some status.identity.name := by
  unfold parsePackageStatusPath at h
  split at h
  · cases h
  · rename_i scope name rest hroute
    split at h
    · obtain ⟨name', hname, rfl⟩ := Option.map_eq_some_iff.1 h
      exact ⟨route_some hroute, proxyable_again hname⟩
    · obtain ⟨name', hname, rfl⟩ := Option.map_eq_some_iff.1 h
      exact ⟨route_some hroute, proxyable_again hname⟩
    · cases h

theorem parsePackageRecoveryPath_some {pathname : Str} {recovery : RecoveryPath}
    (h : parsePackageRecoveryPath pathname = some recovery) :
    (∃ input, pathname = recoveryRoute ++ input ∧ recovery.identity.scope = input.takeWhile isNameChar) ∧
      proxyableRepositoryName recovery.identity.name = some recovery.identity.name := by
  unfold parsePackageRecoveryPath at h
  split at h
  · cases h
  · rename_i scope name rest hroute
    split at h
    · obtain ⟨name', hname, rfl⟩ := Option.map_eq_some_iff.1 h
      exact ⟨route_some hroute, proxyable_again hname⟩
    · cases h

theorem parsePackageIdentity_scope {pathname : Str} {identity : PackageName}
    (h : parsePackageIdentity pathname = some identity) :
    ∃ input, pathname = "/@".toList ++ input ∧ identity.scope = input.takeWhile isNameChar := by
  unfold parsePackageIdentity at h
  split at h
  · rename_i input
    split at h
    · cases h
    · rename_i scope name rest hparsed
      split_ifs at h
      obtain ⟨name', -, rfl⟩ := Option.map_eq_some_iff.1 h
      exact ⟨input, rfl, scopeAndName_eq hparsed⟩
  · cases h

def routes : List Str := ["/@".toList, statusRoute, recoveryRoute]

def routeNumber (pathname : Str) : ℕ :=
  if pathname[1]? = some '@' then 0 else if pathname[3]? = some 's' then 1 else 2

theorem routes_getD {route : Str} (h : route ∈ routes) (input : Str) :
    routes.getD (routeNumber (route ++ input)) [] = route := by
  simp only [routes, List.mem_cons, List.not_mem_nil, or_false] at h
  rcases h with rfl | rfl | rfl
  · rfl
  · rfl
  · rfl

theorem requestedIdentity_some {pathname : Str} {identity : PackageName}
    (h : requestedIdentity pathname = some identity) :
    (∃ route ∈ routes, ∃ input, pathname = route ++ input ∧
      identity.scope = input.takeWhile isNameChar) ∧
      proxyableRepositoryName identity.name = some identity.name := by
  unfold requestedIdentity at h
  split at h
  · rename_i status hstatus
    obtain rfl := Option.some.inj h
    obtain ⟨hscope, hname⟩ := parsePackageStatusPath_some hstatus
    exact ⟨⟨statusRoute, by simp [routes], hscope⟩, hname⟩
  · rename_i recovery _ hrecovery
    obtain rfl := Option.some.inj h
    obtain ⟨hscope, hname⟩ := parsePackageRecoveryPath_some hrecovery
    exact ⟨⟨recoveryRoute, by simp [routes], hscope⟩, hname⟩
  · exact ⟨⟨"/@".toList, by simp [routes], parsePackageIdentity_scope h⟩, (parsePackageIdentity_some h).2.2⟩

/-- The keys of an artifact are those of one version of the package. -/
theorem syntheticArtifactPath_some {pathname : Str} {identity : PackageName} {artifact : ArtifactPath}
    (h : syntheticArtifactPath pathname identity = some artifact) : ∃ version, version ≠ [] ∧
      '/' ∉ version ∧ artifact.versionPrefix = versionPrefix identity version ∧
      IsContentKey identity version artifact.key := by
  have hassoc : ∀ front scope name version rest : Str,
      front ++ scope ++ '/' :: name ++ '/' :: (version ++ rest)
        = front ++ scope ++ '/' :: name ++ '/' :: version ++ rest := by simp
  unfold syntheticArtifactPath at h
  dsimp only at h
  split at h
  · rename_i last hsplit
    split_ifs at h with hlast
    obtain rfl := Option.some.inj h
    rw [Bool.and_eq_true, decide_eq_true_eq] at hlast
    obtain ⟨hsuffix, hlength⟩ := hlast
    obtain ⟨version, rfl⟩ := List.isSuffixOf_iff_suffix.1 hsuffix
    have hversion : (version ++ "_meta.json".toList).take
        ((version ++ "_meta.json".toList).length - 10) = version := by
      rw [List.length_append]
      exact List.take_left' rfl
    have hmem : version ++ "_meta.json".toList ∈ pathname.splitOn '/' := by rw [hsplit]; simp
    refine ⟨version, ?_, ?_, ?_, .inl ?_⟩
    · rintro rfl
      simp at hlength
    · exact fun hc => Segments.not_mem_of_mem_splitOn hmem (List.mem_append_left _ hc)
    · rw [hversion]
      rfl
    · exact hassoc _ _ _ _ _
  · rename_i version file rest hsplit
    split_ifs at h with hempty
    obtain rfl := Option.some.inj h
    refine ⟨version, by simpa using hempty, ?_, rfl, .inr ⟨['/'].intercalate (file :: rest), ?_⟩⟩
    · exact Segments.not_mem_of_mem_splitOn (by rw [hsplit]; simp)
    · have hjoin : ['/'].intercalate (version :: file :: rest)
          = version ++ '/' :: ['/'].intercalate (file :: rest) := by
        rw [List.intercalate_cons_of_ne_nil (List.cons_ne_nil _ _)]
        simp
      dsimp only
      rw [hjoin]
      exact hassoc _ _ _ _ _
  · cases h

section
variable {env : WorkerEnv} {request : Request} {identity : PackageName} {owner : Str}
  {past : List WorkerExchange}

abbrev Within (env : WorkerEnv) (request : Request) (identity : PackageName) (owner : Str) (p : Serving)
    (past : List WorkerExchange) : Prop :=
  Program.Within (E := outsideCalls) (Guarded env request identity owner) p past

theorem within_done (result : Except Str WorkerResponse) : Within env request identity owner (.done result) past :=
  .done result past

theorem within_ask {call : WorkerCall} {next : call.Answer → Serving}
    (hcall : Guarded env request identity owner past call)
    (hnext : ∀ answer : call.Answer, Within env request identity owner (next answer) (⟨call, answer⟩ :: past)) :
    Within env request identity owner (ask call next) past :=
  .call hcall hnext

theorem within_orThrow {α : Type} {answer : Except Str α} {next : α → Serving}
    (h : ∀ result, answer = .ok result → Within env request identity owner (next result) past) :
    Within env request identity owner (orThrow answer next) past := by
  cases answer with
  | error message => exact within_done _
  | ok result => exact h result rfl

theorem grantedBoth_cons (h : GrantedBoth env request identity owner past) (exchange : WorkerExchange) :
    GrantedBoth env request identity owner (exchange :: past) := by
  obtain ⟨pat, secret, admission, authorization, hpat, hsecret, hadmission, hgrants, hauthorization,
    hgranted⟩ := h
  exact ⟨pat, secret, admission, authorization, hpat, hsecret, List.mem_cons_of_mem _ hadmission, hgrants,
    List.mem_cons_of_mem _ hauthorization, hgranted⟩

theorem within_packageStatus (h : GrantedBoth env request identity owner past) (version : Option Str) :
    Within env request identity owner (packageStatus identity version) past := by
  refine within_ask ⟨rfl, h⟩ ?_
  intro answer
  apply within_orThrow
  intro response _
  apply within_orThrow
  intro response _
  exact within_done _

theorem within_materializePackage (h : GrantedBoth env request identity owner past)
    (repository pat origin : Str) :
    Within env request identity owner (materializePackage identity owner repository pat origin) past := by
  refine within_ask ⟨rfl, h⟩ ?_
  intro answer
  apply within_orThrow
  intro materialization _
  split
  · exact within_done _
  · apply within_orThrow
    intro result _
    split
    · exact within_done _
    · apply within_orThrow
      intro response _
      exact within_done _

theorem within_refreshPackageMetadata (h : GrantedBoth env request identity owner past)
    (repository pat origin : Str) :
    Within env request identity owner (refreshPackageMetadata identity owner repository pat origin) past := by
  refine within_ask trivial ?_
  intro discovery
  have h := grantedBoth_cons h ⟨(.discover owner repository pat : WorkerCall), discovery⟩
  change Discovery at discovery
  cases discovery with
  | refused status retryAfterSeconds =>
    dsimp only
    split
    · exact within_done _
    · exact within_done _
  | failed => exact within_done _
  | found discovery =>
    refine within_ask ⟨rfl, h⟩ ?_
    intro answer
    have h := grantedBoth_cons h ⟨(.package (packageId identity) (.refresh (some ⟨identity,
      discovery.defaultBranch, discovery.branches.entries⟩)) : WorkerCall), answer⟩
    apply within_orThrow
    intro response _
    split
    · exact within_done _
    · apply within_orThrow
      intro result _
      split
      · exact within_done _
      · apply within_orThrow
        intro pending _
        split
        · exact within_materializePackage h repository pat origin
        · apply within_orThrow
          intro response _
          exact within_done _

theorem within_serveArtifact (h : GrantedBoth env request identity owner past) {artifact : ArtifactPath}
    {pathname : Str} (hartifact : syntheticArtifactPath pathname identity = some artifact) :
    Within env request identity owner (serveArtifact artifact request) past := by
  obtain ⟨version, hne, hslash, hlead, hkey⟩ := syntheticArtifactPath_some hartifact
  have hmarker : artifact.versionPrefix ++ ".ready.json".toList = markerKey identity version := by
    rw [hlead, markerKey]
  unfold serveArtifact R2Artifacts.serveArtifact
  rw [hmarker]
  refine within_ask ⟨h, version, hne, hslash, .inl rfl⟩ ?_
  intro marker
  change Except Str (Option R2ObjectLike) at marker
  cases marker with
  | error message => exact within_done _
  | ok found =>
    cases found with
    | none => exact within_done _
    | some marker =>
      refine within_ask ⟨grantedBoth_cons h _, version, hne, hslash,
        .inr ⟨hkey, marker, List.mem_cons_self⟩⟩ ?_
      intro object
      change Except Str (Option R2ObjectLike) at object
      cases object with
      | error message => exact within_done _
      | ok found =>
        cases found with
        | none => exact within_done _
        | some object => exact within_done _

theorem within_serveGranted (h : GrantedBoth env request identity owner past) (repository pat : Str) :
    Within env request identity owner (serveGranted env request identity owner repository pat) past := by
  unfold serveGranted
  split
  · exact within_packageStatus h _
  · split
    · exact within_refreshPackageMetadata h repository pat _
    · split
      · rename_i hartifact
        exact within_serveArtifact h hartifact
      · exact within_done _

theorem within_gate {answer : Except Str Fetched} {next : Serving}
    (h : ∀ response, answer = .ok response → Granting response → Within env request identity owner next past) :
    Within env request identity owner (gate answer next) past := by
  apply within_orThrow
  intro response hanswer
  split
  · exact within_done _
  · rename_i hok
    apply within_orThrow
    intro granted hgranted
    cases granted with
    | false => exact within_done _
    | true => exact h response hanswer ⟨by simpa using hok, hgranted⟩

theorem within_recoverPackage {recovery : RecoveryPath} (now : ℤ) (version : Str)
    (hpath : parsePackageRecoveryPath request.url.pathname = some recovery) :
    Within env request identity owner (recoverPackage env now request identity version) past := by
  unfold recoverPackage
  split
  · exact within_done _
  · split
    · exact within_done _
    · exact within_done _
    · rename_i secret hempty hsecret
      split
      · exact within_done _
      · rename_i hheader
        split
        · exact within_done _
        · split
          · exact within_done _
          · refine within_ask ⟨rfl, ?_⟩ ?_
            · have hsome : (parsePackageRecoveryPath request.url.pathname).isSome = true := by rw [hpath]; rfl
              refine ⟨hsome, secret, ?_, hsecret, ?_⟩
              · rintro rfl
                exact hempty rfl
              · simpa using hheader
            · intro answer
              apply within_orThrow
              intro response _
              unfold passOn
              split
              · exact within_done _
              · exact within_done _

theorem within_servePackage (now : ℤ) {scope : GitHubScope}
    (hname : proxyableRepositoryName identity.name = some identity.name) :
    Within env request identity scope.owner (servePackage env now request identity scope) past := by
  unfold servePackage
  split
  · rename_i recovery hpath
    exact within_recoverPackage now _ hpath
  · split
    · exact within_done _
    · rename_i pat hpat
      split
      · exact within_done _
      · rename_i secret hsecret
        split
        · exact within_done _
        · rw [hname]
          have hsecret := (Option.filter_eq_some_iff.1 hsecret).1
          refine within_ask trivial ?_
          intro admission
          apply within_gate
          intro admitted hadmitted hadmits
          refine within_ask rfl ?_
          intro packageAuthorization
          apply within_gate
          intro authorized hauthorized hauthorizes
          apply within_serveGranted
          refine ⟨pat, secret, admitted, authorized, hpat, hsecret, ?_, hadmits, ?_, hauthorizes⟩
          · rw [hadmitted]
            exact List.mem_cons_of_mem _ List.mem_cons_self
          · rw [hauthorized]
            exact List.mem_cons_self

end

theorem fetch_fallsThrough {env : WorkerEnv} {request : Request}
    (h : FallsThrough env request.url.pathname) (now : ℤ) : fetch env now request = fallThrough request := by
  obtain ⟨config, hconfig, hclaims⟩ := h
  unfold fetch
  rw [hconfig]
  dsimp only
  cases hidentity : requestedIdentity request.url.pathname with
  | none =>
    rw [hidentity] at hclaims
    dsimp only at hclaims ⊢
    rw [hclaims]
    rfl
  | some identity =>
    rw [hidentity] at hclaims
    dsimp only at hclaims ⊢
    rw [hclaims]

/-- A request is refused at once, falls through, or is for a package of a configured scope. -/
theorem fetch_cases (env : WorkerEnv) (now : ℤ) (request : Request) :
    (∃ result, fetch env now request = .done result) ∨ FallsThrough env request.url.pathname ∨
      ∃ config identity scope, Config.parseConfig env.config = .ok config ∧
        requestedIdentity request.url.pathname = some identity ∧
        config.scopes.get? identity.scope = some scope ∧
        fetch env now request = servePackage env now request identity scope := by
  unfold fetch FallsThrough
  cases hconfig : Config.parseConfig env.config with
  | error message => exact .inl ⟨_, rfl⟩
  | ok config =>
    dsimp only
    cases hidentity : requestedIdentity request.url.pathname with
    | none =>
      cases hscope : requestedScope request.url.pathname config.scopes with
      | none => exact .inr (.inl ⟨config, rfl, hscope⟩)
      | some scope => exact .inl ⟨_, rfl⟩
    | some identity =>
      cases hscope : config.scopes.get? identity.scope with
      | none => exact .inr (.inl ⟨config, rfl, hscope⟩)
      | some scope =>
        dsimp only
        rw [hscope]
        exact .inr (.inr ⟨config, identity, scope, rfl, rfl, hscope, rfl⟩)

theorem within_fallThrough (request : Request) (past : List WorkerExchange) :
    Program.Within (E := outsideCalls) (fun _ call => ∃ forwarded, call = .upstream forwarded)
      (fallThrough request) past := by
  unfold fallThrough
  generalize Fallthrough.fallThrough true request = program
  induction program generalizing past with
  | done result => exact .done _ past
  | call op next ih => exact .call ⟨op, rfl⟩ fun answer => ih answer _

end Worker

def acmeEnv : WorkerEnv where
  config := some "\x7b\"scopes\":\x7b\"acme\":\x7b\"type\":\"github\"\x7d\x7d\x7d".toList
  authFingerprintSecret := some "secret".toList
  recoverySecret := none
  admission := true
  packages := true
  artifacts := true

def acmeConfig : ProxyConfig := ⟨⟨[("acme".toList, ⟨"acme".toList⟩)], by decide⟩, []⟩

def widgetRequest : Request := ⟨"GET".toList, ⟨"https://proxy.example".toList, "/@acme/widget/meta.json".toList, []⟩,
  [("authorization".toList, "Bearer pat".toList)], []⟩

def grant : Fetched := ⟨200, [], .bytes (Utf8.encode "\x7b\"granted\":true\x7d".toList), []⟩

def heldObject : R2ObjectLike := ⟨[], "\"held\"".toList, [], none⟩

def grantAll (_ : List WorkerExchange) : (call : WorkerCall) → call.Answer
  | .admission _ _ => .ok grant
  | .package _ _ => .ok grant
  | .discover _ _ _ =>
    .found ⟨"main".toList, OrderedMap.empty.set "main".toList ⟨"c0ffee".toList, 7⟩⟩
  | .get _ => .ok (some heldObject)
  | .upstream (.fetch _) => .error []
  | .upstream (.cacheMatch _) => .ok none
  | .upstream (.cachePut _ _) => .ok ()

end JsrProxy
