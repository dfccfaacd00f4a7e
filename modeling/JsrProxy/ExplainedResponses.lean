import JsrProxy.OwnCalls
import JsrProxy.WorkerCalls

set_option autoImplicit false

/-!
# Explained responses

Which calls the Worker makes for a request, and which answers each of its responses is
made of. Whatever is not refused passes on what an object or the bucket answered after
both gates, or what the recovery route was answered.
-/
namespace JsrProxy
open Identity ObjectHandlers

def ServedFor (env : WorkerEnv) (request : Request) (identity : PackageName) (scope : GitHubScope) : Prop :=
  ∃ config, Config.parseConfig env.config = .ok config ∧
    Worker.requestedIdentity request.url.pathname = some identity ∧
    config.scopes.get? identity.scope = some scope

theorem ServedFor.unique {env : WorkerEnv} {request : Request} {identity identity' : PackageName}
    {scope scope' : GitHubScope} (h : ServedFor env request identity scope)
    (h' : ServedFor env request identity' scope') : identity' = identity ∧ scope' = scope := by
  obtain ⟨config, hconfig, hidentity, hscope⟩ := h
  obtain ⟨config', hconfig', hidentity', hscope'⟩ := h'
  obtain rfl := Except.ok.inj (hconfig.symm.trans hconfig')
  obtain rfl := Option.some.inj (hidentity.symm.trans hidentity')
  exact ⟨rfl, Option.some.inj (hscope'.symm.trans hscope)⟩

theorem ServedFor.proxyable {env : WorkerEnv} {request : Request} {identity : PackageName}
    {scope : GitHubScope} (h : ServedFor env request identity scope) :
    proxyableRepositoryName identity.name = some identity.name := by
  obtain ⟨config, -, hidentity, -⟩ := h
  exact (Worker.requestedIdentity_some hidentity).2

inductive Made (env : WorkerEnv) (now : ℤ) (request : Request) : WorkerCall → Prop
  | admission {pat secret : Str} (hpat : Auth.githubPat request.headers = some pat)
      (hsecret : env.authFingerprintSecret = some secret) :
    Made env now request (.admission (Auth.fingerprintPat secret pat) (.check (some pat)))
  | authorize {identity : PackageName} {scope : GitHubScope} {pat secret : Str}
      (hserved : ServedFor env request identity scope) (hpat : Auth.githubPat request.headers = some pat)
      (hsecret : env.authFingerprintSecret = some secret) :
    Made env now request (.package (packageId identity)
      (.authorize (some ⟨Auth.fingerprintPat secret pat, scope.owner, identity.name, pat⟩)))
  | status {identity : PackageName} {scope : GitHubScope} (hserved : ServedFor env request identity scope) :
    Made env now request (.package (packageId identity) .status)
  | discover {identity : PackageName} {scope : GitHubScope} {pat : Str}
      (hserved : ServedFor env request identity scope) (hpat : Auth.githubPat request.headers = some pat) :
    Made env now request (.discover scope.owner identity.name pat)
  | refresh {identity : PackageName} {scope : GitHubScope} (hserved : ServedFor env request identity scope)
      (discovery : Branches.BranchDiscovery) :
    Made env now request (.package (packageId identity)
      (.refresh (some ⟨identity, discovery.defaultBranch, discovery.branches.entries⟩)))
  | materialize {identity : PackageName} {scope : GitHubScope} {pat : Str}
      (hserved : ServedFor env request identity scope) (hpat : Auth.githubPat request.headers = some pat) :
    Made env now request (.package (packageId identity) (.materialize (some ⟨scope.owner, identity.name, pat,
      request.url.origin ++ "/-/status/".toList ++ packageId identity⟩)))
  | recover {identity : PackageName} {scope : GitHubScope} (hserved : ServedFor env request identity scope)
      (version reason : Str) :
    Made env now request (.package (packageId identity) (.recover (some ⟨version, reason, now⟩)))
  | marker {identity : PackageName} {scope : GitHubScope} (hserved : ServedFor env request identity scope)
      (version : Str) :
    Made env now request (.get (markerKey identity version))
  | content {identity : PackageName} {scope : GitHubScope} {version key : Str}
      (hserved : ServedFor env request identity scope) (hkey : IsContentKey identity version key) :
    Made env now request (.get key)
  | upstream (call : FallthroughCall) : Made env now request (.upstream call)

def packageExchange (identity : PackageName) (request : ObjectRequest) (answer : Fetched) : WorkerExchange :=
  ⟨(.package (packageId identity) request : WorkerCall), (.ok answer : Except Str Fetched)⟩

def getExchange (key : Str) (object : R2ObjectLike) : WorkerExchange :=
  ⟨(.get key : WorkerCall), (.ok (some object) : Except Str (Option R2ObjectLike))⟩

def IsMetadataCall : ObjectRequest → Prop
  | .refresh (some _) | .materialize (some _) => True
  | _ => False

def ForMetadata (request : Request) : Prop :=
  parsePackageStatusPath request.url.pathname = none ∧
    Worker.isPackageMetadataPath request.url.pathname = true

def ForArtifact (request : Request) (identity : PackageName) (artifact : Worker.ArtifactPath) : Prop :=
  parsePackageStatusPath request.url.pathname = none ∧
    ¬ Worker.isPackageMetadataPath request.url.pathname = true ∧
    Worker.syntheticArtifactPath request.url.pathname identity = some artifact

inductive Explained (env : WorkerEnv) (request : Request) (identity : PackageName) (owner : Str) :
    List WorkerExchange → WorkerResponse → Prop
  | refused {past : List WorkerExchange} {response : Response} (h : 400 ≤ response.status) :
    Explained env request identity owner past (.own response)
  | status {past : List WorkerExchange} {answer : Fetched} {status : StatusPath} {response : Response}
      (hgranted : GrantedBoth env request identity owner past)
      (hpath : parsePackageStatusPath request.url.pathname = some status)
      (hanswer : Worker.statusAnswer answer status.version = .ok response) :
    Explained env request identity owner (packageExchange identity .status answer :: past) (.own response)
  | metadata {past : List WorkerExchange} {call : ObjectRequest} {answer : Fetched} {packageMeta jobs : Json}
      {response : Response} (hgranted : GrantedBoth env request identity owner past)
      (hpath : ForMetadata request) (hcall : IsMetadataCall call) (hok : answer.ok = true)
      (hread : Worker.registryAnswer answer = .ok (some (packageMeta, jobs)))
      (hanswer : Worker.metadataAnswer packageMeta jobs = .ok response) :
    Explained env request identity owner (packageExchange identity call answer :: past) (.own response)
  | artifact {past : List WorkerExchange} {artifact : Worker.ArtifactPath} {marker object : R2ObjectLike}
      (hgranted : GrantedBoth env request identity owner past) (hpath : ForArtifact request identity artifact) :
    Explained env request identity owner
      (getExchange artifact.key object :: getExchange (artifact.versionPrefix ++ ".ready.json".toList) marker :: past)
      (.own (R2Artifacts.serveObject artifact.key object request))
  | recovered {past : List WorkerExchange} {body : RecoverBody} {answer : Fetched} {headers : Headers}
      (hsecret : CarriesSecret env request) :
    Explained env request identity owner (packageExchange identity (.recover (some body)) answer :: past)
      (.passed answer.status headers answer.body)

namespace Worker

/-- What a result owes to the calls before it. -/
def Owes (env : WorkerEnv) (request : Request) (identity : PackageName) (owner : Str)
    (past : List WorkerExchange) (result : Except Str WorkerResponse) : Prop :=
  ∀ response, result = .ok response → Explained env request identity owner past response

section
variable {env : WorkerEnv} {now : ℤ} {request : Request} {identity : PackageName} {scope : GitHubScope}
  {past : List WorkerExchange}

abbrev Explains (env : WorkerEnv) (now : ℤ) (request : Request) (identity : PackageName) (owner : Str)
    (p : Serving) (past : List WorkerExchange) : Prop :=
  Program.Justified (E := outsideCalls) (fun _ call => Made env now request call)
    (Owes env request identity owner) p past

theorem explains_error (message : Str) : Explains env now request identity scope.owner (throw message) past :=
  .done fun _ h => nomatch h

theorem explains_own {response : Response}
    (h : Explained env request identity scope.owner past (.own response)) :
    Explains env now request identity scope.owner (.done (.ok (.own response))) past := by
  refine .done ?_
  rintro _ ⟨⟩
  exact h

theorem explains_refused {response : Response} (h : 400 ≤ response.status) :
    Explains env now request identity scope.owner (.done (.ok (.own response))) past :=
  explains_own (.refused h)

theorem explains_respond {status : ℕ} {message : String} {headers : Headers} (h : 400 ≤ status) :
    Explains env now request identity scope.owner (respond status message headers) past :=
  explains_refused h

theorem explains_ask {call : WorkerCall} {next : call.Answer → Serving} (hcall : Made env now request call)
    (hnext : ∀ answer : call.Answer,
      Explains env now request identity scope.owner (next answer) (⟨call, answer⟩ :: past)) :
    Explains env now request identity scope.owner (ask call next) past :=
  .call hcall hnext

theorem explains_orThrow {α : Type} {answer : Except Str α} {next : α → Serving}
    (h : ∀ result, answer = .ok result → Explains env now request identity scope.owner (next result) past) :
    Explains env now request identity scope.owner (orThrow answer next) past := by
  cases answer with
  | error message => exact explains_error message
  | ok result => exact h result rfl

theorem explains_packageStatus (hserved : ServedFor env request identity scope)
    (hgranted : GrantedBoth env request identity scope.owner past) {status : StatusPath}
    (hpath : parsePackageStatusPath request.url.pathname = some status) :
    Explains env now request identity scope.owner (packageStatus identity status.version) past := by
  refine explains_ask (.status hserved) ?_
  intro answer
  change Except Str Fetched at answer
  cases answer with
  | error message => exact explains_error message
  | ok answer =>
    dsimp only [orThrow]
    cases hresponse : statusAnswer answer status.version with
    | error message => exact explains_error message
    | ok response => exact explains_own (.status hgranted hpath hresponse)

theorem explains_materializePackage (hserved : ServedFor env request identity scope)
    (hgranted : GrantedBoth env request identity scope.owner past) (hpath : ForMetadata request) {pat : Str}
    (hpat : Auth.githubPat request.headers = some pat) :
    Explains env now request identity scope.owner
      (materializePackage identity scope.owner identity.name pat request.url.origin) past := by
  refine explains_ask (.materialize hserved hpat) ?_
  intro answer
  change Except Str Fetched at answer
  cases answer with
  | error message => exact explains_error message
  | ok answer =>
    dsimp only [orThrow]
    split_ifs with hok
    · exact explains_respond (by decide)
    · apply explains_orThrow
      intro result hread
      cases result with
      | none => exact explains_respond (by decide)
      | some result =>
        apply explains_orThrow
        intro response hresponse
        exact explains_own (.metadata hgranted hpath trivial (by simpa using hok) hread hresponse)

theorem explains_refreshPackageMetadata (hserved : ServedFor env request identity scope)
    (hgranted : GrantedBoth env request identity scope.owner past) (hpath : ForMetadata request) {pat : Str}
    (hpat : Auth.githubPat request.headers = some pat) :
    Explains env now request identity scope.owner
      (refreshPackageMetadata identity scope.owner identity.name pat request.url.origin) past := by
  refine explains_ask (.discover hserved hpat) ?_
  intro discovery
  have hgranted := grantedBoth_cons hgranted
    ⟨(.discover scope.owner identity.name pat : WorkerCall), discovery⟩
  change Discovery at discovery
  cases discovery with
  | refused status retryAfterSeconds =>
    dsimp only
    split_ifs
    · exact explains_respond (by decide)
    · exact explains_respond (by decide)
  | failed => exact explains_respond (by decide)
  | found discovery =>
    refine explains_ask (.refresh hserved discovery) ?_
    intro answer
    change Except Str Fetched at answer
    cases answer with
    | error message => exact explains_error message
    | ok answer =>
      dsimp only [orThrow]
      split_ifs with hok
      · exact explains_respond (by decide)
      · apply explains_orThrow
        intro result hread
        cases result with
        | none => exact explains_respond (by decide)
        | some result =>
          apply explains_orThrow
          intro pending _
          split_ifs
          · exact explains_materializePackage hserved (grantedBoth_cons hgranted _) hpath hpat
          · apply explains_orThrow
            intro response hresponse
            exact explains_own (.metadata hgranted hpath trivial (by simpa using hok) hread hresponse)

theorem explains_serveArtifact (hserved : ServedFor env request identity scope)
    (hgranted : GrantedBoth env request identity scope.owner past) {artifact : ArtifactPath}
    (hpath : ForArtifact request identity artifact) :
    Explains env now request identity scope.owner (serveArtifact artifact request) past := by
  obtain ⟨version, -, -, hlead, hkey⟩ := syntheticArtifactPath_some hpath.2.2
  have hmarker : artifact.versionPrefix ++ ".ready.json".toList = markerKey identity version := by
    rw [hlead, markerKey]
  unfold serveArtifact R2Artifacts.serveArtifact
  refine explains_ask (by rw [hmarker]; exact .marker hserved version) ?_
  intro marker
  change Except Str (Option R2ObjectLike) at marker
  cases marker with
  | error message => exact explains_error message
  | ok found =>
    cases found with
    | none => exact explains_respond (by decide)
    | some marker =>
      refine explains_ask (.content hserved hkey) ?_
      intro object
      change Except Str (Option R2ObjectLike) at object
      cases object with
      | error message => exact explains_error message
      | ok found =>
        cases found with
        | none => exact explains_respond (by decide)
        | some object => exact explains_own (.artifact hgranted hpath)

theorem explains_serveGranted (hserved : ServedFor env request identity scope)
    (hgranted : GrantedBoth env request identity scope.owner past) {pat : Str}
    (hpat : Auth.githubPat request.headers = some pat) :
    Explains env now request identity scope.owner
      (serveGranted env request identity scope.owner identity.name pat) past := by
  unfold serveGranted
  split
  · rename_i hpath
    exact explains_packageStatus hserved hgranted hpath
  · rename_i hnone
    split_ifs with hmetadata
    · exact explains_refreshPackageMetadata hserved hgranted ⟨hnone, hmetadata⟩ hpat
    · split
      · rename_i hartifact
        exact explains_serveArtifact hserved hgranted ⟨hnone, hmetadata, hartifact⟩
      · exact explains_refused (by decide)

theorem explains_gate {answer : Except Str Fetched} {next : Serving}
    (h : ∀ response, answer = .ok response → Granting response →
      Explains env now request identity scope.owner next past) :
    Explains env now request identity scope.owner (gate answer next) past := by
  apply explains_orThrow
  intro response hanswer
  split_ifs with hok
  · exact explains_respond (by decide)
  · apply explains_orThrow
    intro granted hgranted
    cases granted with
    | false => exact explains_respond (by decide)
    | true => exact h response hanswer ⟨by simpa using hok, hgranted⟩

theorem explains_recoverPackage (hserved : ServedFor env request identity scope) {recovery : RecoveryPath}
    (version : Str) (hpath : parsePackageRecoveryPath request.url.pathname = some recovery) :
    Explains env now request identity scope.owner (recoverPackage env now request identity version) past := by
  unfold recoverPackage
  split
  · exact explains_respond (by decide)
  · split
    · exact explains_respond (by decide)
    · exact explains_respond (by decide)
    · rename_i secret hempty hsecret
      split
      · exact explains_respond (by decide)
      · rename_i hheader
        split
        · exact explains_respond (by decide)
        · rename_i reason _
          split
          · exact explains_respond (by decide)
          · refine explains_ask (.recover hserved version reason) ?_
            intro answer
            change Except Str Fetched at answer
            cases answer with
            | error message => exact explains_error message
            | ok answer =>
              dsimp only [orThrow, passOn]
              split_ifs
              · exact explains_error _
              · refine .done ?_
                rintro _ ⟨⟩
                refine .recovered ⟨by rw [hpath]; rfl, secret, ?_, hsecret, by simpa using hheader⟩
                rintro rfl
                exact hempty rfl

theorem explains_servePackage (hserved : ServedFor env request identity scope) :
    Explains env now request identity scope.owner (servePackage env now request identity scope) past := by
  unfold servePackage
  split
  · rename_i recovery hpath
    exact explains_recoverPackage hserved _ hpath
  · split
    · exact explains_respond (by decide)
    · rename_i pat hpat
      split
      · exact explains_respond (by decide)
      · rename_i secret hsecret
        split_ifs
        · exact explains_respond (by decide)
        · rw [hserved.proxyable]
          have hsecret := (Option.filter_eq_some_iff.1 hsecret).1
          refine explains_ask (.admission hpat hsecret) ?_
          intro admission
          apply explains_gate
          intro admitted hadmitted hadmits
          refine explains_ask (.authorize hserved hpat hsecret) ?_
          intro authorization
          apply explains_gate
          intro authorized hauthorized hauthorizes
          apply explains_serveGranted hserved ?_ hpat
          refine ⟨pat, secret, admitted, authorized, hpat, hsecret, ?_, hadmits, ?_, hauthorizes⟩
          · rw [hadmitted]
            exact List.mem_cons_of_mem _ List.mem_cons_self
          · rw [hauthorized]
            exact List.mem_cons_self

end

theorem asks_fallThrough (env : WorkerEnv) (now : ℤ) (request : Request) :
    (fallThrough request).Asks (E := outsideCalls) (Made env now request) := by
  unfold fallThrough
  generalize Fallthrough.fallThrough true request = program
  induction program with
  | done result => exact .done _
  | call op next ih => exact .call (.upstream op) ih

/-- Every call is one of the request's, and every response for a configured scope is
    explained. -/
theorem justified_fetch (env : WorkerEnv) (now : ℤ) (request : Request) :
    (fetch env now request).Justified (E := outsideCalls) (fun _ call => Made env now request call)
      (fun past result => ∀ identity scope, ServedFor env request identity scope →
        Owes env request identity scope.owner past result) [] := by
  unfold fetch
  cases hconfig : Config.parseConfig env.config with
  | error message => exact .done fun _ _ _ _ h => nomatch h
  | ok config =>
    have hother : (∀ identity scope, ¬ ServedFor env request identity scope) →
        (fallThrough request).Justified (E := outsideCalls) (fun _ call => Made env now request call)
          (fun past result => ∀ identity scope, ServedFor env request identity scope →
            Owes env request identity scope.owner past result) [] := by
      intro hnone
      refine ((asks_fallThrough env now request).justified []).mono (fun _ _ hmade => hmade) ?_
      exact fun _ _ _ identity scope hserved => absurd hserved (hnone identity scope)
    dsimp only
    cases hidentity : requestedIdentity request.url.pathname with
    | none =>
      have hnone : ∀ identity scope, ¬ ServedFor env request identity scope := by
        rintro identity scope ⟨_, -, hserved, -⟩
        rw [hidentity] at hserved
        cases hserved
      dsimp only
      split_ifs
      · exact .done fun identity scope hserved => absurd hserved (hnone identity scope)
      · exact hother hnone
    | some identity =>
      dsimp only
      cases hscope : config.scopes.get? identity.scope with
      | none =>
        apply hother
        rintro identity' scope ⟨config', hconfig', hidentity', hserved⟩
        obtain rfl := Except.ok.inj (hconfig.symm.trans hconfig')
        obtain rfl := Option.some.inj (hidentity.symm.trans hidentity')
        rw [hscope] at hserved
        cases hserved
      | some scope =>
        have hserved : ServedFor env request identity scope := ⟨config, hconfig, hidentity, hscope⟩
        refine (explains_servePackage hserved).mono (fun _ _ hmade => hmade) ?_
        intro past result howes identity' scope' hserved'
        obtain ⟨rfl, rfl⟩ := hserved.unique hserved'
        exact howes

end Worker
end JsrProxy
