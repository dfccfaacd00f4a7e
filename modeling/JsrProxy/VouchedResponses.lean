import JsrProxy.CachedDecisions
import JsrProxy.KeptDecisions
import JsrProxy.TrackedVisits

set_option autoImplicit false

/-!
# Vouched responses

In every run of a deployment, whatever the Worker takes from a package's registry or from
its artifacts has two answers of GitHub behind it, one about the user and one about the
repository that the scope maps to. Each came to the handler that granted, or within the
minute before that handler returned.
-/
namespace JsrProxy
open ObjectHandlers Identity

theorem admitted_granted {env : ObjectEnv} {github : Fetched} {decision record : AdmissionRecord}
    (h : admitted env github decision = .ok record) (hgranted : record.granted = true) :
    decision.granted = true ∧ record.expiresAt = decision.expiresAt ∧ ∃ config login,
      Config.parseConfig env.config = .ok config ∧
      stringOf (github.body.json.bind (·.get? "login".toList)) = some login ∧
      login ∈ config.trustedGitHubUsers := by
  unfold admitted at h
  split_ifs at h with hdecision
  · cases hconfig : Config.parseConfig env.config with
    | error message =>
      rw [hconfig] at h
      cases h
    | ok config =>
      rw [hconfig] at h
      have h := Except.ok.inj h
      cases hlogin : stringOf (github.body.json.bind (·.get? "login".toList)) with
      | none =>
        simp only [hlogin] at h
        rw [← h] at hgranted
        cases hgranted
      | some login =>
        simp only [hlogin] at h
        subst h
        exact ⟨hdecision, rfl, config, login, rfl, rfl, List.contains_iff_mem.1 hgranted⟩
  · obtain rfl := Except.ok.inj h
    cases hgranted

namespace Deployment

/-- The clock of the object that answers does not go back. -/
def Timely (site : Deployment) : DeploymentEvent → Prop
  | .admission j choice => ∀ fingerprint ∈ calledObject site.admissions j,
      site.admissions.scene.world.clocks fingerprint ≤ choice.time
  | .object j choice => ∀ package ∈ calledObject site.packages j,
      site.packages.scene.world.clocks package ≤ choice.time
  | _ => True

instance (site : Deployment) (e : DeploymentEvent) : Decidable (Timely site e) :=
  match e with
  | .admission j choice => inferInstanceAs (Decidable (∀ fingerprint ∈ calledObject site.admissions j,
      site.admissions.scene.world.clocks fingerprint ≤ choice.time))
  | .object j choice => inferInstanceAs (Decidable (∀ package ∈ calledObject site.packages j,
      site.packages.scene.world.clocks package ≤ choice.time))
  | .arrive _ _ | .ask _ _ | .answer _ _ => .isTrue trivial

/-- GitHub's success for a path and a credential of the fingerprint. It came to the handler
    itself, or within the minute before the handler returned. -/
def Confirmed {κ σ ρ : Type} (pool : GatePool κ σ ρ) (place : κ) (i : ℕ) (secret fingerprint path : Str)
    (github : Fetched) : Prop :=
  github.ok = true ∧ ∃ pat request received, Auth.fingerprintPat secret pat = fingerprint ∧
    Auth.githubRequest path pat = .ok request ∧ ∃ called ∈ pool.scene.history, called.op.1 = place ∧
      called.within = Gate.fetchExchange request (.ok github) received ∧
      (called.thread = i ∨ ∃ now, finishedAt pool i = some now ∧ received ≤ now ∧ now < received + 60000)

def UserConfirmed (env : DeploymentEnv) (site : Deployment) (i : ℕ) (secret fingerprint : Str) : Prop :=
  ∃ github config login, Confirmed site.admissions fingerprint i secret fingerprint "/user".toList github ∧
    Config.parseConfig env.config = .ok config ∧
    stringOf (github.body.json.bind (·.get? "login".toList)) = some login ∧ login ∈ config.trustedGitHubUsers

def RepositoryConfirmed (env : DeploymentEnv) (site : Deployment) (i : ℕ) (secret fingerprint : Str)
    (identity : PackageName) (scope : GitHubScope) : Prop :=
  ∃ github, Confirmed site.packages identity i secret fingerprint (repositoryPath scope.owner identity.name) github ∧
    Named env.objects github identity.name

/-- Both gates have answered the visit with a grant that GitHub confirmed. -/
structure Vouched (env : DeploymentEnv) (site : Deployment) (visit : Visit) (identity : PackageName)
    (scope : GitHubScope) (secret pat : Str) : Prop where
  credential : Auth.githubPat visit.request.headers = some pat
  configured : env.authFingerprintSecret = some secret
  user : ∃ i reply response,
    site.admissions.Finished i ⟨Auth.fingerprintPat secret pat, .check (some pat)⟩ reply ∧
    ObjectTexts.fetched env.number reply = .ok response ∧
    admissionAnswered (Auth.fingerprintPat secret pat) pat response ∈ visit.past ∧
    Granting response ∧ UserConfirmed env site i secret (Auth.fingerprintPat secret pat)
  repository : ∃ i body reply response, body = ⟨Auth.fingerprintPat secret pat, scope.owner, identity.name, pat⟩ ∧
    site.packages.Finished i ⟨identity, .authorize (some body)⟩ reply ∧
    ObjectTexts.fetched env.number reply = .ok response ∧
    authorizationAnswered identity body response ∈ visit.past ∧ Granting response ∧
    RepositoryConfirmed env site i secret (Auth.fingerprintPat secret pat) identity scope

def Protected : WorkerCall → Prop
  | .get _ => True
  | .package _ (.refresh _) | .package _ (.materialize _) | .package _ .status => True
  | _ => False

/-- The visit asks for something protected, or responds with success on the Worker's own
    account. -/
inductive Obtains (visit : Visit) : Prop
  | asks {call : WorkerCall} {next : call.Answer → Worker.Serving} (hprogram : visit.program = Worker.ask call next)
      (hcall : Protected call)
  | responds {response : Response} (hprogram : visit.program = .done (.ok (.own response)))
      (hstatus : response.status < 400)

section
open Executions
variable {env : DeploymentEnv} {events : List DeploymentEvent}

theorem admissions_gated (h : Admitted (step env) Timely new events) :
    Gated env.objects AdmissionRequest.fingerprint AdmissionRequest.request
      (run (step env) new events).admissions := by
  refine gated_reached Admissions.objects (justified_admission env.objects) ?_ (admissions_reached env ?_)
  · exact fun _ _ => rfl
  refine admitted_of_invariant (fun _ => True) Timely _ (fun _ _ _ _ => trivial) ?_ _ _ trivial h
  intro site e _ htimely
  cases e with
  | admission j choice => exact fun _ _ _ hthread => htimely _ (calledObject_eq hthread)
  | arrive | ask | object | answer => trivial

theorem packages_gated (h : Admitted (step env) Timely new events) :
    Gated env.objects FleetRequest.package FleetRequest.request (run (step env) new events).packages := by
  refine gated_reached Fleet.objects_answer (justified_package env.objects) ?_ (packages_reached env ?_)
  · exact fun _ _ => rfl
  refine admitted_of_invariant (fun _ => True) Timely _ (fun _ _ _ _ => trivial) ?_ _ _ trivial h
  intro site e _ htimely
  cases e with
  | object j choice => exact fun _ _ _ hthread => htimely _ (calledObject_eq hthread)
  | arrive | ask | admission | answer => trivial

end

theorem op_place {κ σ ρ : Type} {env : ObjectEnv} {key : ρ → κ} {asks : ρ → ObjectRequest}
    {pool : GatePool κ σ ρ} (h : Gated env key asks pool) {called : Called (objectCalls.tagged κ) ρ}
    (hcalled : called ∈ pool.scene.history) : called.op.1 = key called.request := by
  obtain ⟨later, earlier, -, hplace, -⟩ := h.accounted.of_mem hcalled
  exact hplace

section
variable {env : DeploymentEnv} {site : Deployment}

theorem user_confirmed (htracked : Tracked env site)
    (hgated : Gated env.objects AdmissionRequest.fingerprint AdmissionRequest.request site.admissions)
    {secret pat : Str} (hsecret : env.authFingerprintSecret = some secret) (hpat : pat ≠ []) {i : ℕ}
    {reply : Reply ObjectBody} {response : Fetched}
    (hfinished : site.admissions.Finished i ⟨Auth.fingerprintPat secret pat, .check (some pat)⟩ reply)
    (hfetched : ObjectTexts.fetched env.number reply = .ok response) (hgranting : Granting response) :
    UserConfirmed env site i secret (Auth.fingerprintPat secret pat) := by
  obtain ⟨c, rest, rfl⟩ := List.exists_cons_of_ne_nil hpat
  obtain ⟨asker, gate, github, received, record, hrests⟩ :=
    hgated.restsOn (show gateOf env.objects (.check (some (c :: rest))) = some (userGate env.objects (c :: rest))
      from rfl) hfinished hfetched hgranting
  obtain ⟨request, hrequest, called, hcalled, hasker, hwithin, hrecent⟩ := hrests.asked
  obtain ⟨thread, hthread, hthreadRequest⟩ := hgated.accounted.mem_requests hcalled
  obtain ⟨pat', secret', hsecret', hcheck⟩ := htracked.checks thread hthread
  obtain rfl := Option.some.inj (hsecret.symm.trans hsecret')
  rw [hthreadRequest, hasker] at hcheck
  subst hcheck
  have hgate := hrests.asks
  cases pat' with
  | nil => cases hgate
  | cons c' rest' =>
    obtain rfl : userGate env.objects (c' :: rest') = gate := Option.some.inj hgate
    obtain ⟨decision, hclass, hmade⟩ := hrests.decided
    obtain ⟨hdecision, hexpires, config, login, hconfig, hlogin, htrusted⟩ :=
      admitted_granted hmade hrests.granted
    obtain ⟨hok, hreceived⟩ := Auth.classify_granted hclass hdecision
    refine ⟨github, config, login, ⟨hok, c' :: rest', request, received, hrests.sameObject, hrequest, called,
      hcalled, ?_, hwithin, ?_⟩, hconfig, hlogin, htrusted⟩
    · rw [op_place hgated hcalled, hasker]
      exact hrests.sameObject
    · rw [hexpires, hreceived] at hrecent
      exact hrecent

theorem repository_confirmed (htracked : Tracked env site)
    (hgated : Gated env.objects FleetRequest.package FleetRequest.request site.packages)
    {request : Request} {identity : PackageName} {scope : GitHubScope}
    (hserved : ServedFor env.worker request identity scope) {secret : Str}
    (hsecret : env.authFingerprintSecret = some secret) {fingerprint pat : Str} {i : ℕ}
    {reply : Reply ObjectBody} {response : Fetched}
    (hfinished : site.packages.Finished i
      ⟨identity, .authorize (some ⟨fingerprint, scope.owner, identity.name, pat⟩)⟩ reply)
    (hfetched : ObjectTexts.fetched env.number reply = .ok response) (hgranting : Granting response) :
    RepositoryConfirmed env site i secret fingerprint identity scope := by
  obtain ⟨asker, gate, github, received, record, hrests⟩ :=
    hgated.restsOn (show gateOf env.objects (.authorize (some ⟨fingerprint, scope.owner, identity.name, pat⟩))
      = some (repositoryGate env.objects ⟨fingerprint, scope.owner, identity.name, pat⟩) from rfl)
      hfinished hfetched hgranting
  obtain ⟨asked, hasked, called, hcalled, hasker, hwithin, hrecent⟩ := hrests.asked
  obtain ⟨thread, hthread, hthreadRequest⟩ := hgated.accounted.mem_requests hcalled
  obtain ⟨now, request', hmade⟩ := htracked.asked thread hthread
  rw [hthreadRequest, hasker] at hmade
  obtain ⟨package, object⟩ := asker
  obtain rfl : package = identity := hrests.sameObject
  have hgate := hrests.asks
  dsimp only at hmade hgate
  generalize hname : packageId package = name at hmade
  cases hmade with
  | status | refresh | materialize | recover => cases hgate
  | authorize hserved' hpat' hsecret' =>
    -- the object of a package is asked about one repository only
    obtain rfl : package = _ := hserved'.package_eq hname
    obtain rfl := hserved.scope_eq hserved'
    obtain rfl := Option.some.inj (hsecret.symm.trans hsecret')
    obtain rfl := Option.some.inj hgate
    obtain ⟨decision, hclass, hmade⟩ := hrests.decided
    obtain rfl := Except.ok.inj hmade
    obtain ⟨hdecision, hnamed⟩ := repositoryDecision_granted.1 hrests.granted
    obtain ⟨hok, hreceived⟩ := Auth.classify_granted hclass hdecision
    refine ⟨github, ⟨hok, _, asked, received, CachedDecisions.repositoryKey_injective hrests.sameKey, hasked,
      called, hcalled, ?_, hwithin, ?_⟩, hnamed⟩
    · rw [op_place hgated hcalled, hasker]
    · rw [CachedDecisions.repositoryDecision_expiresAt, hreceived] at hrecent
      exact hrecent

/-- Both grants that a visit has received are confirmed. -/
theorem TrackedVisit.vouched (htracked : Tracked env site)
    (hadmissions : Gated env.objects AdmissionRequest.fingerprint AdmissionRequest.request site.admissions)
    (hpackages : Gated env.objects FleetRequest.package FleetRequest.request site.packages) {visit : Visit}
    (hvisit : visit ∈ site.visits) {identity : PackageName} {scope : GitHubScope}
    (hserved : ServedFor env.worker visit.request identity scope)
    (hgranted : GrantedBoth env.worker visit.request identity scope.owner visit.past) :
    ∃ secret pat, Vouched env site visit identity scope secret pat := by
  obtain ⟨pat, secret, admission, authorization, hpat, hsecret, hadmission, hadmits, hauthorization,
    hauthorizes⟩ := hgranted
  have hbehind := (htracked.visits visit hvisit).behind
  obtain ⟨i, reply, hfinished, hfetched⟩ := hbehind _ hadmission
  obtain ⟨i', package, reply', hname, hfinished', hfetched'⟩ := hbehind _ hauthorization
  obtain rfl := hserved.package_eq hname
  refine ⟨secret, pat, hpat, hsecret, ⟨i, reply, admission, hfinished, hfetched, hadmission, hadmits, ?_⟩,
    ⟨i', _, reply', authorization, rfl, hfinished', hfetched', hauthorization, hauthorizes, ?_⟩⟩
  · exact user_confirmed htracked hadmissions hsecret (Auth.githubPat_eq_some hpat).2.1 hfinished hfetched hadmits
  · exact repository_confirmed htracked hpackages hserved hsecret hfinished' hfetched' hauthorizes

end

/-- Nothing protected is asked for and no success is responded before both grants. -/
theorem Obtains.granted {env : DeploymentEnv} {site : Deployment} {visit : Visit} (h : Obtains visit)
    (htracked : TrackedVisit env site visit) {identity : PackageName} {scope : GitHubScope}
    (hserved : ServedFor env.worker visit.request identity scope) :
    GrantedBoth env.worker visit.request identity scope.owner visit.past := by
  cases h with
  | @asks call next hprogram hcall =>
    have hwithin := htracked.within identity scope hserved
    rw [hprogram] at hwithin
    cases hwithin with
    | call hguarded _ =>
      cases call with
      | get key => exact hguarded.1
      | package name request =>
        cases request with
        | refresh | materialize | status => exact hguarded.2
        | check | authorize | recover | complete | metadata | unknown => cases hcall
      | admission | discover | upstream => cases hcall
  | @responds response hprogram hstatus =>
    have hjustified := htracked.justified
    rw [hprogram] at hjustified
    cases hjustified with
    | done howes =>
      have hexplained := howes identity scope hserved _ rfl
      generalize visit.past = past at hexplained ⊢
      cases hexplained with
      | refused hrefused => exact absurd hstatus (Nat.not_lt.2 hrefused)
      | status hgranted => exact Worker.grantedBoth_cons hgranted _
      | metadata hgranted => exact Worker.grantedBoth_cons hgranted _
      | artifact hgranted => exact Worker.grantedBoth_cons (Worker.grantedBoth_cons hgranted _) _

open Executions in
/-- In every run, who obtains something of a package carries a credential that GitHub has
    confirmed within the minute, for a trusted user and for the mapped repository. -/
theorem vouched_of_obtains (env : DeploymentEnv) {events : List DeploymentEvent}
    (htimely : Admitted (step env) Timely new events) {visit : Visit}
    (hvisit : visit ∈ (run (step env) new events).visits) {identity : PackageName} {scope : GitHubScope}
    (hserved : ServedFor env.worker visit.request identity scope) (hobtains : Obtains visit) :
    ∃ secret pat, Vouched env (run (step env) new events) visit identity scope secret pat := by
  have htracked := tracked_run env events
  exact TrackedVisit.vouched htracked (admissions_gated htimely) (packages_gated htimely) hvisit hserved
    (hobtains.granted (htracked.visits visit hvisit) hserved)

def widget : PackageName := ⟨"acme".toList, "widget".toList⟩

def siteEnv : DeploymentEnv where
  config := some ("\x7b\"scopes\":\x7b\"acme\":\x7b\"type\":\"github\"\x7d\x7d," ++
    "\"trusted_github_users\":[\"ann\"]\x7d").toList
  authFingerprintSecret := some "secret".toList
  recoverySecret := none
  materializes := true
  toLowerCase := toAsciiLowercase
  parseUrl _ := none
  number _ := []
  httpEtag _ _ := []
  uploaded _ _ := []

def statusRequest : Request := ⟨"GET".toList, ⟨"https://proxy.example".toList, "/-/status/@acme/widget".toList, []⟩,
  [("authorization".toList, "Bearer pat".toList)], []⟩

def answeredWith (text : String) : Choice := ⟨0, none, .ok ⟨200, [], .bytes (Utf8.encode text.toList), []⟩, none⟩

def undisturbed : VisitChoice where
  lost := none
  discovery := .failed
  upstream
    | .fetch _ => .error []
    | .cacheMatch _ => .ok none
    | .cachePut _ _ => .ok ()

def userAnswer : Choice := answeredWith "\x7b\"login\":\"ann\"\x7d"

def repositoryAnswer : Choice := answeredWith "\x7b\"name\":\"widget\"\x7d"

def grantedRun : List DeploymentEvent :=
  [.arrive 0 statusRequest, .ask 0 widget, .admission 0 userAnswer, .admission 0 userAnswer,
    .admission 0 userAnswer, .answer 0 undisturbed, .ask 0 widget, .object 0 repositoryAnswer,
    .object 0 repositoryAnswer, .object 0 repositoryAnswer, .answer 0 undisturbed]

def asksStatus (site : Deployment) : Bool :=
  match site.visits with
  | [] => false
  | visit :: _ =>
    match visit.program with
    | .done _ => false
    | .call (call : WorkerCall) _ =>
      match call with
      | .package _ .status => visit.request = statusRequest
      | _ => false

theorem obtains_of_asksStatus {site : Deployment} (h : asksStatus site = true) :
    ∃ visit ∈ site.visits, visit.request = statusRequest ∧ Obtains visit := by
  unfold asksStatus at h
  split at h
  · cases h
  · rename_i visit rest hvisits
    split at h
    · cases h
    · rename_i call next hprogram
      split at h
      · refine ⟨visit, by rw [hvisits]; exact List.mem_cons_self, of_decide_eq_true h, ?_⟩
        exact .asks hprogram trivial
      · cases h

theorem servedFor_status : ServedFor siteEnv.worker statusRequest widget ⟨"acme".toList⟩ :=
  ⟨⟨⟨[("acme".toList, ⟨"acme".toList⟩)], by decide⟩, ["ann".toList]⟩, by decide +kernel, by decide +kernel,
    by decide +kernel⟩

open Executions in
theorem vouched_grantedRun : ∃ visit ∈ (run (step siteEnv) new grantedRun).visits, ∃ secret pat,
    Vouched siteEnv (run (step siteEnv) new grantedRun) visit widget ⟨"acme".toList⟩ secret pat := by
  have hasks : asksStatus (run (step siteEnv) new grantedRun) = true := by decide +kernel
  obtain ⟨visit, hvisit, hrequest, hobtains⟩ := obtains_of_asksStatus hasks
  refine ⟨visit, hvisit, vouched_of_obtains siteEnv (by decide +kernel) hvisit ?_ hobtains⟩
  rw [hrequest]
  exact servedFor_status

end Deployment
end JsrProxy
