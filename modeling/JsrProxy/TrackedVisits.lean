import JsrProxy.ArtifactIsolation
import JsrProxy.Deployments

set_option autoImplicit false

/-!
# Tracked visits

In every run of a deployment each answer that a visit has received has a finished handler
or an object of the bucket behind it, and the objects handle only what the Worker asks.
-/
namespace JsrProxy
open ObjectHandlers Identity

theorem packageId_injective {package identity : PackageName} (hscope : '/' ∉ identity.scope)
    (hname : '/' ∉ identity.name) (h : packageId package = packageId identity) : package = identity := by
  obtain ⟨scope, name⟩ := package
  obtain ⟨scope', name'⟩ := identity
  have h' : scope ++ '/' :: name = scope' ++ '/' :: name' := (List.cons.inj h).2
  rcases List.append_eq_append_iff.1 h' with ⟨between, hs, hn⟩ | ⟨between, hs, hn⟩
  · cases between with
    | nil =>
      rw [List.append_nil] at hs
      obtain ⟨-, rfl⟩ := List.cons.inj hn
      rw [hs]
    | cons c rest =>
      obtain ⟨rfl, -⟩ := List.cons.inj hn
      rw [hs] at hscope
      exact absurd (List.mem_append_right _ List.mem_cons_self) hscope
  · cases between with
    | nil =>
      rw [List.append_nil] at hs
      obtain ⟨-, rfl⟩ := List.cons.inj hn
      rw [hs]
    | cons c rest =>
      obtain ⟨-, hrest⟩ := List.cons.inj hn
      dsimp only at hname
      rw [hrest] at hname
      exact absurd (List.mem_append_right _ List.mem_cons_self) hname

theorem ServedFor.package_eq {env : WorkerEnv} {request : Request} {identity : PackageName}
    {scope : GitHubScope} (h : ServedFor env request identity scope) {package : PackageName}
    (hname : packageId package = packageId identity) : package = identity := by
  obtain ⟨config, -, hidentity, -⟩ := h
  have hplain := plainIdentity_requested hidentity
  exact packageId_injective hplain.scope hplain.name hname

theorem ServedFor.scope_eq {env : WorkerEnv} {request request' : Request} {identity : PackageName}
    {scope scope' : GitHubScope} (h : ServedFor env request identity scope)
    (h' : ServedFor env request' identity scope') : scope' = scope := by
  obtain ⟨config, hconfig, -, hscope⟩ := h
  obtain ⟨config', hconfig', -, hscope'⟩ := h'
  obtain rfl := Except.ok.inj (hconfig.symm.trans hconfig')
  exact Option.some.inj (hscope'.symm.trans hscope)

namespace Deployment

def Checks (env : DeploymentEnv) (r : AdmissionRequest) : Prop :=
  ∃ pat secret, env.authFingerprintSecret = some secret ∧
    r = ⟨Auth.fingerprintPat secret pat, .check (some pat)⟩

def Asked (env : DeploymentEnv) (r : FleetRequest) : Prop :=
  ∃ now request, Made env.worker now request (.package (packageId r.package) r.request)

/-- What is behind an answer that a visit has received. -/
def Behind (env : DeploymentEnv) (site : Deployment) : WorkerExchange → Prop
  | ⟨.admission name request, .ok response⟩ => ∃ j reply,
      site.admissions.Finished j ⟨name, request⟩ reply ∧ ObjectTexts.fetched env.number reply = .ok response
  | ⟨.package name request, .ok response⟩ => ∃ j package reply, packageId package = name ∧
      site.packages.Finished j ⟨package, request⟩ reply ∧ ObjectTexts.fetched env.number reply = .ok response
  | ⟨.get key, .ok (some object)⟩ => ∃ held, site.bucket key = some held ∧ object = env.delivered key held
  | _ => True

def WaitsFor (site : Deployment) (program : Worker.Serving) (j : ℕ) : Prop :=
  (∀ name request (next : Except Str Fetched → Worker.Serving),
    program = Worker.ask (.admission name request) next →
      ∃ handling, site.admissions.threads[j]? = some ⟨⟨name, request⟩, handling⟩) ∧
  ∀ name request (next : Except Str Fetched → Worker.Serving),
    program = Worker.ask (.package name request) next →
      ∃ package handling, packageId package = name ∧
        site.packages.threads[j]? = some ⟨⟨package, request⟩, handling⟩

structure TrackedVisit (env : DeploymentEnv) (site : Deployment) (visit : Visit) : Prop where
  within : ∀ identity scope, ServedFor env.worker visit.request identity scope →
    Worker.Within env.worker visit.request identity scope.owner visit.program visit.past
  justified : visit.program.Justified (E := outsideCalls)
    (fun _ call => Made env.worker visit.now visit.request call)
    (fun past result => ∀ identity scope, ServedFor env.worker visit.request identity scope →
      Worker.Owes env.worker visit.request identity scope.owner past result) visit.past
  behind : ∀ exchange ∈ visit.past, Behind env site exchange
  waiting : ∀ j, visit.waiting = some j → WaitsFor site visit.program j

structure Tracked (env : DeploymentEnv) (site : Deployment) : Prop where
  visits : ∀ visit ∈ site.visits, TrackedVisit env site visit
  checks : ∀ thread ∈ site.admissions.threads, Checks env thread.request
  asked : ∀ thread ∈ site.packages.threads, Asked env thread.request

theorem tracked_new (env : DeploymentEnv) : Tracked env new where
  visits _ h := nomatch h
  checks _ h := nomatch h
  asked _ h := nomatch h

/-- What is behind an answer stays behind it. -/
structure Retains (site after : Deployment) : Prop where
  admissions : ∀ j request reply, site.admissions.Finished j request reply →
    after.admissions.Finished j request reply
  packages : ∀ j request reply, site.packages.Finished j request reply →
    after.packages.Finished j request reply
  checked : ∀ (j : ℕ) request, (∃ handling, site.admissions.threads[j]? = some ⟨request, handling⟩) →
    ∃ handling, after.admissions.threads[j]? = some ⟨request, handling⟩
  asked : ∀ (j : ℕ) request, (∃ handling, site.packages.threads[j]? = some ⟨request, handling⟩) →
    ∃ handling, after.packages.threads[j]? = some ⟨request, handling⟩
  bucket : site.bucket.Grows after.bucket

theorem Retains.of_pools {site after : Deployment} (env : DeploymentEnv)
    (hadmissions : after.admissions = site.admissions ∨
      ∃ e, after.admissions = AdmissionPool.step env.objects site.admissions e)
    (hpackages : after.packages = site.packages ∨
      ∃ e, after.packages = FleetPool.step env.objects site.packages e) : Retains site after where
  admissions j request reply h := by
    rcases hadmissions with he | ⟨e, he⟩ <;> rw [he]
    · exact h
    · exact h.step _ _ e
  packages j request reply h := by
    rcases hpackages with he | ⟨e, he⟩ <;> rw [he]
    · exact h
    · exact h.step _ _ e
  checked j request h := by
    rcases hadmissions with he | ⟨e, he⟩ <;> rw [he]
    · exact h
    · exact Pool.step_request _ _ _ e h
  asked j request h := by
    rcases hpackages with he | ⟨e, he⟩ <;> rw [he]
    · exact h
    · exact Pool.step_request _ _ _ e h
  bucket := by
    change site.packages.scene.world.objects.Grows after.packages.scene.world.objects
    rcases hpackages with he | ⟨e, he⟩ <;> rw [he]
    · exact .refl _
    · exact FleetPool.step_grows _ _ e

theorem Steps.retains {env : DeploymentEnv} {site after : Deployment} {e : DeploymentEvent}
    (h : Steps env site e after) : Retains site after := by
  cases h with
  | nothing | arrived | answered => exact .of_pools env (.inl rfl) (.inl rfl)
  | @askedAdmission i package visit name request =>
    exact .of_pools env (.inr ⟨.start ⟨name, request⟩, rfl⟩) (.inl rfl)
  | @askedPackage i package visit request =>
    exact .of_pools env (.inl rfl) (.inr ⟨.start ⟨package, request⟩, rfl⟩)
  | admission j choice => exact .of_pools env (.inr ⟨.advance j choice, rfl⟩) (.inl rfl)
  | object j choice => exact .of_pools env (.inl rfl) (.inr ⟨.advance j choice, rfl⟩)

theorem Behind.retained {env : DeploymentEnv} {site after : Deployment} (h : Retains site after)
    {exchange : WorkerExchange} (hbehind : Behind env site exchange) : Behind env after exchange := by
  obtain ⟨call, answer⟩ := exchange
  cases call with
  | admission name request =>
    change Except Str Fetched at answer
    cases answer with
    | error message => trivial
    | ok response =>
      obtain ⟨j, reply, hfinished, hfetched⟩ := hbehind
      exact ⟨j, reply, h.admissions _ _ _ hfinished, hfetched⟩
  | package name request =>
    change Except Str Fetched at answer
    cases answer with
    | error message => trivial
    | ok response =>
      obtain ⟨j, package, reply, hname, hfinished, hfetched⟩ := hbehind
      exact ⟨j, package, reply, hname, h.packages _ _ _ hfinished, hfetched⟩
  | discover owner repository pat => trivial
  | get key =>
    change Except Str (Option R2ObjectLike) at answer
    cases answer with
    | error message => trivial
    | ok found =>
      cases found with
      | none => trivial
      | some object =>
        obtain ⟨held, hheld, hobject⟩ := hbehind
        exact ⟨held, h.bucket _ _ hheld, hobject⟩
  | upstream call => trivial

theorem WaitsFor.retained {site after : Deployment} (h : Retains site after) {program : Worker.Serving}
    {j : ℕ} (hwaits : WaitsFor site program j) : WaitsFor after program j := by
  constructor
  · intro name request next hprogram
    exact h.checked j _ (hwaits.1 name request next hprogram)
  · intro name request next hprogram
    obtain ⟨package, handling, hname, hthread⟩ := hwaits.2 name request next hprogram
    obtain ⟨handling', hthread'⟩ := h.asked j _ ⟨handling, hthread⟩
    exact ⟨package, handling', hname, hthread'⟩

theorem TrackedVisit.retained {env : DeploymentEnv} {site after : Deployment} (h : Retains site after)
    {visit : Visit} (hvisit : TrackedVisit env site visit) : TrackedVisit env after visit where
  within := hvisit.within
  justified := hvisit.justified
  behind exchange hexchange := (hvisit.behind exchange hexchange).retained h
  waiting j hj := (hvisit.waiting j hj).retained h

theorem fetch_servedFor {env : WorkerEnv} {request : Request} {identity : PackageName} {scope : GitHubScope}
    (h : ServedFor env request identity scope) (now : ℤ) :
    Worker.fetch env now request = Worker.servePackage env now request identity scope := by
  obtain ⟨config, hconfig, hidentity, hscope⟩ := h
  unfold Worker.fetch
  simp only [hconfig, hidentity, hscope]

theorem tracked_arrived (env : DeploymentEnv) (site : Deployment) (now : ℤ) (request : Request) :
    TrackedVisit env site ⟨now, request, Worker.fetch env.worker now request, [], none⟩ where
  within identity scope hserved := by
    dsimp only
    rw [fetch_servedFor hserved]
    exact Worker.within_servePackage now hserved.proxyable
  justified := Worker.justified_fetch env.worker now request
  behind _ h := nomatch h
  waiting _ h := nomatch h

theorem TrackedVisit.made {env : DeploymentEnv} {site : Deployment} {visit : Visit}
    (h : TrackedVisit env site visit) {call : WorkerCall} {next : call.Answer → Worker.Serving}
    (hprogram : visit.program = Worker.ask call next) : Made env.worker visit.now visit.request call := by
  have hjustified := h.justified
  rw [hprogram] at hjustified
  cases hjustified with
  | call hop _ => exact hop

/-- The answer to a visit's call has something behind it. -/
theorem behind_answer {env : DeploymentEnv} {site : Deployment} {visit : Visit}
    (h : TrackedVisit env site visit) {call : WorkerCall} {next : call.Answer → Worker.Serving}
    (hprogram : visit.program = Worker.ask call next) {choice : VisitChoice} {answer : call.Answer}
    (hanswer : answerTo env site visit.waiting choice call = some answer) :
    Behind env site ⟨call, answer⟩ := by
  cases call with
  | admission name request =>
    change Except Str Fetched at answer
    cases answer with
    | error message => trivial
    | ok response =>
      unfold answerTo at hanswer
      dsimp only at hanswer
      split at hanswer
      · cases hanswer
      · obtain ⟨reply, hreply, hfetched⟩ := Option.map_eq_some_iff.1 hanswer
        obtain ⟨j, hj, hresult⟩ := Option.bind_eq_some_iff.1 hreply
        obtain ⟨handling, hthread⟩ := (h.waiting j hj).1 name request next hprogram
        exact ⟨j, reply, Pool.finished_of_result hthread hresult, hfetched⟩
  | package name request =>
    change Except Str Fetched at answer
    cases answer with
    | error message => trivial
    | ok response =>
      unfold answerTo at hanswer
      dsimp only at hanswer
      split at hanswer
      · cases hanswer
      · obtain ⟨reply, hreply, hfetched⟩ := Option.map_eq_some_iff.1 hanswer
        obtain ⟨j, hj, hresult⟩ := Option.bind_eq_some_iff.1 hreply
        obtain ⟨package, handling, hname, hthread⟩ := (h.waiting j hj).2 name request next hprogram
        exact ⟨j, package, reply, hname, Pool.finished_of_result hthread hresult, hfetched⟩
  | discover owner repository pat => trivial
  | get key =>
    change Except Str (Option R2ObjectLike) at answer
    cases answer with
    | error message => trivial
    | ok found =>
      cases found with
      | none => trivial
      | some object =>
        unfold answerTo at hanswer
        dsimp only at hanswer
        split at hanswer
        · cases hanswer
        · obtain ⟨held, hheld, hobject⟩ := Option.map_eq_some_iff.1 (Except.ok.inj (Option.some.inj hanswer))
          exact ⟨held, hheld, hobject.symm⟩
  | upstream call => trivial

theorem TrackedVisit.answered {env : DeploymentEnv} {site : Deployment} {visit : Visit}
    (h : TrackedVisit env site visit) {call : WorkerCall} {next : call.Answer → Worker.Serving}
    (hprogram : visit.program = Worker.ask call next) {answer : call.Answer}
    (hbehind : Behind env site ⟨call, answer⟩) :
    TrackedVisit env site ⟨visit.now, visit.request, next answer, ⟨call, answer⟩ :: visit.past, none⟩ where
  within identity scope hserved := by
    have hwithin := h.within identity scope hserved
    rw [hprogram] at hwithin
    cases hwithin with
    | call _ hnext => exact hnext answer
  justified := by
    have hjustified := h.justified
    rw [hprogram] at hjustified
    cases hjustified with
    | call _ hnext => exact hnext answer
  behind exchange hexchange := by
    rcases List.mem_cons.1 hexchange with rfl | hexchange
    · exact hbehind
    · exact h.behind exchange hexchange
  waiting _ hj := nomatch hj

theorem TrackedVisit.waits {env : DeploymentEnv} {site : Deployment} {visit : Visit} {j : ℕ}
    (h : TrackedVisit env site visit) (hwaits : WaitsFor site visit.program j) :
    TrackedVisit env site { visit with waiting := some j } where
  within := h.within
  justified := h.justified
  behind := h.behind
  waiting i hi := by
    obtain rfl := Option.some.inj hi
    exact hwaits

theorem started_thread {E : Effects} {σ ρ χ α : Type} (handler : ρ → Program E α)
    (answer : σ → χ → (op : E.Op) → E.Ret op × σ) (pool : Pool E σ ρ α) (request : ρ) :
    ∃ handling, (Pool.step handler answer pool (.start request)).threads[pool.threads.length]?
      = some ⟨request, handling⟩ :=
  ⟨handler request, List.getElem?_concat_length⟩

theorem checks_of_made {env : DeploymentEnv} {now : ℤ} {request : Request} {name : Str}
    {check : ObjectRequest} (h : Made env.worker now request (.admission name check)) :
    Checks env ⟨name, check⟩ := by
  cases h with
  | admission hpat hsecret => exact ⟨_, _, hsecret, rfl⟩

theorem Tracked.step {env : DeploymentEnv} {site : Deployment} (h : Tracked env site)
    (e : DeploymentEvent) : Tracked env (Deployment.step env site e) := by
  have hsteps := step_steps env site e
  have hretains := hsteps.retains
  generalize Deployment.step env site e = after at hsteps hretains ⊢
  have hkept : ∀ visit ∈ site.visits, TrackedVisit env after visit :=
    fun visit hvisit => (h.visits visit hvisit).retained hretains
  cases hsteps with
  | nothing => exact h
  | arrived now request =>
    refine ⟨?_, h.checks, h.asked⟩
    intro visit hvisit
    rcases List.mem_append.1 hvisit with hvisit | hvisit
    · exact hkept visit hvisit
    · rw [List.mem_singleton.1 hvisit]
      exact tracked_arrived env _ now request
  | @askedAdmission i package visit name request next hvisit hprogram =>
    have hmem := List.mem_of_getElem? hvisit
    have hmade := (h.visits visit hmem).made hprogram
    refine ⟨?_, ?_, h.asked⟩
    · intro visit' hvisit'
      rcases List.mem_or_eq_of_mem_set hvisit' with hvisit' | rfl
      · exact hkept visit' hvisit'
      · apply (hkept visit hmem).waits
        constructor
        · intro name' request' next' hprogram'
          rw [hprogram] at hprogram'
          cases hprogram'
          exact started_thread (Admissions.handle env.objects) Admissions.answer site.admissions
            ⟨name, request⟩
        · intro name' request' next' hprogram'
          rw [hprogram] at hprogram'
          cases hprogram'
    · intro thread hthread
      rcases Pool.mem_step_threads _ _ _ _ hthread with ⟨before, hbefore, he⟩ | he
      · rw [← he]
        exact h.checks before hbefore
      · rw [← PoolEvent.start.inj he]
        exact checks_of_made hmade
  | @askedPackage i package visit request next hvisit hprogram =>
    have hmem := List.mem_of_getElem? hvisit
    have hmade := (h.visits visit hmem).made hprogram
    refine ⟨?_, h.checks, ?_⟩
    · intro visit' hvisit'
      rcases List.mem_or_eq_of_mem_set hvisit' with hvisit' | rfl
      · exact hkept visit' hvisit'
      · apply (hkept visit hmem).waits
        constructor
        · intro name' request' next' hprogram'
          rw [hprogram] at hprogram'
          cases hprogram'
        · intro name' request' next' hprogram'
          rw [hprogram] at hprogram'
          cases hprogram'
          obtain ⟨handling, hthread⟩ := started_thread (Fleet.handle env.objects) Fleet.answer
            site.packages ⟨package, request⟩
          exact ⟨package, handling, rfl, hthread⟩
    · intro thread hthread
      rcases Pool.mem_step_threads _ _ _ _ hthread with ⟨before, hbefore, he⟩ | he
      · rw [← he]
        exact h.asked before hbefore
      · rw [← PoolEvent.start.inj he]
        exact ⟨visit.now, visit.request, hmade⟩
  | admission j choice =>
    refine ⟨hkept, ?_, h.asked⟩
    intro thread hthread
    rcases Pool.mem_step_threads _ _ _ _ hthread with ⟨before, hbefore, he⟩ | he
    · rw [← he]
      exact h.checks before hbefore
    · cases he
  | object j choice =>
    refine ⟨hkept, h.checks, ?_⟩
    intro thread hthread
    rcases Pool.mem_step_threads _ _ _ _ hthread with ⟨before, hbefore, he⟩ | he
    · rw [← he]
      exact h.asked before hbefore
    · cases he
  | @answered i choice visit call next answer hvisit hprogram hanswer =>
    have hmem := List.mem_of_getElem? hvisit
    have htracked := h.visits visit hmem
    refine ⟨?_, h.checks, h.asked⟩
    intro visit' hvisit'
    rcases List.mem_or_eq_of_mem_set hvisit' with hvisit' | rfl
    · exact hkept visit' hvisit'
    · exact (htracked.answered hprogram (behind_answer htracked hprogram hanswer)).retained hretains

open Executions in
theorem tracked_run (env : DeploymentEnv) (events : List DeploymentEvent) :
    Tracked env (run (Deployment.step env) new events) :=
  run_invariant (Tracked env) (fun _ _ => True) (fun _ e h _ => h.step e) _ _ (tracked_new env)
    (admitted_true _ _ _)

end Deployment
end JsrProxy
