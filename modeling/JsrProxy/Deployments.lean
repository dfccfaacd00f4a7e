import JsrProxy.ExplainedResponses
import JsrProxy.ObjectTexts
import JsrProxy.PackageFleets

set_option autoImplicit false

/-!
# Deployments

The Worker, its admission objects, its package objects and the bucket at work together on
any number of requests. A visit of the Worker asks an object by starting one of its
handlers, and goes on with the text of that handler's reply. Everything may interleave.
-/
namespace JsrProxy
open ObjectHandlers

structure Admissions where
  decisions : Str → Str → Option AdmissionRecord
  clocks : Str → ℤ

abbrev admissionCalls : Effects := objectCalls.tagged Str

structure AdmissionRequest where
  fingerprint : Str
  request : ObjectRequest

namespace Admissions

def new : Admissions := ⟨fun _ _ => none, fun _ => 0⟩

def object (admissions : Admissions) (fingerprint : Str) : World :=
  ⟨none, admissions.decisions fingerprint, ObjectStore.empty, admissions.clocks fingerprint⟩

def answer (admissions : Admissions) (choice : Choice) (call : admissionCalls.Op) :
    admissionCalls.Ret call × Admissions :=
  let (result, world) := World.answer (admissions.object call.1) choice call.2
  (result, ⟨Function.update admissions.decisions call.1 world.decisions,
    Function.update admissions.clocks call.1 world.clock⟩)

def handle (env : ObjectEnv) (r : AdmissionRequest) : Program admissionCalls (Reply ObjectBody) :=
  match r.request with
  | .check pat => (check env pat).tag r.fingerprint
  | _ => (respond 404 "not found").tag r.fingerprint

end Admissions

abbrev AdmissionPool := Pool admissionCalls Admissions AdmissionRequest (Reply ObjectBody)

def AdmissionPool.step (env : ObjectEnv) (pool : AdmissionPool) (e : PoolEvent AdmissionRequest Choice) :
    AdmissionPool := Pool.step (Admissions.handle env) Admissions.answer pool e

namespace Pool

variable {E : Effects} {σ ρ χ α : Type}

def result (pool : Pool E σ ρ α) (i : ℕ) : Option α :=
  match pool.threads[i]? with
  | some ⟨_, .done result⟩ => some result
  | _ => none

theorem finished_of_result {pool : Pool E σ ρ α} {i : ℕ} {request : ρ} {program : Program E α} {a : α}
    (hthread : pool.threads[i]? = some ⟨request, program⟩) (h : pool.result i = some a) :
    pool.Finished i request a := by
  unfold result at h
  rw [hthread] at h
  cases program with
  | call op next => cases h
  | done b =>
    obtain rfl := Option.some.inj h
    exact hthread

variable (handler : ρ → Program E α) (answer : σ → χ → (op : E.Op) → E.Ret op × σ)

theorem step_request (pool : Pool E σ ρ α) (e : PoolEvent ρ χ) {i : ℕ} {request : ρ}
    (h : ∃ program, pool.threads[i]? = some ⟨request, program⟩) :
    ∃ program, (step handler answer pool e).threads[i]? = some ⟨request, program⟩ := by
  obtain ⟨program, h⟩ := h
  have hlt := (List.getElem?_eq_some_iff.1 h).1
  rcases step_cases handler answer pool e with
    ⟨started, -, hstep⟩ | ⟨j, choice, asked, op, next, -, hj, hstep⟩ | hstep
  · rw [hstep]
    exact ⟨program, (List.getElem?_append_left hlt).trans h⟩
  · rw [hstep]
    by_cases hji : j = i
    · subst hji
      rw [hj] at h
      cases h
      exact ⟨_, List.getElem?_set_self hlt⟩
    · exact ⟨program, by rw [List.getElem?_set_ne hji]; exact h⟩
  · rw [hstep]
    exact ⟨program, h⟩

theorem Finished.step {pool : Pool E σ ρ α} (e : PoolEvent ρ χ) {i : ℕ} {request : ρ} {a : α}
    (h : pool.Finished i request a) : (step handler answer pool e).Finished i request a := by
  have hlt := (List.getElem?_eq_some_iff.1 h).1
  rcases step_cases handler answer pool e with
    ⟨started, -, hstep⟩ | ⟨j, choice, asked, op, next, -, hj, hstep⟩ | hstep
  · rw [hstep]
    exact (List.getElem?_append_left hlt).trans h
  · have hji : j ≠ i := by
      rintro rfl
      rw [h] at hj
      cases hj
    rw [hstep]
    exact (List.getElem?_set_ne hji).trans h
  · rw [hstep]
    exact h

theorem mem_step_threads (pool : Pool E σ ρ α) (e : PoolEvent ρ χ) {thread : Thread E ρ α}
    (h : thread ∈ (step handler answer pool e).threads) :
    (∃ before ∈ pool.threads, before.request = thread.request) ∨ e = .start thread.request := by
  rcases step_cases handler answer pool e with
    ⟨started, rfl, hstep⟩ | ⟨j, choice, asked, op, next, -, hj, hstep⟩ | hstep
  · rw [hstep] at h
    rcases List.mem_append.1 h with h | h
    · exact .inl ⟨thread, h, rfl⟩
    · rw [List.mem_singleton.1 h]
      exact .inr rfl
  · rw [hstep] at h
    rcases List.mem_or_eq_of_mem_set h with h | rfl
    · exact .inl ⟨thread, h, rfl⟩
    · exact .inl ⟨_, List.mem_of_getElem? hj, rfl⟩
  · rw [hstep] at h
    exact .inl ⟨thread, h, rfl⟩

end Pool

structure DeploymentEnv where
  config : Option Str
  authFingerprintSecret : Option Str
  recoverySecret : Option Str
  materializes : Bool
  toLowerCase : Str → Str
  parseUrl : Str → Option AbsoluteUrl
  number : ℚ → Str
  httpEtag : Str → R2Object → Str
  uploaded : Str → R2Object → Str

namespace DeploymentEnv

def worker (env : DeploymentEnv) : WorkerEnv :=
  ⟨env.config, env.authFingerprintSecret, env.recoverySecret, true, true, true⟩

def objects (env : DeploymentEnv) : ObjectEnv :=
  ⟨env.config, env.materializes, env.toLowerCase, env.parseUrl⟩

def delivered (env : DeploymentEnv) (key : Str) (object : R2Object) : R2ObjectLike :=
  ⟨object.value, env.httpEtag key object, env.uploaded key object, object.contentType⟩

end DeploymentEnv

/-- A request at work in the Worker, with the answers that it got, the latest first, and the
    number of the handler that it waits for. -/
structure Visit where
  now : ℤ
  request : Request
  program : Worker.Serving
  past : List WorkerExchange
  waiting : Option ℕ

/-- What the outside decides about an answer to the Worker: whether it is lost, and what
    GitHub's branches, the upstream registry and the cache come to. -/
structure VisitChoice where
  lost : Option Str
  discovery : Discovery
  upstream : (call : FallthroughCall) → call.Answer

structure Deployment where
  admissions : AdmissionPool
  packages : FleetPool
  visits : List Visit

inductive DeploymentEvent
  | arrive (now : ℤ) (request : Request)
  | ask (visit : ℕ) (package : PackageName)
  | admission (thread : ℕ) (choice : Choice)
  | object (thread : ℕ) (choice : Choice)
  | answer (visit : ℕ) (choice : VisitChoice)

namespace Deployment

def new : Deployment := ⟨.start .new, .start .new, []⟩

def bucket (site : Deployment) : R2Bucket := site.packages.scene.world.objects

/-- An object is asked by starting one of its handlers. -/
def ask (env : DeploymentEnv) (site : Deployment) (i : ℕ) (package : PackageName) : Deployment :=
  match site.visits[i]? with
  | none => site
  | some visit =>
    match visit.waiting, visit.program with
    | none, .call (.admission name request) _ =>
      { site with
        admissions := AdmissionPool.step env.objects site.admissions (.start ⟨name, request⟩)
        visits := site.visits.set i { visit with waiting := some site.admissions.threads.length } }
    | none, .call (.package name request) _ =>
      if packageId package = name then
        { site with
          packages := FleetPool.step env.objects site.packages (.start ⟨package, request⟩)
          visits := site.visits.set i { visit with waiting := some site.packages.threads.length } }
      else site
    | _, _ => site

/-- The answer to a call of a visit. That of an object is the reply of the handler that the
    visit waits for. -/
def answerTo (env : DeploymentEnv) (site : Deployment) (waiting : Option ℕ) (choice : VisitChoice) :
    (call : WorkerCall) → Option call.Answer
  | .admission _ _ =>
    match choice.lost with
    | some message => some (.error message)
    | none => (waiting.bind site.admissions.result).map (ObjectTexts.fetched env.number)
  | .package _ _ =>
    match choice.lost with
    | some message => some (.error message)
    | none => (waiting.bind site.packages.result).map (ObjectTexts.fetched env.number)
  | .discover _ _ _ => some choice.discovery
  | .get key =>
    match choice.lost with
    | some message => some (.error message)
    | none => some (.ok ((site.bucket key).map (env.delivered key)))
  | .upstream call => some (choice.upstream call)

def answer (env : DeploymentEnv) (site : Deployment) (i : ℕ) (choice : VisitChoice) : Deployment :=
  match site.visits[i]? with
  | none => site
  | some visit =>
    match visit.program with
    | .done _ => site
    | .call call next =>
      match answerTo env site visit.waiting choice call with
      | none => site
      | some answer =>
        { site with
          visits := site.visits.set i
            ⟨visit.now, visit.request, next answer, ⟨call, answer⟩ :: visit.past, none⟩ }

def step (env : DeploymentEnv) (site : Deployment) : DeploymentEvent → Deployment
  | .arrive now request =>
    { site with visits := site.visits ++ [⟨now, request, Worker.fetch env.worker now request, [], none⟩] }
  | .ask i package => ask env site i package
  | .admission j choice =>
    { site with admissions := AdmissionPool.step env.objects site.admissions (.advance j choice) }
  | .object j choice =>
    { site with packages := FleetPool.step env.objects site.packages (.advance j choice) }
  | .answer i choice => answer env site i choice

/-- What an event does to the pools and to the visits. -/
inductive Steps (env : DeploymentEnv) (site : Deployment) : DeploymentEvent → Deployment → Prop
  | nothing (e : DeploymentEvent) : Steps env site e site
  | arrived (now : ℤ) (request : Request) :
    Steps env site (.arrive now request) { site with
      visits := site.visits ++ [⟨now, request, Worker.fetch env.worker now request, [], none⟩] }
  | askedAdmission {i : ℕ} {package : PackageName} {visit : Visit} {name : Str} {request : ObjectRequest}
      {next : Except Str Fetched → Worker.Serving} (hvisit : site.visits[i]? = some visit)
      (hprogram : visit.program = Worker.ask (.admission name request) next) :
    Steps env site (.ask i package) { site with
      admissions := AdmissionPool.step env.objects site.admissions (.start ⟨name, request⟩)
      visits := site.visits.set i { visit with waiting := some site.admissions.threads.length } }
  | askedPackage {i : ℕ} {package : PackageName} {visit : Visit} {request : ObjectRequest}
      {next : Except Str Fetched → Worker.Serving} (hvisit : site.visits[i]? = some visit)
      (hprogram : visit.program = Worker.ask (.package (packageId package) request) next) :
    Steps env site (.ask i package) { site with
      packages := FleetPool.step env.objects site.packages (.start ⟨package, request⟩)
      visits := site.visits.set i { visit with waiting := some site.packages.threads.length } }
  | admission (j : ℕ) (choice : Choice) :
    Steps env site (.admission j choice) { site with
      admissions := AdmissionPool.step env.objects site.admissions (.advance j choice) }
  | object (j : ℕ) (choice : Choice) :
    Steps env site (.object j choice) { site with
      packages := FleetPool.step env.objects site.packages (.advance j choice) }
  | answered {i : ℕ} {choice : VisitChoice} {visit : Visit} {call : WorkerCall}
      {next : call.Answer → Worker.Serving} {answer : call.Answer} (hvisit : site.visits[i]? = some visit)
      (hprogram : visit.program = Worker.ask call next)
      (hanswer : answerTo env site visit.waiting choice call = some answer) :
    Steps env site (.answer i choice) { site with
      visits := site.visits.set i
        ⟨visit.now, visit.request, next answer, ⟨call, answer⟩ :: visit.past, none⟩ }

theorem step_steps (env : DeploymentEnv) (site : Deployment) (e : DeploymentEvent) :
    Steps env site e (step env site e) := by
  cases e with
  | arrive now request => exact .arrived now request
  | admission j choice => exact .admission j choice
  | object j choice => exact .object j choice
  | ask i package =>
    rw [step, ask]
    split
    · exact .nothing _
    · rename_i visit hvisit
      split
      · rename_i hprogram
        exact .askedAdmission hvisit hprogram
      · rename_i name request next _ hprogram
        split_ifs with hname
        · subst hname
          exact .askedPackage hvisit hprogram
        · exact .nothing _
      · exact .nothing _
  | answer i choice =>
    rw [step, answer]
    split
    · exact .nothing _
    · rename_i visit hvisit
      split
      · exact .nothing _
      · rename_i call next hprogram
        split
        · exact .nothing _
        · rename_i answer hanswer
          exact .answered hvisit hprogram hanswer

def AdmissionsAdmit (A : Scene admissionCalls Admissions AdmissionRequest → ℕ → AdmissionRequest →
    admissionCalls.Op → Choice → Prop) (site : Deployment) : DeploymentEvent → Prop
  | .admission j choice => Pool.Admits A site.admissions (.advance j choice)
  | _ => True

def ObjectsAdmit (A : FleetScene → ℕ → FleetRequest → fleetCalls.Op → Choice → Prop) (site : Deployment) :
    DeploymentEvent → Prop
  | .object j choice => Pool.Admits A site.packages (.advance j choice)
  | _ => True

open Executions in
/-- A run of the deployment is a run of its admission objects. -/
theorem admissions_reached (env : DeploymentEnv) {A : Scene admissionCalls Admissions AdmissionRequest → ℕ →
    AdmissionRequest → admissionCalls.Op → Choice → Prop} {events : List DeploymentEvent}
    (ha : Admitted (step env) (AdmissionsAdmit A) new events) :
    Reached (AdmissionPool.step env.objects) (Pool.Admits A) (.start .new)
      (run (step env) new events).admissions := by
  refine run_invariant (fun site => Reached (AdmissionPool.step env.objects) (Pool.Admits A) (.start .new)
    site.admissions) (AdmissionsAdmit A) ?_ _ _ (.refl _ _ _) ha
  intro site e hreached he
  have hsteps := step_steps env site e
  generalize step env site e = after at hsteps ⊢
  cases hsteps with
  | nothing | arrived | askedPackage | object | answered => exact hreached
  | @askedAdmission i package visit name request =>
    exact @Reached.next _ _ _ _ _ _ hreached (.start ⟨name, request⟩) trivial
  | admission j choice => exact @Reached.next _ _ _ _ _ _ hreached (.advance j choice) he

open Executions in
/-- A run of the deployment is a run of its package objects. -/
theorem packages_reached (env : DeploymentEnv) {A : FleetScene → ℕ → FleetRequest → fleetCalls.Op →
    Choice → Prop} {events : List DeploymentEvent} (ha : Admitted (step env) (ObjectsAdmit A) new events) :
    Reached (FleetPool.step env.objects) (Pool.Admits A) (.start .new)
      (run (step env) new events).packages := by
  refine run_invariant (fun site => Reached (FleetPool.step env.objects) (Pool.Admits A) (.start .new)
    site.packages) (ObjectsAdmit A) ?_ _ _ (.refl _ _ _) ha
  intro site e hreached he
  have hsteps := step_steps env site e
  generalize step env site e = after at hsteps ⊢
  cases hsteps with
  | nothing | arrived | askedAdmission | admission | answered => exact hreached
  | @askedPackage i package visit request =>
    exact @Reached.next _ _ _ _ _ _ hreached (.start ⟨package, request⟩) trivial
  | object j choice => exact @Reached.next _ _ _ _ _ _ hreached (.advance j choice) he

end Deployment
end JsrProxy
