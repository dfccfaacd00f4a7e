import JsrProxy.PackageHandlers
import JsrProxy.PairedRuns

set_option autoImplicit false

/-!
# Traces of a credential

A PAT goes into the authorization of the requests to GitHub and nowhere else. Two runs
that differ in their PATs make the same calls but for that header, so they store the
same, send the same to the Container and the bucket, and respond in the same way.
-/
namespace JsrProxy
open ObjectHandlers

def IsPat (pat : Str) : Prop :=
  ∃ headers : Headers, (∀ header ∈ headers, Headers.normalize header.2 = some header.2) ∧
    Auth.githubPat headers = some pat

/-- Two requests that differ in their PATs only. -/
inductive SameButPat : ObjectRequest → ObjectRequest → Prop
  | same (request : ObjectRequest) : SameButPat request request
  | check {pat pat' : Str} (h : IsPat pat) (h' : IsPat pat') : SameButPat (.check (some pat)) (.check (some pat'))
  | authorize (body : AuthorizeBody) {pat' : Str} (h : IsPat body.pat) (h' : IsPat pat') :
    SameButPat (.authorize (some body)) (.authorize (some { body with pat := pat' }))
  | materialize (body : MaterializeBody) {pat' : Str} (h : IsPat body.pat) (h' : IsPat pat') :
    SameButPat (.materialize (some body)) (.materialize (some { body with pat := pat' }))

def Request.anonymous (request : Request) : Request :=
  { request with headers := request.headers.delete "authorization".toList }

def ObjectCall.anonymous : ObjectCall → ObjectCall
  | .fetch request redirect => .fetch request.anonymous redirect
  | call => call

/-- The runs store the same, make the same calls but for the authorization of their
    fetches, and respond in the same way. -/
structure SameTrace (pool pool' : ObjectPool) : Prop where
  world : pool.scene.world = pool'.scene.world
  calls : pool.scene.history.map (fun called => (called.thread, ObjectCall.anonymous called.op))
    = pool'.scene.history.map (fun called => (called.thread, ObjectCall.anonymous called.op))
  answers : List.Forall₂ (fun called called' => HEq called.answer called'.answer) pool.scene.history
    pool'.scene.history
  replies : ∀ i reply, (∃ request, pool.Finished i request reply) ↔ ∃ request, pool'.Finished i request reply

inductive SameCall : ObjectCall → ObjectCall → Prop
  | same (call : ObjectCall) : SameCall call call
  | fetch {request request' : Request} (h : request.anonymous = request'.anonymous) (redirect : Redirect) :
    SameCall (.fetch request redirect) (.fetch request' redirect)

theorem SameCall.anonymous_eq {call call' : ObjectCall} (h : SameCall call call') :
    call.anonymous = call'.anonymous := by
  cases h with
  | same => rfl
  | fetch h redirect => rw [ObjectCall.anonymous, ObjectCall.anonymous, h]

theorem SameCall.answer (world : World) (choice : Choice) {call call' : ObjectCall} (h : SameCall call call') :
    HEq (World.answer world choice call).1 (World.answer world choice call').1 ∧
      (World.answer world choice call).2 = (World.answer world choice call').2 := by
  cases h with
  | same => exact ⟨.rfl, rfl⟩
  | fetch h redirect => exact ⟨.rfl, rfl⟩

abbrev SameProgram (p p' : Handling) : Prop := Program.Alike (E := objectCalls) SameCall p p'

theorem sameProgram_refl (p : Handling) : SameProgram p p := Program.Alike.refl SameCall.same p

theorem sameProgram_await {call : ObjectCall} {next next' : call.Answer → ℤ → Handling}
    (h : ∀ answer now, SameProgram (next answer now) (next' answer now)) :
    SameProgram (await call next) (await call next') := by
  apply Program.Alike.call (SameCall.same call)
  intro answer answer' hsame
  obtain rfl := eq_of_heq hsame
  exact h answer.1 answer.2

theorem sameProgram_fetch {request request' : Request} (hsame : request.anonymous = request'.anonymous)
    {redirect : Redirect} {next next' : Except Str Fetched → ℤ → Handling}
    (h : ∀ answer now, SameProgram (next answer now) (next' answer now)) :
    SameProgram (await (.fetch request redirect) next) (await (.fetch request' redirect) next') := by
  apply Program.Alike.call (SameCall.fetch hsame redirect)
  intro answer answer' hanswer
  obtain rfl := eq_of_heq hanswer
  exact h answer.1 answer.2

theorem sameProgram_orThrow {α : Type} (answer : Except Str α) {next next' : α → Handling}
    (h : ∀ result, SameProgram (next result) (next' result)) :
    SameProgram (orThrow answer next) (orThrow answer next') := by
  cases answer with
  | error message => exact .done _
  | ok result => exact h result

theorem IsPat.normalize {pat : Str} (h : IsPat pat) :
    Headers.normalize (Auth.bearer ++ pat) = some (Auth.bearer ++ pat) := by
  obtain ⟨headers, hvalid, hpat⟩ := h
  exact hvalid _ (Headers.mem_of_get (Auth.githubPat_eq_some hpat).1)

theorem IsPat.ne_nil {pat : Str} (h : IsPat pat) : pat ≠ [] := by
  obtain ⟨headers, -, hpat⟩ := h
  exact (Auth.githubPat_eq_some hpat).2.1

theorem githubRequest_same (path : Str) {pat pat' : Str} (h : IsPat pat) (h' : IsPat pat') :
    ∃ request request', Auth.githubRequest path pat = .ok request ∧
      Auth.githubRequest path pat' = .ok request' ∧ request.anonymous = request'.anonymous := by
  simp only [Auth.githubRequest, h.normalize, h'.normalize]
  exact ⟨_, _, rfl, rfl, rfl⟩

theorem sameProgram_cachedDecision (key : Str) {otherwise otherwise' : Handling}
    (h : SameProgram otherwise otherwise') :
    SameProgram (cachedDecision key otherwise) (cachedDecision key otherwise') := by
  apply sameProgram_await
  intro answer now
  apply sameProgram_orThrow
  intro cached
  cases cached with
  | none => exact h
  | some record =>
    dsimp only
    split
    · exact .done _
    · exact h

theorem sameProgram_askGitHub (path : Str) {pat pat' : Str} (h : IsPat pat) (h' : IsPat pat')
    (next : Fetched → AdmissionRecord → Handling) :
    SameProgram (askGitHub path pat next) (askGitHub path pat' next) := by
  obtain ⟨request, request', hrequest, hrequest', hsame⟩ := githubRequest_same path h h'
  simp only [askGitHub, hrequest, hrequest', orThrow]
  apply sameProgram_fetch hsame
  intro answer now
  exact sameProgram_refl _

theorem sameProgram_githubArchive (env : ObjectEnv) (owner repository commitSha : Str) {pat pat' : Str}
    (h : IsPat pat) (h' : IsPat pat') (next : Except Str (Option Body) → Handling) :
    SameProgram (githubArchive env owner repository commitSha pat next)
      (githubArchive env owner repository commitSha pat' next) := by
  obtain ⟨request, request', hrequest, hrequest', hsame⟩ :=
    githubRequest_same (tarballPath owner repository commitSha) h h'
  unfold githubArchive
  rw [hrequest, hrequest']
  apply sameProgram_fetch hsame
  intro archive _
  cases archive with
  | error message => exact sameProgram_refl _
  | ok archive => exact sameProgram_refl _

theorem sameProgram_check (env : ObjectEnv) {pat pat' : Str} (h : IsPat pat) (h' : IsPat pat') :
    SameProgram (check env (some pat)) (check env (some pat')) := by
  cases pat with
  | nil => exact absurd rfl h.ne_nil
  | cons c pat =>
    cases pat' with
    | nil => exact absurd rfl h'.ne_nil
    | cons c' pat' => exact sameProgram_cachedDecision _ (sameProgram_askGitHub _ h h' _)

theorem sameProgram_authorize (env : ObjectEnv) (body : AuthorizeBody) {pat' : Str} (h : IsPat body.pat)
    (h' : IsPat pat') :
    SameProgram (authorize env (some body)) (authorize env (some { body with pat := pat' })) :=
  sameProgram_cachedDecision _ (sameProgram_askGitHub _ h h' _)

theorem sameProgram_materialize (env : ObjectEnv) (body : MaterializeBody) {pat' : Str} (h : IsPat body.pat)
    (h' : IsPat pat') :
    SameProgram (materialize env (some body)) (materialize env (some { body with pat := pat' })) := by
  have hpat : body.pat.isEmpty = false := List.isEmpty_eq_false_iff.2 h.ne_nil
  have hpat' : pat'.isEmpty = false := List.isEmpty_eq_false_iff.2 h'.ne_nil
  simp only [materialize, hpat, hpat']
  split
  · exact .done _
  · split
    · exact .done _
    · apply sameProgram_await
      intro answer now
      apply sameProgram_orThrow
      intro stored
      apply sameProgram_orThrow
      intro registry
      dsimp only
      split
      · exact .done _
      · apply sameProgram_await
        intro saved _
        apply sameProgram_orThrow
        intro _
        exact sameProgram_githubArchive env _ _ _ h h' _

theorem sameProgram_handle (env : ObjectEnv) {request request' : ObjectRequest}
    (h : SameButPat request request') : SameProgram (handle env request) (handle env request') := by
  cases h with
  | same => exact sameProgram_refl _
  | check h h' => exact sameProgram_check env h h'
  | authorize body h h' => exact sameProgram_authorize env body h h'
  | materialize body h h' => exact sameProgram_materialize env body h h'

open Executions in
/-- Requests that differ in their PATs only leave the same traces. -/
theorem sameTrace (env : ObjectEnv) (world : World) {events events' : List ObjectEvent}
    (hevents : List.Forall₂ (PoolEvent.Alike SameButPat) events events') :
    SameTrace (run (ObjectPool.step env) (.start world) events)
      (run (ObjectPool.step env) (.start world) events') := by
  have hstart : (Pool.start world : ObjectPool).Alike SameCall (.start world) := ⟨rfl, .nil, .nil⟩
  have halike := hstart.run (fun _ _ h => sameProgram_handle env h)
    (fun world choice _ _ h => h.answer world choice) hevents
  have hfinished := halike.finished
  obtain ⟨hworld, hhistory, -⟩ := halike
  refine ⟨hworld, ?_, hhistory.imp fun _ _ h => h.answer, hfinished⟩
  rw [← List.forall₂_eq_eq_eq, List.forall₂_map_left_iff, List.forall₂_map_right_iff]
  exact hhistory.imp fun _ _ h => Prod.ext h.thread h.op.anonymous_eq

theorem isPat_alice : IsPat "alice".toList :=
  ⟨[("authorization".toList, "Bearer alice".toList)], by decide, by decide⟩

theorem isPat_bob : IsPat "bob".toList :=
  ⟨[("authorization".toList, "Bearer bob".toList)], by decide, by decide⟩

def admissionRun (pat : String) : List ObjectEvent :=
  [.start (.check (some pat.toList)), .advance 0 ⟨0, none, .error [], none⟩,
    .advance 0 ⟨0, none, .ok ⟨404, [], .absent, []⟩, none⟩, .advance 0 ⟨0, none, .error [], none⟩]

theorem sameTrace_admissionRun :
    SameTrace (Executions.run (ObjectPool.step ⟨none, false, id, fun _ => none⟩)
        (.start ⟨none, fun _ => none, ObjectStore.empty, 0⟩) (admissionRun "alice"))
      (Executions.run (ObjectPool.step ⟨none, false, id, fun _ => none⟩)
        (.start ⟨none, fun _ => none, ObjectStore.empty, 0⟩) (admissionRun "bob")) :=
  sameTrace _ _ (.cons (.start (.check isPat_alice isPat_bob))
    (.cons (.advance _ _) (.cons (.advance _ _) (.cons (.advance _ _) .nil))))

end JsrProxy
