import JsrProxy.ServedArtifacts

set_option autoImplicit false

/-!
# Available artifacts

A visit that both objects have granted asks the bucket for the marker of a version and then
for the artifact. Whatever interleaves, it gets what a published version holds unless a read
of its own is lost.
-/
namespace JsrProxy
open ObjectHandlers

namespace Worker

def readArtifact (artifact : ArtifactPath) (request : Request) : Serving :=
  ask (.get artifact.key) fun object : Except Str (Option R2ObjectLike) =>
    orThrow object fun found =>
      match found with
      | none => .done (.ok (.own R2Artifacts.notFound))
      | some object => .done (.ok (.own (R2Artifacts.serveObject artifact.key object request)))

theorem serveArtifact_eq (artifact : ArtifactPath) (request : Request) : serveArtifact artifact request =
    ask (.get (artifact.versionPrefix ++ ".ready.json".toList))
      fun marker : Except Str (Option R2ObjectLike) =>
        orThrow marker fun found =>
          match found with
          | none => .done (.ok (.own R2Artifacts.notFound))
          | some _ => readArtifact artifact request := by
  unfold serveArtifact R2Artifacts.serveArtifact
  change ask (.get (artifact.versionPrefix ++ ".ready.json".toList)) _
    = ask (.get (artifact.versionPrefix ++ ".ready.json".toList)) _
  congr 1
  funext marker
  rcases marker with message | _ | marker
  · rfl
  · rfl
  · change ask (.get artifact.key) _ = ask (.get artifact.key) _
    congr 1
    funext object
    rcases object with message | _ | object <;> rfl

/-- The reads that are left of serving an artifact. -/
inductive Reads (artifact : ArtifactPath) (request : Request) : ℕ → Serving → Prop
  | marker : Reads artifact request 2 (serveArtifact artifact request)
  | object : Reads artifact request 1 (readArtifact artifact request)

inductive Fetches (artifact : ArtifactPath) (request : Request) : Serving → Prop
  | done (result : Except Str WorkerResponse) : Fetches artifact request (.done result)
  | call {call : WorkerCall} {next : call.Answer → Serving} (hcall : ∀ key, call ≠ .get key)
      (hnext : ∀ answer, Fetches artifact request (next answer)) : Fetches artifact request (ask call next)
  | reads {n : ℕ} {p : Serving} (h : Reads artifact request n p) : Fetches artifact request p

inductive Left (env : DeploymentEnv) (artifact : ArtifactPath) (object : R2Object) (request : Request) :
    ℕ → Serving → Prop
  | reads {n : ℕ} {p : Serving} (h : Reads artifact request n p) : Left env artifact object request n p
  | served : Left env artifact object request 0
      (.done (.ok (.own (R2Artifacts.serveObject artifact.key (env.delivered artifact.key object) request))))

variable {env : WorkerEnv} {artifact : ArtifactPath} {request : Request} {identity : PackageName}
  {scope : GitHubScope}

theorem Left.not_ask {deployed : DeploymentEnv} {object : R2Object} {n : ℕ} {p : Serving}
    (h : Left deployed artifact object request n p) {call : WorkerCall}
    {next : call.Answer → Serving} (hcall : ∀ key, call ≠ .get key) : p ≠ ask call next := by
  rintro rfl
  generalize hp : ask call next = p at h
  cases h with
  | served => cases hp
  | reads h =>
    cases h with
    | marker =>
      rw [serveArtifact_eq] at hp
      cases hp
      exact hcall _ rfl
    | object =>
      cases hp
      exact hcall _ rfl

theorem Reads.asks {n : ℕ} {p : Serving} (h : Reads artifact request n p) :
    ∃ (key : Str) (next : Except Str (Option R2ObjectLike) → Serving), p = ask (.get key) next := by
  cases h with
  | marker => exact ⟨_, _, serveArtifact_eq artifact request⟩
  | object => exact ⟨_, _, rfl⟩

theorem Reads.le {n : ℕ} {p : Serving} (h : Reads artifact request n p) : n ≤ 2 := by
  cases h <;> decide

theorem Left.cases {deployed : DeploymentEnv} {object : R2Object} {n : ℕ} {p : Serving}
    (h : Left deployed artifact object request n p) :
    (∃ (key : Str) (next : Except Str (Option R2ObjectLike) → Serving), p = ask (.get key) next) ∨
      p = .done (.ok (.own
        (R2Artifacts.serveObject artifact.key (deployed.delivered artifact.key object) request))) := by
  cases h with
  | served => exact .inr rfl
  | reads h => exact .inl h.asks

theorem Left.eq_served {deployed : DeploymentEnv} {object : R2Object} {p : Serving}
    (h : Left deployed artifact object request 0 p) : p = .done (.ok (.own
      (R2Artifacts.serveObject artifact.key (deployed.delivered artifact.key object) request))) := by
  cases h with
  | served => rfl
  | reads h => cases h

theorem Reads.fetches {n : ℕ} {call : WorkerCall} {next : call.Answer → Serving}
    (h : Reads artifact request n (ask call next)) (answer : call.Answer) :
    Fetches artifact request (next answer) := by
  generalize hp : ask call next = p at h
  cases h with
  | marker =>
    rw [serveArtifact_eq] at hp
    cases hp
    rcases answer with message | _ | marker
    · exact .done _
    · exact .done _
    · exact .reads .object
  | object =>
    cases hp
    rcases answer with message | _ | object <;> exact .done _

theorem Fetches.next {call : WorkerCall} {next : call.Answer → Serving}
    (h : Fetches artifact request (ask call next)) (answer : call.Answer) :
    Fetches artifact request (next answer) := by
  cases h with
  | call _ hnext => exact hnext answer
  | reads h => exact h.fetches answer

theorem fetches_orThrow {α : Type} {answer : Except Str α} {next : α → Serving}
    (h : ∀ result, Fetches artifact request (next result)) : Fetches artifact request (orThrow answer next) := by
  cases answer with
  | error message => exact .done _
  | ok result => exact h result

theorem fetches_gate {answer : Except Str Fetched} {next : Serving} (h : Fetches artifact request next) :
    Fetches artifact request (gate answer next) := by
  apply fetches_orThrow
  intro response
  split_ifs
  · exact .done _
  · apply fetches_orThrow
    intro granted
    split_ifs
    · exact h
    · exact .done _

theorem fetches_recoverPackage (now : ℤ) (identity : PackageName) (version : Str) :
    Fetches artifact request (recoverPackage env now request identity version) := by
  unfold recoverPackage
  split
  · exact .done _
  · split
    · exact .done _
    · exact .done _
    · split
      · exact .done _
      · split
        · exact .done _
        · split
          · exact .done _
          · refine .call (by nofun) ?_
            intro answer
            apply fetches_orThrow
            intro response
            unfold passOn
            split_ifs <;> exact .done _

theorem fetches_fetch (hserved : ServedFor env request identity scope)
    (hpath : ForArtifact request identity artifact) (now : ℤ) :
    Fetches artifact request (fetch env now request) := by
  rw [Deployment.fetch_servedFor hserved]
  unfold servePackage
  split
  · exact fetches_recoverPackage now identity _
  · split
    · exact .done _
    · split
      · exact .done _
      · split_ifs
        · exact .done _
        · split
          · exact .done _
          · refine .call (by nofun) fun admission => fetches_gate (.call (by nofun) fun authorization => fetches_gate ?_)
            unfold serveGranted
            rw [hpath.1]
            dsimp only
            rw [if_neg hpath.2.1, hpath.2.2]
            split
            · rename_i hartifact
              obtain rfl := Option.some.inj hartifact
              exact .reads .marker
            · exact .done _

end Worker

namespace Deployment
open Executions Worker

theorem fetches_run (env : DeploymentEnv) (events : List DeploymentEvent) :
    ∀ visit ∈ (run (step env) new events).visits, ∀ identity scope artifact,
      ServedFor env.worker visit.request identity scope → ForArtifact visit.request identity artifact →
        Fetches artifact visit.request visit.program := by
  refine run_invariant (fun site : Deployment => ∀ visit ∈ site.visits, ∀ identity scope artifact,
    ServedFor env.worker visit.request identity scope → ForArtifact visit.request identity artifact →
      Fetches artifact visit.request visit.program) (fun _ _ => True) ?_ _ _ (fun _ h => nomatch h)
    (admitted_true _ _ _)
  intro site e h _
  have hsteps := step_steps env site e
  generalize step env site e = after at hsteps
  cases hsteps with
  | nothing | admission | object => exact h
  | arrived now request =>
    intro visit hvisit
    rcases List.mem_append.1 hvisit with hvisit | hvisit
    · exact h visit hvisit
    · rw [List.mem_singleton.1 hvisit]
      exact fun _ _ _ hserved hpath => fetches_fetch hserved hpath now
  | @askedAdmission i package visit name request next hvisit _ =>
    intro visit' hvisit'
    rcases List.mem_or_eq_of_mem_set hvisit' with hvisit' | rfl
    · exact h visit' hvisit'
    · exact h visit (List.mem_of_getElem? hvisit)
  | @askedPackage i package visit request next hvisit _ =>
    intro visit' hvisit'
    rcases List.mem_or_eq_of_mem_set hvisit' with hvisit' | rfl
    · exact h visit' hvisit'
    · exact h visit (List.mem_of_getElem? hvisit)
  | @answered i choice visit call next answer hvisit hprogram _ =>
    intro visit' hvisit'
    rcases List.mem_or_eq_of_mem_set hvisit' with hvisit' | rfl
    · exact h visit' hvisit'
    · intro identity scope artifact hserved hpath
      have hfetches := h visit (List.mem_of_getElem? hvisit) identity scope artifact hserved hpath
      rw [hprogram] at hfetches
      exact hfetches.next answer

def answersTo (i : ℕ) : DeploymentEvent → Bool
  | .answer j _ => j = i
  | _ => false

variable {env : DeploymentEnv} {site : Deployment} {i : ℕ} {visit : Visit} {artifact : ArtifactPath}
  {object : R2Object} {n : ℕ}

theorem answer_get (hvisit : site.visits[i]? = some visit) {key : Str}
    {next : Except Str (Option R2ObjectLike) → Serving} (hprogram : visit.program = Worker.ask (.get key) next)
    {choice : VisitChoice} (hlost : choice.lost = none) :
    ∃ past, answer env site i choice = { site with
      visits := site.visits.set i
        ⟨visit.now, visit.request, next (.ok ((site.bucket key).map (env.delivered key))), past, none⟩ } := by
  unfold answer
  rw [hvisit]
  dsimp only
  rw [hprogram]
  dsimp only [Worker.ask, answerTo]
  rw [hlost]
  exact ⟨_, rfl⟩

/-- Its next answer brings a visit one read nearer to what the bucket holds. -/
theorem left_answered (hvisit : site.visits[i]? = some visit)
    (hleft : Left env artifact object visit.request n visit.program)
    (hmarker : (site.bucket (artifact.versionPrefix ++ ".ready.json".toList)).isSome = true)
    (hobject : site.bucket artifact.key = some object) {choice : VisitChoice} (hlost : choice.lost = none) :
    ∃ visit', (answer env site i choice).visits[i]? = some visit' ∧ visit'.request = visit.request ∧
      Left env artifact object visit.request (n - 1) visit'.program := by
  have hlt := (List.getElem?_eq_some_iff.1 hvisit).1
  generalize hp : visit.program = p at hleft
  cases hleft with
  | served =>
    have hdone : answer env site i choice = site := by
      unfold answer
      rw [hvisit]
      dsimp only
      rw [hp]
    rw [hdone]
    exact ⟨visit, hvisit, rfl, by rw [hp]; exact .served⟩
  | reads h =>
    cases h with
    | marker =>
      obtain ⟨marker, hmarker⟩ := Option.isSome_iff_exists.1 hmarker
      rw [serveArtifact_eq] at hp
      obtain ⟨past, hanswer⟩ := answer_get hvisit hp hlost
      rw [hanswer, hmarker]
      exact ⟨_, List.getElem?_set_self hlt, rfl, .reads .object⟩
    | object =>
      obtain ⟨past, hanswer⟩ := answer_get hvisit hp hlost
      rw [hanswer, hobject]
      exact ⟨_, List.getElem?_set_self hlt, rfl, .served⟩

theorem left_other (hvisit : site.visits[i]? = some visit)
    (hleft : Left env artifact object visit.request n visit.program) {e : DeploymentEvent}
    (he : answersTo i e = false) : ∃ visit', (step env site e).visits[i]? = some visit' ∧
      visit'.request = visit.request ∧ Left env artifact object visit.request n visit'.program := by
  have hlt := (List.getElem?_eq_some_iff.1 hvisit).1
  have hsteps := step_steps env site e
  generalize step env site e = after at hsteps
  cases hsteps with
  | nothing | admission | object => exact ⟨visit, hvisit, rfl, hleft⟩
  | arrived now request => exact ⟨visit, (List.getElem?_append_left hlt).trans hvisit, rfl, hleft⟩
  | @askedAdmission j package asking name request next hasking hprogram =>
    have hji : j ≠ i := by
      rintro rfl
      obtain rfl := Option.some.inj (hvisit.symm.trans hasking)
      exact hleft.not_ask (by nofun) hprogram
    exact ⟨visit, (List.getElem?_set_ne hji).trans hvisit, rfl, hleft⟩
  | @askedPackage j package asking request next hasking hprogram =>
    have hji : j ≠ i := by
      rintro rfl
      obtain rfl := Option.some.inj (hvisit.symm.trans hasking)
      exact hleft.not_ask (by nofun) hprogram
    exact ⟨visit, (List.getElem?_set_ne hji).trans hvisit, rfl, hleft⟩
  | @answered j choice asking call next answer hasking hprogram hanswer =>
    have hji : j ≠ i := by simpa [answersTo] using he
    exact ⟨visit, (List.getElem?_set_ne hji).trans hvisit, rfl, hleft⟩

/-- Whatever interleaves, each answer of its own brings a visit one read nearer. -/
theorem left_run (hvisit : site.visits[i]? = some visit)
    (hleft : Left env artifact object visit.request n visit.program)
    (hmarker : (site.bucket (artifact.versionPrefix ++ ".ready.json".toList)).isSome = true)
    (hobject : site.bucket artifact.key = some object) {later : List DeploymentEvent}
    (hlost : ∀ choice, .answer i choice ∈ later → choice.lost = none) :
    ∃ visit', (run (step env) site later).visits[i]? = some visit' ∧ visit'.request = visit.request ∧
      Left env artifact object visit.request (n - later.countP (answersTo i)) visit'.program := by
  induction later generalizing site visit n with
  | nil => exact ⟨visit, hvisit, rfl, hleft⟩
  | cons e later ih =>
    have hgrows := (step_steps env site e).retains.bucket
    have hmarker' : ((step env site e).bucket (artifact.versionPrefix ++ ".ready.json".toList)).isSome = true := by
      obtain ⟨marker, hmarker⟩ := Option.isSome_iff_exists.1 hmarker
      rw [hgrows _ _ hmarker]
      rfl
    have hkept : ∀ choice, .answer i choice ∈ later → choice.lost = none :=
      fun choice hchoice => hlost choice (List.mem_cons_of_mem _ hchoice)
    by_cases he : answersTo i e = true
    · obtain ⟨choice, rfl⟩ : ∃ choice, e = .answer i choice := by
        cases e with
        | answer j choice => exact ⟨choice, by rw [of_decide_eq_true he]⟩
        | arrive | ask | admission | object => cases he
      obtain ⟨visit', hvisit', hrequest, hleft'⟩ :=
        left_answered hvisit hleft hmarker hobject (hlost choice List.mem_cons_self)
      rw [← hrequest] at hleft'
      obtain ⟨visit'', hvisit'', hrequest', hleft''⟩ := ih hvisit' hleft' hmarker' (hgrows _ _ hobject) hkept
      refine ⟨visit'', hvisit'', hrequest'.trans hrequest, ?_⟩
      rw [List.countP_cons_of_pos he, Nat.add_comm, ← Nat.sub_sub, ← hrequest]
      exact hleft''
    · rw [Bool.not_eq_true] at he
      obtain ⟨visit', hvisit', hrequest, hleft'⟩ := left_other hvisit hleft he
      rw [← hrequest] at hleft'
      obtain ⟨visit'', hvisit'', hrequest', hleft''⟩ := ih hvisit' hleft' hmarker' (hgrows _ _ hobject) hkept
      refine ⟨visit'', hvisit'', hrequest'.trans hrequest, ?_⟩
      rw [List.countP_cons_of_neg (by simp [he]), ← hrequest]
      exact hleft''

def AsksBucket (visit : Visit) : Prop :=
  ∃ (key : Str) (next : Except Str (Option R2ObjectLike) → Serving), visit.program = Worker.ask (.get key) next

theorem reads_of_asks {request : Request} (h : Fetches artifact request visit.program) (hasks : AsksBucket visit) :
    ∃ n, Reads artifact request n visit.program := by
  obtain ⟨key, next, hprogram⟩ := hasks
  rw [hprogram] at h ⊢
  generalize hp : Worker.ask (.get key) next = p at h
  cases h with
  | done => cases hp
  | call hcall _ =>
    cases hp
    exact absurd rfl (hcall key)
  | reads hreads => exact ⟨_, hreads⟩

/-- However the run goes on, the visit's next two reads bring it this object, unless one of
    them is lost. -/
def WillServe (env : DeploymentEnv) (site : Deployment) (i : ℕ) (visit : Visit) (artifact : ArtifactPath)
    (object : R2Object) : Prop :=
  ∀ later, (∀ choice, .answer i choice ∈ later → choice.lost = none) →
    ∃ visit', (run (step env) site later).visits[i]? = some visit' ∧ visit'.request = visit.request ∧
      (AsksBucket visit' ∨ visit'.program = .done (.ok (.own
        (R2Artifacts.serveObject artifact.key (env.delivered artifact.key object) visit.request)))) ∧
      (2 ≤ later.countP (answersTo i) → visit'.program = .done (.ok (.own
        (R2Artifacts.serveObject artifact.key (env.delivered artifact.key object) visit.request))))

theorem willServe_of_reads (hvisit : site.visits[i]? = some visit)
    (hreads : Reads artifact visit.request n visit.program)
    (hmarker : (site.bucket (artifact.versionPrefix ++ ".ready.json".toList)).isSome = true)
    (hobject : site.bucket artifact.key = some object) : WillServe env site i visit artifact object := by
  intro later hlost
  have hleft : Left env artifact object visit.request n visit.program := .reads hreads
  obtain ⟨visit', hvisit', hrequest, hleft⟩ := left_run hvisit hleft hmarker hobject hlost
  refine ⟨visit', hvisit', hrequest, ?_, ?_⟩
  · rcases hleft.cases with ⟨key, next, hp⟩ | hserved
    · exact .inl ⟨key, next, hp⟩
    · exact .inr hserved
  · intro htwice
    have hnone : n - later.countP (answersTo i) = 0 := by
      have := hreads.le
      omega
    rw [hnone] at hleft
    exact hleft.eq_served

theorem allocated_record {stored : Stored} (h : PackageObject.Sound stored) {record : VersionRecord}
    (hrecord : record ∈ PackageObject.records stored) : ∃ major sequence : ℤ, 0 ≤ major ∧ 0 ≤ sequence ∧
      record.version = versionString major sequence := by
  cases stored with
  | none => cases hrecord
  | some snapshot =>
    obtain ⟨registry, hsound, rfl⟩ := h snapshot rfl
    obtain ⟨version, hversion⟩ := (OrderedMap.mem_values _ _).1 hrecord
    have hof := hsound.coherent.record version record hversion
    exact ⟨_, _, hof.majorRange.1, hof.issued.1, hof.version.trans hof.named⟩

end Deployment
end JsrProxy
