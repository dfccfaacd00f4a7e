import JsrProxy.PackageHandlers

set_option autoImplicit false

/-!
# Rules of the handlers

The admissions, the way to an archive and a publication, for any property of handlers
that their replies have and their calls pass on.
-/
namespace JsrProxy
namespace ObjectHandlers

/-- A handler that waits for the call has the property if whatever follows has it. -/
def PassesOn (P : Handling → Prop) (call : ObjectCall) : Prop :=
  ∀ next : call.Answer → ℤ → Handling, (∀ answer now, P (next answer now)) → P (await call next)

/-- The replies and the calls of the admissions have the property. -/
structure Admits (P : Handling → Prop) : Prop where
  threw : ∀ message, P (.done (.threw message))
  refused : ∀ message, P (respond 400 message)
  decided : ∀ record, P (.done (.json 200 (.decision record)))
  unavailable : ∀ retryAfterSeconds, P (.done (.json 503 (.unavailable retryAfterSeconds)))
  reads : ∀ key, PassesOn P (.readDecision key)
  writes : ∀ key record, PassesOn P (.writeDecision key record)
  asks : ∀ path pat request, Auth.githubRequest path pat = .ok request →
    PassesOn P (.fetch request .follow)

variable {P : Handling → Prop}

theorem orThrow_of {α : Type} {next : α → Handling} (hthrew : ∀ message, P (.done (.threw message)))
    (answer : Except Str α) (h : ∀ result, answer = .ok result → P (next result)) :
    P (orThrow answer next) := by
  cases answer with
  | error message => exact hthrew message
  | ok result => exact h result rfl

theorem Admits.of_cachedDecision (h : Admits P) (key : Str) {otherwise : Handling} (hother : P otherwise) :
    P (cachedDecision key otherwise) := by
  apply h.reads
  intro answer now
  apply orThrow_of h.threw
  intro cached _
  cases cached with
  | none => exact hother
  | some record =>
    dsimp only
    split_ifs
    · exact h.decided record
    · exact hother

theorem Admits.of_decide (h : Admits P) (key : Str) (record : AdmissionRecord) : P (decide key record) := by
  apply h.writes
  intro answer now
  apply orThrow_of h.threw
  exact fun _ _ => h.decided record

theorem Admits.of_askGitHub (h : Admits P) (path pat : Str) {next : Fetched → AdmissionRecord → Handling}
    (hnext : ∀ github decision, P (next github decision)) : P (askGitHub path pat next) := by
  apply orThrow_of h.threw
  intro request hrequest
  apply h.asks path pat request hrequest
  intro answer now
  apply orThrow_of h.threw
  intro github _
  cases Auth.classifyGitHubResponse github now with
  | unavailable retryAfterSeconds => exact h.unavailable retryAfterSeconds
  | decision decision => exact hnext github decision

theorem Admits.of_check (h : Admits P) (env : ObjectEnv) (pat : Option Str) : P (check env pat) := by
  unfold check
  split
  · exact h.refused _
  · exact h.refused _
  · apply h.of_cachedDecision
    apply h.of_askGitHub
    intro github decision
    apply orThrow_of h.threw
    exact fun record _ => h.of_decide admissionKey record

theorem Admits.of_authorize (h : Admits P) (env : ObjectEnv) (body : Option AuthorizeBody) :
    P (authorize env body) := by
  cases body with
  | none => exact h.refused _
  | some body =>
    apply h.of_cachedDecision
    apply h.of_askGitHub
    exact fun github decision => h.of_decide _ _

theorem githubArchive_of (hfetch : ∀ request, PassesOn P (.fetch request .manual)) {env : ObjectEnv}
    {owner repository commitSha pat : Str} {next : Except Str (Option Body) → Handling}
    (h : ∀ archive, P (next archive)) : P (githubArchive env owner repository commitSha pat next) := by
  unfold githubArchive
  cases Auth.githubRequest (tarballPath owner repository commitSha) pat with
  | error message => exact h _
  | ok request =>
    apply hfetch
    intro archive now
    cases archive with
    | error message => exact h _
    | ok archive =>
      dsimp only
      split_ifs
      · exact h _
      · cases archiveRedirect env archive with
        | none => exact h _
        | some url =>
          apply hfetch
          intro source now
          cases source with
          | error message => exact h _
          | ok source =>
            dsimp only
            split_ifs
            · exact h _
            · exact h _

theorem publishing_of {α : Type} (hbucket : ∀ op, PassesOn P (.bucket op)) (program : Program r2Calls α)
    {next : α → Handling} (h : ∀ result, P (next result)) : P (publishing program next) := by
  induction program with
  | done result => exact h result
  | call op rest ih =>
    apply hbucket
    exact fun answer _ => ih answer

/-- The property goes through everything that a Container's answer can come to. -/
structure Receives (P : Handling → Prop) (version : Str) : Prop where
  threw : ∀ message, P (.done (.threw message))
  released : P (releaseLease version)
  finished : ∀ outcome, P (finish version outcome)
  publishes : ∀ op, PassesOn P (.bucket op)

/-- The property goes through everything that a leased job can come to. -/
structure Materializes (P : Handling → Prop) (version : Str) : Prop extends Receives P version where
  fetches : ∀ request, PassesOn P (.fetch request .manual)
  asks : ∀ id request, PassesOn P (.container id request)

theorem Receives.of_received {version : Str} (h : Receives P version) (response : Fetched) :
    P (received version response) := by
  unfold received
  split
  · split
    · exact h.threw _
    · exact h.released
  · split
    · exact h.released
    · refine publishing_of h.publishes _ ?_
      intro publication
      apply orThrow_of h.threw
      intro response _
      split
      · exact h.released
      · exact h.finished _

theorem Materializes.of_materializeJob {job : MaterializationJob} (h : Materializes P job.version)
    (env : ObjectEnv) (name : PackageName) (body : MaterializeBody) :
    P (materializeJob env name job body) := by
  apply githubArchive_of h.fetches
  intro archive
  split
  · exact h.released
  · exact h.released
  · split
    · exact h.released
    · apply h.asks
      intro response now
      cases response with
      | error message => exact h.released
      | ok response => exact h.toReceives.of_received response

end ObjectHandlers
end JsrProxy
