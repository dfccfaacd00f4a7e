import JsrProxy.PackageHandlers

set_option autoImplicit false

/-!
# Decisions about repositories

What `/authorize` grants. The answer's repository is compared by its name only, so an
answer for a repository that was transferred grants to the old owner's scope. The
decision is kept under the fingerprint alone, so it also answers for other repositories.
-/
namespace JsrProxy
open ObjectHandlers

/-- What one handler of `/authorize` meets: the stored decision and when it is read, GitHub's
    answer and when it arrives, and whether the storage takes the decision. -/
structure AuthorizeInput where
  cached : Except Str (Option AdmissionRecord)
  now : ℤ
  github : Except Str Fetched
  received : ℤ
  saved : Except Str Unit

def AuthorizeInput.answer (input : AuthorizeInput) (written : List AdmissionRecord) :
    (call : ObjectCall) → (call.Answer × ℤ) × List AdmissionRecord
  | .readDecision _ => ((input.cached, input.now), written)
  | .writeDecision _ record => ((input.saved, input.received), written ++ [record])
  | .fetch _ _ => ((input.github, input.received), written)
  | .readSnapshot => ((.error [], input.received), written)
  | .writeSnapshot _ => ((.error [], input.received), written)
  | .container _ _ => ((.error [], input.received), written)
  | .bucket _ => ((.error [], input.received), written)

def authorized (env : ObjectEnv) (body : AuthorizeBody) (input : AuthorizeInput) :
    Reply ObjectBody × List AdmissionRecord :=
  Program.run (E := objectCalls) input.answer (authorize env (some body)) []

def Grants (result : Reply ObjectBody × List AdmissionRecord) : Prop :=
  (∃ status record, result.1 = .json status (.decision record) ∧ record.granted = true) ∨
    ∃ record ∈ result.2, record.granted = true

def Named (env : ObjectEnv) (github : Fetched) (repository : Str) : Prop :=
  ∃ name, stringOf (github.body.json.bind (·.get? "name".toList)) = some (.text name) ∧
    env.toLowerCase name = repository

def OwnedBy (env : ObjectEnv) (github : Fetched) (owner : Str) : Prop :=
  ∃ login, stringOf ((github.body.json.bind (·.get? "owner".toList)).bind (·.get? "login".toList))
    = some (.text login) ∧ env.toLowerCase login = env.toLowerCase owner

/-- GitHub answered with success, for the requested owner and repository up to their case. -/
def AnswersForMapped (env : ObjectEnv) (body : AuthorizeBody) (input : AuthorizeInput) : Prop :=
  ∃ github, input.github = .ok github ∧ github.ok = true ∧
    Named env github (env.toLowerCase body.repository) ∧ OwnedBy env github body.owner

/-- GitHub is asked, and answers with success for a repository of the requested name that
    is not known to be the requested owner's. -/
structure AnswersForOther (env : ObjectEnv) (body : AuthorizeBody) (input : AuthorizeInput) : Prop where
  read : ∃ cached, input.cached = .ok cached
  sent : ∃ request, Auth.githubRequest (repositoryPath body.owner body.repository) body.pat = .ok request
  answered : ∃ github, input.github = .ok github ∧ github.ok = true ∧ Named env github body.repository ∧
    ¬ OwnedBy env github body.owner

theorem classify_ok {github : Fetched} {now : ℤ} (hok : github.ok = true) :
    Auth.classifyGitHubResponse github now = .decision ⟨true, now + 60000⟩ := by
  have hstatus : 200 ≤ github.status ∧ github.status ≤ 299 := by
    simpa [Fetched.ok, Response.isOk] using hok
  unfold Auth.classifyGitHubResponse
  rw [if_neg (by omega), if_neg]
  simp only [hok, Bool.not_true, Bool.false_or, Bool.or_eq_true, decide_eq_true_eq]
  omega

theorem repositoryDecision_granted {env : ObjectEnv} {repository : Str} {github : Fetched}
    {decision : AdmissionRecord} :
    (repositoryDecision env repository github decision).granted = true ↔
      decision.granted = true ∧ Named env github repository := by
  unfold repositoryDecision Named
  cases hd : decision.granted with
  | false => simp [hd]
  | true =>
    rw [if_pos rfl]
    cases stringOf (github.body.json.bind (·.get? "name".toList)) with
    | none => simp only [reduceCtorEq, false_and, exists_false, and_false, Bool.false_eq_true]
    | some name =>
      cases name with
      | unpaired points lone => simp
      | text name =>
        dsimp only
        split_ifs with hname
        · simpa using hname
        · simpa [hd] using hname

def decided (env : ObjectEnv) (body : AuthorizeBody) (input : AuthorizeInput) (github : Fetched) :
    Reply ObjectBody × List AdmissionRecord :=
  match Auth.classifyGitHubResponse github input.received with
  | .unavailable retryAfterSeconds => (.json 503 (.unavailable retryAfterSeconds), [])
  | .decision decision =>
    let record := repositoryDecision env body.repository github decision
    match input.saved with
    | .error message => (.threw message, [record])
    | .ok () => (.json 200 (.decision record), [record])

def asked (env : ObjectEnv) (body : AuthorizeBody) (input : AuthorizeInput) :
    Reply ObjectBody × List AdmissionRecord :=
  match Auth.githubRequest (repositoryPath body.owner body.repository) body.pat, input.github with
  | .error message, _ => (.threw message, [])
  | .ok _, .error message => (.threw message, [])
  | .ok _, .ok github => decided env body input github

theorem run_askGitHub (env : ObjectEnv) (body : AuthorizeBody) (input : AuthorizeInput) :
    Program.run (E := objectCalls) input.answer
      (askGitHub (repositoryPath body.owner body.repository) body.pat fun github decision =>
        decide (repositoryKey body.fingerprint) (repositoryDecision env body.repository github decision)) []
      = asked env body input := by
  unfold askGitHub asked
  cases Auth.githubRequest (repositoryPath body.owner body.repository) body.pat with
  | error message => rfl
  | ok request =>
    obtain ⟨cached, now, github, received, saved⟩ := input
    cases github with
    | error message => rfl
    | ok github =>
      simp only [orThrow, await, Program.run_call, AuthorizeInput.answer, decided]
      cases Auth.classifyGitHubResponse github received with
      | unavailable retryAfterSeconds => rfl
      | decision decision =>
        cases saved with
        | error message => rfl
        | ok _ => rfl

theorem authorized_miss (env : ObjectEnv) (body : AuthorizeBody) {input : AuthorizeInput}
    {cached : Option AdmissionRecord} (hcached : input.cached = .ok cached)
    (hmiss : ∀ record, input.cached = .ok (some record) → ¬ input.now < record.expiresAt) :
    authorized env body input = asked env body input := by
  rw [← run_askGitHub, authorized, authorize, cachedDecision, await, Program.run_call]
  simp only [AuthorizeInput.answer, hcached, orThrow]
  cases cached with
  | none => rfl
  | some record =>
    dsimp only
    rw [if_neg (hmiss record hcached)]

theorem grants_iff {env : ObjectEnv} {body : AuthorizeBody} {input : AuthorizeInput}
    (hmiss : ∀ record, input.cached = .ok (some record) → ¬ input.now < record.expiresAt) :
    Grants (authorized env body input) ↔ (∃ cached, input.cached = .ok cached) ∧
      (∃ request, Auth.githubRequest (repositoryPath body.owner body.repository) body.pat = .ok request) ∧
      ∃ github, input.github = .ok github ∧ github.ok = true ∧ Named env github body.repository := by
  have hthrew : ∀ message, ¬ Grants (.threw message, []) := by
    rintro message (⟨_, _, h, -⟩ | ⟨_, h, -⟩) <;> cases h
  have hunavailable : ∀ seconds, ¬ Grants (.json 503 (.unavailable seconds), []) := by
    rintro seconds (⟨_, _, h, -⟩ | ⟨_, h, -⟩) <;> cases h
  cases hcached : input.cached with
  | error message =>
    have hresult : authorized env body input = (.threw message, []) := by
      rw [authorized, authorize, cachedDecision, await, Program.run_call]
      simp only [AuthorizeInput.answer, hcached, orThrow]
      rfl
    rw [hresult]
    simp [hthrew message]
  | ok cached =>
    rw [authorized_miss env body hcached hmiss, asked]
    cases Auth.githubRequest (repositoryPath body.owner body.repository) body.pat with
    | error message => simp [hthrew message]
    | ok request =>
      cases input.github with
      | error message => simp [hthrew message]
      | ok github =>
        dsimp only
        have hright : (∃ found, (Except.ok github : Except Str Fetched) = .ok found ∧ found.ok = true ∧
            Named env found body.repository) ↔ github.ok = true ∧ Named env github body.repository := by
          simp
        rw [hright, decided]
        cases hclass : Auth.classifyGitHubResponse github input.received with
        | unavailable seconds =>
          have hnot : ¬ github.ok = true := by
            intro hok
            rw [classify_ok hok] at hclass
            cases hclass
          simp [hunavailable seconds, hnot]
        | decision decision =>
          have hgranted : (repositoryDecision env body.repository github decision).granted = true ↔
              github.ok = true ∧ Named env github body.repository := by
            rw [repositoryDecision_granted]
            constructor
            · exact fun h => ⟨(Auth.classify_granted hclass h.1).1, h.2⟩
            · intro h
              rw [classify_ok h.1] at hclass
              cases hclass
              exact ⟨rfl, h.2⟩
          rw [← hgranted]
          cases input.saved with
          | error message => simp [Grants]
          | ok _ => simp [Grants]

/-- A handler that asks GitHub grants only for the mapped repository, unless the answer is
    for a repository of the same name that another owner has. -/
theorem grants_mapped_iff {env : ObjectEnv} (hlower : ∀ text, env.toLowerCase (env.toLowerCase text)
    = env.toLowerCase text) {body : AuthorizeBody} {input : AuthorizeInput}
    (hmiss : ∀ record, input.cached = .ok (some record) → ¬ input.now < record.expiresAt) :
    (Grants (authorized env body input) → AnswersForMapped env body input) ↔
      ¬ AnswersForOther env body input := by
  rw [grants_iff hmiss]
  constructor
  · rintro hmapped ⟨hread, hsent, github, hgithub, hok, hname, howner⟩
    obtain ⟨found, hfound, -, -, howned⟩ := hmapped ⟨hread, hsent, github, hgithub, hok, hname⟩
    rw [hgithub] at hfound
    obtain rfl := Except.ok.inj hfound
    exact howner howned
  · rintro hother ⟨hread, hsent, github, hgithub, hok, name, hname, hlowered⟩
    refine ⟨github, hgithub, hok, ⟨name, hname, ?_⟩, ?_⟩
    · rw [← hlowered, hlower]
    · by_contra howner
      exact hother ⟨hread, hsent, github, hgithub, hok, ⟨name, hname, hlowered⟩, howner⟩

def lowerEnv : ObjectEnv := ⟨none, true, toAsciiLowercase, fun _ => none⟩

theorem lowerEnv_toLowerCase (text : Str) :
    lowerEnv.toLowerCase (lowerEnv.toLowerCase text) = lowerEnv.toLowerCase text := by
  change (text.map Char.toLower).map Char.toLower = text.map Char.toLower
  rw [List.map_map]
  apply List.map_congr_left
  intro c _
  exact Char.toLower_toLower_eq_toLower c

def widgetBody : AuthorizeBody := ⟨"print".toList, "acme".toList, "widget".toList, "pat".toList⟩

/-- GitHub's answer for `acme/widget` after its transfer to another owner. -/
def transferred : AuthorizeInput where
  cached := .ok none
  now := 0
  github := .ok ⟨200, [], .bytes (Utf8.encode
    "\x7b\"name\":\"widget\",\"owner\":\x7b\"login\":\"mallory\"\x7d\x7d".toList), "api.github.com".toList⟩
  received := 0
  saved := .ok ()

theorem grants_mapped_iff_transferred :
    (Grants (authorized lowerEnv widgetBody transferred) → AnswersForMapped lowerEnv widgetBody transferred) ↔
      ¬ AnswersForOther lowerEnv widgetBody transferred :=
  grants_mapped_iff lowerEnv_toLowerCase (fun _ h => nomatch h)

/-- The new owner's repository is granted to the old owner's scope. -/
theorem transferred_granted :
    ¬ (Grants (authorized lowerEnv widgetBody transferred) →
      AnswersForMapped lowerEnv widgetBody transferred) := by
  intro hmapped
  have hsent : ∃ request, Auth.githubRequest (repositoryPath widgetBody.owner widgetBody.repository)
      widgetBody.pat = .ok request := ⟨_, rfl⟩
  have hname : Named lowerEnv ⟨200, [], .bytes (Utf8.encode
      "\x7b\"name\":\"widget\",\"owner\":\x7b\"login\":\"mallory\"\x7d\x7d".toList), "api.github.com".toList⟩
      widgetBody.repository := ⟨"widget".toList, by decide +kernel, by decide⟩
  have hgrants := (@grants_iff lowerEnv widgetBody transferred (fun _ h => nomatch h)).2
    ⟨⟨_, rfl⟩, hsent, _, rfl, rfl, hname⟩
  obtain ⟨github, hgithub, -, -, login, hlogin, howner⟩ := hmapped hgrants
  obtain rfl := Except.ok.inj hgithub
  have hmallory : stringOf (((Body.bytes (Utf8.encode
      "\x7b\"name\":\"widget\",\"owner\":\x7b\"login\":\"mallory\"\x7d\x7d".toList)).json.bind
      (·.get? "owner".toList)).bind (·.get? "login".toList)) = some (.text "mallory".toList) := by decide +kernel
  rw [hmallory] at hlogin
  obtain rfl := JsString.text.inj (Option.some.inj hlogin)
  exact absurd howner (by decide)

end JsrProxy
