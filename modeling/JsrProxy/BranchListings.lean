import JsrProxy.GitHubBranches

set_option autoImplicit false

/-!
# Runs of the discovery

What the discovery of branches asks and returns when GitHub answers its requests in
turn: the repository, one page after the other, and the commits.
-/
namespace JsrProxy.GitHubBranches
open Branches ObjectHandlers Worker

/-- The answer to a request is the next one of a sequence. -/
def inTurn (answers : ℕ → Except Str Fetched) (n : ℕ) (_ : Request) : Except Str Fetched × ℕ :=
  (answers n, n + 1)

def authorizedGet (authorization : Str) (url : Url) : Request :=
  ⟨"GET".toList, url, [("accept".toList, "application/vnd.github+json".toList),
    ("authorization".toList, authorization), ("user-agent".toList, "jsrproxy".toList),
    ("x-github-api-version".toList, "2022-11-28".toList)], []⟩

theorem githubRequest_eq {pat authorization : Str} (h : Headers.normalize (Auth.bearer ++ pat) = some authorization)
    (url : Url) : githubRequest url pat = .ok (authorizedGet authorization url) := by
  rw [githubRequest, h]
  rfl

theorem authGithubRequest_eq {pat authorization : Str}
    (h : Headers.normalize (Auth.bearer ++ pat) = some authorization) (path : Str) :
    Auth.githubRequest path pat = .ok (authorizedGet authorization (.parse Auth.githubOrigin path)) :=
  githubRequest_eq h _

def reading (answer : Except Str Fetched) : Except DiscoveryError (Fetched × Json) :=
  match answer with
  | .error message => .error (.thrown message)
  | .ok response =>
    if !response.ok then .error (.refused response)
    else (response.body.parsed.mapError .thrown).map fun value => (response, value)

def pageOf (answer : Except Str Fetched) : Except DiscoveryError (List ListedBranch × Option Str) :=
  match reading answer with
  | .error error => .error error
  | .ok (response, page) =>
    match readPage page with
    | .error message => .error (.thrown message)
    | .ok listed => .ok (listed, linkTarget (response.headers.get "link".toList) "next".toList)

def defaultOf (answer : Except Str Fetched) : Except DiscoveryError JsString :=
  match reading answer with
  | .error error => .error error
  | .ok (_, metadata) =>
    match property metadata "default_branch" with
    | .error message => .error (.thrown message)
    | .ok found =>
      match stringOf found with
      | none | some (.text []) => .error (.thrown "GitHub repository response has no default branch".toList)
      | some defaultBranch => .ok defaultBranch

def timeOf (env : DiscoveryEnv) (sha : Str) (answer : Except Str Fetched) : Except DiscoveryError ℤ :=
  match reading answer with
  | .error error => .error error
  | .ok (_, commit) => committedAt env sha commit

variable {answers : ℕ → Except Str Fetched} {env : DiscoveryEnv}

theorem run_fetchJson (request : Request) (n : ℕ) :
    (fetchJson (.ok request)).run (inTurn answers) n = (reading (answers n), n + 1) := by
  unfold fetchJson fetch
  rw [Program.andThen, Program.run_bind, Program.run_call]
  cases h : answers n with
  | error message =>
    simp only [inTurn, h, Except.mapError, Program.run_done, reading]
  | ok response =>
    simp only [inTurn, h, Except.mapError, Program.run_done, reading]
    split_ifs
    · rfl
    · rfl

theorem calls_fetchJson (request : Request) (n : ℕ) :
    (fetchJson (.ok request)).calls (inTurn answers) n = [(n, request)] := by
  unfold fetchJson fetch
  rw [Program.andThen, Program.calls_bind, Program.calls_call, Program.run_call]
  cases h : answers n with
  | error message =>
    simp only [inTurn, h, Except.mapError, Program.run_done, Program.calls_done, List.append_nil]
  | ok response =>
    simp only [inTurn, h, Except.mapError, Program.run_done, Program.calls_done]
    split_ifs
    · rfl
    · rfl

structure Does {α : Type} (answers : ℕ → Except Str Fetched) (p : Program githubCalls α) (n : ℕ)
    (sent : List Request) (result : α) (m : ℕ) : Prop where
  calls : (p.calls (inTurn answers) n).map Prod.snd = sent
  run : p.run (inTurn answers) n = (result, m)

variable {α β : Type}

theorem does_done (result : α) (n : ℕ) : Does answers (.done result) n [] result n := ⟨rfl, rfl⟩

theorem Does.bind {p : Program githubCalls α} {f : α → Program githubCalls β} {n m k : ℕ}
    {sent more : List Request} {a : α} {b : β} (h : Does answers p n sent a m)
    (hf : Does answers (f a) m more b k) : Does answers (p.bind f) n (sent ++ more) b k where
  calls := by rw [Program.calls_bind, List.map_append, h.calls, h.run, hf.calls]
  run := by rw [Program.run_bind, h.run, hf.run]

theorem does_fetchJson (request : Request) (n : ℕ) :
    Does answers (fetchJson (.ok request)) n [request] (reading (answers n)) (n + 1) where
  calls := by rw [calls_fetchJson]; rfl
  run := run_fetchJson request n

def passOn (f : α → Discovering β) : Except DiscoveryError α → Discovering β
  | .error error => fail error
  | .ok a => f a

theorem Does.andThen {p : Discovering α} {f : α → Discovering β} {n m k : ℕ} {sent more : List Request}
    {a : Except DiscoveryError α} {result : Except DiscoveryError β} (h : Does answers p n sent a m)
    (hf : Does answers (passOn f a) m more result k) : Does answers (p.andThen f) n (sent ++ more) result k := by
  apply h.bind
  cases a with
  | error error => exact hf
  | ok a => exact hf

theorem does_read {request : Request} {f : Fetched × Json → Discovering β} {n m : ℕ} {sent : List Request}
    {result : Except DiscoveryError β} (h : Does answers (passOn f (reading (answers n))) (n + 1) sent result m) :
    Does answers ((fetchJson (.ok request)).andThen f) n (request :: sent) result m :=
  (does_fetchJson request n).andThen h

/-- The SHAs without a timestamp, each once, in the order in which they are asked for. -/
def newShas (timestamps : Timestamps) (branches : List ListedBranch) : List Str :=
  ((branches.map ListedBranch.sha).filter fun sha => !timestamps.has sha).eraseDups.filterMap JsString.text?

theorem newShas_known {timestamps : Timestamps} {branch : ListedBranch} (h : timestamps.has branch.sha = true)
    (rest : List ListedBranch) : newShas timestamps (branch :: rest) = newShas timestamps rest := by
  rw [newShas, List.map_cons, List.filter_cons_of_neg (by simp [h]), newShas]

theorem newShas_unknown {timestamps : Timestamps} {branch : ListedBranch} (h : timestamps.has branch.sha = false)
    (rest : List ListedBranch) (timestamp : Except DiscoveryError ℤ) :
    newShas timestamps (branch :: rest) =
      branch.sha.text?.toList ++ newShas (timestamps.set branch.sha timestamp) rest := by
  have hrest : ((rest.map ListedBranch.sha).filter fun sha => !timestamps.has sha).filter
      (fun sha => !sha == branch.sha) = (rest.map ListedBranch.sha).filter fun sha =>
        !(timestamps.set branch.sha timestamp).has sha := by
    rw [List.filter_filter]
    apply List.filter_congr
    intro sha hsha
    rw [OrderedMap.has, OrderedMap.has, OrderedMap.get?_set]
    by_cases he : sha = branch.sha
    · simp [he]
    · simp [he]
  rw [newShas, List.map_cons, List.filter_cons_of_pos (by simp [h]), List.eraseDups_cons, hrest, newShas]
  cases branch.sha <;> rfl

def afterPage (env : DiscoveryEnv) (pat : Str) (pages : ℕ) (branches : List ListedBranch) :
    Except DiscoveryError (List ListedBranch × Option Str) → Discovering (List ListedBranch)
  | .error error => fail error
  | .ok (listed, none) => .done (.ok (branches ++ listed))
  | .ok (listed, some next) => listBranches env pat pages (linkedUrl env next) (branches ++ listed)

section
variable {pat authorization : Str} (hpat : Headers.normalize (Auth.bearer ++ pat) = some authorization)
include hpat

theorem does_listBranches {url : Url} {n m pages : ℕ} {branches : List ListedBranch} {sent : List Request}
    {result : Except DiscoveryError (List ListedBranch)}
    (h : Does answers (afterPage env pat pages branches (pageOf (answers n))) (n + 1) sent result m) :
    Does answers (listBranches env pat (pages + 1) (.ok url) branches) n
      (authorizedGet authorization url :: sent) result m := by
  have hurl : (Except.ok url : Except Str Url).bind (githubRequest · pat) =
      .ok (authorizedGet authorization url) := githubRequest_eq hpat url
  rw [listBranches, hurl]
  apply does_read
  unfold pageOf at h
  cases hread : reading (answers n) with
  | error error =>
    rw [hread] at h
    exact h
  | ok read =>
    obtain ⟨response, page⟩ := read
    rw [hread] at h
    dsimp only [passOn] at h ⊢
    cases hpage : readPage page with
    | error message =>
      rw [hpage] at h
      exact h
    | ok listed =>
      rw [hpage] at h
      dsimp only at h ⊢
      cases hlink : linkTarget (response.headers.get "link".toList) "next".toList with
      | none =>
        rw [hlink] at h
        exact h
      | some next =>
        rw [hlink] at h
        exact h

omit hpat in
def commitGet (authorization owner repository sha : Str) : Request :=
  authorizedGet authorization (.parse Auth.githubOrigin (commitPath owner repository sha))

theorem does_askTimestamp (owner repository sha : Str) (n : ℕ) :
    Does answers (askTimestamp env owner repository pat sha) n [commitGet authorization owner repository sha]
      (timeOf env sha (answers n)) (n + 1) := by
  rw [askTimestamp, authGithubRequest_eq hpat, timeOf]
  apply does_read
  cases reading (answers n) with
  | error error => exact does_done _ _
  | ok read => exact does_done _ _

omit hpat in
def malformedSha : Except DiscoveryError ℤ := .error (.thrown "URI malformed".toList)

variable (answers env) in
/-- Each new SHA is asked for once, and its answer is kept. -/
theorem does_askTimestamps (owner repository : Str) (branches : List ListedBranch) (timestamps : Timestamps)
    (n : ℕ) : ∃ after, Does answers (askTimestamps env owner repository pat timestamps branches) n
        ((newShas timestamps branches).map (commitGet authorization owner repository)) after
        (n + (newShas timestamps branches).length) ∧
      (∀ sha known, timestamps.get? sha = some known → after.get? sha = some known) ∧
      (∀ i sha, (newShas timestamps branches)[i]? = some sha →
        after.get? (.text sha) = some (timeOf env sha (answers (n + i)))) ∧
      ∀ branch ∈ branches, timestamps.has branch.sha = false → branch.sha.text? = none →
        after.get? branch.sha = some malformedSha := by
  induction branches generalizing timestamps n with
  | nil =>
    exact ⟨timestamps, does_done _ _, fun _ _ h => h, fun i sha h => by simp [newShas] at h,
      fun _ h => absurd h List.not_mem_nil⟩
  | cons branch rest ih =>
    rw [askTimestamps]
    cases hknown : timestamps.has branch.sha with
    | true =>
      rw [newShas_known hknown]
      obtain ⟨after, hdoes, hkept, hnew, hmalformed⟩ := ih timestamps n
      refine ⟨after, hdoes, hkept, hnew, ?_⟩
      intro other hother hunknown
      rcases List.mem_cons.1 hother with rfl | hother
      · rw [hknown] at hunknown
        cases hunknown
      · exact hmalformed other hother hunknown
    | false =>
      -- what the branch itself comes to, by its SHA
      obtain ⟨timestamp, hone, htext, hnone⟩ : ∃ timestamp,
          Does answers (askTimestamp env owner repository pat branch.sha) n
            (branch.sha.text?.toList.map (commitGet authorization owner repository)) timestamp
            (n + branch.sha.text?.toList.length) ∧
          (∀ sha, branch.sha.text? = some sha → timestamp = timeOf env sha (answers n)) ∧
          (branch.sha.text? = none → timestamp = malformedSha) := by
        cases branch.sha with
        | text sha =>
          refine ⟨_, does_askTimestamp hpat owner repository sha n, ?_, fun h => by cases h⟩
          rintro _ ⟨⟩
          rfl
        | unpaired points lone =>
          refine ⟨malformedSha, does_done _ _, ?_, fun _ => rfl⟩
          rintro _ ⟨⟩
      obtain ⟨after, hdoes, hkept, hnew, hmalformed⟩ :=
        ih (timestamps.set branch.sha timestamp) (n + branch.sha.text?.toList.length)
      have hbranch := hkept branch.sha timestamp (OrderedMap.get?_set_self _ _ _)
      rw [newShas_unknown hknown rest timestamp]
      refine ⟨after, ?_, ?_, ?_, ?_⟩
      · rw [List.map_append, List.length_append, ← Nat.add_assoc]
        exact hone.bind hdoes
      · intro sha known hsha
        apply hkept
        rw [OrderedMap.get?_set_of_ne]
        · exact hsha
        · rintro rfl
          rw [OrderedMap.has, hsha] at hknown
          cases hknown
      · intro i sha hi
        cases hsha : branch.sha.text? with
        | none =>
          rw [hsha, Option.toList_none, List.nil_append] at hi
          have hat := hnew i sha hi
          rw [hsha, Option.toList_none, List.length_nil, Nat.add_zero] at hat
          exact hat
        | some first =>
          rw [hsha, Option.toList_some, List.singleton_append] at hi
          cases i with
          | zero =>
            rw [List.getElem?_cons_zero] at hi
            rw [← Option.some.inj hi, Nat.add_zero, ← htext first hsha, ← JsString.text_of_text? hsha]
            exact hbranch
          | succ i =>
            rw [List.getElem?_cons_succ] at hi
            have hat := hnew i sha hi
            rw [hsha, Option.toList_some, List.length_singleton, Nat.add_right_comm, Nat.add_assoc] at hat
            exact hat
      · intro other hother hunknown hsha
        by_cases he : other.sha = branch.sha
        · rw [he] at hsha ⊢
          rw [← hnone hsha]
          exact hbranch
        · rcases List.mem_cons.1 hother with rfl | hother
          · exact absurd rfl he
          · apply hmalformed other hother _ hsha
            rw [OrderedMap.has, OrderedMap.get?_set_of_ne _ _ he]
            exact hunknown

end

def repositoryGet (authorization owner repository : Str) : Request :=
  authorizedGet authorization (.parse Auth.githubOrigin (repositoryPath owner repository))

def branchesUrl (owner repository : Str) : Url :=
  .parse Auth.githubOrigin (repositoryPath owner repository ++ "/branches?per_page=100".toList)

def afterRepository (env : DiscoveryEnv) (pages : ℕ) (owner repository pat : Str) :
    Except DiscoveryError JsString → Discovering BranchDiscovery
  | .error error => fail error
  | .ok defaultBranch =>
    (listBranches env pat pages (.ok (branchesUrl owner repository)) []).andThen
      (readTips env owner repository pat defaultBranch)

theorem does_discover {pat authorization : Str}
    (hpat : Headers.normalize (Auth.bearer ++ pat) = some authorization) {owner repository : Str} {m pages : ℕ}
    {sent : List Request} {result : Except DiscoveryError BranchDiscovery}
    (h : Does answers (afterRepository env pages owner repository pat (defaultOf (answers 0))) 1 sent result m) :
    Does answers (discoverGitHubBranches env pages owner repository pat) 0
      (repositoryGet authorization owner repository :: sent) result m := by
  rw [discoverGitHubBranches, authGithubRequest_eq hpat]
  apply does_read
  unfold defaultOf at h
  cases hread : reading (answers 0) with
  | error error =>
    rw [hread] at h
    exact h
  | ok read =>
    obtain ⟨response, metadata⟩ := read
    rw [hread] at h
    dsimp only [passOn] at h ⊢
    cases hproperty : property metadata "default_branch" with
    | error message =>
      rw [hproperty] at h
      exact h
    | ok found =>
      rw [hproperty] at h
      dsimp only at h ⊢
      cases htext : stringOf found with
      | none =>
        rw [htext] at h
        exact h
      | some defaultBranch =>
        rw [htext] at h
        cases defaultBranch with
        | unpaired points lone => exact h
        | text name =>
          cases name with
          | nil => exact h
          | cons c rest => exact h

end JsrProxy.GitHubBranches
