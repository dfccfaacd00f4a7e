import JsrProxy.BranchListings
import JsrProxy.HandlerRules
import JsrProxy.ServiceOutages

set_option autoImplicit false

/-!
# Where the PAT goes

To which origins GitHub's answers lead the requests that carry the PAT. Authorization
and the archive ask one fixed origin; the listing of the branches follows its links.
-/
namespace JsrProxy
open Branches

def Request.Credentialed (request : Request) : Prop :=
  (request.headers.get "authorization".toList).isSome = true

theorem githubRequest_origin {path pat : Str} {request : Request} (h : Auth.githubRequest path pat = .ok request) :
    request.url.origin = Auth.githubOrigin := by
  unfold Auth.githubRequest at h
  cases hpat : Headers.normalize (Auth.bearer ++ pat) with
  | none => simp only [hpat, reduceCtorEq] at h
  | some authorization =>
    simp only [hpat, Except.ok.injEq] at h
    rw [← h]
    rfl

namespace GitHubBranches
open ObjectHandlers

variable {answers : ℕ → Except Str Fetched} {env : DiscoveryEnv} {pat authorization : Str}

/-- Where the answer to a page leads the listing on to. -/
def followed (env : DiscoveryEnv) (answer : Except Str Fetched) : Option Url :=
  match pageOf answer with
  | .ok (_, some next) => (linkedUrl env next).toOption
  | _ => none

theorem followed_eq {answer : Except Str Fetched} {linked : Url} (h : followed env answer = some linked) :
    ∃ listed next, pageOf answer = .ok (listed, some next) ∧ linkedUrl env next = .ok linked := by
  unfold followed at h
  cases hpage : pageOf answer with
  | error error => rw [hpage] at h; cases h
  | ok page =>
    obtain ⟨listed, next⟩ := page
    rw [hpage] at h
    cases next with
    | none => cases h
    | some next =>
      dsimp only at h
      cases hlinked : linkedUrl env next with
      | error message => rw [hlinked] at h; cases h
      | ok url =>
        rw [hlinked] at h
        obtain rfl := Option.some.inj h
        exact ⟨listed, next, rfl, hlinked⟩

def LinksStay (env : DiscoveryEnv) (answers : ℕ → Except Str Fetched) (start : ℕ) : Prop :=
  ∀ n, (∀ i < n, (followed env (answers (start + i))).isSome = true) →
    ∀ url, followed env (answers (start + n)) = some url → url.origin = Auth.githubOrigin

theorem LinksStay.next {start : ℕ} (h : LinksStay env answers start)
    (hfollowed : (followed env (answers start)).isSome = true) : LinksStay env answers (start + 1) := by
  intro n hn url hurl
  rw [Nat.add_assoc, Nat.add_comm 1] at hurl
  apply h (n + 1) _ url hurl
  intro i hi
  cases i with
  | zero => exact hfollowed
  | succ i =>
    have hlater := hn i (Nat.lt_of_succ_lt_succ hi)
    rwa [Nat.add_assoc, Nat.add_comm 1] at hlater

def requests {α : Type} (answers : ℕ → Except Str Fetched) (p : Program githubCalls α) (n : ℕ) : List Request :=
  (p.calls (inTurn answers) n).map Prod.snd

theorem does_self {α : Type} (p : Program githubCalls α) (n : ℕ) :
    Does answers p n (requests answers p n) (p.run (inTurn answers) n).1 (p.run (inTurn answers) n).2 :=
  ⟨rfl, rfl⟩

theorem requests_bind {α β : Type} (p : Program githubCalls α) (f : α → Program githubCalls β) (n : ℕ) :
    requests answers (p.bind f) n = requests answers p n ++
      requests answers (f (p.run (inTurn answers) n).1) (p.run (inTurn answers) n).2 := by
  rw [requests, Program.calls_bind, List.map_append]
  rfl

theorem requests_unlinked (message : Str) (pages : ℕ) (branches : List ListedBranch) (n : ℕ) :
    requests answers (listBranches env pat pages (.error message) branches) n = [] := by
  cases pages with
  | zero => rfl
  | succ pages => rfl

section
variable (hpat : Headers.normalize (Auth.bearer ++ pat) = some authorization)
include hpat

theorem requests_listBranches (pages : ℕ) (url : Url) (branches : List ListedBranch) (n : ℕ) :
    requests answers (listBranches env pat (pages + 1) (.ok url) branches) n =
      authorizedGet authorization url ::
        requests answers (afterPage env pat pages branches (pageOf (answers n))) (n + 1) :=
  (does_listBranches hpat (does_self _ _)).calls

theorem listing_stays (pages : ℕ) {url : Url} {start : ℕ} (branches : List ListedBranch)
    (hurl : url.origin = Auth.githubOrigin) (h : LinksStay env answers start) :
    ∀ request ∈ requests answers (listBranches env pat pages (.ok url) branches) start,
      request.url.origin = Auth.githubOrigin := by
  induction pages generalizing url start branches with
  | zero => exact fun request hrequest => absurd hrequest List.not_mem_nil
  | succ pages ih =>
    intro request hrequest
    rw [requests_listBranches hpat] at hrequest
    rcases List.mem_cons.1 hrequest with rfl | hrequest
    · exact hurl
    · cases hpage : pageOf (answers start) with
      | error error =>
        rw [hpage] at hrequest
        cases hrequest
      | ok page =>
        obtain ⟨listed, next⟩ := page
        rw [hpage] at hrequest
        cases next with
        | none => cases hrequest
        | some next =>
          rw [afterPage] at hrequest
          cases hlinked : linkedUrl env next with
          | error message =>
            rw [hlinked, requests_unlinked] at hrequest
            cases hrequest
          | ok linked =>
            have hfollowed : followed env (answers start) = some linked := by
              simp only [followed, hpage, hlinked, Except.toOption]
            rw [hlinked] at hrequest
            have hlinkedUrl := h 0 (fun i hi => absurd hi (Nat.not_lt_zero i)) linked hfollowed
            exact ih _ hlinkedUrl (h.next (by rw [hfollowed]; rfl)) request hrequest

theorem followed_requested (k : ℕ) (url : Url) {next : Url} {start : ℕ} (branches : List ListedBranch)
    (hbefore : ∀ i < k, (followed env (answers (start + i))).isSome = true)
    (h : followed env (answers (start + k)) = some next) :
    ∃ pages, authorizedGet authorization next ∈
      requests answers (listBranches env pat pages (.ok url) branches) start := by
  induction k generalizing url start branches with
  | zero =>
    obtain ⟨listed, target, hpage, hlinked⟩ := followed_eq h
    refine ⟨2, ?_⟩
    rw [Nat.add_zero] at hpage
    rw [requests_listBranches hpat, hpage, afterPage, hlinked, requests_listBranches hpat]
    exact List.mem_cons_of_mem _ List.mem_cons_self
  | succ k ih =>
    obtain ⟨first, hfirst⟩ := Option.isSome_iff_exists.1 (hbefore 0 (Nat.zero_lt_succ k))
    obtain ⟨listed, target, hpage, hlinked⟩ := followed_eq hfirst
    rw [Nat.add_zero] at hpage
    rw [Nat.add_comm k, ← Nat.add_assoc] at h
    have hlater : ∀ i < k, (followed env (answers (start + 1 + i))).isSome = true := by
      intro i hi
      rw [Nat.add_assoc, Nat.add_comm 1]
      exact hbefore (i + 1) (Nat.succ_lt_succ hi)
    obtain ⟨pages, hmem⟩ := ih first (branches ++ listed) hlater h
    refine ⟨pages + 1, ?_⟩
    rw [requests_listBranches hpat, hpage, afterPage, hlinked]
    exact List.mem_cons_of_mem _ hmem

end

theorem asks_fetchJson {request : Except Str Request} {C : Request → Prop}
    (h : ∀ made, request = .ok made → C made) : (fetchJson request).Asks (E := githubCalls) C := by
  unfold fetchJson
  apply Program.Asks.andThen
  · cases request with
    | error message => exact .done _
    | ok made => exact .call (h made rfl) fun answer => .done _
  · intro response
    split_ifs
    · exact .done _
    · exact .done _

theorem asks_readTips (owner repository : Str) (defaultBranch : JsString) (branches : List ListedBranch) :
    (readTips env owner repository pat defaultBranch branches).Asks (E := githubCalls)
      fun request : Request => request.url.origin = Auth.githubOrigin := by
  have hone : ∀ sha, (askTimestamp env owner repository pat sha).Asks (E := githubCalls)
      fun request : Request => request.url.origin = Auth.githubOrigin := by
    intro sha
    cases sha with
    | unpaired points lone => exact .done _
    | text sha =>
      apply Program.Asks.andThen
      · exact asks_fetchJson fun made => githubRequest_origin
      · exact fun read => .done _
  have hall : ∀ (selected : List ListedBranch) (timestamps : Timestamps),
      (askTimestamps env owner repository pat timestamps selected).Asks (E := githubCalls)
        fun request : Request => request.url.origin = Auth.githubOrigin := by
    intro selected
    induction selected with
    | nil => exact fun timestamps => .done _
    | cons branch rest ih =>
      intro timestamps
      rw [askTimestamps]
      split_ifs
      · exact ih timestamps
      · exact (hone branch.sha).bind fun timestamp => ih _
  unfold readTips
  dsimp only
  split_ifs
  · exact .done _
  · exact (hall _ _).bind fun timestamps => .done _

def discoveryRequests (env : DiscoveryEnv) (pages : ℕ) (owner repository pat : Str)
    (answers : ℕ → Except Str Fetched) : List Request :=
  requests answers (discoverGitHubBranches env pages owner repository pat) 0

theorem requests_afterRepository (owner repository : Str) (defaultBranch : JsString) (pages : ℕ) :
    ∃ later, requests answers (afterRepository env pages owner repository pat (.ok defaultBranch)) 1 =
        requests answers (listBranches env pat pages (.ok (branchesUrl owner repository)) []) 1 ++ later ∧
      ∀ request ∈ later, request.url.origin = Auth.githubOrigin := by
  let listing := listBranches env pat pages (.ok (branchesUrl owner repository)) []
  refine ⟨_, requests_bind listing _ 1, ?_⟩
  intro request hrequest
  obtain ⟨met, hmet, rfl⟩ := List.mem_map.1 hrequest
  revert hmet
  cases (listing.run (inTurn answers) 1).1 with
  | error error => exact fun hmet => absurd hmet List.not_mem_nil
  | ok branches => exact (asks_readTips owner repository defaultBranch branches).calls _ _ met

theorem discovery_stays (owner repository : Str) :
    (∀ pages, ∀ request ∈ discoveryRequests env pages owner repository pat answers,
        request.url.origin = Auth.githubOrigin) ↔
      ∀ authorization, Headers.normalize (Auth.bearer ++ pat) = some authorization →
        ∀ defaultBranch, defaultOf (answers 0) = .ok defaultBranch → LinksStay env answers 1 := by
  cases hpat : Headers.normalize (Auth.bearer ++ pat) with
  | none =>
    constructor
    · intro h authorization hsome
      cases hsome
    · intro h pages request hrequest
      have hthrows : Auth.githubRequest (repositoryPath owner repository) pat =
          .error "invalid header value".toList := by
        rw [Auth.githubRequest, hpat]
      rw [discoveryRequests, discoverGitHubBranches, hthrows] at hrequest
      cases hrequest
  | some authorization =>
    have hrequests : ∀ pages, discoveryRequests env pages owner repository pat answers =
        repositoryGet authorization owner repository ::
          requests answers (afterRepository env pages owner repository pat (defaultOf (answers 0))) 1 :=
      fun pages => (does_discover hpat (does_self _ _)).calls
    cases hdefault : defaultOf (answers 0) with
    | error error =>
      rw [hdefault] at hrequests
      constructor
      · intro h other hother defaultBranch hd
        cases hd
      · intro h pages request hrequest
        rw [hrequests, afterRepository] at hrequest
        rcases List.mem_cons.1 hrequest with rfl | hrequest
        · rfl
        · cases hrequest
    | ok defaultBranch =>
      rw [hdefault] at hrequests
      constructor
      · intro h other hother found hd n hn url hurl
        obtain ⟨pages, hmem⟩ := followed_requested hpat n (branchesUrl owner repository) [] hn hurl
        obtain ⟨later, hlater, -⟩ := requests_afterRepository owner repository defaultBranch pages
        have hasked : authorizedGet authorization url ∈
            discoveryRequests env pages owner repository pat answers := by
          rw [hrequests, hlater]
          exact List.mem_cons_of_mem _ (List.mem_append_left _ hmem)
        exact h pages _ hasked
      · intro h pages request hrequest
        obtain ⟨later, hlater, hcommits⟩ := requests_afterRepository owner repository defaultBranch pages
        rw [hrequests, hlater] at hrequest
        rcases List.mem_cons.1 hrequest with rfl | hrequest
        · rfl
        · rcases List.mem_append.1 hrequest with hlisting | hrequest
          · exact listing_stays hpat pages [] rfl (h authorization rfl defaultBranch rfl) request hlisting
          · exact hcommits request hrequest

end GitHubBranches

def ObjectCall.request? : ObjectCall → Option Request
  | .fetch request _ => some request
  | _ => none

namespace ObjectHandlers
open MetadataRequest

def githubRequests (p : Handling) (choices : ℕ → Choice) (world : World) : List Request :=
  (p.calls (answerObject choices) (world, 0)).filterMap fun met => met.2.request?

def ToApi (call : ObjectCall) : Prop :=
  ∀ request, call.request? = some request → request.url.origin = Auth.githubOrigin

theorem githubRequests_toApi {p : Handling} (h : p.Asks (E := objectCalls) ToApi) (choices : ℕ → Choice)
    (world : World) : ∀ request ∈ githubRequests p choices world, request.url.origin = Auth.githubOrigin := by
  intro request hrequest
  obtain ⟨met, hmet, heq⟩ := List.mem_filterMap.1 hrequest
  exact h.calls _ _ met hmet request heq

theorem admits_toApi : Admits fun p => p.Asks (E := objectCalls) ToApi where
  threw _ := .done _
  refused _ := .done _
  decided _ := .done _
  unavailable _ := .done _
  reads _ _ h := .call (fun request hrequest => by cases hrequest) fun answer => h answer.1 answer.2
  writes _ _ _ h := .call (fun request hrequest => by cases hrequest) fun answer => h answer.1 answer.2
  asks path pat request hrequest _ h := by
    refine .call ?_ fun answer => h answer.1 answer.2
    rintro _ ⟨⟩
    exact githubRequest_origin hrequest

def codeloadOrigin : Str := "https://codeload.github.com".toList

def redirected (env : ObjectEnv) (answer : Except Str Fetched) : Option Url :=
  match answer with
  | .error _ => none
  | .ok archive =>
    if archive.ok && archive.body ≠ .absent && archive.hostname = codeload then none
    else archiveRedirect env archive

def archiveAlone (env : ObjectEnv) (owner repository commitSha pat : Str) : Handling :=
  githubArchive env owner repository commitSha pat fun _ => .done (.threw [])

theorem archive_requests {pat authorization : Str}
    (hpat : Headers.normalize (Auth.bearer ++ pat) = some authorization) (env : ObjectEnv)
    (owner repository commitSha : Str) (choices : ℕ → Choice) (world : World) :
    githubRequests (archiveAlone env owner repository commitSha pat) choices world =
      GitHubBranches.authorizedGet authorization (.parse Auth.githubOrigin (tarballPath owner repository commitSha)) ::
        (redirected env (choices 0).fetched).toList.map fun url => ⟨"GET".toList, url, [], []⟩ := by
  have hanswer : ∀ request : Request, (answerObject choices (world, 0) (.fetch request .manual : ObjectCall)).1 =
      ((choices 0).fetched, (choices 0).time) := fun request => rfl
  rw [archiveAlone, githubArchive, GitHubBranches.authGithubRequest_eq hpat]
  dsimp only [await]
  rw [githubRequests, Program.calls_call, List.filterMap_cons, hanswer]
  dsimp only [ObjectCall.request?]
  congr 1
  cases hfetched : (choices 0).fetched with
  | error message => rfl
  | ok archive =>
    dsimp only [redirected]
    split_ifs
    · rfl
    · cases archiveRedirect env archive with
      | none => rfl
      | some url =>
        dsimp only
        rw [Program.calls_call, List.filterMap_cons]
        dsimp only [ObjectCall.request?]
        congr 1
        cases ((answerObject choices _ (.fetch ⟨"GET".toList, url, [], []⟩ .manual : ObjectCall)).1).1 with
        | error message => rfl
        | ok source =>
          dsimp only
          split_ifs
          · rfl
          · rfl

theorem archive_requests_none {pat : Str} (hpat : Headers.normalize (Auth.bearer ++ pat) = none)
    (env : ObjectEnv) (owner repository commitSha : Str) (choices : ℕ → Choice) (world : World) :
    githubRequests (archiveAlone env owner repository commitSha pat) choices world = [] := by
  rw [archiveAlone, githubArchive, Auth.githubRequest, hpat]
  rfl

theorem archive_stays {pat authorization : Str}
    (hpat : Headers.normalize (Auth.bearer ++ pat) = some authorization) (env : ObjectEnv)
    (owner repository commitSha : Str) (choices : ℕ → Choice) (world : World) :
    (∀ request ∈ githubRequests (archiveAlone env owner repository commitSha pat) choices world,
        request.Credentialed ∧ request.url.origin = Auth.githubOrigin ∨
          ¬ request.Credentialed ∧ request.url.origin = codeloadOrigin) ↔
      ∀ url, redirected env (choices 0).fetched = some url → url.origin = codeloadOrigin := by
  rw [archive_requests hpat]
  constructor
  · intro h url hurl
    have hmem : (⟨"GET".toList, url, [], []⟩ : Request) ∈
        (redirected env (choices 0).fetched).toList.map fun url => ⟨"GET".toList, url, [], []⟩ :=
      List.mem_map_of_mem (Option.mem_toList.2 hurl)
    rcases h _ (List.mem_cons_of_mem _ hmem) with ⟨hcredential, -⟩ | ⟨-, horigin⟩
    · cases hcredential
    · exact horigin
  · intro h request hrequest
    rcases List.mem_cons.1 hrequest with rfl | hrequest
    · exact .inl ⟨rfl, rfl⟩
    · obtain ⟨url, hurl, rfl⟩ := List.mem_map.1 hrequest
      refine .inr ⟨?_, h url (Option.mem_toList.1 hurl)⟩
      intro hcredential
      cases hcredential

end ObjectHandlers

open ObjectHandlers GitHubBranches

/-- Authorization, discovery and the archive send the PAT to GitHub's API, and ask what
    the archive redirects to without it. -/
structure PatConfined (objects : ObjectEnv) (github : DiscoveryEnv) (owner repository commitSha pat : Str)
    (choices : ℕ → Choice) (answers : ℕ → Except Str Fetched) : Prop where
  admission : ∀ world, ∀ request ∈ githubRequests (check objects (some pat)) choices world,
    request.url.origin = Auth.githubOrigin
  authorization : ∀ fingerprint world,
    ∀ request ∈ githubRequests (authorize objects (some ⟨fingerprint, owner, repository, pat⟩)) choices world,
      request.url.origin = Auth.githubOrigin
  discovery : ∀ pages, ∀ request ∈ discoveryRequests github pages owner repository pat answers,
    request.url.origin = Auth.githubOrigin
  archive : ∀ world,
    ∀ request ∈ githubRequests (archiveAlone objects owner repository commitSha pat) choices world,
      request.Credentialed ∧ request.url.origin = Auth.githubOrigin ∨
        ¬ request.Credentialed ∧ request.url.origin = codeloadOrigin

/-- A PAT that a header can carry stays there exactly where the links of the branches lead
    back to the API and the archive's redirect keeps to the port of its scheme. -/
theorem patConfined_iff (objects : ObjectEnv) (github : DiscoveryEnv)
    (owner repository commitSha pat : Str) (choices : ℕ → Choice) (answers : ℕ → Except Str Fetched) :
    PatConfined objects github owner repository commitSha pat choices answers ↔
      ∀ authorization, Headers.normalize (Auth.bearer ++ pat) = some authorization →
        (∀ defaultBranch, defaultOf (answers 0) = .ok defaultBranch → LinksStay github answers 1) ∧
        ∀ url, redirected objects (choices 0).fetched = some url → url.origin = codeloadOrigin := by
  have hadmission := fun world => githubRequests_toApi (admits_toApi.of_check objects (some pat)) choices world
  have hauthorization := fun fingerprint world =>
    githubRequests_toApi (admits_toApi.of_authorize objects (some ⟨fingerprint, owner, repository, pat⟩))
      choices world
  constructor
  · intro h authorization hpat
    have hlinks := (discovery_stays owner repository).1 h.discovery authorization hpat
    have hredirect := (archive_stays hpat objects owner repository commitSha choices emptyWorld).1
      (h.archive emptyWorld)
    exact ⟨hlinks, hredirect⟩
  · intro h
    refine ⟨hadmission, hauthorization, (discovery_stays owner repository).2 fun authorization hpat =>
      (h authorization hpat).1, ?_⟩
    intro world
    cases hpat : Headers.normalize (Auth.bearer ++ pat) with
    | none =>
      rw [archive_requests_none hpat]
      exact fun request hrequest => absurd hrequest List.not_mem_nil
    | some authorization =>
      exact (archive_stays hpat objects owner repository commitSha choices world).2 (h authorization hpat).2

def strayEnv : DiscoveryEnv where
  parseUrl target :=
    if target = "https://example.com/page".toList then
      some ⟨"https:".toList, "example.com".toList, ⟨"https://example.com".toList, "/page".toList, []⟩⟩
    else none
  dateParse _ := none
  numberText := id

def strayAnswers : ℕ → Except Str Fetched
  | 0 => .ok ⟨200, [], .bytes (Utf8.encode "\x7b\"default_branch\":\"main\"\x7d".toList), "api.github.com".toList⟩
  | _ => .ok ⟨200, [("link".toList, "<https://example.com/page>; rel=\"next\"".toList)],
      .bytes (Utf8.encode "[]".toList), "api.github.com".toList⟩

/-- The PAT is sent to that host. -/
theorem stray_unconfined : ¬ PatConfined plainEnv strayEnv "acme".toList "widget".toList "a".toList
    "secret".toList (fun _ => plainChoice) strayAnswers := by
  intro h
  have hstray : ∃ request ∈ discoveryRequests strayEnv 2 "acme".toList "widget".toList "secret".toList strayAnswers,
      request.url.origin ≠ Auth.githubOrigin := by
    decide +kernel
  obtain ⟨request, hrequest, horigin⟩ := hstray
  exact horigin (h.discovery 2 request hrequest)

end JsrProxy
