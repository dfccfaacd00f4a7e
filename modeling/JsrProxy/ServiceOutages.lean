import JsrProxy.ConcurrentHandlers
import JsrProxy.GitHubBranches
import JsrProxy.LoadableSnapshots

set_option autoImplicit false

/-!
# Outages

What a request for a package's metadata is answered while GitHub, the Container or the
bucket is unavailable. Ready versions are only served as long as nothing has to be asked.
-/
namespace JsrProxy
open Branches Program

/-- No answer, an error of the server's, or a limit on the rate. -/
def Unavailable (answer : Except Str Fetched) : Prop :=
  ∀ response, answer = .ok response →
    (500 ≤ response.status ∧ response.status < 600) ∨ response.status = 403 ∨ response.status = 429

theorem Unavailable.not_ok {response : Fetched} (h : Unavailable (.ok response)) :
    response.ok = false := by
  have hstatus := h response rfl
  rw [Fetched.ok, Response.isOk]
  simp only [Bool.and_eq_false_iff, decide_eq_false_iff_not]
  omega

namespace GitHubBranches

def UnavailableAnswer (_ : githubCalls.Op) (answer : Except Str Fetched) : Prop := Unavailable answer

theorem fetchJson_decided (request : Except Str Request) :
    (fetchJson request).Decided UnavailableAnswer Failed := by
  cases request with
  | error message => exact .done _
  | ok request =>
    refine .call ?_ ?_
    · intro answer hbad
      cases answer with
      | error message => exact .done ⟨_, rfl⟩
      | ok response =>
        have hok : response.ok = false := Unavailable.not_ok hbad
        change Always Failed (if !response.ok then _ else _)
        rw [hok]
        exact .done ⟨_, rfl⟩
    · intro answer
      cases answer with
      | error message => exact .done _
      | ok response =>
        change Decided UnavailableAnswer Failed (if !response.ok then _ else _)
        split_ifs
        · exact .done _
        · exact .done _

theorem listBranches_decided (env : DiscoveryEnv) (pat : Str) (pages : ℕ) (url : Except Str Url)
    (branches : List ListedBranch) :
    (listBranches env pat pages url branches).Decided UnavailableAnswer Failed := by
  induction pages generalizing url branches with
  | zero => exact .done _
  | succ pages ih =>
    rw [listBranches]
    apply (fetchJson_decided _).andThen
    rintro ⟨response, page⟩
    dsimp only
    cases readPage page with
    | error message => exact .done _
    | ok listed =>
      dsimp only
      cases linkTarget (response.headers.get "link".toList) "next".toList with
      | none => exact .done _
      | some next => exact ih _ _

theorem askTimestamps_keeps (env : DiscoveryEnv) (owner repository pat : Str)
    (timestamps : Timestamps) (branches : List ListedBranch) {sha : JsString}
    {timestamp : Except DiscoveryError ℤ} (h : timestamps.get? sha = some timestamp) :
    (askTimestamps env owner repository pat timestamps branches).Always
      fun result => result.get? sha = some timestamp := by
  induction branches generalizing timestamps with
  | nil => exact .done h
  | cons branch rest ih =>
    rw [askTimestamps]
    split_ifs with hknown
    · exact ih timestamps h
    · apply (always_true _).bind
      intro asked _
      apply ih
      have hne : sha ≠ branch.sha := by
        rintro rfl
        rw [OrderedMap.has, h] at hknown
        exact hknown rfl
      rw [OrderedMap.get?_set_of_ne _ _ hne]
      exact h

def SomeFailed (branches : List ListedBranch) (timestamps : Timestamps) : Prop :=
  ∃ branch ∈ branches, ∃ error, timestamps.get? branch.sha = some (.error error)

theorem askTimestamps_decided (env : DiscoveryEnv) (owner repository pat : Str)
    (timestamps : Timestamps) (branches : List ListedBranch) :
    (askTimestamps env owner repository pat timestamps branches).Decided UnavailableAnswer
      (SomeFailed branches) := by
  induction branches generalizing timestamps with
  | nil => exact .done _
  | cons branch rest ih =>
    have hrest : ∀ t : Timestamps, (askTimestamps env owner repository pat t rest).Decided
        UnavailableAnswer (SomeFailed (branch :: rest)) := by
      intro t
      apply (ih t).mono
      rintro result ⟨failed, hm, hfailed⟩
      exact ⟨failed, List.mem_cons_of_mem _ hm, hfailed⟩
    rw [askTimestamps]
    split_ifs
    · exact hrest timestamps
    · have hasked : (askTimestamp env owner repository pat branch.sha).Decided UnavailableAnswer Failed := by
        cases branch.sha with
        | text sha => exact (fetchJson_decided _).andThen fun _ => .done _
        | unpaired points lone => exact .done _
      apply hasked.bind
      · rintro result ⟨error, rfl⟩
        have hset : (timestamps.set branch.sha (.error error)).get? branch.sha
            = some (.error error) := by
          rw [OrderedMap.get?_set, if_pos rfl]
        apply (askTimestamps_keeps env owner repository pat _ rest hset).mono
        intro result hget
        exact ⟨branch, List.mem_cons_self, error, hget⟩
      · exact fun timestamp => hrest _

theorem tipsOf_failed {timestamps : Timestamps} {branches : List ListedBranch}
    (h : SomeFailed branches timestamps) (tips : OrderedMap Str CommitTip) :
    Failed (tipsOf timestamps tips branches) := by
  induction branches generalizing tips with
  | nil =>
    obtain ⟨branch, hm, -⟩ := h
    cases hm
  | cons branch rest ih =>
    rw [tipsOf]
    cases hget : timestamps.get? branch.sha with
    | none => exact ⟨_, rfl⟩
    | some timestamp =>
      cases timestamp with
      | error error => exact ⟨_, rfl⟩
      | ok time =>
        apply ih
        obtain ⟨failed, hm, error, hfailed⟩ := h
        rcases List.mem_cons.1 hm with rfl | hm
        · rw [hget] at hfailed
          cases hfailed
        · exact ⟨failed, hm, error, hfailed⟩

theorem readTips_decided (env : DiscoveryEnv) (owner repository pat : Str) (defaultBranch : JsString)
    (branches : List ListedBranch) :
    (readTips env owner repository pat defaultBranch branches).Decided UnavailableAnswer Failed := by
  unfold readTips
  dsimp only
  split_ifs
  · exact .done _
  · apply (askTimestamps_decided env owner repository pat _ _).bind
    · intro timestamps hfailed
      obtain ⟨error, herror⟩ := tipsOf_failed hfailed .empty
      rw [herror]
      exact .done ⟨error, rfl⟩
    · exact fun timestamps => .done _

/-- A discovery one of whose requests is not served fails. -/
theorem discoverGitHubBranches_decided (env : DiscoveryEnv) (pages : ℕ) (owner repository pat : Str) :
    (discoverGitHubBranches env pages owner repository pat).Decided UnavailableAnswer Failed := by
  apply (fetchJson_decided _).andThen
  rintro ⟨response, metadata⟩
  dsimp only
  cases Worker.property metadata "default_branch" with
  | error message => exact .done _
  | ok found =>
    dsimp only
    split
    · exact .done _
    · exact .done _
    · exact (listBranches_decided env pat pages _ _).andThen fun branches =>
        readTips_decided env owner repository pat _ branches

end GitHubBranches

def Reply.Refused {α : Type} (reply : Reply α) : Prop :=
  match reply with
  | .json status _ => Response.isOk status = false
  | .text status _ _ => Response.isOk status = false
  | .threw _ => True

namespace ObjectHandlers
open PackageObject

def UnavailableAnswer : (call : objectCalls.Op) → objectCalls.Ret call → Prop
  | .fetch _ _, answer => Unavailable answer.1
  | .container _ _, answer => ∀ response, answer.1 = .ok response → response.ok = false
  | .bucket _, answer => ∃ message, answer.1 = .error message
  | _, _ => False

abbrev Refuses (p : Handling) : Prop := p.Always Reply.Refused

abbrev Stops (p : Handling) : Prop := p.Decided UnavailableAnswer Reply.Refused

theorem refuses_orThrow {α : Type} {answer : Except Str α} {next : α → Handling}
    (h : ∀ result, Refuses (next result)) : Refuses (orThrow answer next) := by
  cases answer with
  | error message => exact .done trivial
  | ok result => exact h result

theorem refuses_readRegistry {initialName : Option PackageName} {next : PackageRegistry → ℤ → Handling}
    (h : ∀ registry now, Refuses (next registry now)) : Refuses (readRegistry initialName next) :=
  .call fun _ => refuses_orThrow fun _ => refuses_orThrow fun _ => h _ _

theorem refuses_saveRegistry {registry : PackageRegistry} {next : Except Str Unit → Handling}
    (h : ∀ saved, Refuses (next saved)) : Refuses (saveRegistry registry next) :=
  .call fun _ => h _

theorem refuses_releaseLease (version : Str) : Refuses (releaseLease version) := by
  apply refuses_readRegistry
  intro registry now
  cases registry.releaseLease version with
  | mk result released =>
    cases result with
    | error message => exact .done rfl
    | ok _ => exact refuses_saveRegistry fun _ => refuses_orThrow fun _ => .done rfl

theorem stops_orThrow {α : Type} {answer : Except Str α} {next : α → Handling}
    (h : ∀ result, Stops (next result)) : Stops (orThrow answer next) := by
  cases answer with
  | error message => exact .done _
  | ok result => exact h result

theorem stops_readRegistry {initialName : Option PackageName} {next : PackageRegistry → ℤ → Handling}
    (h : ∀ registry now, Stops (next registry now)) : Stops (readRegistry initialName next) :=
  .call (fun _ hbad => absurd hbad id) fun _ => stops_orThrow fun _ => stops_orThrow fun _ => h _ _

theorem stops_saveRegistry {registry : PackageRegistry} {next : Except Str Unit → Handling}
    (h : ∀ saved, Stops (next saved)) : Stops (saveRegistry registry next) :=
  .call (fun _ hbad => absurd hbad id) fun _ => h _

theorem stops_finish (version : Str) (outcome : Outcome) : Stops (finish version outcome) := by
  apply stops_readRegistry
  intro registry now
  cases settled registry version outcome with
  | mk result completed =>
    cases result with
    | error message => exact .done _
    | ok _ => exact stops_saveRegistry fun _ => stops_orThrow fun _ => .done _

def Unpublished (result : Except Str Response) : Prop :=
  ∀ response, result = .ok response → response.ok = false

theorem unpublished_error (message : Str) : Unpublished (.error message) := by
  intro response h
  cases h

def BucketFails (_ : r2Calls.Op) (answer : Except Str (Option R2StoredObject)) : Prop :=
  ∃ message, answer = .error message

theorem refuses_publishing {α : Type} {P : α → Prop} {p : Program r2Calls α} (h : p.Always P)
    {next : α → Handling} (hnext : ∀ result, P result → Refuses (next result)) :
    Refuses (publishing p next) := by
  induction h with
  | done h => exact hnext _ h
  | call _ ih => exact .call fun answer => ih _

theorem stops_publishing {α : Type} {P : α → Prop} {p : Program r2Calls α}
    (h : p.Decided BucketFails P) {next : α → Handling}
    (hbad : ∀ result, P result → Refuses (next result)) (hnext : ∀ result, Stops (next result)) :
    Stops (publishing p next) := by
  induction h with
  | done a => exact hnext a
  | call hdecides _ ih =>
    refine .call ?_ fun answer => ih _
    intro answer hfails
    exact refuses_publishing (hdecides _ hfails) hbad

end ObjectHandlers

namespace R2Publication
open ObjectHandlers

theorem putArtifact_decided (key : Str) (bytes : Bytes) (expected : Str) :
    (putArtifact key bytes expected).Decided BucketFails Unpublished := by
  refine .call ?_ ?_
  · rintro answer ⟨message, rfl⟩
    exact .done (unpublished_error message)
  · intro answer
    cases answer with
    | error message => exact .done _
    | ok written =>
      cases written with
      | some object => exact .done _
      | none =>
        refine .call ?_ ?_
        · rintro answer ⟨message, rfl⟩
          exact .done (unpublished_error message)
        · intro answer
          cases answer with
          | error message => exact .done _
          | ok existing =>
            dsimp only
            split_ifs
            · exact .done _
            · exact .done _

theorem publishArtifact_decided (request : Request) :
    (publishArtifact request).Decided BucketFails Unpublished := by
  unfold publishArtifact
  split_ifs
  · exact .done _
  · split
    · exact .done _
    · split
      · exact .done _
      · split_ifs
        · exact .done _
        · exact .done _
        · exact putArtifact_decided _ _ _

theorem publishUploads_decided (uploads : List Json) :
    (publishUploads uploads).Decided BucketFails Unpublished := by
  induction uploads with
  | nil => exact .done _
  | cons upload rest ih =>
    rw [publishUploads]
    split
    · exact .done _
    · exact .done _
    · split
      · exact .done _
      · split
        · exact .done _
        · apply (publishArtifact_decided _).bind
          · intro result hfailed
            cases result with
            | error message => exact .done (unpublished_error message)
            | ok response =>
              have hok := hfailed response rfl
              dsimp only
              rw [if_neg (by rw [hok]; exact Bool.false_ne_true)]
              exact .done hfailed
          · intro result
            cases result with
            | error message => exact .done _
            | ok response =>
              dsimp only
              split_ifs
              · exact ih
              · exact .done _

theorem publishArtifactBatch_decided (request : Request) :
    (publishArtifactBatch request).Decided BucketFails Unpublished := by
  unfold publishArtifactBatch
  split_ifs
  · exact .done _
  · split
    · exact publishUploads_decided _
    · exact .done _

end R2Publication

namespace ObjectHandlers
open PackageObject

theorem refuses_received (version : Str) {response : Fetched} (h : response.ok = false) :
    Refuses (received version response) := by
  rw [received, if_pos (by rw [h]; rfl)]
  split
  · exact .done trivial
  · exact refuses_releaseLease version

theorem stops_received (version : Str) (response : Fetched) : Stops (received version response) := by
  unfold received
  split_ifs
  · split
    · exact .done _
    · exact (refuses_releaseLease version).decided
  · split
    · exact (refuses_releaseLease version).decided
    · apply stops_publishing (R2Publication.publishArtifactBatch_decided _)
      · intro result hfailed
        cases result with
        | error message => exact .done trivial
        | ok publication =>
          have hok := hfailed publication rfl
          change Refuses (if !publication.ok then _ else _)
          rw [hok]
          exact refuses_releaseLease version
      · intro result
        apply stops_orThrow
        intro publication
        split_ifs
        · exact (refuses_releaseLease version).decided
        · exact stops_finish version _

theorem unavailable_noRedirect (env : ObjectEnv) {archive : Fetched} (h : Unavailable (.ok archive)) :
    archiveRedirect env archive = none := by
  have hprefix : ∀ status < 600, 403 ≤ status →
      "30".toList.isPrefixOf (Nat.toDigits 10 status) = false := by
    decide +kernel
  have hstatus := h archive rfl
  rw [archiveRedirect, hprefix archive.status (by omega) (by omega)]
  rfl

theorem stops_githubArchive {env : ObjectEnv} {owner repository commitSha pat : Str}
    {next : Except Str (Option Body) → Handling} (hfailed : ∀ message, Refuses (next (.error message)))
    (hnone : Refuses (next (.ok none))) (hnext : ∀ archive, Stops (next archive)) :
    Stops (githubArchive env owner repository commitSha pat next) := by
  unfold githubArchive
  cases Auth.githubRequest (tarballPath owner repository commitSha) pat with
  | error message => exact hnext _
  | ok request =>
    refine .call ?_ ?_
    · rintro ⟨archive, now⟩ hbad
      cases archive with
      | error message => exact hfailed message
      | ok archive =>
        have hok : archive.ok = false := Unavailable.not_ok hbad
        dsimp only
        rw [hok, unavailable_noRedirect env hbad]
        exact hnone
    · rintro ⟨archive, now⟩
      cases archive with
      | error message => exact hnext _
      | ok archive =>
        dsimp only
        split_ifs
        · exact hnext _
        · cases archiveRedirect env archive with
          | none => exact hnext _
          | some url =>
            refine .call ?_ ?_
            · rintro ⟨source, now⟩ hbad
              cases source with
              | error message => exact hfailed message
              | ok source =>
                have hok : source.ok = false := Unavailable.not_ok hbad
                dsimp only
                rw [hok]
                exact hnone
            · rintro ⟨source, now⟩
              cases source with
              | error message => exact hnext _
              | ok source =>
                dsimp only
                split_ifs
                · exact hnext _
                · exact hnext _

theorem stops_materializeJob (env : ObjectEnv) (name : PackageName) (job : MaterializationJob)
    (body : MaterializeBody) : Stops (materializeJob env name job body) := by
  have hreleased := refuses_releaseLease job.version
  apply stops_githubArchive
  · exact fun _ => hreleased
  · exact hreleased
  · intro archive
    split
    · exact hreleased.decided
    · exact hreleased.decided
    · split
      · exact hreleased.decided
      · refine .call ?_ ?_
        · rintro ⟨response, now⟩ hbad
          cases response with
          | error message => exact hreleased
          | ok response => exact refuses_received job.version (hbad response rfl)
        · rintro ⟨response, now⟩
          cases response with
          | error message => exact hreleased.decided
          | ok response => exact stops_received job.version response

/-- A materialization during which a service is unavailable is refused. -/
theorem stops_materialize (env : ObjectEnv) (body : Option MaterializeBody) :
    Stops (materialize env body) := by
  cases body with
  | none => exact .done _
  | some body =>
    unfold materialize
    dsimp only
    split_ifs
    · exact .done _
    · exact .done _
    · apply stops_readRegistry
      intro registry now
      split
      · exact .done _
      · exact stops_saveRegistry fun _ => stops_orThrow fun _ => stops_materializeJob env _ _ body

end ObjectHandlers

namespace MetadataRequest
open PackageObject PackageRegistry

structure Authorized where
  identity : PackageName
  owner : Str
  repository : Str
  pat : Str
  origin : Str

/-- Everything outside of the Worker and the object. GitHub's answers to the discovery may
    depend on all that was asked before. -/
structure Services where
  discovery : DiscoveryEnv
  object : ObjectEnv
  pages : ℕ
  github : List (Exchange githubCalls) → (request : githubCalls.Op) → githubCalls.Ret request
  choices : ℕ → Choice

def objectRequest : PackageCall → ObjectRequest
  | .refresh package defaultBranch branches => .refresh (some ⟨package, defaultBranch, branches⟩)
  | .materialize owner repository pat statusUrl =>
    .materialize (some ⟨owner, repository, pat, statusUrl⟩)

def packageAnswer : ObjectBody → PackageAnswer
  | .refreshed report _ => ⟨some report.packageMeta, some report.jobs⟩
  | .report report => ⟨some report.packageMeta, some report.jobs⟩
  | _ => ⟨none, none⟩

def answerObject (choices : ℕ → Choice) (state : World × ℕ) (call : objectCalls.Op) :
    objectCalls.Ret call × (World × ℕ) :=
  ((state.1.answer (choices state.2) call).1,
    ((state.1.answer (choices state.2) call).2, state.2 + 1))

/-- The object at work on the requests of the Worker. -/
def askObject (services : Services) (state : World × ℕ) (call : packageCalls.Op) :
    packageCalls.Ret call × (World × ℕ) :=
  let (reply, after) := Program.run (answerObject services.choices)
    (ObjectHandlers.handle services.object (objectRequest call)) state
  (reply.map packageAnswer, after)

def discovering (services : Services) (get : Authorized) :
    GitHubBranches.Discovering BranchDiscovery :=
  GitHubBranches.discoverGitHubBranches services.discovery services.pages get.owner get.repository get.pat

def discoveryOf (services : Services) (get : Authorized) : Discovery :=
  GitHubBranches.discovered services.discovery
    (Program.run (recording services.github) (discovering services get) []).1

def asking (services : Services) (get : Authorized) : Program packageCalls (Except Str Response) :=
  refreshPackageMetadata get.identity get.owner get.repository get.pat get.origin
    (discoveryOf services get)

def answered (services : Services) (get : Authorized) (world : World) : Except Str Response :=
  (Program.run (askObject services) (asking services get) (world, 0)).1

/-- A request of the discovery is not served. -/
def DiscoveryOutage (services : Services) (get : Authorized) : Prop :=
  ∃ e ∈ Program.exchanges (recording services.github) (discovering services get) [],
    Unavailable e.answer

/-- Every materialization that is asked for meets a service that is unavailable. -/
def MaterializationOutage (services : Services) (get : Authorized) (world : World) : Prop :=
  ∀ state owner repository pat statusUrl,
    (state, PackageCall.materialize owner repository pat statusUrl)
      ∈ (asking services get).calls (askObject services) (world, 0) →
    ∃ e ∈ Program.exchanges (answerObject services.choices)
        (ObjectHandlers.materialize services.object (some ⟨owner, repository, pat, statusUrl⟩)) state,
      ObjectHandlers.UnavailableAnswer e.op e.answer

/-- The answer lists every version that was ready or yanked. -/
def Serves (stored : Stored) (result : Except Str Response) : Prop :=
  ∃ response packageMeta, result = .ok response ∧ response.status = 200 ∧
    response.body = Utf8.encode (PackageMeta.json packageMeta).write ∧
    ∀ record ∈ records stored, record.state.published = true →
      (record.version, decide (record.state = .yanked)) ∈ packageMeta.versions

def Accepts (stored : Stored) (identity : PackageName) (discovery : BranchDiscovery) : Prop :=
  ∃ loaded selection,
    parseDiscovery discovery.defaultBranch discovery.branches.entries = some discovery ∧
    registry stored (some identity) = .ok loaded ∧
    selectBranches discovery loaded.branches = .ok selection ∧
    ∀ b ∈ selection.branches, validateInputs b.major b.tip.sha b.tip.committedAt = .ok ()

theorem not_found_of_outage {services : Services} {get : Authorized}
    (h : DiscoveryOutage services get) (discovery : BranchDiscovery) :
    discoveryOf services get ≠ .found discovery := by
  obtain ⟨error, herror⟩ := (GitHubBranches.discoverGitHubBranches_decided services.discovery
    services.pages get.owner get.repository get.pat).run (recording services.github) h
  intro hfound
  rw [discoveryOf, discovering, herror] at hfound
  cases error with
  | refused response => cases hfound
  | thrown message => cases hfound
  | unfinished => cases hfound

theorem run_refresh {choices : ℕ → Choice} (hstorage : ∀ n, (choices n).fault = none) (world : World)
    (n : ℕ) (package : PackageName) (defaultBranch : Str) (branches : List (Str × CommitTip)) :
    ∃ after : World × ℕ, Program.run (answerObject choices)
        (ObjectHandlers.refresh (some ⟨package, defaultBranch, branches⟩)) (world, n)
      = ((PackageObject.refresh world.row package defaultBranch branches).1.map fun body =>
          ObjectBody.refreshed body.1 body.2, after) ∧
      after.1.row = (PackageObject.refresh world.row package defaultBranch branches).2 := by
  unfold ObjectHandlers.refresh PackageObject.refresh
  dsimp only
  cases parseDiscovery defaultBranch branches with
  | none => exact ⟨_, rfl, rfl⟩
  | some discovery =>
    dsimp only
    unfold ObjectHandlers.readRegistry ObjectHandlers.await
    simp only [Program.run_call, answerObject, World.answer, World.perform, hstorage,
      ObjectHandlers.orThrow]
    cases registry world.row (some package) with
    | error message => exact ⟨_, rfl, rfl⟩
    | ok loaded =>
      dsimp only
      cases loaded.refresh discovery with
      | mk result refreshed =>
        cases result with
        | error message => exact ⟨_, rfl, rfl⟩
        | ok created =>
          dsimp only
          unfold ObjectHandlers.saveRegistry ObjectHandlers.await
          simp only [Program.run_call, answerObject, World.answer, World.perform, hstorage]
          exact ⟨_, rfl, rfl⟩

theorem not_serves {stored : Stored} {result : Except Str Response}
    (h : ∀ response, result = .ok response → response.status ≠ 200) : ¬ Serves stored result := by
  rintro ⟨response, packageMeta, hresult, hstatus, -⟩
  exact h response hresult hstatus

theorem run_materializePending_refused {services : Services} {state : World × ℕ}
    (identity : PackageName) {owner repository pat origin : Str}
    (h : (Program.run (answerObject services.choices)
      (ObjectHandlers.materialize services.object (some ⟨owner, repository, pat,
        origin ++ "/-/status/@".toList ++ identity.scope ++ '/' :: identity.name⟩)) state).1.Refused) :
    ∀ response, (Program.run (askObject services)
      (materializePending identity owner repository pat origin) state).1 = .ok response →
      response.status ≠ 200 := by
  intro response hresponse
  unfold materializePending at hresponse
  rw [Program.run_call] at hresponse
  have hask : (askObject services state (.materialize owner repository pat
      (origin ++ "/-/status/@".toList ++ identity.scope ++ '/' :: identity.name))).1
      = (Program.run (answerObject services.choices) (ObjectHandlers.materialize services.object
          (some ⟨owner, repository, pat,
            origin ++ "/-/status/@".toList ++ identity.scope ++ '/' :: identity.name⟩)) state).1.map
        packageAnswer := rfl
  rw [hask] at hresponse
  revert h hresponse
  cases (Program.run (answerObject services.choices) (ObjectHandlers.materialize services.object
      (some ⟨owner, repository, pat,
        origin ++ "/-/status/@".toList ++ identity.scope ++ '/' :: identity.name⟩)) state).1 with
  | json status body | text status message retryAfter =>
    intro hrefused hresponse
    have hok : Response.isOk status = false := hrefused
    simp only [Reply.map, Reply.received, hok, Bool.false_eq_true, if_false, Program.run_done,
      Except.ok.injEq] at hresponse
    rw [← hresponse]
    intro hstatus
    cases hstatus
  | threw message =>
    intro _ hresponse
    cases hresponse

theorem serves_answer {stored : Stored} {registry : PackageRegistry}
    (hkept : ∀ record ∈ records stored, record ∈ records (saveRegistry registry))
    (hready : ∃ record ∈ records stored, record.state.published = true) :
    Serves stored (.ok (answer registry.packageMeta registry.jobs)) := by
  have hlisted : ∀ record ∈ records stored, record.state.published = true →
      (record.version, decide (record.state = .yanked)) ∈ registry.packageMeta.versions := by
    intro record hrecord hpublished
    exact List.mem_map.2 ⟨record, List.mem_filter.2 ⟨hkept record hrecord, hpublished⟩, rfl⟩
  obtain ⟨record, hrecord, hpublished⟩ := hready
  have hsome : registry.packageMeta.versions.length ≠ 0 := by
    intro hzero
    have hmem := hlisted record hrecord hpublished
    rw [List.length_eq_zero_iff.1 hzero] at hmem
    cases hmem
  have hanswer : answer registry.packageMeta registry.jobs
      = .json 200 registry.packageMeta.json
          [("cache-control".toList, "public, max-age=60".toList)] := by
    rw [answer, decide_eq_false hsome]
    rfl
  rw [hanswer]
  exact ⟨_, registry.packageMeta, rfl, rfl, rfl, hlisted⟩

section

variable {services : Services} {get : Authorized} {world : World} {stored : Stored}

theorem not_serves_undiscovered (h : ∀ discovery, discoveryOf services get ≠ .found discovery) :
    ¬ Serves stored (answered services get world) := by
  apply not_serves
  intro response hresponse
  rw [answered, asking] at hresponse
  cases hdiscovery : discoveryOf services get with
  | refused status retryAfterSeconds =>
    rw [hdiscovery, refreshPackageMetadata] at hresponse
    split_ifs at hresponse
    · rw [← Except.ok.inj hresponse]
      decide
    · rw [← Except.ok.inj hresponse]
      intro hstatus
      cases hstatus
  | failed =>
    rw [hdiscovery] at hresponse
    rw [← Except.ok.inj hresponse]
    decide
  | found discovery => exact absurd hdiscovery (h discovery)

theorem askObject_refresh (hstorage : ∀ n, (services.choices n).fault = none) (identity : PackageName)
    (discovery : BranchDiscovery) : ∃ after, askObject services (world, 0)
        (.refresh identity discovery.defaultBranch discovery.branches.entries) =
      (((PackageObject.refresh world.row identity discovery.defaultBranch discovery.branches.entries).1.map
        fun body => ObjectBody.refreshed body.1 body.2).map packageAnswer, after) := by
  obtain ⟨after, hrun, -⟩ := run_refresh hstorage world 0 identity discovery.defaultBranch
    discovery.branches.entries
  refine ⟨after, ?_⟩
  change (_, _) = _
  rw [show Program.run (answerObject services.choices) (ObjectHandlers.handle services.object
    (objectRequest (.refresh identity discovery.defaultBranch discovery.branches.entries)))
      (world, 0) = _ from hrun]

variable {discovery : BranchDiscovery} {after : World × ℕ} {refreshed : PackageRegistry}
  {created : List MaterializationJob}

theorem not_serves_refused {reply : Reply (PackageReport × List MaterializationJob)}
    (hdiscovery : discoveryOf services get = .found discovery)
    (hasked : askObject services (world, 0)
        (.refresh get.identity discovery.defaultBranch discovery.branches.entries) =
      ((reply.map fun body => ObjectBody.refreshed body.1 body.2).map packageAnswer, after))
    (hfails : ∀ status body, reply ≠ .json status body) :
    ¬ Serves stored (answered services get world) := by
  apply not_serves
  intro response hresponse
  rw [answered, asking, hdiscovery, refreshPackageMetadata, Program.run_call, hasked] at hresponse
  cases reply with
  | json status body => exact absurd rfl (hfails status body)
  | text status message retryAfter =>
    simp only [Reply.map, Reply.received] at hresponse
    cases hok : Response.isOk status with
    | true =>
      rw [hok] at hresponse
      cases hresponse
    | false =>
      simp only [hok, Bool.false_eq_true, if_false, Program.run_done, Except.ok.injEq] at hresponse
      rw [← hresponse]
      intro hstatus
      cases hstatus
  | threw message => cases hresponse

theorem not_serves_waiting (hout : MaterializationOutage services get world)
    (hdiscovery : discoveryOf services get = .found discovery)
    (hasked : askObject services (world, 0)
        (.refresh get.identity discovery.defaultBranch discovery.branches.entries) =
      (Reply.json 200 (packageAnswer (.refreshed (report refreshed) created)), after))
    (hjobs : (refreshed.jobs.any fun job => job.state = .pending) = true) :
    ¬ Serves stored (answered services get world) := by
  have hjson : Response.isOk 200 = true := rfl
  apply not_serves
  have hcall : (after, PackageCall.materialize get.owner get.repository get.pat
      (get.origin ++ "/-/status/@".toList ++ get.identity.scope ++ '/' :: get.identity.name))
      ∈ (asking services get).calls (askObject services) (world, 0) := by
    rw [asking, hdiscovery, refreshPackageMetadata, Program.calls_call, hasked]
    apply List.mem_cons_of_mem
    simp only [packageAnswer, report, Reply.received, hjson, hjobs, if_true]
    rw [calls_materializePending]
    exact List.mem_singleton_self _
  have hrefuses := (ObjectHandlers.stops_materialize services.object _).run
    (answerObject services.choices) (hout _ _ _ _ _ hcall)
  rw [answered, asking, hdiscovery, refreshPackageMetadata, Program.run_call, hasked]
  simp only [packageAnswer, report, Reply.received, hjson, hjobs, if_true]
  exact run_materializePending_refused get.identity hrefuses

theorem serves_idle (hdiscovery : discoveryOf services get = .found discovery)
    (hasked : askObject services (world, 0)
        (.refresh get.identity discovery.defaultBranch discovery.branches.entries) =
      (Reply.json 200 (packageAnswer (.refreshed (report refreshed) created)), after))
    (hjobs : (refreshed.jobs.any fun job => job.state = .pending) = false)
    (hkept : ∀ record ∈ records stored, record ∈ records (saveRegistry refreshed))
    (hready : ∃ record ∈ records stored, record.state.published = true) :
    Serves stored (answered services get world) := by
  have hjson : Response.isOk 200 = true := rfl
  rw [answered, asking, hdiscovery, refreshPackageMetadata, Program.run_call, hasked]
  simp only [packageAnswer, report, Reply.received, hjson, hjobs, if_true, Bool.false_eq_true, if_false]
  exact serves_answer hkept hready

end

/-- During an outage the versions are served exactly when the discovery works, the registry
    takes it, and nothing waits for a materialization. -/
theorem serves_iff (services : Services) (hstorage : ∀ n, (services.choices n).fault = none)
    (get : Authorized) (requests : List PackageRequest) (world : World)
    (hrow : world.row = Executions.run PackageObject.handle none requests)
    (hready : ∃ record ∈ records world.row, record.state.published = true)
    (houtage : DiscoveryOutage services get ∨ MaterializationOutage services get world) :
    Serves world.row (answered services get world) ↔
      ∃ discovery, discoveryOf services get = .found discovery ∧
        Accepts world.row get.identity discovery ∧ ¬ HasPending world.row ∧
        ¬ BringsNew world.row get.identity discovery := by
  have hsound : Sound world.row := by
    rw [hrow]
    exact (run_reached requests).sound
  by_cases hundiscovered : ∀ discovery, discoveryOf services get ≠ .found discovery
  · constructor
    · intro hserves
      exact absurd hserves (not_serves_undiscovered hundiscovered)
    · rintro ⟨discovery, hfound, -⟩
      exact absurd hfound (hundiscovered discovery)
  obtain ⟨discovery, hdiscovery⟩ := not_forall_not.1 hundiscovered
  have hmaterialization : MaterializationOutage services get world :=
    houtage.resolve_left fun hout => not_found_of_outage hout discovery hdiscovery
  obtain ⟨after, hasked⟩ := askObject_refresh hstorage get.identity discovery
  rcases refresh_cases world.row get.identity discovery.defaultBranch discovery.branches.entries
    hsound with ⟨parsed, loaded, selection, hparse, hr, hs, hv, created, he⟩ | ⟨hrefused, -, hfails⟩
  · obtain rfl := parseDiscovery_eq hparse
    have hloaded := registry_loaded hsound hr
    have hpending := hasPending_refreshBranches hloaded selection.state hv
    have hkept := records_refresh hsound get.identity parsed.defaultBranch parsed.branches.entries
    rw [he] at hasked hkept
    rw [← bringsNew_iff hr hs] at hpending
    generalize (({ loaded with branches := selection.state } : PackageRegistry).refreshBranches []
      selection.branches).2 = refreshed at hasked hkept hpending
    cases hjobs : refreshed.jobs.any fun job => job.state = .pending with
    | true =>
      have hwaits : HasPending (saveRegistry refreshed) := any_pending_iff.1 hjobs
      constructor
      · intro hserves
        exact absurd hserves (not_serves_waiting hmaterialization hdiscovery hasked hjobs)
      · rintro ⟨discovery, hfound, -, hnone, hknown⟩
        obtain rfl := Discovery.found.inj (hdiscovery.symm.trans hfound)
        exact absurd (hpending.1 hwaits) (not_or.2 ⟨hnone, hknown⟩)
    | false =>
      have hidle : ¬ HasPending (saveRegistry refreshed) := by
        rw [← any_pending_iff]
        exact ne_true_of_eq_false hjobs
      rw [hpending, not_or] at hidle
      constructor
      · intro _
        exact ⟨parsed, hdiscovery, ⟨loaded, selection, hparse, hr, hs, hv⟩, hidle⟩
      · intro _
        exact serves_idle hdiscovery hasked hjobs hkept hready
  · constructor
    · intro hserves
      exact absurd hserves (not_serves_refused hdiscovery hasked hfails)
    · rintro ⟨discovery', hfound, ⟨loaded, selection, hparse, hr, hs, hv⟩, -⟩
      obtain rfl := Discovery.found.inj (hdiscovery.symm.trans hfound)
      obtain ⟨b, hb, hinvalid⟩ := hrefused discovery loaded selection hparse hr hs
      exact absurd (hv b hb) hinvalid

def githubDown : Services where
  discovery := ⟨fun _ => none, fun _ => none, id⟩
  object := plainEnv
  pages := 1
  github := fun _ _ => .ok ⟨503, [], .absent, "api.github.com".toList⟩
  choices := fun _ => plainChoice

def widgetGet : Authorized :=
  ⟨⟨"acme".toList, "widget".toList⟩, "acme".toList, "widget".toList, "pat".toList,
    "https://jsr.example".toList⟩

def readyRequests : List PackageRequest :=
  [.refresh ⟨"acme".toList, "widget".toList⟩ "main".toList [("main".toList, ⟨"a".toList, 7⟩)],
    .lease 0, .complete "0.1.7".toList .ready]

def readyWorld : World :=
  { emptyWorld with row := Executions.run PackageObject.handle none readyRequests }

theorem readyWorld_published :
    ∃ record ∈ records readyWorld.row, record.state.published = true := by
  decide +kernel

theorem githubDown_outage : DiscoveryOutage githubDown widgetGet :=
  ⟨_, List.mem_cons_self, fun _ h => .inl (by rw [← Except.ok.inj h]; decide)⟩

theorem serves_iff_githubDown :
    Serves readyWorld.row (answered githubDown widgetGet readyWorld) ↔
      ∃ discovery, discoveryOf githubDown widgetGet = .found discovery ∧
        Accepts readyWorld.row widgetGet.identity discovery ∧ ¬ HasPending readyWorld.row ∧
        ¬ BringsNew readyWorld.row widgetGet.identity discovery :=
  serves_iff githubDown (fun _ => rfl) widgetGet readyRequests readyWorld rfl readyWorld_published
    (.inl githubDown_outage)

/-- The ready version is stored, and the request is answered 503. -/
theorem githubDown_notServed :
    (∃ record ∈ records readyWorld.row, record.state.published = true) ∧
      DiscoveryOutage githubDown widgetGet ∧
      ¬ Serves readyWorld.row (answered githubDown widgetGet readyWorld) := by
  refine ⟨readyWorld_published, githubDown_outage, not_serves ?_⟩
  have hanswer : answered githubDown widgetGet readyWorld
      = .ok (.text 503 "GitHub branch discovery unavailable".toList []) := rfl
  rw [hanswer]
  intro response hresponse
  rw [← Except.ok.inj hresponse]
  decide

end MetadataRequest
end JsrProxy
