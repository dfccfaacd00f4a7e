import JsrProxy.FleetAgreement
import JsrProxy.HandlerRules

set_option autoImplicit false

/-!
# Runs that keep the agreement

Each handler reads a registry whose published versions are backed, and publishes one
itself only after its batch was accepted. So every run keeps the agreement.
-/
namespace JsrProxy

open Branches PackageObject Publication R2Publication Service

namespace Fleet

variable {i : ℕ} {r : FleetRequest}

/-- The property that holds of a handler in every scene. -/
abbrev EnsuredAlways (i : ℕ) (r : FleetRequest) (p : ObjectHandlers.Handling) : Prop :=
  ∀ s, Ensured i r p s

theorem passesOn_quiet {call : ObjectCall}
    (hwrite : ∀ snapshot, call ≠ .writeSnapshot snapshot) (hbucket : ∀ op, call ≠ .bucket op) :
    ObjectHandlers.PassesOn (EnsuredAlways i r) call := by
  intro next h s
  apply ensured_await hwrite hbucket
  intro t choice _ _ _
  exact h _ _ _

theorem passesOn_fetch (request : Request) (redirect : Redirect) :
    ObjectHandlers.PassesOn (EnsuredAlways i r) (.fetch request redirect) :=
  passesOn_quiet (by nofun) (by nofun)

theorem admits_ensured : ObjectHandlers.Admits (EnsuredAlways i r) where
  threw _ := ensured_done _
  refused _ := ensured_done _
  decided _ := ensured_done _
  unavailable _ := ensured_done _
  reads _ := passesOn_quiet (by nofun) (by nofun)
  writes _ _ := passesOn_quiet (by nofun) (by nofun)
  asks _ _ request _ := passesOn_fetch request .follow

theorem ensured_refresh (body : Option RefreshBody) (hr : r.request = .refresh body) (s : FleetScene) :
    Ensured i r (ObjectHandlers.refresh body) s := by
  unfold ObjectHandlers.refresh
  split
  · exact ensured_done _ s
  · rename_i request
    split
    · exact ensured_done _ s
    · rename_i discovery _
      apply ensured_readRegistry
      · intro t call choice hserved name hname
        rw [← Option.some.inj hname]
        exact hserved.request.named request hr
      intro loaded now t _ hloaded
      have hname := loaded.refresh_name discovery
      have hnothing := PackageRegistry.refresh_publishesNothing hloaded.sound.coherent discovery
      cases he : loaded.refresh discovery with
      | mk result refreshed =>
        rw [he] at hname hnothing
        cases result with
        | error message => exact ensured_done _ t
        | ok jobs =>
          have happly : loaded.apply (.refresh discovery) = refreshed := congrArg Prod.snd he
          apply ensured_transition hloaded happly hname hnothing
          intro saved u
          apply ensured_orThrow
          intro _ _
          exact ensured_done _ u

theorem ensured_recover (body : Option RecoverBody) (s : FleetScene) :
    Ensured i r (ObjectHandlers.recover body) s := by
  unfold ObjectHandlers.recover
  split
  · exact ensured_done _ s
  · rename_i body
    split
    · exact ensured_done _ s
    · apply ensured_readRegistry unnamed
      intro loaded now t _ hloaded
      have hname := loaded.recoverVersion_name body.version (trim body.reason) body.recoveredAt
      have hnothing :=
        loaded.recoverVersion_publishesNothing body.version (trim body.reason) body.recoveredAt
      cases hr : loaded.recoverVersion body.version (trim body.reason) body.recoveredAt with
      | mk result recovered =>
        rw [hr] at hname hnothing
        cases result with
        | error message => exact ensured_done _ t
        | ok job =>
          have happly : loaded.apply (.recoverVersion body.version (trim body.reason) body.recoveredAt)
              = recovered := congrArg Prod.snd hr
          apply ensured_transition hloaded happly hname hnothing
          intro saved u
          cases saved with
          | error message => exact ensured_done _ u
          | ok _ => exact ensured_done _ u

theorem ensured_metadata (s : FleetScene) : Ensured i r ObjectHandlers.metadata s := by
  apply ensured_readRegistry unnamed
  intro loaded now t _ _
  exact ensured_done _ t

theorem ensured_status (s : FleetScene) : Ensured i r ObjectHandlers.status s := by
  apply ensured_readRegistry unnamed
  intro loaded now t _ _
  exact ensured_done _ t

theorem ensured_releaseLease (version : Str) (s : FleetScene) :
    Ensured i r (ObjectHandlers.releaseLease version) s := by
  apply ensured_readRegistry unnamed
  intro loaded now t _ hloaded
  have hname := (loaded.releaseLease_touches version).name
  have hnothing := loaded.releaseLease_publishesNothing version
  cases hr : loaded.releaseLease version with
  | mk result released =>
    rw [hr] at hname hnothing
    cases result with
    | error message => exact ensured_done _ t
    | ok _ =>
      have happly : loaded.apply (.releaseLease version) = released := congrArg Prod.snd hr
      apply ensured_transition hloaded happly hname hnothing
      intro saved u
      apply ensured_orThrow
      intro _ _
      exact ensured_done _ u

theorem settled_name (registry : PackageRegistry) (version : Str) (outcome : Outcome) :
    (ObjectHandlers.settled registry version outcome).2.name = registry.name := by
  cases outcome with
  | ready => exact (registry.markReady_touches version).name
  | yanked diagnostic => exact (registry.markYanked_touches version diagnostic).name

theorem settled_published {registry : PackageRegistry} {version v : Str}
    {outcome : MaterializationOutcome} {record : VersionRecord}
    (hv : (ObjectHandlers.settled registry version outcome.completion).2.versions.get? v = some record) :
    registry.versions.get? v = some record ∨ (v = version ∧ record.state = outcome.state) := by
  cases outcome with
  | ready uploads => exact PackageRegistry.markReady_published hv
  | yanked diagnostic uploads => exact PackageRegistry.markYanked_published hv

theorem ensured_finish {version : Str} {outcome : MaterializationOutcome} {s : FleetScene}
    (huploaded : Uploaded s r.package version outcome) :
    Ensured i r (ObjectHandlers.finish version outcome.completion) s := by
  apply ensured_readRegistry unnamed
  intro loaded now t hst hloaded
  have hname := settled_name loaded version outcome.completion
  have hpublished := fun v record => @settled_published loaded version v outcome record
  have hsound : (ObjectHandlers.settled loaded version outcome.completion).2.Sound := by
    cases outcome with
    | ready uploads => exact hloaded.sound.apply (.markReady version)
    | yanked diagnostic uploads => exact hloaded.sound.apply (.markYanked version diagnostic)
  cases hr : ObjectHandlers.settled loaded version outcome.completion with
  | mk result completed =>
    rw [hr] at hname hpublished hsound
    cases result with
    | error message => exact ensured_done _ t
    | ok _ =>
      apply ensured_saveRegistry hsound (hname.trans hloaded.named)
      · intro v record hv hp
        rcases hpublished v record hv with hold | ⟨rfl, hstate⟩
        · exact hloaded.published v record hold hp
        · refine ⟨outcome, ?_, hstate.symm⟩
          rw [(hsound.coherent.record v record hv).version]
          exact huploaded.follows hst
      · intro saved u
        apply ensured_orThrow
        intro _ _
        exact ensured_done _ u

theorem ensured_publishing {α : Type} {b : PackageBatch} {program : Program r2Calls α}
    {post : α → R2Bucket → Prop} {bucket : R2Bucket}
    (hprogram : program.Ensures R2Step (fun u t => u.Grows t) (PutsInOrder b.objects) post bucket)
    {next : α → ObjectHandlers.Handling} {s : FleetScene} (hbucket : s.world.objects = bucket)
    (hb : b ∈ batches s.history)
    (h : ∀ result t, Follows s t → post result t.world.objects → Ensured i r (next result) t) :
    Ensured i r (ObjectHandlers.publishing program next) s := by
  induction hprogram generalizing s with
  | done hpost =>
    rw [← hbucket] at hpost
    exact h _ s (.refl s) hpost
  | @call call rest bucket hguar _ ih =>
    apply ensured_call
    intro t choice hst hconsistent _
    have hgrows : bucket.Grows t.world.objects := by
      rw [← hbucket]
      exact hst.objects
    have hstep := World.bucketAnswer_step t.world.objects choice.bucketFault call
    have hfollows := follows_after (i := i) (r := r) (.bucket call) choice t
    have hmem := batches_mono (hst.trans hfollows).history hb
    refine ⟨?_, ?_⟩
    · apply hconsistent.step hfollows
      · exact Function.update_eq_self _ _
      · exact (hconsistent.bucket.mono (batches_mono hfollows.history)).put hmem
          (hguar _ hgrows _ _ hstep)
    · refine ih _ hgrows _ _ hstep rfl hmem ?_
      intro result u hu hpost
      exact h result u ((hst.trans hfollows).trans hu) hpost

theorem answered_batch {history : History} {input : MaterializationRequest}
    {outcome : MaterializationOutcome} (h : Answered history input outcome)
    (hallocated : IsAllocated input.job) : ∃ b ∈ batches history, b.objects ≠ [] ∧
      outcome.uploads = b.objects.map BatchObject.upload := by
  obtain ⟨libraries, archive, hrun⟩ := h.1
  obtain ⟨outcome', files, exports, hrun', hpublishable, huploads⟩ :=
    runMaterialization_uploads libraries input archive
  obtain rfl := Except.ok.inj (hrun.symm.trans hrun')
  exact ⟨⟨input.job, files, exports, hallocated, hpublishable⟩, ⟨input, outcome, h, rfl, huploads⟩,
    batchOf_ne_nil _ _ _, huploads⟩

theorem ensured_publishArtifactBatch {history : History} {input : MaterializationRequest}
    {outcome : MaterializationOutcome} {s : FleetScene} (hhistory : s.history = history)
    (hanswered : Answered history input outcome) (hallocated : IsAllocated input.job)
    {next : Except Str Response → ObjectHandlers.Handling}
    (h : ∀ publication t, (∀ response, publication = .ok response → response.ok = true →
      Uploaded t input.job.package input.job.version outcome) → Ensured i r (next publication) t) :
    Ensured i r (ObjectHandlers.publishing (publishArtifactBatch (batchRequest
      (outcome.uploads.map uploadJson))) next) s := by
  subst hhistory
  obtain ⟨b, hb, hne, huploads⟩ := answered_batch hanswered hallocated
  have hbatch : outcome.uploads.map uploadJson
      = b.objects.map fun object => uploadJson object.upload := by
    rw [huploads, List.map_map]
    rfl
  have hput : ∀ before object after, b.objects = before ++ object :: after → ∀ t : R2Bucket,
      (∀ o ∈ before, o.HeldBy t) → PutsInOrder b.objects t (t.put object.key object.stored) :=
    fun before object after hsplit t hheld => .inr ⟨before, object, after, hsplit, hheld, rfl⟩
  rw [hbatch]
  refine ensured_publishing (publishArtifactBatch_ensures s.world.objects (fun _ _ h => h)
    putsInOrder_grows (fun _ => .inl rfl) hput hne b.addressed) rfl hb ?_
  intro publication t hst haccepted
  apply h
  intro response hresponse hok
  refine ⟨input, hanswered.mono hst.history, rfl, rfl, ?_⟩
  intro upload hupload
  rw [huploads] at hupload
  obtain ⟨object, hobject, rfl⟩ := List.mem_map.1 hupload
  exact haccepted response hresponse hok object hobject

theorem ensured_received {job : MaterializationJob} {input : MaterializationRequest} {id : Str}
    {request : StreamedRequest} {response : Fetched} {now : ℤ} {s : FleetScene}
    (hanswers : Answers request.headers (.ok response))
    (hinput : materializationInput request.headers = some input)
    (hallocated : IsAllocated input.job) (hpackage : input.job.package = r.package)
    (hversion : input.job.version = job.version)
    (hcalled : (⟨i, r, ((r.package, .container id request) : fleetCalls.Op), (.ok response, now)⟩ :
      Called fleetCalls FleetRequest) ∈ s.history) :
    Ensured i r (ObjectHandlers.received job.version response) s := by
  unfold ObjectHandlers.received
  split
  · split
    · exact ensured_done _ s
    · exact ensured_releaseLease _ s
  · rename_i hok
    rw [Bool.not_eq_true, Bool.not_eq_false'] at hok
    cases hjson : response.body.json with
    | none => exact ensured_releaseLease _ s
    | some value =>
      obtain ⟨libraries, input', archive, outcome, hinput', hrun, rfl⟩ :=
        hanswers response value rfl hok hjson
      obtain rfl := Option.some.inj (hinput.symm.trans hinput')
      have hanswered : Answered s.history input outcome :=
        ⟨⟨libraries, archive, hrun⟩, i, r, r.package, id, request, response, now, hcalled, hok, hinput,
          hjson⟩
      obtain ⟨b, -, hne, huploads⟩ := answered_batch hanswered hallocated
      have hsome : outcome.uploads ≠ [] := by
        rw [huploads, ne_eq, List.map_eq_nil_iff]
        exact hne
      rw [Option.bind_some, parse_outcomeJson hsome]
      apply ensured_publishArtifactBatch rfl hanswered hallocated
      intro publication t huploaded
      apply ensured_orThrow
      intro answer hanswer
      split
      · exact ensured_releaseLease _ t
      · rename_i haccepted
        rw [Bool.not_eq_true, Bool.not_eq_false'] at haccepted
        apply ensured_finish
        rw [← hpackage, ← hversion]
        exact huploaded answer hanswer haccepted

theorem ensured_materializeJob (env : ObjectEnv) {job : MaterializationJob} (body : MaterializeBody)
    (hversion : ∃ major sequence : ℤ, 0 ≤ major ∧ 0 ≤ sequence ∧
      job.version = versionString major sequence) (s : FleetScene) :
    Ensured i r (ObjectHandlers.materializeJob env r.package job body) s := by
  refine ObjectHandlers.githubArchive_of (fun request => passesOn_fetch request .manual) ?_ s
  intro archive t
  split
  · exact ensured_releaseLease _ t
  · exact ensured_releaseLease _ t
  · split
    · exact ensured_releaseLease _ t
    · rename_i request hrequest
      have hinput := ObjectHandlers.materializationInput_sent hrequest
      apply ensured_await (by nofun) (by nofun)
      intro u choice _ _ hserved
      have hanswers := hserved.answers _ request rfl
      have hcalled : (⟨i, r, ((r.package, .container (ObjectHandlers.packageId r.package) request) :
          fleetCalls.Op), (choice.fetched, choice.time)⟩ : Called fleetCalls FleetRequest) ∈
          (after i r (.container (ObjectHandlers.packageId r.package) request) choice u).history :=
        List.mem_cons_self
      have hresult : ((u.world.object r.package).perform choice
          (.container (ObjectHandlers.packageId r.package) request)).1 = choice.fetched := rfl
      obtain ⟨pathname, hidentity⟩ := hserved.request.identity
      obtain ⟨hscope, hname, -⟩ := Identity.parsePackageIdentity_some hidentity
      rw [hresult]
      cases hfetched : choice.fetched with
      | error message => exact ensured_releaseLease _ _
      | ok response =>
        rw [hfetched] at hanswers hcalled
        exact ensured_received hanswers hinput ⟨hscope, hname, hversion⟩ rfl rfl hcalled

theorem ensured_materialize (env : ObjectEnv) (body : Option MaterializeBody) (s : FleetScene) :
    Ensured i r (ObjectHandlers.materialize env body) s := by
  unfold ObjectHandlers.materialize
  split
  · exact ensured_done _ s
  · split
    · exact ensured_done _ s
    · split
      · exact ensured_done _ s
      · rename_i body _ _
        apply ensured_readRegistry unnamed
        intro loaded now t _ hloaded
        have hname := (loaded.leaseNext_touches now).name
        have hnothing := loaded.leaseNext_publishesNothing now
        cases hr : loaded.leaseNext now with
        | mk result leased =>
          rw [hr] at hname hnothing
          cases result with
          | none => exact ensured_done _ t
          | some job =>
            have happly : loaded.apply (.leaseNext now) = leased := congrArg Prod.snd hr
            apply ensured_transition hloaded happly hname hnothing
            intro saved u
            apply ensured_orThrow
            intro _ _
            rw [hloaded.named]
            obtain ⟨version, record, hn, rfl, -⟩ := PackageRegistry.leaseNext_some hr
            have hof := hloaded.sound.coherent.record _ _ (PackageRegistry.nextEligible_some hn).1
            exact ensured_materializeJob env body
              ⟨_, _, hof.majorRange.1, hof.issued.1, hof.version.trans hof.named⟩ u

theorem ensured_complete {body : Option CompleteBody} (hr : r.request = .complete body)
    (s : FleetScene) : Ensured i r (ObjectHandlers.complete body) s := by
  unfold ObjectHandlers.complete
  split
  · exact ensured_done _ s
  · apply ensured_call
    intro t choice _ _ hserved
    exact absurd hr (hserved.request.completes _)

theorem ensured_handle (env : ObjectEnv) (s : FleetScene) :
    Ensured i r (ObjectHandlers.handle env r.request) s := by
  cases hr : r.request with
  | check pat => exact admits_ensured.of_check env pat s
  | authorize body => exact admits_ensured.of_authorize env body s
  | refresh body => exact ensured_refresh body hr s
  | recover body => exact ensured_recover body s
  | materialize body => exact ensured_materialize env body s
  | complete body => exact ensured_complete hr s
  | metadata => exact ensured_metadata s
  | status => exact ensured_status s
  | unknown => exact ensured_done _ s

theorem agreement_relyGuarantee (env : ObjectEnv) : RelyGuarantee (Fleet.handle env) Fleet.answer Served
    Consistent (fun _ => Follows) (fun _ => Keeps) (fun _ _ _ _ => True) where
  starts _ _ s _ _ := (ensured_handle env s).tag
  keeps _ _ _ hs hguar := hguar.2 hs
  others _ _ _ _ _ _ hguar := hguar.1
  refl _ s := .refl s
  trans _ _ _ _ h h' := h.trans h'
  stable _ _ _ _ _ _ _ := trivial

open Executions in
/-- In every run the rows and the bucket agree, and no later step replaces an object. -/
theorem agreement_of_served (env : ObjectEnv) {events : List FleetEvent}
    (ha : Admitted (FleetPool.step env) (Pool.Admits Served) (.start Fleet.new) events) :
    Agreement (run (FleetPool.step env) (.start Fleet.new) events).scene ∧
      ∀ later : List FleetEvent,
        (run (FleetPool.step env) (.start Fleet.new) events).scene.world.objects.Grows
          (run (FleetPool.step env) (.start Fleet.new) (events ++ later)).scene.world.objects := by
  constructor
  · exact ((agreement_relyGuarantee env).run consistent_new ha).1.agreement
  · intro later
    rw [run_append]
    exact FleetPool.run_grows env _ later

def acmeRefresh : FleetRequest :=
  ⟨ObjectHandlers.acmeWidget, .refresh (some ⟨ObjectHandlers.acmeWidget, "main".toList,
    [("main".toList, ⟨"c0ffee".toList, 7⟩)]⟩)⟩

def acmeMaterialize : FleetRequest :=
  ⟨ObjectHandlers.acmeWidget, .materialize (some ObjectHandlers.acmeBody)⟩

theorem fromWorker_acme : FromWorker acmeRefresh ∧ FromWorker acmeMaterialize := by
  refine ⟨⟨⟨_, routeJob_identity⟩, ?_, nofun⟩, ⟨⟨_, routeJob_identity⟩, nofun, nofun⟩⟩
  rintro body ⟨⟩
  rfl

/-- A start by the Worker, or a call whose answer is no outcome. -/
def Calm : FleetEvent → Prop
  | .start r => FromWorker r
  | .advance _ choice => ∀ headers, Answers headers choice.fetched

def Occupied (pool : FleetPool) : Prop := ∀ thread ∈ pool.threads, FromWorker thread.request

theorem Occupied.step {pool : FleetPool} (h : Occupied pool) (env : ObjectEnv) {e : FleetEvent}
    (he : ∀ r, e = .start r → FromWorker r) : Occupied (FleetPool.step env pool e) := by
  intro thread hthread
  rcases Pool.step_cases (Fleet.handle env) Fleet.answer pool e with
    ⟨r, hstart, hstep⟩ | ⟨i, choice, r, call, next, -, hi, hstep⟩ | hstep
  · rw [FleetPool.step, hstep] at hthread
    rcases List.mem_append.1 hthread with hthread | hthread
    · exact h thread hthread
    · rw [List.mem_singleton.1 hthread]
      exact he r hstart
  · rw [FleetPool.step, hstep] at hthread
    rcases List.mem_or_eq_of_mem_set hthread with hthread | rfl
    · exact h thread hthread
    · exact h ⟨r, .call call next⟩ (List.mem_of_getElem? hi)
  · rw [FleetPool.step, hstep] at hthread
    exact h thread hthread

open Executions in
theorem admitted_calm (env : ObjectEnv) {pool : FleetPool} (hpool : Occupied pool)
    {events : List FleetEvent} (h : ∀ e ∈ events, Calm e) :
    Occupied (run (FleetPool.step env) pool events) ∧
      Admitted (FleetPool.step env) (Pool.Admits Served) pool events := by
  induction events generalizing pool with
  | nil => exact ⟨hpool, trivial⟩
  | cons e events ih =>
    have he := h e List.mem_cons_self
    have hstep := hpool.step env (e := e) (by
      rintro r rfl
      exact he)
    obtain ⟨hoccupied, hadmitted⟩ := ih hstep fun e' he' => h e' (List.mem_cons_of_mem _ he')
    refine ⟨hoccupied, ?_, hadmitted⟩
    cases e with
    | start r => trivial
    | advance i choice =>
      intro r call next hi
      exact ⟨hpool _ (List.mem_of_getElem? hi), fun _ request _ => he request.headers⟩

def acmeEnv : ObjectEnv := ⟨none, true, id, fun _ => none⟩

def quietChoice : Choice := ⟨0, none, .error [], none⟩

def archiveChoice : Choice := ⟨0, none, .ok ⟨200, [], .bytes [], ObjectHandlers.codeload⟩, none⟩

def requestedRun : List FleetEvent :=
  [.start acmeRefresh, .start acmeMaterialize, .advance 0 quietChoice, .advance 0 quietChoice,
    .advance 1 quietChoice, .advance 1 quietChoice, .advance 1 archiveChoice]

def acmeHeaders : Headers :=
  [("content-type".toList, "application/gzip".toList),
    ("x-jsrproxy-materialization".toList, (ObjectHandlers.materializationJson ObjectHandlers.acmeWidget
      (ObjectHandlers.tipJob "main".toList) ObjectHandlers.acmeBody).write)]

def blindLibraries : Libraries where
  entries _ := some [none]
  configuration _ := .error []
  ast := ⟨Str, .ok, fun _ source _ => .ok source, fun _ program => program, fun _ _ program => .ok program⟩

def acmeResponse : Response :=
  Service.handle blindLibraries "POST".toList "/materialize-archive".toList acmeHeaders (some [])

def containerChoice : Choice :=
  ⟨0, none, .ok ⟨acmeResponse.status, acmeResponse.headers, .bytes acmeResponse.body, []⟩, none⟩

theorem containerChoice_answers : Answers acmeHeaders containerChoice.fetched := by
  have hresponse : acmeResponse = Service.handle blindLibraries "POST".toList
      "/materialize-archive".toList acmeHeaders (some []) := by rw [acmeResponse]
  change Answers acmeHeaders (.ok ⟨acmeResponse.status, acmeResponse.headers, .bytes acmeResponse.body, []⟩)
  generalize acmeResponse = response at hresponse ⊢
  refine handle_answers blindLibraries acmeHeaders (some []) ?_ ?_
  · rw [← hresponse]
  · intro content hcontent
    rw [← hresponse]
    exact (Body.bytes.inj hcontent).symm

def servedRun : List FleetEvent :=
  requestedRun ++ .advance 1 containerChoice :: List.replicate 6 (.advance 1 quietChoice)

set_option maxRecDepth 20000 in
open Executions in
theorem requestedRun_container : ∃ next,
    (run (FleetPool.step acmeEnv) (.start Fleet.new) requestedRun).threads[1]? =
      some ⟨acmeMaterialize, .call ((ObjectHandlers.acmeWidget, .container
        (ObjectHandlers.packageId ObjectHandlers.acmeWidget) ⟨"POST".toList,
          .parse "https://materializer.internal".toList "/materialize-archive".toList, acmeHeaders,
          .bytes []⟩) : fleetCalls.Op) next⟩ := ⟨_, rfl⟩

theorem calm_quiet (i : ℕ) : Calm (.advance i quietChoice) := fun headers => answers_error headers []

theorem calm_requestedRun : ∀ e ∈ requestedRun, Calm e := by
  have harchive : Calm (.advance 1 archiveChoice) := by
    have hnone : (Body.bytes []).json = none := rfl
    rintro headers response value ⟨⟩ - hjson
    rw [hnone] at hjson
    cases hjson
  obtain ⟨hrefresh, hmaterialize⟩ := fromWorker_acme
  simp only [requestedRun, List.forall_mem_cons, List.not_mem_nil, false_implies, implies_true, and_true]
  exact ⟨hrefresh, hmaterialize, calm_quiet 0, calm_quiet 0, calm_quiet 1, calm_quiet 1, harchive⟩

open Executions in
theorem servedRun_admitted :
    Admitted (FleetPool.step acmeEnv) (Pool.Admits Served) (.start Fleet.new) servedRun := by
  have hstart : Occupied (.start Fleet.new) := fun _ h => absurd h List.not_mem_nil
  obtain ⟨hoccupied, hrequested⟩ := admitted_calm acmeEnv hstart calm_requestedRun
  refine (admitted_append _ _ _ _ _).2 ⟨hrequested, ?_, ?_⟩
  · obtain ⟨next, hthread⟩ := requestedRun_container
    intro request call next' hi
    cases Option.some.inj (hthread.symm.trans hi)
    refine ⟨fromWorker_acme.2, ?_⟩
    rintro _ _ ⟨⟩
    exact containerChoice_answers
  · have hnext := hoccupied.step acmeEnv (e := .advance 1 containerChoice) (by
      intro r hr
      cases hr)
    refine (admitted_calm acmeEnv hnext ?_).2
    intro e he
    rw [List.eq_of_mem_replicate he]
    exact calm_quiet 1

open Executions in
theorem agreement_servedRun :
    Agreement (run (FleetPool.step acmeEnv) (.start Fleet.new) servedRun).scene ∧
      ∀ later : List FleetEvent,
        (run (FleetPool.step acmeEnv) (.start Fleet.new) servedRun).scene.world.objects.Grows
          (run (FleetPool.step acmeEnv) (.start Fleet.new) (servedRun ++ later)).scene.world.objects :=
  agreement_of_served acmeEnv servedRun_admitted

end Fleet
end JsrProxy
