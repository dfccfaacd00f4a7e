import JsrProxy.AvailableArtifacts
import JsrProxy.FinishedMaterializations
import JsrProxy.VouchedResponses

set_option autoImplicit false

/-!
# Served versions

What becomes of a version in a deployment, whatever interleaves: it is built when somebody
lets its materialization through, all its files can be had from then on, each is one object
for all time, and comes from the archive of the version's commit.
-/
namespace JsrProxy
namespace Deployment
open Executions Fleet ObjectHandlers R2Publication Service Worker
open Publication (markerObject metadataObject packageKeyPrefix)

def widgetBody : MaterializeBody :=
  ⟨"acme".toList, "widget".toList, "pat".toList, "https://proxy.example/-/status/@acme/widget".toList⟩

def listingRequest : Request := { statusRequest with
  url := { statusRequest.url with pathname := "/@acme/widget/meta.json".toList } }

def versionRequest : Request := { statusRequest with
  url := { statusRequest.url with pathname := "/@acme/widget/0.1.7_meta.json".toList } }

def mirrorRequest : Request := { versionRequest with
  url := { versionRequest.url with origin := "https://mirror.example".toList } }

def nothingFetched : Choice := ⟨0, none, .error [], none⟩

def foundTip : VisitChoice := { undisturbed with
  discovery := .found ⟨"main".toList, OrderedMap.empty.set "main".toList ⟨"c0ffee".toList, 7⟩⟩ }

/-- One visit has refreshed the package and is about to have it materialized. Two others ask
    the bucket for a version that is not there yet. -/
def waitingRun : List DeploymentEvent :=
  [.arrive 0 listingRequest, .ask 0 widget, .admission 0 userAnswer, .admission 0 userAnswer,
    .admission 0 userAnswer, .answer 0 undisturbed, .ask 0 widget, .object 0 repositoryAnswer,
    .object 0 repositoryAnswer, .object 0 repositoryAnswer, .answer 0 undisturbed, .answer 0 foundTip,
    .ask 0 widget, .object 1 nothingFetched, .object 1 nothingFetched, .answer 0 undisturbed,
    .arrive 0 versionRequest, .ask 1 widget, .admission 1 nothingFetched, .answer 1 undisturbed,
    .ask 1 widget, .object 2 nothingFetched, .answer 1 undisturbed, .arrive 0 mirrorRequest,
    .ask 2 widget, .admission 2 nothingFetched, .answer 2 undisturbed, .ask 2 widget,
    .object 3 nothingFetched, .answer 2 undisturbed]

/-- The visits that ask the bucket, and their requests. -/
def waitingVisits : List (ℕ × Request) := [(1, versionRequest), (2, mirrorRequest)]

def packageAsked : Worker.Serving → Option (Str × ObjectRequest)
  | .done _ => none
  | .call (call : WorkerCall) _ =>
    match call with
    | .package name request => some (name, request)
    | _ => none

def keyAsked : Worker.Serving → Option Str
  | .done _ => none
  | .call (call : WorkerCall) _ =>
    match call with
    | .get key => some key
    | _ => none

theorem packageAsked_some {p : Worker.Serving} {name : Str} {request : ObjectRequest}
    (h : packageAsked p = some (name, request)) :
    ∃ next : Except Str Fetched → Worker.Serving, p = Worker.ask (.package name request) next := by
  cases p with
  | done result => cases h
  | call call next =>
    cases call with
    | package name' request' =>
      cases h
      exact ⟨next, rfl⟩
    | admission | discover | get | upstream => cases h

theorem keyAsked_some {p : Worker.Serving} (h : (keyAsked p).isSome = true) :
    ∃ (key : Str) (next : Except Str (Option R2ObjectLike) → Worker.Serving), p = Worker.ask (.get key) next := by
  cases p with
  | done result => cases h
  | call call next =>
    cases call with
    | get key => exact ⟨key, next, rfl⟩
    | admission | discover | package | upstream => cases h

def leasable (stored : Stored) : Bool :=
  match PackageObject.registry stored none with
  | .error _ => false
  | .ok registry =>
    match registry.nextEligible 0 with
    | none => false
    | some (version, record) =>
      version = "0.1.7".toList &&
      (materializationRequest widget record.toMaterializationJob widgetBody (.bytes [])).toBool &&
      (Auth.githubRequest (tarballPath "acme".toList "widget".toList record.commitSha) "pat".toList).toBool

def Waiting (site : Deployment) : Prop :=
  site.packages.threads.length = 4 ∧
  site.visits.map (fun visit => (packageAsked visit.program, visit.waiting)) =
    [(some (packageId widget, .materialize (some widgetBody)), none), (none, none), (none, none)] ∧
  site.visits.map (fun visit => (visit.request, (keyAsked visit.program).isSome)) =
    [(listingRequest, false), (versionRequest, true), (mirrorRequest, true)] ∧
  leasable (site.packages.scene.world.rows widget) = true

instance (site : Deployment) : Decidable (Waiting site) := by
  unfold Waiting
  infer_instance

def publishes (site : Deployment) (j : ℕ) : Bool :=
  match site.packages.threads[j]? with
  | none => false
  | some thread =>
    match thread.program with
    | .done _ => false
    | .call (call : fleetCalls.Op) _ =>
      match call.2 with
      | .container _ _ | .bucket _ => true
      | _ => false

def Unpublishing (site : Deployment) : DeploymentEvent → Prop
  | .object j _ => publishes site j = false
  | _ => True

instance (site : Deployment) (e : DeploymentEvent) : Decidable (Unpublishing site e) := by
  cases e <;> unfold Unpublishing <;> infer_instance

theorem waitingRun_waits : Waiting (run (step siteEnv) new waitingRun) ∧
    Admitted (step siteEnv) Unpublishing new waitingRun := by decide +kernel

theorem waitingRun_quiet : Admitted (step siteEnv) Truthful new waitingRun ∧
    (run (step siteEnv) new waitingRun).bucket = ObjectStore.empty := by
  constructor
  · refine admitted_of_invariant (fun _ => True) Unpublishing Truthful (fun _ _ _ _ => trivial) ?_ _ _ trivial
      waitingRun_waits.2
    intro site e _ he
    cases e with
    | arrive | ask | admission | answer => trivial
    | object j choice =>
      intro request call next hj id sent hcall
      simp only [Unpublishing, publishes, hj, hcall] at he
      cases he
  · refine run_invariant (fun site => site.bucket = ObjectStore.empty) Unpublishing ?_ _ _ rfl waitingRun_waits.2
    intro site e hempty he
    have hsteps := step_steps siteEnv site e
    generalize step siteEnv site e = after at hsteps ⊢
    cases hsteps with
    | nothing | arrived | askedAdmission | admission | answered => exact hempty
    | askedPackage => exact hempty
    | object j choice =>
      change (Pool.step (Fleet.handle siteEnv.objects) Fleet.answer site.packages
        (.advance j choice)).scene.world.objects = _
      rcases Pool.step_cases (Fleet.handle siteEnv.objects) Fleet.answer site.packages (.advance j choice) with
        ⟨_, hstart, -⟩ | ⟨j', choice', request, call, next, hadvance, hj, hstep⟩ | hstep
      · cases hstart
      · obtain ⟨rfl, rfl⟩ := PoolEvent.advance.inj hadvance
        rw [hstep, ← hempty]
        have hother : ∀ op, call.2 ≠ .bucket op := by
          intro op hcall
          simp only [Unpublishing, publishes, hj, hcall] at he
          cases he
        exact World.perform_objects hother (site.packages.scene.world.object call.1) choice
      · rw [hstep]
        exact hempty

def listenerAnswer (libraries : Libraries) (sent : StreamedRequest) : Except Str Fetched :=
  match sent.body with
  | .bytes archive =>
    let response := Service.handle libraries sent.method sent.url.pathname sent.headers (some archive)
    .ok ⟨response.status, response.headers, .bytes response.body, []⟩
  | _ => .error []

theorem listened_listenerAnswer (libraries : Libraries) (sent : StreamedRequest) :
    Service.Listened sent (listenerAnswer libraries sent) := by
  intro response hresponse
  unfold listenerAnswer at hresponse
  cases hbody : sent.body with
  | bytes archive =>
    rw [hbody] at hresponse
    obtain rfl := Except.ok.inj hresponse
    refine ⟨libraries, some archive, ?_, rfl, ?_⟩
    · rintro _ ⟨⟩
      rfl
    · exact fun content hcontent => (Body.bytes.inj hcontent).symm
  | absent | broken =>
    rw [hbody] at hresponse
    cases hresponse

def emptyOutside : Outside
  | .fetch _ _ => ⟨0, none, .ok ⟨200, [], .bytes [], codeload⟩, none⟩
  | .container _ sent => ⟨0, none, listenerAnswer blindLibraries sent, none⟩
  | _ => nothingFetched

theorem obliging_emptyOutside (asked : Request) :
    Obliging siteEnv.objects blindLibraries [] asked emptyOutside where
  storage call := by cases call <;> rfl
  bucket call := by cases call <;> rfl
  source := ⟨_, rfl, .inl ⟨rfl, rfl, rfl⟩⟩
  container id sent hsent := by
    change ∃ response, listenerAnswer blindLibraries sent = .ok response ∧ _
    rw [listenerAnswer, hsent]
    exact ⟨_, rfl, rfl, rfl⟩

theorem truthful_emptyOutside {site : Deployment} {events : List DeploymentEvent}
    (h : Admitted (step siteEnv) (ObjectsAdmit fun _ _ _ call choice => choice = emptyOutside call.2) site events) :
    Admitted (step siteEnv) Truthful site events := by
  refine admitted_of_invariant (fun _ => True) _ Truthful (fun _ _ _ _ => trivial) ?_ _ _ trivial h
  intro site e _ he
  cases e with
  | arrive | ask | admission | answer => trivial
  | object j choice =>
    intro request call next hj id sent hcall
    obtain rfl := he request call next hj
    rw [hcall]
    exact listened_listenerAnswer blindLibraries sent

theorem step_asked (env : DeploymentEnv) {site : Deployment} {i : ℕ} {visit : Visit} {package : PackageName}
    {request : ObjectRequest} {next : Except Str Fetched → Worker.Serving}
    (hvisit : site.visits[i]? = some visit) (hwaiting : visit.waiting = none)
    (hprogram : visit.program = Worker.ask (.package (packageId package) request) next) :
    step env site (.ask i package) = { site with
      packages := FleetPool.step env.objects site.packages (.start ⟨package, request⟩)
      visits := site.visits.set i { visit with waiting := some site.packages.threads.length } } := by
  rw [step, ask, hvisit]
  dsimp only
  rw [hwaiting, hprogram]
  dsimp only [Worker.ask]
  rw [if_pos rfl]

theorem leasable_some {stored : Stored} (h : leasable stored = true) : ∃ registry record asked sent,
    PackageObject.registry stored none = .ok registry ∧
    registry.nextEligible 0 = some ("0.1.7".toList, record) ∧
    Sendable siteEnv.objects widgetBody widget record.toMaterializationJob [] asked sent := by
  unfold leasable at h
  split at h
  · cases h
  · rename_i registry hregistry
    split at h
    · cases h
    · rename_i version record hnext
      simp only [Bool.and_eq_true, decide_eq_true_eq] at h
      obtain ⟨⟨rfl, hsent⟩, hasked⟩ := h
      cases hs : materializationRequest widget record.toMaterializationJob widgetBody (.bytes []) with
      | error message =>
        rw [hs] at hsent
        cases hsent
      | ok sent =>
        cases ha : Auth.githubRequest (tarballPath "acme".toList "widget".toList record.commitSha)
            "pat".toList with
        | error message =>
          rw [ha] at hasked
          cases hasked
        | ok asked =>
          exact ⟨registry, record, asked, sent, hregistry, hnext, rfl, by decide, by decide, by decide,
            by decide, by decide, ha, hs⟩

def buildingRun : List DeploymentEvent := waitingRun ++ [.ask 0 widget]

theorem truthful_buildingRun : Admitted (step siteEnv) Truthful new buildingRun := by
  rw [buildingRun, admitted_append]
  exact ⟨waitingRun_quiet.1, trivial, trivial⟩

theorem buildingRun_starts : ∃ registry record asked sent,
    (run (step siteEnv) new buildingRun).packages.threads[4]? = some ⟨⟨widget, .materialize (some widgetBody)⟩,
      Fleet.handle siteEnv.objects ⟨widget, .materialize (some widgetBody)⟩⟩ ∧
    PackageObject.registry ((run (step siteEnv) new buildingRun).packages.scene.world.rows widget) none
      = .ok registry ∧
    registry.nextEligible (emptyOutside .readSnapshot).time = some ("0.1.7".toList, record) ∧
    Sendable siteEnv.objects widgetBody widget record.toMaterializationJob [] asked sent ∧
    (run (step siteEnv) new buildingRun).bucket = ObjectStore.empty ∧
    ∀ waiting ∈ waitingVisits, ∃ visit, (run (step siteEnv) new buildingRun).visits[waiting.1]? = some visit ∧
      visit.request = waiting.2 ∧ AsksBucket visit := by
  obtain ⟨hthreads, hvisits, hrequests, hleasable⟩ := waitingRun_waits.1
  obtain ⟨-, hempty⟩ := waitingRun_quiet
  rw [buildingRun, run_append]
  generalize run (step siteEnv) new waitingRun = site at *
  obtain ⟨registry, record, asked, sent, hload, hnext, hsendable⟩ := leasable_some hleasable
  obtain ⟨admissions, packages, visits⟩ := site
  have hthree : visits.length = 3 := by simpa using congrArg List.length hvisits
  obtain ⟨asking, visit, mirror, rfl⟩ := List.length_eq_three.1 hthree
  simp only [List.map_cons, List.map_nil, List.cons.injEq, Prod.mk.injEq, and_true] at hvisits hrequests
  obtain ⟨next, hprogram⟩ := packageAsked_some hvisits.1.1
  have hasked := @step_asked siteEnv ⟨admissions, packages, [asking, visit, mirror]⟩ 0 asking widget _ next rfl
    hvisits.1.2 hprogram
  rw [run_cons, run_nil, hasked]
  refine ⟨registry, record, asked, sent, ?_, hload, hnext, hsendable, hempty, ?_⟩
  · change (packages.threads ++ [_])[4]? = _
    rw [List.getElem?_append_right (le_of_eq hthreads), hthreads]
    rfl
  · obtain ⟨-, ⟨hvisit, hasks⟩, hmirror, hasks'⟩ := hrequests
    rintro waiting hwaiting
    rcases List.mem_pair.1 hwaiting with rfl | rfl
    · exact ⟨visit, rfl, hvisit, keyAsked_some hasks⟩
    · exact ⟨mirror, rfl, hmirror, keyAsked_some hasks'⟩

/-- From every state, a materialization that is let through to its end, without a failing call,
    publishes its whole batch and the version, or gives the version back because other bytes
    are under a key of the batch. -/
theorem materialization_finished (env : DeploymentEnv) {events : List DeploymentEvent} {i : ℕ}
    {package : PackageName} {body : MaterializeBody}
    (hthread : (run (step env) new events).packages.threads[i]? = some ⟨⟨package, .materialize (some body)⟩,
      Fleet.handle env.objects ⟨package, .materialize (some body)⟩⟩)
    {registry : PackageRegistry} {version : Str} {record : VersionRecord} {libraries : Libraries}
    {archive : Bytes} {asked : Request} {sent : StreamedRequest} {outside : Outside}
    (hload : PackageObject.registry ((run (step env) new events).packages.scene.world.rows package) none
      = .ok registry)
    (hnext : registry.nextEligible (outside .readSnapshot).time = some (version, record))
    (hsendable : Sendable env.objects body package record.toMaterializationJob archive asked sent)
    (hobliging : Obliging env.objects libraries archive asked outside) :
    ∃ (choices : List Choice) (outcome : MaterializationOutcome) (b : PackageBatch) (reply : Reply ObjectBody)
      (after : Deployment),
      runMaterialization libraries (sentInput package record.toMaterializationJob body) archive = .ok outcome ∧
      b.job = (sentInput package record.toMaterializationJob body).job ∧
      outcome.uploads = b.objects.map BatchObject.upload ∧
      Admitted (step env) (ObjectsAdmit fun _ _ _ call choice => choice = outside call.2)
        (run (step env) new events) (choices.map (.object i)) ∧
      after = run (step env) new (events ++ choices.map (.object i)) ∧
      after.visits = (run (step env) new events).visits ∧
      after.packages.Finished i ⟨package, .materialize (some body)⟩ reply ∧
      (run (step env) new events).bucket.Grows after.bucket ∧
      (∀ other, other ≠ package → after.packages.scene.world.rows other
        = (run (step env) new events).packages.scene.world.rows other) ∧
      Ends registry version record outcome b (run (step env) new events).bucket
        (after.packages.scene.world.object package) reply := by
  have hown := (packages_own env events).rows package
  obtain ⟨choices, outcome, b, reply, after, hrun, hjob, huploads, hadmitted, hafter, hrest⟩ :=
    run_materialization (tracked_run env events) hown hthread hload hnext hsendable hobliging
  refine ⟨choices, outcome, b, reply, after, hrun, hjob, huploads, hadmitted, ?_, hrest⟩
  rw [hafter, run_append]

theorem compatible_empty (batch : List BatchObject) : Compatible batch ObjectStore.empty :=
  fun _ _ => .inl rfl

theorem materialization_finished_buildingRun : ∃ (choices : List Choice) (registry : PackageRegistry) (record : VersionRecord)
    (outcome : MaterializationOutcome) (b : PackageBatch) (reply : Reply ObjectBody),
    Ends registry "0.1.7".toList record outcome b ObjectStore.empty
      ((run (step siteEnv) new (buildingRun ++ choices.map (.object 4))).packages.scene.world.object widget)
      reply ∧ Compatible b.objects ObjectStore.empty := by
  obtain ⟨registry, record, asked, sent, hthread, hload, hnext, hsendable, hempty, -⟩ := buildingRun_starts
  obtain ⟨choices, outcome, b, reply, after, -, -, -, -, rfl, -, -, -, -, hends⟩ :=
    materialization_finished siteEnv hthread hload hnext hsendable (obliging_emptyOutside asked)
  rw [hempty] at hends
  exact ⟨choices, registry, record, outcome, b, reply, hends, compatible_empty _⟩

def versionArtifact : ArtifactPath :=
  ⟨"synthetic/acme/widget/0.1.7".toList, "synthetic/acme/widget/0.1.7_meta.json".toList⟩

theorem servedFor_version {request : Request}
    (h : request.url.pathname = versionRequest.url.pathname) :
    ServedFor siteEnv.worker request widget ⟨"acme".toList⟩ := by
  unfold ServedFor
  rw [h]
  exact ⟨⟨⟨[("acme".toList, ⟨"acme".toList⟩)], by decide⟩, ["ann".toList]⟩, by decide +kernel, by decide +kernel,
    by decide +kernel⟩

theorem forArtifact_version {request : Request}
    (h : request.url.pathname = versionRequest.url.pathname) : ForArtifact request widget versionArtifact := by
  unfold ForArtifact
  rw [h]
  decide +kernel

theorem waitingVisits_path : ∀ waiting ∈ waitingVisits,
    waiting.2.url.pathname = versionRequest.url.pathname := by decide

theorem versionArtifact_lead {job : Materializer.MaterializationJob} (hpackage : job.package = widget)
    (hversion : job.version = "0.1.7".toList) : packageKeyPrefix job = versionArtifact.versionPrefix := by
  have hlead : "synthetic/".toList ++ widget.scope ++ '/' :: widget.name ++ '/' :: "0.1.7".toList
      = versionArtifact.versionPrefix := by decide +kernel
  unfold packageKeyPrefix
  rw [hpackage, hversion, hlead]

theorem outcomeRecord_published (record : VersionRecord) (outcome : Outcome) :
    (outcomeRecord record outcome).state.published = true ∧
      (outcomeRecord record outcome).version = record.version := by
  cases outcome <;> exact ⟨rfl, rfl⟩

theorem built_version : ∃ (events : List DeploymentEvent) (record : VersionRecord) (object : R2Object),
    Admitted (step siteEnv) Truthful new events ∧
    record ∈ PackageObject.records ((run (step siteEnv) new events).packages.scene.world.rows widget) ∧
    record.state.published = true ∧ record.version = "0.1.7".toList ∧
    ∀ waiting ∈ waitingVisits, ∃ visit, (run (step siteEnv) new events).visits[waiting.1]? = some visit ∧
      visit.request = waiting.2 ∧ AsksBucket visit ∧
      WillServe siteEnv (run (step siteEnv) new events) waiting.1 visit versionArtifact object := by
  obtain ⟨registry, record, asked, sent, hthread, hload, hnext, hsendable, hempty, hwaiting⟩ := buildingRun_starts
  have hconsistent := (packages_genuine truthful_buildingRun).1
  obtain ⟨choices, outcome, b, reply, after, -, hjob, -, hadmitted, rfl, hvisits, -, -, -, hends⟩ :=
    run_materialization (tracked_run siteEnv buildingRun) ⟨hconsistent.sound widget, hconsistent.named widget⟩
      hthread hload hnext hsendable (obliging_emptyOutside asked)
  have hversion : record.version = "0.1.7".toList :=
    ((PackageObject.registry_loaded (hconsistent.sound widget) hload).inStep.coherent.record _ _
      (PackageRegistry.nextEligible_some hnext).1).version
  rw [hempty] at hends
  rw [← hvisits] at hwaiting
  rw [← run_append] at hwaiting hends
  have htruthful : Admitted (step siteEnv) Truthful new (buildingRun ++ choices.map (.object 4)) := by
    rw [admitted_append]
    exact ⟨truthful_buildingRun, truthful_emptyOutside hadmitted⟩
  generalize buildingRun ++ choices.map (.object 4) = events at *
  cases hends with
  | refused hincompatible => exact absurd (compatible_empty _) hincompatible
  | published _ hrow hheld =>
    have hlead : packageKeyPrefix b.job = versionArtifact.versionPrefix :=
      versionArtifact_lead (by rw [hjob]; rfl) (by rw [hjob]; exact hversion)
    obtain ⟨object, hobject, -⟩ := hheld b.metadata Publication.metadataObject_mem
    obtain ⟨marker, hmarker, -⟩ := hheld (markerObject b.job b.files) Publication.markerObject_mem
    change (run (step siteEnv) new events).bucket (packageKeyPrefix b.job ++ "_meta.json".toList) = _ at hobject
    change (run (step siteEnv) new events).bucket (packageKeyPrefix b.job ++ ".ready.json".toList) = _ at hmarker
    rw [hlead] at hobject hmarker
    obtain ⟨hpublished, hnamed⟩ := outcomeRecord_published record outcome.completion
    refine ⟨events, _, object, htruthful, ?_, hpublished, hnamed.trans hversion, ?_⟩
    · change _ ∈ PackageObject.records ((run (step siteEnv) new events).packages.scene.world.object widget).row
      rw [hrow]
      exact (OrderedMap.mem_values _ _).2 ⟨_, OrderedMap.get?_set_self _ _ _⟩
    · intro waiting hmem
      obtain ⟨visit, hvisit, hrequest, hasks⟩ := hwaiting waiting hmem
      have hpathname : visit.request.url.pathname = versionRequest.url.pathname := by
        rw [hrequest]
        exact waitingVisits_path waiting hmem
      obtain ⟨n, hreads⟩ := reads_of_asks (fetches_run siteEnv events visit (List.mem_of_getElem? hvisit) _ _ _
        (servedFor_version hpathname) (forArtifact_version hpathname)) hasks
      exact ⟨visit, hvisit, hrequest, hasks, willServe_of_reads hvisit hreads (by rw [hmarker]; rfl) hobject⟩

open Publication in
/-- In every run, all files of a published version can be had: whoever is granted and asks the
    bucket for one of them gets it, whatever else goes on. -/
theorem published_available (env : DeploymentEnv) {events : List DeploymentEvent}
    (htruthful : Admitted (step env) Truthful new events) {identity : PackageName} {record : VersionRecord}
    (hrecord : record ∈ PackageObject.records ((run (step env) new events).packages.scene.world.rows identity))
    (hpublished : record.state.published = true) :
    ∃ input outcome, Fleet.Answered (run (step env) new events).packages.scene.history input outcome ∧
      input.job.package = identity ∧ input.job.version = record.version ∧ outcome.state = record.state ∧
      ∀ upload ∈ outcome.uploads, ∃ object : R2Object,
        (run (step env) new events).bucket upload.key = some object ∧ object.sha256 = some upload.sha256 ∧
        ∀ i visit scope artifact, (run (step env) new events).visits[i]? = some visit → AsksBucket visit →
          ServedFor env.worker visit.request identity scope → ForArtifact visit.request identity artifact →
          artifact.key = upload.key → WillServe env (run (step env) new events) i visit artifact object := by
  obtain ⟨hconsistent, -⟩ := packages_genuine htruthful
  obtain ⟨outcome, ⟨input, hanswered, hpackage, hversion, hheld⟩, hstate⟩ :=
    hconsistent.published identity record hrecord hpublished
  refine ⟨input, outcome, hanswered, hpackage, hversion, hstate, ?_⟩
  obtain ⟨libraries, archive, hrun⟩ := hanswered.1
  obtain ⟨outcome', files, exports, hrun', -, huploads⟩ := runMaterialization_uploads libraries input archive
  obtain rfl := Except.ok.inj (hrun.symm.trans hrun')
  intro upload hupload
  obtain ⟨object, hobject, hsha⟩ := hheld upload hupload
  refine ⟨object, hobject, hsha, ?_⟩
  intro i visit scope artifact hvisit hasks hserved hpath hkey
  -- the artifact is one of this version, whose marker is there as well
  obtain ⟨pathname, hidentity⟩ := hserved.identified
  obtain ⟨hscope, hname, -⟩ := Identity.parsePackageIdentity_some hidentity
  obtain ⟨major, sequence, hmajor, hsequence, hallocated⟩ :=
    allocated_record (hconsistent.sound identity) hrecord
  have hjob : R2Publication.IsAllocated input.job :=
    ⟨by rw [hpackage]; exact hscope, by rw [hpackage]; exact hname,
      ⟨major, sequence, hmajor, hsequence, hversion.trans hallocated⟩⟩
  have hplain : PlainIdentity identity := by
    obtain ⟨config, -, hidentity, -⟩ := hserved
    exact plainIdentity_requested hidentity
  obtain ⟨version, -, hslash, hlead, hcontent⟩ := Worker.syntheticArtifactPath_some hpath.2.2
  have hversionKey : IsVersionKey input.job artifact.key := by
    rw [huploads] at hupload
    obtain ⟨held, hin, rfl⟩ := List.mem_map.1 hupload
    rw [hkey]
    exact isVersionKey_of_batch hin
  obtain ⟨-, hsame⟩ := contentKey_version hplain hslash hcontent hjob hversionKey
  have hmarker : ((run (step env) new events).bucket
      (artifact.versionPrefix ++ ".ready.json".toList)).isSome = true := by
    have hmem : (markerObject input.job files).upload ∈ outcome.uploads := by
      rw [huploads]
      exact List.mem_map_of_mem (List.mem_append_right _ (List.mem_cons_of_mem _ List.mem_cons_self))
    obtain ⟨marker, hmarker, -⟩ := hheld _ hmem
    have hmarkerKey : (markerObject input.job files).upload.key
        = artifact.versionPrefix ++ ".ready.json".toList := by
      rw [hlead, ← hsame, ← hpackage]
      rfl
    rw [hmarkerKey] at hmarker
    change ((run (step env) new events).packages.scene.world.objects _).isSome = true
    rw [hmarker]
    rfl
  have hobject' : (run (step env) new events).bucket artifact.key = some object := by
    rw [hkey]
    exact hobject
  obtain ⟨n, hreads⟩ := reads_of_asks
    (fetches_run env events visit (List.mem_of_getElem? hvisit) identity scope artifact hserved hpath) hasks
  exact willServe_of_reads hvisit hreads hmarker hobject'

theorem published_available_built : ∃ events input outcome object visit,
    Fleet.Answered (run (step siteEnv) new events).packages.scene.history input outcome ∧
      input.job.package = widget ∧ input.job.version = "0.1.7".toList ∧
      (run (step siteEnv) new events).visits[1]? = some visit ∧
      WillServe siteEnv (run (step siteEnv) new events) 1 visit versionArtifact object := by
  obtain ⟨events, record, _, htruthful, hrecord, hpublished, hnamed, hwaiting⟩ := built_version
  obtain ⟨visit, hvisit, hrequest, hasks, -⟩ := hwaiting (1, versionRequest) List.mem_cons_self
  obtain ⟨input, outcome, hanswered, hpackage, hversion, -, hserves⟩ :=
    published_available siteEnv htruthful hrecord hpublished
  obtain ⟨libraries, archive, hrun⟩ := hanswered.1
  obtain ⟨outcome', files, exports, hrun', -, huploads⟩ := runMaterialization_uploads libraries input archive
  obtain rfl := Except.ok.inj (hrun.symm.trans hrun')
  have hupload : (metadataObject input.job files exports).upload ∈ outcome.uploads := by
    rw [huploads]
    exact List.mem_map_of_mem (List.mem_append_right _ List.mem_cons_self)
  obtain ⟨object, -, -, hvisits⟩ := hserves _ hupload
  refine ⟨events, input, outcome, object, visit, hanswered, hpackage, hversion.trans hnamed, hvisit, ?_⟩
  refine hvisits 1 visit ⟨"acme".toList⟩ versionArtifact hvisit hasks
    (servedFor_version (by rw [hrequest])) (forArtifact_version (by rw [hrequest])) ?_
  change _ = packageKeyPrefix input.job ++ "_meta.json".toList
  rw [versionArtifact_lead hpackage (hversion.trans hnamed)]
  decide +kernel

theorem served_status (key : Str) (object : R2ObjectLike) (request : Request) :
    (R2Artifacts.serveObject key object request).status < 400 := by
  unfold R2Artifacts.serveObject
  dsimp only
  split_ifs
  · exact (by decide : 304 < 400)
  · exact (by decide : 200 < 400)

/-- The last two answers of a visit that asks the bucket. -/
def lastReads (i : ℕ) : List DeploymentEvent := [.answer i undisturbed, .answer i undisturbed]

theorem lastReads_kept {i : ℕ} {events : List DeploymentEvent}
    (h : ∀ e ∈ events, ∃ j, e = .answer j undisturbed) (choice : VisitChoice)
    (hchoice : .answer i choice ∈ events) : choice.lost = none := by
  obtain ⟨j, he⟩ := h _ hchoice
  obtain ⟨-, rfl⟩ := DeploymentEvent.answer.inj he
  rfl

/-- Two visits have been served the version, one after the other. -/
theorem served_version : ∃ (events : List DeploymentEvent) (visit mirror : Visit) (response response' : Response),
    Admitted (step siteEnv) Truthful new (events ++ lastReads 1) ∧
    visit ∈ (run (step siteEnv) new (events ++ lastReads 1)).visits ∧ visit.request = versionRequest ∧
    visit.program = .done (.ok (.own response)) ∧ response.status < 400 ∧
    mirror ∈ (run (step siteEnv) new (events ++ lastReads 1 ++ lastReads 2)).visits ∧
    mirror.request = mirrorRequest ∧ mirror.program = .done (.ok (.own response')) ∧ response'.status < 400 := by
  obtain ⟨events, -, object, htruthful, -, -, -, hwaiting⟩ := built_version
  obtain ⟨visit, -, hrequest, -, hwill⟩ := hwaiting (1, versionRequest) List.mem_cons_self
  obtain ⟨mirror, -, hmirror, -, hwill'⟩ :=
    hwaiting (2, mirrorRequest) (List.mem_cons_of_mem _ List.mem_cons_self)
  obtain ⟨visit', hvisit', hrequest', -, hserved⟩ := hwill (lastReads 1) (lastReads_kept (by
    intro e he
    rcases List.mem_pair.1 he with rfl | rfl <;> exact ⟨1, rfl⟩))
  obtain ⟨mirror', hvisit'', hrequest'', -, hserved'⟩ := hwill' (lastReads 1 ++ lastReads 2) (lastReads_kept (by
    intro e he
    rcases List.mem_append.1 he with he | he
    · rcases List.mem_pair.1 he with rfl | rfl <;> exact ⟨1, rfl⟩
    · rcases List.mem_pair.1 he with rfl | rfl <;> exact ⟨2, rfl⟩))
  rw [← run_append] at hvisit' hvisit''
  rw [← List.append_assoc] at hvisit''
  refine ⟨events, visit', mirror', _, _, ?_, List.mem_of_getElem? hvisit', hrequest'.trans hrequest,
    hserved (by decide), served_status _ _ _, List.mem_of_getElem? hvisit'', hrequest''.trans hmirror,
    hserved' (by decide), served_status _ _ _⟩
  rw [admitted_append]
  exact ⟨htruthful, trivial, trivial, trivial⟩

/-- Whoever is served an artifact's path at any two points of a run is served one object. -/
theorem one_object_served (env : DeploymentEnv) (events later : List DeploymentEvent) {visit visit' : Visit}
    (hvisit : visit ∈ (run (step env) new events).visits)
    (hvisit' : visit' ∈ (run (step env) new (events ++ later)).visits) {identity : PackageName}
    {scope : GitHubScope} (hserved : ServedFor env.worker visit.request identity scope)
    (hsame : visit'.request.url.pathname = visit.request.url.pathname) {artifact : Worker.ArtifactPath}
    (hpath : ForArtifact visit.request identity artifact) {response response' : Response}
    (hprogram : visit.program = .done (.ok (.own response))) (hstatus : response.status < 400)
    (hprogram' : visit'.program = .done (.ok (.own response'))) (hstatus' : response'.status < 400) :
    ∃ object, (run (step env) new events).bucket artifact.key = some object ∧
      response = R2Artifacts.serveObject artifact.key (env.delivered artifact.key object) visit.request ∧
      response' = R2Artifacts.serveObject artifact.key (env.delivered artifact.key object) visit'.request := by
  have hserved' : ServedFor env.worker visit'.request identity scope := by
    unfold ServedFor
    rw [hsame]
    exact hserved
  have hpath' : ForArtifact visit'.request identity artifact := by
    unfold ForArtifact
    rw [hsame]
    exact hpath
  obtain ⟨object, hobject, hresponse, -⟩ :=
    artifact_served ((tracked_run env events).visits visit hvisit) hserved hpath hprogram hstatus
  obtain ⟨object', hobject', hresponse', -⟩ :=
    artifact_served ((tracked_run env (events ++ later)).visits visit' hvisit') hserved' hpath' hprogram' hstatus'
  have hgrows := retains_run env (run (step env) new events) later
  rw [← run_append] at hgrows
  obtain rfl := Option.some.inj ((hgrows _ _ hobject).symm.trans hobject')
  exact ⟨object, hobject, hresponse, hresponse'⟩

theorem one_object_served_version : ∃ events visit mirror response response' object,
    visit ∈ (run (step siteEnv) new (events ++ lastReads 1)).visits ∧ visit.request = versionRequest ∧
      mirror ∈ (run (step siteEnv) new (events ++ lastReads 1 ++ lastReads 2)).visits ∧
      mirror.request = mirrorRequest ∧ visit.program = .done (.ok (.own response)) ∧
      mirror.program = .done (.ok (.own response')) ∧
      (run (step siteEnv) new (events ++ lastReads 1)).bucket versionArtifact.key = some object ∧
      response = R2Artifacts.serveObject versionArtifact.key (siteEnv.delivered versionArtifact.key object)
        visit.request ∧
      response' = R2Artifacts.serveObject versionArtifact.key (siteEnv.delivered versionArtifact.key object)
        mirror.request := by
  obtain ⟨events, visit, mirror, response, response', -, hvisit, hrequest, hprogram, hstatus, hmirror, hrequest',
    hprogram', hstatus'⟩ := served_version
  have hsame : mirror.request.url.pathname = visit.request.url.pathname := by
    rw [hrequest, hrequest']
    rfl
  obtain ⟨object, hobject, hresponse, hresponse'⟩ := one_object_served siteEnv (events ++ lastReads 1)
    (lastReads 2) hvisit hmirror (servedFor_version (by rw [hrequest])) hsame
    (forArtifact_version (by rw [hrequest])) hprogram hstatus hprogram' hstatus'
  exact ⟨events, visit, mirror, response, response', object, hvisit, hrequest, hmirror, hrequest', hprogram,
    hprogram', hobject, hresponse, hresponse'⟩

/-- In every run, what is served under an artifact's path was materialized from the tarball of
    the version's commit. -/
theorem materialized_of_served (env : DeploymentEnv) {events : List DeploymentEvent}
    (htruthful : Admitted (step env) Truthful new events) {visit : Visit}
    (hvisit : visit ∈ (run (step env) new events).visits) {identity : PackageName} {scope : GitHubScope}
    (hserved : ServedFor env.worker visit.request identity scope) {artifact : Worker.ArtifactPath}
    (hpath : ForArtifact visit.request identity artifact) {response : Response}
    (hprogram : visit.program = .done (.ok (.own response))) (hstatus : response.status < 400) :
    ∃ object : R2Object,
      response = R2Artifacts.serveObject artifact.key (env.delivered artifact.key object) visit.request ∧
      MaterializedFrom env (run (step env) new events) identity scope artifact object.value := by
  have htracked := tracked_run env events
  obtain ⟨hconsistent, hgenuine⟩ := packages_genuine htruthful
  obtain ⟨object, hobject, hresponse, -⟩ :=
    artifact_served (htracked.visits visit hvisit) hserved hpath hprogram hstatus
  exact ⟨object, hresponse, materializedFrom_of_held htracked hconsistent hgenuine
    (packages_accounted htruthful) hserved hpath hobject⟩

theorem materialized_of_served_version : ∃ events object,
    MaterializedFrom siteEnv (run (step siteEnv) new events) widget ⟨"acme".toList⟩ versionArtifact
      (object : R2Object).value := by
  obtain ⟨events, visit, -, response, -, htruthful, hvisit, hrequest, hprogram, hstatus, -⟩ := served_version
  obtain ⟨object, -, hfrom⟩ := materialized_of_served siteEnv htruthful hvisit
    (servedFor_version (by rw [hrequest])) (forArtifact_version (by rw [hrequest])) hprogram hstatus
  exact ⟨_, object, hfrom⟩

end Deployment
end JsrProxy
