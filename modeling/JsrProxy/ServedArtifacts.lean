import JsrProxy.AgreedHandlers
import JsrProxy.KeptDecisions
import JsrProxy.ListenerAnswers
import JsrProxy.SentArchives
import JsrProxy.TrackedVisits

set_option autoImplicit false

/-!
# Served artifacts

What a deployment serves under an artifact's path is one object for all time, whatever
interleaves. Where the Containers answer as their listener does, it is an upload of a run
on the tarball that GitHub gave for the commit of the version.
-/
namespace JsrProxy
open ObjectHandlers Identity

namespace Deployment

open Executions

theorem retains_run (env : DeploymentEnv) (site : Deployment) (events : List DeploymentEvent) :
    site.bucket.Grows (run (step env) site events).bucket :=
  run_related (fun _ => True) (fun _ _ => True) (fun site after : Deployment => site.bucket.Grows after.bucket)
    (fun _ _ _ _ => trivial) (fun site e _ _ => (step_steps env site e).retains.bucket) (fun _ => .refl _)
    (fun _ _ _ h h' => h.trans h') site events trivial (admitted_true _ _ _)

theorem artifact_served {env : DeploymentEnv} {site : Deployment} {visit : Visit}
    (htracked : TrackedVisit env site visit) {identity : PackageName} {scope : GitHubScope}
    (hserved : ServedFor env.worker visit.request identity scope) {artifact : Worker.ArtifactPath}
    (hpath : ForArtifact visit.request identity artifact) {response : Response}
    (hprogram : visit.program = .done (.ok (.own response))) (hstatus : response.status < 400) :
    ∃ object, site.bucket artifact.key = some object ∧
      response = R2Artifacts.serveObject artifact.key (env.delivered artifact.key object) visit.request ∧
      (site.bucket (artifact.versionPrefix ++ ".ready.json".toList)).isSome = true := by
  have hjustified := htracked.justified
  rw [hprogram] at hjustified
  cases hjustified with
  | done howes =>
    have hexplained := howes identity scope hserved _ rfl
    have hbehind := htracked.behind
    generalize visit.past = past at hexplained hbehind
    cases hexplained with
    | refused hrefused => exact absurd hstatus (Nat.not_lt.2 hrefused)
    | status _ hstatusPath =>
      rw [hpath.1] at hstatusPath
      cases hstatusPath
    | metadata _ hmetadata => exact absurd hmetadata.2 hpath.2.1
    | @artifact past artifact' marker object _ hpath' =>
      obtain rfl := Option.some.inj (hpath.2.2.symm.trans hpath'.2.2)
      obtain ⟨held, hheld, rfl⟩ := hbehind _ List.mem_cons_self
      obtain ⟨heldMarker, hmarker, -⟩ := hbehind _ (List.mem_cons_of_mem _ List.mem_cons_self)
      exact ⟨held, hheld, rfl, by rw [hmarker]; rfl⟩

end Deployment

namespace Fleet

def containerExchange (id : Str) (sent : StreamedRequest) (answer : Except Str Fetched) (now : ℤ) :
    Exchange objectCalls :=
  ⟨(.container id sent : ObjectCall), (answer, now)⟩

/-- A row that is read is its own package's, and a Container answers as its listener does. -/
structure Genuine (_ : History) (called : Called fleetCalls FleetRequest) : Prop where
  named : ∀ snapshot now, called.within = readExchange (.ok (some snapshot)) now → snapshot.name = called.op.1
  listened : ∀ id sent answer now, called.within = containerExchange id sent answer now →
    Service.Listened sent answer

/-- Requests are the Worker's, and Containers answer as their listener does. -/
structure Listens (s : FleetScene) (i : ℕ) (r : FleetRequest) (call : fleetCalls.Op) (choice : Choice) : Prop where
  request : FromWorker r
  listened : ∀ id sent, call.2 = .container id sent → Service.Listened sent choice.fetched

theorem Listens.served {s : FleetScene} {i : ℕ} {r : FleetRequest} {call : fleetCalls.Op} {choice : Choice}
    (h : Listens s i r call choice) : Served s i r call choice :=
  ⟨h.request, fun id sent hcall => (h.listened id sent hcall).answers⟩

theorem genuine_call {s : FleetScene} (h : Consistent s) {i : ℕ} {r : FleetRequest} {call : fleetCalls.Op}
    {choice : Choice} (hlistens : Listens s i r call choice) :
    Genuine s.history ⟨i, r, call, (s.call Fleet.answer i r choice call).1⟩ := by
  obtain ⟨package, call⟩ := call
  constructor
  · intro snapshot now hread
    obtain rfl : call = .readSnapshot := congrArg Exchange.op hread
    have hanswer : ((s.world.object package).perform choice .readSnapshot).1 = .ok (some snapshot) :=
      congrArg Prod.fst (eq_of_heq (Exchange.mk.inj hread).2)
    exact h.named package snapshot (World.perform_readSnapshot hanswer)
  · intro id sent answer now hcontainer
    obtain rfl : call = .container id sent := congrArg Exchange.op hcontainer
    have hanswer : choice.fetched = answer := congrArg Prod.fst (eq_of_heq (Exchange.mk.inj hcontainer).2)
    rw [← hanswer]
    exact hlistens.listened id sent rfl

open Executions

abbrev Respects (pool : FleetPool) : Prop :=
  RelyGuarantee.Respected Fleet.answer Served Consistent (fun _ => Follows) (fun _ => Keeps) (fun _ _ _ _ => True)
    pool

/-- In every run the rows and the bucket are consistent, and the calls genuine. -/
theorem genuine_reached {env : ObjectEnv} {pool : FleetPool}
    (h : Reached (FleetPool.step env) (Pool.Admits Listens) (.start Fleet.new) pool) :
    Consistent pool.scene ∧ Recorded Genuine pool.scene.history := by
  obtain ⟨events, rfl, ha⟩ := h
  have hstart : Respects (.start Fleet.new) ∧ Recorded Genuine [] :=
    ⟨⟨consistent_new, (fun _ hmem => nomatch hmem), (fun _ _ hi => nomatch hi)⟩, trivial⟩
  suffices hrun : ∀ pool e, Respects pool ∧ Recorded Genuine pool.scene.history → pool.Admits Listens e →
      Respects (FleetPool.step env pool e) ∧ Recorded Genuine (FleetPool.step env pool e).scene.history by
    have hend := run_invariant (fun pool : FleetPool => Respects pool ∧ Recorded Genuine pool.scene.history)
      (Pool.Admits Listens) hrun _ events hstart ha
    exact ⟨hend.1.invariant, hend.2⟩
  rintro pool e ⟨hrespected, hrecorded⟩ he
  have hadmits : pool.Admits Served e := by
    cases e with
    | start request => trivial
    | advance i choice => exact fun request op next hi => (he request op next hi).served
  refine ⟨(agreement_relyGuarantee env).respected_step hrespected hadmits, ?_⟩
  rcases Pool.step_cases (Fleet.handle env) Fleet.answer pool e with
    ⟨_, -, hstep⟩ | ⟨i, choice, request, op, next, rfl, hi, hstep⟩ | hstep
  · rw [FleetPool.step, hstep]
    exact hrecorded
  · rw [FleetPool.step, hstep]
    exact ⟨genuine_call hrespected.invariant (he request op next hi), hrecorded⟩
  · rw [FleetPool.step, hstep]
    exact hrecorded

end Fleet

theorem parsePackageIdentity_of {identity : PackageName} (hscope : isScope identity.scope = true)
    (hname : proxyableRepositoryName identity.name = some identity.name) :
    parsePackageIdentity ('/' :: '@' :: (identity.scope ++ '/' :: (identity.name ++ []))) = some identity := by
  have hvalid : isScope identity.name = true := by
    have hproxyable := hname
    unfold proxyableRepositoryName at hproxyable
    dsimp only at hproxyable
    split_ifs at hproxyable with h
    rw [← Option.some.inj hproxyable]
    exact h.1
  have hnone : ∀ c : Char, [].head? = some c → isNameChar c = false := fun _ h => by cases h
  rw [parsePackageIdentity, scopeAndName_append hscope hvalid hnone]
  simp [hname]

theorem ServedFor.identified {env : WorkerEnv} {request : Request} {identity : PackageName}
    {scope : GitHubScope} (h : ServedFor env request identity scope) :
    ∃ pathname, parsePackageIdentity pathname = some identity := by
  obtain ⟨config, hconfig, hidentity, hscope⟩ := h
  have hconfigured : config.scopes.has identity.scope = true := by rw [OrderedMap.has, hscope]; rfl
  exact ⟨_, parsePackageIdentity_of (Config.parseConfig_isScope hconfig hconfigured)
    (Worker.requestedIdentity_some hidentity).2⟩

theorem contentKey_version {identity : PackageName} (h : PlainIdentity identity) {version key : Str}
    (hversion : '/' ∉ version) (hkey : IsContentKey identity version key)
    {job : Materializer.MaterializationJob} (hjob : R2Publication.IsAllocated job)
    (hversionKey : Publication.IsVersionKey job key) : job.package = identity ∧ job.version = version := by
  have hpackage : job.package = identity := by
    rcases hkey with rfl | ⟨rest, rfl⟩
    · exact versionKey_package h hjob hversionKey
    · exact versionKey_package h hjob hversionKey
  refine ⟨hpackage, ?_⟩
  obtain ⟨segment, rest, hsplit, hform⟩ := isVersionKey_segments hjob hversionKey
  rcases hkey with rfl | ⟨below, rfl⟩
  · rw [splitOn_metadata h hversion] at hsplit
    simp only [List.cons.injEq, true_and] at hsplit
    obtain ⟨-, -, hsegment, hrest⟩ := hsplit
    rcases hform with ⟨-, hmetadata | hmarker⟩ | ⟨hrest', -⟩
    · exact (List.append_cancel_right (hsegment.trans hmetadata)).symm
    · exact absurd (hsegment.trans hmarker).symm (marker_ne_metadata _ _)
    · exact absurd hrest.symm hrest'
  · rw [splitOn_below h hversion] at hsplit
    simp only [List.cons.injEq, true_and] at hsplit
    obtain ⟨-, -, hsegment, hrest⟩ := hsplit
    rcases hform with ⟨hrest', -⟩ | ⟨-, hsame⟩
    · rw [hrest'] at hrest
      exact absurd hrest (List.splitOn_ne_nil _ _)
    · exact hsame.symm.trans hsegment.symm

namespace Deployment

open Executions Fleet

def Truthful : Deployment → DeploymentEvent → Prop :=
  ObjectsAdmit fun _ _ _ call choice => ∀ id sent, call.2 = .container id sent → Service.Listened sent choice.fetched

theorem Asked.fromWorker {env : DeploymentEnv} {r : FleetRequest} (h : Asked env r) : FromWorker r := by
  obtain ⟨now, request, hmade⟩ := h
  obtain ⟨package, object⟩ := r
  dsimp only at hmade
  have hfrom : ∀ {identity : PackageName} {scope : GitHubScope},
      ServedFor env.worker request identity scope → packageId package = packageId identity →
        ∃ pathname, parsePackageIdentity pathname = some package := by
    intro identity scope hserved hname
    obtain rfl := hserved.package_eq hname
    exact hserved.identified
  generalize hname : packageId package = name at hmade
  cases hmade with
  | authorize hserved | status hserved | materialize hserved | recover hserved =>
    exact ⟨hfrom hserved hname, nofun, nofun⟩
  | refresh hserved =>
    refine ⟨hfrom hserved hname, ?_, nofun⟩
    rintro _ ⟨⟩
    exact (hserved.package_eq hname).symm

theorem packages_genuine {env : DeploymentEnv} {events : List DeploymentEvent}
    (h : Admitted (step env) Truthful new events) :
    Consistent (run (step env) new events).packages.scene ∧
      Recorded Genuine (run (step env) new events).packages.scene.history := by
  apply genuine_reached (packages_reached env ?_)
  refine admitted_of_invariant (Tracked env) Truthful _ (fun _ e htracked _ => htracked.step e) ?_ _ _
    (tracked_new env) h
  intro site e htracked htruthful
  cases e with
  | object j choice =>
    intro request call next hi
    exact ⟨(htracked.asked _ (List.mem_of_getElem? hi)).fromWorker, htruthful request call next hi⟩
  | arrive | ask | admission | answer => trivial

def SendsFor (env : ObjectEnv) (r : FleetRequest) (past : List (Exchange fleetCalls)) (op : fleetCalls.Op) : Prop :=
  op.1 = r.package ∧ SendsArchive env r.request (past.map Program.untag) op.2

theorem justified_sends (env : ObjectEnv) (r : FleetRequest) :
    (Fleet.handle env r).Justified (SendsFor env r) (fun _ _ => True) [] :=
  (justified_archives env r.request).tag rfl

theorem packages_accounted {env : DeploymentEnv} {events : List DeploymentEvent}
    (h : Admitted (step env) Truthful new events) :
    (run (step env) new events).packages.Accounted (SendsFor env.objects) (fun _ _ _ => True) := by
  obtain ⟨poolEvents, hrun, -⟩ := packages_reached env h
  rw [← hrun]
  change (run (Pool.step (Fleet.handle env.objects) Fleet.answer) (.start Fleet.new) poolEvents).Accounted _ _
  exact Pool.accounted_run (justified_sends env.objects) _ _

/-- The bytes are an upload of a run on the tarball of the version's commit, which GitHub
    gave for the repository to a materialization of this very package. -/
def MaterializedFrom (env : DeploymentEnv) (site : Deployment) (identity : PackageName) (scope : GitHubScope)
    (artifact : Worker.ArtifactPath) (bytes : Bytes) : Prop :=
  ∃ libraries input archive outcome upload i body program,
    Service.runMaterialization libraries input archive = .ok outcome ∧ upload ∈ outcome.uploads ∧
    upload.key = artifact.key ∧ upload.body = Service.base64Encode bytes ∧ input.job.package = identity ∧
    artifact.versionPrefix = versionPrefix identity input.job.version ∧
    site.packages.threads[i]? = some ⟨⟨identity, .materialize (some body)⟩, program⟩ ∧
    ArchiveFetched env.objects scope.owner identity.name input.job.commitSha body.pat
      ((ownExchanges site.packages.scene.history i).map Program.untag) (.bytes archive)

theorem leased_package {env : ObjectEnv} {pool : FleetPool} (hgenuine : Recorded Genuine pool.scene.history)
    (haccounted : pool.Accounted (SendsFor env) (fun _ _ _ => True)) {called : Called fleetCalls FleetRequest}
    (hcalled : called ∈ pool.scene.history) {later earlier : List (Called fleetCalls FleetRequest)}
    (hsplit : pool.scene.history = later ++ called :: earlier) {name : PackageName} {job : MaterializationJob}
    (hleased : LeasedIn ((ownExchanges earlier called.thread).map Program.untag) name job) :
    name = called.request.package := by
  obtain ⟨stored, registry, now, leased, hread, hloaded, rfl, -⟩ := hleased
  obtain ⟨read, hin, hthread, hwithin⟩ := ownExchanges_untag hread
  have hmem : read ∈ pool.scene.history := by
    rw [hsplit]
    exact List.mem_append_right _ (List.mem_cons_of_mem _ hin)
  cases stored with
  | none => cases hloaded
  | some snapshot =>
    obtain ⟨_, _, -, hnamed, -⟩ := hgenuine.of_mem hmem
    obtain ⟨_, _, -, hplace, -⟩ := haccounted.of_mem hmem
    rw [PackageObject.registry_name hloaded, hnamed snapshot now hwithin, hplace]
    exact congrArg FleetRequest.package (haccounted.request_eq hcalled hmem hthread)

/-- What the answered batches tell of one object of the bucket. -/
theorem materializedFrom_of_held {env : DeploymentEnv} {site : Deployment} (htracked : Tracked env site)
    (hconsistent : Consistent site.packages.scene) (hgenuine : Recorded Genuine site.packages.scene.history)
    (haccounted : site.packages.Accounted (SendsFor env.objects) (fun _ _ _ => True))
    {request : Request} {identity : PackageName} {scope : GitHubScope}
    (hserved : ServedFor env.worker request identity scope) {artifact : Worker.ArtifactPath}
    (hpath : ForArtifact request identity artifact) {object : R2Object}
    (hobject : site.bucket artifact.key = some object) :
    MaterializedFrom env site identity scope artifact object.value := by
  obtain ⟨b, ⟨input, outcome, hanswered, hjob, huploads⟩, held, hheld, hkey, rfl⟩ :=
    hconsistent.bucket.origin _ _ hobject
  obtain ⟨-, i, r, package, id, sent, response, now, hcalled, hok, hinput, hjson⟩ := hanswered
  -- the run that the listener's answer is the outcome of
  obtain ⟨later, earlier, hsplit, hlistened⟩ := hgenuine.of_mem hcalled
  obtain ⟨libraries, input', archive, outcome', harchive, hinput', hrun, houtcome⟩ :=
    (hlistened.listened id sent _ now rfl).run rfl hok hjson
  obtain rfl := Option.some.inj (hinput.symm.trans hinput')
  obtain rfl := Service.outcomeJson_injective houtcome
  -- the archive that the same handler sent, for a job of its own package
  obtain ⟨⟨asker, program⟩, hthread, rfl⟩ := haccounted.owned _ hcalled
  obtain ⟨later', earlier', hsplit', hplace, hsends⟩ := haccounted.of_mem hcalled
  obtain ⟨body, name, job, sentArchive, hmaterialize, hleased, hsent, hfetched⟩ := hsends id sent rfl
  have hname : name = asker.package := leased_package hgenuine haccounted hcalled hsplit' hleased
  obtain rfl : input = sentInput name job body :=
    Option.some.inj (hinput.symm.trans (materializationInput_sent hsent))
  have hplain : PlainIdentity identity := by
    obtain ⟨config, -, hidentity, -⟩ := hserved
    exact plainIdentity_requested hidentity
  obtain ⟨version, -, hslash, hlead, hcontent⟩ := Worker.syntheticArtifactPath_some hpath.2.2
  obtain ⟨hpackage, hversion⟩ := contentKey_version hplain hslash hcontent b.allocated
    (by rw [← hkey]; exact Publication.isVersionKey_of_batch hheld)
  rw [← hjob] at hpackage hversion
  obtain rfl : name = identity := hpackage
  -- the object of a package materializes from one repository only
  obtain ⟨asked, arrived, hmade⟩ := htracked.asked _ (List.mem_of_getElem? hthread)
  obtain ⟨package', object'⟩ := asker
  dsimp only at hmade hmaterialize hname
  subst hmaterialize hname
  generalize hid : packageId name = packageName at hmade
  cases hmade with
  | @materialize _ _ pat hserved' hpat =>
    obtain rfl : name = _ := hserved'.package_eq hid
    obtain rfl := hserved.scope_eq hserved'
    have hbytes : sentArchive = .bytes archive := (materializationRequest_body hsent).symm.trans harchive
    have hupload : held.upload ∈ outcome.uploads := by
      rw [huploads]
      exact List.mem_map_of_mem hheld
    refine ⟨libraries, _, archive, outcome, held.upload, i, _, program, hrun, hupload, hkey, rfl, rfl, ?_,
      hthread, ?_⟩
    · rw [hlead, ← hversion]
    · rw [hbytes] at hfetched
      apply hfetched.mono
      rw [hsplit', ownExchanges_append, List.map_append]
      apply List.subset_append_of_subset_right
      apply List.map_subset
      exact fun exchange hexchange => by
        rw [ownExchanges_self]
        exact List.mem_cons_of_mem _ hexchange

end Deployment
end JsrProxy
