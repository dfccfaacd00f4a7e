import JsrProxy.AgreedHandlers
import JsrProxy.PersistedRegistries
import JsrProxy.RetriedMaterializations
import JsrProxy.SentArchives
import JsrProxy.UninterruptedThreads

set_option autoImplicit false

/-!
# Undisturbed materializations

A materialization that nobody disturbs and whose calls do not fail. It leases the next
version, publishes the batch that the Container makes of the archive, and completes the
version, unless the bucket holds other bytes under a key of the batch.
-/
namespace JsrProxy
open Executions PackageObject R2Publication Service

namespace R2Publication

/-- The bucket holds no other bytes under the keys of the batch. -/
def Compatible (batch : List BatchObject) (bucket : R2Bucket) : Prop :=
  ∀ object ∈ batch, bucket object.key = none ∨ object.HeldBy bucket

theorem bucketAnswer_available (objects : R2Bucket) (call : R2Call) :
    World.bucketAnswer objects none call = available objects call := by
  cases call with
  | head key => rfl
  | put key object =>
    unfold World.bucketAnswer available
    cases objects key <;> rfl

theorem available_step {bucket after : R2Bucket} {call : R2Call}
    {answer : Except Str (Option R2StoredObject)} (h : available bucket call = (answer, after)) :
    R2Step bucket call answer after := by
  have hstep := World.bucketAnswer_step bucket none call
  rw [bucketAnswer_available, h] at hstep
  exact hstep

theorem putArtifact_answers (key : Str) (bytes : Bytes) (expected : Str) (bucket : R2Bucket) :
    ∃ response after, (putArtifact key bytes expected).run available bucket = (.ok response, after) := by
  rw [putArtifact, Program.run_call]
  cases h : bucket key with
  | none =>
    simp only [available, h]
    exact ⟨_, _, rfl⟩
  | some existing =>
    simp only [available, h, Program.run_call]
    split_ifs <;> exact ⟨_, _, rfl⟩

theorem publishUploads_answers {batch : List BatchObject} (haddressed : ∀ object ∈ batch, object.Addressed)
    (bucket : R2Bucket) : ∃ response after,
    (publishUploads (batch.map fun object => uploadJson object.upload)).run available bucket
      = (.ok response, after) := by
  induction batch generalizing bucket with
  | nil => exact ⟨_, _, rfl⟩
  | cons object rest ih =>
    obtain ⟨request, hrequest, hpublish⟩ := publishArtifact_upload (haddressed object List.mem_cons_self)
    obtain ⟨response, after, hrun⟩ := putArtifact_answers object.key object.bytes (sha256Hex object.bytes) bucket
    rw [List.map_cons, publishUploads_cons hrequest, hpublish, Program.run_bind, hrun]
    dsimp only
    split_ifs
    · exact ih (fun o ho => haddressed o (List.mem_cons_of_mem _ ho)) after
    · exact ⟨response, after, rfl⟩

/-- A batch is accepted exactly if nothing else is under its keys, and then all of it is there. -/
theorem publishArtifactBatch_available (b : PackageBatch) (bucket : R2Bucket) : ∃ response after,
    (publishArtifactBatch (batchRequest (b.objects.map fun object => uploadJson object.upload))).run available
      bucket = (.ok response, after) ∧ bucket.Grows after ∧
    (response.ok = true ↔ Compatible b.objects bucket) ∧
    (response.ok = true → ∀ object ∈ b.objects, object.HeldBy after) := by
  have hne : b.objects ≠ [] := Publication.batchOf_ne_nil _ _ _
  obtain ⟨response, after, hrun⟩ := publishUploads_answers b.addressed bucket
  rw [← publishArtifactBatch_uploads hne] at hrun
  have hruns := Program.runs_run available
    (publishArtifactBatch (batchRequest (b.objects.map fun object => uploadJson object.upload))) bucket
  rw [hrun] at hruns
  have hensures : Program.Ensures R2Step (fun s t : R2Bucket => s.Grows t) (fun s t : R2Bucket => s.Grows t)
      (Accepted fun t => ∀ o ∈ b.objects, o.HeldBy t)
      (publishArtifactBatch (batchRequest (b.objects.map fun object => uploadJson object.upload))) bucket :=
    publishArtifactBatch_ensures bucket (fun _ _ h => h) (fun _ _ h => h) (fun _ => .refl _)
      (fun _ object _ _ t _ => ObjectStore.put_grows t object.key object.stored) hne b.addressed
  obtain ⟨haccepted, hgrows⟩ :=
    hensures.of_runs (fun _ => .refl _) (hruns.mono fun _ _ _ _ h => available_step h)
  have hgrown : bucket.Grows after := by
    change Relation.ReflTransGen _ bucket after at hgrows
    clear hrun hruns haccepted
    induction hgrows with
    | refl => exact .refl _
    | tail _ hstep ih => exact ih.trans hstep
  refine ⟨response, after, hrun, hgrown, ⟨?_, ?_⟩, fun hok => haccepted response rfl hok⟩
  · intro hok object hobject
    obtain ⟨held, hheld, hsha⟩ := haccepted response rfl hok object hobject
    cases hbefore : bucket object.key with
    | none => exact .inl rfl
    | some existing =>
      obtain rfl := Option.some.inj ((hgrown _ _ hbefore).symm.trans hheld)
      exact .inr ⟨existing, hbefore, hsha⟩
  · intro hcompatible
    obtain ⟨response', hrun', hok⟩ := publishUploads_available bucket b.addressed b.keys_nodup hcompatible
    rw [← publishArtifactBatch_uploads hne, hrun] at hrun'
    obtain rfl := Except.ok.inj hrun'
    exact hok

end R2Publication

namespace ObjectHandlers

/-- The outside's choice for each call. -/
abbrev Outside := ObjectCall → Choice

abbrev obliged (outside : Outside) (world : World) (op : objectCalls.Op) : objectCalls.Ret op × World :=
  answered World.answer outside world op

def Gives (env : ObjectEnv) (outside : Outside) (archive : Bytes) (asked : Request) : Prop :=
  ∃ response, (outside (.fetch asked .manual)).fetched = .ok response ∧
    ((response.ok = true ∧ response.body = .bytes archive ∧ response.hostname = codeload) ∨
      (response.ok = false ∧ ∃ url source, archiveRedirect env response = some url ∧
        (outside (.fetch ⟨"GET".toList, url, [], []⟩ .manual)).fetched = .ok source ∧
        source.ok = true ∧ source.body = .bytes archive))

/-- Nothing fails: GitHub gives the archive that is asked for, and the Container's listener
    answers. -/
structure Obliging (env : ObjectEnv) (libraries : Libraries) (archive : Bytes) (asked : Request)
    (outside : Outside) : Prop where
  storage : ∀ call, (outside call).fault = none
  bucket : ∀ call, (outside call).bucketFault = none
  source : Gives env outside archive asked
  container : ∀ id sent, sent.body = .bytes archive → ∃ response,
    (outside (.container id sent)).fetched = .ok response ∧
    response.status
      = (Service.handle libraries sent.method sent.url.pathname sent.headers (some archive)).status ∧
    response.body
      = .bytes (Service.handle libraries sent.method sent.url.pathname sent.headers (some archive)).body

variable {env : ObjectEnv} {libraries : Libraries} {archive : Bytes} {asked : Request} {outside : Outside}

theorem run_await (call : ObjectCall) (next : call.Answer → ℤ → Handling) (world : World) :
    (await call next).run (obliged outside) world =
      (next (world.perform (outside call) call).1 (outside call).time).run (obliged outside)
        { (world.perform (outside call) call).2 with clock := (outside call).time } := rfl

theorem run_loadedRegistry (h : Obliging env libraries archive asked outside) {world : World}
    {loaded : PackageRegistry} (hload : PackageObject.registry world.row none = .ok loaded)
    (next : PackageRegistry → ℤ → Handling) :
    (readRegistry none next).run (obliged outside) world =
      (next loaded (outside .readSnapshot).time).run (obliged outside)
        { world with clock := (outside .readSnapshot).time } := by
  rw [readRegistry, run_await]
  simp only [World.perform, h.storage, orThrow, hload]

theorem run_saveRegistry (h : Obliging env libraries archive asked outside) (world : World)
    (registry : PackageRegistry) (next : Except Str Unit → Handling) :
    (saveRegistry registry next).run (obliged outside) world =
      (next (.ok ())).run (obliged outside)
        { world with
          row := some registry.snapshot
          clock := (outside (.writeSnapshot registry.snapshot)).time } := by
  rw [saveRegistry, run_await]
  simp only [World.perform, h.storage]

theorem run_publishing {α : Type} (h : Obliging env libraries archive asked outside) (p : Program r2Calls α)
    (world : World) : ∃ clock, ∀ next : α → Handling,
    (publishing p next).run (obliged outside) world =
      (next (p.run available world.objects).1).run (obliged outside)
        { world with objects := (p.run available world.objects).2, clock := clock } := by
  induction p generalizing world with
  | done result => exact ⟨world.clock, fun _ => rfl⟩
  | call op rest ih =>
    have hanswer : World.bucketAnswer world.objects (outside (.bucket op)).bucketFault op
        = available world.objects op := by
      rw [h.bucket]
      exact bucketAnswer_available _ _
    obtain ⟨clock, hrun⟩ := ih (available world.objects op).1 { world with
      objects := (available world.objects op).2
      clock := (outside (.bucket op)).time }
    refine ⟨clock, fun next => ?_⟩
    rw [publishing, run_await]
    simp only [World.perform, hanswer]
    exact hrun next

theorem run_githubArchive (h : Obliging env libraries archive asked outside) {owner repository commitSha pat : Str}
    (hasked : Auth.githubRequest (tarballPath owner repository commitSha) pat = .ok asked)
    (world : World) : ∃ clock, ∀ next : Except Str (Option Body) → Handling,
    (githubArchive env owner repository commitSha pat next).run (obliged outside) world =
      (next (.ok (some (.bytes archive)))).run (obliged outside) { world with clock := clock } := by
  obtain ⟨response, hresponse, hgiven⟩ := h.source
  rcases hgiven with ⟨hok, hbody, hhost⟩ | ⟨hok, url, source, hredirect, hsource, hsourceOk, hsourceBody⟩
  · refine ⟨(outside (.fetch asked .manual)).time, fun next => ?_⟩
    rw [githubArchive, hasked]
    dsimp only
    rw [run_await]
    simp only [World.perform, hresponse]
    rw [hok, hbody, hhost, if_pos (by simp)]
  · refine ⟨(outside (.fetch ⟨"GET".toList, url, [], []⟩ .manual)).time, fun next => ?_⟩
    rw [githubArchive, hasked]
    dsimp only
    rw [run_await]
    simp only [World.perform, hresponse]
    rw [hok, if_neg (by simp), hredirect]
    dsimp only
    rw [run_await]
    simp only [World.perform, hsource]
    rw [hsourceOk, hsourceBody, if_pos (by simp)]

theorem registry_saved {registry : PackageRegistry} (hsound : registry.Sound)
    (hrange : registry.allocator.InRange) : ∃ restored,
    PackageObject.registry (some registry.snapshot) none = .ok restored ∧ registry.Twins restored := by
  obtain ⟨restored, hloads, htwins⟩ := (hsound.inStep hrange).loads hrange
  refine ⟨restored, ?_, htwins⟩
  rw [PackageObject.registry, hloads]

theorem settled_twins {registry restored : PackageRegistry} (h : registry.Twins restored) (version : Str)
    (outcome : Outcome) : (settled registry version outcome).1 = (settled restored version outcome).1 ∧
      (settled registry version outcome).2.Twins (settled restored version outcome).2 := by
  cases outcome with
  | ready => exact h.markReady version
  | yanked diagnostic => exact h.markYanked version diagnostic

theorem report_twins {registry restored : PackageRegistry} (h : registry.Twins restored) :
    PackageObject.report registry = PackageObject.report restored := by
  obtain ⟨allocator, -, rfl⟩ := h
  rfl

def outcomeRecord (record : VersionRecord) : Outcome → VersionRecord
  | .ready => record.asReady
  | .yanked diagnostic => record.asYanked diagnostic

theorem settled_of {registry : PackageRegistry} {version : Str} {record : VersionRecord}
    (hrecord : registry.versions.get? version = some record) (hstate : record.state = .leased)
    (outcome : Outcome) : settled registry version outcome
      = (.ok (), registry.updateVersion version (outcomeRecord record outcome)) := by
  have hpending : registry.requirePending version = .ok record := by
    rw [PackageRegistry.requirePending, hrecord]
    simp [hstate]
  cases outcome with
  | ready => rw [settled, PackageRegistry.markReady, hpending, outcomeRecord]
  | yanked diagnostic => rw [settled, PackageRegistry.markYanked, hpending, outcomeRecord]

theorem run_releaseLease (h : Obliging env libraries archive asked outside) {world : World}
    {registry released : PackageRegistry} {version : Str} (hrow : world.row = some registry.snapshot)
    (hsound : registry.Sound) (hrange : registry.allocator.InRange)
    (hreleased : registry.releaseLease version = (.ok (), released)) : ∃ clock,
    (releaseLease version).run (obliged outside) world =
      (.text 503 "materialization unavailable".toList (some "1".toList),
        { world with row := some released.snapshot, clock := clock }) := by
  obtain ⟨restored, hload, htwins⟩ := registry_saved hsound hrange
  obtain ⟨hresult, hafter⟩ := htwins.releaseLease version
  rw [hreleased] at hresult hafter
  refine ⟨(outside (.writeSnapshot released.snapshot)).time, ?_⟩
  rw [releaseLease, run_loadedRegistry h (by rw [hrow]; exact hload)]
  cases hrestored : restored.releaseLease version with
  | mk result saved =>
    rw [hrestored] at hresult hafter
    obtain rfl : Except.ok () = result := hresult
    dsimp only
    rw [run_saveRegistry h, ← hafter.snapshot]
    rfl

theorem run_finish (h : Obliging env libraries archive asked outside) {world : World}
    {registry completed : PackageRegistry} {version : Str} {outcome : Outcome}
    (hrow : world.row = some registry.snapshot) (hsound : registry.Sound) (hrange : registry.allocator.InRange)
    (hsettled : settled registry version outcome = (.ok (), completed)) : ∃ clock,
    (finish version outcome).run (obliged outside) world =
      (.json 200 (.report (PackageObject.report completed)),
        { world with row := some completed.snapshot, clock := clock }) := by
  obtain ⟨restored, hload, htwins⟩ := registry_saved hsound hrange
  obtain ⟨hresult, hafter⟩ := settled_twins htwins version outcome
  rw [hsettled] at hresult hafter
  refine ⟨(outside (.writeSnapshot completed.snapshot)).time, ?_⟩
  rw [finish, run_loadedRegistry h (by rw [hrow]; exact hload)]
  cases hrestored : settled restored version outcome with
  | mk result saved =>
    rw [hrestored] at hresult hafter
    obtain rfl : Except.ok () = result := hresult
    dsimp only
    rw [run_saveRegistry h, ← hafter.snapshot, report_twins hafter]
    rfl

/-- How a leased job ends: its batch is accepted and the version completed, or the lease is
    given back. -/
inductive Ends (registry : PackageRegistry) (version : Str) (record : VersionRecord)
    (outcome : MaterializationOutcome) (b : PackageBatch) (bucket : R2Bucket) (after : World) :
    Reply ObjectBody → Prop
  | published (hcompatible : Compatible b.objects bucket)
      (hrow : after.row
        = some (registry.updateVersion version (outcomeRecord record outcome.completion)).snapshot)
      (hheld : ∀ object ∈ b.objects, object.HeldBy after.objects) :
    Ends registry version record outcome b bucket after (.json 200 (.report (PackageObject.report
      (registry.updateVersion version (outcomeRecord record outcome.completion)))))
  | refused (hincompatible : ¬ Compatible b.objects bucket)
      (hrow : after.row = some (registry.updateVersion version record.asPending).snapshot) :
    Ends registry version record outcome b bucket after
      (.text 503 "materialization unavailable".toList (some "1".toList))

theorem outcomeRecord_asLeased (record : VersionRecord) (now : ℤ) (outcome : Outcome) :
    outcomeRecord (record.asLeased now) outcome = outcomeRecord record outcome := by
  cases outcome <;> rfl

theorem updateVersion_twice (registry : PackageRegistry) (version : Str) (record record' : VersionRecord) :
    (registry.updateVersion version record).updateVersion version record'
      = registry.updateVersion version record' := by
  simp only [PackageRegistry.updateVersion, OrderedMap.set_set]

variable {registry : PackageRegistry} {version : Str} {record : VersionRecord} {now : ℤ}
  {outcome : MaterializationOutcome} {b : PackageBatch}

theorem run_received (h : Obliging env libraries archive asked outside) {world : World} {response : Fetched}
    (hok : response.ok = true) (hjson : response.body.json = some (outcomeJson outcome))
    (huploads : outcome.uploads = b.objects.map BatchObject.upload)
    (hrow : world.row = some (registry.updateVersion version (record.asLeased now)).snapshot)
    (hsound : (registry.updateVersion version (record.asLeased now)).Sound)
    (hrange : registry.allocator.InRange) : ∃ reply after,
    (received version response).run (obliged outside) world = (reply, after) ∧
      world.objects.Grows after.objects ∧ after.decisions = world.decisions ∧
      Ends registry version record outcome b world.objects after reply := by
  have hleased : (registry.updateVersion version (record.asLeased now)).versions.get? version
      = some (record.asLeased now) := OrderedMap.get?_set_self _ _ _
  have hne : outcome.uploads ≠ [] := by
    rw [huploads, ne_eq, List.map_eq_nil_iff]
    exact Publication.batchOf_ne_nil _ _ _
  have hbatch : outcome.uploads.map uploadJson = b.objects.map fun object => uploadJson object.upload := by
    rw [huploads, List.map_map]
    rfl
  obtain ⟨publication, objects, hpublication, hgrows, haccepted, hheld⟩ :=
    publishArtifactBatch_available b world.objects
  obtain ⟨clock, hpublishing⟩ := run_publishing h
    (publishArtifactBatch (batchRequest (b.objects.map fun object => uploadJson object.upload))) world
  rw [hpublication] at hpublishing
  have hreceived : received version response = publishing
      (publishArtifactBatch (batchRequest (b.objects.map fun object => uploadJson object.upload)))
      fun publication => orThrow publication fun publication =>
        if !publication.ok then releaseLease version else finish version outcome.completion := by
    rw [received, hok, if_neg (by simp), hjson, Option.bind_some, parse_outcomeJson hne]
    dsimp only
    rw [hbatch]
  rw [hreceived, hpublishing]
  simp only [orThrow]
  by_cases hcompatible : Compatible b.objects world.objects
  · rw [haccepted.2 hcompatible, if_neg (by simp)]
    obtain ⟨clock, hfinish⟩ := run_finish h (show ({ world with objects := objects, clock := clock } : World).row
      = _ from hrow) hsound hrange (settled_of hleased rfl outcome.completion)
    rw [updateVersion_twice, outcomeRecord_asLeased] at hfinish
    exact ⟨_, _, hfinish, hgrows, rfl, .published hcompatible rfl (hheld (haccepted.2 hcompatible))⟩
  · have hrefused : publication.ok = false := by
      rw [← Bool.not_eq_true]
      exact fun hok => hcompatible (haccepted.1 hok)
    rw [hrefused, if_pos (by simp)]
    obtain ⟨clock, hrelease⟩ := run_releaseLease h (show ({ world with objects := objects, clock := clock } :
      World).row = _ from hrow) hsound hrange (PackageRegistry.releaseLease_asLeased registry version record now)
    exact ⟨_, _, hrelease, hgrows, rfl, .refused hcompatible rfl⟩

/-- What a caller must send for its job to reach the Container's run. -/
structure Sendable (env : ObjectEnv) (body : MaterializeBody) (name : PackageName) (job : MaterializationJob)
    (archive : Bytes) (asked : Request) (sent : StreamedRequest) : Prop where
  bound : env.materializes = true
  owner : validSourceComponent body.owner = true
  repository : validSourceComponent body.repository = true
  pat : body.pat ≠ []
  statusUrl : body.statusUrl ≠ []
  small : archive.length ≤ maxArchiveBytes
  asked : Auth.githubRequest (tarballPath body.owner body.repository job.commitSha) body.pat = .ok asked
  sent : materializationRequest name job body (.bytes archive) = .ok sent

theorem handle_sent {body : MaterializeBody} {name : PackageName} {job : MaterializationJob}
    {sent : StreamedRequest} (h : Sendable env body name job archive asked sent)
    (hrun : runMaterialization libraries (sentInput name job body) archive = .ok outcome) :
    Service.handle libraries sent.method sent.url.pathname sent.headers (some archive)
      = jsonResponse 200 (outcomeJson outcome) := by
  have hinput := materializationInput_sent h.sent
  have hsent := h.sent
  unfold materializationRequest at hsent
  cases hheader : Headers.normalize (materializationJson name job body).write with
  | none =>
    rw [hheader] at hsent
    cases hsent
  | some header =>
    rw [hheader] at hsent
    obtain rfl := Except.ok.inj hsent
    have hpath : (Url.parse "https://materializer.internal".toList "/materialize-archive".toList).pathname
        = "/materialize-archive".toList := by decide
    dsimp only at hinput ⊢
    rw [hpath, Service.handle, if_neg (by decide), if_neg (by simp)]
    rw [if_neg (Nat.not_lt.2 h.small), hinput]
    dsimp only
    rw [show (sentInput name job body).source.owner = body.owner from rfl,
      show (sentInput name job body).source.repository = body.repository from rfl, h.owner, h.repository,
      if_neg (by simp), hrun]

theorem run_materializeJob (h : Obliging env libraries archive asked outside) {body : MaterializeBody}
    {name : PackageName} {sent : StreamedRequest}
    (hsendable : Sendable env body name (record.asLeased now).toMaterializationJob archive asked sent)
    (hrun : runMaterialization libraries (sentInput name (record.asLeased now).toMaterializationJob body) archive
      = .ok outcome) (huploads : outcome.uploads = b.objects.map BatchObject.upload)
    (hversion : record.version = version) {world : World}
    (hrow : world.row = some (registry.updateVersion version (record.asLeased now)).snapshot)
    (hsound : (registry.updateVersion version (record.asLeased now)).Sound)
    (hrange : registry.allocator.InRange) : ∃ reply after,
    (materializeJob env name (record.asLeased now).toMaterializationJob body).run (obliged outside) world
        = (reply, after) ∧
      world.objects.Grows after.objects ∧ after.decisions = world.decisions ∧
      Ends registry version record outcome b world.objects after reply := by
  obtain ⟨clock, harchive⟩ := run_githubArchive h hsendable.asked world
  obtain ⟨response, hresponse, hstatus, hbody⟩ :=
    h.container (packageId name) sent (materializationRequest_body hsendable.sent)
  rw [handle_sent hsendable hrun] at hstatus hbody
  have hok : response.ok = true := by
    rw [Fetched.ok, hstatus]
    rfl
  have hjson : response.body.json = some (outcomeJson outcome) := by
    rw [hbody]
    exact Json.parse_decode_write (valid_outcomeJson outcome)
  rw [materializeJob, harchive]
  simp only [hsendable.sent]
  rw [run_await]
  simp only [World.perform, hresponse]
  rw [show (record.asLeased now).version = version from hversion]
  exact run_received h hok hjson huploads hrow hsound hrange

/-- An undisturbed materialization comes to its end, and either publishes the whole batch or
    leaves the version to be leased again. -/
theorem run_materialize (h : Obliging env libraries archive asked outside) {body : MaterializeBody}
    {sent : StreamedRequest} {world : World} (hrow : Sound world.row)
    (hload : PackageObject.registry world.row none = .ok registry)
    (hnext : registry.nextEligible (outside .readSnapshot).time = some (version, record))
    (hsendable : Sendable env body registry.name record.toMaterializationJob archive asked sent)
    (hrun : runMaterialization libraries (sentInput registry.name record.toMaterializationJob body) archive
      = .ok outcome) (huploads : outcome.uploads = b.objects.map BatchObject.upload) : ∃ reply after,
    (materialize env (some body)).run (obliged outside) world = (reply, after) ∧
      world.objects.Grows after.objects ∧ after.decisions = world.decisions ∧
      Ends registry version record outcome b world.objects after reply := by
  have hloaded := registry_loaded hrow hload
  have hversion := (hloaded.inStep.coherent.record _ _ (PackageRegistry.nextEligible_some hnext).1).version
  have hlease : registry.leaseNext (outside .readSnapshot).time
      = (some (record.asLeased (outside .readSnapshot).time).toMaterializationJob,
        registry.updateVersion version (record.asLeased (outside .readSnapshot).time)) := by
    rw [PackageRegistry.leaseNext, hnext]
  have hsound : (registry.updateVersion version (record.asLeased (outside .readSnapshot).time)).Sound := by
    have happlied := hloaded.sound.apply (.leaseNext (outside .readSnapshot).time)
    rw [PackageRegistry.apply, hlease] at happlied
    exact happlied
  have hnonempty : (body.owner.isEmpty || body.repository.isEmpty || body.pat.isEmpty ||
      body.statusUrl.isEmpty) = false := by
    have howner := hsendable.owner
    have hrepository := hsendable.repository
    simp only [validSourceComponent, Bool.and_eq_true, Bool.not_eq_true'] at howner hrepository
    simp [howner.1, hrepository.1, List.isEmpty_eq_false_iff.2 hsendable.pat,
      List.isEmpty_eq_false_iff.2 hsendable.statusUrl]
  rw [materialize]
  rw [hnonempty, if_neg (by simp), hsendable.bound, if_neg (by simp), run_loadedRegistry h hload, hlease]
  dsimp only
  rw [run_saveRegistry h]
  simp only [orThrow]
  exact run_materializeJob h ⟨hsendable.bound, hsendable.owner, hsendable.repository, hsendable.pat,
    hsendable.statusUrl, hsendable.small, hsendable.asked, hsendable.sent⟩ hrun huploads hversion rfl hsound
    hloaded.inRange

end ObjectHandlers
end JsrProxy
