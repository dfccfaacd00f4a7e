import JsrProxy.PackageRows
import JsrProxy.ServedArtifacts
import JsrProxy.UndisturbedMaterializations

set_option autoImplicit false

/-!
# Finished materializations

From every state of a deployment, a materialization that is let through to its end publishes
the version that it leases, or leaves it to the next one.
-/
namespace JsrProxy
open Executions ObjectHandlers R2Publication Service

namespace Fleet

theorem run_handle (env : ObjectEnv) (r : FleetRequest) (outside : Outside) (fleet : Fleet) :
    (handle env r).run (answered answer fun op : fleetCalls.Op => outside op.2) fleet =
      (((ObjectHandlers.handle env r.request).run (obliged outside) (fleet.object r.package)).1,
        fleet.update r.package
          ((ObjectHandlers.handle env r.request).run (obliged outside) (fleet.object r.package)).2) := by
  rw [handle, Program.run_tag]
  refine Program.run_part (fun fleet : Fleet => fleet.object r.package)
    (fun fleet world => fleet.update r.package world) ?_ ?_ ?_ ?_ _ _
  · intro fleet
    simp only [update, object, Function.update_eq_self]
  · intro fleet world
    simp only [update, object, Function.update_self]
  · intro fleet world world'
    simp only [update, Function.update_idem]
  · exact fun _ _ => rfl

variable {env : ObjectEnv} {outside : Outside} {libraries : Libraries} {archive : Bytes} {asked : Request}
  {sent : StreamedRequest} {package : PackageName} {body : MaterializeBody} {registry : PackageRegistry}
  {version : Str} {record : VersionRecord}

theorem batch_of_run (libraries : Libraries) (archive : Bytes) (body : MaterializeBody) {stored : Stored}
    (hrow : PackageObject.Sound stored) (hload : PackageObject.registry stored none = .ok registry) {now : ℤ}
    (hnext : registry.nextEligible now = some (version, record))
    (hscope : Identity.isScope package.scope = true) (hname : Identity.isScope package.name = true) :
    ∃ (outcome : MaterializationOutcome) (b : PackageBatch),
      runMaterialization libraries (sentInput package record.toMaterializationJob body) archive = .ok outcome ∧
      b.job = (sentInput package record.toMaterializationJob body).job ∧
      outcome.uploads = b.objects.map BatchObject.upload := by
  obtain ⟨outcome, files, exports, hrun, hpublishable, huploads⟩ :=
    runMaterialization_uploads libraries (sentInput package record.toMaterializationJob body) archive
  have hof := (PackageObject.registry_loaded hrow hload).inStep.coherent.record _ _
    (PackageRegistry.nextEligible_some hnext).1
  refine ⟨outcome, ⟨_, files, exports, ⟨hscope, hname, ?_⟩, hpublishable⟩, hrun, rfl, huploads⟩
  exact ⟨_, _, hof.majorRange.1, hof.issued.1, hof.version.trans hof.named⟩

theorem run_materialization {pool : FleetPool} {i : ℕ}
    (hthread : pool.threads[i]? = some ⟨⟨package, .materialize (some body)⟩,
      handle env ⟨package, .materialize (some body)⟩⟩)
    (hobliging : Obliging env libraries archive asked outside)
    (hrow : PackageObject.Sound (pool.scene.world.rows package))
    (hload : PackageObject.registry (pool.scene.world.rows package) none = .ok registry)
    (hname : registry.name = package)
    (hnext : registry.nextEligible (outside .readSnapshot).time = some (version, record))
    (hsendable : Sendable env body package record.toMaterializationJob archive asked sent)
    {outcome : MaterializationOutcome} {b : PackageBatch}
    (hrun : runMaterialization libraries (sentInput package record.toMaterializationJob body) archive
      = .ok outcome) (huploads : outcome.uploads = b.objects.map BatchObject.upload) :
    ∃ (choices : List Choice) (reply : Reply ObjectBody) (world : World) (history : History),
      run (FleetPool.step env) pool (choices.map (.advance i)) =
        ⟨⟨pool.scene.world.update package world, history⟩,
          pool.threads.set i ⟨⟨package, .materialize (some body)⟩, .done reply⟩⟩ ∧
      Admitted (FleetPool.step env) (Pool.Admits fun _ _ _ call choice => choice = outside call.2) pool
        (choices.map (.advance i)) ∧
      pool.scene.world.objects.Grows world.objects ∧
      Ends registry version record outcome b pool.scene.world.objects world reply := by
  subst hname
  have hrow' : PackageObject.Sound (pool.scene.world.object registry.name).row := hrow
  obtain ⟨reply, world, hmaterialize, hgrows, -, hends⟩ :=
    ObjectHandlers.run_materialize hobliging hrow' hload hnext hsendable hrun huploads
  obtain ⟨history, hchoices, -⟩ := Pool.run_choices (handle env) answer
    (fun op : fleetCalls.Op => outside op.2) hthread
  refine ⟨_, reply, world, history, ?_, Pool.admitted_choices (handle env) answer
    (fun op : fleetCalls.Op => outside op.2) (fun _ _ => rfl) hthread, hgrows, hends⟩
  have hhandle := run_handle env ⟨registry.name, .materialize (some body)⟩ outside pool.scene.world
  rw [show (ObjectHandlers.handle env (.materialize (some body))) = materialize env (some body) from rfl,
    hmaterialize] at hhandle
  rw [hhandle] at hchoices
  exact hchoices

end Fleet

namespace Deployment

theorem run_objects (env : DeploymentEnv) (site : Deployment) (i : ℕ) (choices : List Choice) :
    run (step env) site (choices.map (.object i)) = { site with
      packages := run (FleetPool.step env.objects) site.packages (choices.map (.advance i)) } := by
  induction choices generalizing site with
  | nil => rfl
  | cons choice rest ih => exact ih _

theorem admitted_objects (env : DeploymentEnv) {A : FleetScene → ℕ → FleetRequest → fleetCalls.Op → Choice → Prop}
    {site : Deployment} {i : ℕ} {choices : List Choice}
    (h : Admitted (FleetPool.step env.objects) (Pool.Admits A) site.packages (choices.map (.advance i))) :
    Admitted (step env) (ObjectsAdmit A) site (choices.map (.object i)) := by
  induction choices generalizing site with
  | nil => trivial
  | cons choice rest ih => exact ⟨h.1, ih h.2⟩

/-- In every run the rows are the packages' own. -/
theorem packages_own (env : DeploymentEnv) (events : List DeploymentEvent) :
    Fleet.OwnRows (run (step env) new events).packages := by
  apply Fleet.ownRows_reached (packages_reached env ?_)
  refine admitted_of_invariant (Tracked env) (fun _ _ => True) _ (fun _ e htracked _ => htracked.step e) ?_ _ _
    (tracked_new env) (admitted_true _ _ _)
  intro site e htracked _
  cases e with
  | object j choice =>
    exact fun _ _ _ hthread => (htracked.asked _ (List.mem_of_getElem? hthread)).fromWorker
  | arrive | ask | admission | answer => trivial

/-- A materialization that starts on its package's own row is let through to its end. -/
theorem run_materialization {env : DeploymentEnv} {site : Deployment} (htracked : Tracked env site)
    {i : ℕ} {package : PackageName} (hown : PackageObject.Own package (site.packages.scene.world.rows package))
    {body : MaterializeBody}
    (hthread : site.packages.threads[i]? = some ⟨⟨package, .materialize (some body)⟩,
      Fleet.handle env.objects ⟨package, .materialize (some body)⟩⟩)
    {registry : PackageRegistry} {version : Str} {record : VersionRecord} {libraries : Libraries}
    {archive : Bytes} {asked : Request} {sent : StreamedRequest} {outside : Outside}
    (hload : PackageObject.registry (site.packages.scene.world.rows package) none = .ok registry)
    (hnext : registry.nextEligible (outside .readSnapshot).time = some (version, record))
    (hsendable : Sendable env.objects body package record.toMaterializationJob archive asked sent)
    (hobliging : Obliging env.objects libraries archive asked outside) :
    ∃ (choices : List Choice) (outcome : MaterializationOutcome) (b : PackageBatch) (reply : Reply ObjectBody)
      (after : Deployment),
      runMaterialization libraries (sentInput package record.toMaterializationJob body) archive = .ok outcome ∧
      b.job = (sentInput package record.toMaterializationJob body).job ∧
      outcome.uploads = b.objects.map BatchObject.upload ∧
      Admitted (step env) (ObjectsAdmit fun _ _ _ call choice => choice = outside call.2) site
        (choices.map (.object i)) ∧
      after = run (step env) site (choices.map (.object i)) ∧
      after.visits = site.visits ∧
      after.packages.Finished i ⟨package, .materialize (some body)⟩ reply ∧
      site.bucket.Grows after.bucket ∧
      (∀ other, other ≠ package →
        after.packages.scene.world.rows other = site.packages.scene.world.rows other) ∧
      Ends registry version record outcome b site.bucket (after.packages.scene.world.object package) reply := by
  have hname := hown.registry_name hload
  obtain ⟨pathname, hidentity⟩ := (htracked.asked _ (List.mem_of_getElem? hthread)).fromWorker.identity
  obtain ⟨hscope, hproper, -⟩ := Identity.parsePackageIdentity_some hidentity
  obtain ⟨outcome, b, hrun, hjob, huploads⟩ :=
    Fleet.batch_of_run libraries archive body hown.sound hload hnext hscope hproper
  obtain ⟨choices, reply, world, history, hpackages, hadmitted, hgrows, hends⟩ :=
    Fleet.run_materialization hthread hobliging hown.sound hload hname hnext hsendable hrun huploads
  have hlt := (List.getElem?_eq_some_iff.1 hthread).1
  refine ⟨choices, outcome, b, reply, _, hrun, hjob, huploads, admitted_objects env hadmitted, rfl, ?_⟩
  rw [run_objects, hpackages]
  refine ⟨rfl, List.getElem?_set_self hlt, hgrows, ?_, ?_⟩
  · intro other hother
    exact Function.update_of_ne hother _ _
  · have hworld : (site.packages.scene.world.update package world).object package = world := by
      simp only [Fleet.update, Fleet.object, Function.update_self]
    rw [hworld]
    exact hends

end Deployment
end JsrProxy
