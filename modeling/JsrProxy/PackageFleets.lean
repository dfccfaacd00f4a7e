import JsrProxy.PackageHandlers

set_option autoImplicit false

/-!
# Packages over one bucket

Every package has an object with a row and a clock of its own. All of them publish to one
bucket, which writes a key once.
-/
namespace JsrProxy

structure Fleet where
  rows : PackageName → Stored
  decisions : PackageName → Str → Option AdmissionRecord
  objects : R2Bucket
  clocks : PackageName → ℤ

abbrev fleetCalls : Effects := objectCalls.tagged PackageName

structure FleetRequest where
  package : PackageName
  request : ObjectRequest

namespace Fleet

def new : Fleet := ⟨fun _ => none, fun _ _ => none, ObjectStore.empty, fun _ => 0⟩

def object (fleet : Fleet) (package : PackageName) : World :=
  ⟨fleet.rows package, fleet.decisions package, fleet.objects, fleet.clocks package⟩

def update (fleet : Fleet) (package : PackageName) (world : World) : Fleet where
  rows := Function.update fleet.rows package world.row
  decisions := Function.update fleet.decisions package world.decisions
  objects := world.objects
  clocks := Function.update fleet.clocks package world.clock

def answer (fleet : Fleet) (choice : Choice) (call : fleetCalls.Op) : fleetCalls.Ret call × Fleet :=
  let (result, world) := World.answer (fleet.object call.1) choice call.2
  (result, fleet.update call.1 world)

def handle (env : ObjectEnv) (r : FleetRequest) : Program fleetCalls (Reply ObjectBody) :=
  (ObjectHandlers.handle env r.request).tag r.package

end Fleet

abbrev FleetPool := Pool fleetCalls Fleet FleetRequest (Reply ObjectBody)

abbrev FleetEvent := PoolEvent FleetRequest Choice

abbrev FleetScene := Scene fleetCalls Fleet FleetRequest

def FleetPool.step (env : ObjectEnv) (pool : FleetPool) (e : FleetEvent) : FleetPool :=
  Pool.step (Fleet.handle env) Fleet.answer pool e

theorem World.bucketAnswer_grows (objects : R2Bucket) (fault : Option BucketFault) (call : R2Call) :
    objects.Grows (bucketAnswer objects fault call).2 := by
  have hstep := bucketAnswer_step objects fault call
  generalize (bucketAnswer objects fault call).1 = result at hstep
  generalize (bucketAnswer objects fault call).2 = after at hstep ⊢
  cases hstep with
  | head => exact .refl _
  | headFails => exact .refl _
  | created => exact ObjectStore.put_grows _ _ _
  | «exists» => exact .refl _
  | putFails => exact .refl _
  | answerLost => exact ObjectStore.put_grows _ _ _

theorem World.perform_grows (world : World) (choice : Choice) (call : ObjectCall) :
    world.objects.Grows (world.perform choice call).2.objects := by
  cases call with
  | bucket call => exact bucketAnswer_grows world.objects choice.bucketFault call
  | fetch | container => exact .refl _
  | readDecision | writeDecision | readSnapshot | writeSnapshot =>
    unfold perform
    cases choice.fault <;> exact .refl _

theorem FleetPool.step_grows (env : ObjectEnv) (pool : FleetPool) (e : FleetEvent) :
    pool.scene.world.objects.Grows (step env pool e).scene.world.objects := by
  rcases Pool.step_cases (Fleet.handle env) Fleet.answer pool e with
    ⟨_, -, hstep⟩ | ⟨_, choice, _, call, _, -, -, hstep⟩ | hstep
  · rw [step, hstep]
    exact .refl _
  · rw [step, hstep]
    exact World.perform_grows (pool.scene.world.object call.1) choice call.2
  · rw [step, hstep]
    exact .refl _

open Executions in
/-- No later step replaces an object once written. -/
theorem FleetPool.run_grows (env : ObjectEnv) (pool : FleetPool) (events : List FleetEvent) :
    pool.scene.world.objects.Grows (run (step env) pool events).scene.world.objects :=
  run_related (fun _ => True) (fun _ _ => True)
    (fun s t : FleetPool => s.scene.world.objects.Grows t.scene.world.objects)
    (fun _ _ _ _ => trivial) (fun pool e _ _ => step_grows env pool e) (fun _ => .refl _)
    (fun _ _ _ h h' => h.trans h') pool events trivial (admitted_true _ _ _)

end JsrProxy
