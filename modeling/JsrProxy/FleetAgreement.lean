import JsrProxy.BucketAgreement
import JsrProxy.ContainerAnswers
import JsrProxy.NewlyPublished
import JsrProxy.PackageFleets
import JsrProxy.StoredRegistryRuns

set_option autoImplicit false

/-!
# Agreement of the rows and the bucket

However the handlers of all packages interleave, a version is published in a row only
when all objects of one batch for it are in the bucket. The batches are those that the
Containers have answered so far.
-/
namespace JsrProxy

open Branches PackageObject Publication R2Publication Service

def Service.MaterializationOutcome.state : MaterializationOutcome → JobState
  | .ready _ => .ready
  | .yanked _ _ => .yanked

theorem PackageObject.registry_name {snapshot : PackageRegistrySnapshot} {initialName : Option PackageName}
    {loaded : PackageRegistry} (h : registry (some snapshot) initialName = .ok loaded) :
    loaded.name = snapshot.name := by
  unfold registry at h
  cases hrestored : PackageRegistry.fromSnapshot snapshot with
  | error message =>
    simp only [hrestored] at h
    cases h
  | ok restored =>
    have hname := PackageRegistry.fromSnapshot_name hrestored
    simp only [hrestored] at h
    cases initialName with
    | none =>
      obtain rfl := Except.ok.inj h
      exact hname
    | some name =>
      dsimp only at h
      split_ifs at h
      obtain rfl := Except.ok.inj h
      exact hname

namespace Fleet

abbrev History := List (Called fleetCalls FleetRequest)

def Answered (history : History) (input : MaterializationRequest) (outcome : MaterializationOutcome) :
    Prop :=
  (∃ libraries archive, runMaterialization libraries input archive = .ok outcome) ∧
    ∃ (i : ℕ) (r : FleetRequest) (package : PackageName) (id : Str) (request : StreamedRequest)
      (response : Fetched) (now : ℤ),
      (⟨i, r, ((package, .container id request) : fleetCalls.Op), (.ok response, now)⟩ :
        Called fleetCalls FleetRequest) ∈ history ∧ response.ok = true ∧
        materializationInput request.headers = some input ∧
        response.body.json = some (outcomeJson outcome)

def batches (history : History) : Set PackageBatch :=
  {b | ∃ input outcome, Answered history input outcome ∧ input.job = b.job ∧
    outcome.uploads = b.objects.map BatchObject.upload}

def Uploaded (s : FleetScene) (package : PackageName) (version : Str) (outcome : MaterializationOutcome) :
    Prop :=
  ∃ input, Answered s.history input outcome ∧ input.job.package = package ∧
    input.job.version = version ∧ ∀ upload ∈ outcome.uploads, ∃ held,
      s.world.objects upload.key = some held ∧ held.sha256 = some upload.sha256

/-- The outcome that the record stands for is uploaded. -/
def Backed (s : FleetScene) (package : PackageName) (record : VersionRecord) : Prop :=
  ∃ outcome, Uploaded s package record.version outcome ∧ outcome.state = record.state

/-- The rows and the bucket agree. -/
structure Agreement (s : FleetScene) : Prop where
  published : ∀ package, ∀ record ∈ records (s.world.rows package), record.state.published = true →
    Backed s package record
  listed : ∀ job, IsAllocated job → s.world.objects (readyMarkerKey job) ≠ none →
    MetadataDiffers (batches s.history) job → ListedStored job s.world.objects
  digest : ∀ key held, s.world.objects key = some held →
    held.sha256 = some (R2Publication.sha256Hex held.value)

/-- A request as the Worker makes it: to the object of the package that a URL names, and not
    to complete a version from outside. -/
structure FromWorker (r : FleetRequest) : Prop where
  identity : ∃ pathname, Identity.parsePackageIdentity pathname = some r.package
  named : ∀ body, r.request = .refresh (some body) → body.package = r.package
  completes : ∀ body, r.request ≠ .complete body

/-- Requests are the Worker's, and Containers answer with what their runs came to. -/
structure Served (_ : FleetScene) (_ : ℕ) (r : FleetRequest) (call : fleetCalls.Op) (choice : Choice) :
    Prop where
  request : FromWorker r
  answers : ∀ id request, call.2 = .container id request → Answers request.headers choice.fetched

structure Consistent (s : FleetScene) : Prop where
  bucket : Agrees (batches s.history) s.world.objects
  sound : ∀ package, Sound (s.world.rows package)
  named : ∀ package snapshot, s.world.rows package = some snapshot → snapshot.name = package
  published : ∀ package, ∀ record ∈ records (s.world.rows package), record.state.published = true →
    Backed s package record

structure Follows (s t : FleetScene) : Prop where
  objects : s.world.objects.Grows t.world.objects
  history : ∀ called ∈ s.history, called ∈ t.history

theorem Follows.refl (s : FleetScene) : Follows s s := ⟨.refl _, fun _ h => h⟩

theorem Follows.trans {s t u : FleetScene} (h : Follows s t) (h' : Follows t u) : Follows s u :=
  ⟨h.objects.trans h'.objects, fun called hc => h'.history called (h.history called hc)⟩

theorem Answered.mono {history history' : History} {input : MaterializationRequest}
    {outcome : MaterializationOutcome} (h : Answered history input outcome)
    (hsub : ∀ called ∈ history, called ∈ history') : Answered history' input outcome := by
  obtain ⟨hrun, i, r, package, id, request, response, now, hcalled, hrest⟩ := h
  exact ⟨hrun, i, r, package, id, request, response, now, hsub _ hcalled, hrest⟩

theorem batches_mono {history history' : History} (hsub : ∀ called ∈ history, called ∈ history') :
    batches history ⊆ batches history' := by
  rintro b ⟨input, outcome, hanswered, hrest⟩
  exact ⟨input, outcome, hanswered.mono hsub, hrest⟩

theorem Uploaded.follows {s t : FleetScene} {package : PackageName} {version : Str}
    {outcome : MaterializationOutcome} (h : Uploaded s package version outcome) (hst : Follows s t) :
    Uploaded t package version outcome := by
  obtain ⟨input, hanswered, hpackage, hversion, hheld⟩ := h
  refine ⟨input, hanswered.mono hst.history, hpackage, hversion, ?_⟩
  intro upload hupload
  obtain ⟨held, hkey, hsha⟩ := hheld upload hupload
  exact ⟨held, hst.objects _ _ hkey, hsha⟩

theorem Backed.follows {s t : FleetScene} {package : PackageName} {record : VersionRecord}
    (h : Backed s package record) (hst : Follows s t) : Backed t package record := by
  obtain ⟨outcome, huploaded, hstate⟩ := h
  exact ⟨outcome, huploaded.follows hst, hstate⟩

theorem Consistent.agreement {s : FleetScene} (h : Consistent s) : Agreement s where
  published := h.published
  listed _ hjob hmarker hdiffers := h.bucket.listedStored hjob hmarker hdiffers
  digest key held hheld := by
    obtain ⟨_, -, object, -, -, rfl⟩ := h.bucket.origin key held hheld
    rfl

theorem consistent_new : Consistent ⟨Fleet.new, []⟩ where
  bucket := agrees_empty _
  sound _ := sound_none
  named _ _ h := by cases h
  published _ _ h := absurd h List.not_mem_nil

theorem Consistent.step {s t : FleetScene} (h : Consistent s) (hst : Follows s t)
    (hrows : t.world.rows = s.world.rows) (hbucket : Agrees (batches t.history) t.world.objects) :
    Consistent t where
  bucket := hbucket
  sound package := by
    rw [hrows]
    exact h.sound package
  named package := by
    rw [hrows]
    exact h.named package
  published package := by
    rw [hrows]
    intro record hrecord hp
    exact (h.published package record hrecord hp).follows hst

def Keeps (s t : FleetScene) : Prop := Follows s t ∧ (Consistent s → Consistent t)

/-- From here on the handler keeps the agreement. -/
abbrev Ensured (i : ℕ) (r : FleetRequest) (p : ObjectHandlers.Handling) (s : FleetScene) : Prop :=
  p.Ensures (fun s (call : objectCalls.Op) (answer : objectCalls.Ret call) t =>
      JsrProxy.Answered Fleet.answer Served Consistent i r s ((r.package, call) : fleetCalls.Op) answer t)
    Follows Keeps (fun _ _ => True) s

def after (i : ℕ) (r : FleetRequest) (call : ObjectCall) (choice : Choice) (s : FleetScene) :
    FleetScene := (s.call Fleet.answer i r choice ((r.package, call) : fleetCalls.Op)).2

variable {i : ℕ} {r : FleetRequest}

theorem after_objects (call : ObjectCall) (choice : Choice) (s : FleetScene) :
    (after i r call choice s).world.objects =
      ((s.world.object r.package).perform choice call).2.objects := rfl

theorem after_rows (call : ObjectCall) (choice : Choice) (s : FleetScene) :
    (after i r call choice s).world.rows = Function.update s.world.rows r.package
      ((s.world.object r.package).perform choice call).2.row := rfl

theorem follows_after (call : ObjectCall) (choice : Choice) (s : FleetScene) :
    Follows s (after i r call choice s) where
  objects := World.perform_grows (s.world.object r.package) choice call
  history _ hcalled := List.mem_cons_of_mem _ hcalled

theorem ensured_call {call : ObjectCall} {next : call.Answer → ℤ → ObjectHandlers.Handling}
    {s : FleetScene}
    (h : ∀ t choice, Follows s t → Consistent t → Served t i r ((r.package, call) : fleetCalls.Op) choice →
      Consistent (after i r call choice t) ∧
      Ensured i r (next ((t.world.object r.package).perform choice call).1 choice.time)
        (after i r call choice t)) :
    Ensured i r (ObjectHandlers.await call next) s := by
  apply Program.Ensures.of_call
  rintro t hst answer u ⟨hconsistent, choice, hserved, hanswer⟩
  obtain rfl : after i r call choice t = u := congrArg Prod.snd hanswer
  have hresult : (((t.world.object r.package).perform choice call).1, choice.time) = answer :=
    congrArg Prod.fst hanswer
  obtain ⟨hafter, hnext⟩ := h t choice hst hconsistent hserved
  rw [← hresult]
  exact ⟨⟨follows_after call choice t, fun _ => hafter⟩, hnext⟩

theorem ensured_done (reply : Reply ObjectBody) (s : FleetScene) : Ensured i r (.done reply) s :=
  .done trivial

theorem ensured_await {call : ObjectCall} {next : call.Answer → ℤ → ObjectHandlers.Handling}
    (hwrite : ∀ snapshot, call ≠ .writeSnapshot snapshot) (hbucket : ∀ op, call ≠ .bucket op)
    (s : FleetScene) (hnext : ∀ t choice, Follows s t → Consistent t →
      Served t i r ((r.package, call) : fleetCalls.Op) choice →
      Ensured i r (next ((t.world.object r.package).perform choice call).1 choice.time)
        (after i r call choice t)) : Ensured i r (ObjectHandlers.await call next) s := by
  apply ensured_call
  intro t choice hst hconsistent hserved
  refine ⟨?_, hnext t choice hst hconsistent hserved⟩
  have hfollows := follows_after (i := i) (r := r) call choice t
  apply hconsistent.step hfollows
  · rw [after_rows, World.perform_row hwrite]
    exact Function.update_eq_self _ _
  · rw [after_objects, World.perform_objects hbucket]
    exact hconsistent.bucket.mono (batches_mono hfollows.history)

theorem ensured_orThrow {α : Type} {next : α → ObjectHandlers.Handling} {s : FleetScene}
    (answer : Except Str α) (h : ∀ result, answer = .ok result → Ensured i r (next result) s) :
    Ensured i r (ObjectHandlers.orThrow answer next) s := by
  cases answer with
  | error message => exact ensured_done _ s
  | ok result => exact h result rfl

structure LoadedAt (s : FleetScene) (package : PackageName) (registry : PackageRegistry) : Prop where
  sound : registry.Sound
  inStep : registry.InStep
  named : registry.name = package
  published : ∀ v record, registry.versions.get? v = some record → record.state.published = true →
    Backed s package record

theorem ensured_readRegistry {initialName : Option PackageName}
    (hname : ∀ (t : FleetScene) call choice, Served t i r call choice → ∀ name,
      initialName = some name → name = r.package)
    {next : PackageRegistry → ℤ → ObjectHandlers.Handling} (s : FleetScene)
    (h : ∀ loaded now t, Follows s t → LoadedAt t r.package loaded → Ensured i r (next loaded now) t) :
    Ensured i r (ObjectHandlers.readRegistry initialName next) s := by
  apply ensured_await (by nofun) (by nofun)
  intro t choice hst hconsistent hserved
  apply ensured_orThrow
  intro stored hstored
  apply ensured_orThrow
  intro loaded hloaded
  have hrow : t.world.rows r.package = stored := World.perform_readSnapshot hstored
  have hsound := hconsistent.sound r.package
  rw [hrow] at hsound
  have hl := registry_loaded hsound hloaded
  apply h _ _ _ (hst.trans (follows_after _ _ _))
  refine ⟨hl.sound, hl.inStep, ?_, ?_⟩
  · unfold PackageObject.registry at hloaded
    cases stored with
    | none =>
      cases initialName with
      | none => cases hloaded
      | some name =>
        obtain rfl := Except.ok.inj hloaded
        exact hname _ _ _ hserved name rfl
    | some snapshot =>
      have hsnapshot := hconsistent.named r.package snapshot hrow
      cases hf : PackageRegistry.fromSnapshot snapshot with
      | error message =>
        simp only [hf] at hloaded
        cases hloaded
      | ok restored =>
        simp only [hf] at hloaded
        have hrestored := (PackageRegistry.fromSnapshot_name hf).trans hsnapshot
        cases initialName with
        | none =>
          obtain rfl := Except.ok.inj hloaded
          exact hrestored
        | some name =>
          dsimp only at hloaded
          split_ifs at hloaded
          obtain rfl := Except.ok.inj hloaded
          exact hrestored
  · intro v record hv hp
    have hrecord : record ∈ records (t.world.rows r.package) := by
      rw [hrow, ← hl.records, OrderedMap.mem_values]
      exact ⟨v, hv⟩
    exact (hconsistent.published r.package record hrecord hp).follows (follows_after _ _ _)

theorem unnamed (t : FleetScene) (call : fleetCalls.Op) (choice : Choice) (_ : Served t i r call choice)
    (name : PackageName) (h : none = some name) : name = r.package := by cases h

theorem ensured_saveRegistry {target : PackageRegistry} {next : Except Str Unit → ObjectHandlers.Handling}
    {s : FleetScene} (hsound : target.Sound) (hnamed : target.name = r.package)
    (hpublished : ∀ v record, target.versions.get? v = some record → record.state.published = true →
      Backed s r.package record)
    (hnext : ∀ saved t, Ensured i r (next saved) t) :
    Ensured i r (ObjectHandlers.saveRegistry target next) s := by
  apply ensured_call
  intro t choice hst hconsistent _
  refine ⟨?_, hnext _ _⟩
  have hfollows := follows_after (i := i) (r := r) (.writeSnapshot target.snapshot) choice t
  have hobjects : (after i r (.writeSnapshot target.snapshot) choice t).world.objects
      = t.world.objects := by
    rw [after_objects]
    exact World.perform_objects (by nofun) _ choice
  have hbucket : Agrees (batches (after i r (.writeSnapshot target.snapshot) choice t).history)
      (after i r (.writeSnapshot target.snapshot) choice t).world.objects := by
    rw [hobjects]
    exact hconsistent.bucket.mono (batches_mono hfollows.history)
  have hrows := after_rows (i := i) (r := r) (.writeSnapshot target.snapshot) choice t
  cases hfault : choice.fault with
  | some message =>
    apply hconsistent.step hfollows _ hbucket
    rw [hrows, World.perform, hfault]
    exact Function.update_eq_self _ _
  | none =>
    rw [World.perform, hfault] at hrows
    have hself : (after i r (.writeSnapshot target.snapshot) choice t).world.rows r.package
        = saveRegistry target := by
      rw [hrows]
      exact Function.update_self _ _ _
    have hother : ∀ package, package ≠ r.package →
        (after i r (.writeSnapshot target.snapshot) choice t).world.rows package = t.world.rows package := by
      intro package hne
      rw [hrows]
      exact Function.update_of_ne hne _ _
    refine ⟨hbucket, ?_, ?_, ?_⟩
    · intro package
      by_cases hp : package = r.package
      · rw [hp, hself]
        exact sound_saveRegistry hsound
      · rw [hother package hp]
        exact hconsistent.sound package
    · intro package snapshot hsnapshot
      by_cases hp : package = r.package
      · rw [hp, hself] at hsnapshot
        obtain rfl := Option.some.inj hsnapshot
        exact hnamed.trans hp.symm
      · rw [hother package hp] at hsnapshot
        exact hconsistent.named package snapshot hsnapshot
    · intro package record hrecord hpub
      by_cases hp : package = r.package
      · rw [hp, hself] at hrecord
        obtain ⟨v, hv⟩ := (OrderedMap.mem_values _ _).1 hrecord
        rw [hp]
        exact ((hpublished v record hv hpub).follows hst).follows hfollows
      · rw [hother package hp] at hrecord
        exact (hconsistent.published package record hrecord hpub).follows hfollows

theorem ensured_transition {loaded target : PackageRegistry} {op : PackageRegistry.Op}
    {next : Except Str Unit → ObjectHandlers.Handling} {s : FleetScene}
    (hloaded : LoadedAt s r.package loaded) (happly : loaded.apply op = target)
    (hnamed : target.name = loaded.name) (hnothing : loaded.PublishesNothing target)
    (hnext : ∀ saved t, Ensured i r (next saved) t) :
    Ensured i r (ObjectHandlers.saveRegistry target next) s := by
  apply ensured_saveRegistry
  · rw [← happly]
    exact hloaded.sound.apply op
  · exact hnamed.trans hloaded.named
  · exact fun v record hv hp => hloaded.published v record (hnothing v record hv hp) hp
  · exact hnext

end Fleet
end JsrProxy
