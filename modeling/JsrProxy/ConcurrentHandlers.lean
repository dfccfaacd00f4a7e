import JsrProxy.HandlerRules
import JsrProxy.StoredRegistryRuns

set_option autoImplicit false

/-!
# Concurrent handlers of one object

A handler reads the whole snapshot in one step and writes a whole snapshot in a
later one. As long as no other write comes in between, what was reported stays: the
jobs that were created, and the versions that were ready or yanked. Otherwise the
later write undoes the earlier one.
-/
namespace JsrProxy
open Branches PackageObject

structure Persists (before after : VersionRecord) : Prop where
  version : after.version = before.version
  commitSha : after.commitSha = before.commitSha
  state : before.state.published = true → after.state = before.state

theorem Persists.refl (record : VersionRecord) : Persists record record := ⟨rfl, rfl, fun _ => rfl⟩

theorem Persists.trans {a b c : VersionRecord} (h : Persists a b) (h' : Persists b c) :
    Persists a c where
  version := h'.version.trans h.version
  commitSha := h'.commitSha.trans h.commitSha
  state hp := by
    have hab := h.state hp
    rw [← hab] at hp ⊢
    exact h'.state hp

theorem Persists.of_touched {before after : VersionRecord} (ht : PackageRegistry.Touched before after)
    (hs : before.state.published = false) : Persists before after where
  version := ht.version
  commitSha := ht.commitSha
  state hp := by
    rw [hs] at hp
    cases hp

def Kept (stored after : Stored) : Prop :=
  ∀ record ∈ records stored, ∃ record' ∈ records after, Persists record record'

theorem Kept.refl (stored : Stored) : Kept stored stored :=
  fun record hrecord => ⟨record, hrecord, .refl record⟩

theorem Kept.trans {a b c : Stored} (h : Kept a b) (h' : Kept b c) : Kept a c := by
  intro record hrecord
  obtain ⟨middle, hmiddle, hm⟩ := h record hrecord
  obtain ⟨last, hlast, hl⟩ := h' middle hmiddle
  exact ⟨last, hlast, hm.trans hl⟩

namespace PackageRegistry

theorem TouchesOne.persists {before after : PackageRegistry} (h : TouchesOne before after) {v : Str}
    {record : VersionRecord} (hv : before.versions.get? v = some record) :
    ∃ record', after.versions.get? v = some record' ∧ Persists record record' := by
  rcases h with rfl | ⟨w, touched, touched', hw, hs, ht, rfl⟩
  · exact ⟨record, hv, .refl record⟩
  · simp only [updateVersion, OrderedMap.get?_set]
    split_ifs with he
    · subst he
      obtain rfl := Option.some.inj (hw.symm.trans hv)
      exact ⟨touched', rfl, .of_touched ht hs⟩
    · exact ⟨record, hv, .refl record⟩

theorem apply_persists {registry : PackageRegistry} (h : registry.InStep)
    (hr : registry.allocator.InRange) (op : Op) {v : Str} {record : VersionRecord}
    (hv : registry.versions.get? v = some record) :
    ∃ record', (registry.apply op).versions.get? v = some record' ∧ Persists record record' := by
  cases op with
  | refresh discovery => exact ⟨record, refresh_get? h.coherent discovery v record hv, .refl record⟩
  | leaseNext now => exact (leaseNext_touches registry now).persists hv
  | releaseLease version => exact (releaseLease_touches registry version).persists hv
  | markReady version => exact (markReady_touches registry version).persists hv
  | markYanked version diagnostic => exact (markYanked_touches registry version diagnostic).persists hv
  | recoverVersion version reason recoveredAt =>
    exact ⟨record, recoverVersion_get? h hr version reason recoveredAt v record hv, .refl record⟩
  | reload =>
    refine ⟨record, ?_, .refl record⟩
    unfold apply
    cases hload : fromSnapshot registry.snapshot with
    | error message => exact hv
    | ok restored =>
      obtain ⟨-, -, he⟩ := fromSnapshot_snapshot h.coherent hload
      rw [he]
      exact hv

theorem refreshBranch_job {registry next : PackageRegistry} {branch : SelectedBranch}
    {job : MaterializationJob} (h : registry.refreshBranch branch = (.ok (some job), next)) :
    ∃ record, next.versions.get? record.version = some record ∧ record.toMaterializationJob = job := by
  unfold refreshBranch at h
  dsimp only at h
  split at h
  · cases h
  · split at h
    · cases h
    · cases h
      exact ⟨_, OrderedMap.get?_set_self _ _ _, rfl⟩

theorem refreshBranches_jobs {registry next : PackageRegistry} (h : registry.Coherent)
    {created jobs : List MaterializationJob} {branches : List SelectedBranch}
    (hcreated : ∀ job ∈ created, ∃ record, registry.versions.get? record.version = some record ∧
      record.toMaterializationJob = job)
    (he : registry.refreshBranches created branches = (.ok jobs, next)) :
    ∀ job ∈ jobs, ∃ record, next.versions.get? record.version = some record ∧
      record.toMaterializationJob = job := by
  induction branches generalizing registry created with
  | nil =>
    cases he
    exact hcreated
  | cons branch rest ih =>
    unfold refreshBranches at he
    have hcoherent := refreshBranch_coherent h branch
    have hkept := refreshBranch_get? h branch
    cases hb : registry.refreshBranch branch with
    | mk result refreshed =>
      rw [hb] at he hcoherent hkept
      cases result with
      | error message => cases he
      | ok job =>
        refine ih hcoherent ?_ he
        intro other hother
        rcases List.mem_append.1 hother with hother | hother
        · obtain ⟨record, hrecord, hjob⟩ := hcreated other hother
          exact ⟨record, hkept _ _ hrecord, hjob⟩
        · cases job with
          | none => cases hother
          | some job =>
            obtain rfl := List.mem_singleton.1 hother
            exact refreshBranch_job hb

theorem refresh_jobs {registry next : PackageRegistry} (h : registry.Coherent)
    {discovery : BranchDiscovery} {jobs : List MaterializationJob}
    (he : registry.refresh discovery = (.ok jobs, next)) :
    ∀ job ∈ jobs, ∃ record ∈ next.versions.values, record.toMaterializationJob = job := by
  intro job hjob
  unfold refresh at he
  cases hs : selectBranches discovery registry.branches with
  | error message =>
    rw [hs] at he
    cases he
  | ok selection =>
    rw [hs] at he
    obtain ⟨record, hrecord, hsame⟩ := refreshBranches_jobs (h.branches selection.state)
      (fun _ hnone => absurd hnone List.not_mem_nil) he job hjob
    exact ⟨record, (OrderedMap.mem_values _ _).2 ⟨_, hrecord⟩, hsame⟩

theorem recoverVersion_job {registry next : PackageRegistry} {version reason : Str} {recoveredAt : ℤ}
    {job : MaterializationJob}
    (he : registry.recoverVersion version reason recoveredAt = (.ok job, next)) :
    ∃ record ∈ next.versions.values, record.toMaterializationJob = job := by
  unfold recoverVersion at he
  split at he
  · cases he
  · split at he
    · cases he
    · dsimp only at he
      split at he
      · cases he
      · cases he
        exact ⟨_, (OrderedMap.mem_values _ _).2 ⟨_, OrderedMap.get?_set_self _ _ _⟩, rfl⟩

end PackageRegistry

theorem PackageObject.Loaded.kept {stored : Stored} {loaded : PackageRegistry} (h : Loaded stored loaded)
    (op : PackageRegistry.Op) : Kept stored (PackageObject.saveRegistry (loaded.apply op)) := by
  intro record hrecord
  obtain ⟨record', hget, hpersists⟩ := PackageRegistry.apply_persists h.inStep h.inRange op
    ((h.mem_records record).1 hrecord)
  exact ⟨record', (OrderedMap.mem_values _ _).2 ⟨_, hget⟩, hpersists⟩

def created : Reply ObjectBody → List MaterializationJob
  | .json _ (.refreshed _ created) => created
  | .json _ (.recovered job _) => [job]
  | _ => []

def reportedJobs : Reply ObjectBody → List MaterializationJob
  | .json _ (.refreshed report created) => report.jobs ++ created
  | .json _ (.recovered job _) => [job]
  | .json _ (.report report) => report.jobs
  | .json _ (.status report _) => report.jobs
  | _ => []

def reportedVersions : Reply ObjectBody → List (Str × Bool)
  | .json _ (.refreshed report _) => report.packageMeta.versions
  | .json _ (.report report) => report.packageMeta.versions
  | .json _ (.status report _) => report.packageMeta.versions
  | .json _ (.packageMeta packageMeta) => packageMeta.versions
  | _ => []

def outcomeState (yanked : Bool) : JobState := if yanked then .yanked else .ready

/-- What a response reports is stored. -/
structure Reflects (reply : Reply ObjectBody) (row : Stored) : Prop where
  job : ∀ job ∈ reportedJobs reply, ∃ record ∈ records row, record.version = job.version ∧
    record.commitSha = job.commitSha ∧ (job.state.published = true → record.state = job.state)
  version : ∀ entry ∈ reportedVersions reply, ∃ record ∈ records row, record.version = entry.1 ∧
    record.state = outcomeState entry.2

theorem Reflects.kept {reply : Reply ObjectBody} {stored after : Stored} (h : Reflects reply stored)
    (hkept : Kept stored after) : Reflects reply after := by
  constructor
  · intro job hjob
    obtain ⟨record, hrecord, hversion, hcommit, hstate⟩ := h.job job hjob
    obtain ⟨record', hrecord', hp⟩ := hkept record hrecord
    refine ⟨record', hrecord', hp.version.trans hversion, hp.commitSha.trans hcommit, ?_⟩
    intro hpublished
    have hsame := hstate hpublished
    rw [hp.state (hsame ▸ hpublished), hsame]
  · intro entry hentry
    obtain ⟨record, hrecord, hversion, hstate⟩ := h.version entry hentry
    obtain ⟨record', hrecord', hp⟩ := hkept record hrecord
    refine ⟨record', hrecord', hp.version.trans hversion, ?_⟩
    rw [hp.state (by rw [hstate]; cases entry.2 <;> rfl), hstate]

theorem reflects_nothing {reply : Reply ObjectBody} (hjobs : reportedJobs reply = [])
    (hversions : reportedVersions reply = []) (row : Stored) : Reflects reply row := by
  constructor
  · rw [hjobs]
    exact fun _ hjob => absurd hjob List.not_mem_nil
  · rw [hversions]
    exact fun _ hentry => absurd hentry List.not_mem_nil

theorem job_reflected {row : Stored} {record : VersionRecord} (hrecord : record ∈ records row) :
    ∃ record' ∈ records row, record'.version = record.toMaterializationJob.version ∧
      record'.commitSha = record.toMaterializationJob.commitSha ∧
      (record.toMaterializationJob.state.published = true →
        record'.state = record.toMaterializationJob.state) :=
  ⟨record, hrecord, rfl, rfl, fun _ => rfl⟩

theorem jobs_reflected {registry : PackageRegistry} {row : Stored}
    (h : registry.versions.values = records row) : ∀ job ∈ registry.jobs, ∃ record ∈ records row,
      record.version = job.version ∧ record.commitSha = job.commitSha ∧
        (job.state.published = true → record.state = job.state) := by
  intro job hjob
  obtain ⟨record, hrecord, rfl⟩ := List.mem_map.1 hjob
  rw [h] at hrecord
  exact job_reflected hrecord

theorem versions_reflected {registry : PackageRegistry} {row : Stored}
    (h : registry.versions.values = records row) : ∀ entry ∈ registry.packageMeta.versions,
      ∃ record ∈ records row, record.version = entry.1 ∧ record.state = outcomeState entry.2 := by
  intro entry hentry
  obtain ⟨record, hrecord, rfl⟩ := List.mem_map.1 hentry
  obtain ⟨hmem, hpublished⟩ := List.mem_filter.1 hrecord
  rw [h] at hmem
  refine ⟨record, hmem, rfl, ?_⟩
  cases hs : record.state with
  | pending =>
    rw [hs] at hpublished
    cases hpublished
  | leased =>
    rw [hs] at hpublished
    cases hpublished
  | ready => simp [outcomeState]
  | yanked => simp [outcomeState]

def readBy (i : ℕ) (called : Called objectCalls ObjectRequest) : Option Stored :=
  match called with
  | ⟨j, _, .readSnapshot, (.ok stored, _)⟩ => if j = i then some stored else none
  | _ => none

def lastRead (history : List (Called objectCalls ObjectRequest)) (i : ℕ) : Option Stored :=
  history.findSome? (readBy i)

/-- A snapshot is written only while the one that its handler read last is still stored. -/
def SavesFresh (s : ObjectScene) (i : ℕ) (_ : ObjectRequest) (call : objectCalls.Op) (choice : Choice) :
    Prop :=
  ∀ snapshot, call = .writeSnapshot snapshot → choice.fault = none →
    lastRead s.history i = some s.world.row

namespace ConcurrentHandlers

def SoundScene (s : ObjectScene) : Prop := Sound s.world.row

def RowRely (i : ℕ) (s t : ObjectScene) : Prop :=
  Kept s.world.row t.world.row ∧ lastRead t.history i = lastRead s.history i

def RowGuar (i : ℕ) (s t : ObjectScene) : Prop :=
  Kept s.world.row t.world.row ∧ (SoundScene s → SoundScene t) ∧
    ∀ j, j ≠ i → lastRead t.history j = lastRead s.history j

/-- From here on the handler keeps what is stored and ends with a true report. -/
abbrev Ensured (i : ℕ) (r : ObjectRequest) (p : ObjectHandlers.Handling) (s : ObjectScene) : Prop :=
  p.Ensures (Answered World.answer SavesFresh SoundScene i r) (RowRely i) (RowGuar i)
    (fun reply t => Reflects reply t.world.row) s

variable {r : ObjectRequest}

theorem readBy_other {i j : ℕ} (h : j ≠ i) (call : objectCalls.Op) (answer : objectCalls.Ret call) :
    readBy j ⟨i, r, call, answer⟩ = none := by
  unfold readBy
  split
  · rename_i heq
    cases heq
    exact if_neg (Ne.symm h)
  · rfl

theorem readBy_ne {i : ℕ} {call : objectCalls.Op} (hcall : call ≠ .readSnapshot) (j : ℕ)
    (answer : objectCalls.Ret call) : readBy j ⟨i, r, call, answer⟩ = none := by
  unfold readBy
  split
  · rename_i heq
    cases heq
    exact absurd rfl hcall
  · rfl

theorem ensured_done {reply : Reply ObjectBody} (hjobs : reportedJobs reply = [])
    (hversions : reportedVersions reply = []) (i : ℕ) (s : ObjectScene) :
    Ensured i r (.done reply) s :=
  .done (reflects_nothing hjobs hversions _)

theorem ensured_await {i : ℕ} {call : ObjectCall} {next : call.Answer → ℤ → ObjectHandlers.Handling}
    (hwrite : ∀ snapshot, call ≠ .writeSnapshot snapshot)
    (hcall : call ≠ .readSnapshot) (hnext : ∀ answer now t, Ensured i r (next answer now) t)
    (s : ObjectScene) : Ensured i r (ObjectHandlers.await call next) s := by
  apply Program.Ensures.of_call
  rintro t - answer u ⟨-, choice, -, hanswer⟩
  obtain rfl : (t.call World.answer i r choice call).2 = u := congrArg Prod.snd hanswer
  have hworld : (t.call World.answer i r choice call).2.world.row = t.world.row :=
    World.perform_row hwrite t.world choice
  refine ⟨⟨?_, ?_, ?_⟩, hnext _ _ _⟩
  · rw [hworld]
    exact .refl _
  · rw [SoundScene, SoundScene, hworld]
    exact id
  · intro j _
    rw [Scene.call_history, lastRead, List.findSome?_cons, readBy_ne hcall]
    rfl

theorem ensured_respond (status : ℕ) (message : String) (i : ℕ) (s : ObjectScene) :
    Ensured i r (ObjectHandlers.respond status message) s := ensured_done rfl rfl i s

theorem ensured_orThrow {α : Type} {i : ℕ} {next : α → ObjectHandlers.Handling} {s : ObjectScene}
    (answer : Except Str α) (h : ∀ result, answer = .ok result → Ensured i r (next result) s) :
    Ensured i r (ObjectHandlers.orThrow answer next) s := by
  cases answer with
  | error message => exact ensured_done rfl rfl i s
  | ok result => exact h result rfl

theorem ensured_readRegistry {i : ℕ} {initialName : Option PackageName}
    {next : PackageRegistry → ℤ → ObjectHandlers.Handling}
    (h : ∀ stored loaded now t, Loaded stored loaded → lastRead t.history i = some stored →
      Kept stored t.world.row → Ensured i r (next loaded now) t) (s : ObjectScene) :
    Ensured i r (ObjectHandlers.readRegistry initialName next) s := by
  apply Program.Ensures.of_call
  rintro t - answer u ⟨hsound, choice, -, hanswer⟩
  have hcall : (t.call World.answer i r choice .readSnapshot).1 = answer := congrArg Prod.fst hanswer
  obtain rfl : (t.call World.answer i r choice .readSnapshot).2 = u := congrArg Prod.snd hanswer
  have hworld : (t.call World.answer i r choice .readSnapshot).2.world.row = t.world.row := by
    rw [Scene.call_world]
    change (World.perform t.world choice .readSnapshot).2.row = _
    exact World.perform_row (by nofun) t.world choice
  refine ⟨⟨?_, ?_, ?_⟩, ?_⟩
  · rw [hworld]
    exact .refl _
  · rw [SoundScene, SoundScene, hworld]
    exact id
  · intro j hj
    rw [Scene.call_history, lastRead, List.findSome?_cons, readBy_other hj]
    rfl
  · apply ensured_orThrow
    intro stored hstored
    apply ensured_orThrow
    intro loaded hloaded
    have hrow : t.world.row = stored := by
      rw [← hcall] at hstored
      exact World.perform_readSnapshot hstored
    refine h stored loaded _ _ (registry_loaded (hrow ▸ hsound) hloaded) ?_ ?_
    · rw [Scene.call_history, lastRead, List.findSome?_cons, hcall]
      obtain ⟨result, now⟩ := answer
      obtain rfl : result = .ok stored := hstored
      simp [readBy]
    · rw [hworld, hrow]
      exact .refl _

theorem ensured_saveRegistry {i : ℕ} {stored : Stored} {target : PackageRegistry}
    {next : Except Str Unit → ObjectHandlers.Handling} {s : ObjectScene}
    (hread : lastRead s.history i = some stored) (hkept : Kept stored (PackageObject.saveRegistry target))
    (hsound : Sound (PackageObject.saveRegistry target))
    (hfail : ∀ message t, Ensured i r (next (.error message)) t)
    (hok : ∀ t, Kept (PackageObject.saveRegistry target) t.world.row → Ensured i r (next (.ok ())) t) :
    Ensured i r (ObjectHandlers.saveRegistry target next) s := by
  apply Program.Ensures.of_call
  rintro t ⟨-, hsame⟩ answer u ⟨hsoundRow, choice, hfresh, hanswer⟩
  have hcall : (t.call World.answer i r choice (.writeSnapshot target.snapshot)).1 = answer :=
    congrArg Prod.fst hanswer
  obtain rfl : (t.call World.answer i r choice (.writeSnapshot target.snapshot)).2 = u :=
    congrArg Prod.snd hanswer
  have hhistory : ∀ j, lastRead (t.call World.answer i r choice (.writeSnapshot target.snapshot)).2.history j
      = lastRead t.history j := by
    intro j
    have hne : (.writeSnapshot target.snapshot : objectCalls.Op) ≠ .readSnapshot := nofun
    rw [Scene.call_history, lastRead, List.findSome?_cons, readBy_ne hne]
    rfl
  cases hfault : choice.fault with
  | some message =>
    have hworld : (t.call World.answer i r choice (.writeSnapshot target.snapshot)).2.world.row
        = t.world.row := by
      rw [Scene.call_world]
      change (World.perform t.world choice (.writeSnapshot target.snapshot)).2.row = _
      rw [World.perform, hfault]
    have hresult : answer.1 = .error message := by
      rw [← hcall]
      change (World.perform t.world choice (.writeSnapshot target.snapshot)).1 = _
      rw [World.perform, hfault]
    refine ⟨⟨?_, ?_, fun j _ => hhistory j⟩, ?_⟩
    · rw [hworld]
      exact .refl _
    · rw [SoundScene, SoundScene, hworld]
      exact id
    · rw [hresult]
      exact hfail message _
  | none =>
    have hrow : t.world.row = stored := by
      have hlast := hfresh target.snapshot rfl hfault
      rw [hsame, hread] at hlast
      exact (Option.some.inj hlast).symm
    have hworld : (t.call World.answer i r choice (.writeSnapshot target.snapshot)).2.world.row
        = PackageObject.saveRegistry target := by
      rw [Scene.call_world]
      change (World.perform t.world choice (.writeSnapshot target.snapshot)).2.row = _
      rw [World.perform, hfault]
      rfl
    have hresult : answer.1 = .ok () := by
      rw [← hcall]
      change (World.perform t.world choice (.writeSnapshot target.snapshot)).1 = _
      rw [World.perform, hfault]
    refine ⟨⟨?_, ?_, fun j _ => hhistory j⟩, ?_⟩
    · rw [hworld, hrow]
      exact hkept
    · intro _
      rw [SoundScene, hworld]
      exact hsound
    · rw [hresult]
      apply hok
      rw [hworld]
      exact .refl _

theorem ensured_transition {i : ℕ} {stored : Stored} {loaded : PackageRegistry} {op : PackageRegistry.Op}
    {next : Except Str Unit → ObjectHandlers.Handling} {s : ObjectScene} (hloaded : Loaded stored loaded)
    (hread : lastRead s.history i = some stored)
    (hfail : ∀ message t, Ensured i r (next (.error message)) t)
    (hok : ∀ t, Kept (PackageObject.saveRegistry (loaded.apply op)) t.world.row →
      Ensured i r (next (.ok ())) t) :
    Ensured i r (ObjectHandlers.saveRegistry (loaded.apply op) next) s :=
  ensured_saveRegistry hread (hloaded.kept op) (sound_saveRegistry (hloaded.sound.apply op)) hfail hok

abbrev EnsuredAlways (i : ℕ) (r : ObjectRequest) (p : ObjectHandlers.Handling) : Prop :=
  ∀ s, Ensured i r p s

theorem passesOn_fetch (i : ℕ) (request : Request) (redirect : Redirect) :
    ObjectHandlers.PassesOn (EnsuredAlways i r) (.fetch request redirect) :=
  fun _ h s => ensured_await (by nofun) (by nofun) h s

theorem admits_ensured (i : ℕ) : ObjectHandlers.Admits (EnsuredAlways i r) where
  threw _ := ensured_done rfl rfl i
  refused message := ensured_respond 400 message i
  decided _ := ensured_done rfl rfl i
  unavailable _ := ensured_done rfl rfl i
  reads _ _ h s := ensured_await (by nofun) (by nofun) h s
  writes _ _ _ h s := ensured_await (by nofun) (by nofun) h s
  asks _ _ request _ := passesOn_fetch i request .follow

theorem ensured_refresh (body : Option RefreshBody) (i : ℕ) (s : ObjectScene) :
    Ensured i r (ObjectHandlers.refresh body) s := by
  unfold ObjectHandlers.refresh
  split
  · exact ensured_respond _ _ i s
  · split
    · exact ensured_respond _ _ i s
    · rename_i discovery _
      refine ensured_readRegistry ?_ s
      intro stored loaded now t hloaded hread _
      cases hr : loaded.refresh discovery with
      | mk result refreshed =>
        cases result with
        | error message => exact ensured_done rfl rfl i t
        | ok jobs =>
          have happly : loaded.apply (.refresh discovery) = refreshed := by
            rw [PackageRegistry.apply, hr]
          have hjobs := PackageRegistry.refresh_jobs hloaded.inStep.coherent hr
          have hsave := @ensured_transition r i stored loaded (.refresh discovery)
            (fun saved => ObjectHandlers.orThrow saved fun () =>
              .done (.json 200 (.refreshed (PackageObject.report refreshed) jobs))) t hloaded hread
          rw [happly] at hsave
          apply hsave
          · intro message u
            exact ensured_done rfl rfl i u
          · intro u hkept
            apply Program.Ensures.done
            refine @Reflects.kept _ (PackageObject.saveRegistry refreshed) _ ⟨?_, ?_⟩ hkept
            · intro job hjob
              rcases List.mem_append.1 hjob with hjob | hjob
              · exact jobs_reflected rfl job hjob
              · obtain ⟨record, hrecord, rfl⟩ := hjobs job hjob
                exact job_reflected hrecord
            · exact versions_reflected rfl

theorem ensured_recover (body : Option RecoverBody) (i : ℕ) (s : ObjectScene) :
    Ensured i r (ObjectHandlers.recover body) s := by
  unfold ObjectHandlers.recover
  split
  · exact ensured_respond _ _ i s
  · rename_i body
    split
    · exact ensured_respond _ _ i s
    · refine ensured_readRegistry ?_ s
      intro stored loaded now t hloaded hread _
      cases hr : loaded.recoverVersion body.version (trim body.reason) body.recoveredAt with
      | mk result recovered =>
        cases result with
        | error message => exact ensured_done rfl rfl i t
        | ok job =>
          have happly : loaded.apply (.recoverVersion body.version (trim body.reason) body.recoveredAt)
              = recovered := by
            rw [PackageRegistry.apply, hr]
          obtain ⟨record, hrecord, hjob⟩ := PackageRegistry.recoverVersion_job hr
          rw [← happly]
          apply ensured_transition hloaded hread
          · intro message u
            exact ensured_done rfl rfl i u
          · intro u hkept
            rw [happly] at hkept
            apply Program.Ensures.done
            refine @Reflects.kept _ (PackageObject.saveRegistry recovered) _ ⟨?_, ?_⟩ hkept
            · intro reported hreported
              rw [List.mem_singleton.1 hreported, ← hjob]
              exact job_reflected hrecord
            · exact fun _ hentry => absurd hentry List.not_mem_nil

theorem ensured_report {i : ℕ} {stored : Stored} {loaded target : PackageRegistry}
    {op : PackageRegistry.Op} {reply : Reply ObjectBody} {t : ObjectScene} (hloaded : Loaded stored loaded)
    (hread : lastRead t.history i = some stored) (happly : loaded.apply op = target)
    (hreply : Reflects reply (PackageObject.saveRegistry target)) :
    Ensured i r (ObjectHandlers.saveRegistry target fun saved =>
      ObjectHandlers.orThrow saved fun () => .done reply) t := by
  have hsave := @ensured_transition r i stored loaded op
    (fun saved => ObjectHandlers.orThrow saved fun () => .done reply) t hloaded hread
  rw [happly] at hsave
  apply hsave
  · intro message u
    exact ensured_done rfl rfl i u
  · intro u hkept
    exact .done (hreply.kept hkept)

theorem completed_apply {loaded target : PackageRegistry} {body : CompleteBody}
    (h : ObjectHandlers.completed loaded body = .ok target) :
    ∃ op, loaded.apply op = target := by
  unfold ObjectHandlers.completed at h
  cases hstate : body.state with
  | ready =>
    rw [hstate] at h
    refine ⟨.markReady body.version, ?_⟩
    cases hr : loaded.markReady body.version with
    | mk result next =>
      rw [hr] at h
      cases result with
      | error message => cases h
      | ok _ =>
        rw [PackageRegistry.apply, hr]
        exact Except.ok.inj h
  | yanked =>
    rw [hstate] at h
    cases hdiagnostic : body.diagnostic with
    | none =>
      rw [hdiagnostic] at h
      cases h
    | some diagnostic =>
      rw [hdiagnostic] at h
      refine ⟨.markYanked body.version diagnostic, ?_⟩
      cases hr : loaded.markYanked body.version diagnostic with
      | mk result next =>
        simp only [hr] at h
        cases result with
        | error message => cases h
        | ok _ =>
          rw [PackageRegistry.apply, hr]
          exact Except.ok.inj h

theorem ensured_complete (body : Option CompleteBody) (i : ℕ) (s : ObjectScene) :
    Ensured i r (ObjectHandlers.complete body) s := by
  unfold ObjectHandlers.complete
  split
  · exact ensured_respond _ _ i s
  · rename_i body
    refine ensured_readRegistry ?_ s
    intro stored loaded now t hloaded hread _
    cases hc : ObjectHandlers.completed loaded body with
    | error reply =>
      apply Program.Ensures.done
      unfold ObjectHandlers.completed at hc
      apply reflects_nothing <;> repeat (split at hc <;> try cases hc <;> rfl)
    | ok target =>
      obtain ⟨op, happly⟩ := completed_apply hc
      refine ensured_report hloaded hread happly ⟨?_, ?_⟩
      · exact fun _ hjob => absurd hjob List.not_mem_nil
      · exact versions_reflected rfl

theorem ensured_metadata (i : ℕ) (s : ObjectScene) : Ensured i r ObjectHandlers.metadata s := by
  refine ensured_readRegistry ?_ s
  intro stored loaded now t hloaded _ hkept
  apply Program.Ensures.done
  refine @Reflects.kept _ stored _ ⟨?_, ?_⟩ hkept
  · exact fun _ hjob => absurd hjob List.not_mem_nil
  · exact versions_reflected hloaded.records

theorem ensured_status (i : ℕ) (s : ObjectScene) : Ensured i r ObjectHandlers.status s := by
  refine ensured_readRegistry ?_ s
  intro stored loaded now t hloaded _ hkept
  apply Program.Ensures.done
  refine @Reflects.kept _ stored _ ⟨?_, ?_⟩ hkept
  · exact jobs_reflected hloaded.records
  · exact versions_reflected hloaded.records

theorem ensured_releaseLease (version : Str) (i : ℕ) (s : ObjectScene) :
    Ensured i r (ObjectHandlers.releaseLease version) s := by
  refine ensured_readRegistry ?_ s
  intro stored loaded now t hloaded hread _
  cases hr : loaded.releaseLease version with
  | mk result released =>
    cases result with
    | error message => exact ensured_respond _ _ i t
    | ok _ =>
      have happly : loaded.apply (.releaseLease version) = released := by
        rw [PackageRegistry.apply, hr]
      exact ensured_report hloaded hread happly (reflects_nothing rfl rfl _)

theorem ensured_finish (version : Str) (outcome : Outcome) (i : ℕ) (s : ObjectScene) :
    Ensured i r (ObjectHandlers.finish version outcome) s := by
  refine ensured_readRegistry ?_ s
  intro stored loaded now t hloaded hread _
  cases hr : ObjectHandlers.settled loaded version outcome with
  | mk result target =>
    cases result with
    | error message => exact ensured_respond _ _ i t
    | ok _ =>
      have happly : loaded.apply (Outcome.op version outcome) = target := by
        cases outcome with
        | ready =>
          rw [Outcome.op, PackageRegistry.apply]
          exact congrArg Prod.snd hr
        | yanked diagnostic =>
          rw [Outcome.op, PackageRegistry.apply]
          exact congrArg Prod.snd hr
      refine ensured_report hloaded hread happly ⟨?_, ?_⟩
      · exact jobs_reflected rfl
      · exact versions_reflected rfl

theorem passesOn_bucket (i : ℕ) (op : R2Call) :
    ObjectHandlers.PassesOn (EnsuredAlways i r) (.bucket op) :=
  fun _ h s => ensured_await (by nofun) (by nofun) h s

theorem ensured_received (version : Str) (response : Fetched) (i : ℕ) (s : ObjectScene) :
    Ensured i r (ObjectHandlers.received version response) s := by
  unfold ObjectHandlers.received
  split
  · split
    · exact ensured_done rfl rfl i s
    · exact ensured_releaseLease version i s
  · split
    · exact ensured_releaseLease version i s
    · refine ObjectHandlers.publishing_of (passesOn_bucket i) _ ?_ s
      intro publication t
      apply ensured_orThrow
      intro response _
      split
      · exact ensured_releaseLease version i t
      · exact ensured_finish version _ i t

theorem ensured_materializeJob (env : ObjectEnv) (name : PackageName) (job : MaterializationJob)
    (body : MaterializeBody) (i : ℕ) (s : ObjectScene) :
    Ensured i r (ObjectHandlers.materializeJob env name job body) s := by
  refine ObjectHandlers.githubArchive_of (fun request => passesOn_fetch i request .manual) ?_ s
  intro archive t
  split
  · exact ensured_releaseLease _ i t
  · exact ensured_releaseLease _ i t
  · split
    · exact ensured_releaseLease _ i t
    · rename_i request _
      refine @ensured_await r i (.container (ObjectHandlers.packageId name) request) _ (by nofun)
        (by nofun) ?_ t
      intro response now u
      cases response with
      | error message => exact ensured_releaseLease _ i u
      | ok response => exact ensured_received _ response i u

theorem ensured_materialize (env : ObjectEnv) (body : Option MaterializeBody) (i : ℕ) (s : ObjectScene) :
    Ensured i r (ObjectHandlers.materialize env body) s := by
  unfold ObjectHandlers.materialize
  split
  · exact ensured_respond _ _ i s
  · split
    · exact ensured_respond _ _ i s
    · split
      · exact ensured_respond _ _ i s
      · refine ensured_readRegistry ?_ s
        intro stored loaded now t hloaded hread hkept
        cases hr : loaded.leaseNext now with
        | mk result leased =>
          cases result with
          | none =>
            apply Program.Ensures.done
            refine @Reflects.kept _ stored _ ⟨?_, ?_⟩ hkept
            · exact jobs_reflected hloaded.records
            · exact versions_reflected hloaded.records
          | some job =>
            have happly : loaded.apply (.leaseNext now) = leased := by
              rw [PackageRegistry.apply, hr]
            rename_i body _ _
            have hsave := @ensured_transition r i stored loaded (.leaseNext now)
              (fun saved => ObjectHandlers.orThrow saved fun () =>
                ObjectHandlers.materializeJob env loaded.name job body) t hloaded hread
            rw [happly] at hsave
            apply hsave
            · intro message u
              exact ensured_done rfl rfl i u
            · intro u _
              exact ensured_materializeJob env _ job body i u

theorem ensured_handle (env : ObjectEnv) (request : ObjectRequest) (i : ℕ) (s : ObjectScene) :
    Ensured i r (ObjectHandlers.handle env request) s := by
  cases request with
  | check pat => exact (admits_ensured i).of_check env pat s
  | authorize body => exact (admits_ensured i).of_authorize env body s
  | refresh body => exact ensured_refresh body i s
  | recover body => exact ensured_recover body i s
  | materialize body => exact ensured_materialize env body i s
  | complete body => exact ensured_complete body i s
  | metadata => exact ensured_metadata i s
  | status => exact ensured_status i s
  | unknown => exact ensured_respond _ _ i s

/-- Each handler keeps what is stored, and the others do not touch what it has read. -/
theorem row_relyGuarantee (env : ObjectEnv) : RelyGuarantee (ObjectHandlers.handle env) World.answer
    SavesFresh SoundScene RowRely RowGuar (fun _ _ reply s => Reflects reply s.world.row) where
  starts i request s _ _ := ensured_handle env request i s
  keeps _ _ _ hs hguar := hguar.2.1 hs
  others _ _ _ _ hne _ hguar := ⟨hguar.1, hguar.2.2 _ (Ne.symm hne)⟩
  refl _ _ := ⟨.refl _, rfl⟩
  trans _ _ _ _ h h' := ⟨h.1.trans h'.1, h'.2.trans h.2⟩
  stable _ _ _ _ _ h hrely := h.kept hrely.1

end ConcurrentHandlers

/-- What the finished handlers have reported is stored, and they agree on it. -/
structure NoLostUpdate (pool : ObjectPool) : Prop where
  created : ∀ i request reply, pool.Finished i request reply → ∀ job ∈ created reply,
    ∃ record ∈ records pool.scene.world.row, record.version = job.version ∧
      record.commitSha = job.commitSha
  agree : ∀ i i' request request' reply reply', pool.Finished i request reply →
    pool.Finished i' request' reply' → ∀ job ∈ reportedJobs reply, ∀ job' ∈ reportedJobs reply',
      job.version = job'.version → job.commitSha = job'.commitSha
  outcome : ∀ i request reply, pool.Finished i request reply → ∀ entry ∈ reportedVersions reply,
    ∃ record ∈ records pool.scene.world.row, record.version = entry.1 ∧
      record.state = outcomeState entry.2
  job : ∀ i request reply, pool.Finished i request reply → ∀ job ∈ reportedJobs reply,
    job.state.published = true → ∃ record ∈ records pool.scene.world.row,
      record.version = job.version ∧ record.state = job.state

theorem created_reported {reply : Reply ObjectBody} {job : MaterializationJob} (h : job ∈ created reply) :
    job ∈ reportedJobs reply := by
  unfold created at h
  split at h
  · exact List.mem_append_right _ h
  · exact h
  · exact absurd h List.not_mem_nil

theorem noLostUpdate_of_reflects {pool : ObjectPool} (hsound : Sound pool.scene.world.row)
    (h : ∀ i request reply, pool.Finished i request reply → Reflects reply pool.scene.world.row) :
    NoLostUpdate pool where
  created i request reply hreply job hjob := by
    obtain ⟨record, hrecord, hversion, hcommit, -⟩ :=
      (h i request reply hreply).job job (created_reported hjob)
    exact ⟨record, hrecord, hversion, hcommit⟩
  agree i i' request request' reply reply' hreply hreply' job hjob job' hjob' hversions := by
    obtain ⟨record, hrecord, hversion, hcommit, -⟩ := (h i request reply hreply).job job hjob
    obtain ⟨record', hrecord', hversion', hcommit', -⟩ := (h i' request' reply' hreply').job job' hjob'
    obtain rfl := records_unique hsound hrecord hrecord'
      (hversion.trans (hversions.trans hversion'.symm))
    exact hcommit.symm.trans hcommit'
  outcome i request reply hreply := (h i request reply hreply).version
  job i request reply hreply job hjob hpublished := by
    obtain ⟨record, hrecord, hversion, -, hstate⟩ := (h i request reply hreply).job job hjob
    exact ⟨record, hrecord, hversion, hstate hpublished⟩

open Executions in
/-- No update is lost in a run in which every snapshot is written over the one that its
    handler read. -/
theorem noLostUpdate_of_fresh (env : ObjectEnv) {world : World} (hworld : world.row = none)
    {events : List ObjectEvent}
    (ha : Admitted (ObjectPool.step env) (Pool.Admits SavesFresh) (.start world) events) :
    NoLostUpdate (run (ObjectPool.step env) (.start world) events) := by
  have hsound : ConcurrentHandlers.SoundScene ⟨world, []⟩ := by
    rw [ConcurrentHandlers.SoundScene, hworld]
    exact sound_none
  obtain ⟨hrow, hreflects⟩ := (ConcurrentHandlers.row_relyGuarantee env).run hsound ha
  exact noLostUpdate_of_reflects hrow hreflects

def plainEnv : ObjectEnv := ⟨none, false, id, fun _ => none⟩

def emptyWorld : World := ⟨none, fun _ => none, ObjectStore.empty, 0⟩

def plainChoice : Choice := ⟨0, none, .error [], none⟩

def refreshTo (sha : String) : ObjectRequest :=
  .refresh (some ⟨⟨"acme".toList, "widget".toList⟩, "main".toList, [("main".toList, ⟨sha.toList, 7⟩)]⟩)

def freshRun : List ObjectEvent :=
  [.start (refreshTo "a"), .start (refreshTo "b"), .advance 0 plainChoice, .advance 0 plainChoice,
    .advance 1 plainChoice, .advance 1 plainChoice]

def staleRun : List ObjectEvent :=
  [.start (refreshTo "a"), .start (refreshTo "b"), .advance 0 plainChoice, .advance 1 plainChoice,
    .advance 0 plainChoice, .advance 1 plainChoice]

theorem freshRun_admitted : Executions.Admitted (ObjectPool.step plainEnv) (Pool.Admits SavesFresh)
    (.start emptyWorld) freshRun := by
  refine ⟨trivial, trivial, ?_, ?_, ?_, ?_, trivial⟩
  · intro request op next h
    cases h
    nofun
  · intro request op next h
    cases h
    intro snapshot _ _
    rfl
  · intro request op next h
    cases h
    nofun
  · intro request op next h
    cases h
    intro snapshot _ _
    rfl

theorem noLostUpdate_freshRun :
    NoLostUpdate (Executions.run (ObjectPool.step plainEnv) (.start emptyWorld) freshRun) :=
  noLostUpdate_of_fresh plainEnv rfl freshRun_admitted

def pendingJob (sha : String) : MaterializationJob :=
  ⟨"main".toList, sha.toList, 0, "0.1.7".toList, .pending, none, none⟩

def pendingReply (sha : String) : Reply ObjectBody :=
  .json 200 (.refreshed ⟨⟨"acme".toList, "widget".toList, []⟩, [pendingJob sha]⟩ [pendingJob sha])

/-- Both commits are reported under one version. -/
theorem staleRun_loses :
    ¬ NoLostUpdate (Executions.run (ObjectPool.step plainEnv) (.start emptyWorld) staleRun) := by
  intro h
  have hfirst : (Executions.run (ObjectPool.step plainEnv) (.start emptyWorld) staleRun).Finished 0
      (refreshTo "a") (pendingReply "a") := rfl
  have hsecond : (Executions.run (ObjectPool.step plainEnv) (.start emptyWorld) staleRun).Finished 1
      (refreshTo "b") (pendingReply "b") := rfl
  have hcommits := h.agree 0 1 _ _ _ _ hfirst hsecond (pendingJob "a") List.mem_cons_self
    (pendingJob "b") List.mem_cons_self rfl
  exact absurd hcommits (by decide)

end JsrProxy
