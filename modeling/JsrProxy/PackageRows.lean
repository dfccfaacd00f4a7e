import JsrProxy.AtomicHandlers
import JsrProxy.FleetAgreement
import JsrProxy.KeptDecisions

set_option autoImplicit false

/-!
# Package rows

In every run the row of a package is that of a sound registry of this package, whatever
fails and however the writes overtake each other. What a handler writes is a step from a
row that it has read before.
-/
namespace JsrProxy

theorem PackageRegistry.apply_name (registry : PackageRegistry) (op : PackageRegistry.Op) :
    (registry.apply op).name = registry.name := by
  cases op with
  | refresh discovery => exact registry.refresh_name discovery
  | leaseNext now => exact (registry.leaseNext_touches now).name
  | releaseLease version => exact (registry.releaseLease_touches version).name
  | markReady version => exact (registry.markReady_touches version).name
  | markYanked version diagnostic => exact (registry.markYanked_touches version diagnostic).name
  | recoverVersion version reason recoveredAt =>
    exact registry.recoverVersion_name version reason recoveredAt
  | reload =>
    unfold apply
    cases hrestored : fromSnapshot registry.snapshot with
    | error message => rfl
    | ok restored => exact fromSnapshot_name hrestored

namespace PackageObject

/-- The row is that of a sound registry of the package. -/
structure Own (package : PackageName) (stored : Stored) : Prop where
  sound : Sound stored
  named : ∀ snapshot, stored = some snapshot → snapshot.name = package

theorem own_none (package : PackageName) : Own package none := ⟨sound_none, by rintro _ ⟨⟩⟩

theorem Own.registry_name {package : PackageName} {stored : Stored} (h : Own package stored)
    {loaded : PackageRegistry} (hload : registry stored none = .ok loaded) : loaded.name = package := by
  cases stored with
  | none => cases hload
  | some snapshot => exact (PackageObject.registry_name hload).trans (h.named snapshot rfl)

theorem Transition.name {stored after : Stored} {op : PackageRegistry.Op} (h : Transition stored after op)
    {before snapshot : PackageRegistrySnapshot} (hstored : stored = some before)
    (hafter : after = some snapshot) : snapshot.name = before.name := by
  rcases h with he | ⟨initialName, loaded, hload, he⟩
  · rw [he, hstored] at hafter
    rw [Option.some.inj hafter]
  · rw [hstored] at hload
    rw [he] at hafter
    obtain rfl := Option.some.inj hafter
    exact (loaded.apply_name op).trans (PackageObject.registry_name hload)

/-- Only a refresh writes the first row, under the name that it is given. -/
theorem handle_none {step : PackageRequest} {snapshot : PackageRegistrySnapshot}
    (h : handle none step = some snapshot) :
    ∃ defaultBranch branches, step = .refresh snapshot.name defaultBranch branches := by
  cases step with
  | refresh package defaultBranch branches =>
    refine ⟨defaultBranch, branches, ?_⟩
    change (refresh none package defaultBranch branches).2 = some snapshot at h
    rcases refresh_cases none package defaultBranch branches sound_none with
      ⟨discovery, loaded, selection, -, hload, -, -, created, he⟩ | ⟨-, he, -⟩
    · rw [he] at h
      obtain rfl := Option.some.inj h
      obtain rfl := Except.ok.inj hload
      change PackageRequest.refresh package defaultBranch branches = .refresh
        (PackageRegistry.refreshBranches _ [] selection.branches).2.name defaultBranch branches
      rw [PackageRegistry.refreshBranches_name]
      rfl
    · rw [he] at h
      cases h
  | recover version reason recoveredAt =>
    change (recover none version reason recoveredAt).2 = some snapshot at h
    unfold recover at h
    split at h <;> cases h
  | lease | complete | releaseLease => cases h

theorem Own.handle {package : PackageName} {stored : Stored} (h : Own package stored) {step : PackageRequest}
    (hnamed : ∀ name defaultBranch branches, step = .refresh name defaultBranch branches → name = package) :
    Own package (PackageObject.handle stored step) := by
  obtain ⟨op, ht⟩ := handle_transition stored step
  refine ⟨ht.sound h.sound, ?_⟩
  intro snapshot hsnapshot
  cases hstored : stored with
  | none =>
    rw [hstored] at hsnapshot
    obtain ⟨defaultBranch, branches, hstep⟩ := handle_none hsnapshot
    exact hnamed _ _ _ hstep
  | some before => exact (ht.name hstored hsnapshot).trans (h.named before hstored)

end PackageObject

namespace World

theorem perform_row_cases (world : World) (choice : Choice) (call : ObjectCall) :
    (world.perform choice call).2.row = world.row ∨
      ∃ snapshot, call = .writeSnapshot snapshot ∧ (world.perform choice call).2.row = some snapshot := by
  by_cases hwrite : ∀ snapshot, call ≠ .writeSnapshot snapshot
  · exact .inl (perform_row hwrite world choice)
  · push Not at hwrite
    obtain ⟨snapshot, rfl⟩ := hwrite
    unfold perform
    cases choice.fault with
    | some message => exact .inl rfl
    | none => exact .inr ⟨snapshot, rfl, rfl⟩

end World

namespace Fleet
open ObjectHandlers PackageObject

theorem stands_refresh {past : List (Exchange objectCalls)} {request : ObjectRequest} {name : PackageName}
    {defaultBranch : Str} {branches : List (Str × Branches.CommitTip)}
    (h : Stands past request (.refresh name defaultBranch branches)) :
    ∃ body : RefreshBody, request = .refresh (some body) ∧ body.package = name := by
  cases h with
  | refresh body => exact ⟨body, rfl, rfl⟩

def WritesFor (r : FleetRequest) (past : List (Exchange fleetCalls)) (op : fleetCalls.Op) : Prop :=
  op.1 = r.package ∧ WritesStep r.request (past.map Program.untag) op.2

theorem justified_writes (env : ObjectEnv) (r : FleetRequest) :
    (Fleet.handle env r).Justified (WritesFor r) (fun _ _ => True) [] :=
  ((justified_handle env r.request).mono (fun _ _ h => h) fun _ _ _ => trivial).tag rfl

/-- The rows are the packages' own, and so is what has been read of them. -/
structure OwnRows (pool : FleetPool) : Prop where
  rows : ∀ package, Own package (pool.scene.world.rows package)
  reads : ∀ called ∈ pool.scene.history, ∀ stored now,
    called.within = readExchange (.ok stored) now → Own called.op.1 stored
  accounted : pool.Accounted WritesFor (fun _ _ _ => True)

theorem found_some {exchange : Exchange objectCalls} {stored : Stored} (h : found exchange = some stored) :
    ∃ now, exchange = readExchange (.ok stored) now := by
  unfold found at h
  split at h
  · rename_i read now
    obtain rfl := Option.some.inj h
    exact ⟨now, rfl⟩
  · cases h

/-- What a handler writes next is its package's own row. -/
theorem OwnRows.writes {pool : FleetPool} (h : OwnRows pool) {i : ℕ} {r : FleetRequest} (hworker : FromWorker r)
    {snapshot : PackageRegistrySnapshot} {next : fleetCalls.Ret (r.package, .writeSnapshot snapshot) →
      Program fleetCalls (Reply ObjectBody)}
    (hthread : pool.threads[i]? = some ⟨r, .call (r.package, .writeSnapshot snapshot) next⟩) :
    Own r.package (some snapshot) := by
  have hjustified := h.accounted.threads i _ hthread
  cases hjustified with
  | call hop _ =>
    obtain ⟨stored, step, hfound, hstands, hstep⟩ := hop.2 snapshot rfl
    obtain ⟨exchange, hexchange, hread⟩ := List.exists_of_findSome?_eq_some hfound
    obtain ⟨now, rfl⟩ := found_some hread
    obtain ⟨called, hcalled, hown, hwithin⟩ := ownExchanges_untag hexchange
    have hstored := h.reads called hcalled stored now hwithin
    obtain ⟨-, -, -, hplace, -⟩ := h.accounted.of_mem hcalled
    obtain ⟨thread, hi, hrequest⟩ := h.accounted.owned called hcalled
    rw [hown, hthread] at hi
    obtain rfl := Option.some.inj hi
    rw [hplace, ← hrequest] at hstored
    rw [← hstep]
    apply hstored.handle
    rintro name defaultBranch branches rfl
    obtain ⟨body, hbody, rfl⟩ := stands_refresh hstands
    exact hworker.named body hbody

theorem OwnRows.step {pool : FleetPool} (h : OwnRows pool) (env : ObjectEnv) {e : FleetEvent}
    (he : pool.Admits (fun _ _ r _ _ => FromWorker r) e) : OwnRows (FleetPool.step env pool e) := by
  have haccounted : (FleetPool.step env pool e).Accounted WritesFor (fun _ _ _ => True) :=
    h.accounted.step (justified_writes env) e
  rcases Pool.step_cases (Fleet.handle env) Fleet.answer pool e with
    ⟨_, -, hstep⟩ | ⟨i, choice, r, op, next, rfl, hthread, hstep⟩ | hstep
  · refine ⟨?_, ?_, haccounted⟩
    · rw [FleetPool.step, hstep]
      exact h.rows
    · rw [FleetPool.step, hstep]
      exact h.reads
  · obtain ⟨package, call⟩ := op
    obtain rfl : package = r.package := by
      cases h.accounted.threads i _ hthread with
      | call hop _ => exact hop.1
    refine ⟨?_, ?_, haccounted⟩
    · rw [FleetPool.step, hstep]
      intro package
      change Own package (Function.update pool.scene.world.rows r.package
        ((pool.scene.world.object r.package).perform choice call).2.row package)
      by_cases hpackage : package = r.package
      · subst hpackage
        rw [Function.update_self]
        rcases World.perform_row_cases (pool.scene.world.object r.package) choice call with
          hkept | ⟨snapshot, rfl, hwritten⟩
        · rw [hkept]
          exact h.rows r.package
        · rw [hwritten]
          exact h.writes (he r _ next hthread) hthread
      · rw [Function.update_of_ne hpackage]
        exact h.rows package
    · rw [FleetPool.step, hstep]
      intro called hcalled stored now hread
      rcases List.mem_cons.1 hcalled with rfl | hcalled
      · obtain rfl : call = .readSnapshot := congrArg Exchange.op hread
        have hanswer : ((pool.scene.world.object r.package).perform choice .readSnapshot).1 = .ok stored :=
          congrArg Prod.fst (eq_of_heq (Exchange.mk.inj hread).2)
        rw [← World.perform_readSnapshot hanswer]
        exact h.rows r.package
      · exact h.reads called hcalled stored now hread
  · refine ⟨?_, ?_, haccounted⟩
    · rw [FleetPool.step, hstep]
      exact h.rows
    · rw [FleetPool.step, hstep]
      exact h.reads

open Executions in
theorem ownRows_reached {env : ObjectEnv} {pool : FleetPool}
    (h : Executions.Reached (FleetPool.step env) (Pool.Admits fun _ _ r _ _ => FromWorker r) (.start Fleet.new)
      pool) : OwnRows pool := by
  obtain ⟨events, rfl, ha⟩ := h
  refine run_invariant OwnRows (Pool.Admits fun _ _ r _ _ => FromWorker r) (fun _ _ h he => h.step env he) _ _
    ?_ ha
  exact ⟨own_none, fun _ hcalled => absurd hcalled List.not_mem_nil, Pool.accounted_start _⟩

end Fleet
end JsrProxy
