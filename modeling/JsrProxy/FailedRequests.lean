import JsrProxy.HandlerRules
import JsrProxy.PersistedRegistries
import JsrProxy.ServiceOutages

set_option autoImplicit false

/-!
# Failed requests

What a failed request leaves of the stored package: a handler that runs alone saves
after its transition, so nothing is kept of one that throws, and a lease that comes
to nothing is taken back.
-/
namespace JsrProxy

namespace VersionAllocator
open StableSorting

theorem restoreAll_filed {read rest : List VersionAssignment} {allocator result : VersionAllocator}
    (h : ∀ major, (allocator.forMajor major).assignments.values =
      read.filter fun x => x.major = major)
    (hr : restoreAll allocator rest = .ok result) (major : ℤ) :
    (result.forMajor major).assignments.values = (read ++ rest).filter fun x => x.major = major := by
  induction rest generalizing read allocator with
  | nil =>
    rw [restoreAll, Except.ok.injEq] at hr
    rw [← hr, List.append_nil]
    exact h major
  | cons x rest ih =>
    rw [restoreAll] at hr
    cases hx : restore allocator x with
    | error message => simp only [hx, reduceCtorEq] at hr
    | ok next =>
      simp only [hx] at hr
      obtain ⟨-, -, -, hfree, rfl⟩ := restore_ok hx
      rw [List.append_cons]
      apply ih _ hr
      intro m
      rw [forMajor_setMajor, List.filter_append]
      split_ifs with hm
      · subst hm
        rw [restored, OrderedMap.values_set_new _ _ hfree, h]
        simp
      · have hne : x.major ≠ m := fun he => hm he.symm
        rw [h, List.filter_singleton]
        simp [hne]

theorem fromSnapshot_saved {saved loaded : VersionAllocator}
    (h : fromSnapshot saved.snapshot = .ok loaded) : loaded.snapshot = saved.snapshot := by
  have hreads := reads_restoreAll reads_new h
  have hfiled := @restoreAll_filed [] _ _ _ (fun major => by rw [forMajor_new]; rfl) h
  rw [List.nil_append] at hreads hfiled
  have htotal : @Std.Total VersionAssignment fun left right =>
      localeLe left.version right.version = true := ⟨fun left right => localeLe_total _ _⟩
  have htrans : IsTrans VersionAssignment fun left right =>
      localeLe left.version right.version = true := ⟨fun _ _ _ => localeLe_trans⟩
  have hsorted : saved.snapshot.assignments.Pairwise fun left right =>
      localeLe left.version right.version = true := List.pairwise_insertionSort _ _
  have hnamed : ∀ x ∈ saved.snapshot.assignments, x.version = versionString x.major x.sequence := by
    intro x hx
    have hget := (hreads.content x.major _ x).2 ⟨hx, rfl, rfl⟩
    exact ((hreads.coherent x.major).ofMajor _ x hget).2.1
  have hkeyed : ∀ v, keyed VersionAssignment.version v
        (loaded.majors.values.flatMap fun allocations => allocations.assignments.values)
      = keyed VersionAssignment.version v saved.snapshot.assignments := by
    intro v
    by_cases hv : ∃ major sequence, versionString major sequence = v
    · obtain ⟨major, sequence, rfl⟩ := hv
      rw [keyed_issued hreads.coherent, hfiled, keyed, List.filter_filter, keyed]
      apply List.filter_congr
      intro x hx
      by_cases hversion : x.version = versionString major sequence
      · have hmajor := (versionString_inj ((hnamed x hx).symm.trans hversion)).1
        simp [hversion, hmajor]
      · simp [hversion]
    · have hunnamed : ∀ major sequence, versionString major sequence ≠ v :=
        fun major sequence he => hv ⟨major, sequence, he⟩
      rw [keyed_unnamed hreads.coherent hunnamed, eq_comm, List.eq_nil_iff_forall_not_mem]
      intro x hx
      obtain ⟨hx, hversion⟩ := mem_keyed.1 hx
      exact hunnamed _ _ ((hnamed x hx).symm.trans hversion)
  rw [snapshot, insertionSort_eq localeLe_total (fun _ _ _ => localeLe_trans)
    (fun _ _ => localeLe_antisymm) hkeyed, hsorted.insertionSort_eq]

end VersionAllocator

namespace PackageRegistry

def ByVersion (versions : OrderedMap Str VersionRecord) : Prop :=
  ∀ v record, versions.get? v = some record → record.version = v

theorem ByVersion.set {versions : OrderedMap Str VersionRecord} (h : ByVersion versions)
    {v : Str} {record : VersionRecord} (hv : record.version = v) : ByVersion (versions.set v record) := by
  intro w other hw
  rw [OrderedMap.get?_set] at hw
  split_ifs at hw with he
  · rw [← Option.some.inj hw, hv, he]
  · exact h w other hw

theorem restoreVersions_byVersion {versions result : OrderedMap Str VersionRecord} {rest : List VersionRecord}
    (h : ByVersion versions) (hr : restoreVersions versions rest = .ok result) :
    ByVersion result ∧ result.values = versions.values ++ rest := by
  induction rest generalizing versions with
  | nil =>
    rw [restoreVersions, Except.ok.injEq] at hr
    subst hr
    exact ⟨h, (List.append_nil _).symm⟩
  | cons record rest ih =>
    rw [restoreVersions] at hr
    split_ifs at hr with hhas
    have hnew : versions.get? record.version = none := by
      rw [Bool.not_eq_true, OrderedMap.has, Option.isSome_eq_false_iff, Option.isNone_iff_eq_none] at hhas
      exact hhas
    obtain ⟨hfiled, hvalues⟩ := ih (h.set rfl) hr
    refine ⟨hfiled, ?_⟩
    rw [hvalues, OrderedMap.values_set_new _ _ hnew, List.append_assoc, List.singleton_append]

/-- What is loaded from a saved snapshot saves to it again, and changes of its records
    are loaded as they are saved. -/
theorem fromSnapshot_saved {saved loaded : PackageRegistry} (h : fromSnapshot saved.snapshot = .ok loaded) :
    loaded.snapshot = saved.snapshot ∧ ByVersion loaded.versions ∧
      ∀ versions, ByVersion versions →
        fromSnapshot { loaded with versions := versions }.snapshot = .ok { loaded with versions := versions } := by
  unfold fromSnapshot at h
  cases ha : VersionAllocator.fromSnapshot saved.snapshot.allocator with
  | error message => simp only [ha, reduceCtorEq] at h
  | ok allocator =>
    simp only [ha] at h
    cases hv : restoreVersions .empty saved.snapshot.versions with
    | error message => simp only [hv, reduceCtorEq] at h
    | ok versions =>
      simp only [hv, Except.ok.injEq] at h
      subst h
      have hallocator : allocator.snapshot = saved.snapshot.allocator :=
        VersionAllocator.fromSnapshot_saved ha
      have hempty : ByVersion .empty := fun v record hget => by cases hget
      obtain ⟨hfiled, hvalues⟩ := restoreVersions_byVersion hempty hv
      refine ⟨?_, hfiled, ?_⟩
      · rw [snapshot]
        dsimp only
        rw [hallocator, hvalues]
        rfl
      · intro other hother
        have hload : VersionAllocator.fromSnapshot allocator.snapshot = .ok allocator := by
          rw [hallocator, ha]
        unfold fromSnapshot
        simp only [snapshot, hload, restoreVersions_values hother]

def withPending (stored : PackageRegistrySnapshot) (version : Str) : PackageRegistrySnapshot :=
  { stored with versions := stored.versions.map fun record =>
      if record.version = version then record.asPending else record }

theorem ByVersion.values_set {versions : OrderedMap Str VersionRecord} (h : ByVersion versions) {v : Str}
    {old : VersionRecord} (hold : versions.get? v = some old) (record : VersionRecord) :
    (versions.set v record).values =
      versions.values.map fun other => if other.version = v then record else other := by
  have hmem : v ∈ versions.entries.map Prod.fst :=
    List.mem_map_of_mem ((OrderedMap.get?_eq_some _ _ _).1 hold)
  rw [OrderedMap.values, OrderedMap.values, OrderedMap.entries_set_old _ _ hmem, List.map_map, List.map_map]
  apply List.map_congr_left
  intro entry hentry
  have hversion := h entry.1 entry.2 ((OrderedMap.get?_eq_some _ _ _).2 hentry)
  simp only [Function.comp_apply, OrderedMap.replaceEntry, hversion]
  split_ifs with he
  · rfl
  · rfl

theorem ByVersion.of_mem {versions : OrderedMap Str VersionRecord} (h : ByVersion versions) {v : Str}
    {record other : VersionRecord} (hrecord : versions.get? v = some record)
    (hother : other ∈ versions.values) (hversion : other.version = v) : other = record := by
  obtain ⟨w, hw⟩ := (OrderedMap.mem_values _ _).1 hother
  rw [← h w other hw, hversion, hrecord] at hw
  exact (Option.some.inj hw).symm

theorem leased_saved {saved loaded leased : PackageRegistry} {now : ℤ} {job : MaterializationJob}
    (h : fromSnapshot saved.snapshot = .ok loaded) (hl : loaded.leaseNext now = (some job, leased)) :
    fromSnapshot leased.snapshot = .ok leased ∧ ∃ released,
      leased.releaseLease job.version = (.ok (), released) ∧
        released.snapshot = withPending saved.snapshot job.version := by
  obtain ⟨hsame, hversions, hreload⟩ := fromSnapshot_saved h
  obtain ⟨version, record, hnext, rfl, rfl⟩ := leaseNext_some hl
  obtain ⟨hget, -⟩ := nextEligible_some hnext
  have hversion : record.version = version := hversions version record hget
  have hleased : ByVersion (loaded.versions.set version (record.asLeased now)) := hversions.set hversion
  have hjob : (record.asLeased now).toMaterializationJob.version = version := hversion
  refine ⟨hreload _ hleased, loaded.updateVersion version record.asPending, ?_, ?_⟩
  · rw [hjob]
    exact releaseLease_asLeased loaded version record now
  · rw [hjob, ← hsame, withPending]
    simp only [snapshot, updateVersion, PackageRegistrySnapshot.mk.injEq, true_and, and_true]
    rw [hversions.values_set hget]
    apply List.map_congr_left
    intro other hother
    by_cases he : other.version = version
    · rw [hversions.of_mem hget hother he]
    · rw [if_neg he, if_neg he]

theorem releaseLease_leased {saved loaded leased : PackageRegistry} {now : ℤ} {job : MaterializationJob}
    (h : fromSnapshot saved.snapshot = .ok loaded) (hl : loaded.leaseNext now = (some job, leased)) :
    (PackageObject.releaseLease (PackageObject.saveRegistry leased) job.version).2 =
      some (withPending saved.snapshot job.version) := by
  obtain ⟨hreload, released, hreleased, hsaved⟩ := leased_saved h hl
  have hload : PackageObject.registry (PackageObject.saveRegistry leased) none = .ok leased := by
    simp only [PackageObject.registry, PackageObject.saveRegistry, hreload]
  unfold PackageObject.releaseLease
  simp only [hload, hreleased]
  rw [PackageObject.saveRegistry, hsaved]

end PackageRegistry

def Reply.status? {α : Type} : Reply α → Option ℕ
  | .json status _ => some status
  | .text status _ _ => some status
  | .threw _ => none

namespace ObjectHandlers
open PackageObject MetadataRequest

/-- Alone on a stored row, the handler leaves one that fits its reply. -/
structure Leaves (post : Reply ObjectBody → Stored → Prop) (row : Stored) (p : Handling) : Prop where
  run : ∀ choices state, state.1.row = row →
    post (p.run (answerObject choices) state).1 (p.run (answerObject choices) state).2.1.row

variable {post : Reply ObjectBody → Stored → Prop} {row : Stored}

theorem leaves_done {reply : Reply ObjectBody} (h : post reply row) : Leaves post row (.done reply) := by
  constructor
  intro choices state hrow
  rw [← hrow] at h
  exact h

def Quiet (call : ObjectCall) : Prop := ∀ snapshot, call ≠ .writeSnapshot snapshot

theorem answer_row {call : ObjectCall} (h : Quiet call) (choices : ℕ → Choice) (state : World × ℕ) :
    (answerObject choices state call).2.1.row = state.1.row :=
  World.perform_row h state.1 (choices state.2)

theorem leaves_await {call : ObjectCall} (hquiet : Quiet call) : PassesOn (Leaves post row) call := by
  intro next h
  constructor
  intro choices state hrow
  exact (h _ _).run choices _ ((answer_row hquiet choices state).trans hrow)

theorem run_readRegistry (initialName : Option PackageName) (next : PackageRegistry → ℤ → Handling)
    (choices : ℕ → Choice) (state : World × ℕ) : ∃ after : World × ℕ, after.1.row = state.1.row ∧
      ((∃ message, (readRegistry initialName next).run (answerObject choices) state =
          (.threw message, after)) ∨
        ∃ loaded, registry state.1.row initialName = .ok loaded ∧
          (readRegistry initialName next).run (answerObject choices) state =
            (next loaded (choices state.2).time).run (answerObject choices) after) := by
  refine ⟨({ state.1 with clock := (choices state.2).time }, state.2 + 1), rfl, ?_⟩
  unfold readRegistry await
  simp only [Program.run_call]
  cases hf : (choices state.2).fault with
  | some message =>
    have hanswer : answerObject choices state (.readSnapshot : ObjectCall) =
        ((.error message, (choices state.2).time), ({ state.1 with clock := (choices state.2).time },
          state.2 + 1)) := by
      simp [answerObject, World.answer, World.perform, hf]
    rw [hanswer]
    exact .inl ⟨message, rfl⟩
  | none =>
    have hanswer : answerObject choices state (.readSnapshot : ObjectCall) =
        ((.ok state.1.row, (choices state.2).time), ({ state.1 with clock := (choices state.2).time },
          state.2 + 1)) := by
      simp [answerObject, World.answer, World.perform, hf]
    rw [hanswer]
    cases hloaded : registry state.1.row initialName with
    | error message =>
      refine .inl ⟨message, ?_⟩
      simp only [orThrow, hloaded, Program.run_done]
    | ok loaded =>
      refine .inr ⟨loaded, rfl, ?_⟩
      simp only [orThrow, hloaded]

theorem leaves_readRegistry {initialName : Option PackageName} {next : PackageRegistry → ℤ → Handling}
    (hthrow : ∀ message, post (.threw message) row)
    (h : ∀ loaded now, registry row initialName = .ok loaded → Leaves post row (next loaded now)) :
    Leaves post row (readRegistry initialName next) := by
  constructor
  intro choices state hrow
  obtain ⟨after, hafter, ⟨message, heq⟩ | ⟨loaded, hloaded, heq⟩⟩ :=
    run_readRegistry initialName next choices state
  · rw [heq, hafter, hrow]
    exact hthrow message
  · rw [hrow] at hloaded hafter
    rw [heq]
    exact (h loaded _ hloaded).run choices after hafter

theorem leaves_saveRegistry {saved : PackageRegistry} {next : Except Str Unit → Handling}
    (hfails : ∀ message, Leaves post row (next (.error message)))
    (h : Leaves post (PackageObject.saveRegistry saved) (next (.ok ()))) :
    Leaves post row (saveRegistry saved next) := by
  constructor
  intro choices state hrow
  unfold saveRegistry await
  rw [Program.run_call]
  cases hf : (choices state.2).fault with
  | some message =>
    have hanswer : answerObject choices state (.writeSnapshot saved.snapshot : ObjectCall) =
        ((.error message, (choices state.2).time), ({ state.1 with clock := (choices state.2).time },
          state.2 + 1)) := by
      simp [answerObject, World.answer, World.perform, hf]
    rw [hanswer]
    exact (hfails message).run choices _ hrow
  | none =>
    have hanswer : answerObject choices state (.writeSnapshot saved.snapshot : ObjectCall) =
        ((.ok (), (choices state.2).time), ({ state.1 with
          row := some saved.snapshot, clock := (choices state.2).time }, state.2 + 1)) := by
      simp [answerObject, World.answer, World.perform, hf]
    rw [hanswer]
    exact h.run choices _ rfl

/-- A refusal, or a throw, keeps the row. -/
abbrev Keeps (row : Stored) (p : Handling) : Prop :=
  Leaves (fun reply after => reply.Refused → after = row) row p

theorem keeps_refresh (row : Stored) (body : Option RefreshBody) : Keeps row (refresh body) := by
  cases body with
  | none => exact leaves_done fun _ => rfl
  | some body =>
    unfold refresh
    dsimp only
    cases parseDiscovery body.defaultBranch body.branches with
    | none => exact leaves_done fun _ => rfl
    | some discovery =>
      apply leaves_readRegistry fun _ _ => rfl
      intro loaded now _
      cases loaded.refresh discovery with
      | mk result refreshed =>
        cases result with
        | error message => exact leaves_done fun _ => rfl
        | ok created =>
          apply leaves_saveRegistry fun _ => leaves_done fun _ => rfl
          apply leaves_done
          intro hrefused
          exact absurd hrefused (by simp [Reply.Refused, Response.isOk])

theorem keeps_recover (row : Stored) (body : Option RecoverBody) : Keeps row (recover body) := by
  cases body with
  | none => exact leaves_done fun _ => rfl
  | some body =>
    unfold recover
    dsimp only
    split_ifs
    · exact leaves_done fun _ => rfl
    · apply leaves_readRegistry fun _ _ => rfl
      intro loaded now _
      cases loaded.recoverVersion body.version (trim body.reason) body.recoveredAt with
      | mk result recovered =>
        cases result with
        | error message => exact leaves_done fun _ => rfl
        | ok job =>
          apply leaves_saveRegistry fun _ => leaves_done fun _ => rfl
          apply leaves_done
          intro hrefused
          exact absurd hrefused (by simp [Reply.Refused, Response.isOk])

theorem keeps_complete (row : Stored) (body : Option CompleteBody) : Keeps row (complete body) := by
  cases body with
  | none => exact leaves_done fun _ => rfl
  | some body =>
    apply leaves_readRegistry fun _ _ => rfl
    intro loaded now _
    cases completed loaded body with
    | error reply => exact leaves_done fun _ => rfl
    | ok completed =>
      apply leaves_saveRegistry fun _ => leaves_done fun _ => rfl
      apply leaves_done
      intro hrefused
      exact absurd hrefused (by simp [Reply.Refused, Response.isOk])

abbrev Releases (version : Str) (row : Stored) (p : Handling) : Prop :=
  Leaves (fun reply after => reply.status? = some 503 →
    after = (PackageObject.releaseLease row version).2) row p

theorem releases_done {version : Str} {row : Stored} {reply : Reply ObjectBody}
    (h : reply.status? ≠ some 503) : Releases version row (.done reply) :=
  leaves_done fun h503 => absurd h503 h

theorem releases_releaseLease (version : Str) (row : Stored) :
    Releases version row (releaseLease version) := by
  apply leaves_readRegistry
  · intro message h
    cases h
  · intro loaded now hloaded
    cases hreleased : loaded.releaseLease version with
    | mk result released =>
      cases result with
      | error message => exact releases_done (by simp [Reply.status?])
      | ok _ =>
        apply leaves_saveRegistry
        · intro message
          exact releases_done (by simp [Reply.status?])
        · apply leaves_done
          intro _
          simp only [PackageObject.releaseLease, hloaded, hreleased]

theorem releases_finish (version : Str) (row : Stored) (outcome : Outcome) :
    Releases version row (finish version outcome) := by
  apply leaves_readRegistry
  · intro message h
    cases h
  · intro loaded now hloaded
    cases settled loaded version outcome with
    | mk result completed =>
      cases result with
      | error message => exact releases_done (by simp [Reply.status?])
      | ok _ =>
        apply leaves_saveRegistry
        · intro message
          exact releases_done (by simp [Reply.status?])
        · apply leaves_done
          intro h
          simp [Reply.status?] at h

theorem releases_received (version : Str) (row : Stored) (response : Fetched) :
    Releases version row (received version response) := by
  unfold received
  split_ifs
  · split
    · exact releases_done (by simp [Reply.status?])
    · exact releases_releaseLease version row
  · split
    · exact releases_releaseLease version row
    · apply publishing_of (fun op => leaves_await (by nofun))
      intro result
      cases result with
      | error message => exact releases_done (by simp [Reply.status?])
      | ok publication =>
        change Releases version row (if !publication.ok then _ else _)
        split_ifs
        · exact releases_releaseLease version row
        · exact releases_finish version row _

theorem releases_materializeJob (env : ObjectEnv) (name : PackageName) (job : MaterializationJob)
    (body : MaterializeBody) (row : Stored) :
    Releases job.version row (materializeJob env name job body) := by
  have hreleased := releases_releaseLease job.version row
  apply githubArchive_of (fun request => leaves_await (by nofun))
  intro archive
  split
  · exact hreleased
  · exact hreleased
  · split
    · exact hreleased
    · apply leaves_await (by nofun)
      intro response now
      cases response with
      | error message => exact hreleased
      | ok response => exact releases_received job.version row response

theorem registry_ok {snapshot : PackageRegistrySnapshot} {loaded : PackageRegistry}
    (h : registry (some snapshot) none = .ok loaded) : PackageRegistry.fromSnapshot snapshot = .ok loaded := by
  unfold registry at h
  cases hload : PackageRegistry.fromSnapshot snapshot with
  | error message => simp only [hload, reduceCtorEq] at h
  | ok other =>
    simp only [hload] at h
    exact h

def leasing (env : ObjectEnv) (body : MaterializeBody) (registry : PackageRegistry) (now : ℤ) : Handling :=
  match registry.leaseNext now with
  | (none, _) => .done (.json 200 (.report (PackageObject.report registry)))
  | (some job, leased) =>
    saveRegistry leased fun saved => orThrow saved fun () => materializeJob env registry.name job body

theorem materialize_some (env : ObjectEnv) (body : MaterializeBody) : materialize env (some body) =
    if body.owner.isEmpty || body.repository.isEmpty || body.pat.isEmpty || body.statusUrl.isEmpty then
      respond 400 "invalid materialization request"
    else if !env.materializes then respond 503 "materializer is not configured"
    else readRegistry none (leasing env body) := rfl

theorem leasing_none {env : ObjectEnv} {body : MaterializeBody} {registry after : PackageRegistry} {now : ℤ}
    (h : registry.leaseNext now = (none, after)) :
    leasing env body registry now = .done (.json 200 (.report (PackageObject.report registry))) := by
  rw [leasing, h]

theorem leasing_some {env : ObjectEnv} {body : MaterializeBody} {registry leased : PackageRegistry} {now : ℤ}
    {job : MaterializationJob} (h : registry.leaseNext now = (some job, leased)) :
    leasing env body registry now = saveRegistry leased fun saved =>
      orThrow saved fun () => materializeJob env registry.name job body := by
  rw [leasing, h]

/-- A materialization that is unavailable leased nothing, or gave its lease back. -/
theorem materialize_released (env : ObjectEnv) (body : Option MaterializeBody) (choices : ℕ → Choice)
    (state : World × ℕ) {saved : PackageRegistry} (hrow : state.1.row = PackageObject.saveRegistry saved)
    (h : ((materialize env body).run (answerObject choices) state).1.status? = some 503) :
    (env.materializes = false ∧
      ((materialize env body).run (answerObject choices) state).2.1.row = state.1.row) ∨
    ∃ loaded job leased, PackageRegistry.fromSnapshot saved.snapshot = .ok loaded ∧
      loaded.leaseNext (choices state.2).time = (some job, leased) ∧
      ((materialize env body).run (answerObject choices) state).2.1.row =
        some (PackageRegistry.withPending saved.snapshot job.version) := by
  cases body with
  | none => simp [materialize, respond, Reply.status?] at h
  | some body =>
    rw [materialize_some] at h ⊢
    split_ifs at h ⊢ with hbody henv
    · simp [respond, Reply.status?] at h
    · exact .inl ⟨by simpa using henv, rfl⟩
    · right
      obtain ⟨after, hafter, ⟨message, heq⟩ | ⟨loaded, hloaded, heq⟩⟩ :=
        run_readRegistry none (leasing env body) choices state
      · rw [heq] at h
        cases h
      · rw [hrow] at hloaded
        have hload := registry_ok hloaded
        rw [heq] at h ⊢
        cases hlease : loaded.leaseNext (choices state.2).time with
        | mk job leased =>
          cases job with
          | none =>
            rw [leasing_none hlease] at h
            simp [Reply.status?] at h
          | some job =>
            refine ⟨loaded, job, leased, hload, hlease, ?_⟩
            rw [leasing_some hlease] at h ⊢
            have hleaves : Leaves (fun reply row => reply.status? = some 503 → row =
                (PackageObject.releaseLease (PackageObject.saveRegistry leased) job.version).2) state.1.row
                (saveRegistry leased fun saved =>
                  orThrow saved fun () => materializeJob env loaded.name job body) := by
              apply leaves_saveRegistry
              · intro message
                apply leaves_done
                intro h503
                cases h503
              · exact releases_materializeJob env loaded.name job body _
            rw [hleaves.run choices after hafter h]
            exact PackageRegistry.releaseLease_leased hload hlease

/-- A failed request leaves the stored package as it was, with a version that was leased
    in between pending. -/
theorem failed_keeps (env : ObjectEnv) (choices : ℕ → Choice) (world : World) :
    (∀ body, ((handle env (.refresh body)).run (answerObject choices) (world, 0)).1.Refused →
      ((handle env (.refresh body)).run (answerObject choices) (world, 0)).2.1.row = world.row) ∧
    (∀ body, ((handle env (.recover body)).run (answerObject choices) (world, 0)).1.Refused →
      ((handle env (.recover body)).run (answerObject choices) (world, 0)).2.1.row = world.row) ∧
    (∀ body, ((handle env (.complete body)).run (answerObject choices) (world, 0)).1.Refused →
      ((handle env (.complete body)).run (answerObject choices) (world, 0)).2.1.row = world.row) ∧
    ∀ body saved, world.row = PackageObject.saveRegistry saved →
      ((handle env (.materialize body)).run (answerObject choices) (world, 0)).1.status? = some 503 →
      (env.materializes = false ∧
        ((handle env (.materialize body)).run (answerObject choices) (world, 0)).2.1.row = world.row) ∨
      ∃ loaded job leased, PackageRegistry.fromSnapshot saved.snapshot = .ok loaded ∧
        loaded.leaseNext (choices 0).time = (some job, leased) ∧
        ((handle env (.materialize body)).run (answerObject choices) (world, 0)).2.1.row =
          some (PackageRegistry.withPending saved.snapshot job.version) := by
  refine ⟨?_, ?_, ?_, ?_⟩
  · intro body
    exact (keeps_refresh world.row body).run choices (world, 0) rfl
  · intro body
    exact (keeps_recover world.row body).run choices (world, 0) rfl
  · intro body
    exact (keeps_complete world.row body).run choices (world, 0) rfl
  · intro body saved hrow h
    exact materialize_released env body choices (world, 0) hrow h

def waiting : PackageRegistry :=
  ((PackageRegistry.new ⟨"acme".toList, "widget".toList⟩).refresh
    ⟨"main".toList, OrderedMap.empty.set "main".toList ⟨"a".toList, 7⟩⟩).2

def waitingWorld : World := { emptyWorld with row := PackageObject.saveRegistry waiting }

def waitingEnv : ObjectEnv := { plainEnv with materializes := true }

def waitingBody : MaterializeBody :=
  ⟨"acme".toList, "widget".toList, "pat".toList, "https://jsr.example/status".toList⟩

/-- GitHub cannot be reached: the version is leased and pending again. -/
theorem failed_keeps_waiting :
    ∃ loaded job leased, PackageRegistry.fromSnapshot waiting.snapshot = .ok loaded ∧
      loaded.leaseNext 0 = (some job, leased) ∧
      ((handle waitingEnv (.materialize (some waitingBody))).run
        (answerObject fun _ => plainChoice) (waitingWorld, 0)).2.1.row =
          some (PackageRegistry.withPending waiting.snapshot job.version) :=
  ((failed_keeps waitingEnv (fun _ => plainChoice) waitingWorld).2.2.2
    (some waitingBody) waiting rfl (by decide +kernel)).resolve_left (by simp [waitingEnv])

end ObjectHandlers
end JsrProxy
