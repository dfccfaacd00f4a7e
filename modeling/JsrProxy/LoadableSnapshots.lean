import JsrProxy.ExactRefreshes
import JsrProxy.PersistedRegistries

set_option autoImplicit false

/-!
# Stored snapshots that load again

What a request stores loads again exactly while every sequence is a safe integer.
The inputs of a sequence are checked before the increment and its result only by the
loader, so a major that holds the last safe integer must not be added to.
-/
namespace JsrProxy
open Branches VersionAllocator Executions

namespace VersionAllocator

theorem inRange_iff_marks {allocator : VersionAllocator} (h : allocator.Coherent) :
    allocator.InRange ↔ ∀ m, (allocator.forMajor m).highWater < 2 ^ 53 := by
  constructor
  · intro hr m
    exact hr.highWater h m
  · intro hmarks x hx
    have hbelow := hx.below h
    have hmark := hmarks x.major
    rw [Doubles.maxSafeInteger]
    omega

theorem nextSequence_lt_iff {a : MajorAllocations} {major committedAt : ℤ} (h : a.Coherent major)
    (h0 : 0 ≤ committedAt) (h53 : committedAt < 2 ^ 53) :
    nextSequence a committedAt < 2 ^ 53 ↔ a.highWater < 2 ^ 53 - 1 := by
  have hge := h.highWater_ge
  by_cases hmark : a.highWater < 2 ^ 53
  · rw [nextSequence, Doubles.add_one_of_lt a.highWater hge hmark]
    omega
  · have hstuck : a.highWater = 2 ^ 53 := by
      have := h.bounded
      omega
    rw [MajorAllocations.Coherent.nextSequence_saturated h53 hstuck]
    omega

end VersionAllocator

namespace PackageRegistry

theorem selected_tip_unique {branches : List SelectedBranch}
    (hdistinct : (branches.map SelectedBranch.major).Nodup) {b : SelectedBranch}
    (hb : b ∈ branches) {major : ℤ} (hmajor : b.major = major) :
    ∀ other ∈ branches, other.major = major → other.tip = b.tip := by
  intro other hother hsame
  rw [List.inj_on_of_nodup_map hdistinct hother hb (hsame.trans hmajor.symm)]

/-- A pass stays in range unless it adds to a major that holds the last safe integer. -/
theorem refreshBranches_inRange_iff {registry : PackageRegistry} (h : registry.Coherent)
    (hr : registry.allocator.InRange) (created : List MaterializationJob)
    {branches : List SelectedBranch} (hdistinct : (branches.map SelectedBranch.major).Nodup)
    (hv : ∀ b ∈ branches, validateInputs b.major b.tip.sha b.tip.committedAt = .ok ()) :
    (registry.refreshBranches created branches).2.allocator.InRange ↔
      ∀ b ∈ branches, registry.current b.major b.tip.sha = none →
        (registry.allocator.forMajor b.major).highWater < 2 ^ 53 - 1 := by
  rw [inRange_iff_marks (refreshBranches_coherent h created branches).allocator]
  have hmarks := hr.highWater h.allocator
  have hissued : ∀ b ∈ branches, registry.current b.major b.tip.sha = none →
      (assignTip (registry.allocator.forMajor b.major) b.major b.tip).highWater
        = nextSequence (registry.allocator.forMajor b.major) b.tip.committedAt := by
    intro b _ hnone
    rw [assignTip_none hnone]
    rfl
  constructor
  · intro hafter b hb hnone
    have hmark := hafter b.major
    rw [refreshBranches_forMajor h created (selected_tip_unique hdistinct hb rfl) hv,
      if_pos ⟨b, hb, rfl⟩, hissued b hb hnone] at hmark
    obtain ⟨-, -, h0, h53⟩ := validateInputs_ok.1 (hv b hb)
    exact (nextSequence_lt_iff (h.allocator b.major) h0 h53).1 hmark
  · intro hroom m
    by_cases hselected : ∃ b ∈ branches, b.major = m
    · obtain ⟨b, hb, rfl⟩ := hselected
      rw [refreshBranches_forMajor h created (selected_tip_unique hdistinct hb rfl) hv,
        if_pos ⟨b, hb, rfl⟩]
      cases hc : registry.current b.major b.tip.sha with
      | some n =>
        rw [assignTip_some hc]
        exact hmarks b.major
      | none =>
        rw [hissued b hb hc]
        obtain ⟨-, -, h0, h53⟩ := validateInputs_ok.1 (hv b hb)
        exact (nextSequence_lt_iff (h.allocator b.major) h0 h53).2 (hroom b hb hc)
    · have htip : ∀ b ∈ branches, b.major = m → b.tip = ⟨[], 0⟩ :=
        fun b hb hm => absurd ⟨b, hb, hm⟩ hselected
      rw [refreshBranches_forMajor h created htip hv, if_neg hselected]
      exact hmarks m

theorem recoverVersion_inRange_iff {registry : PackageRegistry} (h : registry.Coherent)
    (hr : registry.allocator.InRange) {version : Str} {record : VersionRecord}
    (hv : registry.versions.get? version = some record) (hs : record.state.published = true)
    (reason : Str) (recoveredAt : ℤ) :
    (registry.recoverVersion version reason recoveredAt).2.allocator.InRange ↔
      (registry.allocator.forMajor record.major).highWater < 2 ^ 53 - 1 := by
  rw [inRange_iff_marks (recoverVersion_coherent h version reason recoveredAt).allocator]
  obtain ⟨job, hjob⟩ := recoverVersion_ok h hr hv hs reason recoveredAt
  rcases recoverVersion_cases registry version reason recoveredAt with
    ⟨message, allocator, -, he⟩ | ⟨record', n, hv', -, hok, -, he⟩
  · rw [he] at hjob
    cases hjob
  · rw [hv] at hv'
    obtain rfl := Option.some.inj hv'
    obtain ⟨-, -, h0, h53⟩ := validateInputs_ok.1 hok
    have hissued : (registry.reissue record n).2.highWater
        = nextSequence (registry.allocator.forMajor record.major) record.assignment.sequence := rfl
    rw [he, ← nextSequence_lt_iff (h.allocator record.major) h0 h53, ← hissued]
    dsimp only
    constructor
    · intro hafter
      have hmark := hafter record.major
      rw [forMajor_setMajor, if_pos rfl] at hmark
      exact hmark
    · intro hroom m
      rw [forMajor_setMajor]
      split_ifs
      · exact hroom
      · exact hr.highWater h.allocator m

end PackageRegistry

namespace PackageObject
open PackageRegistry

theorem Loaded.mark_lt_iff {stored : Stored} {loaded : PackageRegistry} (h : Loaded stored loaded)
    (major : ℤ) :
    (loaded.allocator.forMajor major).highWater < 2 ^ 53 - 1 ↔
      ∀ x ∈ assignments stored, x.major = major → x.sequence < 2 ^ 53 - 1 := by
  have hcoherent := h.inStep.exactly.coherent
  constructor
  · rintro hmark x hx rfl
    have hbelow := ((h.held x).2 hx).below hcoherent
    omega
  · intro hall
    rcases (hcoherent major).reached with hnone | ⟨k, x, hx, hsequence⟩
    · omega
    · have hlt := hall x ((h.held x).1 (held_of_get? hx)) ((hcoherent major).ofMajor k x hx).1
      omega

theorem Loaded.current_none_iff {stored : Stored} {loaded : PackageRegistry}
    (h : Loaded stored loaded) (major : ℤ) (commitSha : Str) :
    loaded.current major commitSha = none ↔
      ∀ x ∈ assignments stored, ¬ (x.major = major ∧ x.commitSha = commitSha) := by
  have hcurrent := current_iff h major commitSha
  rw [Option.eq_none_iff_forall_ne_some]
  constructor
  · intro hnone x hx hsame
    obtain ⟨n, hn⟩ := hcurrent.2 ⟨x, hx, hsame⟩
    exact hnone n hn
  · intro hall n hn
    obtain ⟨x, hx, hsame⟩ := hcurrent.1 ⟨n, hn⟩
    exact hall x hx hsame

/-- A stored snapshot that the loader reads, with safe sequences and versions that
    differ within each major. -/
def Loadable (stored : Stored) : Prop :=
  ∀ snapshot, stored = some snapshot →
    (∃ loaded, PackageRegistry.fromSnapshot snapshot = .ok loaded) ∧
    (∀ x ∈ snapshot.allocator.assignments, Doubles.isSafeInteger x.sequence = true) ∧
    ∀ major, ((snapshot.allocator.assignments.filter fun x => x.major = major).map
      VersionAssignment.version).Nodup

theorem loadable_none : Loadable none := fun snapshot h => by cases h

theorem loadable_saveRegistry_iff {registry : PackageRegistry} (h : registry.Sound) :
    Loadable (saveRegistry registry) ↔ registry.allocator.InRange := by
  constructor
  · intro hload x hx
    obtain ⟨-, hsafe, -⟩ := hload _ rfl
    exact ((Doubles.isSafeInteger_iff _).1 (hsafe x hx)).2
  · rintro hr snapshot ⟨⟩
    have hinStep := h.inStep hr
    obtain ⟨restored, hrestored, -⟩ := hinStep.loads hr
    refine ⟨⟨restored, hrestored⟩, ?_, ?_⟩
    · intro x hx
      have hbelow := (h.coherent.allocator x.major).below _ x ((held_iff h.coherent.allocator x).1 hx)
      rw [Doubles.isSafeInteger_iff]
      refine ⟨?_, hr x hx⟩
      rw [Doubles.maxSafeInteger]
      omega
    · intro major
      have hnodup : registry.allocator.snapshot.assignments.Nodup :=
        (snapshot_places h.coherent.allocator).of_map
      apply List.Nodup.map_on ?_ (hnodup.filter _)
      intro x hx y hy hversion
      exact hinStep.version_inj (List.mem_of_mem_filter hx) (List.mem_of_mem_filter hy) hversion

/-- The requests that change what a package object stores. -/
inductive PackageRequest
  | refresh (package : PackageName) (defaultBranch : Str) (branches : List (Str × CommitTip))
  | recover (version reason : Str) (recoveredAt : ℤ)
  | lease (now : ℤ)
  | complete (version : Str) (outcome : Outcome)
  | releaseLease (version : Str)

def handle (stored : Stored) : PackageRequest → Stored
  | .refresh package defaultBranch branches =>
    (PackageObject.refresh stored package defaultBranch branches).2
  | .recover version reason recoveredAt => (PackageObject.recover stored version reason recoveredAt).2
  | .lease now => (PackageObject.lease stored now).2
  | .complete version outcome => (PackageObject.complete stored version outcome).2
  | .releaseLease version => (PackageObject.releaseLease stored version).2

def Roomy (stored : Stored) (major : ℤ) : Prop :=
  ∀ x ∈ assignments stored, x.major = major → x.sequence < 2 ^ 53 - 1

/-- A request that is accepted adds only to majors that have room. -/
def AddsWithRoom (stored : Stored) : PackageRequest → Prop
  | .refresh package defaultBranch branches => ∀ discovery loaded selection,
      parseDiscovery defaultBranch branches = some discovery →
      registry stored (some package) = .ok loaded →
      selectBranches discovery loaded.branches = .ok selection →
      (∀ b ∈ selection.branches, validateInputs b.major b.tip.sha b.tip.committedAt = .ok ()) →
      ∀ b ∈ selection.branches,
        (∀ x ∈ assignments stored, ¬ (x.major = b.major ∧ x.commitSha = b.tip.sha)) →
        Roomy stored b.major
  | .recover version reason recoveredAt =>
      (trim reason).length ≠ 0 → utf16Length reason ≤ 1000 →
      Doubles.isSafeInteger recoveredAt = true → 0 ≤ recoveredAt →
      (∃ loaded, registry stored none = .ok loaded) →
      ∀ record ∈ records stored, record.version = version → record.state.published = true →
        Roomy stored record.major
  | _ => True

/-- A stored state that some sound registry left, its mark among the release majors. -/
structure Reached (stored : Stored) : Prop where
  sound : Sound stored
  remembered : ∀ snapshot, stored = some snapshot → snapshot.branches.InRange

theorem reached_none : Reached none where
  sound := sound_none
  remembered snapshot h := by cases h

theorem registry_branches {stored : Stored} (h : Reached stored) {initialName : Option PackageName}
    {loaded : PackageRegistry} (hr : registry stored initialName = .ok loaded) :
    loaded.branches.InRange := by
  unfold registry at hr
  cases stored with
  | none =>
    cases initialName with
    | none => cases hr
    | some name =>
      rw [← Except.ok.inj hr]
      intro m hm
      cases hm
  | some snapshot =>
    have hbranches : ∀ restored, PackageRegistry.fromSnapshot snapshot = .ok restored →
        restored.branches = snapshot.branches := by
      intro restored hf
      unfold PackageRegistry.fromSnapshot at hf
      cases ha : VersionAllocator.fromSnapshot snapshot.allocator with
      | error message =>
        rw [ha] at hf
        cases hf
      | ok allocator =>
        simp only [ha] at hf
        cases hv : restoreVersions .empty snapshot.versions with
        | error message =>
          rw [hv] at hf
          cases hf
        | ok versions =>
          rw [hv] at hf
          rw [← Except.ok.inj hf]
    cases hf : PackageRegistry.fromSnapshot snapshot with
    | error message =>
      simp only [hf] at hr
      cases hr
    | ok restored =>
      have hloaded : loaded = restored := by
        simp only [hf] at hr
        cases initialName with
        | none => exact (Except.ok.inj hr).symm
        | some name =>
          dsimp only at hr
          split_ifs at hr
          exact (Except.ok.inj hr).symm
      rw [hloaded, hbranches restored hf]
      exact h.remembered snapshot rfl

theorem Transition.reached {stored after : Stored} {op : PackageRegistry.Op}
    (ht : Transition stored after op) (h : Reached stored) : Reached after := by
  refine ⟨ht.sound h.sound, ?_⟩
  rcases ht with rfl | ⟨initialName, loaded, hr, rfl⟩
  · exact h.remembered
  · rintro snapshot ⟨⟩
    exact apply_inRange (registry_loaded h.sound hr).inStep.coherent (registry_branches h hr) op

theorem handle_transition (stored : Stored) (request : PackageRequest) :
    ∃ op, Transition stored (handle stored request) op := by
  cases request with
  | refresh package defaultBranch branches =>
    obtain ⟨discovery, ht⟩ := refresh_transition stored package defaultBranch branches
    exact ⟨_, ht⟩
  | recover version reason recoveredAt => exact ⟨_, recover_transition stored version reason recoveredAt⟩
  | lease now => exact ⟨_, lease_transition stored now⟩
  | complete version outcome => exact ⟨_, complete_transition stored version outcome⟩
  | releaseLease version => exact ⟨_, releaseLease_transition stored version⟩

theorem handle_reached {stored : Stored} (h : Reached stored) (request : PackageRequest) :
    Reached (handle stored request) := by
  obtain ⟨op, ht⟩ := handle_transition stored request
  exact ht.reached h

theorem run_reached (requests : List PackageRequest) : Reached (run handle none requests) :=
  run_invariant Reached (fun _ _ => True) (fun _ request h _ => handle_reached h request) _ requests
    reached_none (admitted_true _ _ _)

theorem refresh_loadable_iff {stored : Stored} (h : Reached stored) (hl : Loadable stored)
    (package : PackageName) (defaultBranch : Str) (branches : List (Str × CommitTip)) :
    Loadable (handle stored (.refresh package defaultBranch branches)) ↔
      AddsWithRoom stored (.refresh package defaultBranch branches) := by
  rcases refresh_cases stored package defaultBranch branches h.sound with
    ⟨discovery, loaded, selection, hp, hr, hs, hv, created, he⟩ | ⟨hinvalid, he, -⟩
  · have hloaded := registry_loaded h.sound hr
    have hcoherent := hloaded.inStep.coherent
    have hnext : (({ loaded with branches := selection.state }).refreshBranches []
        selection.branches).2 = loaded.apply (.refresh discovery) := by
      change _ = (loaded.refresh discovery).2
      rw [refresh_of_selected hs]
    have hsound : (({ loaded with branches := selection.state }).refreshBranches []
        selection.branches).2.Sound := by
      rw [hnext]
      exact hloaded.sound.apply _
    have hdistinct := selectBranches_distinct (registry_branches h hr) hs
    have hpass := hcoherent.branches selection.state
    change Loadable (PackageObject.refresh stored package defaultBranch branches).2 ↔ _
    rw [he, loadable_saveRegistry_iff hsound,
      refreshBranches_inRange_iff hpass hloaded.inRange [] hdistinct hv]
    constructor
    · intro hroom discovery' loaded' selection' hp' hr' hs' _ b hb hnew
      rw [hp] at hp'
      obtain rfl := Option.some.inj hp'
      rw [hr] at hr'
      obtain rfl := Except.ok.inj hr'
      rw [hs] at hs'
      obtain rfl := Except.ok.inj hs'
      exact (hloaded.mark_lt_iff b.major).1 (hroom b hb ((hloaded.current_none_iff _ _).2 hnew))
    · intro hroom b hb hnone
      exact (hloaded.mark_lt_iff b.major).2
        (hroom discovery loaded selection hp hr hs hv b hb ((hloaded.current_none_iff _ _).1 hnone))
  · change Loadable (PackageObject.refresh stored package defaultBranch branches).2 ↔ _
    rw [he]
    refine ⟨fun _ => ?_, fun _ => hl⟩
    intro discovery loaded selection hp hr hs hv
    obtain ⟨b, hb, hbad⟩ := hinvalid discovery loaded selection hp hr hs
    exact absurd (hv b hb) hbad

theorem recoverVersion_unpublished {stored : Stored} {loaded : PackageRegistry} (h : Loaded stored loaded)
    {version : Str} (hnone : ¬ ∃ record ∈ records stored, record.version = version ∧
      record.state.published = true) (reason : Str) (recoveredAt : ℤ) (job : MaterializationJob) :
    (loaded.recoverVersion version reason recoveredAt).1 ≠ .ok job := by
  intro hjob
  rcases recoverVersion_cases loaded version reason recoveredAt with
    ⟨message, allocator, -, he⟩ | ⟨record, n, hv, hs, -⟩
  · rw [he] at hjob
    cases hjob
  · have hnamed := (h.inStep.coherent.record version record hv).version
    rw [← hnamed] at hv
    exact hnone ⟨record, (h.mem_records record).2 hv, hnamed, hs⟩

theorem recover_loadable_iff {stored : Stored} (h : Reached stored) (hl : Loadable stored)
    (version reason : Str) (recoveredAt : ℤ) :
    Loadable (handle stored (.recover version reason recoveredAt)) ↔
      AddsWithRoom stored (.recover version reason recoveredAt) := by
  change Loadable (PackageObject.recover stored version reason recoveredAt).2 ↔ _
  unfold PackageObject.recover AddsWithRoom
  split
  · rename_i hrefused
    refine ⟨fun _ hreason hlength hsafe hsign => ?_, fun _ => hl⟩
    exfalso
    simp only [Bool.or_eq_true, decide_eq_true_eq, Bool.not_eq_true'] at hrefused
    rcases hrefused with ((hrefused | hrefused) | hrefused) | hrefused
    · exact hreason hrefused
    · omega
    · rw [hsafe] at hrefused
      cases hrefused
    · omega
  · rename_i haccepted
    simp only [Bool.or_eq_true, decide_eq_true_eq, Bool.not_eq_true', not_or, not_lt,
      Bool.not_eq_false] at haccepted
    obtain ⟨⟨⟨hreason, hlength⟩, hsafe⟩, hsign⟩ := haccepted
    cases hr : registry stored none with
    | error message =>
      refine ⟨?_, fun _ => hl⟩
      rintro - - - - - ⟨loaded, hloaded⟩
      cases hloaded
    | ok loaded =>
      dsimp only
      have hloaded := registry_loaded h.sound hr
      have hcoherent := hloaded.inStep.coherent
      by_cases hpublished : ∃ record ∈ records stored, record.version = version ∧
          record.state.published = true
      · obtain ⟨record, hm, rfl, hs⟩ := hpublished
        have hv := (hloaded.mem_records record).1 hm
        have hsound := hloaded.sound.apply (.recoverVersion record.version (trim reason) recoveredAt)
        have hrange := recoverVersion_inRange_iff hcoherent hloaded.inRange hv hs (trim reason)
          recoveredAt
        obtain ⟨job, hjob⟩ := recoverVersion_ok hcoherent hloaded.inRange hv hs (trim reason) recoveredAt
        have hstored : Loadable (saveRegistry (loaded.recoverVersion record.version (trim reason)
            recoveredAt).2) ↔ Roomy stored record.major :=
          (loadable_saveRegistry_iff hsound).trans (hrange.trans (hloaded.mark_lt_iff record.major))
        cases hb : loaded.recoverVersion record.version (trim reason) recoveredAt with
        | mk result next =>
          rw [hb] at hjob hstored
          obtain rfl : result = .ok job := hjob
          apply hstored.trans
          constructor
          · intro hroom _ _ _ _ _ other hother hsame _
            rw [records_unique h.sound hother hm hsame]
            exact hroom
          · intro hall
            exact hall hreason hlength hsafe hsign ⟨loaded, rfl⟩ record hm rfl hs
      · have hnone := recoverVersion_unpublished hloaded hpublished (trim reason) recoveredAt
        cases hb : loaded.recoverVersion version (trim reason) recoveredAt with
        | mk result next =>
          rw [hb] at hnone
          cases result with
          | ok job => exact absurd rfl (hnone job)
          | error message =>
            refine ⟨fun _ _ _ _ _ _ record hm hsame hs => ?_, fun _ => hl⟩
            exact absurd ⟨record, hm, hsame, hs⟩ hpublished

theorem touched_loadable {stored after : Stored} {op : PackageRegistry.Op} (h : Sound stored)
    (ht : Transition stored after op)
    (htouches : ∀ registry : PackageRegistry, TouchesOne registry (registry.apply op))
    (hl : Loadable stored) : Loadable after := by
  rcases ht with rfl | ⟨initialName, loaded, hr, rfl⟩
  · exact hl
  · have hloaded := registry_loaded h hr
    rw [loadable_saveRegistry_iff (hloaded.sound.apply op), touchesOne_allocator (htouches loaded)]
    exact hloaded.inRange

theorem handle_loadable_iff {stored : Stored} (h : Reached stored) (hl : Loadable stored)
    (request : PackageRequest) :
    Loadable (handle stored request) ↔ AddsWithRoom stored request := by
  cases request with
  | refresh package defaultBranch branches =>
    exact refresh_loadable_iff h hl package defaultBranch branches
  | recover version reason recoveredAt => exact recover_loadable_iff h hl version reason recoveredAt
  | lease now =>
    exact iff_of_true (touched_loadable h.sound (lease_transition stored now)
      (fun registry => leaseNext_touches registry now) hl) trivial
  | complete version outcome =>
    have htouches : ∀ registry : PackageRegistry,
        TouchesOne registry (registry.apply (Outcome.op version outcome)) := by
      intro registry
      cases outcome with
      | ready => exact markReady_touches registry version
      | yanked diagnostic => exact markYanked_touches registry version diagnostic
    exact iff_of_true (touched_loadable h.sound (complete_transition stored version outcome)
      htouches hl) trivial
  | releaseLease version =>
    exact iff_of_true (touched_loadable h.sound (releaseLease_transition stored version)
      (fun registry => releaseLease_touches registry version) hl) trivial

/-- Every snapshot that a run of requests stores loads again exactly when no request
    adds to a major that holds the last safe integer. -/
theorem loadable_iff (requests : List PackageRequest) :
    (∀ before after, requests = before ++ after → Loadable (run handle none before)) ↔
      Admitted handle AddsWithRoom none requests := by
  constructor
  · intro hall
    apply admitted_of_prefixes
    intro before request after heq
    have hbefore := hall before (request :: after) heq
    have hnext := hall (before ++ [request]) after (by rw [heq, List.append_assoc]; rfl)
    rw [run_append] at hnext
    exact (handle_loadable_iff (run_reached before) hbefore request).1 hnext
  · rintro hadmitted before after rfl
    have hprefix := ((admitted_append handle AddsWithRoom none before after).1 hadmitted).1
    exact (run_invariant (fun stored => Reached stored ∧ Loadable stored) AddsWithRoom
      (fun stored request h hroom => ⟨handle_reached h.1 request,
        (handle_loadable_iff h.1 h.2 request).2 hroom⟩) none before
      ⟨reached_none, loadable_none⟩ hprefix).2

def lostPackage : List PackageRequest :=
  [.refresh ⟨"acme".toList, "widget".toList⟩ "main".toList
      [("main".toList, ⟨"a".toList, 2 ^ 53 - 1⟩)],
    .refresh ⟨"acme".toList, "widget".toList⟩ "main".toList [("main".toList, ⟨"b".toList, 7⟩)]]

theorem lostPackage_unloadable :
    ∃ snapshot, run handle none lostPackage = some snapshot ∧
      PackageRegistry.fromSnapshot snapshot
        = .error "commit timestamp must be a non-negative whole Unix second".toList ∧
      ¬ ∀ before after, lostPackage = before ++ after → Loadable (run handle none before) := by
  refine ⟨_, rfl, by decide +kernel, ?_⟩
  intro hall
  obtain ⟨-, hsafe, -⟩ := hall lostPackage [] (List.append_nil _).symm _ rfl
  revert hsafe
  decide +kernel

end PackageObject
end JsrProxy
