import JsrProxy.StoredRegistryRuns

set_option autoImplicit false

/-!
# What a refresh assigns

A refresh that meets only valid branches succeeds, and a major that one tip is
selected for gains an assignment of that tip and nothing else.
-/
namespace JsrProxy
open Branches VersionAllocator

theorem observeReleases_mem {entries : List (Str × CommitTip)} {releases : List SelectedBranch}
    {observed : Option ℤ} {b : SelectedBranch}
    (h : b ∈ (observeReleases entries releases observed).1) :
    b ∈ releases ∨ (b.branch, b.tip) ∈ entries := by
  induction entries generalizing releases observed with
  | nil => exact .inl h
  | cons entry rest ih =>
    obtain ⟨branch, tip⟩ := entry
    unfold observeReleases at h
    cases hm : releaseMajor branch with
    | none =>
      simp only [hm] at h
      rcases ih h with hold | hrest
      · exact .inl hold
      · exact .inr (List.mem_cons_of_mem _ hrest)
    | some major =>
      simp only [hm] at h
      rcases ih h with hold | hrest
      · rcases List.mem_append.1 hold with hold | hnew
        · exact .inl hold
        · obtain rfl := List.mem_singleton.1 hnew
          exact .inr List.mem_cons_self
      · exact .inr (List.mem_cons_of_mem _ hrest)

theorem selectBranches_tip {discovery : BranchDiscovery} {prior : BranchState}
    {selection : BranchSelection} (h : selectBranches discovery prior = .ok selection)
    {b : SelectedBranch} (hb : b ∈ selection.branches) :
    discovery.branches.get? b.branch = some b.tip := by
  have hreleases : ∀ r ∈ (observeReleases discovery.branches.entries []
      prior.highestObservedReleaseMajor).1, discovery.branches.get? r.branch = some r.tip := by
    intro r hr
    rcases observeReleases_mem hr with hnone | hentry
    · cases hnone
    · exact (OrderedMap.get?_eq_some _ _ _).2 hentry
  unfold selectBranches at h
  cases hd : discovery.branches.get? discovery.defaultBranch with
  | none =>
    rw [hd] at h
    cases h
  | some defaultTip =>
    rw [hd] at h
    obtain rfl := Except.ok.inj h
    dsimp only at hb
    split at hb
    · exact hreleases b hb
    · rcases List.mem_append.1 hb with hb | hb
      · exact hreleases b hb
      · obtain rfl := List.mem_singleton.1 hb
        exact hd

namespace PackageRegistry

/-- The allocations of a major once a tip is assigned in it. -/
def assignTip (allocations : MajorAllocations) (major : ℤ) (tip : CommitTip) : MajorAllocations :=
  match allocations.currentAttempts.get? tip.sha with
  | some _ => allocations
  | none => (append allocations major tip.sha tip.committedAt 0).2

theorem assignTip_some {allocations : MajorAllocations} {major n : ℤ} {tip : CommitTip}
    (h : allocations.currentAttempts.get? tip.sha = some n) :
    assignTip allocations major tip = allocations := by
  simp only [assignTip, h]

theorem assignTip_none {allocations : MajorAllocations} {major : ℤ} {tip : CommitTip}
    (h : allocations.currentAttempts.get? tip.sha = none) :
    assignTip allocations major tip = (append allocations major tip.sha tip.committedAt 0).2 := by
  simp only [assignTip, h]

theorem assignTip_assignTip (allocations : MajorAllocations) (major : ℤ) (tip : CommitTip) :
    assignTip (assignTip allocations major tip) major tip = assignTip allocations major tip := by
  cases h : allocations.currentAttempts.get? tip.sha with
  | some n => rw [assignTip_some h, assignTip_some h]
  | none =>
    rw [assignTip_none h]
    exact assignTip_some (OrderedMap.get?_set_self _ _ _)

theorem refreshBranch_created {registry : PackageRegistry} (h : registry.Coherent)
    {branch : SelectedBranch}
    (hv : validateInputs branch.major branch.tip.sha branch.tip.committedAt = .ok ()) :
    ∃ job, (registry.refreshBranch branch).1 = .ok job := by
  rcases refreshBranch_cases h branch with
    ⟨message, hbad, -⟩ | ⟨n, x, -, -, -, he⟩ | ⟨record, -, -, -, he⟩ | ⟨-, -, -, he⟩
  · rw [hv] at hbad
    cases hbad
  · exact ⟨_, congrArg Prod.fst he⟩
  · exact ⟨_, congrArg Prod.fst he⟩
  · exact ⟨_, congrArg Prod.fst he⟩

theorem refreshBranch_forMajor {registry : PackageRegistry} (h : registry.Coherent)
    {branch : SelectedBranch}
    (hv : validateInputs branch.major branch.tip.sha branch.tip.committedAt = .ok ()) (major : ℤ) :
    (registry.refreshBranch branch).2.allocator.forMajor major =
      if branch.major = major then
        assignTip (registry.allocator.forMajor major) major branch.tip
      else registry.allocator.forMajor major := by
  have hissue : (registry.allocator.forMajor branch.major).currentAttempts.get? branch.tip.sha
      = none → (registry.allocator.setMajor branch.major (registry.issue branch).2).forMajor major =
        if branch.major = major then
          assignTip (registry.allocator.forMajor major) major branch.tip
        else registry.allocator.forMajor major := by
    intro hc
    rw [forMajor_setMajor]
    split_ifs with hm hm' hm'
    · subst hm
      exact (assignTip_none hc).symm
    · exact absurd hm.symm hm'
    · exact absurd hm'.symm hm
    · rfl
  rcases refreshBranch_cases h branch with
    ⟨message, hbad, -⟩ | ⟨n, x, -, hc, -, he⟩ | ⟨record, -, hc, -, he⟩ | ⟨-, hc, -, he⟩
  · rw [hv] at hbad
    cases hbad
  · rw [he, forMajor_touch]
    split_ifs with hm
    · subst hm
      exact (assignTip_some hc).symm
    · rfl
  · rw [he]
    exact hissue hc
  · rw [he]
    exact hissue hc

theorem refreshBranches_created {registry : PackageRegistry} (h : registry.Coherent)
    (created : List MaterializationJob) {branches : List SelectedBranch}
    (hv : ∀ b ∈ branches, validateInputs b.major b.tip.sha b.tip.committedAt = .ok ()) :
    ∃ jobs, (registry.refreshBranches created branches).1 = .ok jobs := by
  induction branches generalizing registry created with
  | nil => exact ⟨created, rfl⟩
  | cons branch rest ih =>
    have hcoherent := refreshBranch_coherent h branch
    obtain ⟨job, hjob⟩ := refreshBranch_created h (hv branch List.mem_cons_self)
    unfold refreshBranches
    cases hb : registry.refreshBranch branch with
    | mk result next =>
      rw [hb] at hcoherent hjob
      obtain rfl : result = .ok job := hjob
      exact ih hcoherent _ (fun b hm => hv b (List.mem_cons_of_mem _ hm))

/-- A pass over valid branches assigns one tip in a major that only this tip is
    selected for. -/
theorem refreshBranches_forMajor {registry : PackageRegistry} (h : registry.Coherent)
    (created : List MaterializationJob) {branches : List SelectedBranch} {major : ℤ}
    {tip : CommitTip} (htip : ∀ b ∈ branches, b.major = major → b.tip = tip)
    (hv : ∀ b ∈ branches, validateInputs b.major b.tip.sha b.tip.committedAt = .ok ()) :
    (registry.refreshBranches created branches).2.allocator.forMajor major =
      if ∃ b ∈ branches, b.major = major then
        assignTip (registry.allocator.forMajor major) major tip
      else registry.allocator.forMajor major := by
  induction branches generalizing registry created with
  | nil =>
    rw [if_neg (by simp)]
    rfl
  | cons branch rest ih =>
    have hcoherent := refreshBranch_coherent h branch
    obtain ⟨job, hjob⟩ := refreshBranch_created h (hv branch List.mem_cons_self)
    have hfor := refreshBranch_forMajor h (hv branch List.mem_cons_self) major
    unfold refreshBranches
    cases hb : registry.refreshBranch branch with
    | mk result next =>
      rw [hb] at hcoherent hjob hfor
      obtain rfl : result = .ok job := hjob
      have hrest := ih hcoherent (created ++ job.toList)
        (fun b hm => htip b (List.mem_cons_of_mem _ hm)) (fun b hm => hv b (List.mem_cons_of_mem _ hm))
      dsimp only at hfor ⊢
      rw [hrest, hfor]
      by_cases hm : branch.major = major
      · have htipEq := htip branch List.mem_cons_self hm
        rw [if_pos hm, htipEq, assignTip_assignTip, ite_self,
          if_pos ⟨branch, List.mem_cons_self, hm⟩]
      · rw [if_neg hm]
        simp only [List.mem_cons, exists_eq_or_imp, hm, false_or]

theorem refreshBranches_invalid {registry : PackageRegistry} (h : registry.Coherent)
    (created : List MaterializationJob) {branches : List SelectedBranch}
    (hv : ∃ b ∈ branches, validateInputs b.major b.tip.sha b.tip.committedAt ≠ .ok ()) :
    ∃ message, (registry.refreshBranches created branches).1 = .error message := by
  induction branches generalizing registry created with
  | nil =>
    obtain ⟨b, hb, -⟩ := hv
    cases hb
  | cons branch rest ih =>
    have hcoherent := refreshBranch_coherent h branch
    have hcases := refreshBranch_cases h branch
    unfold refreshBranches
    cases hb : registry.refreshBranch branch with
    | mk result next =>
      rw [hb] at hcoherent
      cases result with
      | error message => exact ⟨message, rfl⟩
      | ok job =>
        apply ih hcoherent
        obtain ⟨b, hmem, hbad⟩ := hv
        rcases List.mem_cons.1 hmem with rfl | hmem
        · exfalso
          rcases hcases with ⟨message, -, he⟩ | ⟨n, x, hok, -⟩ | ⟨record, hok, -⟩ | ⟨hok, -⟩
          · rw [he] at hb
            cases hb
          · exact hbad hok
          · exact hbad hok
          · exact hbad hok
        · exact ⟨b, hmem, hbad⟩

theorem refreshBranch_known {registry : PackageRegistry} (h : registry.Coherent)
    {branch : SelectedBranch} {n : ℤ}
    (hn : (registry.allocator.forMajor branch.major).currentAttempts.get? branch.tip.sha = some n) :
    (registry.refreshBranch branch).2.versions = registry.versions ∧
      ∀ m, (registry.refreshBranch branch).2.allocator.forMajor m = registry.allocator.forMajor m := by
  rcases refreshBranch_cases h branch with
    ⟨message, -, he⟩ | ⟨k, x, -, -, -, he⟩ | ⟨record, -, hc, -, he⟩ | ⟨-, hc, -, he⟩
  · rw [he]
    exact ⟨rfl, fun _ => rfl⟩
  · rw [he]
    exact ⟨rfl, fun m => forMajor_touch _ _ m⟩
  · rw [hn] at hc
    cases hc
  · rw [hn] at hc
    cases hc

theorem refreshBranches_known {registry : PackageRegistry} (h : registry.Coherent)
    (created : List MaterializationJob) (branches : List SelectedBranch)
    (hknown : ∀ b ∈ branches, ∃ n,
      (registry.allocator.forMajor b.major).currentAttempts.get? b.tip.sha = some n) :
    (registry.refreshBranches created branches).2.versions = registry.versions := by
  induction branches generalizing registry created with
  | nil => rfl
  | cons branch rest ih =>
    have hcoherent := refreshBranch_coherent h branch
    obtain ⟨n, hn⟩ := hknown branch List.mem_cons_self
    obtain ⟨hversions, hmajors⟩ := refreshBranch_known h hn
    unfold refreshBranches
    cases hb : registry.refreshBranch branch with
    | mk result next =>
      rw [hb] at hcoherent hversions hmajors
      cases result with
      | error message => exact hversions
      | ok job =>
        have hrest := ih hcoherent (created ++ job.toList) (by
          intro b hm
          rw [hmajors]
          exact hknown b (List.mem_cons_of_mem _ hm))
        exact hrest.trans hversions

/-- The first tip without an assignment gets a pending record, which the rest of the
    pass keeps. -/
theorem refreshBranches_pending {registry : PackageRegistry} (h : registry.InStep)
    (hr : registry.allocator.InRange) (created : List MaterializationJob)
    {branches : List SelectedBranch}
    (hv : ∀ b ∈ branches, validateInputs b.major b.tip.sha b.tip.committedAt = .ok ())
    (hnew : ∃ b ∈ branches,
      (registry.allocator.forMajor b.major).currentAttempts.get? b.tip.sha = none) :
    ∃ v record, (registry.refreshBranches created branches).2.versions.get? v = some record ∧
      record.state = .pending := by
  induction branches generalizing registry created with
  | nil =>
    obtain ⟨b, hb, -⟩ := hnew
    cases hb
  | cons branch rest ih =>
    have hcoherent := refreshBranch_coherent h.coherent branch
    have hadvances := refreshBranch_advances h branch (hr.highWater h.coherent.allocator)
    have hvalid := hv branch List.mem_cons_self
    obtain ⟨job, hjob⟩ := refreshBranch_created h.coherent hvalid
    cases hc : (registry.allocator.forMajor branch.major).currentAttempts.get? branch.tip.sha with
    | some n =>
      obtain ⟨-, hmajors⟩ := refreshBranch_known h.coherent hc
      unfold refreshBranches
      cases hb : registry.refreshBranch branch with
      | mk result next =>
        rw [hb] at hadvances hjob hmajors
        obtain rfl : result = .ok job := hjob
        have hheld : ∀ x, next.allocator.Held x ↔ registry.allocator.Held x :=
          held_congr (fun m k => by rw [hmajors])
        apply ih hadvances.inStep (fun x hx => hr x ((hheld x).1 hx)) _
          (fun b hm => hv b (List.mem_cons_of_mem _ hm))
        obtain ⟨b, hm, hfresh⟩ := hnew
        rcases List.mem_cons.1 hm with rfl | hm
        · rw [hc] at hfresh
          cases hfresh
        · refine ⟨b, hm, ?_⟩
          rw [hmajors]
          exact hfresh
    | none =>
      have hfree := h.version_free (nextSequence_above h.coherent.allocator hvalid
        (hr.highWater h.coherent.allocator branch.major))
      rcases refreshBranch_cases h.coherent branch with
        ⟨message, hbad, -⟩ | ⟨n, x, -, hknown, -, -⟩ | ⟨record, -, -, hrecord, -⟩ | ⟨-, -, -, he⟩
      · rw [hvalid] at hbad
        cases hbad
      · rw [hc] at hknown
        cases hknown
      · rw [show (registry.issue branch).1.version = versionString branch.major
          (nextSequence (registry.allocator.forMajor branch.major) branch.tip.committedAt) from rfl,
          hfree] at hrecord
        cases hrecord
      · rw [he] at hcoherent
        unfold refreshBranches
        rw [he]
        exact ⟨_, _, refreshBranches_get? hcoherent _ rest _ _ (OrderedMap.get?_set_self _ _ _), rfl⟩

end PackageRegistry

namespace PackageObject
open PackageRegistry

theorem current_iff {stored : Stored} {loaded : PackageRegistry} (h : Loaded stored loaded)
    (major : ℤ) (commitSha : Str) :
    (∃ n, (loaded.allocator.forMajor major).currentAttempts.get? commitSha = some n) ↔
      ∃ x ∈ assignments stored, x.major = major ∧ x.commitSha = commitSha := by
  have hcoherent := h.inStep.exactly.coherent
  constructor
  · rintro ⟨n, hn⟩
    obtain ⟨x, hx⟩ := (hcoherent major).current commitSha n hn
    refine ⟨x, (h.held x).1 (held_of_get? hx), ((hcoherent major).ofMajor _ x hx).1, ?_⟩
    exact ((hcoherent major).filed_at hx).1
  · rintro ⟨x, hx, rfl, rfl⟩
    obtain ⟨n, hn, -⟩ := (hcoherent x.major).latest _ x
      ((held_iff hcoherent x).1 ((h.held x).2 hx))
    exact ⟨n, hn⟩

theorem parseTips_entries {tips result : OrderedMap Str CommitTip} {branches : List (Str × CommitTip)}
    (h : parseTips tips branches = some result) : result.entries = tips.entries ++ branches := by
  induction branches generalizing tips with
  | nil =>
    obtain rfl := Option.some.inj h
    rw [List.append_nil]
  | cons entry rest ih =>
    obtain ⟨name, tip⟩ := entry
    unfold parseTips at h
    split_ifs at h with hbad
    have hfree : name ∉ tips.entries.map Prod.fst := by
      intro hm
      apply hbad
      obtain ⟨⟨k, v⟩, hkv, rfl⟩ := List.mem_map.1 hm
      have hhas : tips.has k = true :=
        (OrderedMap.has_eq_true _ _).2 ⟨v, (OrderedMap.get?_eq_some _ _ _).2 hkv⟩
      simp [hhas]
    rw [ih h, OrderedMap.entries_set_new _ _ hfree, List.append_assoc, List.singleton_append]

theorem parseDiscovery_entries {defaultBranch : Str} {branches : List (Str × CommitTip)}
    {discovery : BranchDiscovery} (h : parseDiscovery defaultBranch branches = some discovery) :
    discovery.branches.entries = branches := by
  obtain ⟨tips, htips, rfl⟩ := Option.map_eq_some_iff.1 h
  exact parseTips_entries htips

theorem parseDiscovery_eq {discovery parsed : BranchDiscovery}
    (h : parseDiscovery discovery.defaultBranch discovery.branches.entries = some parsed) :
    parsed = discovery := by
  have hentries := parseDiscovery_entries h
  obtain ⟨tips, -, rfl⟩ := Option.map_eq_some_iff.1 h
  rw [show tips = discovery.branches from OrderedMap.ext_entries hentries]

/-- A refresh either leaves the stored state as it is, or selects valid branches
    only and stores what the pass over them leaves. -/
theorem refresh_cases (stored : Stored) (package : PackageName) (defaultBranch : Str)
    (branches : List (Str × CommitTip)) (h : Sound stored) :
    (∃ discovery loaded selection,
      parseDiscovery defaultBranch branches = some discovery ∧
      registry stored (some package) = .ok loaded ∧
      selectBranches discovery loaded.branches = .ok selection ∧
      (∀ b ∈ selection.branches, validateInputs b.major b.tip.sha b.tip.committedAt = .ok ()) ∧
      ∃ created, PackageObject.refresh stored package defaultBranch branches =
        (.json 200 (report (({ loaded with branches := selection.state }).refreshBranches []
            selection.branches).2, created),
          saveRegistry (({ loaded with branches := selection.state }).refreshBranches []
            selection.branches).2)) ∨
    ((∀ discovery loaded selection,
      parseDiscovery defaultBranch branches = some discovery →
      registry stored (some package) = .ok loaded →
      selectBranches discovery loaded.branches = .ok selection →
      ∃ b ∈ selection.branches, validateInputs b.major b.tip.sha b.tip.committedAt ≠ .ok ()) ∧
      (PackageObject.refresh stored package defaultBranch branches).2 = stored ∧
      ∀ status body, (PackageObject.refresh stored package defaultBranch branches).1
        ≠ .json status body) := by
  unfold PackageObject.refresh
  cases hp : parseDiscovery defaultBranch branches with
  | none => exact .inr ⟨by simp, rfl, by simp⟩
  | some discovery =>
    cases hr : registry stored (some package) with
    | error message => exact .inr ⟨by simp, rfl, by simp⟩
    | ok loaded =>
      have hcoherent := (registry_loaded h hr).inStep.coherent
      cases hs : selectBranches discovery loaded.branches with
      | error message =>
        simp only [PackageRegistry.refresh, hs]
        refine .inr ⟨?_, by simp⟩
        rintro discovery' loaded' selection' ⟨⟩ ⟨⟩ hs'
        rw [hs] at hs'
        cases hs'
      | ok selection =>
        simp only [PackageRegistry.refresh, hs]
        by_cases hv : ∀ b ∈ selection.branches,
            validateInputs b.major b.tip.sha b.tip.committedAt = .ok ()
        · left
          refine ⟨discovery, loaded, selection, rfl, rfl, hs, hv, ?_⟩
          obtain ⟨created, hcreated⟩ := refreshBranches_created
            (hcoherent.branches selection.state) [] hv
          refine ⟨created, ?_⟩
          cases hb : PackageRegistry.refreshBranches { loaded with branches := selection.state } []
              selection.branches with
          | mk result next =>
            rw [hb] at hcreated
            obtain rfl : result = .ok created := hcreated
            rfl
        · push Not at hv
          right
          refine ⟨?_, ?_⟩
          · rintro discovery' loaded' selection' ⟨⟩ ⟨⟩ hs'
            rw [hs] at hs'
            obtain rfl := Except.ok.inj hs'
            exact hv
          · obtain ⟨message, hmessage⟩ := refreshBranches_invalid
              (hcoherent.branches selection.state) [] hv
            cases hb : PackageRegistry.refreshBranches { loaded with branches := selection.state } []
                selection.branches with
            | mk result next =>
              rw [hb] at hmessage
              obtain rfl : result = .error message := hmessage
              exact ⟨rfl, by simp⟩

end PackageObject
end JsrProxy
