import JsrProxy.ReleaseMajors

set_option autoImplicit false

/-!
# Discoveries that a registry refuses

Reading a branch name, counting past the highest major and checking the inputs of
an allocation disagree about one number: the last safe integer names a release,
and the default branch above it has no major left.
-/
namespace JsrProxy
open Branches VersionAllocator

namespace Branches

def BranchState.InRange (state : BranchState) : Prop :=
  ∀ m, state.highestObservedReleaseMajor = some m → 0 ≤ m ∧ m < 2 ^ 53

theorem observedAfter_greatest (discovery : BranchDiscovery) (prior : BranchState) :
    Highest ({m | prior.highestObservedReleaseMajor = some m} ∪
        {m | ∃ e ∈ discovery.branches.entries, releaseMajor e.1 = some m})
      (observedAfter discovery prior) := by
  apply observeReleases_highest
  cases h : prior.highestObservedReleaseMajor with
  | none => simp [Highest]
  | some highest => simp [Highest]

theorem releaseMajor_range {branch : Str} {major : ℤ} (h : releaseMajor branch = some major) :
    0 ≤ major ∧ major < 2 ^ 53 := by
  obtain ⟨n, hn, -, rfl⟩ := releaseMajor_eq_some.1 h
  omega

theorem observedAfter_inRange {prior : BranchState} (h : prior.InRange)
    (discovery : BranchDiscovery) {m : ℤ} (hm : observedAfter discovery prior = some m) :
    0 ≤ m ∧ m < 2 ^ 53 := by
  have hhighest := observedAfter_greatest discovery prior
  rw [hm] at hhighest
  rcases hhighest.1 with hprior | ⟨e, -, hrelease⟩
  · exact h m hprior
  · exact releaseMajor_range hrelease

theorem observedAfter_last {prior : BranchState} (h : prior.InRange) (discovery : BranchDiscovery) :
    observedAfter discovery prior = some (2 ^ 53 - 1) ↔
      prior.highestObservedReleaseMajor = some (2 ^ 53 - 1) ∨
        discovery.branches.has (releaseName (2 ^ 53 - 1)) = true := by
  have hhighest := observedAfter_greatest discovery prior
  constructor
  · intro hlast
    rw [hlast] at hhighest
    rcases hhighest.1 with hprior | ⟨⟨name, tip⟩, hentry, hrelease⟩
    · exact .inl hprior
    · right
      obtain ⟨n, -, rfl, hn⟩ := releaseMajor_eq_some.1 hrelease
      have hn' : n = 2 ^ 53 - 1 := by omega
      subst hn'
      exact (OrderedMap.has_eq_true _ _).2 ⟨tip, (OrderedMap.get?_eq_some _ _ _).2 hentry⟩
  · intro hreached
    have hmem : (2 ^ 53 - 1 : ℤ) ∈ {m | prior.highestObservedReleaseMajor = some m} ∪
        {m | ∃ e ∈ discovery.branches.entries, releaseMajor e.1 = some m} := by
      rcases hreached with hprior | hhas
      · exact .inl hprior
      · right
        obtain ⟨tip, htip⟩ := (OrderedMap.has_eq_true _ _).1 hhas
        exact ⟨(_, tip), (OrderedMap.get?_eq_some _ _ _).1 htip,
          releaseMajor_eq_some.2 ⟨2 ^ 53 - 1, by omega, rfl, by norm_num⟩⟩
    cases ho : observedAfter discovery prior with
    | none =>
      rw [ho] at hhighest
      rw [show _ = ∅ from hhighest] at hmem
      exact absurd hmem (Set.notMem_empty _)
    | some m =>
      rw [ho] at hhighest
      have hge := hhighest.2 hmem
      have hlt := observedAfter_inRange h discovery ho
      have hm : m = 2 ^ 53 - 1 := by omega
      rw [hm]

end Branches

namespace PackageRegistry

theorem refreshBranch_branches (registry : PackageRegistry) (branch : SelectedBranch) :
    (registry.refreshBranch branch).2.branches = registry.branches := by
  unfold refreshBranch
  cases ha : allocate registry.allocator branch.major branch.tip.sha branch.tip.committedAt with
  | mk result allocator =>
    cases result with
    | error message => rfl
    | ok assignment =>
      dsimp only
      cases registry.versions.get? assignment.version with
      | some record => rfl
      | none => rfl

theorem refreshBranches_branches (registry : PackageRegistry) (created : List MaterializationJob)
    (branches : List SelectedBranch) :
    (registry.refreshBranches created branches).2.branches = registry.branches := by
  induction branches generalizing registry created with
  | nil => rfl
  | cons branch rest ih =>
    have hbranch := refreshBranch_branches registry branch
    unfold refreshBranches
    cases hb : registry.refreshBranch branch with
    | mk result next =>
      rw [hb] at hbranch
      cases result with
      | error message => exact hbranch
      | ok job => exact (ih next _).trans hbranch

theorem touchesOne_branches {before after : PackageRegistry} (h : TouchesOne before after) :
    after.branches = before.branches := by
  rcases h with rfl | ⟨v, record, record', -, -, -, rfl⟩
  · rfl
  · rfl

theorem recoverVersion_branches (registry : PackageRegistry) (version reason : Str)
    (recoveredAt : ℤ) :
    (registry.recoverVersion version reason recoveredAt).2.branches = registry.branches := by
  rcases recoverVersion_cases registry version reason recoveredAt with
    ⟨message, allocator, -, he⟩ | ⟨record, n, -, -, -, -, he⟩
  · rw [he]
  · rw [he]

theorem apply_branches {registry : PackageRegistry} (h : registry.Coherent) (op : Op) :
    (registry.apply op).branches = registry.branches ∨
      ∃ discovery selection, op = .refresh discovery ∧
        selectBranches discovery registry.branches = .ok selection ∧
        (registry.apply op).branches = selection.state := by
  cases op with
  | refresh discovery =>
    change (registry.refresh discovery).2.branches = _ ∨ _
    cases hs : selectBranches discovery registry.branches with
    | error message =>
      left
      rw [refresh, hs]
    | ok selection =>
      right
      refine ⟨discovery, selection, rfl, hs, ?_⟩
      change (registry.refresh discovery).2.branches = _
      rw [refresh, hs]
      exact refreshBranches_branches _ _ _
  | leaseNext now => exact .inl (touchesOne_branches (leaseNext_touches registry now))
  | releaseLease version => exact .inl (touchesOne_branches (releaseLease_touches registry version))
  | markReady version => exact .inl (touchesOne_branches (markReady_touches registry version))
  | markYanked version diagnostic =>
    exact .inl (touchesOne_branches (markYanked_touches registry version diagnostic))
  | recoverVersion version reason recoveredAt =>
    exact .inl (recoverVersion_branches registry version reason recoveredAt)
  | reload =>
    left
    unfold apply
    cases hr : fromSnapshot registry.snapshot with
    | error message => rfl
    | ok restored =>
      obtain ⟨-, -, he⟩ := fromSnapshot_snapshot h hr
      dsimp only
      rw [he]

theorem selectBranches_state {discovery : BranchDiscovery} {prior : BranchState}
    {selection : BranchSelection} (h : selectBranches discovery prior = .ok selection) :
    selection.state = ⟨observedAfter discovery prior⟩ := by
  obtain ⟨defaultTip, hd⟩ := selectBranches_default h
  rw [selectBranches_ok hd] at h
  rw [← Except.ok.inj h]

theorem apply_inRange {registry : PackageRegistry} (h : registry.Coherent)
    (hr : registry.branches.InRange) (op : Op) : (registry.apply op).branches.InRange := by
  rcases apply_branches h op with he | ⟨discovery, selection, -, hs, he⟩
  · rw [he]
    exact hr
  · rw [he, selectBranches_state hs]
    intro m hm
    exact observedAfter_inRange hr discovery hm

theorem run_inRange (name : PackageName) (ops : List Op) :
    (Executions.run apply (new name) ops).branches.InRange := by
  have hstep : ∀ (registry : PackageRegistry) (op : Op),
      registry.Coherent ∧ registry.branches.InRange → True →
      (registry.apply op).Coherent ∧ (registry.apply op).branches.InRange :=
    fun registry op h _ => ⟨apply_coherent h.1 op, apply_inRange h.1 h.2 op⟩
  have hnew : (new name).branches.InRange := fun m hm => by cases hm
  exact (Executions.run_invariant (fun registry : PackageRegistry =>
    registry.Coherent ∧ registry.branches.InRange) (fun _ _ => True) hstep _ ops
    ⟨coherent_new name, hnew⟩ (Executions.admitted_true _ _ _)).2

/-- The last safe integer is a release major that was seen, and no release stands at
    the default branch's commit: the default branch is counted past it. -/
def MajorsExhausted (registry : PackageRegistry) (discovery : BranchDiscovery) : Prop :=
  (registry.branches.highestObservedReleaseMajor = some (2 ^ 53 - 1) ∨
    discovery.branches.has (releaseName (2 ^ 53 - 1)) = true) ∧
  ∀ (n : ℕ) (tip defaultTip : CommitTip), n < 2 ^ 53 →
    discovery.branches.get? (releaseName n) = some tip →
    discovery.branches.get? discovery.defaultBranch = some defaultTip → tip.sha ≠ defaultTip.sha

end PackageRegistry

namespace PackageObject

theorem parseTips_committedAt {tips result : OrderedMap Str CommitTip}
    {branches : List (Str × CommitTip)} (h : parseTips tips branches = some result) :
    ∀ e ∈ branches, 0 ≤ e.2.committedAt ∧ e.2.committedAt < 2 ^ 53 := by
  induction branches generalizing tips with
  | nil =>
    intro e he
    cases he
  | cons entry rest ih =>
    obtain ⟨name, tip⟩ := entry
    unfold parseTips at h
    split_ifs at h with hbad
    intro e he
    rcases List.mem_cons.1 he with rfl | he
    · simp only [Bool.or_eq_true, Bool.not_eq_true', not_or, Bool.not_eq_false,
        Doubles.isSafeInteger_iff, Doubles.maxSafeInteger, decide_eq_true_eq] at hbad
      dsimp only
      omega
    · exact ih h e he

theorem parseDiscovery_committedAt {defaultBranch : Str} {branches : List (Str × CommitTip)}
    {discovery : BranchDiscovery} (h : parseDiscovery defaultBranch branches = some discovery) :
    ∀ e ∈ branches, 0 ≤ e.2.committedAt ∧ e.2.committedAt < 2 ^ 53 := by
  obtain ⟨tips, htips, -⟩ := Option.map_eq_some_iff.1 h
  exact parseTips_committedAt htips

end PackageObject

namespace PackageRegistry

theorem defaultMajor_inRange {observed : Option ℤ} (h : ∀ m, observed = some m → 0 ≤ m ∧ m < 2 ^ 53) :
    0 ≤ defaultMajor observed ∧
      (defaultMajor observed < 2 ^ 53 ↔ observed ≠ some (2 ^ 53 - 1)) := by
  cases observed with
  | none => exact ⟨le_refl 0, fun _ hne => (by cases hne), fun _ => by norm_num [defaultMajor]⟩
  | some m =>
    have hm := h m rfl
    have hadd : defaultMajor (some m) = m + 1 := Doubles.add_one_of_lt m (by omega) hm.2
    rw [hadd, ne_eq, Option.some.injEq]
    omega

/-- A selection is valid unless it counts the default branch past the last major. -/
theorem selected_valid_iff {prior : BranchState} (hprior : prior.InRange)
    {discovery : BranchDiscovery} {defaultTip : CommitTip}
    (htip : discovery.branches.get? discovery.defaultBranch = some defaultTip)
    (hentries : ∀ e ∈ discovery.branches.entries,
      e.2.sha ≠ [] ∧ 0 ≤ e.2.committedAt ∧ e.2.committedAt < 2 ^ 53) :
    (∀ b ∈ releasesOf discovery.branches.entries ++
        furtherBranches discovery defaultTip (observedAfter discovery prior),
      validateInputs b.major b.tip.sha b.tip.committedAt = .ok ()) ↔
      ¬ (observedAfter discovery prior = some (2 ^ 53 - 1) ∧
        ∀ r ∈ releasesOf discovery.branches.entries, r.tip.sha ≠ defaultTip.sha) := by
  have hreleases : ∀ b ∈ releasesOf discovery.branches.entries,
      validateInputs b.major b.tip.sha b.tip.committedAt = .ok () := by
    intro b hb
    obtain ⟨hentry, hmajor⟩ := mem_releasesOf.1 hb
    exact validateInputs_ok.2 ⟨releaseMajor_range hmajor, hentries _ hentry⟩
  have htipEntry := hentries _ ((OrderedMap.get?_eq_some _ _ _).1 htip)
  have hmajor := defaultMajor_inRange (fun m hm => observedAfter_inRange hprior discovery hm)
  rcases furtherBranches_cases discovery defaultTip (observedAfter discovery prior) with
    ⟨⟨r, hr, hsha⟩, he⟩ | ⟨hnone, he⟩
  · rw [he, List.append_nil]
    constructor
    · rintro - ⟨-, hnone⟩
      exact hnone r hr hsha
    · intro _
      exact hreleases
  · rw [he]
    constructor
    · rintro hvalid ⟨hlast, -⟩
      have hfurther := hvalid _ (List.mem_append_right _ List.mem_cons_self)
      exact hmajor.2.1 (validateInputs_ok.1 hfurther).1.2 hlast
    · intro hnot b hb
      rcases List.mem_append.1 hb with hb | hb
      · exact hreleases b hb
      · obtain rfl := List.mem_singleton.1 hb
        have hlast : observedAfter discovery prior ≠ some (2 ^ 53 - 1) :=
          fun hlast => hnot ⟨hlast, hnone⟩
        exact validateInputs_ok.2 ⟨⟨hmajor.1, hmajor.2.2 hlast⟩, htipEntry⟩

theorem majorsExhausted_iff {registry : PackageRegistry} (hr : registry.branches.InRange)
    {discovery : BranchDiscovery} {defaultTip : CommitTip}
    (htip : discovery.branches.get? discovery.defaultBranch = some defaultTip) :
    MajorsExhausted registry discovery ↔
      observedAfter discovery registry.branches = some (2 ^ 53 - 1) ∧
        ∀ r ∈ releasesOf discovery.branches.entries, r.tip.sha ≠ defaultTip.sha := by
  unfold MajorsExhausted
  rw [observedAfter_last hr]
  apply and_congr_right
  intro _
  constructor
  · intro hnone r hmem
    obtain ⟨hget, n, hn, hname, -⟩ := mem_releases.1 hmem
    exact hnone n r.tip defaultTip hn (hname ▸ hget) htip
  · intro hnone n tip tip' hn hget htip'
    rw [htip] at htip'
    obtain rfl := Option.some.inj htip'
    exact hnone ⟨releaseName n, n, tip⟩ (mem_releases.2 ⟨hget, n, hn, rfl, rfl⟩)

/-- In every reachable registry a well-formed discovery is taken in unless it counts
    the default branch past the last major. -/
theorem refreshes_iff (name : PackageName) (ops : List Op) (discovery : BranchDiscovery)
    (hparsed : PackageObject.parseDiscovery discovery.defaultBranch discovery.branches.entries
      = some discovery)
    (hdefault : discovery.branches.has discovery.defaultBranch = true)
    (hsha : ∀ e ∈ discovery.branches.entries, e.2.sha ≠ []) :
    (∃ created, ((Executions.run apply (new name) ops).refresh discovery).1 = .ok created) ↔
      ¬ MajorsExhausted (Executions.run apply (new name) ops) discovery := by
  have hcoherent := run_coherent name ops
  have hrange := run_inRange name ops
  generalize Executions.run apply (new name) ops = registry at hcoherent hrange ⊢
  obtain ⟨defaultTip, htip⟩ := (OrderedMap.has_eq_true _ _).1 hdefault
  have hentries : ∀ e ∈ discovery.branches.entries,
      e.2.sha ≠ [] ∧ 0 ≤ e.2.committedAt ∧ e.2.committedAt < 2 ^ 53 :=
    fun e he => ⟨hsha e he, PackageObject.parseDiscovery_committedAt hparsed e he⟩
  rw [majorsExhausted_iff hrange htip, ← selected_valid_iff hrange htip hentries, refresh,
    selectBranches_ok htip]
  constructor
  · rintro ⟨created, hok⟩
    by_contra hinvalid
    push Not at hinvalid
    obtain ⟨message, herror⟩ := refreshBranches_invalid
      (hcoherent.branches ⟨observedAfter discovery registry.branches⟩) [] hinvalid
    rw [herror] at hok
    cases hok
  · intro hvalid
    exact refreshBranches_created (hcoherent.branches _) [] hvalid

def lastMajor : BranchDiscovery :=
  ⟨"main".toList, (OrderedMap.empty.set "main".toList ⟨"a".toList, 7⟩).set
    (releaseName (2 ^ 53 - 1)) ⟨"b".toList, 7⟩⟩

theorem lastMajor_refused :
    PackageObject.parseDiscovery lastMajor.defaultBranch lastMajor.branches.entries
        = some lastMajor ∧
      lastMajor.branches.has lastMajor.defaultBranch = true ∧
      (∀ e ∈ lastMajor.branches.entries, e.2.sha ≠ []) ∧
      ¬ ∃ created, ((new ⟨"s".toList, "p".toList⟩).refresh lastMajor).1 = .ok created := by
  refine ⟨by decide +kernel, by decide +kernel, by decide +kernel, ?_⟩
  rintro ⟨created, h⟩
  rw [show ((new ⟨"s".toList, "p".toList⟩).refresh lastMajor).1
    = .error "major must be a non-negative safe integer".toList by decide +kernel] at h
  cases h

theorem refreshes_iff_lastMajor :
    (∃ created, ((Executions.run apply (new ⟨"s".toList, "p".toList⟩) []).refresh lastMajor).1
        = .ok created) ↔
      ¬ MajorsExhausted (Executions.run apply (new ⟨"s".toList, "p".toList⟩) []) lastMajor :=
  refreshes_iff ⟨"s".toList, "p".toList⟩ [] lastMajor (by decide +kernel) (by decide +kernel)
    (by decide +kernel)

end PackageRegistry
end JsrProxy
