import JsrProxy.TipAssignments

set_option autoImplicit false

/-!
# Release majors over a history of discoveries

A release branch is named after a safe integer, and its name is the only one for
that integer. From this follow the majors that a selection holds and the mark
that a history of selections leaves.
-/
namespace JsrProxy
namespace Branches
open Text

def releaseName (major : ℕ) : Str := 'v' :: Nat.toDigits 10 major

theorem releaseName_inj {m n : ℕ} (h : releaseName m = releaseName n) : m = n :=
  toDigits_inj (List.cons.inj h).2

theorem isNumeral_cons {c : Char} {cs : Str} (hc : c ≠ '0') :
    isNumeral (c :: cs) = true ↔ ∀ d ∈ c :: cs, d.isDigit = true := by
  have hne : c :: cs ≠ ['0'] := fun h => hc (List.cons.inj h).1
  unfold isNumeral
  split
  · rename_i h
    exact absurd h hne
  · rename_i d ds _ h
    obtain ⟨rfl, rfl⟩ := List.cons.inj h
    rw [Bool.and_eq_true, bne_iff_ne, List.all_eq_true]
    exact and_iff_right hc
  · rename_i h
    cases h

theorem isNumeral_toDigits (n : ℕ) : isNumeral (Nat.toDigits 10 n) = true := by
  induction n using Nat.strong_induction_on with
  | _ n ih =>
    rw [Nat.toDigits_eq_if (by decide)]
    split
    · rename_i hn
      interval_cases n <;> rfl
    · rename_i hn
      have hpos : n / 10 ≠ 0 := by omega
      have hprefix := ih (n / 10) (by omega)
      have hlast : (Nat.digitChar (n % 10)).isDigit = true := by
        have hlt : n % 10 < 10 := Nat.mod_lt _ (by decide)
        generalize n % 10 = d at hlt
        interval_cases d <;> rfl
      cases hd : Nat.toDigits 10 (n / 10) with
      | nil => exact absurd hd (toDigits_ne_nil _)
      | cons c cs =>
        rw [hd] at hprefix
        have hc : c ≠ '0' := by
          rintro rfl
          have hzero : cs = [] := by
            cases cs with
            | nil => rfl
            | cons d ds => cases hprefix
          rw [hzero, ← Nat.toDigits_zero 10] at hd
          exact hpos (toDigits_inj hd)
        rw [List.cons_append, isNumeral_cons hc]
        have hall := (isNumeral_cons hc).1 hprefix
        intro d hm
        rw [← List.cons_append] at hm
        rcases List.mem_append.1 hm with hm | hm
        · exact hall d hm
        · rw [List.mem_singleton.1 hm]
          exact hlast

theorem toDigits_of_isNumeral {digits : Str} (h : isNumeral digits = true) :
    Nat.toDigits 10 (Nat.ofDigitChars 10 digits 0) = digits := by
  cases digits with
  | nil => cases h
  | cons c cs =>
    by_cases hc : c = '0'
    · subst hc
      cases cs with
      | nil => rfl
      | cons d ds => cases h
    · have hall := (isNumeral_cons hc).1 h
      obtain ⟨hlt, hchar⟩ := digitChar_of_isDigit (hall c List.mem_cons_self)
      have hpos : 0 < c.toNat - '0'.toNat := by
        by_contra hz
        have hz' : c.toNat - '0'.toNat = 0 := by omega
        rw [hz'] at hchar
        exact hc hchar.symm
      rw [Nat.ofDigitChars_cons, Nat.mul_zero, Nat.zero_add,
        toDigits_ofDigitChars (fun d hd => hall d (List.mem_cons_of_mem _ hd)) hpos,
        Nat.toDigits_of_lt_base hlt, hchar, List.singleton_append]

/-- The branches that own a major are exactly those named after a safe integer. -/
theorem releaseMajor_eq_some {branch : Str} {major : ℤ} :
    releaseMajor branch = some major ↔
      ∃ n : ℕ, n < 2 ^ 53 ∧ branch = releaseName n ∧ major = n := by
  constructor
  · intro h
    unfold releaseMajor at h
    split at h
    · rename_i digits
      dsimp only at h
      split_ifs at h with hnumeral hsafe
      have hround := Doubles.round_safe hsafe
      refine ⟨Nat.ofDigitChars 10 digits 0, hround.2, ?_, ?_⟩
      · rw [releaseName, toDigits_of_isNumeral hnumeral]
      · rw [← Option.some.inj h]
        exact hround.1
    · cases h
  · rintro ⟨n, hn, rfl, rfl⟩
    have hround : Doubles.round n = n := Doubles.round_of_nonneg n (by omega) (by omega)
    have hsafe : Doubles.isSafeInteger n = true := by
      rw [Doubles.isSafeInteger_iff, Doubles.maxSafeInteger]
      omega
    change (if isNumeral (Nat.toDigits 10 n) = true then
      if Doubles.isSafeInteger (Doubles.round (Nat.ofDigitChars 10 (Nat.toDigits 10 n) 0)) = true then
        some (Doubles.round (Nat.ofDigitChars 10 (Nat.toDigits 10 n) 0)) else none else none) = some (n : ℤ)
    rw [if_pos (isNumeral_toDigits n), Nat.ofDigitChars_toDigits (by decide) (by decide), hround,
      if_pos hsafe]

def releasesOf (entries : List (Str × CommitTip)) : List SelectedBranch :=
  entries.filterMap fun entry => (releaseMajor entry.1).map fun major => ⟨entry.1, major, entry.2⟩

theorem mem_releasesOf {entries : List (Str × CommitTip)} {b : SelectedBranch} :
    b ∈ releasesOf entries ↔ (b.branch, b.tip) ∈ entries ∧ releaseMajor b.branch = some b.major := by
  unfold releasesOf
  rw [List.mem_filterMap]
  constructor
  · rintro ⟨⟨name, tip⟩, hentry, he⟩
    obtain ⟨major, hmajor, rfl⟩ := Option.map_eq_some_iff.1 he
    exact ⟨hentry, hmajor⟩
  · rintro ⟨hentry, hmajor⟩
    exact ⟨(b.branch, b.tip), hentry, by rw [hmajor]; rfl⟩

/-- The highest of a set of majors, if there is one at all. -/
def Highest (majors : Set ℤ) : Option ℤ → Prop
  | none => majors = ∅
  | some highest => IsGreatest majors highest

theorem Highest.observe {majors : Set ℤ} {observed : Option ℤ} (h : Highest majors observed)
    (major : ℤ) : Highest (insert major majors) (some (observe observed major)) := by
  cases observed with
  | none =>
    rw [show majors = ∅ from h]
    simp [Highest, Branches.observe]
  | some highest =>
    change IsGreatest _ (max highest major)
    rw [max_comm]
    exact IsGreatest.insert major h

theorem observeReleases_eq (entries : List (Str × CommitTip)) (releases : List SelectedBranch)
    (observed : Option ℤ) :
    (observeReleases entries releases observed).1 = releases ++ releasesOf entries := by
  induction entries generalizing releases observed with
  | nil => exact (List.append_nil _).symm
  | cons entry rest ih =>
    obtain ⟨branch, tip⟩ := entry
    unfold observeReleases releasesOf
    cases hm : releaseMajor branch with
    | none =>
      dsimp only
      rw [ih, List.filterMap_cons_none (by rw [hm]; rfl)]
      rfl
    | some major =>
      dsimp only
      rw [ih, List.filterMap_cons_some (by rw [hm]; rfl), List.append_assoc]
      rfl

theorem observeReleases_highest {majors : Set ℤ} {observed : Option ℤ} (h : Highest majors observed)
    (entries : List (Str × CommitTip)) (releases : List SelectedBranch) :
    Highest (majors ∪ {m | ∃ e ∈ entries, releaseMajor e.1 = some m})
      (observeReleases entries releases observed).2 := by
  induction entries generalizing majors releases observed with
  | nil => simpa [observeReleases] using h
  | cons entry rest ih =>
    obtain ⟨branch, tip⟩ := entry
    unfold observeReleases
    cases hm : releaseMajor branch with
    | none =>
      have hrest := ih h releases
      simpa [hm] using hrest
    | some major =>
      have hrest := ih (h.observe major) (releases ++ [⟨branch, major, tip⟩])
      have hset : majors ∪ {m | ∃ e ∈ (branch, tip) :: rest, releaseMajor e.1 = some m}
          = insert major majors ∪ {m | ∃ e ∈ rest, releaseMajor e.1 = some m} := by
        ext m
        simp only [Set.mem_union, Set.mem_ofPred_eq, List.mem_cons, exists_eq_or_imp, hm,
          Option.some.injEq, Set.mem_insert_iff]
        rw [eq_comm (a := major)]
        tauto
      rw [hset]
      exact hrest

def observedAfter (discovery : BranchDiscovery) (prior : BranchState) : Option ℤ :=
  (observeReleases discovery.branches.entries [] prior.highestObservedReleaseMajor).2

/-- What is selected besides the releases: the default branch, unless a release
    stands at its commit. -/
def furtherBranches (discovery : BranchDiscovery) (defaultTip : CommitTip) (observed : Option ℤ) :
    List SelectedBranch :=
  if ∃ r ∈ releasesOf discovery.branches.entries, r.tip.sha = defaultTip.sha then []
  else [⟨discovery.defaultBranch, defaultMajor observed, defaultTip⟩]

theorem selectBranches_default {discovery : BranchDiscovery} {prior : BranchState}
    {selection : BranchSelection} (h : selectBranches discovery prior = .ok selection) :
    ∃ defaultTip, discovery.branches.get? discovery.defaultBranch = some defaultTip := by
  cases hd : discovery.branches.get? discovery.defaultBranch with
  | none =>
    unfold selectBranches at h
    rw [hd] at h
    cases h
  | some defaultTip => exact ⟨defaultTip, rfl⟩

theorem selectBranches_ok {discovery : BranchDiscovery} {defaultTip : CommitTip}
    (h : discovery.branches.get? discovery.defaultBranch = some defaultTip) (prior : BranchState) :
    selectBranches discovery prior = .ok ⟨⟨observedAfter discovery prior⟩,
      releasesOf discovery.branches.entries ++
        furtherBranches discovery defaultTip (observedAfter discovery prior)⟩ := by
  have hreleases := observeReleases_eq discovery.branches.entries [] prior.highestObservedReleaseMajor
  unfold selectBranches observedAfter furtherBranches
  cases ho : observeReleases discovery.branches.entries [] prior.highestObservedReleaseMajor with
  | mk releases observed =>
    rw [ho, List.nil_append] at hreleases
    obtain rfl : releases = releasesOf discovery.branches.entries := hreleases
    simp only [h]
    cases hsame : (((releasesOf discovery.branches.entries).filter fun release =>
        release.tip.sha = defaultTip.sha).insertionSort
          fun left right => right.major ≤ left.major).head? with
    | none =>
      have hnone : ¬ ∃ r ∈ releasesOf discovery.branches.entries, r.tip.sha = defaultTip.sha := by
        rintro ⟨r, hr, hsha⟩
        have hmem : r ∈ ((releasesOf discovery.branches.entries).filter fun release =>
            release.tip.sha = defaultTip.sha).insertionSort
              fun left right => right.major ≤ left.major := by
          rw [List.mem_insertionSort, List.mem_filter]
          exact ⟨hr, decide_eq_true hsha⟩
        rw [List.head?_eq_none_iff.1 hsame] at hmem
        cases hmem
      rw [if_neg hnone]
    | some r =>
      have hmem := List.mem_of_mem_head? hsame
      rw [List.mem_insertionSort, List.mem_filter] at hmem
      rw [if_pos ⟨r, hmem.1, of_decide_eq_true hmem.2⟩, List.append_nil]

def releasedMajors (seen : List BranchDiscovery) : Set ℤ :=
  {m | ∃ d ∈ seen, ∃ n : ℕ, n < 2 ^ 53 ∧ d.branches.has (releaseName n) = true ∧ m = n}

theorem releasedMajors_append (seen : List BranchDiscovery) (discovery : BranchDiscovery) :
    releasedMajors (seen ++ [discovery]) = releasedMajors seen ∪
      {m | ∃ e ∈ discovery.branches.entries, releaseMajor e.1 = some m} := by
  have hlast : releasedMajors [discovery]
      = {m | ∃ e ∈ discovery.branches.entries, releaseMajor e.1 = some m} := by
    ext m
    simp only [releasedMajors, List.mem_singleton, exists_eq_left, Set.mem_ofPred_eq]
    constructor
    · rintro ⟨n, hn, hhas, rfl⟩
      obtain ⟨tip, htip⟩ := (OrderedMap.has_eq_true _ _).1 hhas
      exact ⟨(releaseName n, tip), (OrderedMap.get?_eq_some _ _ _).1 htip,
        releaseMajor_eq_some.2 ⟨n, hn, rfl, rfl⟩⟩
    · rintro ⟨⟨name, tip⟩, hentry, hmajor⟩
      obtain ⟨n, hn, rfl, rfl⟩ := releaseMajor_eq_some.1 hmajor
      exact ⟨n, hn, (OrderedMap.has_eq_true _ _).2
        ⟨tip, (OrderedMap.get?_eq_some _ _ _).2 hentry⟩, rfl⟩
  rw [← hlast]
  ext m
  simp only [releasedMajors, List.mem_append, Set.mem_union, Set.mem_ofPred_eq, or_and_right,
    exists_or]

theorem observedAfter_highest {seen : List BranchDiscovery} {prior : BranchState}
    (h : Highest (releasedMajors seen) prior.highestObservedReleaseMajor)
    (discovery : BranchDiscovery) :
    Highest (releasedMajors (seen ++ [discovery])) (observedAfter discovery prior) := by
  rw [releasedMajors_append]
  exact observeReleases_highest h _ _

/-- A discovery that holds its default branch and no release branch of the last
    safe integer. -/
structure Numbered (discovery : BranchDiscovery) : Prop where
  holdsDefault : discovery.branches.has discovery.defaultBranch = true
  below : ∀ n : ℕ, n < 2 ^ 53 → discovery.branches.has (releaseName n) = true → n < 2 ^ 53 - 1

theorem numbered_of {discovery : BranchDiscovery}
    (hdefault : discovery.branches.has discovery.defaultBranch = true)
    (hlast : discovery.branches.has (releaseName (2 ^ 53 - 1)) = false) : Numbered discovery where
  holdsDefault := hdefault
  below n hn hhas := by
    by_contra hge
    have hlastSafe : n = 2 ^ 53 - 1 := by omega
    rw [hlastSafe, hlast] at hhas
    cases hhas

theorem releasedMajors_lt {seen : List BranchDiscovery} (h : ∀ d ∈ seen, Numbered d) {m : ℤ}
    (hm : m ∈ releasedMajors seen) : 0 ≤ m ∧ m < 2 ^ 53 - 1 := by
  obtain ⟨d, hd, n, hn, hhas, rfl⟩ := hm
  have hlt := (h d hd).below n hn hhas
  omega

def observeDiscovery (prior : BranchState) (discovery : BranchDiscovery) : Except Str BranchState :=
  (selectBranches discovery prior).map BranchSelection.state

theorem selectBranches_numbered {discovery : BranchDiscovery} (h : Numbered discovery)
    (prior : BranchState) :
    ∃ defaultTip, discovery.branches.get? discovery.defaultBranch = some defaultTip ∧
      selectBranches discovery prior = .ok ⟨⟨observedAfter discovery prior⟩,
        releasesOf discovery.branches.entries ++
          furtherBranches discovery defaultTip (observedAfter discovery prior)⟩ := by
  obtain ⟨defaultTip, htip⟩ := (OrderedMap.has_eq_true _ _).1 h.holdsDefault
  exact ⟨defaultTip, htip, selectBranches_ok htip prior⟩

theorem observe_highest {seen : List BranchDiscovery} {prior : BranchState}
    (h : Highest (releasedMajors seen) prior.highestObservedReleaseMajor)
    (history : List BranchDiscovery) (hnumbered : ∀ d ∈ history, Numbered d) :
    ∃ state, history.foldlM observeDiscovery prior = .ok state ∧
      Highest (releasedMajors (seen ++ history)) state.highestObservedReleaseMajor := by
  induction history generalizing seen prior with
  | nil =>
    rw [List.append_nil]
    exact ⟨prior, rfl, h⟩
  | cons discovery rest ih =>
    obtain ⟨defaultTip, -, hselect⟩ :=
      selectBranches_numbered (hnumbered discovery List.mem_cons_self) prior
    obtain ⟨state, hfold, hhighest⟩ := @ih _ ⟨observedAfter discovery prior⟩
      (observedAfter_highest h discovery) (fun d hd => hnumbered d (List.mem_cons_of_mem _ hd))
    refine ⟨state, ?_, ?_⟩
    · rw [List.foldlM_cons, observeDiscovery, hselect]
      exact hfold
    · rw [List.append_assoc, List.singleton_append] at hhighest
      exact hhighest

theorem mem_releases {discovery : BranchDiscovery} {b : SelectedBranch} :
    b ∈ releasesOf discovery.branches.entries ↔
      discovery.branches.get? b.branch = some b.tip ∧
        ∃ n : ℕ, n < 2 ^ 53 ∧ b.branch = releaseName n ∧ b.major = n := by
  rw [mem_releasesOf, releaseMajor_eq_some, OrderedMap.get?_eq_some]

theorem releases_majors_nodup (discovery : BranchDiscovery) :
    ((releasesOf discovery.branches.entries).map SelectedBranch.major).Nodup := by
  have hmajors : (releasesOf discovery.branches.entries).map SelectedBranch.major
      = (discovery.branches.entries.map Prod.fst).filterMap releaseMajor := by
    rw [releasesOf, List.map_filterMap, List.filterMap_map]
    congr 1
    funext entry
    cases hm : releaseMajor entry.1 with
    | none => simp [hm]
    | some major => simp [hm]
  rw [hmajors]
  apply discovery.branches.nodup.filterMap
  intro a b major ha hb
  obtain ⟨m, -, rfl, hm⟩ := releaseMajor_eq_some.1 ha
  obtain ⟨n, -, rfl, hn⟩ := releaseMajor_eq_some.1 hb
  have hmn : m = n := by omega
  rw [hmn]

theorem furtherBranches_cases (discovery : BranchDiscovery) (defaultTip : CommitTip)
    (observed : Option ℤ) :
    ((∃ r ∈ releasesOf discovery.branches.entries, r.tip.sha = defaultTip.sha) ∧
      furtherBranches discovery defaultTip observed = []) ∨
    ((∀ r ∈ releasesOf discovery.branches.entries, r.tip.sha ≠ defaultTip.sha) ∧
      furtherBranches discovery defaultTip observed
        = [⟨discovery.defaultBranch, defaultMajor observed, defaultTip⟩]) := by
  unfold furtherBranches
  split
  · rename_i h
    exact .inl ⟨h, rfl⟩
  · rename_i h
    push Not at h
    exact .inr ⟨h, rfl⟩

theorem defaultMajor_above {majors : Set ℤ} {observed : Option ℤ} (h : Highest majors observed)
    (hrange : ∀ m ∈ majors, 0 ≤ m ∧ m < 2 ^ 53) :
    (∀ m ∈ majors, m < defaultMajor observed) ∧ (majors = ∅ → defaultMajor observed = 0) := by
  cases observed with
  | none =>
    rw [show majors = ∅ from h]
    exact ⟨fun m hm => absurd hm (Set.notMem_empty m), fun _ => rfl⟩
  | some highest =>
    have hmem := hrange highest h.1
    have hadd : defaultMajor (some highest) = highest + 1 :=
      Doubles.add_one_of_lt highest (by omega) hmem.2
    rw [hadd]
    constructor
    · intro m hm
      have := h.2 hm
      omega
    · intro hempty
      have hmajor := h.1
      rw [hempty] at hmajor
      exact absurd hmajor (Set.notMem_empty _)

/-- The default branch is counted above every major that the mark stands for, those of
    the discovered releases among them. -/
theorem selection_distinct {majors : Set ℤ} {observed : Option ℤ} (h : Highest majors observed)
    (hrange : ∀ m ∈ majors, 0 ≤ m ∧ m < 2 ^ 53) {discovery : BranchDiscovery}
    (hreleased : ∀ r ∈ releasesOf discovery.branches.entries, r.major ∈ majors)
    (defaultTip : CommitTip) :
    ((releasesOf discovery.branches.entries ++
      furtherBranches discovery defaultTip observed).map SelectedBranch.major).Nodup := by
  have hreleases := releases_majors_nodup discovery
  rcases furtherBranches_cases discovery defaultTip observed with ⟨-, he⟩ | ⟨-, he⟩
  · rw [he, List.append_nil]
    exact hreleases
  · rw [he, List.map_append, List.map_singleton]
    apply hreleases.append (List.nodup_singleton _)
    rw [List.disjoint_singleton]
    intro hm
    obtain ⟨r, hr, hmajor⟩ := List.mem_map.1 hm
    have habove := (defaultMajor_above h hrange).1 r.major (hreleased r hr)
    exact absurd hmajor habove.ne

/-- What a selection holds, given the discoveries before it. -/
structure BranchMajors (seen : List BranchDiscovery) (prior : BranchState)
    (discovery : BranchDiscovery) (selection : BranchSelection) : Prop where
  highest : Highest (releasedMajors (seen ++ [discovery])) selection.state.highestObservedReleaseMajor
  rises : ∀ m, prior.highestObservedReleaseMajor = some m →
    ∃ n, selection.state.highestObservedReleaseMajor = some n ∧ m ≤ n
  distinct : (selection.branches.map SelectedBranch.major).Nodup
  release : ∀ (n : ℕ) (tip : CommitTip), n < 2 ^ 53 →
    discovery.branches.get? (releaseName n) = some tip →
    (selection.branches.filter fun b => b.branch = releaseName n) = [⟨releaseName n, n, tip⟩]
  further : ∃ releases further, selection.branches = releases ++ further ∧
    (∀ b ∈ releases, ∃ n : ℕ, n < 2 ^ 53 ∧ b.branch = releaseName n) ∧
    further.length ≤ 1 ∧
    (∀ b ∈ further, b.branch = discovery.defaultBranch ∧
      discovery.branches.get? discovery.defaultBranch = some b.tip ∧
      (∀ m ∈ releasedMajors (seen ++ [discovery]), m < b.major) ∧
      (releasedMajors (seen ++ [discovery]) = ∅ → b.major = 0)) ∧
    (further ≠ [] ↔ ∀ (n : ℕ) (tip defaultTip : CommitTip), n < 2 ^ 53 →
      discovery.branches.get? (releaseName n) = some tip →
      discovery.branches.get? discovery.defaultBranch = some defaultTip → tip.sha ≠ defaultTip.sha)

theorem selection_release {discovery : BranchDiscovery} {defaultTip : CommitTip}
    (htip : discovery.branches.get? discovery.defaultBranch = some defaultTip)
    {observed : Option ℤ} {n : ℕ} {tip : CommitTip} (hn : n < 2 ^ 53)
    (hget : discovery.branches.get? (releaseName n) = some tip)
    (hdistinct : ((releasesOf discovery.branches.entries ++
      furtherBranches discovery defaultTip observed).map SelectedBranch.major).Nodup) :
    ((releasesOf discovery.branches.entries ++ furtherBranches discovery defaultTip observed).filter
      fun b => b.branch = releaseName n) = [⟨releaseName n, n, tip⟩] := by
  have hmem : (⟨releaseName n, n, tip⟩ : SelectedBranch) ∈ releasesOf discovery.branches.entries :=
    mem_releases.2 ⟨hget, n, hn, rfl, rfl⟩
  have honly : ∀ b ∈ releasesOf discovery.branches.entries ++
      furtherBranches discovery defaultTip observed, b.branch = releaseName n →
      b = ⟨releaseName n, n, tip⟩ := by
    intro b hb hname
    rcases List.mem_append.1 hb with hb | hb
    · obtain ⟨hgetb, k, -, hname', hmajor⟩ := mem_releases.1 hb
      obtain ⟨branch, major, btip⟩ := b
      dsimp only at hgetb hname hname' hmajor
      subst hname
      obtain rfl := releaseName_inj hname'
      rw [hget] at hgetb
      obtain rfl := Option.some.inj hgetb
      rw [hmajor]
    · exfalso
      rcases furtherBranches_cases discovery defaultTip observed with ⟨-, he⟩ | ⟨hnone, he⟩
      · rw [he] at hb
        cases hb
      · rw [he, List.mem_singleton] at hb
        subst hb
        dsimp only at hname
        rw [hname, hget] at htip
        obtain rfl := Option.some.inj htip
        exact hnone _ hmem rfl
  have hnodup := hdistinct.of_map.filter fun b => decide (b.branch = releaseName n)
  rw [← List.perm_singleton, List.perm_ext_iff_of_nodup hnodup (List.nodup_singleton _)]
  intro b
  rw [List.mem_filter, List.mem_singleton, decide_eq_true_eq]
  constructor
  · rintro ⟨hb, hname⟩
    exact honly b hb hname
  · rintro rfl
    exact ⟨List.mem_append_left _ hmem, rfl⟩

theorem selection_further {majors : Set ℤ} {observed : Option ℤ} (h : Highest majors observed)
    (hrange : ∀ m ∈ majors, 0 ≤ m ∧ m < 2 ^ 53) {discovery : BranchDiscovery}
    {defaultTip : CommitTip}
    (htip : discovery.branches.get? discovery.defaultBranch = some defaultTip) :
    (furtherBranches discovery defaultTip observed).length ≤ 1 ∧
    (∀ b ∈ furtherBranches discovery defaultTip observed, b.branch = discovery.defaultBranch ∧
      discovery.branches.get? discovery.defaultBranch = some b.tip ∧
      (∀ m ∈ majors, m < b.major) ∧ (majors = ∅ → b.major = 0)) ∧
    (furtherBranches discovery defaultTip observed ≠ [] ↔
      ∀ (n : ℕ) (tip tip' : CommitTip), n < 2 ^ 53 →
        discovery.branches.get? (releaseName n) = some tip →
        discovery.branches.get? discovery.defaultBranch = some tip' → tip.sha ≠ tip'.sha) := by
  have habove := defaultMajor_above h hrange
  rcases furtherBranches_cases discovery defaultTip observed with ⟨⟨r, hr, hsha⟩, he⟩ | ⟨hnone, he⟩
  · rw [he]
    refine ⟨Nat.zero_le _, fun b hb => absurd hb List.not_mem_nil, ?_⟩
    obtain ⟨hget, n, hn, hname, -⟩ := mem_releases.1 hr
    constructor
    · intro hne
      exact absurd rfl hne
    · intro hall
      exact absurd hsha (hall n r.tip defaultTip hn (hname ▸ hget) htip)
  · rw [he]
    refine ⟨le_refl 1, ?_, ?_⟩
    · intro b hb
      obtain rfl := List.mem_singleton.1 hb
      exact ⟨rfl, htip, habove⟩
    · refine ⟨fun _ => ?_, fun _ => List.cons_ne_nil _ _⟩
      intro n tip tip' hn hget htip'
      rw [htip] at htip'
      obtain rfl := Option.some.inj htip'
      exact hnone ⟨releaseName n, n, tip⟩ (mem_releases.2 ⟨hget, n, hn, rfl, rfl⟩)

/-- Over every history the mark is the highest release major seen, and a selection
    holds each release once and the default branch above all of them. -/
theorem branchMajors (seen : List BranchDiscovery) (discovery : BranchDiscovery)
    (h : ∀ d ∈ seen ++ [discovery], Numbered d) :
    ∃ prior selection, seen.foldlM observeDiscovery ⟨none⟩ = .ok prior ∧
      selectBranches discovery prior = .ok selection ∧
      BranchMajors seen prior discovery selection := by
  have hempty : Highest (releasedMajors []) none := by
    simp [Highest, releasedMajors]
  obtain ⟨prior, hfold, hprior⟩ := @observe_highest [] ⟨none⟩ hempty seen
    (fun d hd => h d (List.mem_append_left _ hd))
  rw [List.nil_append] at hprior
  obtain ⟨defaultTip, htip, hselect⟩ :=
    selectBranches_numbered (h discovery (List.mem_append_right _ List.mem_cons_self)) prior
  have hafter := observedAfter_highest hprior discovery
  have hrange : ∀ m ∈ releasedMajors (seen ++ [discovery]), 0 ≤ m ∧ m < 2 ^ 53 := by
    intro m hm
    have := releasedMajors_lt h hm
    omega
  have hreleased : ∀ r ∈ releasesOf discovery.branches.entries,
      r.major ∈ releasedMajors (seen ++ [discovery]) := by
    intro r hr
    obtain ⟨hget, n, hn, hname, hmajor⟩ := mem_releases.1 hr
    exact ⟨discovery, List.mem_append_right _ List.mem_cons_self, n, hn,
      (OrderedMap.has_eq_true _ _).2 ⟨r.tip, hname ▸ hget⟩, hmajor⟩
  have hdistinct := selection_distinct hafter hrange hreleased defaultTip
  refine ⟨prior, _, hfold, hselect, hafter, ?_, hdistinct, ?_, ?_⟩
  · intro m hm
    rw [hm] at hprior
    have hmem : m ∈ releasedMajors (seen ++ [discovery]) := by
      rw [releasedMajors_append]
      exact Set.mem_union_left _ hprior.1
    cases ho : observedAfter discovery prior with
    | none =>
      rw [ho] at hafter
      rw [show releasedMajors (seen ++ [discovery]) = ∅ from hafter] at hmem
      exact absurd hmem (Set.notMem_empty m)
    | some n =>
      rw [ho] at hafter
      exact ⟨n, rfl, hafter.2 hmem⟩
  · intro n tip hn hget
    exact selection_release htip hn hget hdistinct
  · refine ⟨_, _, rfl, ?_, ?_⟩
    · intro b hb
      obtain ⟨-, n, hn, hname, -⟩ := mem_releases.1 hb
      exact ⟨n, hn, hname⟩
    · exact selection_further hafter hrange htip

/-- A release branch at the default branch's commit, then its deletion. -/
def deletedRelease : List BranchDiscovery :=
  [⟨"main".toList, ((OrderedMap.empty.set "main".toList ⟨"same".toList, 7⟩).set "v2".toList
      ⟨"same".toList, 7⟩).set "junk".toList ⟨"x".toList, 7⟩⟩]

theorem branchMajors_deletedRelease :
    ∃ prior selection, deletedRelease.foldlM observeDiscovery ⟨none⟩ = .ok prior ∧
      selectBranches ⟨"main".toList, OrderedMap.empty.set "main".toList ⟨"next".toList, 8⟩⟩ prior
        = .ok selection ∧
      BranchMajors deletedRelease prior
        ⟨"main".toList, OrderedMap.empty.set "main".toList ⟨"next".toList, 8⟩⟩ selection := by
  apply branchMajors
  intro d hd
  rcases List.mem_cons.1 hd with rfl | hd
  · exact numbered_of (by decide) (by decide +kernel)
  · rw [List.mem_singleton.1 hd]
    exact numbered_of (by decide) (by decide +kernel)

end Branches
end JsrProxy
