import JsrProxy.SnapshotTexts
import JsrProxy.StableSorting
import JsrProxy.VersionAllocationRuns

set_option autoImplicit false

/-!
# Persisted registries

A registry rebuilt from its stored text answers every later call as the live one
would. The maps of the two allocators are filled in different orders, so they are
compared key by key, and in the order of the assignments of each version, which
is all that a snapshot shows of the order.
-/
namespace JsrProxy
open Branches Executions StableSorting

namespace MajorAllocations

/-- The same contents, and the assignments of each version in the same order. -/
structure Alike (a b : MajorAllocations) : Prop where
  same : a.Same b
  order : ∀ v, keyed VersionAssignment.version v a.assignments.values
    = keyed VersionAssignment.version v b.assignments.values

/-- A commit has had no more attempts than its sequence counts, also at `2^53`. -/
def Counted (a : MajorAllocations) : Prop :=
  ∀ k x, a.assignments.get? k = some x → x.attempt ≤ x.sequence

variable {a b : MajorAllocations} {major committedAt attempt : ℤ} {commitSha : Str}

theorem Alike.nextSequence (h : a.Alike b) (committedAt : ℤ) :
    VersionAllocator.nextSequence a committedAt = VersionAllocator.nextSequence b committedAt := by
  rw [VersionAllocator.nextSequence, VersionAllocator.nextSequence, h.same.highWater]

theorem Alike.append (h : a.Alike b)
    (hplace : a.assignments.get? (VersionAllocator.key commitSha attempt) = none ∨
      a.assignments.get? (VersionAllocator.key commitSha attempt)
        = some (VersionAllocator.append a major commitSha committedAt attempt).1) :
    (VersionAllocator.append a major commitSha committedAt attempt).1
        = (VersionAllocator.append b major commitSha committedAt attempt).1 ∧
      (VersionAllocator.append a major commitSha committedAt attempt).2.Alike
        (VersionAllocator.append b major commitSha committedAt attempt).2 := by
  have hsequence := h.nextSequence committedAt
  have hassignment : (VersionAllocator.append a major commitSha committedAt attempt).1
      = (VersionAllocator.append b major commitSha committedAt attempt).1 := by
    simp only [VersionAllocator.append, hsequence]
  refine ⟨hassignment, ⟨hsequence, ?_, ?_⟩, ?_⟩
  · intro k
    simp only [VersionAllocator.append, OrderedMap.get?_set, hsequence, h.same.assignments]
  · intro c
    simp only [VersionAllocator.append, OrderedMap.get?_set, h.same.currentAttempts]
  · intro v
    change keyed _ v (a.assignments.set _
      (VersionAllocator.append a major commitSha committedAt attempt).1).values
      = keyed _ v (b.assignments.set _
        (VersionAllocator.append b major commitSha committedAt attempt).1).values
    rcases hplace with hnone | hsome
    · have hnone' := (h.same.assignments _).symm.trans hnone
      rw [OrderedMap.values_set_new _ _ hnone, OrderedMap.values_set_new _ _ hnone', keyed_append,
        keyed_append, h.order, hassignment]
    · have hsome' := (h.same.assignments _).symm.trans hsome
      rw [OrderedMap.set_of_get? _ hsome, ← hassignment, OrderedMap.set_of_get? _ hsome', h.order]

theorem Counted.append (h : a.Counted)
    (hattempt : attempt ≤ VersionAllocator.nextSequence a committedAt) :
    (VersionAllocator.append a major commitSha committedAt attempt).2.Counted := by
  intro k x hx
  simp only [VersionAllocator.append, OrderedMap.get?_set] at hx
  split_ifs at hx
  · obtain rfl := Option.some.inj hx
    exact hattempt
  · exact h k x hx

theorem Coherent.values_keys (h : a.Coherent major) :
    a.assignments.values.map (fun x => VersionAllocator.key x.commitSha x.attempt)
      = a.assignments.entries.map Prod.fst := by
  rw [OrderedMap.values, List.map_map]
  apply List.map_congr_left
  intro e he
  exact (h.filed e.1 e.2 ((OrderedMap.get?_eq_some _ _ _).2 he)).symm

theorem Coherent.values_nodup (h : a.Coherent major) : a.assignments.values.Nodup :=
  List.Nodup.of_map _ (h.values_keys ▸ a.assignments.nodup)

theorem Coherent.alike (ha : a.Coherent major) (hb : b.Coherent major) (h : a.Same b)
    (hversion : ∀ k l x y, a.assignments.get? k = some x → a.assignments.get? l = some y →
      x.version = y.version → x = y) : a.Alike b := by
  refine ⟨h, fun v => ?_⟩
  have hmem : ∀ x, x ∈ a.assignments.values ↔ x ∈ b.assignments.values := by
    intro x
    simp only [OrderedMap.mem_values, h.assignments]
  apply @List.Perm.eq_of_pairwise _ fun _ _ => True
  · intro x y hx hy _ _
    obtain ⟨hx, hxv⟩ := mem_keyed.1 hx
    obtain ⟨hy, hyv⟩ := mem_keyed.1 hy
    obtain ⟨k, hk⟩ := (OrderedMap.mem_values _ _).1 hx
    obtain ⟨l, hl⟩ := (OrderedMap.mem_values _ _).1 ((hmem y).2 hy)
    exact hversion k l x y hk hl (hxv.trans hyv.symm)
  · exact List.pairwise_of_forall fun _ _ => trivial
  · exact List.pairwise_of_forall fun _ _ => trivial
  · apply (List.perm_ext_iff_of_nodup (ha.values_nodup.filter _) (hb.values_nodup.filter _)).2
    intro x
    exact (mem_keyed.trans (and_congr_left fun _ => hmem x)).trans mem_keyed.symm

end MajorAllocations

namespace VersionAllocator

/-- Two allocators that no later call tells apart. -/
structure Twins (a b : VersionAllocator) : Prop where
  coherent : a.Coherent
  coherent' : b.Coherent
  counted : ∀ m, (a.forMajor m).Counted
  alike : ∀ m, (a.forMajor m).Alike (b.forMajor m)

variable {a b : VersionAllocator}

theorem Twins.setMajor (h : a.Twins b) {major : ℤ} {x y : MajorAllocations} (hx : x.Coherent major)
    (hy : y.Coherent major) (hcounted : x.Counted) (halike : x.Alike y) :
    (a.setMajor major x).Twins (b.setMajor major y) where
  coherent := h.coherent.setMajor hx
  coherent' := h.coherent'.setMajor hy
  counted m := by
    rw [forMajor_setMajor]
    split_ifs
    · exact hcounted
    · exact h.counted m
  alike m := by
    rw [forMajor_setMajor, forMajor_setMajor]
    split_ifs
    · exact halike
    · exact h.alike m

theorem Twins.touch (h : a.Twins b) (major : ℤ) :
    (a.setMajor major (a.forMajor major)).Twins (b.setMajor major (b.forMajor major)) :=
  h.setMajor (h.coherent major) (h.coherent' major) (h.counted major) (h.alike major)

theorem keyed_issued (h : a.Coherent) (major sequence : ℤ) :
    keyed VersionAssignment.version (versionString major sequence)
        (a.majors.values.flatMap fun allocations => allocations.assignments.values)
      = keyed VersionAssignment.version (versionString major sequence)
        (a.forMajor major).assignments.values := by
  rw [keyed_flatMap, OrderedMap.flatMap_values a.majors _ major]
  · rw [forMajor]
    cases a.majors.get? major <;> rfl
  · intro m allocations hm hne
    rw [List.eq_nil_iff_forall_not_mem]
    intro x hx
    obtain ⟨hx, hversion⟩ := mem_keyed.1 hx
    obtain ⟨k, hk⟩ := (OrderedMap.mem_values _ _).1 hx
    have hcoherent := h m
    rw [forMajor, hm] at hcoherent
    have hnamed := (hcoherent.ofMajor k x hk).2.1
    rw [hversion] at hnamed
    exact hne (versionString_inj hnamed).1.symm

theorem keyed_unnamed (h : a.Coherent) {v : Str} (hv : ∀ major sequence, versionString major sequence ≠ v) :
    keyed VersionAssignment.version v
      (a.majors.values.flatMap fun allocations => allocations.assignments.values) = [] := by
  rw [List.eq_nil_iff_forall_not_mem]
  intro x hx
  obtain ⟨hx, hversion⟩ := mem_keyed.1 hx
  obtain ⟨allocations, ha, hx⟩ := List.mem_flatMap.1 hx
  obtain ⟨m, hm⟩ := (OrderedMap.mem_values _ _).1 ha
  obtain ⟨k, hk⟩ := (OrderedMap.mem_values _ _).1 hx
  have hcoherent := h m
  rw [forMajor, hm] at hcoherent
  exact hv m x.sequence ((hcoherent.ofMajor k x hk).2.1.symm.trans hversion)

theorem Twins.snapshot (h : a.Twins b) : a.snapshot = b.snapshot := by
  have hkeyed : ∀ v, keyed VersionAssignment.version v
        (a.majors.values.flatMap fun allocations => allocations.assignments.values)
      = keyed VersionAssignment.version v
        (b.majors.values.flatMap fun allocations => allocations.assignments.values) := by
    intro v
    by_cases hv : ∃ major sequence, versionString major sequence = v
    · obtain ⟨major, sequence, rfl⟩ := hv
      rw [keyed_issued h.coherent, keyed_issued h.coherent', (h.alike major).order]
    · have hunnamed : ∀ major sequence, versionString major sequence ≠ v :=
        fun major sequence he => hv ⟨major, sequence, he⟩
      rw [keyed_unnamed h.coherent hunnamed, keyed_unnamed h.coherent' hunnamed]
  rw [VersionAllocator.snapshot, VersionAllocator.snapshot,
    insertionSort_eq localeLe_total (fun _ _ _ => localeLe_trans) (fun _ _ => localeLe_antisymm) hkeyed]

theorem Twins.append (h : a.Twins b) {major committedAt attempt : ℤ} {commitSha : Str}
    (hv : validateInputs major commitSha committedAt = .ok ()) (hn : 0 ≤ attempt ∧ attempt ≤ 2 ^ 53)
    (hcurrent : ∀ n, (a.forMajor major).currentAttempts.get? commitSha = some n → n ≤ attempt)
    (hattempt : attempt ≤ nextSequence (a.forMajor major) committedAt)
    (hplace : (a.forMajor major).assignments.get? (key commitSha attempt) = none ∨
      (a.forMajor major).assignments.get? (key commitSha attempt)
        = some (VersionAllocator.append (a.forMajor major) major commitSha committedAt attempt).1) :
    (VersionAllocator.append (a.forMajor major) major commitSha committedAt attempt).1
        = (VersionAllocator.append (b.forMajor major) major commitSha committedAt attempt).1 ∧
      (a.setMajor major
          (VersionAllocator.append (a.forMajor major) major commitSha committedAt attempt).2).Twins
        (b.setMajor major
          (VersionAllocator.append (b.forMajor major) major commitSha committedAt attempt).2) := by
  obtain ⟨hassignment, halike⟩ := @MajorAllocations.Alike.append _ _ major committedAt _ _
    (h.alike major) hplace
  refine ⟨hassignment, h.setMajor ?_ ?_ ((h.counted major).append hattempt) halike⟩
  · exact (h.coherent major).append hv hn hcurrent
  · apply (h.coherent' major).append hv hn
    intro n hc
    exact hcurrent n (((h.alike major).same.currentAttempts commitSha).trans hc)

/-- The attempt after the current one has no assignment yet, or is `2^53` and has the
    one it would get again. -/
theorem next_place (ha : a.Coherent) {major committedAt n : ℤ} {commitSha : Str}
    (hcounted : (a.forMajor major).Counted)
    (hv : validateInputs major commitSha committedAt = .ok ())
    (hc : (a.forMajor major).currentAttempts.get? commitSha = some n) :
    Doubles.add n 1 ≤ nextSequence (a.forMajor major) committedAt ∧
      ((a.forMajor major).assignments.get? (key commitSha (Doubles.add n 1)) = none ∨
        (a.forMajor major).assignments.get? (key commitSha (Doubles.add n 1))
          = some (VersionAllocator.append (a.forMajor major) major commitSha committedAt
            (Doubles.add n 1)).1) := by
  obtain ⟨-, -, hts, htb⟩ := validateInputs_ok.1 hv
  obtain ⟨x, hx⟩ := (ha major).current commitSha n hc
  obtain ⟨hsha, hatt⟩ := (ha major).filed_at hx
  have hle := hcounted _ x hx
  have hbelow := ((ha major).below _ x hx).2
  have hbound := (ha major).bounded
  have hrange := (ha major).current_range hc
  obtain ⟨-, -, hup, -, hstrict⟩ := (ha major).nextSequence_spec hts htb
  by_cases hn : n = 2 ^ 53
  · have hmark : (a.forMajor major).highWater = 2 ^ 53 := by omega
    have hnext := MajorAllocations.Coherent.nextSequence_saturated htb hmark
    have hadd : Doubles.add n 1 = n := by rw [hn, Doubles.add_one_saturates]
    rw [hadd, hnext]
    refine ⟨hrange.2, .inr ?_⟩
    rw [hx]
    obtain ⟨hm, hversion, -⟩ := (ha major).ofMajor _ x hx
    have hseq : x.sequence = 2 ^ 53 := by omega
    obtain ⟨xmajor, xsequence, xattempt, xsha, xversion⟩ := x
    simp only at hsha hatt hm hversion hseq
    simp only [VersionAllocator.append, hnext, hsha, hatt, hm, hversion, hseq]
  · have hadd : Doubles.add n 1 = n + 1 := Doubles.add_one_of_lt n (by omega) (by omega)
    rw [hadd]
    constructor
    · by_cases hmark : (a.forMajor major).highWater < 2 ^ 53
      · have := hstrict hmark
        omega
      · omega
    · left
      apply append_fresh ha
      intro m hm
      have : m = n := Option.some.inj (hm.symm.trans hc)
      omega

theorem Twins.allocate (h : a.Twins b) (major : ℤ) (commitSha : Str) (committedAt : ℤ) :
    (a.allocate major commitSha committedAt).1 = (b.allocate major commitSha committedAt).1 ∧
      (a.allocate major commitSha committedAt).2.Twins (b.allocate major commitSha committedAt).2 := by
  have hsame := (h.alike major).same
  unfold VersionAllocator.allocate
  cases hv : validateInputs major commitSha committedAt with
  | error message => exact ⟨rfl, h⟩
  | ok u =>
    dsimp only
    rw [← hsame.currentAttempts]
    cases hc : (a.forMajor major).currentAttempts.get? commitSha with
    | some n =>
      dsimp only
      rw [← hsame.assignments]
      cases (a.forMajor major).assignments.get? (key commitSha n) <;> exact ⟨rfl, h.touch major⟩
    | none =>
      obtain ⟨-, -, hts, htb⟩ := validateInputs_ok.1 hv
      have hnone : ∀ n, (a.forMajor major).currentAttempts.get? commitSha ≠ some n := by
        intro n hn
        rw [hc] at hn
        cases hn
      have hfresh : (a.forMajor major).assignments.get? (key commitSha 0) = none :=
        append_fresh h.coherent fun n hn => absurd hn (hnone n)
      obtain ⟨hassignment, htwins⟩ := h.append hv (by omega) (fun n hn => absurd hn (hnone n))
        ((h.coherent major).nextSequence_spec hts htb).1 (.inl hfresh)
      exact ⟨congrArg Except.ok hassignment, htwins⟩

theorem Twins.recover (h : a.Twins b) (major : ℤ) (commitSha : Str) (committedAt : ℤ) :
    (a.recover major commitSha committedAt).1 = (b.recover major commitSha committedAt).1 ∧
      (a.recover major commitSha committedAt).2.Twins (b.recover major commitSha committedAt).2 := by
  have hsame := (h.alike major).same
  unfold VersionAllocator.recover
  cases hv : validateInputs major commitSha committedAt with
  | error message => exact ⟨rfl, h⟩
  | ok u =>
    dsimp only
    rw [← hsame.currentAttempts]
    cases hc : (a.forMajor major).currentAttempts.get? commitSha with
    | none => exact ⟨rfl, h.touch major⟩
    | some n =>
      obtain ⟨hle, hrange⟩ := le_add_one ((h.coherent major).current_range hc)
      obtain ⟨hattempt, hplace⟩ := next_place h.coherent (h.counted major) hv hc
      obtain ⟨hassignment, htwins⟩ := h.append hv hrange
        (fun m hm => (Option.some.inj (hm.symm.trans hc)).le.trans hle) hattempt hplace
      exact ⟨congrArg Except.ok hassignment, htwins⟩

theorem restore_loads {allocator : VersionAllocator} {x : VersionAssignment}
    (hv : validateInputs x.major x.commitSha x.sequence = .ok ())
    (hn : 0 ≤ x.attempt ∧ x.attempt < 2 ^ 53) (hversion : x.version = versionString x.major x.sequence)
    (hfree : (allocator.forMajor x.major).assignments.get? (key x.commitSha x.attempt) = none) :
    ∃ result, restore allocator x = .ok result := by
  have hsafe : Doubles.isSafeInteger x.attempt = true := by
    apply (Doubles.isSafeInteger_iff _).2
    have hmax : Doubles.maxSafeInteger = 2 ^ 53 - 1 := rfl
    omega
  have hattempt : (!Doubles.isSafeInteger x.attempt || decide (x.attempt < 0)) = false := by
    rw [hsafe, decide_eq_false (by omega)]
    rfl
  have hhas : (allocator.forMajor x.major).assignments.has (key x.commitSha x.attempt) = false := by
    rw [OrderedMap.has, hfree]
    rfl
  refine ⟨allocator.setMajor x.major (restored (allocator.forMajor x.major) x), ?_⟩
  simp only [restore, hv, hattempt, hversion, hhas, ne_eq, not_true_eq_false, if_false,
    Bool.false_eq_true]

def place (x : VersionAssignment) : ℤ × Str := (x.major, key x.commitSha x.attempt)

theorem restoreAll_loads {read rest : List VersionAssignment} {allocator : VersionAllocator}
    (h : Reads read allocator)
    (hvalid : ∀ x ∈ rest, validateInputs x.major x.commitSha x.sequence = .ok () ∧
      (0 ≤ x.attempt ∧ x.attempt < 2 ^ 53) ∧ x.version = versionString x.major x.sequence)
    (hnodup : ((read ++ rest).map place).Nodup) : ∃ result, restoreAll allocator rest = .ok result := by
  induction rest generalizing read allocator with
  | nil => exact ⟨allocator, rfl⟩
  | cons x rest ih =>
    obtain ⟨hv, hn, hversion⟩ := hvalid x List.mem_cons_self
    have hfree : (allocator.forMajor x.major).assignments.get? (key x.commitSha x.attempt) = none := by
      cases hg : (allocator.forMajor x.major).assignments.get? (key x.commitSha x.attempt) with
      | none => rfl
      | some y =>
        obtain ⟨hy, hmajor, hkey⟩ := (h.content _ _ y).1 hg
        have hplace : place y = place x := by rw [place, place, hmajor, hkey]
        rw [List.map_append, List.nodup_append] at hnodup
        exact absurd hplace (hnodup.2.2 _ (List.mem_map_of_mem hy) _
          (List.mem_map_of_mem List.mem_cons_self))
    obtain ⟨next, hnext⟩ := @restore_loads allocator x hv hn hversion hfree
    have hreads := reads_restore h hnext
    rw [restoreAll, hnext]
    apply ih hreads
    · exact fun y hy => hvalid y (List.mem_cons_of_mem _ hy)
    · rwa [List.append_assoc, List.singleton_append]

theorem snapshot_places (h : a.Coherent) : (a.snapshot.assignments.map place).Nodup := by
  have hperm := List.perm_insertionSort
    (fun left right : VersionAssignment => localeLe left.version right.version = true)
    (a.majors.values.flatMap fun allocations => allocations.assignments.values)
  have hplaces : ∀ m allocations, a.majors.get? m = some allocations →
      allocations.assignments.values.map place
        = (allocations.assignments.entries.map Prod.fst).map (Prod.mk m) := by
    intro m allocations hm
    have hcoherent := h m
    rw [forMajor, hm] at hcoherent
    rw [OrderedMap.values, List.map_map, List.map_map]
    apply List.map_congr_left
    intro e he
    have hget := (OrderedMap.get?_eq_some _ _ _).2 he
    exact congrArg₂ Prod.mk (hcoherent.ofMajor e.1 e.2 hget).1 (hcoherent.filed e.1 e.2 hget).symm
  apply (hperm.map place).nodup_iff.2
  rw [List.map_flatMap, OrderedMap.values, List.flatMap_map, List.nodup_flatMap]
  constructor
  · intro e he
    rw [hplaces e.1 e.2 ((OrderedMap.get?_eq_some _ _ _).2 he)]
    exact e.2.assignments.nodup.map fun _ _ hk => (Prod.mk.inj hk).2
  · have hmajors := List.pairwise_map.1 a.majors.nodup
    apply hmajors.imp_of_mem
    intro d e hd he hne
    rw [Function.onFun, hplaces d.1 d.2 ((OrderedMap.get?_eq_some _ _ _).2 hd),
      hplaces e.1 e.2 ((OrderedMap.get?_eq_some _ _ _).2 he), List.disjoint_left]
    intro p hp hq
    obtain ⟨k, -, rfl⟩ := List.mem_map.1 hp
    obtain ⟨l, -, hl⟩ := List.mem_map.1 hq
    exact hne (Prod.mk.inj hl).1.symm

theorem fromSnapshot_loads (h : a.Exact) (hr : a.InRange) :
    ∃ result, fromSnapshot a.snapshot = .ok result := by
  apply restoreAll_loads reads_new
  · intro x hx
    have hget := (held_iff h.coherent x).1 hx
    have hcoherent := h.coherent x.major
    obtain ⟨-, hversion, hsha⟩ := hcoherent.ofMajor _ x hget
    have hmajor := hcoherent.majorRange _ x hget
    have hbelow := hcoherent.below _ x hget
    have hattempt := hcoherent.attemptRange _ x hget
    have hle := h.attempts x hx
    have hsafe := hr x hx
    have hmax : Doubles.maxSafeInteger = 2 ^ 53 - 1 := rfl
    exact ⟨validateInputs_ok.2 ⟨hmajor, hsha, hbelow.1, by omega⟩, ⟨hattempt.1, by omega⟩, hversion⟩
  · exact snapshot_places h.coherent

end VersionAllocator

namespace PackageRegistry
open VersionAllocator

/-- Two registries that differ in their allocators, which no later call tells apart. -/
def Twins (a b : PackageRegistry) : Prop :=
  ∃ allocator, a.allocator.Twins allocator ∧ b = { a with allocator := allocator }

inductive Call
  | refresh (discovery : BranchDiscovery)
  | recoverVersion (version reason : Str) (recoveredAt : ℤ)
  | leaseNext (now : ℤ)
  | releaseLease (version : Str)
  | markReady (version : Str)
  | markYanked (version : Str) (diagnostic : TombstoneDiagnostic)
  | packageMeta
  | jobs
  | recoveries
  | snapshot

inductive Answer
  | created (jobs : List MaterializationJob)
  | replacement (job : MaterializationJob)
  | leased (job : Option MaterializationJob)
  | done
  | packageMeta (report : PackageMeta)
  | jobs (jobs : List MaterializationJob)
  | recoveries (recoveries : List RecoveryAudit)
  | snapshot (snapshot : PackageRegistrySnapshot)

/-- What a method returns or throws, and the registry it leaves behind. -/
def call (registry : PackageRegistry) : Call → Except Str Answer × PackageRegistry
  | .refresh discovery => (registry.refresh discovery).map (·.map .created) id
  | .recoverVersion version reason recoveredAt =>
    (registry.recoverVersion version reason recoveredAt).map (·.map .replacement) id
  | .leaseNext now => (registry.leaseNext now).map (fun job => .ok (.leased job)) id
  | .releaseLease version => (registry.releaseLease version).map (·.map fun _ => .done) id
  | .markReady version => (registry.markReady version).map (·.map fun _ => .done) id
  | .markYanked version diagnostic =>
    (registry.markYanked version diagnostic).map (·.map fun _ => .done) id
  | .packageMeta => (.ok (.packageMeta registry.packageMeta), registry)
  | .jobs => (.ok (.jobs registry.jobs), registry)
  | .recoveries => (.ok (.recoveries registry.recoveries), registry)
  | .snapshot => (.ok (.snapshot registry.snapshot), registry)

def answers (registry : PackageRegistry) : List Call → List (Except Str Answer)
  | [] => []
  | c :: calls => (registry.call c).1 :: answers (registry.call c).2 calls

variable {a b : PackageRegistry}

theorem Twins.refreshBranch (h : a.Twins b) (branch : SelectedBranch) :
    (a.refreshBranch branch).1 = (b.refreshBranch branch).1 ∧
      (a.refreshBranch branch).2.Twins (b.refreshBranch branch).2 := by
  obtain ⟨allocator, hallocator, rfl⟩ := h
  obtain ⟨hresult, hnext⟩ :=
    hallocator.allocate branch.major branch.tip.sha branch.tip.committedAt
  unfold PackageRegistry.refreshBranch
  cases hlive : a.allocator.allocate branch.major branch.tip.sha branch.tip.committedAt with
  | mk result next =>
    cases hrestored : allocator.allocate branch.major branch.tip.sha branch.tip.committedAt with
    | mk result' next' =>
      rw [hlive, hrestored] at hresult hnext
      obtain rfl : result = result' := hresult
      cases result with
      | error message => exact ⟨rfl, next', hnext, rfl⟩
      | ok assignment =>
        dsimp only
        cases a.versions.get? assignment.version <;> exact ⟨rfl, next', hnext, rfl⟩

theorem Twins.refreshBranches (h : a.Twins b) (created : List MaterializationJob)
    (branches : List SelectedBranch) :
    (a.refreshBranches created branches).1 = (b.refreshBranches created branches).1 ∧
      (a.refreshBranches created branches).2.Twins (b.refreshBranches created branches).2 := by
  induction branches generalizing a b created with
  | nil => exact ⟨rfl, h⟩
  | cons branch rest ih =>
    obtain ⟨hresult, hnext⟩ := h.refreshBranch branch
    unfold PackageRegistry.refreshBranches
    cases hlive : a.refreshBranch branch with
    | mk result next =>
      cases hrestored : b.refreshBranch branch with
      | mk result' next' =>
        rw [hlive, hrestored] at hresult hnext
        obtain rfl : result = result' := hresult
        cases result with
        | error message => exact ⟨rfl, hnext⟩
        | ok job => exact ih hnext _

theorem Twins.refresh (h : a.Twins b) (discovery : BranchDiscovery) :
    (a.refresh discovery).1 = (b.refresh discovery).1 ∧
      (a.refresh discovery).2.Twins (b.refresh discovery).2 := by
  obtain ⟨allocator, hallocator, rfl⟩ := h
  unfold PackageRegistry.refresh
  dsimp only
  cases selectBranches discovery a.branches with
  | error message => exact ⟨rfl, allocator, hallocator, rfl⟩
  | ok selection =>
    exact @Twins.refreshBranches { a with branches := selection.state } _
      ⟨allocator, hallocator, rfl⟩ [] selection.branches

theorem Twins.recoverVersion (h : a.Twins b) (version reason : Str) (recoveredAt : ℤ) :
    (a.recoverVersion version reason recoveredAt).1 = (b.recoverVersion version reason recoveredAt).1 ∧
      (a.recoverVersion version reason recoveredAt).2.Twins
        (b.recoverVersion version reason recoveredAt).2 := by
  obtain ⟨allocator, hallocator, rfl⟩ := h
  unfold PackageRegistry.recoverVersion
  dsimp only
  cases a.versions.get? version with
  | none => exact ⟨rfl, allocator, hallocator, rfl⟩
  | some record =>
    dsimp only
    split_ifs
    · exact ⟨rfl, allocator, hallocator, rfl⟩
    · obtain ⟨hresult, hnext⟩ :=
        hallocator.recover record.major record.commitSha record.assignment.sequence
      cases hlive : a.allocator.recover record.major record.commitSha record.assignment.sequence with
      | mk result next =>
        cases hrestored : allocator.recover record.major record.commitSha record.assignment.sequence with
        | mk result' next' =>
          rw [hlive, hrestored] at hresult hnext
          obtain rfl : result = result' := hresult
          cases result <;> exact ⟨rfl, next', hnext, rfl⟩

theorem Twins.leaseNext (h : a.Twins b) (now : ℤ) :
    (a.leaseNext now).1 = (b.leaseNext now).1 ∧ (a.leaseNext now).2.Twins (b.leaseNext now).2 := by
  obtain ⟨allocator, hallocator, rfl⟩ := h
  have hnext : ({ a with allocator := allocator } : PackageRegistry).nextEligible now = a.nextEligible now :=
    rfl
  unfold PackageRegistry.leaseNext
  rw [hnext]
  cases a.nextEligible now <;> exact ⟨rfl, allocator, hallocator, rfl⟩

theorem Twins.releaseLease (h : a.Twins b) (version : Str) :
    (a.releaseLease version).1 = (b.releaseLease version).1 ∧
      (a.releaseLease version).2.Twins (b.releaseLease version).2 := by
  obtain ⟨allocator, hallocator, rfl⟩ := h
  unfold PackageRegistry.releaseLease
  dsimp only
  cases a.versions.get? version with
  | none => exact ⟨rfl, allocator, hallocator, rfl⟩
  | some record =>
    dsimp only
    split_ifs <;> exact ⟨rfl, allocator, hallocator, rfl⟩

theorem Twins.markReady (h : a.Twins b) (version : Str) :
    (a.markReady version).1 = (b.markReady version).1 ∧
      (a.markReady version).2.Twins (b.markReady version).2 := by
  obtain ⟨allocator, hallocator, rfl⟩ := h
  have hpending : ({ a with allocator := allocator } : PackageRegistry).requirePending version
      = a.requirePending version := rfl
  unfold PackageRegistry.markReady
  rw [hpending]
  cases a.requirePending version <;> exact ⟨rfl, allocator, hallocator, rfl⟩

theorem Twins.markYanked (h : a.Twins b) (version : Str) (diagnostic : TombstoneDiagnostic) :
    (a.markYanked version diagnostic).1 = (b.markYanked version diagnostic).1 ∧
      (a.markYanked version diagnostic).2.Twins (b.markYanked version diagnostic).2 := by
  obtain ⟨allocator, hallocator, rfl⟩ := h
  have hpending : ({ a with allocator := allocator } : PackageRegistry).requirePending version
      = a.requirePending version := rfl
  unfold PackageRegistry.markYanked
  rw [hpending]
  cases a.requirePending version <;> exact ⟨rfl, allocator, hallocator, rfl⟩

theorem Twins.snapshot (h : a.Twins b) : a.snapshot = b.snapshot := by
  obtain ⟨allocator, hallocator, rfl⟩ := h
  rw [PackageRegistry.snapshot, PackageRegistry.snapshot, hallocator.snapshot]

theorem Twins.call (h : a.Twins b) (c : Call) :
    (a.call c).1 = (b.call c).1 ∧ (a.call c).2.Twins (b.call c).2 := by
  cases c with
  | refresh discovery =>
    obtain ⟨hresult, hnext⟩ := h.refresh discovery
    exact ⟨congrArg (·.map Answer.created) hresult, hnext⟩
  | recoverVersion version reason recoveredAt =>
    obtain ⟨hresult, hnext⟩ := h.recoverVersion version reason recoveredAt
    exact ⟨congrArg (·.map Answer.replacement) hresult, hnext⟩
  | leaseNext now =>
    obtain ⟨hresult, hnext⟩ := h.leaseNext now
    exact ⟨congrArg (Except.ok ∘ Answer.leased) hresult, hnext⟩
  | releaseLease version =>
    obtain ⟨hresult, hnext⟩ := h.releaseLease version
    exact ⟨congrArg (·.map fun _ => Answer.done) hresult, hnext⟩
  | markReady version =>
    obtain ⟨hresult, hnext⟩ := h.markReady version
    exact ⟨congrArg (·.map fun _ => Answer.done) hresult, hnext⟩
  | markYanked version diagnostic =>
    obtain ⟨hresult, hnext⟩ := h.markYanked version diagnostic
    exact ⟨congrArg (·.map fun _ => Answer.done) hresult, hnext⟩
  | snapshot => exact ⟨congrArg (Except.ok ∘ Answer.snapshot) h.snapshot, h⟩
  | packageMeta =>
    obtain ⟨allocator, hallocator, rfl⟩ := h
    exact ⟨rfl, allocator, hallocator, rfl⟩
  | jobs =>
    obtain ⟨allocator, hallocator, rfl⟩ := h
    exact ⟨rfl, allocator, hallocator, rfl⟩
  | recoveries =>
    obtain ⟨allocator, hallocator, rfl⟩ := h
    exact ⟨rfl, allocator, hallocator, rfl⟩

theorem Twins.answers (h : a.Twins b) (calls : List Call) : a.answers calls = b.answers calls := by
  induction calls generalizing a b with
  | nil => rfl
  | cons c calls ih =>
    obtain ⟨hresult, hnext⟩ := h.call c
    rw [PackageRegistry.answers, PackageRegistry.answers, hresult, ih hnext]

/-- A registry in range loads as its twin. -/
theorem InStep.loads {registry : PackageRegistry} (h : registry.InStep)
    (hr : registry.allocator.InRange) :
    ∃ restored, fromSnapshot registry.snapshot = .ok restored ∧ registry.Twins restored := by
  obtain ⟨allocator, hallocator⟩ := fromSnapshot_loads h.exactly hr
  have hversions := restoreVersions_values (fun v record hv => (h.coherent.record v record hv).version)
  obtain ⟨hcoherent, hsame⟩ := fromSnapshot_same h.exactly.coherent hallocator
  refine ⟨{ registry with allocator := allocator }, ?_, allocator, ⟨h.exactly.coherent, hcoherent, ?_, ?_⟩, rfl⟩
  · rw [fromSnapshot, show VersionAllocator.fromSnapshot registry.snapshot.allocator = .ok allocator from
      hallocator, show restoreVersions .empty registry.snapshot.versions = .ok registry.versions from hversions]
    rfl
  · exact fun m k x hx => h.exactly.attempts x (held_of_get? hx)
  · intro m
    apply (h.exactly.coherent m).alike (hcoherent m) (hsame m)
    exact fun k l x y hx hy hv => h.version_inj (held_of_get? hx) (held_of_get? hy) hv

/-- The registry comes back from its stored text as one that behaves like it. -/
structure Survives (registry restored : PackageRegistry) : Prop where
  loads : (PackageRegistrySnapshot.parse registry.snapshot.stringify).map fromSnapshot = some (.ok restored)
  highWater : ∀ m, (restored.allocator.forMajor m).highWater = (registry.allocator.forMajor m).highWater
  currentAttempts : ∀ m commitSha, (restored.allocator.forMajor m).currentAttempts.get? commitSha
    = (registry.allocator.forMajor m).currentAttempts.get? commitSha
  answers : ∀ calls, restored.answers calls = registry.answers calls

/-- Every registry whose sequences are safe integers survives its storage. -/
theorem survives (name : PackageName) (ops : List Op)
    (hsafe : ∀ x ∈ (run apply (new name) ops).snapshot.allocator.assignments,
      x.sequence ≤ Doubles.maxSafeInteger) :
    ∃ restored, Survives (run apply (new name) ops) restored := by
  obtain ⟨hinStep, -⟩ := run_advances (inStep_new name) ops hsafe
  obtain ⟨restored, hloads, htwins⟩ := hinStep.loads hsafe
  refine ⟨restored, ?_, ?_, ?_, ?_⟩
  · rw [PackageRegistrySnapshot.parse_stringify, Option.map_some, hloads]
  · obtain ⟨allocator, hallocator, rfl⟩ := htwins
    exact fun m => (hallocator.alike m).same.highWater.symm
  · obtain ⟨allocator, hallocator, rfl⟩ := htwins
    exact fun m commitSha => ((hallocator.alike m).same.currentAttempts commitSha).symm
  · exact fun calls => (htwins.answers calls).symm

theorem survives_equalStampsRun :
    ∃ restored, Survives (run apply (new ⟨"acme".toList, "widget".toList⟩) equalStampsRun) restored :=
  survives _ _ (by decide)

end PackageRegistry
end JsrProxy
