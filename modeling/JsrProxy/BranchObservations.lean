import JsrProxy.TipAssignments

set_option autoImplicit false

/-!
# Late observations of a branch

Metadata requests read the tip of a branch outside the package object and deliver
what they read at some later moment, in any order. The object cannot tell a late
observation from a new tip: it gives the late commit a sequence above all others.
-/
namespace JsrProxy
open Branches Executions VersionAllocator PackageObject

/-- What one metadata request has read of the repository. -/
structure Observation where
  defaultBranch : Str
  branches : List (Str × CommitTip)
deriving DecidableEq

structure WatchedBranch where
  package : PackageName
  branch : Str
  major : ℤ

structure ObservationState where
  /-- The tips of the watched branch, in the order it reached them. -/
  tips : List CommitTip
  inFlight : List Observation
  stored : Stored

inductive ObservationEvent
  | advance (tip : CommitTip)
  | observe (observation : Observation)
  | deliver (index : ℕ)
  | lease (now : ℤ)
  | complete (version : Str) (outcome : Outcome)
  | releaseLease (version : Str)

namespace ObservationState

def start : ObservationState := ⟨[], [], none⟩

def Precedes (s : ObservationState) (earlier later : CommitTip) : Prop :=
  List.Sublist [earlier, later] s.tips

end ObservationState

namespace WatchedBranch
open ObservationState

def step (w : WatchedBranch) (s : ObservationState) : ObservationEvent → ObservationState
  | .advance tip => { s with tips := s.tips ++ [tip] }
  | .observe observation => { s with inFlight := observation :: s.inFlight }
  | .deliver index =>
    match s.inFlight[index]? with
    | none => s
    | some o => { s with
        inFlight := s.inFlight.eraseIdx index
        stored := (PackageObject.refresh s.stored w.package o.defaultBranch o.branches).2 }
  | .lease now => { s with stored := (PackageObject.lease s.stored now).2 }
  | .complete version outcome =>
    { s with stored := (PackageObject.complete s.stored version outcome).2 }
  | .releaseLease version => { s with stored := (PackageObject.releaseLease s.stored version).2 }

/-- The observation, delivered now, would select the branch and nothing else for the major. -/
def FixedMajor (w : WatchedBranch) (s : ObservationState) (o : Observation) : Prop :=
  ∀ discovery loaded selection, parseDiscovery o.defaultBranch o.branches = some discovery →
    registry s.stored (some w.package) = .ok loaded →
    selectBranches discovery loaded.branches = .ok selection →
    ∀ b ∈ selection.branches, b.major = w.major ↔ b.branch = w.branch

/-- Tips are distinct commits, requests read the current one, and the major is fixed. -/
def Allowed (w : WatchedBranch) (s : ObservationState) : ObservationEvent → Prop
  | .advance tip => tip.sha ∉ s.tips.map CommitTip.sha
  | .observe o => ∃ tip, s.tips.getLast? = some tip ∧ ∀ t, (w.branch, t) ∈ o.branches ↔ t = tip
  | .deliver index => ∀ o, s.inFlight[index]? = some o → w.FixedMajor s o
  | _ => True

def Assigned (w : WatchedBranch) (s : ObservationState) (tip : CommitTip) : Prop :=
  ∃ x ∈ assignments s.stored, x.major = w.major ∧ x.commitSha = tip.sha

/-- The object loads, and the observation selects the branch among valid branches only. -/
def Effective (w : WatchedBranch) (s : ObservationState) (o : Observation) : Prop :=
  ∃ discovery loaded selection, parseDiscovery o.defaultBranch o.branches = some discovery ∧
    registry s.stored (some w.package) = .ok loaded ∧
    selectBranches discovery loaded.branches = .ok selection ∧
    (∃ b ∈ selection.branches, b.branch = w.branch) ∧
    ∀ b ∈ selection.branches, validateInputs b.major b.tip.sha b.tip.committedAt = .ok ()

/-- No commit is first assigned after one that followed it on the branch. -/
def InOrder (w : WatchedBranch) (s : ObservationState) : ObservationEvent → Prop
  | .deliver index => ∀ o tip, s.inFlight[index]? = some o → (w.branch, tip) ∈ o.branches →
      w.Effective s o → ¬ w.Assigned s tip →
      ∀ later, s.Precedes tip later → ¬ w.Assigned s later
  | _ => True

/-- Sequences follow the order of the branch. -/
def Ordered (w : WatchedBranch) (s : ObservationState) : Prop :=
  ∀ earlier later, s.Precedes earlier later →
    ∀ x ∈ assignments s.stored, ∀ y ∈ assignments s.stored, x.major = w.major → y.major = w.major →
      x.commitSha = earlier.sha → y.commitSha = later.sha → x.sequence < y.sequence

theorem append_get? (a : MajorAllocations) {major committedAt attempt : ℤ} {commitSha k : Str}
    {x : VersionAssignment} (hfree : a.assignments.get? (key commitSha attempt) = none) :
    (append a major commitSha committedAt attempt).2.assignments.get? k = some x ↔
      a.assignments.get? k = some x ∨
        (k = key commitSha attempt ∧ x = (append a major commitSha committedAt attempt).1) := by
  simp only [append, OrderedMap.get?_set]
  split_ifs with hk
  · subst hk
    rw [hfree]
    simp [eq_comm]
  · simp [hk]

/-- What storing the pass over `branches` does to the assignments of one major. -/
structure Gains (w : WatchedBranch) (stored after : Stored) (new : VersionAssignment) : Prop where
  major : new.major = w.major
  above : ∀ y ∈ assignments stored, y.major = w.major → y.sequence < new.sequence
  content : ∀ x, x.major = w.major → (x ∈ assignments after ↔ x ∈ assignments stored ∨ x = new)

theorem mem_assignments_forMajor {registry : PackageRegistry} (h : registry.Coherent)
    (x : VersionAssignment) : x ∈ assignments (saveRegistry registry) ↔
      (registry.allocator.forMajor x.major).assignments.get? (key x.commitSha x.attempt)
        = some x := held_iff h.allocator x

theorem effective_iff {w : WatchedBranch} {s : ObservationState} {o : Observation}
    {discovery : BranchDiscovery} {loaded : PackageRegistry} {selection : BranchSelection}
    (hp : parseDiscovery o.defaultBranch o.branches = some discovery)
    (hr : registry s.stored (some w.package) = .ok loaded)
    (hs : selectBranches discovery loaded.branches = .ok selection) :
    w.Effective s o ↔ (∃ b ∈ selection.branches, b.branch = w.branch) ∧
      ∀ b ∈ selection.branches, validateInputs b.major b.tip.sha b.tip.committedAt = .ok () := by
  constructor
  · rintro ⟨discovery', loaded', selection', hp', hr', hs', hbranch, hvalid⟩
    obtain rfl := Option.some.inj (hp.symm.trans hp')
    obtain rfl := Except.ok.inj (hr.symm.trans hr')
    obtain rfl := Except.ok.inj (hs.symm.trans hs')
    exact ⟨hbranch, hvalid⟩
  · rintro ⟨hbranch, hvalid⟩
    exact ⟨discovery, loaded, selection, hp, hr, hs, hbranch, hvalid⟩

theorem held_forMajor {stored : Stored} {loaded : PackageRegistry} (h : Loaded stored loaded)
    (x : VersionAssignment) : x ∈ assignments stored ↔
      (loaded.allocator.forMajor x.major).assignments.get? (key x.commitSha x.attempt) = some x :=
  (h.held x).symm.trans (held_iff h.inStep.coherent.allocator x)

theorem gains_append {w : WatchedBranch} {stored : Stored} {loaded final : PackageRegistry}
    {tip : CommitTip} (hloaded : Loaded stored loaded)
    (hc : (loaded.allocator.forMajor w.major).currentAttempts.get? tip.sha = none)
    (hvalid : validateInputs w.major tip.sha tip.committedAt = .ok ()) (hfinal : final.Coherent)
    (hfor : final.allocator.forMajor w.major
      = (append (loaded.allocator.forMajor w.major) w.major tip.sha tip.committedAt 0).2) :
    w.Gains stored (saveRegistry final)
      (append (loaded.allocator.forMajor w.major) w.major tip.sha tip.committedAt 0).1 where
  major := rfl
  above y hy hmajor := nextSequence_above hloaded.inStep.coherent.allocator hvalid
    (hloaded.inRange.highWater hloaded.inStep.coherent.allocator w.major) y ((hloaded.held y).2 hy) hmajor
  content x hx := by
    have hfree : ∀ n, (loaded.allocator.forMajor w.major).currentAttempts.get? tip.sha = some n →
        n < 0 := by
      intro n hn
      rw [hc] at hn
      cases hn
    have hfresh := append_fresh hloaded.inStep.coherent.allocator hfree
    rw [mem_assignments_forMajor hfinal, hx, hfor, held_forMajor hloaded, hx]
    refine (append_get? _ hfresh).trans (or_congr_right ?_)
    constructor
    · exact fun hk => hk.2
    · rintro rfl
      exact ⟨rfl, rfl⟩

/-- A delivery of a commit that is new to the major assigns it above all others, and
    any other delivery leaves the assignments of the major as they are. -/
theorem refresh_assignments (w : WatchedBranch) {s : ObservationState} (h : Sound s.stored)
    {o : Observation} {tip : CommitTip} (htip : ∀ t, (w.branch, t) ∈ o.branches ↔ t = tip)
    (hfixed : w.FixedMajor s o) :
    (w.Effective s o ∧ ¬ w.Assigned s tip ∧ ∃ new, new.commitSha = tip.sha ∧
      w.Gains s.stored
        (PackageObject.refresh s.stored w.package o.defaultBranch o.branches).2 new) ∨
    (¬ (w.Effective s o ∧ ¬ w.Assigned s tip) ∧ ∀ x, x.major = w.major →
      (x ∈ assignments (PackageObject.refresh s.stored w.package o.defaultBranch o.branches).2 ↔
        x ∈ assignments s.stored)) := by
  rcases refresh_cases s.stored w.package o.defaultBranch o.branches h with
    ⟨discovery, loaded, selection, hp, hr, hs, hv, created, he⟩ | ⟨hinvalid, he, -⟩
  · have hloaded := registry_loaded h hr
    have hcoherent := hloaded.inStep.coherent
    have hbranch := hfixed discovery loaded selection hp hr hs
    have htips : ∀ b ∈ selection.branches, b.major = w.major → b.tip = tip := by
      intro b hb hm
      have hget := (OrderedMap.get?_eq_some _ _ _).1 (selectBranches_tip hs hb)
      rw [parseDiscovery_entries hp, (hbranch b hb).1 hm] at hget
      exact (htip b.tip).1 hget
    have hfinal := PackageRegistry.refreshBranches_coherent (hcoherent.branches selection.state) []
      selection.branches
    have hfor := PackageRegistry.refreshBranches_forMajor (hcoherent.branches selection.state) []
      htips hv
    rw [he, effective_iff hp hr hs]
    by_cases hselected : ∃ b ∈ selection.branches, b.major = w.major
    · obtain ⟨b, hb, hm⟩ := hselected
      rw [if_pos ⟨b, hb, hm⟩] at hfor
      cases hc : (loaded.allocator.forMajor w.major).currentAttempts.get? tip.sha with
      | some n =>
        right
        rw [PackageRegistry.assignTip_some hc] at hfor
        refine ⟨fun hnew => hnew.2 ((current_iff hloaded w.major tip.sha).1 ⟨n, hc⟩), ?_⟩
        intro x hx
        rw [mem_assignments_forMajor hfinal, hx, hfor, held_forMajor hloaded, hx]
      | none =>
        left
        rw [PackageRegistry.assignTip_none hc] at hfor
        have hnew : ¬ w.Assigned s tip := by
          intro hassigned
          obtain ⟨n, hn⟩ := (current_iff hloaded w.major tip.sha).2 hassigned
          rw [hc] at hn
          cases hn
        have hvalid := hv b hb
        rw [hm, htips b hb hm] at hvalid
        exact ⟨⟨⟨b, hb, (hbranch b hb).1 hm⟩, hv⟩, hnew, _, rfl,
          gains_append hloaded hc hvalid hfinal hfor⟩
    · right
      rw [if_neg hselected] at hfor
      refine ⟨?_, ?_⟩
      · rintro ⟨⟨⟨b, hb, hbr⟩, -⟩, -⟩
        exact hselected ⟨b, hb, (hbranch b hb).2 hbr⟩
      · intro x hx
        rw [mem_assignments_forMajor hfinal, hx, hfor, held_forMajor hloaded, hx]
  · right
    refine ⟨?_, fun x _ => by rw [he]⟩
    rintro ⟨⟨discovery, loaded, selection, hp, hr, hs, -, hv⟩, -⟩
    obtain ⟨b, hb, hbad⟩ := hinvalid discovery loaded selection hp hr hs
    exact hbad (hv b hb)

structure Coherent (w : WatchedBranch) (s : ObservationState) : Prop where
  sound : Sound s.stored
  distinct : (s.tips.map CommitTip.sha).Nodup
  read : ∀ o ∈ s.inFlight, ∃ tip ∈ s.tips, ∀ t, (w.branch, t) ∈ o.branches ↔ t = tip
  known : ∀ x ∈ assignments s.stored, x.major = w.major → x.commitSha ∈ s.tips.map CommitTip.sha

theorem coherent_start (w : WatchedBranch) : w.Coherent start where
  sound := sound_none
  distinct := List.nodup_nil
  read o ho := by cases ho
  known x hx := by cases hx

theorem assignments_touched {stored after : Stored} {op : PackageRegistry.Op} (h : Sound stored)
    (ht : Transition stored after op)
    (hop : ∀ registry : PackageRegistry, (registry.apply op).allocator = registry.allocator)
    (x : VersionAssignment) : x ∈ assignments after ↔ x ∈ assignments stored := by
  rcases ht with rfl | ⟨initialName, loaded, hr, rfl⟩
  · exact Iff.rfl
  · rw [← (registry_loaded h hr).held x]
    change (loaded.apply op).allocator.Held x ↔ _
    rw [hop loaded]

theorem assignments_lease {stored : Stored} (h : Sound stored) (now : ℤ) (x : VersionAssignment) :
    x ∈ assignments (PackageObject.lease stored now).2 ↔ x ∈ assignments stored :=
  assignments_touched h (lease_transition stored now)
    (fun registry => PackageRegistry.touchesOne_allocator
      (PackageRegistry.leaseNext_touches registry now)) x

theorem assignments_complete {stored : Stored} (h : Sound stored) (version : Str)
    (outcome : Outcome) (x : VersionAssignment) :
    x ∈ assignments (PackageObject.complete stored version outcome).2 ↔ x ∈ assignments stored := by
  refine assignments_touched h (complete_transition stored version outcome) (fun registry => ?_) x
  cases outcome with
  | ready =>
    exact PackageRegistry.touchesOne_allocator (PackageRegistry.markReady_touches registry version)
  | yanked diagnostic =>
    exact PackageRegistry.touchesOne_allocator
      (PackageRegistry.markYanked_touches registry version diagnostic)

theorem assignments_releaseLease {stored : Stored} (h : Sound stored) (version : Str)
    (x : VersionAssignment) :
    x ∈ assignments (PackageObject.releaseLease stored version).2 ↔ x ∈ assignments stored :=
  assignments_touched h (releaseLease_transition stored version)
    (fun registry => PackageRegistry.touchesOne_allocator
      (PackageRegistry.releaseLease_touches registry version)) x

theorem Coherent.restored {w : WatchedBranch} {s : ObservationState} (h : w.Coherent s)
    {after : Stored} (hs : Sound after)
    (ha : ∀ x, x ∈ assignments after ↔ x ∈ assignments s.stored) :
    w.Coherent { s with stored := after } :=
  ⟨hs, h.distinct, h.read, fun x hx => h.known x ((ha x).1 hx)⟩

theorem step_deliver {w : WatchedBranch} {s : ObservationState} {index : ℕ} {o : Observation}
    (ho : s.inFlight[index]? = some o) : w.step s (.deliver index) =
      { s with
        inFlight := s.inFlight.eraseIdx index
        stored := (PackageObject.refresh s.stored w.package o.defaultBranch o.branches).2 } := by
  simp only [step, ho]

theorem Coherent.step {w : WatchedBranch} {s : ObservationState} (h : w.Coherent s)
    {e : ObservationEvent} (ha : w.Allowed s e) : w.Coherent (w.step s e) := by
  cases e with
  | advance tip =>
    refine ⟨h.sound, ?_, ?_, ?_⟩
    · change ((s.tips ++ [tip]).map CommitTip.sha).Nodup
      rw [List.map_append, List.nodup_append]
      refine ⟨h.distinct, List.nodup_singleton _, ?_⟩
      rintro a hold b hnew rfl
      rw [List.map_singleton, List.mem_singleton] at hnew
      exact ha (hnew ▸ hold)
    · intro o ho
      obtain ⟨read, hread, htip⟩ := h.read o ho
      exact ⟨read, List.mem_append_left _ hread, htip⟩
    · intro x hx hm
      change x.commitSha ∈ (s.tips ++ [tip]).map CommitTip.sha
      rw [List.map_append]
      exact List.mem_append_left _ (h.known x hx hm)
  | observe o =>
    refine ⟨h.sound, h.distinct, ?_, h.known⟩
    intro other hother
    rcases List.mem_cons.1 hother with rfl | hother
    · obtain ⟨tip, hlast, htip⟩ := ha
      exact ⟨tip, List.mem_of_getLast? hlast, htip⟩
    · exact h.read other hother
  | deliver index =>
    cases ho : s.inFlight[index]? with
    | none =>
      simp only [WatchedBranch.step, ho]
      exact h
    | some o =>
      rw [step_deliver ho]
      obtain ⟨tip, hmem, htip⟩ := h.read o (List.mem_of_getElem? ho)
      obtain ⟨discovery, ht⟩ :=
        refresh_transition s.stored w.package o.defaultBranch o.branches
      refine ⟨ht.sound h.sound, h.distinct, ?_, ?_⟩
      · intro other hother
        exact h.read other (List.mem_of_mem_eraseIdx hother)
      · intro x hx hm
        rcases refresh_assignments w h.sound htip (ha o ho) with
          ⟨-, -, new, hsha, hgains⟩ | ⟨-, hsame⟩
        · rcases (hgains.content x hm).1 hx with hold | rfl
          · exact h.known x hold hm
          · rw [hsha]
            exact List.mem_map_of_mem hmem
        · exact h.known x ((hsame x hm).1 hx) hm
  | lease now =>
    exact h.restored ((lease_transition s.stored now).sound h.sound) (assignments_lease h.sound now)
  | complete version outcome =>
    exact h.restored ((complete_transition s.stored version outcome).sound h.sound)
      (assignments_complete h.sound version outcome)
  | releaseLease version =>
    exact h.restored ((releaseLease_transition s.stored version).sound h.sound)
      (assignments_releaseLease h.sound version)

structure Extends (w : WatchedBranch) (s t : ObservationState) : Prop where
  tips : List.Sublist s.tips t.tips
  assigned : ∀ x ∈ assignments s.stored, x.major = w.major → x ∈ assignments t.stored

theorem Extends.refl (w : WatchedBranch) (s : ObservationState) : w.Extends s s :=
  ⟨List.Sublist.refl _, fun _ hx _ => hx⟩

theorem Extends.trans {w : WatchedBranch} {s t u : ObservationState} (h : w.Extends s t)
    (h' : w.Extends t u) : w.Extends s u :=
  ⟨h.tips.trans h'.tips, fun x hx hm => h'.assigned x (h.assigned x hx hm) hm⟩

theorem Coherent.extends {w : WatchedBranch} {s : ObservationState} (h : w.Coherent s)
    {e : ObservationEvent} (ha : w.Allowed s e) : w.Extends s (w.step s e) := by
  cases e with
  | advance tip => exact ⟨List.sublist_append_left _ _, fun _ hx _ => hx⟩
  | observe o => exact ⟨List.Sublist.refl _, fun _ hx _ => hx⟩
  | deliver index =>
    cases ho : s.inFlight[index]? with
    | none =>
      simp only [WatchedBranch.step, ho]
      exact .refl w s
    | some o =>
      rw [step_deliver ho]
      obtain ⟨tip, -, htip⟩ := h.read o (List.mem_of_getElem? ho)
      refine ⟨List.Sublist.refl _, ?_⟩
      intro x hx hm
      rcases refresh_assignments w h.sound htip (ha o ho) with ⟨-, -, new, -, hgains⟩ | ⟨-, hsame⟩
      · exact (hgains.content x hm).2 (.inl hx)
      · exact (hsame x hm).2 hx
  | lease now =>
    exact ⟨List.Sublist.refl _, fun x hx _ => (assignments_lease h.sound now x).2 hx⟩
  | complete version outcome =>
    exact ⟨List.Sublist.refl _, fun x hx _ => (assignments_complete h.sound version outcome x).2 hx⟩
  | releaseLease version =>
    exact ⟨List.Sublist.refl _, fun x hx _ => (assignments_releaseLease h.sound version x).2 hx⟩

theorem Ordered.of_extends {w : WatchedBranch} {s t : ObservationState} (h : w.Ordered t)
    (he : w.Extends s t) : w.Ordered s := by
  intro earlier later hp x hx y hy hxm hym
  exact h earlier later (hp.trans he.tips) x (he.assigned x hx hxm) y (he.assigned y hy hym) hxm hym

theorem Ordered.of_same {w : WatchedBranch} {s t : ObservationState} (h : w.Ordered s)
    (ht : t.tips = s.tips)
    (ha : ∀ x, x.major = w.major → (x ∈ assignments t.stored ↔ x ∈ assignments s.stored)) :
    w.Ordered t := by
  intro earlier later hp x hx y hy hxm hym
  apply h earlier later
  · rw [ObservationState.Precedes, ← ht]
    exact hp
  · exact (ha x hxm).1 hx
  · exact (ha y hym).1 hy
  · exact hxm
  · exact hym

theorem Coherent.precedes_ne {w : WatchedBranch} {s : ObservationState} (h : w.Coherent s)
    {earlier later : CommitTip} (hp : s.Precedes earlier later) : earlier.sha ≠ later.sha := by
  have hnodup := h.distinct.sublist (hp.map CommitTip.sha)
  simpa using hnodup

theorem Ordered.gains {w : WatchedBranch} {s t : ObservationState} (h : w.Ordered s)
    (hs : w.Coherent s) {tip : CommitTip} (hmem : tip ∈ s.tips) {new : VersionAssignment}
    (hlater : ∀ later, s.Precedes tip later → ¬ w.Assigned s later)
    (hsha : new.commitSha = tip.sha) (hgains : w.Gains s.stored t.stored new)
    (ht : t.tips = s.tips) : w.Ordered t := by
  intro earlier later hp x hx y hy hxm hym hxs hys
  rw [ObservationState.Precedes, ht] at hp
  have hsame : ∀ other ∈ s.tips, other.sha = tip.sha → other = tip :=
    fun other hother he => List.inj_on_of_nodup_map hs.distinct hother hmem he
  have hsub : ∀ other, other = earlier ∨ other = later → other ∈ s.tips := by
    intro other hother
    exact hp.subset (by simpa using hother)
  rcases (hgains.content x hxm).1 hx with hxold | rfl <;>
    rcases (hgains.content y hym).1 hy with hyold | rfl
  · exact h earlier later hp x hxold y hyold hxm hym hxs hys
  · exact hgains.above x hxold hxm
  · have he := hsame earlier (hsub earlier (.inl rfl)) (hxs.symm.trans hsha)
    rw [he] at hp
    exact absurd ⟨y, hyold, hym, hys⟩ (hlater later hp)
  · exact absurd (hxs.symm.trans hys) (hs.precedes_ne hp)

theorem Ordered.step {w : WatchedBranch} {s : ObservationState} (h : w.Ordered s)
    (hs : w.Coherent s) {e : ObservationEvent} (ha : w.Allowed s e) (ho : w.InOrder s e) :
    w.Ordered (w.step s e) := by
  cases e with
  | advance tip =>
    intro earlier later hp x hx y hy hxm hym hxs hys
    obtain ⟨front, back, he, hfront, hback⟩ := List.sublist_append_iff.1 hp
    have hxknown := hs.known x hx hxm
    have hyknown := hs.known y hy hym
    have hnil : back = [] := by
      apply List.eq_nil_iff_forall_not_mem.2
      intro c hc
      obtain rfl := List.mem_singleton.1 (hback.subset hc)
      have hmem : c ∈ [earlier, later] := he ▸ List.mem_append_right front hc
      rcases List.mem_pair.1 hmem with rfl | rfl
      · exact ha (hxs ▸ hxknown)
      · exact ha (hys ▸ hyknown)
    rw [hnil, List.append_nil] at he
    rw [← he] at hfront
    exact h earlier later hfront x hx y hy hxm hym hxs hys
  | observe o => exact h
  | deliver index =>
    cases hget : s.inFlight[index]? with
    | none =>
      simp only [WatchedBranch.step, hget]
      exact h
    | some o =>
      rw [step_deliver hget]
      obtain ⟨tip, hmem, htip⟩ := hs.read o (List.mem_of_getElem? hget)
      rcases refresh_assignments w hs.sound htip (ha o hget) with
        ⟨heffective, hnew, new, hsha, hgains⟩ | ⟨-, hsame⟩
      · exact h.gains hs hmem (ho o tip hget ((htip tip).2 rfl) heffective hnew) hsha hgains rfl
      · exact h.of_same rfl hsame
  | lease now => exact h.of_same rfl (fun x _ => assignments_lease hs.sound now x)
  | complete version outcome =>
    exact h.of_same rfl (fun x _ => assignments_complete hs.sound version outcome x)
  | releaseLease version =>
    exact h.of_same rfl (fun x _ => assignments_releaseLease hs.sound version x)

theorem inOrder_of_ordered {w : WatchedBranch} {s : ObservationState} (hs : w.Coherent s)
    {e : ObservationEvent} (ha : w.Allowed s e) (h : w.Ordered (w.step s e)) : w.InOrder s e := by
  cases e with
  | deliver index =>
    intro o tip hget hread heffective hnew later hp hassigned
    rw [step_deliver hget] at h
    obtain ⟨read, hmem, htip⟩ := hs.read o (List.mem_of_getElem? hget)
    obtain rfl := (htip tip).1 hread
    rcases refresh_assignments w hs.sound htip (ha o hget) with
      ⟨-, -, new, hsha, hgains⟩ | ⟨hnone, -⟩
    · obtain ⟨y, hy, hym, hys⟩ := hassigned
      have hlt := h tip later hp new ((hgains.content new hgains.major).2 (.inr rfl)) y
        ((hgains.content y hym).2 (.inl hy)) hgains.major hym hsha hys
      have habove := hgains.above y hy hym
      omega
    · exact hnone ⟨heffective, hnew⟩
  | advance | observe | lease | complete | releaseLease => trivial

/-- Over any interleaving of observations and deliveries, sequences follow the branch
    exactly when no commit is first delivered after the delivery of a later one. -/
theorem ordered_iff_inOrder (w : WatchedBranch) (es : List ObservationEvent)
    (h : Admitted w.step w.Allowed start es) :
    w.Ordered (run w.step start es) ↔ Admitted w.step w.InOrder start es := by
  constructor
  · intro hordered
    apply admitted_of_prefixes
    intro before e after heq
    rw [heq, admitted_append] at h
    obtain ⟨hbefore, he, hafter⟩ := h
    have hs : w.Coherent (run w.step start before) :=
      run_invariant w.Coherent w.Allowed (fun _ _ hs ha => hs.step ha) _ _ (coherent_start w) hbefore
    have hextends : w.Extends (w.step (run w.step start before) e) (run w.step start es) := by
      rw [heq, run_append, run_cons]
      exact run_related w.Coherent w.Allowed w.Extends (fun _ _ hs ha => hs.step ha)
        (fun _ _ hs ha => hs.extends ha) (Extends.refl w) (fun _ _ _ => Extends.trans) _ _
        (hs.step he) hafter
    exact inOrder_of_ordered hs he (hordered.of_extends hextends)
  · intro hin
    have hboth := (admitted_and start es).2 ⟨h, hin⟩
    exact (run_invariant (fun s => w.Coherent s ∧ w.Ordered s)
      (fun s e => w.Allowed s e ∧ w.InOrder s e)
      (fun _ _ hs ha => ⟨hs.1.step ha.1, hs.2.step hs.1 ha.1 ha.2⟩) start es
      ⟨coherent_start w, fun _ _ _ x hx => by cases hx⟩ hboth).2

def widgetMain : WatchedBranch := ⟨⟨"acme".toList, "widget".toList⟩, "main".toList, 0⟩

def readOf (tip : CommitTip) : Observation := ⟨"main".toList, [("main".toList, tip)]⟩

def lateRun : List ObservationEvent :=
  [.advance ⟨"a".toList, 7⟩, .observe (readOf ⟨"a".toList, 7⟩), .advance ⟨"b".toList, 7⟩,
    .observe (readOf ⟨"b".toList, 7⟩), .deliver 0, .deliver 0]

theorem lateRun_allowed : Admitted widgetMain.step widgetMain.Allowed start lateRun := by
  refine ⟨List.not_mem_nil, ⟨_, rfl, ?_⟩, (by decide : "b".toList ∉ ["a".toList]), ⟨_, rfl, ?_⟩,
    ?_, ?_, trivial⟩
  · intro t
    simp [readOf, widgetMain]
  · intro t
    simp [readOf, widgetMain]
  · rintro o ⟨⟩ discovery loaded selection ⟨⟩ ⟨⟩ ⟨⟩ b hb
    obtain rfl := List.mem_singleton.1 hb
    decide
  · rintro o ⟨⟩ discovery loaded selection ⟨⟩ ⟨⟩ ⟨⟩ b hb
    obtain rfl := List.mem_singleton.1 hb
    decide

theorem ordered_iff_inOrder_lateRun :
    widgetMain.Ordered (run widgetMain.step start lateRun) ↔
      Admitted widgetMain.step widgetMain.InOrder start lateRun :=
  ordered_iff_inOrder widgetMain lateRun lateRun_allowed

/-- Commit `b` gets sequence 7 and its predecessor `a` sequence 8. -/
theorem lateRun_not_ordered :
    Admitted widgetMain.step widgetMain.Allowed start lateRun ∧
      ¬ widgetMain.Ordered (run widgetMain.step start lateRun) := by
  refine ⟨lateRun_allowed, ?_⟩
  intro h
  have hlt := h ⟨"a".toList, 7⟩ ⟨"b".toList, 7⟩ (List.Sublist.refl _)
    ⟨0, 8, 0, "a".toList, "0.1.8".toList⟩ (by decide) ⟨0, 7, 0, "b".toList, "0.1.7".toList⟩
    (by decide) rfl rfl rfl rfl
  exact absurd hlt (by decide)

end WatchedBranch
end JsrProxy
