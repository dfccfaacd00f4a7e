import JsrProxy.PublishedOutcomes

set_option autoImplicit false

/-!
# Newly published versions

The package keeps its name, and a version is published by the completion of its own
job only.
-/
namespace JsrProxy.PackageRegistry
open Branches VersionAllocator

theorem refreshBranch_name (registry : PackageRegistry) (branch : SelectedBranch) :
    (registry.refreshBranch branch).2.name = registry.name := by
  unfold refreshBranch
  dsimp only
  split
  · rfl
  · split <;> rfl

theorem refreshBranches_name (registry : PackageRegistry) (created : List MaterializationJob)
    (branches : List SelectedBranch) :
    (registry.refreshBranches created branches).2.name = registry.name := by
  induction branches generalizing registry created with
  | nil => rfl
  | cons branch rest ih =>
    have hname := refreshBranch_name registry branch
    unfold refreshBranches
    cases hb : registry.refreshBranch branch with
    | mk result refreshed =>
      rw [hb] at hname
      cases result with
      | error message => exact hname
      | ok job => exact (ih refreshed _).trans hname

theorem TouchesOne.name {before after : PackageRegistry} (h : TouchesOne before after) :
    after.name = before.name := by
  rcases h with rfl | ⟨_, _, _, -, -, -, rfl⟩
  · rfl
  · rfl

theorem refresh_name (registry : PackageRegistry) (discovery : BranchDiscovery) :
    (registry.refresh discovery).2.name = registry.name := by
  unfold refresh
  cases selectBranches discovery registry.branches with
  | error message => rfl
  | ok selection => exact refreshBranches_name _ _ _

theorem recoverVersion_name (registry : PackageRegistry) (version reason : Str) (recoveredAt : ℤ) :
    (registry.recoverVersion version reason recoveredAt).2.name = registry.name := by
  rcases recoverVersion_cases registry version reason recoveredAt with
    ⟨_, _, -, he⟩ | ⟨_, _, -, -, -, -, he⟩
  · rw [he]
  · rw [he]

theorem fromSnapshot_name {stored : PackageRegistrySnapshot} {registry : PackageRegistry}
    (h : fromSnapshot stored = .ok registry) : registry.name = stored.name := by
  unfold fromSnapshot at h
  split at h
  · cases h
  · split at h
    · cases h
    · obtain rfl := Except.ok.inj h
      rfl

/-- Whatever is published afterwards was published before, with the same record. -/
def PublishesNothing (before after : PackageRegistry) : Prop :=
  ∀ v record, after.versions.get? v = some record → record.state.published = true →
    before.versions.get? v = some record

theorem PublishesNothing.refl (registry : PackageRegistry) : PublishesNothing registry registry :=
  fun _ _ hv _ => hv

theorem PublishesNothing.trans {a b c : PackageRegistry} (h : PublishesNothing a b)
    (h' : PublishesNothing b c) : PublishesNothing a c :=
  fun v record hv hp => h v record (h' v record hv hp) hp

theorem publishesNothing_of_eq {before after : PackageRegistry}
    (h : after.versions = before.versions) : PublishesNothing before after := by
  intro v record hv _
  rwa [h] at hv

theorem publishesNothing_set {before after : PackageRegistry} {version : Str} {new : VersionRecord}
    (h : after.versions = before.versions.set version new) (hs : new.state.published = false) :
    PublishesNothing before after := by
  intro v record hv hp
  rw [h] at hv
  rcases get?_set_old hv with ⟨-, rfl⟩ | hold
  · rw [hs] at hp
    cases hp
  · exact hold

theorem refreshBranch_publishesNothing {registry : PackageRegistry} (h : registry.Coherent)
    (branch : SelectedBranch) : PublishesNothing registry (registry.refreshBranch branch).2 := by
  rcases refreshBranch_cases h branch with
    ⟨_, -, he⟩ | ⟨_, _, -, -, -, he⟩ | ⟨_, -, -, -, he⟩ | ⟨-, -, -, he⟩
  · rw [he]
    exact .refl _
  · rw [he]
    exact publishesNothing_of_eq rfl
  · rw [he]
    exact publishesNothing_of_eq rfl
  · rw [he]
    exact publishesNothing_set rfl rfl

theorem refreshBranches_publishesNothing {registry : PackageRegistry} (h : registry.Coherent)
    (created : List MaterializationJob) (branches : List SelectedBranch) :
    PublishesNothing registry (registry.refreshBranches created branches).2 := by
  induction branches generalizing registry created with
  | nil => exact .refl _
  | cons branch rest ih =>
    have hcoherent := refreshBranch_coherent h branch
    have hnothing := refreshBranch_publishesNothing h branch
    unfold refreshBranches
    cases hb : registry.refreshBranch branch with
    | mk result refreshed =>
      rw [hb] at hcoherent hnothing
      cases result with
      | error message => exact hnothing
      | ok job => exact hnothing.trans (ih hcoherent _)

theorem refresh_publishesNothing {registry : PackageRegistry} (h : registry.Coherent)
    (discovery : BranchDiscovery) : PublishesNothing registry (registry.refresh discovery).2 := by
  unfold refresh
  cases selectBranches discovery registry.branches with
  | error message => exact .refl _
  | ok selection => exact refreshBranches_publishesNothing (h.branches _) _ _

theorem leaseNext_publishesNothing (registry : PackageRegistry) (now : ℤ) :
    PublishesNothing registry (registry.leaseNext now).2 := by
  unfold leaseNext
  cases registry.nextEligible now with
  | none => exact .refl _
  | some entry => exact publishesNothing_set rfl rfl

theorem releaseLease_publishesNothing (registry : PackageRegistry) (version : Str) :
    PublishesNothing registry (registry.releaseLease version).2 := by
  unfold releaseLease
  cases registry.versions.get? version with
  | none => exact .refl _
  | some record =>
    dsimp only
    split_ifs
    · exact .refl _
    · exact publishesNothing_set rfl rfl

theorem recoverVersion_publishesNothing (registry : PackageRegistry) (version reason : Str)
    (recoveredAt : ℤ) :
    PublishesNothing registry (registry.recoverVersion version reason recoveredAt).2 := by
  rcases recoverVersion_cases registry version reason recoveredAt with
    ⟨_, _, -, he⟩ | ⟨_, _, -, -, -, -, he⟩
  · rw [he]
    exact publishesNothing_of_eq rfl
  · rw [he]
    exact publishesNothing_set rfl rfl

theorem updateVersion_published {registry : PackageRegistry} {version v : Str}
    {record other : VersionRecord} (hv : (registry.updateVersion version record).versions.get? v
      = some other) : registry.versions.get? v = some other ∨ (v = version ∧ other = record) := by
  rcases get?_set_old hv with hnew | hold
  · exact .inr hnew
  · exact .inl hold

theorem markReady_published {registry : PackageRegistry} {version v : Str} {record : VersionRecord}
    (hv : (registry.markReady version).2.versions.get? v = some record) :
    registry.versions.get? v = some record ∨ (v = version ∧ record.state = .ready) := by
  unfold markReady at hv
  cases hr : registry.requirePending version with
  | error message =>
    rw [hr] at hv
    exact .inl hv
  | ok pending =>
    rw [hr] at hv
    rcases updateVersion_published hv with hold | ⟨rfl, rfl⟩
    · exact .inl hold
    · exact .inr ⟨rfl, rfl⟩

theorem markYanked_published {registry : PackageRegistry} {version v : Str}
    {diagnostic : TombstoneDiagnostic} {record : VersionRecord}
    (hv : (registry.markYanked version diagnostic).2.versions.get? v = some record) :
    registry.versions.get? v = some record ∨ (v = version ∧ record.state = .yanked) := by
  unfold markYanked at hv
  cases hr : registry.requirePending version with
  | error message =>
    rw [hr] at hv
    exact .inl hv
  | ok pending =>
    rw [hr] at hv
    rcases updateVersion_published hv with hold | ⟨rfl, rfl⟩
    · exact .inl hold
    · exact .inr ⟨rfl, rfl⟩

end JsrProxy.PackageRegistry
