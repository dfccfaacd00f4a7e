import JsrProxy.AtomicHandlers

set_option autoImplicit false

/-!
# Kinds of calls

What a handler calls is told by its request: the decisions and GitHub's answer to a
question, the registry's row, or for a materialization the row, the archive, the Container
and the bucket.
-/
namespace JsrProxy
open ObjectHandlers

inductive CallKind
  | decisions
  | registry
  | materialization

def ObjectRequest.kind : ObjectRequest → CallKind
  | .check _ | .authorize _ => .decisions
  | .materialize _ => .materialization
  | .refresh _ | .recover _ | .complete _ | .metadata | .status | .unknown => .registry

def CallKind.Allows : CallKind → ObjectCall → Prop
  | .decisions, .readDecision _ | .decisions, .writeDecision _ _ | .decisions, .fetch _ .follow => True
  | .registry, .readSnapshot | .registry, .writeSnapshot _ => True
  | .materialization, .readSnapshot | .materialization, .writeSnapshot _ => True
  | .materialization, .fetch _ .manual | .materialization, .container _ _ | .materialization, .bucket _ => True
  | _, _ => False

abbrev Calls (D : ObjectCall → Prop) (p : Handling) : Prop := p.Asks (E := objectCalls) D

namespace CallKind

variable {D : ObjectCall → Prop}

theorem passesOn {call : ObjectCall} (h : D call) : PassesOn (Calls D) call :=
  fun _ hnext => .call h fun answer => hnext answer.1 answer.2

theorem admits_decisions : Admits (Calls CallKind.decisions.Allows) where
  threw _ := .done _
  refused _ := .done _
  decided _ := .done _
  unavailable _ := .done _
  reads key := @passesOn CallKind.decisions.Allows (.readDecision key) trivial
  writes key record := @passesOn CallKind.decisions.Allows (.writeDecision key record) trivial
  asks _ _ request _ := @passesOn CallKind.decisions.Allows (.fetch request .follow) trivial

structure Transacts (D : ObjectCall → Prop) : Prop where
  reads : D .readSnapshot
  writes : ∀ snapshot, D (.writeSnapshot snapshot)

theorem transacts_registry : Transacts CallKind.registry.Allows := ⟨trivial, fun _ => trivial⟩

theorem transacts_materialization : Transacts CallKind.materialization.Allows := ⟨trivial, fun _ => trivial⟩

theorem calls_transaction (h : Transacts D) (initialName : Option PackageName) (work : PackageRegistry → Work)
    (failed : Str → Reply ObjectBody) : Calls D (transaction initialName work failed) := by
  unfold transaction readRegistry
  apply passesOn h.reads
  intro answer now
  apply orThrow_of fun _ => .done _
  intro stored _
  apply orThrow_of fun _ => .done _
  intro registry _
  dsimp only
  cases work registry with
  | answered reply => exact .done _
  | changed target reply =>
    apply passesOn (h.writes _)
    intro saved later
    cases saved <;> exact .done _

theorem calls_releaseLease (h : Transacts D) (version : Str) : Calls D (releaseLease version) := by
  rw [releaseLease_eq]
  exact calls_transaction h _ _ _

theorem receives_calls (h : Transacts D) (hbucket : ∀ op, D (.bucket op)) (version : Str) :
    Receives (Calls D) version where
  threw _ := .done _
  released := calls_releaseLease h version
  finished outcome := by
    rw [finish_eq]
    exact calls_transaction h _ _ _
  publishes op := passesOn (hbucket op)

theorem materializes_calls (version : Str) :
    Materializes (Calls CallKind.materialization.Allows) version where
  toReceives := receives_calls transacts_materialization (fun _ => trivial) version
  fetches request := @passesOn CallKind.materialization.Allows (.fetch request .manual) trivial
  asks id request := @passesOn CallKind.materialization.Allows (.container id request) trivial

theorem calls_materialize (env : ObjectEnv) (body : Option MaterializeBody) :
    Calls CallKind.materialization.Allows (materialize env body) := by
  unfold materialize
  split
  · exact .done _
  · split
    · exact .done _
    · split
      · exact .done _
      · refine @passesOn CallKind.materialization.Allows .readSnapshot trivial _ ?_
        intro answer now
        apply orThrow_of fun _ => .done _
        intro stored _
        apply orThrow_of fun _ => .done _
        intro registry _
        dsimp only
        split
        · exact .done _
        · refine @passesOn CallKind.materialization.Allows (.writeSnapshot _) trivial _ ?_
          intro saved later
          apply orThrow_of fun _ => .done _
          exact fun _ _ => (materializes_calls _).of_materializeJob env _ _

/-- A handler makes only calls of its request's kind. -/
theorem calls_handle (env : ObjectEnv) (request : ObjectRequest) :
    Calls request.kind.Allows (handle env request) := by
  cases request with
  | check pat => exact admits_decisions.of_check env pat
  | authorize body => exact admits_decisions.of_authorize env body
  | refresh body =>
    cases body with
    | none => exact .done _
    | some body =>
      cases hdiscovery : PackageObject.parseDiscovery body.defaultBranch body.branches with
      | none =>
        rw [handle, refresh]
        simp only [hdiscovery]
        exact .done _
      | some discovery =>
        rw [handle, refresh_eq hdiscovery]
        exact calls_transaction transacts_registry _ _ _
  | recover body =>
    cases body with
    | none => exact .done _
    | some body =>
      by_cases hvalid : ValidRecovery body
      · rw [handle, recover_eq hvalid]
        exact calls_transaction transacts_registry _ _ _
      · rw [handle, recover, if_pos (by rwa [ValidRecovery, Bool.not_eq_false] at hvalid)]
        exact .done _
  | complete body =>
    cases body with
    | none => exact .done _
    | some body =>
      rw [handle, complete_eq]
      exact calls_transaction transacts_registry _ _ _
  | materialize body => exact calls_materialize env body
  | metadata =>
    rw [handle, metadata_eq]
    exact calls_transaction transacts_registry _ _ _
  | status =>
    rw [handle, status_eq]
    exact calls_transaction transacts_registry _ _ _
  | unknown => exact .done _

end CallKind
end JsrProxy
