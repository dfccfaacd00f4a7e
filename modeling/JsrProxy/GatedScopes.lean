import JsrProxy.WorkerCalls

set_option autoImplicit false

/-!
# Gated scopes

A request below a configured scope is never forwarded, and reaches a package's
registry or artifacts only after both objects granted the caller's credential. The
patterns that decide about a path agree on the scope it names.
-/
namespace JsrProxy
open Identity ObjectHandlers

def NamesScope (pathname scope : Str) : Prop :=
  (∃ rest, pathname = "/@".toList ++ (scope ++ '/' :: rest)) ∨
    ∃ rest, (rest = [] ∨ rest.head? = some '/') ∧
      (pathname = statusRoute ++ (scope ++ rest) ∨ pathname = recoveryRoute ++ (scope ++ rest))

namespace Worker

theorem afterPrefix_append (route rest : Str) : afterPrefix route (route ++ rest) = some rest := by
  rw [afterPrefix, if_pos (List.isPrefixOf_iff_prefix.2 (List.prefix_append _ _)), List.drop_left]

theorem not_isNameChar_head {rest : Str} (h : rest = [] ∨ rest.head? = some '/') :
    ∀ c, rest.head? = some c → isNameChar c = false := by
  intro c hc
  rcases h with rfl | h
  · cases hc
  · rw [h] at hc
    obtain rfl := Option.some.inj hc
    exact isNameChar_slash

theorem span_scope {scope rest : Str} (hscope : isScope scope = true)
    (hrest : rest = [] ∨ rest.head? = some '/') :
    (scope ++ rest).takeWhile isNameChar = scope ∧ (scope ++ rest).dropWhile isNameChar = rest :=
  Segments.span_append (isScope_chars hscope).2 (not_isNameChar_head hrest)

theorem leadingScope_append {scope rest : Str} (hscope : isScope scope = true)
    (hrest : rest = [] ∨ rest.head? = some '/') : leadingScope (scope ++ rest) = some (scope, rest) := by
  obtain ⟨htake, hdrop⟩ := span_scope hscope hrest
  rw [leadingScope, htake, hdrop, if_pos hscope]

theorem requestedIdentity_scope {pathname scope : Str} (hscope : isScope scope = true)
    (hpath : NamesScope pathname scope) {identity : PackageName}
    (h : requestedIdentity pathname = some identity) : identity.scope = scope := by
  obtain ⟨⟨route, hroute, input, hinput, hidentity⟩, -⟩ := requestedIdentity_some h
  have hnamed : ∃ route' ∈ routes, ∃ rest : Str,
      (rest = [] ∨ rest.head? = some '/') ∧ pathname = route' ++ (scope ++ rest) := by
    rcases hpath with ⟨rest, rfl⟩ | ⟨rest, hrest, rfl | rfl⟩
    · exact ⟨"/@".toList, by simp [routes], '/' :: rest, .inr rfl, rfl⟩
    · exact ⟨statusRoute, by simp [routes], rest, hrest, rfl⟩
    · exact ⟨recoveryRoute, by simp [routes], rest, hrest, rfl⟩
  obtain ⟨route', hroute', rest, hrest, rfl⟩ := hnamed
  have hsame : route = route' := by
    rw [← routes_getD hroute input, ← hinput, routes_getD hroute']
  subst hsame
  obtain rfl := List.append_cancel_left hinput
  rw [hidentity, (span_scope hscope hrest).1]

theorem requestedScope_isSome {pathname scope : Str} {scopes : OrderedMap Str GitHubScope}
    (hscope : isScope scope = true) (hhas : scopes.has scope = true) (hpath : NamesScope pathname scope) :
    (requestedScope pathname scopes).isSome = true := by
  unfold requestedScope
  split
  · rfl
  · rfl
  · rcases hpath with ⟨rest, rfl⟩ | ⟨rest, hrest, rfl | rfl⟩
    · have hconfigured : configuredScope ("/@".toList ++ (scope ++ '/' :: rest)) scopes = some scope := by
        rw [configuredScope, afterPrefix_append, Option.bind_some, leadingScope_append hscope (.inr rfl)]
        exact if_pos ⟨rfl, hhas⟩
      rw [hconfigured]
      rfl
    · have hconfigured : configuredStatusScope (statusRoute ++ (scope ++ rest)) scopes = some scope := by
        rw [configuredStatusScope, configuredRouteScope, afterPrefix_append, Option.bind_some,
          leadingScope_append hscope hrest]
        exact if_pos ⟨hrest, hhas⟩
      rw [hconfigured, Option.or_some, Option.some_or]
      rfl
    · have hconfigured : configuredRecoveryScope (recoveryRoute ++ (scope ++ rest)) scopes = some scope := by
        rw [configuredRecoveryScope, configuredRouteScope, afterPrefix_append, Option.bind_some,
          leadingScope_append hscope hrest]
        exact if_pos ⟨hrest, hhas⟩
      rw [hconfigured, Option.or_some]
      rfl

end Worker

/-- The call must wait for both grants. -/
def BehindGates : WorkerCall → Prop
  | .package _ (.authorize _) => False
  | .package _ (.recover _) => False
  | .package _ _ => True
  | .get _ => True
  | _ => False

def IsFor (identity : PackageName) : WorkerCall → Prop
  | .package name _ => name = packageId identity
  | _ => True

/-- The calls of a request below a configured scope, each with what was called before. -/
structure TakenOver (env : WorkerEnv) (request : Request) (scope : Str) (github : GitHubScope)
    (calls : List (List WorkerExchange × WorkerCall)) : Prop where
  never_forwarded : ∀ past call, (past, .upstream call) ∉ calls
  gated : ∀ past call, (past, call) ∈ calls → BehindGates call → ∃ identity,
    Worker.requestedIdentity request.url.pathname = some identity ∧ identity.scope = scope ∧
    IsFor identity call ∧ GrantedBoth env request identity github.owner past
  recovery : ∀ past name body, (past, .package name (.recover body)) ∈ calls → CarriesSecret env request
  malformed : Worker.requestedIdentity request.url.pathname = none → calls = []

theorem takenOver_of_guarded {env : WorkerEnv} {request : Request} {identity : PackageName}
    {github : GitHubScope} {calls : List (List WorkerExchange × WorkerCall)}
    (hidentity : Worker.requestedIdentity request.url.pathname = some identity)
    (h : ∀ met ∈ calls, Guarded env request identity github.owner met.1 met.2) :
    TakenOver env request identity.scope github calls where
  never_forwarded past call hmem := h _ hmem
  gated past call hmem hbehind := by
    have hguarded := h _ hmem
    refine ⟨identity, hidentity, rfl, ?_⟩
    cases call with
    | admission name request => cases hbehind
    | discover owner repository pat => cases hbehind
    | get key => exact ⟨trivial, hguarded.1⟩
    | upstream call => cases hbehind
    | package name request =>
      cases request with
      | authorize body => cases hbehind
      | recover body => cases hbehind
      | check pat => exact hguarded
      | refresh body => exact hguarded
      | materialize body => exact hguarded
      | complete body => exact hguarded
      | metadata => exact hguarded
      | status => exact hguarded
      | unknown => exact hguarded
  recovery past name body hmem := (h _ hmem).2
  malformed hnone := by
    rw [hnone] at hidentity
    cases hidentity

/-- A request below a configured scope is taken over and gated, whatever it is answered. -/
theorem takenOver (env : WorkerEnv) (now : ℤ) (request : Request) {config : ProxyConfig}
    (hconfig : Config.parseConfig env.config = .ok config) {scope : Str} {github : GitHubScope}
    (hscope : config.scopes.get? scope = some github) (hpath : NamesScope request.url.pathname scope)
    (answer : List WorkerExchange → (call : outsideCalls.Op) → outsideCalls.Ret call) :
    TakenOver env request scope github
        ((Worker.fetch env now request).calls (Program.recording answer) []) ∧
      (Worker.requestedIdentity request.url.pathname = none →
        ((Worker.fetch env now request).run (Program.recording answer) []).1
          = .ok (.own (.text 404 "invalid package name".toList []))) := by
  have hhas : config.scopes.has scope = true := by rw [OrderedMap.has, hscope]; rfl
  have hvalid := Config.parseConfig_isScope hconfig hhas
  unfold Worker.fetch
  rw [hconfig]
  dsimp only
  cases hidentity : Worker.requestedIdentity request.url.pathname with
  | none =>
    dsimp only
    rw [if_pos (Worker.requestedScope_isSome hvalid hhas hpath)]
    refine ⟨?_, fun _ => rfl⟩
    constructor
    · exact fun _ _ h => absurd h List.not_mem_nil
    · exact fun _ _ h => absurd h List.not_mem_nil
    · exact fun _ _ _ h => absurd h List.not_mem_nil
    · exact fun _ => rfl
  | some identity =>
    obtain rfl := Worker.requestedIdentity_scope hvalid hpath hidentity
    dsimp only
    rw [hscope]
    constructor
    · apply takenOver_of_guarded hidentity
      exact (Worker.within_servePackage now (Worker.requestedIdentity_some hidentity).2).calls answer
    · intro hnone
      cases hnone

def refreshesAsked (calls : List (List WorkerExchange × WorkerCall)) : ℕ :=
  calls.countP fun met =>
    match met.2 with
    | .package _ (.refresh _) => true
    | _ => false

theorem takenOver_widgetRequest :
    refreshesAsked ((Worker.fetch acmeEnv 0 widgetRequest).calls (@Program.recording outsideCalls grantAll) []) = 1 ∧
    TakenOver acmeEnv widgetRequest "acme".toList ⟨"acme".toList⟩
        ((Worker.fetch acmeEnv 0 widgetRequest).calls (@Program.recording outsideCalls grantAll) []) ∧
      (Worker.requestedIdentity widgetRequest.url.pathname = none →
        ((Worker.fetch acmeEnv 0 widgetRequest).run (@Program.recording outsideCalls grantAll) []).1
          = .ok (.own (.text 404 "invalid package name".toList []))) :=
  ⟨by decide +kernel, takenOver acmeEnv 0 widgetRequest (by decide +kernel : _ = Except.ok acmeConfig) rfl
    (.inl ⟨"widget/meta.json".toList, rfl⟩) grantAll⟩

end JsrProxy
