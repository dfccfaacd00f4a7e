import JsrProxy.WorkerCalls

set_option autoImplicit false

/-!
# Forwarded credentials

What two requests that differ in their credentials come to when they fall through. The
authorization is taken out, but the recovery secret goes upstream with the rest of the
headers, so the runs are the same exactly if both requests carry the same one.
-/
namespace JsrProxy
open Identity

namespace Headers

def InOrder (headers : Headers) : Prop := headers.Pairwise fun header later => header.1 < later.1

theorem get_delete_of_ne {headers : Headers} {name other : Str} (h : other ≠ name) :
    (headers.delete name).get other = headers.get other := by
  induction headers with
  | nil => rfl
  | cons header rest ih =>
    obtain ⟨key, value⟩ := header
    unfold delete get at ih ⊢
    by_cases hkey : key = name
    · subst hkey
      rw [List.filter_cons_of_neg (by simp), ih, List.lookup_cons, beq_eq_false_iff_ne.2 h]
    · rw [List.filter_cons_of_pos (by simpa using hkey), List.lookup_cons, List.lookup_cons, ih]

theorem get_delete_self (headers : Headers) (name : Str) : (headers.delete name).get name = none := by
  rw [get, List.lookup_eq_none_iff]
  intro header hheader
  have hne := of_decide_eq_true (List.mem_filter.1 hheader).2
  exact bne_iff_ne.2 (Ne.symm hne)

theorem get_set_of_ne {headers : Headers} {name other : Str} (h : other ≠ name) (value : Str) :
    (headers.set name value).get other = headers.get other := by
  rw [set, get, List.lookup_append]
  have hdelete := @get_delete_of_ne headers name other h
  rw [get] at hdelete
  rw [hdelete]
  simp [h, get]

theorem InOrder.delete {headers : Headers} (h : headers.InOrder) (name : Str) :
    (headers.delete name).InOrder := List.Pairwise.filter _ h

theorem InOrder.get_of_mem {headers : Headers} (h : headers.InOrder) {name value : Str}
    (hmem : (name, value) ∈ headers) : headers.get name = some value := by
  induction headers with
  | nil => cases hmem
  | cons header rest ih =>
    obtain ⟨hfirst, hrest⟩ := List.pairwise_cons.1 h
    obtain ⟨key, held⟩ := header
    rw [get, List.lookup_cons]
    rcases List.mem_cons.1 hmem with he | hmem
    · cases he
      rw [BEq.rfl]
    · have hne : name ≠ key := ne_of_gt (hfirst _ hmem)
      rw [beq_eq_false_iff_ne.2 hne]
      exact ih hrest hmem

theorem InOrder.ext {headers headers' : Headers} (h : headers.InOrder) (h' : headers'.InOrder)
    (hget : ∀ name, headers.get name = headers'.get name) : headers = headers' := by
  have hnodup : ∀ {headers : Headers}, headers.InOrder → headers.Nodup := by
    intro headers horder
    refine List.Pairwise.imp ?_ horder
    rintro a b hlt rfl
    exact lt_irrefl _ hlt
  apply List.Perm.eq_of_pairwise ?_ h h'
  · apply (List.perm_ext_iff_of_nodup (hnodup h) (hnodup h')).2
    rintro ⟨name, value⟩
    constructor
    · intro hmem
      exact mem_of_get ((hget name).symm.trans (h.get_of_mem hmem))
    · intro hmem
      exact mem_of_get ((hget name).trans (h'.get_of_mem hmem))
  · intro a b _ _ hab hba
    exact absurd (hab.trans hba) (lt_irrefl _)

end Headers

structure SameButCredentials (request request' : Request) : Prop where
  method : request.method = request'.method
  url : request.url = request'.url
  body : request.body = request'.body
  headers : ∀ name, name ≠ "authorization".toList → name ≠ Worker.recoverySecretHeader →
    request.headers.get name = request'.headers.get name

def sentOf (call : WorkerCall) : Option Request :=
  match call with
  | .upstream (.fetch request) => some request
  | _ => none

/-- Whatever the upstream and the cache do, the runs send the same requests, leave the same
    state and respond in the same way. -/
def SameForwarding (env : WorkerEnv) (now : ℤ) (request request' : Request) : Prop :=
  ∀ (σ : Type) (handle : σ → (call : outsideCalls.Op) → outsideCalls.Ret call × σ) (s : σ),
    ((Worker.fetch env now request).calls handle s).filterMap (fun met => sentOf met.2)
        = ((Worker.fetch env now request').calls handle s).filterMap (fun met => sentOf met.2) ∧
      (Worker.fetch env now request).run handle s = (Worker.fetch env now request').run handle s

namespace Worker

theorem fallThrough_congr {request request' : Request} (hmethod : request.method = request'.method)
    (h : Fallthrough.upstreamRequest request = Fallthrough.upstreamRequest request') :
    fallThrough request = fallThrough request' := by
  unfold fallThrough Fallthrough.fallThrough
  rw [hmethod, h]

theorem upstreamRequest_get {request : Request} {name : Str} (hauthorization : name ≠ "authorization".toList)
    (hdest : name ≠ "sec-fetch-dest".toList) (haccept : name ≠ "accept".toList) :
    (Fallthrough.upstreamRequest request).headers.get name = request.headers.get name := by
  change (Headers.set _ _ _).get name = _
  rw [Headers.get_set_of_ne haccept, Headers.get_delete_of_ne hdest, Headers.get_delete_of_ne hauthorization]

def unreachable (_ : Unit) : (call : WorkerCall) → call.Answer × Unit
  | .admission _ _ => (.error [], ())
  | .package _ _ => (.error [], ())
  | .discover _ _ _ => (.failed, ())
  | .get _ => (.error [], ())
  | .upstream (.fetch _) => (.error [], ())
  | .upstream (.cacheMatch _) => (.ok none, ())
  | .upstream (.cachePut _ _) => (.ok (), ())

theorem sent_unreachable (request : Request) : ∃ sent : Request,
    (Program.calls (E := outsideCalls) unreachable (fallThrough request) ()).filterMap
        (fun met => sentOf met.2) = [sent] ∧
      sent.headers = (Fallthrough.upstreamRequest request).headers := by
  unfold fallThrough Fallthrough.fallThrough
  dsimp only
  split
  · exact ⟨_, rfl, rfl⟩
  · split
    · exact ⟨_, rfl, rfl⟩
    · exact ⟨_, rfl, rfl⟩
    · exact ⟨_, rfl, rfl⟩

end Worker

theorem SameButCredentials.upstreamRequest {request request' : Request}
    (h : SameButCredentials request request') (hr : request.headers.InOrder) (hr' : request'.headers.InOrder)
    (hsecret : request.headers.get Worker.recoverySecretHeader
      = request'.headers.get Worker.recoverySecretHeader) :
    Fallthrough.upstreamRequest request = Fallthrough.upstreamRequest request' := by
  have hheaders : request.headers.delete "authorization".toList
      = request'.headers.delete "authorization".toList := by
    apply (hr.delete _).ext (hr'.delete _)
    intro name
    by_cases hauthorization : name = "authorization".toList
    · rw [hauthorization, Headers.get_delete_self, Headers.get_delete_self]
    · rw [Headers.get_delete_of_ne hauthorization, Headers.get_delete_of_ne hauthorization]
      by_cases hname : name = Worker.recoverySecretHeader
      · rw [hname, hsecret]
      · exact h.headers name hauthorization hname
  rw [Fallthrough.upstreamRequest, Fallthrough.upstreamRequest, hheaders, h.method, h.url, h.body]

/-- Requests that fall through are forwarded in the same way exactly if they carry the same
    recovery secret. -/
theorem sameForwarding_iff (env : WorkerEnv) (now : ℤ) {request request' : Request}
    (hr : request.headers.InOrder) (hr' : request'.headers.InOrder)
    (hsame : SameButCredentials request request') (hfalls : FallsThrough env request.url.pathname) :
    SameForwarding env now request request' ↔ request.headers.get Worker.recoverySecretHeader
      = request'.headers.get Worker.recoverySecretHeader := by
  have hfalls' : FallsThrough env request'.url.pathname := hsame.url ▸ hfalls
  rw [SameForwarding, Worker.fetch_fallsThrough hfalls, Worker.fetch_fallsThrough hfalls']
  constructor
  · intro h
    obtain ⟨hsent, -⟩ := h Unit Worker.unreachable ()
    obtain ⟨sent, hcalls, hheaders⟩ := Worker.sent_unreachable request
    obtain ⟨sent', hcalls', hheaders'⟩ := Worker.sent_unreachable request'
    rw [hcalls, hcalls'] at hsent
    obtain ⟨rfl, -⟩ := List.cons.inj hsent
    have hauthorization : Worker.recoverySecretHeader ≠ "authorization".toList := by decide
    have hdest : Worker.recoverySecretHeader ≠ "sec-fetch-dest".toList := by decide
    have haccept : Worker.recoverySecretHeader ≠ "accept".toList := by decide
    rw [← Worker.upstreamRequest_get hauthorization hdest haccept, ← hheaders, hheaders',
      Worker.upstreamRequest_get hauthorization hdest haccept]
  · intro hsecret σ handle s
    rw [Worker.fallThrough_congr hsame.method (hsame.upstreamRequest hr hr' hsecret)]
    exact ⟨rfl, rfl⟩

def bareEnv : WorkerEnv := ⟨none, none, none, true, true, true⟩

def recoveryRequest (headers : Headers) : Request :=
  ⟨"POST".toList, ⟨"https://proxy.example".toList, "/-/recover/@acme/widget/0.1.7".toList, []⟩, headers,
    Utf8.encode "\x7b\"reason\":\"broken\"\x7d".toList⟩

def secretRecovery : Request := recoveryRequest [(Worker.recoverySecretHeader, "secret".toList)]

theorem recovery_fallsThrough : FallsThrough bareEnv "/-/recover/@acme/widget/0.1.7".toList :=
  ⟨⟨.empty, []⟩, rfl, (rfl : (OrderedMap.empty : OrderedMap Str GitHubScope).get? "acme".toList = none)⟩

theorem recovery_same : SameButCredentials secretRecovery (recoveryRequest []) where
  method := rfl
  url := rfl
  body := rfl
  headers name _ hname := by
    rw [Headers.get, Headers.get, secretRecovery, recoveryRequest, recoveryRequest, List.lookup_cons,
      beq_eq_false_iff_ne.2 hname]

theorem sameForwarding_iff_authorized :
    SameForwarding bareEnv 0 (recoveryRequest [("authorization".toList, "Bearer pat".toList)])
        (recoveryRequest []) ↔
      (recoveryRequest [("authorization".toList, "Bearer pat".toList)]).headers.get
        Worker.recoverySecretHeader = (recoveryRequest []).headers.get Worker.recoverySecretHeader := by
  apply sameForwarding_iff
  · exact List.pairwise_singleton _ _
  · exact .nil
  · refine ⟨rfl, rfl, rfl, ?_⟩
    intro name hname _
    rw [Headers.get, Headers.get, recoveryRequest, recoveryRequest, List.lookup_cons,
      beq_eq_false_iff_ne.2 hname]
  · exact recovery_fallsThrough

/-- The secret is sent to the upstream. -/
theorem secretRecovery_forwarded : secretRecovery.headers.InOrder ∧ (recoveryRequest []).headers.InOrder ∧
    SameButCredentials secretRecovery (recoveryRequest []) ∧
    FallsThrough bareEnv secretRecovery.url.pathname ∧
    ¬ SameForwarding bareEnv 0 secretRecovery (recoveryRequest []) := by
  refine ⟨List.pairwise_singleton _ _, .nil, recovery_same, recovery_fallsThrough, ?_⟩
  intro h
  obtain ⟨hsent, -⟩ := h Unit Worker.unreachable ()
  rw [Worker.fetch_fallsThrough recovery_fallsThrough, Worker.fetch_fallsThrough recovery_fallsThrough] at hsent
  obtain ⟨sent, hcalls, hheaders⟩ := Worker.sent_unreachable secretRecovery
  obtain ⟨sent', hcalls', hheaders'⟩ := Worker.sent_unreachable (recoveryRequest [])
  rw [hcalls, hcalls'] at hsent
  obtain ⟨rfl, -⟩ := List.cons.inj hsent
  rw [hheaders] at hheaders'
  exact absurd hheaders' (by decide)

end JsrProxy
