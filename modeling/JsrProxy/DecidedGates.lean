import JsrProxy.CallKinds
import JsrProxy.ObjectTexts

set_option autoImplicit false

/-!
# Decided gates

The two gates have one shape: a stored decision that has not run out, or else what GitHub
answers, which is stored. Wherever objects keep decisions, each grant has an answer of
GitHub behind it that came to the handler itself or within the minute before it returned.
-/
namespace JsrProxy
open ObjectHandlers

/-- What a gate asks GitHub, where it keeps the decision, and how it makes one of an answer. -/
structure Gate where
  key : Str
  path : Str
  pat : Str
  made : Fetched → AdmissionRecord → Except Str AdmissionRecord

namespace Gate

def readExchange (gate : Gate) (answer : Except Str (Option AdmissionRecord)) (now : ℤ) :
    Exchange objectCalls :=
  ⟨(.readDecision gate.key : ObjectCall), (answer, now)⟩

def fetchExchange (request : Request) (answer : Except Str Fetched) (received : ℤ) : Exchange objectCalls :=
  ⟨(.fetch request .follow : ObjectCall), (answer, received)⟩

def handling (gate : Gate) : Handling :=
  cachedDecision gate.key (askGitHub gate.path gate.pat fun github decision =>
    ObjectHandlers.orThrow (gate.made github decision) fun record => decide gate.key record)

/-- A decision is made of an answer of GitHub to the gate's own question. -/
def Decides (gate : Gate) (past : List (Exchange objectCalls)) (record : AdmissionRecord) : Prop :=
  ∃ request github received decision, Auth.githubRequest gate.path gate.pat = .ok request ∧
    fetchExchange request (.ok github) received ∈ past ∧
    Auth.classifyGitHubResponse github received = .decision decision ∧
    gate.made github decision = .ok record

/-- A stored decision is returned before it runs out, or one that is made. -/
inductive Returns (gate : Gate) : List (Exchange objectCalls) → Reply ObjectBody → Prop
  | found {record : AdmissionRecord} {now : ℤ} (h : now < record.expiresAt) :
    Returns gate [gate.readExchange (.ok (some record)) now] (.json 200 (.decision record))
  | decided {past : List (Exchange objectCalls)} {record : AdmissionRecord} (h : gate.Decides past record) :
    Returns gate past (.json 200 (.decision record))
  | refused {past : List (Exchange objectCalls)} {reply : Reply ObjectBody}
      (h : ∀ number response, ObjectTexts.fetched number reply = .ok response → response.ok = false) :
    Returns gate past reply

theorem returns_threw (gate : Gate) (past : List (Exchange objectCalls)) (message : Str) :
    gate.Returns past (.threw message) := by
  apply Returns.refused
  intro number response h
  cases h

theorem returns_unavailable (gate : Gate) (past : List (Exchange objectCalls))
    (retryAfterSeconds : Option ℚ) : gate.Returns past (.json 503 (.unavailable retryAfterSeconds)) := by
  apply Returns.refused
  intro number response h
  obtain rfl := Except.ok.inj h
  rfl

theorem Decides.cons {gate : Gate} {past : List (Exchange objectCalls)} {record : AdmissionRecord}
    (h : gate.Decides past record) (exchange : Exchange objectCalls) : gate.Decides (exchange :: past) record := by
  obtain ⟨request, github, received, decision, hrequest, hfetch, hclass, hmade⟩ := h
  exact ⟨request, github, received, decision, hrequest, List.mem_cons_of_mem _ hfetch, hclass, hmade⟩

/-- Under the gate's key the handler writes only what it has decided. -/
def Writes (gate : Gate) (past : List (Exchange objectCalls)) (call : objectCalls.Op) : Prop :=
  ∀ key record, call = .writeDecision key record → key = gate.key ∧ gate.Decides past record

theorem justified_decide (gate : Gate) {past : List (Exchange objectCalls)} {record : AdmissionRecord}
    (h : gate.Decides past record) : (decide gate.key record).Justified gate.Writes gate.Returns past := by
  refine .call ?_ ?_
  · rintro key written ⟨⟩
    exact ⟨rfl, h⟩
  · rintro ⟨answer, now⟩
    cases answer with
    | error message => exact .done (gate.returns_threw _ message)
    | ok _ => exact .done (.decided (h.cons _))

theorem justified_askGitHub (gate : Gate) (past : List (Exchange objectCalls)) :
    (askGitHub gate.path gate.pat fun github decision =>
      ObjectHandlers.orThrow (gate.made github decision) fun record => decide gate.key record).Justified
        gate.Writes gate.Returns past := by
  unfold askGitHub
  cases hrequest : Auth.githubRequest gate.path gate.pat with
  | error message => exact .done (gate.returns_threw _ message)
  | ok request =>
    refine .call nofun ?_
    rintro ⟨answer, received⟩
    cases answer with
    | error message => exact .done (gate.returns_threw _ message)
    | ok github =>
      dsimp only [ObjectHandlers.orThrow]
      cases hclass : Auth.classifyGitHubResponse github received with
      | unavailable retryAfterSeconds => exact .done (gate.returns_unavailable _ _)
      | decision decision =>
        dsimp only
        cases hmade : gate.made github decision with
        | error message => exact .done (gate.returns_threw _ message)
        | ok record =>
          exact gate.justified_decide ⟨request, github, received, decision, hrequest, List.mem_cons_self,
            hclass, hmade⟩

theorem justified_handling (gate : Gate) : gate.handling.Justified gate.Writes gate.Returns [] := by
  refine .call nofun ?_
  rintro ⟨answer, now⟩
  cases answer with
  | error message => exact .done (gate.returns_threw _ message)
  | ok cached =>
    dsimp only [ObjectHandlers.orThrow]
    cases cached with
    | none => exact gate.justified_askGitHub _
    | some record =>
      dsimp only
      split_ifs with hbefore
      · exact .done (.found hbefore)
      · exact gate.justified_askGitHub _

end Gate

def userGate (env : ObjectEnv) (pat : Str) : Gate := ⟨admissionKey, "/user".toList, pat, admitted env⟩

def repositoryGate (env : ObjectEnv) (body : AuthorizeBody) : Gate :=
  ⟨repositoryKey body.fingerprint, repositoryPath body.owner body.repository, body.pat,
    fun github decision => .ok (repositoryDecision env body.repository github decision)⟩

def gateOf (env : ObjectEnv) : ObjectRequest → Option Gate
  | .check (some (c :: rest)) => some (userGate env (c :: rest))
  | .authorize (some body) => some (repositoryGate env body)
  | _ => none

theorem handle_gate {env : ObjectEnv} {request : ObjectRequest} {gate : Gate}
    (h : gateOf env request = some gate) : handle env request = gate.handling := by
  unfold gateOf at h
  split at h
  · obtain rfl := Option.some.inj h
    rfl
  · obtain rfl := Option.some.inj h
    rfl
  · cases h

theorem stores_nothing {env : ObjectEnv} {request : ObjectRequest} (h : gateOf env request = none)
    (past : List (Exchange objectCalls)) : (handle env request).Justified
      (fun _ call => ∀ key record, call ≠ (.writeDecision key record : ObjectCall)) (fun _ _ => True) past := by
  have hdone : ∀ reply, (.done reply : Handling).Justified
      (fun _ call => ∀ key record, call ≠ (.writeDecision key record : ObjectCall)) (fun _ _ => True) past :=
    fun _ => .done trivial
  have hkind : request.kind ≠ .decisions → (handle env request).Justified
      (fun _ call => ∀ key record, call ≠ (.writeDecision key record : ObjectCall)) (fun _ _ => True) past := by
    intro hkind
    refine ((CallKind.calls_handle env request).justified past).mono ?_ fun _ _ h => h
    rintro _ call hcall key record rfl
    generalize request.kind = kind at hkind hcall
    cases kind with
    | decisions => exact hkind rfl
    | registry | materialization => cases hcall
  cases request with
  | check pat =>
    cases pat with
    | none => exact hdone _
    | some pat =>
      cases pat with
      | nil => exact hdone _
      | cons c rest => cases h
  | authorize body =>
    cases body with
    | none => exact hdone _
    | some body => cases h
  | refresh | recover | complete | materialize | metadata | status | unknown => exact hkind nofun

/-- A decision is stored only by a gate, under its key and as it was decided. -/
def StoresDecided (env : ObjectEnv) (request : ObjectRequest) (past : List (Exchange objectCalls))
    (call : objectCalls.Op) : Prop :=
  ∀ key record, call = .writeDecision key record →
    ∃ gate, gateOf env request = some gate ∧ key = gate.key ∧ gate.Decides past record

def ReturnsDecided (env : ObjectEnv) (request : ObjectRequest) (past : List (Exchange objectCalls))
    (reply : Reply ObjectBody) : Prop :=
  ∀ gate, gateOf env request = some gate → gate.Returns past reply

theorem justified_gates (env : ObjectEnv) (request : ObjectRequest) :
    (handle env request).Justified (StoresDecided env request) (ReturnsDecided env request) [] := by
  cases hgate : gateOf env request with
  | some gate =>
    rw [handle_gate hgate]
    refine gate.justified_handling.mono ?_ ?_
    · intro past call hwrites key record hcall
      obtain ⟨hkey, hdecides⟩ := hwrites key record hcall
      exact ⟨gate, hgate, hkey, hdecides⟩
    · intro past reply hreturns gate' hgate'
      obtain rfl := Option.some.inj (hgate.symm.trans hgate')
      exact hreturns
  | none =>
    refine (stores_nothing hgate []).mono ?_ ?_
    · intro past call hnone key record hcall
      exact absurd hcall (hnone key record)
    · intro past reply _ gate hgate'
      rw [hgate] at hgate'
      cases hgate'

end JsrProxy
