import JsrProxy.RepositoryDecisions

set_option autoImplicit false

/-!
# Cached decisions

Any number of `/authorize` requests at once. A decision is stored under the
fingerprint, with an expiry that only an answer of GitHub sets. A grant that is found
there has an answer of the last minute behind it, but for whichever repository the
fingerprint last asked about.
-/
namespace JsrProxy
open ObjectHandlers

abbrev AuthScene := Scene objectCalls World (Option AuthorizeBody)

abbrev AuthPool := Pool objectCalls World (Option AuthorizeBody) (Reply ObjectBody)

abbrev AuthEvent := PoolEvent (Option AuthorizeBody) Choice

abbrev AuthCalled := Called objectCalls (Option AuthorizeBody)

def AuthPool.step (env : ObjectEnv) (pool : AuthPool) (e : AuthEvent) : AuthPool :=
  Pool.step (authorize env) World.answer pool e

def readCall (i : ℕ) (body : AuthorizeBody) (answer : Except Str (Option AdmissionRecord)) (now : ℤ) :
    AuthCalled :=
  ⟨i, some body, (.readDecision (repositoryKey body.fingerprint) : ObjectCall), (answer, now)⟩

def fetchCall (i : ℕ) (body : AuthorizeBody) (request : Request) (answer : Except Str Fetched)
    (received : ℤ) : AuthCalled :=
  ⟨i, some body, (.fetch request .follow : ObjectCall), (answer, received)⟩

def writeCall (i : ℕ) (body : AuthorizeBody) (record : AdmissionRecord) (answer : Except Str Unit)
    (now : ℤ) : AuthCalled :=
  ⟨i, some body, (.writeDecision (repositoryKey body.fingerprint) record : ObjectCall), (answer, now)⟩

def sentRequest (body : AuthorizeBody) : Except Str Request :=
  Auth.githubRequest (repositoryPath body.owner body.repository) body.pat

inductive HandlerCalls (env : ObjectEnv) (i : ℕ) (body : AuthorizeBody) : List AuthCalled → Prop
  | read (answer : Except Str (Option AdmissionRecord)) (now : ℤ) :
    HandlerCalls env i body [readCall i body answer now]
  | fetched (cached : Option AdmissionRecord) (now : ℤ)
    (hmiss : ∀ record, cached = some record → ¬ now < record.expiresAt) (request : Request)
    (hrequest : sentRequest body = .ok request) (answer : Except Str Fetched) (received : ℤ) :
    HandlerCalls env i body [fetchCall i body request answer received, readCall i body (.ok cached) now]
  | wrote (cached : Option AdmissionRecord) (now : ℤ)
    (hmiss : ∀ record, cached = some record → ¬ now < record.expiresAt) (request : Request)
    (hrequest : sentRequest body = .ok request) (github : Fetched) (received : ℤ)
    (decision : AdmissionRecord)
    (hclass : Auth.classifyGitHubResponse github received = .decision decision)
    (answer : Except Str Unit) (finished : ℤ) :
    HandlerCalls env i body
      [writeCall i body (repositoryDecision env body.repository github decision) answer finished,
        fetchCall i body request (.ok github) received, readCall i body (.ok cached) now]

def writeOf (key : Str) (called : AuthCalled) : Option (ℕ × AuthorizeBody × AdmissionRecord) :=
  match called with
  | ⟨i, some body, .writeDecision key' record, (.ok (), _)⟩ =>
    if key' = key then some (i, body, record) else none
  | _ => none

def lastWrite (history : List AuthCalled) (key : Str) : Option (ℕ × AuthorizeBody × AdmissionRecord) :=
  history.findSome? (writeOf key)

def returnedAt (s : AuthScene) (i : ℕ) : Option ℤ := (s.own i).head?.map fun called => called.answer.2

def ClockForward (s : AuthScene) (choice : Choice) : Prop := s.world.clock ≤ choice.time

/-- A stored grant that has not run out is found only by requests for the owner and the
    repository that it was stored for. -/
def HitsOwn (s : AuthScene) (request : Option AuthorizeBody) (call : objectCalls.Op) (choice : Choice) :
    Prop :=
  ∀ body key record, request = some body → call = .readDecision key → choice.fault = none →
    s.world.decisions key = some record → record.granted = true → choice.time < record.expiresAt →
    ∀ i writer written, lastWrite s.history key = some (i, writer, written) →
      writer.owner = body.owner ∧ writer.repository = body.repository

def HitsAllowed (s : AuthScene) (_ : ℕ) (request : Option AuthorizeBody) (call : objectCalls.Op)
    (choice : Choice) : Prop :=
  ClockForward s choice ∧ HitsOwn s request call choice

/-- A success of GitHub for the same fingerprint, owner and repository, which came to the
    handler itself or within the minute before it returned. -/
def Backed (s : AuthScene) (i : ℕ) (body : AuthorizeBody) : Prop :=
  ∃ j asker request github received, fetchCall j asker request (.ok github) received ∈ s.history ∧
    sentRequest asker = .ok request ∧ github.ok = true ∧ asker.fingerprint = body.fingerprint ∧
    asker.owner = body.owner ∧ asker.repository = body.repository ∧
    (j = i ∨ ∃ t, returnedAt s i = some t ∧ received ≤ t ∧ t < received + 60000)

structure SoundDecisions (pool : AuthPool) : Prop where
  granted : ∀ i body status record, pool.Finished i (some body) (.json status (.decision record)) →
    record.granted = true → Backed pool.scene i body
  /-- A handler that finds a decision returns it and makes no other call. -/
  found : ∀ i body record now, readCall i body (.ok (some record)) now ∈ pool.scene.history →
    now < record.expiresAt → pool.scene.own i = [readCall i body (.ok (some record)) now] ∧
      ∀ reply, pool.Finished i (some body) reply → reply = .json 200 (.decision record)
  /-- What is stored runs out a minute after the answer that it was made of. -/
  stored : ∀ i body record answer now, writeCall i body record answer now ∈ pool.scene.history →
    ∃ request github received, fetchCall i body request (.ok github) received ∈ pool.scene.history ∧
      record.expiresAt = received + 60000
  unavailable : ∀ i body request github received seconds,
    fetchCall i body request (.ok github) received ∈ pool.scene.history →
    Auth.classifyGitHubResponse github received = .unavailable seconds →
    ∀ record answer now, writeCall i body record answer now ∉ pool.scene.history

namespace CachedDecisions

variable {env : ObjectEnv}

structure SoundScene (env : ObjectEnv) (s : AuthScene) : Prop where
  shaped : ∀ i, s.own i = [] ∨ ∃ body, HandlerCalls env i body (s.own i)
  stored : ∀ key record, s.world.decisions key = some record →
    ∃ i body, lastWrite s.history key = some (i, body, record)
  past : ∀ called ∈ s.history, called.answer.2 ≤ s.world.clock

def Rely (i : ℕ) (s t : AuthScene) : Prop := t.own i = s.own i ∧ ∀ called ∈ s.history, called ∈ t.history

def Guar (env : ObjectEnv) (i : ℕ) (s t : AuthScene) : Prop :=
  (SoundScene env s → SoundScene env t) ∧ ∃ called, called.thread = i ∧ t.history = called :: s.history

theorem SoundScene.calls {s : AuthScene} (h : SoundScene env s) {called : AuthCalled}
    (hmem : called ∈ s.history) :
    ∃ body, HandlerCalls env called.thread body (s.own called.thread) ∧ called ∈ s.own called.thread := by
  have hown := Scene.mem_own.2 hmem
  rcases h.shaped called.thread with hnone | ⟨body, hshape⟩
  · rw [hnone] at hown
    cases hown
  · exact ⟨body, hshape, hown⟩

theorem repositoryKey_injective {fingerprint fingerprint' : Str}
    (h : repositoryKey fingerprint = repositoryKey fingerprint') : fingerprint = fingerprint' :=
  List.append_cancel_left h

theorem repositoryDecision_expiresAt (repository : Str) (github : Fetched) (decision : AdmissionRecord) :
    (repositoryDecision env repository github decision).expiresAt = decision.expiresAt := by
  unfold repositoryDecision
  split
  · split
    · split <;> rfl
    · rfl
  · rfl

theorem SoundScene.written {s : AuthScene} (h : SoundScene env s) {i : ℕ} {body : AuthorizeBody}
    {key : Str} {record : AdmissionRecord} {answer : Except Str Unit × ℤ}
    (hmem : (⟨i, some body, (.writeDecision key record : ObjectCall), answer⟩ : AuthCalled) ∈ s.history) :
    key = repositoryKey body.fingerprint ∧ ∃ request github received decision cached now,
      sentRequest body = .ok request ∧ Auth.classifyGitHubResponse github received = .decision decision ∧
      record = repositoryDecision env body.repository github decision ∧
      s.own i = [writeCall i body record answer.1 answer.2, fetchCall i body request (.ok github) received,
        readCall i body (.ok cached) now] := by
  obtain ⟨writer, hshape, hown⟩ := h.calls hmem
  dsimp only at hshape hown
  cases hcalls : s.own i with
  | nil =>
    rw [hcalls] at hown
    cases hown
  | cons latest earlier =>
    rw [hcalls] at hshape hown
    cases hshape with
    | read answer now =>
      cases List.mem_singleton.1 hown
    | fetched cached now hmiss request hrequest answer received =>
      rcases List.mem_cons.1 hown with hfetch | hread
      · cases hfetch
      · cases List.mem_singleton.1 hread
    | wrote cached now hmiss request hrequest github received decision hclass answer finished =>
      rcases List.mem_cons.1 hown with hwrite | hearlier
      · cases hwrite
        exact ⟨rfl, request, github, received, decision, cached, now, hrequest, hclass, rfl, rfl⟩
      · rcases List.mem_cons.1 hearlier with hfetch | hread
        · cases hfetch
        · cases List.mem_singleton.1 hread

theorem SoundScene.fetched {s : AuthScene} {i : ℕ} {body : AuthorizeBody} {request : Request}
    {github : Fetched} {received : ℤ} {latest : AuthCalled} {earlier : List AuthCalled}
    (hown : s.own i = latest :: fetchCall i body request (.ok github) received :: earlier) :
    fetchCall i body request (.ok github) received ∈ s.history := by
  apply @Scene.mem_of_own _ _ _ _ i
  rw [hown]
  exact List.mem_cons_of_mem _ List.mem_cons_self

theorem writeOf_eq_some {key : Str} {called : AuthCalled} {i : ℕ} {body : AuthorizeBody}
    {record : AdmissionRecord} (h : writeOf key called = some (i, body, record)) :
    ∃ now, called = ⟨i, some body, (.writeDecision key record : ObjectCall), (.ok (), now)⟩ := by
  unfold writeOf at h
  split at h
  · rename_i now
    split_ifs at h with hkey
    cases h
    subst hkey
    exact ⟨now, rfl⟩
  · cases h

theorem stored_call {s t : AuthScene} {called : AuthCalled} (hhistory : t.history = called :: s.history)
    (hdecisions : t.world.decisions = s.world.decisions) (hwrite : ∀ key, writeOf key called = none)
    (h : ∀ key record, s.world.decisions key = some record →
      ∃ i body, lastWrite s.history key = some (i, body, record)) :
    ∀ key record, t.world.decisions key = some record →
      ∃ i body, lastWrite t.history key = some (i, body, record) := by
  intro key record hrecord
  rw [hdecisions] at hrecord
  rw [hhistory, lastWrite, List.findSome?_cons, hwrite]
  exact h key record hrecord

theorem stored_write {t : AuthScene} {i : ℕ} {body : AuthorizeBody} {choice : Choice} (key : Str)
    (record : AdmissionRecord) (h : SoundScene env t) (key' : Str) (record' : AdmissionRecord)
    (hrecord : (t.call World.answer i (some body) choice (.writeDecision key record)).2.world.decisions key'
      = some record') :
    ∃ j writer, lastWrite (t.call World.answer i (some body) choice (.writeDecision key record)).2.history
      key' = some (j, writer, record') := by
  have hhistory := Scene.call_history World.answer t i (some body) choice (.writeDecision key record)
  cases hfault : choice.fault with
  | some message =>
    have hresult : (t.call World.answer i (some body) choice (.writeDecision key record)).1
        = (.error message, choice.time) := by
      change ((World.perform t.world choice (.writeDecision key record)).1, choice.time) = _
      rw [World.perform, hfault]
    have hdecisions : (t.call World.answer i (some body) choice
        (.writeDecision key record)).2.world.decisions = t.world.decisions := by
      change (World.perform t.world choice (.writeDecision key record)).2.decisions = _
      rw [World.perform, hfault]
    rw [hresult] at hhistory
    exact stored_call hhistory hdecisions (fun _ => rfl) h.stored key' record' hrecord
  | none =>
    have hresult : (t.call World.answer i (some body) choice (.writeDecision key record)).1
        = (.ok (), choice.time) := by
      change ((World.perform t.world choice (.writeDecision key record)).1, choice.time) = _
      rw [World.perform, hfault]
    have hdecisions : (t.call World.answer i (some body) choice
        (.writeDecision key record)).2.world.decisions
          = Function.update t.world.decisions key (some record) := by
      change (World.perform t.world choice (.writeDecision key record)).2.decisions = _
      rw [World.perform, hfault]
    rw [hdecisions, Function.update_apply] at hrecord
    rw [hresult] at hhistory
    rw [hhistory, lastWrite, List.findSome?_cons]
    by_cases hkey : key' = key
    · rw [if_pos hkey] at hrecord
      obtain rfl := Option.some.inj hrecord
      refine ⟨i, body, ?_⟩
      simp only [writeOf, if_pos hkey.symm]
    · rw [if_neg hkey] at hrecord
      simp only [writeOf, if_neg (Ne.symm hkey)]
      exact h.stored key' record' hrecord

theorem guar_call {t : AuthScene} {i : ℕ} {body : AuthorizeBody} {choice : Choice} {call : ObjectCall}
    (hclock : ClockForward t choice)
    (hshape : HandlerCalls env i body ((t.call World.answer i (some body) choice call).2.own i))
    (hstored : SoundScene env t → ∀ key record,
      (t.call World.answer i (some body) choice call).2.world.decisions key = some record →
      ∃ j writer, lastWrite (t.call World.answer i (some body) choice call).2.history key
        = some (j, writer, record)) :
    Guar env i t (t.call World.answer i (some body) choice call).2 := by
  refine ⟨?_, _, rfl, rfl⟩
  intro hsound
  refine ⟨?_, hstored hsound, ?_⟩
  · intro j
    by_cases hj : j = i
    · subst hj
      exact .inr ⟨body, hshape⟩
    · rw [Scene.own_call_of_ne _ _ _ _ _ _ hj]
      exact hsound.shaped j
  · intro called hcalled
    rcases List.mem_cons.1 hcalled with rfl | hcalled
    · exact le_refl choice.time
    · exact (hsound.past called hcalled).trans hclock

structure Returned (i : ℕ) (body : AuthorizeBody) (reply : Reply ObjectBody) (s : AuthScene) : Prop where
  granted : ∀ status record, reply = .json status (.decision record) → record.granted = true →
    Backed s i body
  hit : ∀ record now, s.own i = [readCall i body (.ok (some record)) now] → now < record.expiresAt →
    reply = .json 200 (.decision record)

/-- From here on the handler keeps what is stored sound and ends with a backed decision. -/
abbrev Ensured (env : ObjectEnv) (i : ℕ) (body : AuthorizeBody) (p : Handling) (s : AuthScene) : Prop :=
  p.Ensures (Answered World.answer HitsAllowed (SoundScene env) i (some body)) (Rely i) (Guar env i)
    (Returned i body) s

theorem backed_mono {i : ℕ} {body : AuthorizeBody} {s t : AuthScene} (h : Backed s i body)
    (hrely : Rely i s t) : Backed t i body := by
  obtain ⟨j, asker, request, github, received, hmem, hrequest, hok, hprint, howner, hname, hwhen⟩ := h
  refine ⟨j, asker, request, github, received, hrely.2 _ hmem, hrequest, hok, hprint, howner, hname, ?_⟩
  rw [returnedAt, hrely.1]
  exact hwhen

theorem Returned.mono {i : ℕ} {body : AuthorizeBody} {reply : Reply ObjectBody} {s t : AuthScene}
    (h : Returned i body reply s) (hrely : Rely i s t) : Returned i body reply t where
  granted status record hreply hgranted := backed_mono (h.granted status record hreply hgranted) hrely
  hit record now hown := h.hit record now (hrely.1 ▸ hown)

theorem ensured_failed {i : ℕ} {body : AuthorizeBody} {reply : Reply ObjectBody} {s : AuthScene}
    (hreply : ∀ status record, reply ≠ .json status (.decision record))
    (hmiss : ∀ record now, s.own i = [readCall i body (.ok (some record)) now] → ¬ now < record.expiresAt) :
    Ensured env i body (.done reply) s := by
  refine .done ⟨?_, ?_⟩
  · exact fun status record h => absurd h (hreply status record)
  · exact fun record now hown hbefore => absurd hbefore (hmiss record now hown)

theorem ensured_decide {i : ℕ} {body : AuthorizeBody} {s : AuthScene} {cached : Option AdmissionRecord}
    {now : ℤ} (hmiss : ∀ record, cached = some record → ¬ now < record.expiresAt) {request : Request}
    (hrequest : sentRequest body = .ok request) {github : Fetched} {received : ℤ}
    {decision : AdmissionRecord} (hclass : Auth.classifyGitHubResponse github received = .decision decision)
    (hown : s.own i = [fetchCall i body request (.ok github) received, readCall i body (.ok cached) now]) :
    Ensured env i body (ObjectHandlers.decide (repositoryKey body.fingerprint)
      (repositoryDecision env body.repository github decision)) s := by
  apply Program.Ensures.of_call
  rintro t hrely answer u ⟨-, choice, ⟨hclock, -⟩, hanswer⟩
  have hcall := congrArg Prod.fst hanswer
  obtain rfl := congrArg Prod.snd hanswer
  dsimp only at hcall
  have howned : (t.call World.answer i (some body) choice (.writeDecision (repositoryKey body.fingerprint)
      (repositoryDecision env body.repository github decision))).2.own i = [writeCall i body
        (repositoryDecision env body.repository github decision) answer.1 answer.2,
        fetchCall i body request (.ok github) received, readCall i body (.ok cached) now] := by
    rw [Scene.own_call_self, hcall, hrely.1, hown]
    rfl
  refine ⟨guar_call hclock ?_ ?_, ?_⟩
  · rw [howned]
    exact .wrote cached now hmiss request hrequest github received decision hclass _ _
  · exact fun hsound => stored_write _ _ hsound
  · have hlater : ∀ record now, (t.call World.answer i (some body) choice (.writeDecision
        (repositoryKey body.fingerprint) (repositoryDecision env body.repository github decision))).2.own i
          = [readCall i body (.ok (some record)) now] → ¬ now < record.expiresAt := by
      intro record now hread
      rw [howned] at hread
      cases hread
    cases hsaved : answer.1 with
    | error message => exact ensured_failed (by intro _ _ h; cases h) hlater
    | ok _ =>
      refine .done ⟨?_, fun record now hread hbefore => absurd hbefore (hlater record now hread)⟩
      intro status record hreply hgranted
      cases hreply
      have hdecision := (repositoryDecision_granted.1 hgranted).1
      refine ⟨i, body, request, github, received, ?_, hrequest, (Auth.classify_granted hclass hdecision).1,
        rfl, rfl, rfl, .inl rfl⟩
      exact SoundScene.fetched howned

theorem ensured_askGitHub {i : ℕ} {body : AuthorizeBody} {s : AuthScene} {cached : Option AdmissionRecord}
    {now : ℤ} (hmiss : ∀ record, cached = some record → ¬ now < record.expiresAt)
    (hown : s.own i = [readCall i body (.ok cached) now]) :
    Ensured env i body (askGitHub (repositoryPath body.owner body.repository) body.pat
      fun github decision => ObjectHandlers.decide (repositoryKey body.fingerprint)
        (repositoryDecision env body.repository github decision)) s := by
  cases hrequest : sentRequest body with
  | error message =>
    unfold askGitHub
    rw [← sentRequest, hrequest]
    refine ensured_failed (by intro _ _ h; cases h) ?_
    intro record now' hread
    rw [hown] at hread
    cases hread
    exact hmiss record rfl
  | ok request =>
    unfold askGitHub
    rw [← sentRequest, hrequest]
    apply Program.Ensures.of_call
    rintro t hrely answer u ⟨-, choice, ⟨hclock, -⟩, hanswer⟩
    have hcall := congrArg Prod.fst hanswer
    obtain rfl := congrArg Prod.snd hanswer
    dsimp only at hcall
    have howned : (t.call World.answer i (some body) choice (.fetch request .follow)).2.own i
        = [fetchCall i body request answer.1 answer.2, readCall i body (.ok cached) now] := by
      rw [Scene.own_call_self, hcall, hrely.1, hown]
      rfl
    have hlater : ∀ record now', (t.call World.answer i (some body) choice (.fetch request .follow)).2.own i
        = [readCall i body (.ok (some record)) now'] → ¬ now' < record.expiresAt := by
      intro record now' hread
      rw [howned] at hread
      cases hread
    refine ⟨guar_call hclock ?_ ?_, ?_⟩
    · rw [howned]
      exact .fetched cached now hmiss request hrequest _ _
    · exact fun hsound => stored_call (Scene.call_history ..) rfl (fun _ => rfl) hsound.stored
    · cases hgithub : answer.1 with
      | error message => exact ensured_failed (by intro _ _ h; cases h) hlater
      | ok github =>
        rw [hgithub] at howned
        simp only [orThrow]
        cases hclass : Auth.classifyGitHubResponse github answer.2 with
        | unavailable seconds => exact ensured_failed (by intro _ _ h; cases h) hlater
        | decision decision => exact ensured_decide hmiss hrequest hclass howned

theorem readDecision_found {world : World} {choice : Choice} {key : Str}
    {answer : Except Str (Option AdmissionRecord)} {found : Option AdmissionRecord}
    (hanswer : (World.perform world choice (.readDecision key)).1 = answer) (hfound : answer = .ok found) :
    choice.fault = none ∧ world.decisions key = found := by
  rw [hfound] at hanswer
  unfold World.perform at hanswer
  cases hfault : choice.fault with
  | some message =>
    rw [hfault] at hanswer
    cases hanswer
  | none =>
    rw [hfault] at hanswer
    exact ⟨rfl, Except.ok.inj hanswer⟩

theorem backed_hit {i : ℕ} {body : AuthorizeBody} {t : AuthScene} {choice : Choice}
    {record : AdmissionRecord} (hsound : SoundScene env t)
    (hallowed : HitsAllowed t i (some body) (.readDecision (repositoryKey body.fingerprint)) choice)
    (hfault : choice.fault = none)
    (hfound : t.world.decisions (repositoryKey body.fingerprint) = some record)
    (hgranted : record.granted = true) (hbefore : choice.time < record.expiresAt) :
    Backed (t.call World.answer i (some body) choice
      (.readDecision (repositoryKey body.fingerprint))).2 i body := by
  obtain ⟨hclock, hown⟩ := hallowed
  obtain ⟨j, writer, hlast⟩ := hsound.stored _ _ hfound
  obtain ⟨howner, hname⟩ := hown body _ record rfl rfl hfault hfound hgranted hbefore j writer record hlast
  obtain ⟨called, hmem, hwrite⟩ := List.exists_of_findSome?_eq_some hlast
  obtain ⟨stored, rfl⟩ := writeOf_eq_some hwrite
  obtain ⟨hkey, request, github, received, decision, _, _, hrequest, hclass, rfl, hcalls⟩ :=
    hsound.written hmem
  have hfetch := SoundScene.fetched hcalls
  rw [repositoryDecision_expiresAt, Auth.classify_decision hclass] at hbefore
  have hdecision := (repositoryDecision_granted.1 hgranted).1
  have hpast : received ≤ t.world.clock := hsound.past _ hfetch
  refine ⟨j, writer, request, github, received, List.mem_cons_of_mem _ hfetch, hrequest,
    (Auth.classify_granted hclass hdecision).1, (repositoryKey_injective hkey).symm, howner, hname, .inr ?_⟩
  refine ⟨choice.time, ?_, hpast.trans hclock, hbefore⟩
  rw [returnedAt, Scene.own_call_self]
  rfl

theorem ensured_authorize (i : ℕ) (body : AuthorizeBody) {s : AuthScene} (hnone : s.own i = []) :
    Ensured env i body (authorize env (some body)) s := by
  apply Program.Ensures.of_call
  rintro t hrely answer u ⟨hsound, choice, hallowed, hanswer⟩
  have hcall := congrArg Prod.fst hanswer
  obtain rfl := congrArg Prod.snd hanswer
  dsimp only at hcall
  have howned : (t.call World.answer i (some body) choice
      (.readDecision (repositoryKey body.fingerprint))).2.own i = [readCall i body answer.1 answer.2] := by
    rw [Scene.own_call_self, hcall, hrely.1, hnone]
    rfl
  have hdecisions : (t.call World.answer i (some body) choice
      (.readDecision (repositoryKey body.fingerprint))).2.world.decisions = t.world.decisions := by
    change (World.perform t.world choice (.readDecision (repositoryKey body.fingerprint))).2.decisions = _
    unfold World.perform
    cases choice.fault <;> rfl
  refine ⟨guar_call hallowed.1 ?_ ?_, ?_⟩
  · rw [howned]
    exact .read _ _
  · exact fun hsound => stored_call (Scene.call_history ..) hdecisions (fun _ => rfl) hsound.stored
  · cases hcached : answer.1 with
    | error message =>
      refine ensured_failed (by intro _ _ h; cases h) ?_
      intro record now hread
      rw [howned, hcached] at hread
      cases hread
    | ok cached =>
      rw [hcached] at howned
      simp only [orThrow]
      cases cached with
      | none =>
        refine ensured_askGitHub ?_ howned
        intro record h
        cases h
      | some record =>
        dsimp only
        by_cases hbefore : answer.2 < record.expiresAt
        · rw [if_pos hbefore]
          refine .done ⟨?_, ?_⟩
          · intro status record' hreply hgranted
            cases hreply
            have hread : (World.perform t.world choice (.readDecision (repositoryKey body.fingerprint))).1
                = answer.1 := congrArg Prod.fst hcall
            obtain ⟨hfault, hfound⟩ := readDecision_found hread hcached
            have hnow : choice.time = answer.2 := congrArg Prod.snd hcall
            exact backed_hit hsound hallowed hfault hfound hgranted (hnow ▸ hbefore)
          · intro record' now hread _
            rw [howned] at hread
            cases hread
            rfl
        · rw [if_neg hbefore]
          refine ensured_askGitHub ?_ howned
          intro record' h
          obtain rfl := Option.some.inj h
          exact hbefore

theorem ensured_handler (i : ℕ) (request : Option AuthorizeBody) {s : AuthScene} (hnone : s.own i = []) :
    (authorize env request).Ensures (Answered World.answer HitsAllowed (SoundScene env) i request) (Rely i)
      (Guar env i) (fun reply t => ∀ body, request = some body → Returned i body reply t) s := by
  cases request with
  | none =>
    refine .done ?_
    intro body h
    cases h
  | some body =>
    refine (ensured_authorize i body hnone).mono ?_
    intro reply t hreturned body' h
    obtain rfl := Option.some.inj h
    exact hreturned

theorem authorize_relyGuarantee (env : ObjectEnv) : RelyGuarantee (authorize env) World.answer HitsAllowed
    (SoundScene env) Rely (Guar env)
    (fun i request reply s => ∀ body, request = some body → Returned i body reply s) where
  starts i request _ _ hnone := ensured_handler i request hnone
  keeps _ _ _ hs hguar := hguar.1 hs
  others i j s t hne _ hguar := by
    obtain ⟨called, rfl, hhistory⟩ := hguar.2
    refine ⟨?_, ?_⟩
    · rw [Scene.own, hhistory, List.filter_cons_of_neg (by simpa using hne), Scene.own]
    · rw [hhistory]
      exact fun _ => List.mem_cons_of_mem _
  refl _ _ := ⟨rfl, fun _ hmem => hmem⟩
  trans _ _ _ _ h h' := ⟨h'.1.trans h.1, fun called hmem => h'.2 called (h.2 called hmem)⟩
  stable _ _ _ _ _ h hrely body hbody := (h body hbody).mono hrely

theorem SoundScene.found_alone {s : AuthScene} (h : SoundScene env s) {i : ℕ} {body : AuthorizeBody}
    {record : AdmissionRecord} {now : ℤ} (hmem : readCall i body (.ok (some record)) now ∈ s.history)
    (hbefore : now < record.expiresAt) : s.own i = [readCall i body (.ok (some record)) now] := by
  obtain ⟨asker, hshape, hown⟩ := h.calls hmem
  change HandlerCalls env i asker (s.own i) at hshape
  change _ ∈ s.own i at hown
  cases hcalls : s.own i with
  | nil =>
    rw [hcalls] at hown
    cases hown
  | cons latest earlier =>
    rw [hcalls] at hshape hown
    cases hshape with
    | read answer now =>
      rw [List.mem_singleton.1 hown]
    | fetched cached now' hmiss request hrequest answer received =>
      rcases List.mem_cons.1 hown with hfetch | hread
      · cases hfetch
      · cases List.mem_singleton.1 hread
        exact absurd hbefore (hmiss record rfl)
    | wrote cached now' hmiss request hrequest github received decision hclass answer finished =>
      rcases List.mem_cons.1 hown with hwrite | hearlier
      · cases hwrite
      · rcases List.mem_cons.1 hearlier with hfetch | hread
        · cases hfetch
        · cases List.mem_singleton.1 hread
          exact absurd hbefore (hmiss record rfl)

theorem soundDecisions_of_sound {pool : AuthPool} (hsound : SoundScene env pool.scene)
    (hreturned : ∀ i body reply, pool.Finished i (some body) reply → Returned i body reply pool.scene) :
    SoundDecisions pool where
  granted i body status record hreply := (hreturned i body _ hreply).granted status record rfl
  found i body record now hmem hbefore := by
    have hown : pool.scene.own i = [readCall i body (.ok (some record)) now] :=
      hsound.found_alone hmem hbefore
    exact ⟨hown, fun reply hreply => (hreturned i body reply hreply).hit record now hown hbefore⟩
  stored i body record answer now hmem := by
    obtain ⟨-, request, github, received, decision, _, _, -, hclass, rfl, hcalls⟩ := hsound.written hmem
    refine ⟨request, github, received, SoundScene.fetched hcalls, ?_⟩
    rw [repositoryDecision_expiresAt, Auth.classify_decision hclass]
  unavailable i body request github received seconds hmem hclass record answer now hwrite := by
    obtain ⟨-, _, _, _, decision, _, _, -, hdecision, -, hcalls⟩ := hsound.written hwrite
    have hown : fetchCall i body request (.ok github) received ∈ pool.scene.own i := Scene.mem_own.2 hmem
    rw [hcalls] at hown
    rcases List.mem_cons.1 hown with hfetch | hearlier
    · cases hfetch
    · rcases List.mem_cons.1 hearlier with hfetch | hread
      · cases hfetch
        rw [hclass] at hdecision
        cases hdecision
      · cases List.mem_singleton.1 hread

end CachedDecisions

open Executions in
/-- Decisions are sound in every run whose clock never goes back and in which a stored grant
    is found only by requests for the repository that it was stored for. -/
theorem soundDecisions_of_hitsOwn (env : ObjectEnv) {world : World} (hworld : ∀ key, world.decisions key = none)
    {events : List AuthEvent}
    (ha : Admitted (AuthPool.step env) (Pool.Admits HitsAllowed) (.start world) events) :
    SoundDecisions (run (AuthPool.step env) (.start world) events) := by
  have hstart : CachedDecisions.SoundScene env ⟨world, []⟩ := by
    refine ⟨fun _ => .inl rfl, ?_, fun _ hmem => nomatch hmem⟩
    intro key record hrecord
    rw [hworld] at hrecord
    cases hrecord
  obtain ⟨hsound, hreturned⟩ := (CachedDecisions.authorize_relyGuarantee env).run hstart ha
  exact CachedDecisions.soundDecisions_of_sound hsound
    fun i body reply hreply => hreturned i (some body) reply hreply body rfl

def gadgetBody : AuthorizeBody := ⟨"print".toList, "acme".toList, "gadget".toList, "pat".toList⟩

/-- Where GitHub answers for a widget of one's own. -/
def widgetChoice : Choice := ⟨0, none, .ok ⟨200, [], .bytes (Utf8.encode
  "\x7b\"name\":\"widget\",\"owner\":\x7b\"login\":\"acme\"\x7d\x7d".toList), "api.github.com".toList⟩, none⟩

def unasked : World := ⟨none, fun _ => none, ObjectStore.empty, 0⟩

def authorizeRun (body : AuthorizeBody) : List AuthEvent :=
  [.start (some widgetBody), .start (some body), .advance 0 widgetChoice, .advance 0 widgetChoice,
    .advance 0 widgetChoice, .advance 1 widgetChoice]

theorem widgetRun_admitted : Executions.Admitted (AuthPool.step lowerEnv) (Pool.Admits HitsAllowed)
    (.start unasked) (authorizeRun widgetBody) := by
  have hclock : (0 : ℤ) ≤ 0 := le_refl 0
  refine ⟨trivial, trivial, ?_, ?_, ?_, ?_, trivial⟩
  · intro request op next h
    cases h
    refine ⟨hclock, ?_⟩
    rintro body key record - - - hfound
    cases hfound
  · intro request op next h
    cases h
    exact ⟨hclock, nofun⟩
  · intro request op next h
    cases h
    exact ⟨hclock, nofun⟩
  · intro request op next h
    cases h
    refine ⟨hclock, ?_⟩
    rintro body key record hbody hkey - - - - i writer written hlast
    cases hbody
    cases hkey
    cases hlast
    exact ⟨rfl, rfl⟩

theorem soundDecisions_widgetRun : SoundDecisions (Executions.run (AuthPool.step lowerEnv)
    (.start unasked) (authorizeRun widgetBody)) :=
  soundDecisions_of_hitsOwn lowerEnv (fun _ => rfl) widgetRun_admitted

def grantedAt (pool : AuthPool) (i : ℕ) : Bool :=
  match pool.threads[i]? with
  | some ⟨_, .done (.json _ (.decision record))⟩ => record.granted
  | _ => false

theorem finished_of_grantedAt {pool : AuthPool} {i : ℕ} (h : grantedAt pool i = true) :
    ∃ request status record, pool.Finished i request (.json status (.decision record)) ∧
      record.granted = true := by
  unfold grantedAt at h
  split at h
  · rename_i request status record hthread
    exact ⟨request, status, record, hthread, h⟩
  · cases h

def askedFor (called : AuthCalled) : Option Str :=
  match called with
  | ⟨_, some body, .fetch _ _, _⟩ => some body.repository
  | _ => none

/-- The grant for the widget is returned for a gadget that GitHub was never asked about. -/
theorem gadgetRun_granted : ¬ SoundDecisions (Executions.run (AuthPool.step lowerEnv)
    (.start unasked) (authorizeRun gadgetBody)) := by
  intro hsound
  have hgranted : grantedAt (Executions.run (AuthPool.step lowerEnv)
      (.start unasked) (authorizeRun gadgetBody)) 1 = true := by
    decide +kernel
  have hasked : (Executions.run (AuthPool.step lowerEnv) (.start unasked)
      (authorizeRun gadgetBody)).scene.history.filterMap askedFor = ["widget".toList] := by
    decide +kernel
  have hrequest : ((Executions.run (AuthPool.step lowerEnv) (.start unasked)
      (authorizeRun gadgetBody)).threads[1]?).map Thread.request = some (some gadgetBody) := by
    decide +kernel
  generalize Executions.run (AuthPool.step lowerEnv) _ (authorizeRun gadgetBody) = pool at *
  obtain ⟨request, status, record, hfinished, hrecord⟩ := finished_of_grantedAt hgranted
  obtain rfl : request = some gadgetBody := by
    rw [hfinished] at hrequest
    exact Option.some.inj hrequest
  obtain ⟨j, asker, request, github, received, hmem, -, -, -, -, hname, -⟩ :=
    hsound.granted 1 gadgetBody status record hfinished hrecord
  have hgadget : asker.repository ∈ pool.scene.history.filterMap askedFor :=
    List.mem_filterMap.2 ⟨_, hmem, rfl⟩
  rw [hasked, hname, List.mem_singleton] at hgadget
  exact absurd hgadget (by decide)

end JsrProxy
