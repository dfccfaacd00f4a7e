import JsrProxy.ConcurrentHandlers
import JsrProxy.LoadableSnapshots
import JsrProxy.OwnCalls

set_option autoImplicit false

/-!
# Handlers as atomic steps

A handler reads the snapshot in one call and writes the next one in a later call. As long
as no other write comes in between, the handlers leave what whole requests would leave one
after another, and each answers as if it had run alone at one of its own calls.
-/
namespace JsrProxy
open PackageObject

/-- The outcome that a completion reports, unless it is a tombstone without a diagnostic. -/
def CompleteBody.outcome (body : CompleteBody) : Option Outcome :=
  match body.state with
  | .ready => some .ready
  | .yanked => body.diagnostic.map .yanked

namespace ObjectHandlers

/-- What a handler answers and leaves when nothing comes in between and nothing fails. -/
def alone (env : ObjectEnv) (row : Stored) (request : ObjectRequest) : Reply ObjectBody × Stored :=
  let (reply, world) := Program.run (fun world => World.answer world plainChoice) (handle env request)
    { emptyWorld with row := row }
  (reply, world.row)

def Immediate : ObjectRequest → Prop
  | .refresh _ | .recover _ | .complete _ | .metadata | .status | .unknown => True
  | .check _ | .authorize _ | .materialize _ => False

/-- What a transition comes to: a reply without a write, or a registry to write with the
    reply that follows. -/
inductive Work
  | answered (reply : Reply ObjectBody)
  | changed (target : PackageRegistry) (reply : Reply ObjectBody)

def transaction (initialName : Option PackageName) (work : PackageRegistry → Work)
    (failed : Str → Reply ObjectBody) : Handling :=
  readRegistry initialName fun registry _ =>
    match work registry with
    | .answered reply => .done reply
    | .changed target reply =>
      saveRegistry target fun saved =>
        match saved with
        | .error message => .done (failed message)
        | .ok () => .done reply

def refreshing (discovery : Branches.BranchDiscovery) (registry : PackageRegistry) : Work :=
  match registry.refresh discovery with
  | (.error message, _) => .answered (.threw message)
  | (.ok created, refreshed) =>
    .changed refreshed (.json 200 (.refreshed (PackageObject.report refreshed) created))

theorem refresh_eq {body : RefreshBody} {discovery : Branches.BranchDiscovery}
    (h : parseDiscovery body.defaultBranch body.branches = some discovery) :
    refresh (some body) = transaction (some body.package) (refreshing discovery) .threw := by
  unfold refresh transaction refreshing
  simp only [h]
  congr 1
  funext registry now
  cases registry.refresh discovery with
  | mk result refreshed =>
    cases result with
    | error message => rfl
    | ok created =>
      dsimp only
      congr 1
      funext saved
      cases saved <;> rfl

def ValidRecovery (body : RecoverBody) : Prop :=
  ((trim body.reason).length = 0 || utf16Length body.reason > 1000 ||
    !Doubles.isSafeInteger body.recoveredAt || body.recoveredAt < 0) = false

def recovering (body : RecoverBody) (registry : PackageRegistry) : Work :=
  match registry.recoverVersion body.version (trim body.reason) body.recoveredAt with
  | (.error message, _) => .answered (.text 409 message none)
  | (.ok job, recovered) => .changed recovered (.json 202 (.recovered job recovered.recoveries))

theorem recover_eq {body : RecoverBody} (h : ValidRecovery body) :
    recover (some body) = transaction none (recovering body) fun message => .text 409 message none := by
  unfold recover transaction recovering
  dsimp only
  rw [if_neg (by rw [h]; decide)]
  congr 1
  funext registry now
  cases registry.recoverVersion body.version (trim body.reason) body.recoveredAt with
  | mk result recovered => cases result <;> rfl

def completing (body : CompleteBody) (registry : PackageRegistry) : Work :=
  match completed registry body with
  | .error reply => .answered reply
  | .ok completed => .changed completed (.json 200 (.packageMeta completed.packageMeta))

theorem complete_eq (body : CompleteBody) :
    complete (some body) = transaction none (completing body) .threw := by
  unfold complete transaction completing
  dsimp only
  congr 1
  funext registry now
  cases completed registry body with
  | error reply => rfl
  | ok target =>
    dsimp only
    congr 1
    funext saved
    cases saved <;> rfl

theorem metadata_eq : metadata
    = transaction none (fun registry => .answered (.json 200 (.packageMeta registry.packageMeta))) .threw := rfl

theorem status_eq : status = transaction none (fun registry =>
    .answered (.json 200 (.status (PackageObject.report registry) registry.recoveries))) .threw := rfl

def releasing (version : Str) (registry : PackageRegistry) : Work :=
  match registry.releaseLease version with
  | (.error _, _) => .answered (.text 409 "materialization lease conflicted".toList none)
  | (.ok (), released) =>
    .changed released (.text 503 "materialization unavailable".toList (some "1".toList))

theorem releaseLease_eq (version : Str) :
    releaseLease version = transaction none (releasing version) .threw := by
  unfold releaseLease transaction releasing
  congr 1
  funext registry now
  cases registry.releaseLease version with
  | mk result released =>
    cases result with
    | error message => rfl
    | ok _ =>
      dsimp only
      congr 1
      funext saved
      cases saved <;> rfl

def finishing (version : Str) (outcome : Outcome) (registry : PackageRegistry) : Work :=
  match settled registry version outcome with
  | (.error _, _) => .answered (.text 409 "materialization completion conflicted".toList none)
  | (.ok (), completed) => .changed completed (.json 200 (.report (PackageObject.report completed)))

theorem finish_eq (version : Str) (outcome : Outcome) :
    finish version outcome = transaction none (finishing version outcome) .threw := by
  unfold finish transaction finishing
  congr 1
  funext registry now
  cases settled registry version outcome with
  | mk result completed =>
    cases result with
    | error message => rfl
    | ok _ =>
      dsimp only
      congr 1
      funext saved
      cases saved <;> rfl

/-- What the transition writes is what one of these requests makes of the row. -/
def StepsOf (S : PackageRequest → Prop) (initialName : Option PackageName)
    (work : PackageRegistry → Work) : Prop :=
  ∀ stored loaded target reply, registry stored initialName = .ok loaded →
    work loaded = .changed target reply →
    ∃ request, S request ∧ PackageObject.handle stored request = PackageObject.saveRegistry target

theorem StepsOf.mono {S S' : PackageRequest → Prop} {initialName : Option PackageName}
    {work : PackageRegistry → Work} (h : StepsOf S initialName work) (hS : ∀ request, S request → S' request) :
    StepsOf S' initialName work := by
  intro stored loaded target reply hloaded hwork
  obtain ⟨request, hrequest, hstep⟩ := h stored loaded target reply hloaded hwork
  exact ⟨request, hS request hrequest, hstep⟩

theorem stepsOf_refreshing {body : RefreshBody} {discovery : Branches.BranchDiscovery}
    (h : parseDiscovery body.defaultBranch body.branches = some discovery) :
    StepsOf (· = .refresh body.package body.defaultBranch body.branches) (some body.package)
      (refreshing discovery) := by
  intro stored loaded target reply hloaded hwork
  refine ⟨_, rfl, ?_⟩
  unfold refreshing at hwork
  unfold PackageObject.handle PackageObject.refresh
  simp only [h, hloaded]
  cases hr : loaded.refresh discovery with
  | mk result refreshed =>
    rw [hr] at hwork
    cases result with
    | error message => cases hwork
    | ok created =>
      cases hwork
      rfl

theorem stepsOf_recovering {body : RecoverBody} (h : ValidRecovery body) :
    StepsOf (· = .recover body.version body.reason body.recoveredAt) none (recovering body) := by
  intro stored loaded target reply hloaded hwork
  refine ⟨_, rfl, ?_⟩
  unfold recovering at hwork
  unfold PackageObject.handle PackageObject.recover
  dsimp only
  rw [if_neg (by rw [h]; decide)]
  simp only [hloaded]
  cases hr : loaded.recoverVersion body.version (trim body.reason) body.recoveredAt with
  | mk result recovered =>
    rw [hr] at hwork
    cases result with
    | error message => cases hwork
    | ok job =>
      cases hwork
      rfl

theorem handle_complete {stored : Stored} {loaded target : PackageRegistry} {version : Str}
    {outcome : Outcome} (hloaded : registry stored none = .ok loaded)
    (hsettled : settled loaded version outcome = (.ok (), target)) :
    PackageObject.handle stored (.complete version outcome) = PackageObject.saveRegistry target := by
  unfold PackageObject.handle PackageObject.complete
  simp only [hloaded]
  cases outcome with
  | ready =>
    rw [settled] at hsettled
    simp only [hsettled]
  | yanked diagnostic =>
    rw [settled] at hsettled
    simp only [hsettled]

theorem completed_settled {registry target : PackageRegistry} {body : CompleteBody}
    (h : completed registry body = .ok target) :
    ∃ outcome, body.outcome = some outcome ∧
      settled registry body.version outcome = (.ok (), target) := by
  unfold completed at h
  cases hstate : body.state with
  | ready =>
    refine ⟨.ready, by rw [CompleteBody.outcome, hstate], ?_⟩
    rw [hstate] at h
    rw [settled]
    cases hr : registry.markReady body.version with
    | mk result next =>
      rw [hr] at h
      cases result with
      | error message => cases h
      | ok _ => rw [Except.ok.inj h]
  | yanked =>
    rw [hstate] at h
    cases hdiagnostic : body.diagnostic with
    | none =>
      rw [hdiagnostic] at h
      cases h
    | some diagnostic =>
      refine ⟨.yanked diagnostic, by rw [CompleteBody.outcome, hstate, hdiagnostic]; rfl, ?_⟩
      rw [hdiagnostic] at h
      rw [settled]
      cases hr : registry.markYanked body.version diagnostic with
      | mk result next =>
        simp only [hr] at h
        cases result with
        | error message => cases h
        | ok _ => rw [Except.ok.inj h]

theorem stepsOf_completing (body : CompleteBody) :
    StepsOf (fun request => ∃ outcome, body.outcome = some outcome ∧
      request = .complete body.version outcome) none (completing body) := by
  intro stored loaded target reply hloaded hwork
  unfold completing at hwork
  cases hc : completed loaded body with
  | error refused =>
    rw [hc] at hwork
    cases hwork
  | ok next =>
    rw [hc] at hwork
    cases hwork
    obtain ⟨outcome, houtcome, hsettled⟩ := completed_settled hc
    exact ⟨_, ⟨outcome, houtcome, rfl⟩, handle_complete hloaded hsettled⟩

theorem stepsOf_answered (S : PackageRequest → Prop) (initialName : Option PackageName)
    (reply : PackageRegistry → Reply ObjectBody) :
    StepsOf S initialName fun registry => .answered (reply registry) := by
  intro stored loaded target reply' _ hwork
  cases hwork

theorem stepsOf_releasing (version : Str) :
    StepsOf (· = .releaseLease version) none (releasing version) := by
  intro stored loaded target reply hloaded hwork
  refine ⟨_, rfl, ?_⟩
  unfold releasing at hwork
  unfold PackageObject.handle PackageObject.releaseLease
  simp only [hloaded]
  cases hr : loaded.releaseLease version with
  | mk result released =>
    rw [hr] at hwork
    cases result with
    | error message => cases hwork
    | ok _ =>
      cases hwork
      rfl

theorem stepsOf_finishing (version : Str) (outcome : Outcome) :
    StepsOf (· = .complete version outcome) none (finishing version outcome) := by
  intro stored loaded target reply hloaded hwork
  unfold finishing at hwork
  cases hr : settled loaded version outcome with
  | mk result completed =>
    rw [hr] at hwork
    cases result with
    | error message => cases hwork
    | ok _ =>
      cases hwork
      exact ⟨_, rfl, handle_complete hloaded hr⟩

def found : Exchange objectCalls → Option Stored
  | ⟨.readSnapshot, (.ok stored, _)⟩ => some stored
  | _ => none

def readExchange (answer : Except Str Stored) (now : ℤ) : Exchange objectCalls :=
  ⟨(.readSnapshot : ObjectCall), (answer, now)⟩

def writeExchange (snapshot : PackageRegistrySnapshot) (answer : Except Str Unit) (now : ℤ) :
    Exchange objectCalls :=
  ⟨(.writeSnapshot snapshot : ObjectCall), (answer, now)⟩

/-- The handler began with a lease: it read the row and wrote the row after the lease. -/
def Leased (past : List (Exchange objectCalls)) (version : Str) : Prop :=
  ∃ later stored name job snapshot now saved,
    past = later ++ [writeExchange snapshot (.ok ()) saved, readExchange (.ok stored) now] ∧
      PackageObject.lease stored now = (.leased name job, some snapshot) ∧ job.version = version

theorem Leased.cons {past : List (Exchange objectCalls)} {version : Str} (h : Leased past version)
    (exchange : Exchange objectCalls) : Leased (exchange :: past) version := by
  obtain ⟨later, stored, name, job, snapshot, now, saved, rfl, hlease⟩ := h
  exact ⟨exchange :: later, stored, name, job, snapshot, now, saved, rfl, hlease⟩

/-- The requests on its row that a handler stands for after its own calls. A materialization
    stands for a lease at the time of its read, and then for the end of that lease. -/
inductive Stands (past : List (Exchange objectCalls)) : ObjectRequest → PackageRequest → Prop
  | refresh (body : RefreshBody) :
    Stands past (.refresh (some body)) (.refresh body.package body.defaultBranch body.branches)
  | recover (body : RecoverBody) :
    Stands past (.recover (some body)) (.recover body.version body.reason body.recoveredAt)
  | complete {body : CompleteBody} {outcome : Outcome} (h : body.outcome = some outcome) :
    Stands past (.complete (some body)) (.complete body.version outcome)
  | lease (body : MaterializeBody) {stored : Stored} {now : ℤ}
      (h : past = [readExchange (.ok stored) now]) :
    Stands past (.materialize (some body)) (.lease now)
  | released (body : MaterializeBody) {version : Str} (h : Leased past version) :
    Stands past (.materialize (some body)) (.releaseLease version)
  | finished (body : MaterializeBody) {version : Str} (outcome : Outcome) (h : Leased past version) :
    Stands past (.materialize (some body)) (.complete version outcome)

/-- A snapshot is written only as what a request that the handler stands for makes of the
    one that was read last. -/
def WritesStep (request : ObjectRequest) (past : List (Exchange objectCalls)) (call : objectCalls.Op) : Prop :=
  ∀ snapshot, call = .writeSnapshot snapshot → ∃ stored step, past.findSome? found = some stored ∧
    Stands past request step ∧ PackageObject.handle stored step = some snapshot

/-- How a reply comes from the handler's own calls: from none, from the snapshot that was
    read, from the one that was written over it, or from a storage that threw. -/
inductive RepliesTo (env : ObjectEnv) (request : ObjectRequest) : List (Exchange objectCalls) →
    Reply ObjectBody → Prop
  | refused {reply : Reply ObjectBody} (h : ∀ row, alone env row request = (reply, row)) :
    RepliesTo env request [] reply
  | unread (message : Str) (now : ℤ) :
    RepliesTo env request [readExchange (.error message) now] (.threw message)
  | read {stored : Stored} {reply : Reply ObjectBody} (now : ℤ)
      (h : alone env stored request = (reply, stored)) :
    RepliesTo env request [readExchange (.ok stored) now] reply
  | unwritten {stored : Stored} {snapshot : PackageRegistrySnapshot} (message : Str) (reply : Reply ObjectBody)
      (now later : ℤ) :
    RepliesTo env request [writeExchange snapshot (.error message) later, readExchange (.ok stored) now] reply
  | wrote {stored : Stored} {snapshot : PackageRegistrySnapshot} {reply : Reply ObjectBody} (now later : ℤ)
      (h : alone env stored request = (reply, some snapshot)) :
    RepliesTo env request [writeExchange snapshot (.ok ()) later, readExchange (.ok stored) now] reply

theorem alone_transaction {env : ObjectEnv} {request : ObjectRequest} {initialName : Option PackageName}
    {work : PackageRegistry → Work} {failed : Str → Reply ObjectBody}
    (h : handle env request = transaction initialName work failed) (row : Stored) :
    alone env row request = match registry row initialName with
      | .error message => (.threw message, row)
      | .ok loaded => match work loaded with
        | .answered reply => (reply, row)
        | .changed target reply => (reply, PackageObject.saveRegistry target) := by
  unfold alone
  rw [h]
  unfold transaction readRegistry await
  simp only [Program.run_call, World.answer, World.perform, plainChoice, orThrow]
  cases registry row initialName with
  | error message => rfl
  | ok loaded =>
    dsimp only
    cases work loaded <;> rfl

theorem justified_transaction {env : ObjectEnv} {request : ObjectRequest}
    {initialName : Option PackageName} {work : PackageRegistry → Work} {failed : Str → Reply ObjectBody}
    (h : handle env request = transaction initialName work failed)
    (hwork : ∀ past, StepsOf (Stands past request) initialName work) :
    (handle env request).Justified (WritesStep request) (RepliesTo env request) [] := by
  have halone := alone_transaction h
  rw [h]
  refine .call nofun ?_
  rintro ⟨answer, now⟩
  cases answer with
  | error message => exact .done (.unread message now)
  | ok stored =>
    have halone := halone stored
    simp only [orThrow]
    cases hloaded : registry stored initialName with
    | error message =>
      rw [hloaded] at halone
      exact .done (.read now halone)
    | ok loaded =>
      simp only [hloaded] at halone ⊢
      cases hchanged : work loaded with
      | answered reply =>
        rw [hchanged] at halone
        exact .done (.read now halone)
      | changed target reply =>
        rw [hchanged] at halone
        refine .call ?_ ?_
        · rintro snapshot ⟨⟩
          obtain ⟨step, hstands, hstep⟩ := hwork _ stored loaded target reply hloaded hchanged
          exact ⟨stored, step, rfl, hstands, hstep⟩
        · rintro ⟨saved, later⟩
          cases saved with
          | error message => exact .done (.unwritten message _ now later)
          | ok _ => exact .done (.wrote now later halone)

theorem alone_refused {env : ObjectEnv} {request : ObjectRequest} {reply : Reply ObjectBody}
    (h : handle env request = .done reply) (row : Stored) : alone env row request = (reply, row) := by
  unfold alone
  rw [h]
  rfl

theorem justified_refused {env : ObjectEnv} {request : ObjectRequest} {reply : Reply ObjectBody}
    (h : handle env request = .done reply) :
    (handle env request).Justified (WritesStep request) (RepliesTo env request) [] := by
  have hrefused := alone_refused h
  rw [h]
  exact .done (.refused hrefused)

theorem justified_immediate (env : ObjectEnv) {request : ObjectRequest} (h : Immediate request) :
    (handle env request).Justified (WritesStep request) (RepliesTo env request) [] := by
  cases request with
  | check pat | authorize body | materialize body => exact h.elim
  | refresh body =>
    cases body with
    | none => exact justified_refused rfl
    | some body =>
      cases hdiscovery : parseDiscovery body.defaultBranch body.branches with
      | none =>
        apply justified_refused
        rw [handle, refresh]
        simp only [hdiscovery]
        rfl
      | some discovery =>
        refine justified_transaction (refresh_eq hdiscovery) fun past => ?_
        exact (stepsOf_refreshing hdiscovery).mono fun _ he => he ▸ .refresh body
  | recover body =>
    cases body with
    | none => exact justified_refused rfl
    | some body =>
      by_cases hvalid : ValidRecovery body
      · refine justified_transaction (recover_eq hvalid) fun past => ?_
        exact (stepsOf_recovering hvalid).mono fun _ he => he ▸ .recover body
      · apply justified_refused
        rw [handle, recover]
        exact if_pos (by rwa [ValidRecovery, Bool.not_eq_false] at hvalid)
  | complete body =>
    cases body with
    | none => exact justified_refused rfl
    | some body =>
      refine justified_transaction (complete_eq body) fun past => ?_
      apply (stepsOf_completing body).mono
      rintro _ ⟨outcome, houtcome, rfl⟩
      exact .complete houtcome
  | metadata => exact justified_transaction metadata_eq fun _ => stepsOf_answered _ none _
  | status => exact justified_transaction status_eq fun _ => stepsOf_answered _ none _
  | unknown => exact justified_refused rfl

/-- The handler writes such steps only, whatever it has been answered so far. -/
abbrev Steps (request : ObjectRequest) (I : List (Exchange objectCalls) → Prop) (p : Handling) : Prop :=
  ∀ past, I past → p.Justified (WritesStep request) (fun _ _ => True) past

variable {request : ObjectRequest} {I : List (Exchange objectCalls) → Prop}

theorem steps_done (reply : Reply ObjectBody) : Steps request I (.done reply) := fun _ _ => .done trivial

theorem passesOn_steps (hI : ∀ exchange past, I past → I (exchange :: past)) {call : ObjectCall}
    (h : ∀ snapshot, call ≠ .writeSnapshot snapshot) : PassesOn (Steps request I) call :=
  fun _ hnext _ hpast => .call (fun snapshot he => absurd he (h snapshot)) fun answer =>
    hnext answer.1 answer.2 _ (hI _ _ hpast)

theorem steps_transaction (hI : ∀ exchange past, I past → I (exchange :: past))
    {initialName : Option PackageName} {work : PackageRegistry → Work} {failed : Str → Reply ObjectBody}
    (hwork : ∀ past, I past → StepsOf (Stands past request) initialName work) :
    Steps request I (transaction initialName work failed) := by
  intro past hpast
  refine .call nofun ?_
  rintro ⟨answer, now⟩
  have hnext := hI ⟨.readSnapshot, (answer, now)⟩ past hpast
  cases answer with
  | error message => exact .done trivial
  | ok stored =>
    simp only [orThrow]
    cases hloaded : registry stored initialName with
    | error message => exact .done trivial
    | ok loaded =>
      dsimp only
      cases hchanged : work loaded with
      | answered reply => exact .done trivial
      | changed target reply =>
        refine .call ?_ ?_
        · rintro snapshot ⟨⟩
          obtain ⟨step, hstands, hstep⟩ := hwork _ hnext stored loaded target reply hloaded hchanged
          exact ⟨stored, step, rfl, hstands, hstep⟩
        · rintro ⟨saved, later⟩
          cases saved <;> exact .done trivial

theorem admits_steps (request : ObjectRequest) : Admits (Steps request fun _ => True) where
  threw _ := steps_done _
  refused _ := steps_done _
  decided _ := steps_done _
  unavailable _ := steps_done _
  reads _ := passesOn_steps (fun _ _ h => h) nofun
  writes _ _ := passesOn_steps (fun _ _ h => h) nofun
  asks _ _ _ _ := passesOn_steps (fun _ _ h => h) nofun

theorem materializes_steps (body : MaterializeBody) (version : Str) :
    Materializes (Steps (.materialize (some body)) fun past => Leased past version) version where
  threw _ := steps_done _
  released := by
    rw [releaseLease_eq]
    apply steps_transaction fun exchange _ h => h.cons exchange
    exact fun past h => (stepsOf_releasing version).mono fun _ he => he ▸ .released body h
  finished outcome := by
    rw [finish_eq]
    apply steps_transaction fun exchange _ h => h.cons exchange
    exact fun past h => (stepsOf_finishing version outcome).mono fun _ he => he ▸ .finished body outcome h
  fetches _ := passesOn_steps (fun exchange _ h => h.cons exchange) nofun
  asks _ _ := passesOn_steps (fun exchange _ h => h.cons exchange) nofun
  publishes _ := passesOn_steps (fun exchange _ h => h.cons exchange) nofun

theorem lease_of_leaseNext {stored : Stored} {loaded leased : PackageRegistry} {job : MaterializationJob}
    {now : ℤ} (hloaded : registry stored none = .ok loaded) (hlease : loaded.leaseNext now = (some job, leased)) :
    PackageObject.lease stored now = (.leased loaded.name job, PackageObject.saveRegistry leased) := by
  unfold PackageObject.lease
  simp only [hloaded, hlease]

theorem justified_materialize (env : ObjectEnv) (body : Option MaterializeBody) :
    (materialize env body).Justified (WritesStep (.materialize body)) (fun _ _ => True) [] := by
  unfold materialize
  split
  · exact .done trivial
  · split
    · exact .done trivial
    · split
      · exact .done trivial
      · refine .call nofun ?_
        rintro ⟨answer, now⟩
        cases answer with
        | error message => exact .done trivial
        | ok stored =>
          simp only [orThrow]
          cases hloaded : registry stored none with
          | error message => exact .done trivial
          | ok loaded =>
            dsimp only
            cases hlease : loaded.leaseNext now with
            | mk result leased =>
              cases result with
              | none => exact .done trivial
              | some job =>
                have hleased := lease_of_leaseNext hloaded hlease
                refine .call ?_ ?_
                · rintro snapshot ⟨⟩
                  refine ⟨stored, .lease now, rfl, .lease _ rfl, ?_⟩
                  exact congrArg Prod.snd hleased
                · rintro ⟨saved, later⟩
                  cases saved with
                  | error message => exact .done trivial
                  | ok _ =>
                    apply (materializes_steps _ job.version).of_materializeJob
                    exact ⟨[], stored, loaded.name, job, _, now, later, rfl, hleased, rfl⟩

theorem justified_handle (env : ObjectEnv) (request : ObjectRequest) :
    (handle env request).Justified (WritesStep request)
      (fun past reply => Immediate request → RepliesTo env request past reply) [] := by
  by_cases h : Immediate request
  · exact (justified_immediate env h).mono (fun _ _ hwrites => hwrites) fun _ _ hreply _ => hreply
  · have hsteps : (handle env request).Justified (WritesStep request) (fun _ _ => True) [] := by
      cases request with
      | check pat => exact (admits_steps _).of_check env pat [] trivial
      | authorize body => exact (admits_steps _).of_authorize env body [] trivial
      | materialize body => exact justified_materialize env body
      | refresh body | recover body | complete body | metadata | status | unknown => exact absurd trivial h
    exact hsteps.mono (fun _ _ hwrites => hwrites) fun _ _ _ himmediate => absurd himmediate h

end ObjectHandlers

open ObjectHandlers

abbrev ObjectCalled := Called objectCalls ObjectRequest

def written (called : ObjectCalled) : Option PackageRegistrySnapshot :=
  match called with
  | ⟨_, _, .writeSnapshot snapshot, (.ok (), _)⟩ => some snapshot
  | _ => none

def rowAfter (initial : Stored) (history : List ObjectCalled) : Stored :=
  (history.findSome? written).or initial

def threw (called : ObjectCalled) : Bool :=
  match called with
  | ⟨_, _, .readSnapshot, (.error _, _)⟩ | ⟨_, _, .writeSnapshot _, (.error _, _)⟩ => true
  | _ => false

/-- The handler answers and changes the row at one of its calls as it does when it runs
    alone on the row of that moment, and at no other. -/
def TakesEffect (env : ObjectEnv) (initial : Stored) (history : List ObjectCalled) (i : ℕ)
    (request : ObjectRequest) (reply : Reply ObjectBody) : Prop :=
  ∃ later called earlier, history = later ++ called :: earlier ∧ called.thread = i ∧
    alone env (rowAfter initial earlier) request = (reply, rowAfter initial (called :: earlier)) ∧
    ∀ other ∈ later ++ earlier, other.thread = i → written other = none

/-- The storage threw at the handler, and the handler wrote nothing. -/
def Breaks (history : List ObjectCalled) (i : ℕ) : Prop :=
  (∃ called ∈ history, called.thread = i ∧ threw called = true) ∧
    ∀ called ∈ history, called.thread = i → written called = none

/-- What was written is what a request that the writer stands for makes of the row that the
    earlier calls left. -/
def Enacts (initial : Stored) (pool : ObjectPool) (earlier : List ObjectCalled) (called : ObjectCalled) :
    Prop :=
  ∀ snapshot, written called = some snapshot → ∃ thread step, pool.threads[called.thread]? = some thread ∧
    Stands (ownExchanges earlier called.thread) thread.request step ∧
      PackageObject.handle (rowAfter initial earlier) step = some snapshot

/-- Interleaved handlers are requests one after another. -/
structure Linearized (env : ObjectEnv) (initial : Stored) (pool : ObjectPool) : Prop where
  row : pool.scene.world.row = rowAfter initial pool.scene.history
  steps : ∀ later called earlier, pool.scene.history = later ++ called :: earlier →
    Enacts initial pool earlier called
  replies : ∀ i request reply, pool.Finished i request reply → Immediate request →
    TakesEffect env initial pool.scene.history i request reply ∨
      (∀ row, alone env row request = (reply, row)) ∨ Breaks pool.scene.history i

namespace AtomicHandlers

theorem found_of_called {i j : ℕ} {called : ObjectCalled} (h : called.thread = i) :
    readBy j called = if i = j then found ⟨called.op, called.answer⟩ else none := by
  obtain ⟨thread, request, call, answer⟩ := called
  subst h
  cases call with
  | readSnapshot =>
    obtain ⟨result, now⟩ := answer
    cases result with
    | error message =>
      simp [readBy, found]
    | ok stored =>
      simp [readBy, found]
  | readDecision | writeDecision | writeSnapshot | fetch | container | bucket =>
    simp [readBy, found]

theorem lastRead_eq (history : List ObjectCalled) (i : ℕ) :
    lastRead history i = (ownExchanges history i).findSome? found := by
  induction history with
  | nil => rfl
  | cons called history ih =>
    rw [lastRead, List.findSome?_cons, found_of_called rfl, ← lastRead, ih]
    by_cases h : called.thread = i
    · subst h
      rw [if_pos rfl, ownExchanges_self, List.findSome?_cons]
    · rw [if_neg h, ownExchanges_of_ne history h]

theorem rowAfter_cons (initial : Stored) (called : ObjectCalled) (earlier : List ObjectCalled) :
    rowAfter initial (called :: earlier) = (written called).or (rowAfter initial earlier) := by
  rw [rowAfter, List.findSome?_cons]
  cases written called <;> rfl

theorem answer_row (world : World) (choice : Choice) (i : ℕ) (request : ObjectRequest)
    (call : objectCalls.Op) : (World.answer world choice call).2.row
      = (written ⟨i, request, call, (World.answer world choice call).1⟩).or world.row := by
  cases call with
  | writeSnapshot snapshot =>
    unfold World.answer World.perform
    cases choice.fault <;> rfl
  | readDecision key | readSnapshot | writeDecision key record =>
    unfold World.answer World.perform
    cases choice.fault <;> rfl
  | fetch | container | bucket => rfl

/-- A read finds the row as it is, and a write replaces the row that its handler has read. -/
structure Placed (initial : Stored) (earlier : List ObjectCalled) (called : ObjectCalled) : Prop where
  read : ∀ stored, found ⟨called.op, called.answer⟩ = some stored → rowAfter initial earlier = stored
  write : ∀ snapshot, written called = some snapshot →
    lastRead earlier called.thread = some (rowAfter initial earlier)

theorem found_answer {world : World} {choice : Choice} {call : objectCalls.Op} {stored : Stored}
    (h : found ⟨call, (World.answer world choice call).1⟩ = some stored) : world.row = stored := by
  cases call with
  | readSnapshot =>
    unfold World.answer World.perform at h
    cases hfault : choice.fault with
    | some message =>
      rw [hfault] at h
      cases h
    | none =>
      rw [hfault] at h
      exact Option.some.inj h
  | readDecision | writeDecision | writeSnapshot | fetch | container | bucket => cases h

theorem written_answer {world : World} {choice : Choice} {i : ℕ} {request : ObjectRequest}
    {call : objectCalls.Op} {snapshot : PackageRegistrySnapshot}
    (h : written ⟨i, request, call, (World.answer world choice call).1⟩ = some snapshot) :
    call = .writeSnapshot snapshot ∧ choice.fault = none := by
  cases call with
  | writeSnapshot snapshot' =>
    unfold World.answer World.perform at h
    cases hfault : choice.fault with
    | some message =>
      rw [hfault] at h
      cases h
    | none =>
      rw [hfault] at h
      cases h
      exact ⟨rfl, rfl⟩
  | readDecision | writeDecision | readSnapshot | fetch | container | bucket => cases h

theorem placed_call {initial : Stored} (s : ObjectScene) (i : ℕ) (request : ObjectRequest)
    (call : objectCalls.Op) (choice : Choice) (hrow : s.world.row = rowAfter initial s.history)
    (hfresh : SavesFresh s i request call choice) :
    (s.call World.answer i request choice call).2.world.row
        = rowAfter initial (s.call World.answer i request choice call).2.history ∧
      Placed initial s.history ⟨i, request, call, (s.call World.answer i request choice call).1⟩ := by
  refine ⟨?_, ?_, ?_⟩
  · rw [Scene.call_history, rowAfter_cons, ← hrow]
    exact answer_row s.world choice i request call
  · intro stored hfound
    rw [← hrow]
    exact found_answer hfound
  · intro snapshot hwritten
    obtain ⟨hcall, hfault⟩ := written_answer hwritten
    rw [← hrow]
    exact hfresh snapshot hcall hfault

theorem written_eq_some {called : ObjectCalled} {snapshot : PackageRegistrySnapshot}
    (h : written called = some snapshot) : called.op = .writeSnapshot snapshot := by
  unfold written at h
  split at h
  · obtain rfl := Option.some.inj h
    rfl
  · cases h

theorem enacts_of_placed {env : ObjectEnv} {initial : Stored} {pool : ObjectPool}
    (haccounted : pool.Accounted WritesStep
      fun request past reply => Immediate request → RepliesTo env request past reply)
    (hplaced : Recorded (Placed initial) pool.scene.history) {later earlier : List ObjectCalled}
    {called : ObjectCalled} (hsplit : pool.scene.history = later ++ called :: earlier) :
    Enacts initial pool earlier called := by
  intro snapshot hwritten
  have hmem : called ∈ pool.scene.history := by
    rw [hsplit]
    exact List.mem_append_right _ List.mem_cons_self
  have hcalls := haccounted.calls
  rw [hsplit] at hcalls hplaced
  obtain ⟨thread, hthread, hrequest⟩ := haccounted.owned called hmem
  obtain ⟨stored, step, hfound, hstands, hstep⟩ := hcalls.split snapshot (written_eq_some hwritten)
  have hread := hplaced.split.write snapshot hwritten
  rw [lastRead_eq, hfound] at hread
  obtain rfl := Option.some.inj hread
  refine ⟨thread, step, hthread, ?_, hstep⟩
  rw [hrequest]
  exact hstands

theorem others_silent {later earlier : List ObjectCalled} {i : ℕ}
    (hlater : ∀ other ∈ later, other.thread ≠ i)
    (hpast : ∀ called : ObjectCalled, ⟨called.op, called.answer⟩ ∈ ownExchanges earlier i →
      written called = none) :
    ∀ other ∈ later ++ earlier, other.thread = i → written other = none := by
  intro other hother hthread
  rcases List.mem_append.1 hother with hother | hother
  · exact absurd hthread (hlater other hother)
  · apply hpast
    rw [← hthread]
    exact mem_ownExchanges hother

theorem takesEffect_read {env : ObjectEnv} {initial stored : Stored} {history : List ObjectCalled} {i : ℕ}
    {request : ObjectRequest} {reply : Reply ObjectBody} {now : ℤ}
    (hplaced : Recorded (Placed initial) history)
    (hown : ownExchanges history i = [readExchange (.ok stored) now])
    (halone : alone env stored request = (reply, stored)) :
    TakesEffect env initial history i request reply := by
  obtain ⟨later, called, earlier, rfl, hthread, hexchange, hpast, hlater⟩ := ownExchanges_cons hown
  have hread := hplaced.split.read stored (by rw [hexchange]; rfl)
  refine ⟨later, called, earlier, rfl, hthread, ?_, others_silent hlater ?_⟩
  swap
  · rw [hpast]
    exact fun _ hmem => absurd hmem List.not_mem_nil
  have hnothing : written called = none := by
    obtain ⟨thread, request, call, answer⟩ := called
    cases hexchange
    rfl
  rw [rowAfter_cons, hnothing, Option.none_or, hread]
  exact halone

theorem takesEffect_write {env : ObjectEnv} {initial stored : Stored} {history : List ObjectCalled} {i : ℕ}
    {request : ObjectRequest} {reply : Reply ObjectBody} {snapshot : PackageRegistrySnapshot} {now later : ℤ}
    (hplaced : Recorded (Placed initial) history)
    (hown : ownExchanges history i
      = [writeExchange snapshot (.ok ()) later, readExchange (.ok stored) now])
    (halone : alone env stored request = (reply, some snapshot)) :
    TakesEffect env initial history i request reply := by
  obtain ⟨after, called, earlier, rfl, hthread, hexchange, hpast, hlater⟩ := ownExchanges_cons hown
  have hwritten : written called = some snapshot := by
    obtain ⟨thread, request, call, answer⟩ := called
    cases hexchange
    rfl
  have hread := hplaced.split.write snapshot hwritten
  rw [lastRead_eq, hthread, hpast] at hread
  refine ⟨after, called, earlier, rfl, hthread, ?_, others_silent hlater ?_⟩
  swap
  · rw [hpast]
    rintro ⟨thread, request, call, answer⟩ hmem
    cases List.mem_singleton.1 hmem
    rfl
  rw [rowAfter_cons, hwritten, Option.some_or, ← Option.some.inj hread]
  exact halone

theorem breaks_of_own {history : List ObjectCalled} {i : ℕ} {exchange : Exchange objectCalls}
    {past : List (Exchange objectCalls)} (hown : ownExchanges history i = exchange :: past)
    (hthrew : ∀ called : ObjectCalled, (⟨called.op, called.answer⟩ : Exchange objectCalls) = exchange →
      threw called = true)
    (hnothing : ∀ called : ObjectCalled, (⟨called.op, called.answer⟩ : Exchange objectCalls) ∈ exchange :: past →
      written called = none) : Breaks history i := by
  constructor
  · obtain ⟨called, hcalled, hthread, he⟩ := mem_of_ownExchanges (hown ▸ List.mem_cons_self)
    exact ⟨called, hcalled, hthread, hthrew called he⟩
  · intro called hcalled hthread
    apply hnothing
    rw [← hown, ← hthread]
    exact mem_ownExchanges hcalled

theorem replies_of_placed {env : ObjectEnv} {initial : Stored} {history : List ObjectCalled} {i : ℕ}
    {request : ObjectRequest} {reply : Reply ObjectBody} (hplaced : Recorded (Placed initial) history)
    (h : RepliesTo env request (ownExchanges history i) reply) :
    TakesEffect env initial history i request reply ∨
      (∀ row, alone env row request = (reply, row)) ∨ Breaks history i := by
  generalize hown : ownExchanges history i = own at h
  cases h with
  | refused halone => exact .inr (.inl halone)
  | read now halone => exact .inl (takesEffect_read hplaced hown halone)
  | wrote now later halone => exact .inl (takesEffect_write hplaced hown halone)
  | unread message now =>
    refine .inr (.inr (breaks_of_own hown ?_ ?_))
    · rintro ⟨thread, request, call, answer⟩ ⟨⟩
      rfl
    · rintro ⟨thread, request, call, answer⟩ hmem
      cases List.mem_singleton.1 hmem
      rfl
  | unwritten message reply now later =>
    refine .inr (.inr (breaks_of_own hown ?_ ?_))
    · rintro ⟨thread, request, call, answer⟩ ⟨⟩
      rfl
    · rintro ⟨thread, request, call, answer⟩ hmem
      rcases List.mem_cons.1 hmem with he | hmem
      · cases he
        rfl
      · cases List.mem_singleton.1 hmem
        rfl

end AtomicHandlers

open Executions AtomicHandlers in
/-- Handlers whose writes replace what they have read behave as requests one after another. -/
theorem linearized_of_fresh (env : ObjectEnv) (world : World) {events : List ObjectEvent}
    (ha : Admitted (ObjectPool.step env) (Pool.Admits SavesFresh) (.start world) events) :
    Linearized env world.row (run (ObjectPool.step env) (.start world) events) := by
  obtain ⟨hrow, hplaced⟩ := Pool.recorded_run (fun s : ObjectScene => s.world.row = rowAfter world.row s.history)
    (Placed world.row) (fun s i request call choice => placed_call s i request call choice) rfl ha
  have haccounted : (run (Pool.step (ObjectHandlers.handle env) World.answer) (.start world) events).Accounted _ _ :=
    Pool.accounted_run (justified_handle env) world events
  refine ⟨hrow, ?_, ?_⟩
  · exact fun _ _ _ hsplit => enacts_of_placed haccounted hplaced hsplit
  · intro i request reply hfinished himmediate
    exact replies_of_placed hplaced (haccounted.finished hfinished himmediate)

theorem linearized_freshRun : Linearized plainEnv none
    (Executions.run (ObjectPool.step plainEnv) (.start emptyWorld) freshRun) :=
  linearized_of_fresh plainEnv emptyWorld freshRun_admitted

end JsrProxy
