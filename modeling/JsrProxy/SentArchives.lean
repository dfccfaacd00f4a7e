import JsrProxy.CallKinds
import JsrProxy.ContainerAnswers

set_option autoImplicit false

/-!
# Sent archives

What a materialization sends to its Container. The archive is what GitHub answered to the
same handler, for the commit of the job and the repository of the request.
-/
namespace JsrProxy
open ObjectHandlers

def archiveExchange (request : Request) (answer : Fetched) (now : ℤ) : Exchange objectCalls :=
  ⟨(.fetch request .manual : ObjectCall), (.ok answer, now)⟩

/-- GitHub has answered the commit's tarball with the archive, or led to it. -/
inductive ArchiveFetched (env : ObjectEnv) (owner repository commitSha pat : Str)
    (past : List (Exchange objectCalls)) (archive : Body) : Prop
  | direct {request : Request} {answer : Fetched} {now : ℤ}
      (hrequest : Auth.githubRequest (tarballPath owner repository commitSha) pat = .ok request)
      (hanswer : archiveExchange request answer now ∈ past) (hok : answer.ok = true)
      (hhost : answer.hostname = codeload) (hbody : answer.body = archive)
  | redirected {request : Request} {answer source : Fetched} {url : Url} {now later : ℤ}
      (hrequest : Auth.githubRequest (tarballPath owner repository commitSha) pat = .ok request)
      (hanswer : archiveExchange request answer now ∈ past) (hurl : archiveRedirect env answer = some url)
      (hsource : archiveExchange ⟨"GET".toList, url, [], []⟩ source later ∈ past) (hok : source.ok = true)
      (hbody : source.body = archive)

def LeasedIn (past : List (Exchange objectCalls)) (name : PackageName) (job : MaterializationJob) : Prop :=
  ∃ stored registry now leased, readExchange (.ok stored) now ∈ past ∧
    PackageObject.registry stored none = .ok registry ∧ registry.name = name ∧
    registry.leaseNext now = (some job, leased)

theorem materializationRequest_body {name : PackageName} {job : MaterializationJob} {body : MaterializeBody}
    {archive : Body} {sent : StreamedRequest} (h : materializationRequest name job body archive = .ok sent) :
    sent.body = archive := by
  unfold materializationRequest at h
  split at h
  · cases h
  · rw [← Except.ok.inj h]

/-- A Container is sent the archive of a job. -/
def SendsArchive (env : ObjectEnv) (request : ObjectRequest) (past : List (Exchange objectCalls))
    (call : objectCalls.Op) : Prop :=
  ∀ id sent, call = .container id sent → ∃ body name job archive, request = .materialize (some body) ∧
    LeasedIn past name job ∧ materializationRequest name job body archive = .ok sent ∧
    ArchiveFetched env body.owner body.repository job.commitSha body.pat past archive

theorem ArchiveFetched.mono {env : ObjectEnv} {owner repository commitSha pat : Str}
    {past past' : List (Exchange objectCalls)} {archive : Body}
    (h : ArchiveFetched env owner repository commitSha pat past archive) (hsub : past ⊆ past') :
    ArchiveFetched env owner repository commitSha pat past' archive := by
  cases h with
  | direct hrequest hanswer hok hhost hbody => exact .direct hrequest (hsub hanswer) hok hhost hbody
  | redirected hrequest hanswer hurl hsource hok hbody =>
    exact .redirected hrequest (hsub hanswer) hurl (hsub hsource) hok hbody

theorem LeasedIn.mono {past past' : List (Exchange objectCalls)} {name : PackageName} {job : MaterializationJob}
    (h : LeasedIn past name job) (hsub : past ⊆ past') : LeasedIn past' name job := by
  obtain ⟨stored, registry, now, leased, hread, hrest⟩ := h
  exact ⟨stored, registry, now, leased, hsub hread, hrest⟩

section
variable {env : ObjectEnv} {request : ObjectRequest}

abbrev Sends (env : ObjectEnv) (request : ObjectRequest) (p : Handling) (past : List (Exchange objectCalls)) :
    Prop := p.Justified (E := objectCalls) (SendsArchive env request) (fun _ _ => True) past

theorem sends_of_asks {p : Handling} (h : p.Asks (E := objectCalls) fun call => ∀ id sent,
    call ≠ (.container id sent : ObjectCall)) (past : List (Exchange objectCalls)) : Sends env request p past :=
  (h.justified past).mono (fun _ _ hnone _ _ hcall => absurd hcall (hnone _ _)) fun _ _ h => h

def NoContainer (call : ObjectCall) : Prop := ∀ id sent, call ≠ .container id sent

theorem transacts_noContainer : CallKind.Transacts NoContainer := ⟨nofun, fun _ => nofun⟩

theorem sends_releaseLease (version : Str) (past : List (Exchange objectCalls)) :
    Sends env request (releaseLease version) past :=
  sends_of_asks (CallKind.calls_releaseLease transacts_noContainer version) past

theorem sends_githubArchive {owner repository commitSha pat : Str}
    {next : Except Str (Option Body) → Handling} (past : List (Exchange objectCalls))
    (h : ∀ past' archive, past ⊆ past' → (∀ found, archive = .ok (some found) →
      ArchiveFetched env owner repository commitSha pat past' found) → Sends env request (next archive) past') :
    Sends env request (githubArchive env owner repository commitSha pat next) past := by
  unfold githubArchive
  cases hrequest : Auth.githubRequest (tarballPath owner repository commitSha) pat with
  | error message => exact h _ _ (List.Subset.refl _) nofun
  | ok asked =>
    have hone : ∀ exchange, past ⊆ exchange :: past := fun _ => List.subset_cons_self _ _
    refine .call nofun ?_
    rintro ⟨answer, now⟩
    change Except Str Fetched at answer
    cases answer with
    | error message => exact h _ _ (hone _) nofun
    | ok answer =>
      dsimp only
      split_ifs with hdirect
      · apply h _ _ (hone _)
        rintro _ ⟨⟩
        simp only [Bool.and_eq_true, decide_eq_true_eq] at hdirect
        exact .direct hrequest List.mem_cons_self hdirect.1.1 hdirect.2 rfl
      · cases hurl : archiveRedirect env answer with
        | none => exact h _ _ (hone _) nofun
        | some url =>
          have htwo : ∀ exchange exchange', past ⊆ exchange :: exchange' :: past :=
            fun _ _ => List.subset_cons_of_subset _ (hone _)
          refine .call nofun ?_
          rintro ⟨source, later⟩
          change Except Str Fetched at source
          cases source with
          | error message => exact h _ _ (htwo _ _) nofun
          | ok source =>
            dsimp only
            split_ifs with hsource
            · apply h _ _ (htwo _ _)
              rintro _ ⟨⟩
              simp only [Bool.and_eq_true, decide_eq_true_eq] at hsource
              exact .redirected hrequest (List.mem_cons_of_mem _ List.mem_cons_self) hurl List.mem_cons_self
                hsource.1 rfl
            · exact h _ _ (htwo _ _) nofun

theorem sends_materializeJob {name : PackageName} {job : MaterializationJob} (body : MaterializeBody)
    {past : List (Exchange objectCalls)} (hleased : LeasedIn past name job) :
    Sends env (.materialize (some body)) (materializeJob env name job body) past := by
  unfold materializeJob
  apply sends_githubArchive
  intro past' archive hsub hfetched
  split
  · exact sends_releaseLease _ _
  · exact sends_releaseLease _ _
  · rename_i archive
    split
    · exact sends_releaseLease _ _
    · rename_i sent hsent
      refine .call ?_ ?_
      · rintro _ _ ⟨⟩
        exact ⟨body, name, job, archive, rfl, hleased.mono hsub, hsent, hfetched archive rfl⟩
      · rintro ⟨response, now⟩
        change Except Str Fetched at response
        cases response with
        | error message => exact sends_releaseLease _ _
        | ok response =>
          exact sends_of_asks ((CallKind.receives_calls transacts_noContainer (fun _ => nofun) _).of_received response) _

theorem sends_materialize (env : ObjectEnv) (body : MaterializeBody) :
    Sends env (.materialize (some body)) (materialize env (some body)) [] := by
  unfold materialize
  dsimp only
  split_ifs
  · exact .done trivial
  · exact .done trivial
  · refine .call (by rintro _ _ ⟨⟩) ?_
    rintro ⟨answer, now⟩
    change Except Str Stored at answer
    cases answer with
    | error message => exact .done trivial
    | ok stored =>
      simp only [orThrow]
      cases hloaded : PackageObject.registry stored none with
      | error message => exact .done trivial
      | ok registry =>
        dsimp only
        split
        · exact .done trivial
        · rename_i job leased hlease
          refine .call (by rintro _ _ ⟨⟩) ?_
          rintro ⟨saved, later⟩
          change Except Str Unit at saved
          cases saved with
          | error message => exact .done trivial
          | ok _ =>
            apply sends_materializeJob
            exact ⟨stored, registry, now, leased, List.mem_cons_of_mem _ List.mem_cons_self, hloaded, rfl, hlease⟩

/-- Every archive that a handler sends was fetched by it. -/
theorem justified_archives (env : ObjectEnv) (request : ObjectRequest) : Sends env request (handle env request) [] := by
  have hkind : request.kind ≠ .materialization → Sends env request (handle env request) [] := by
    intro hkind
    apply sends_of_asks
    apply (CallKind.calls_handle env request).mono
    rintro call hcall id sent rfl
    generalize request.kind = kind at hkind hcall
    cases kind with
    | materialization => exact hkind rfl
    | decisions | registry => cases hcall
  cases request with
  | materialize body =>
    cases body with
    | none => exact .done trivial
    | some body => exact sends_materialize env body
  | check | authorize | refresh | recover | complete | metadata | status | unknown => exact hkind nofun

end
end JsrProxy
