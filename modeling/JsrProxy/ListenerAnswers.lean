import JsrProxy.ContainerAnswers
import JsrProxy.PackageHandlers

set_option autoImplicit false

/-!
# Answers of the listener

What the Container's listener makes of the request that an object has sent it. A success
whose body is JSON is the outcome of a run on the archive of that request.
-/
namespace JsrProxy
namespace Service

theorem uploadJson_injective {upload upload' : BatchedArtifact} (h : uploadJson upload = uploadJson upload') :
    upload = upload' := by
  obtain ⟨key, sha256, body⟩ := upload
  obtain ⟨key', sha256', body'⟩ := upload'
  unfold uploadJson at h
  simp only [Json.object.injEq, List.cons.injEq, Prod.mk.injEq, Json.string.injEq, JsString.text.injEq,
    true_and, and_true] at h
  obtain ⟨rfl, rfl, rfl⟩ := h
  rfl

theorem uploads_injective {uploads uploads' : List BatchedArtifact}
    (h : uploads.map uploadJson = uploads'.map uploadJson) : uploads = uploads' :=
  List.map_injective_iff.2 (fun _ _ => uploadJson_injective) h

theorem outcomeJson_injective {outcome outcome' : MaterializationOutcome}
    (h : outcomeJson outcome = outcomeJson outcome') : outcome = outcome' := by
  cases outcome with
  | ready uploads =>
    cases outcome' with
    | ready uploads' =>
      simp only [outcomeJson, Json.object.injEq, List.cons.injEq, Prod.mk.injEq, Json.array.injEq, true_and,
        and_true] at h
      rw [uploads_injective h]
    | yanked diagnostic' uploads' =>
      simp only [outcomeJson, Json.object.injEq, List.cons.injEq, Prod.mk.injEq, Json.string.injEq,
        JsString.text.injEq] at h
      exact absurd h.1.2 (by decide)
  | yanked diagnostic uploads =>
    cases outcome' with
    | ready uploads' =>
      simp only [outcomeJson, Json.object.injEq, List.cons.injEq, Prod.mk.injEq, Json.string.injEq,
        JsString.text.injEq] at h
      exact absurd h.1.2 (by decide)
    | yanked diagnostic' uploads' =>
      obtain ⟨id, failureClass, message⟩ := diagnostic
      obtain ⟨id', failureClass', message'⟩ := diagnostic'
      simp only [outcomeJson, completionDiagnosticJson, Json.object.injEq, List.cons.injEq, Prod.mk.injEq,
        Json.string.injEq, JsString.text.injEq, Json.array.injEq, true_and, and_true] at h
      obtain ⟨⟨rfl, rfl, rfl⟩, huploads⟩ := h
      rw [uploads_injective huploads]

/-- Whatever the listener is asked, JSON with a success is the outcome of a run. -/
theorem handle_json {libraries : Libraries} {method url : Str} {headers : Headers} {body : Option Bytes}
    {value : Json} (hok : (handle libraries method url headers body).ok = true)
    (hjson : Json.parse (Utf8.decode (handle libraries method url headers body).body) = some value) :
    ∃ input archive outcome, body = some archive ∧ materializationInput headers = some input ∧
      runMaterialization libraries input archive = .ok outcome ∧ value = outcomeJson outcome := by
  have hrefused : ∀ {status : ℕ} {text : Str}, 300 ≤ status → (plainResponse status text).ok = true → False := by
    intro status text hstatus hsuccess
    simp only [Response.ok, Response.isOk, plainResponse, Bool.and_eq_true] at hsuccess
    have hupper := of_decide_eq_true hsuccess.2
    omega
  unfold handle at hok hjson
  split_ifs at hok hjson with hhealth hroute
  · have hnone : Json.parse (Utf8.decode (plainResponse 200 "ok".toList).body) = none := by decide +kernel
    rw [hnone] at hjson
    cases hjson
  · exact absurd hok (hrefused (by decide))
  · cases body with
    | none => exact absurd hok (hrefused (by decide))
    | some archive =>
      dsimp only at hok hjson
      split_ifs at hok hjson with hlarge
      · exact absurd hok (hrefused (by decide))
      · cases hinput : materializationInput headers with
        | none =>
          rw [hinput] at hok
          exact absurd hok (hrefused (by decide))
        | some input =>
          rw [hinput] at hok hjson
          dsimp only at hok hjson
          split_ifs at hok hjson with hsource
          · exact absurd hok (hrefused (by decide))
          · cases hrun : runMaterialization libraries input archive with
            | error error =>
              rw [hrun] at hok
              exact absurd hok (hrefused (by decide))
            | ok outcome =>
              rw [hrun] at hjson
              have hparse := Json.parse_decode_write (valid_outcomeJson outcome)
              exact ⟨input, archive, outcome, rfl, rfl, hrun, Option.some.inj (hjson.symm.trans hparse)⟩

/-- What comes back, if anything does, is what a listener answers to the request. Its body
    may fail to arrive on either way. -/
def Listened (sent : StreamedRequest) (answer : Except Str Fetched) : Prop :=
  ∀ response, answer = .ok response → ∃ libraries arrived,
    (∀ archive, arrived = some archive → sent.body = .bytes archive) ∧
    response.status = (handle libraries sent.method sent.url.pathname sent.headers arrived).status ∧
    ∀ content, response.body = .bytes content →
      content = (handle libraries sent.method sent.url.pathname sent.headers arrived).body

/-- JSON with a success comes from a run on the archive that was sent. -/
theorem Listened.run {sent : StreamedRequest} {answer : Except Str Fetched} (h : Listened sent answer)
    {response : Fetched} (hanswer : answer = .ok response) (hok : response.ok = true) {value : Json}
    (hjson : response.body.json = some value) : ∃ libraries input archive outcome,
      sent.body = .bytes archive ∧ materializationInput sent.headers = some input ∧
      runMaterialization libraries input archive = .ok outcome ∧ value = outcomeJson outcome := by
  obtain ⟨libraries, arrived, harrived, hstatus, hbody⟩ := h response hanswer
  cases hcontent : response.body with
  | absent | broken =>
    rw [hcontent] at hjson
    cases hjson
  | bytes content =>
    rw [hcontent] at hjson
    rw [Body.json, hbody content hcontent] at hjson
    rw [Fetched.ok, hstatus] at hok
    obtain ⟨input, archive, outcome, hsome, hrest⟩ := handle_json hok hjson
    exact ⟨libraries, input, archive, outcome, harrived archive hsome, hrest⟩

theorem Listened.answers {sent : StreamedRequest} {answer : Except Str Fetched} (h : Listened sent answer) :
    Answers sent.headers answer := by
  intro response value hanswer hok hjson
  obtain ⟨libraries, input, archive, outcome, -, hinput, hrun, hvalue⟩ := h.run hanswer hok hjson
  exact ⟨libraries, input, archive, outcome, hinput, hrun, hvalue⟩

end Service
end JsrProxy
