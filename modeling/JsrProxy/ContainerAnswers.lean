import JsrProxy.CompleteBatches
import JsrProxy.MaterializationHeaders

set_option autoImplicit false

/-!
# Answers of the Container

The HTTP side of a materialization: the job comes in a header, the archive in the
body, and the outcome goes back as JSON. The package object reads from it the state
and the uploads that the run ended with.
-/
namespace JsrProxy
namespace Service

def completionDiagnosticJson (diagnostic : TombstoneDiagnostic) : Json :=
  .object [("id".toList, .string diagnostic.id),
    ("failureClass".toList, .string diagnostic.failureClass),
    ("message".toList, .string diagnostic.message)]

def outcomeJson : MaterializationOutcome → Json
  | .ready uploads => .object [("state".toList, .string "ready".toList),
      ("uploads".toList, .array (uploads.map uploadJson))]
  | .yanked diagnostic uploads => .object [("state".toList, .string "yanked".toList),
      ("diagnostic".toList, completionDiagnosticJson diagnostic),
      ("uploads".toList, .array (uploads.map uploadJson))]

def MaterializationError.message : MaterializationError → Str
  | .artifactPublicationUnavailable error => "artifact publication unavailable: ".toList ++ error

def plainResponse (status : ℕ) (body : Str) : Response :=
  ⟨status, [("content-type".toList, "text/plain; charset=utf-8".toList)], Utf8.encode body⟩

def jsonResponse (status : ℕ) (value : Json) : Response :=
  ⟨status, [("content-type".toList, "application/json".toList)], Publication.toVec value⟩

def maxArchiveBytes : ℕ := 20 * 1024 * 1024

/-- The listener's answer to one request, whose body may fail to be read. -/
def handle (libraries : Libraries) (method url : Str) (headers : Headers) (body : Option Bytes) :
    Response :=
  if method = "GET".toList ∧ url = "/health".toList then plainResponse 200 "ok".toList
  else if method ≠ "POST".toList ∨ url ≠ "/materialize-archive".toList then
    plainResponse 404 "not found".toList
  else
    match body with
    | none => plainResponse 400 "invalid materialization request".toList
    | some archive =>
      if archive.length > maxArchiveBytes then
        plainResponse 400 "invalid materialization request".toList
      else
        match materializationInput headers with
        | none => plainResponse 400 "invalid materialization request".toList
        | some input =>
          if !validSourceComponent input.source.owner || !validSourceComponent input.source.repository then
            plainResponse 400 "invalid materialization request".toList
          else
            match runMaterialization libraries input archive with
            | .ok outcome => jsonResponse 200 (outcomeJson outcome)
            | .error error => plainResponse 503 error.message

theorem valid_uploads (uploads : List BatchedArtifact) :
    Json.Valid (.array (uploads.map uploadJson)) := by
  apply Json.validItems_iff.2
  intro item hitem
  obtain ⟨upload, -, rfl⟩ := List.mem_map.1 hitem
  exact ⟨trivial, trivial, trivial, trivial⟩

theorem valid_outcomeJson (outcome : MaterializationOutcome) : (outcomeJson outcome).Valid := by
  cases outcome with
  | ready uploads => exact ⟨trivial, valid_uploads uploads, trivial⟩
  | yanked diagnostic uploads =>
    exact ⟨trivial, ⟨trivial, trivial, trivial, trivial⟩, valid_uploads uploads, trivial⟩

def Answers (headers : Headers) (answer : Except Str Fetched) : Prop :=
  ∀ response value, answer = .ok response → response.ok = true → response.body.json = some value →
    ∃ libraries input archive outcome, materializationInput headers = some input ∧
      runMaterialization libraries input archive = .ok outcome ∧ value = outcomeJson outcome

theorem answers_error (headers : Headers) (message : Str) : Answers headers (.error message) := by
  intro response value hanswer
  cases hanswer

/-- The listener accepts an archive only with the outcome of its run. -/
theorem handle_ok {libraries : Libraries} {headers : Headers} {body : Option Bytes}
    (h : (handle libraries "POST".toList "/materialize-archive".toList headers body).ok = true) :
    ∃ input archive outcome, materializationInput headers = some input ∧
      runMaterialization libraries input archive = .ok outcome ∧
      handle libraries "POST".toList "/materialize-archive".toList headers body =
        jsonResponse 200 (outcomeJson outcome) := by
  have hget : ¬ ("POST".toList = "GET".toList ∧ "/materialize-archive".toList = "/health".toList) := by
    decide
  have hpost : ¬ ("POST".toList ≠ "POST".toList ∨
      "/materialize-archive".toList ≠ "/materialize-archive".toList) := by simp
  have hrefused : ∀ {text : Str}, (plainResponse 400 text).ok ≠ true := Bool.false_ne_true
  unfold handle at h ⊢
  rw [if_neg hget, if_neg hpost] at h ⊢
  cases body with
  | none => exact absurd h hrefused
  | some archive =>
    dsimp only at h ⊢
    split_ifs at h ⊢ with hlarge
    · exact absurd h hrefused
    · cases hinput : materializationInput headers with
      | none =>
        rw [hinput] at h
        exact absurd h hrefused
      | some input =>
        rw [hinput] at h
        dsimp only at h ⊢
        split_ifs at h ⊢ with hsource
        · exact absurd h hrefused
        · cases hrun : runMaterialization libraries input archive with
          | error error =>
            rw [hrun] at h
            exact absurd h Bool.false_ne_true
          | ok outcome => exact ⟨input, archive, outcome, rfl, hrun, rfl⟩

/-- The listener answers so, whatever becomes of the body on the way back. -/
theorem handle_answers (libraries : Libraries) (headers : Headers) (body : Option Bytes)
    {response : Fetched}
    (hstatus : response.status = (handle libraries "POST".toList "/materialize-archive".toList headers
      body).status)
    (hbody : ∀ content, response.body = .bytes content → content =
      (handle libraries "POST".toList "/materialize-archive".toList headers body).body) :
    Answers headers (.ok response) := by
  rintro _ value ⟨⟩ hok hjson
  rw [Fetched.ok, hstatus] at hok
  obtain ⟨input, archive, outcome, hinput, hrun, hresponse⟩ := handle_ok hok
  refine ⟨libraries, input, archive, outcome, hinput, hrun, ?_⟩
  cases hb : response.body with
  | absent =>
    rw [hb] at hjson
    cases hjson
  | broken message =>
    rw [hb] at hjson
    cases hjson
  | bytes content =>
    rw [hb, hbody content hb, hresponse] at hjson
    have hparse := Json.parse_decode_write (valid_outcomeJson outcome)
    exact Option.some.inj (hjson.symm.trans hparse)

def MaterializationOutcome.completion : MaterializationOutcome → Outcome
  | .ready _ => .ready
  | .yanked diagnostic _ => .yanked diagnostic

theorem validMaterializedArtifact_upload (upload : BatchedArtifact) :
    ObjectHandlers.validMaterializedArtifact (uploadJson upload) = true := rfl

theorem parse_outcomeJson {outcome : MaterializationOutcome} (h : outcome.uploads ≠ []) :
    ObjectHandlers.parseMaterializationOutcome (outcomeJson outcome) =
      some (outcome.completion, outcome.uploads.map uploadJson) := by
  have hall : ∀ uploads : List BatchedArtifact,
      (uploads.map uploadJson).all ObjectHandlers.validMaterializedArtifact = true := by
    intro uploads
    rw [List.all_eq_true]
    intro item hitem
    obtain ⟨upload, -, rfl⟩ := List.mem_map.1 hitem
    exact validMaterializedArtifact_upload upload
  cases outcome with
  | ready uploads =>
    obtain ⟨upload, rest, rfl⟩ := List.exists_cons_of_ne_nil h
    unfold ObjectHandlers.parseMaterializationOutcome
    exact if_pos (hall (upload :: rest))
  | yanked diagnostic uploads =>
    obtain ⟨upload, rest, rfl⟩ := List.exists_cons_of_ne_nil h
    unfold ObjectHandlers.parseMaterializationOutcome
    exact if_pos (hall (upload :: rest))

end Service

namespace ObjectHandlers
open Service

theorem materializationInput_sent {name : PackageName} {job : MaterializationJob}
    {body : MaterializeBody} {archive : Body} {request : StreamedRequest}
    (h : materializationRequest name job body archive = .ok request) :
    materializationInput request.headers = some (sentInput name job body) := by
  unfold materializationRequest at h
  cases hn : Headers.normalize (materializationJson name job body).write with
  | none =>
    rw [hn] at h
    cases h
  | some sent =>
    rw [hn] at h
    obtain rfl := Except.ok.inj h
    have hsent : sent = (materializationJson name job body).write := by
      obtain ⟨text, htext⟩ := Json.write_object_ends "job".toList _ _
      have hends : (materializationJson name job body).write = '{' :: (text ++ ['}']) := htext
      rw [hends] at hn ⊢
      exact Headers.eq_of_normalize (by decide) (by decide) hn
    have hvalue : headerValue [("content-type".toList, "application/gzip".toList),
        ("x-jsrproxy-materialization".toList, sent)] "x-jsrproxy-materialization".toList = sent := rfl
    rw [materializationInput, hvalue, hsent, Json.parse_write (materializationJson_valid name job body)]
    exact context_of_json name job body

end ObjectHandlers
end JsrProxy
