import JsrProxy.Materialization
import JsrProxy.PackageHandlers
import JsrProxy.VersionAllocationRuns

set_option autoImplicit false

/-!
# The job in a header

The package object describes a job to the Container in one header: a JSON text, in
an alphabet that is narrower than that of branch names. The Container's HTTP server
and the way there are a parameter.
-/
namespace JsrProxy

def isAscii (text : Str) : Prop := ∀ c ∈ text, c.toNat < 0x80

theorem isAscii_of_all {text : Str} (h : text.all (fun c => c.toNat < 0x80) = true) :
    isAscii text := fun c hc => of_decide_eq_true (List.all_eq_true.1 h c hc)

namespace Json

def Visible (text : Str) : Prop := ∀ c ∈ text, 0x20 ≤ c.toNat ∧ c.toNat < 0x80

theorem escapeChar_table : ∀ n < 128, (escapeChar (Char.ofNat n)).all
    (fun d => 0x20 ≤ d.toNat && d.toNat < 0x80) = true := by
  decide +kernel

theorem escapeChar_ascii {c : Char} (h : c.toNat < 0x80) :
    ∀ d ∈ escapeChar c, 0x20 ≤ d.toNat ∧ d.toNat < 0x80 := by
  intro d hd
  have hall := escapeChar_table c.toNat h
  rw [Char.ofNat_toNat] at hall
  have hvisible := List.all_eq_true.1 hall d hd
  rw [Bool.and_eq_true, decide_eq_true_eq, decide_eq_true_eq] at hvisible
  exact hvisible

theorem escapeChar_of_large {c : Char} (h : 0x80 ≤ c.toNat) : escapeChar c = [c] := by
  have hne : ∀ d : Char, d.toNat < 0x80 → c ≠ d := by
    rintro d hd rfl
    omega
  simp [escapeChar, hne, show ¬ c.toNat < 0x20 by omega]

theorem visible_writeString {text : Str} (h : isAscii text) : Visible (writeString text) := by
  intro c hc
  rcases List.mem_cons.1 hc with rfl | hc
  · decide
  rcases List.mem_append.1 hc with hc | hc
  · obtain ⟨d, hd, hcd⟩ := List.mem_flatMap.1 hc
    exact escapeChar_ascii (h d hd) c hcd
  · rw [List.mem_singleton.1 hc]
    decide

theorem visible_string {text : Str} (h : isAscii text) : Visible (write (.string text)) := by
  rw [write]
  exact visible_writeString h

theorem mem_writeString {text : Str} {c : Char} (hc : c ∈ text) (h : 0x80 ≤ c.toNat) :
    c ∈ writeString text := by
  apply List.mem_cons_of_mem
  apply List.mem_append_left
  apply List.mem_flatMap.2
  refine ⟨c, hc, ?_⟩
  rw [escapeChar_of_large h]
  exact List.mem_singleton_self c

theorem visible_writeMembers {members : List (JsString × Json)}
    (h : ∀ m ∈ members, (∃ key : Str, m.1 = key ∧ isAscii key) ∧ Visible (write m.2)) :
    Visible (writeMembers members) := by
  induction members with
  | nil =>
    intro c hc
    rw [writeMembers, List.mem_singleton] at hc
    rw [hc]
    decide
  | cons member members ih =>
    obtain ⟨_, value⟩ := member
    obtain ⟨⟨key, rfl, hkey⟩, hvalue⟩ := h (_, value) List.mem_cons_self
    intro c hc
    simp only [writeMembers, List.mem_cons, List.mem_append] at hc
    rcases hc with rfl | hc | rfl | hc | hc
    · decide
    · exact visible_writeString hkey c hc
    · decide
    · exact hvalue c hc
    · exact ih (fun m hm => h m (List.mem_cons_of_mem _ hm)) c hc

theorem visible_object {members : List (JsString × Json)}
    (h : ∀ m ∈ members, (∃ key : Str, m.1 = key ∧ isAscii key) ∧ Visible (write m.2)) :
    Visible (write (.object members)) := by
  cases members with
  | nil =>
    intro c hc
    simp only [write, List.mem_cons, List.not_mem_nil, or_false] at hc
    rcases hc with rfl | rfl
    · decide
    · decide
  | cons member members =>
    obtain ⟨_, value⟩ := member
    obtain ⟨⟨key, rfl, hkey⟩, hvalue⟩ := h (_, value) List.mem_cons_self
    intro c hc
    simp only [write, List.mem_cons, List.mem_append] at hc
    rcases hc with rfl | hc | rfl | hc | hc
    · decide
    · exact visible_writeString hkey c hc
    · decide
    · exact hvalue c hc
    · exact visible_writeMembers (fun m hm => h m (List.mem_cons_of_mem _ hm)) c hc

theorem mem_writeMembers {members : List (JsString × Json)} {m : JsString × Json} (hm : m ∈ members) {c : Char}
    (hc : c ∈ write m.2) : c ∈ writeMembers members := by
  induction members with
  | nil => cases hm
  | cons member members ih =>
    obtain ⟨key, value⟩ := member
    simp only [writeMembers, List.mem_cons, List.mem_append]
    rcases List.mem_cons.1 hm with rfl | hm
    · exact .inr (.inr (.inr (.inl hc)))
    · exact .inr (.inr (.inr (.inr (ih hm))))

theorem mem_write_object {members : List (JsString × Json)} {m : JsString × Json} (hm : m ∈ members) {c : Char}
    (hc : c ∈ write m.2) : c ∈ write (.object members) := by
  cases members with
  | nil => cases hm
  | cons member members =>
    obtain ⟨key, value⟩ := member
    simp only [write, List.mem_cons, List.mem_append]
    rcases List.mem_cons.1 hm with rfl | hm
    · exact .inr (.inr (.inr (.inl hc)))
    · exact .inr (.inr (.inr (.inr (mem_writeMembers hm hc))))

theorem writeMembers_ends (members : List (JsString × Json)) :
    ∃ body, writeMembers members = body ++ ['}'] := by
  induction members with
  | nil => exact ⟨[], by rw [writeMembers]; rfl⟩
  | cons member members ih =>
    obtain ⟨key, value⟩ := member
    obtain ⟨body, hbody⟩ := ih
    refine ⟨',' :: (writeString key ++ ':' :: (write value ++ body)), ?_⟩
    simp only [writeMembers, hbody, List.cons_append, List.append_assoc]

theorem write_object_ends (key : JsString) (value : Json) (members : List (JsString × Json)) :
    ∃ body, write (.object ((key, value) :: members)) = '{' :: (body ++ ['}']) := by
  obtain ⟨body, hbody⟩ := writeMembers_ends members
  refine ⟨writeString key ++ ':' :: (write value ++ body), ?_⟩
  simp only [write, hbody, List.cons_append, List.append_assoc]

end Json

namespace Headers

theorem strip_ends {first last : Char} {body : Str} (hfirst : first ∉ [' ', '\t', '\n', '\r'])
    (hlast : last ∉ [' ', '\t', '\n', '\r']) :
    ((first :: (body ++ [last])).dropWhile fun c => decide (c ∈ [' ', '\t', '\n', '\r'])).rdropWhile
      (fun c => decide (c ∈ [' ', '\t', '\n', '\r'])) = first :: (body ++ [last]) := by
  have hdrop : (first :: (body ++ [last])).dropWhile (fun c => decide (c ∈ [' ', '\t', '\n', '\r']))
      = first :: (body ++ [last]) := by
    rw [List.dropWhile_cons, if_neg (by rw [decide_eq_true_eq]; exact hfirst)]
  rw [hdrop, ← List.cons_append, List.rdropWhile_concat_neg]
  rw [decide_eq_true_eq]
  exact hlast

theorem eq_of_normalize {first last : Char} {body sent : Str}
    (hfirst : first ∉ [' ', '\t', '\n', '\r']) (hlast : last ∉ [' ', '\t', '\n', '\r'])
    (h : normalize (first :: (body ++ [last])) = some sent) : sent = first :: (body ++ [last]) := by
  unfold normalize at h
  dsimp only at h
  rw [strip_ends hfirst hlast] at h
  split_ifs at h
  exact (Option.some.inj h).symm

theorem normalize_of_ends {first last : Char} {body : Str}
    (hfirst : first ∉ [' ', '\t', '\n', '\r']) (hlast : last ∉ [' ', '\t', '\n', '\r'])
    (h : ∀ c ∈ first :: (body ++ [last]), 0x20 ≤ c.toNat ∧ c.toNat ≤ 0xff) :
    normalize (first :: (body ++ [last])) = some (first :: (body ++ [last])) := by
  have hne : ∀ c ∈ first :: (body ++ [last]), ∀ d : Char, d.toNat < 0x20 → c ≠ d := by
    rintro c hc d hd rfl
    have hlarge := (h c hc).1
    omega
  have hany : ((first :: (body ++ [last])).any fun c =>
      c ∈ ['\x00', '\n', '\r'] || 0xff < c.toNat) = false := by
    rw [List.any_eq_false]
    intro c hc
    simp [hne c hc, (h c hc).2]
  unfold normalize
  dsimp only
  rw [strip_ends hfirst hlast, hany, if_neg Bool.false_ne_true]

theorem mem_dropWhile {p : Char → Bool} {c : Char} (hp : p c = false) {text : Str} (hc : c ∈ text) :
    c ∈ text.dropWhile p := by
  induction text with
  | nil => cases hc
  | cons first rest ih =>
    rw [List.dropWhile_cons]
    split_ifs with hfirst
    · rcases List.mem_cons.1 hc with rfl | hc
      · rw [hp] at hfirst
        cases hfirst
      · exact ih hc
    · exact hc

theorem mem_normalize {value sent : Str} (h : normalize value = some sent) {c : Char}
    (hc : c ∈ value) (hblank : 0x20 < c.toNat) : c ∈ sent := by
  have hne : ∀ d : Char, d.toNat ≤ 0x20 → c ≠ d := by
    rintro d hd rfl
    omega
  have hvisible : decide (c ∈ [' ', '\t', '\n', '\r']) = false := by
    rw [decide_eq_false_iff_not]
    simp only [List.mem_cons, List.not_mem_nil, or_false, not_or]
    exact ⟨hne _ (by decide), hne _ (by decide), hne _ (by decide), hne _ (by decide)⟩
  unfold normalize at h
  dsimp only at h
  split_ifs at h
  rw [← Option.some.inj h, List.rdropWhile, List.mem_reverse]
  apply mem_dropWhile hvisible
  rw [List.mem_reverse]
  exact mem_dropWhile hvisible hc

end Headers

namespace Service

/-- The values of the named fields, each of which occurs once. A sequence gives them in
    their order. A field whose name is no text is refused. -/
def fieldsOf (value : Json) (names : List Str) : Option (List Json) :=
  match value with
  | .object members =>
    if members.all fun member => member.1.text?.isSome then
      names.mapM fun name =>
        match members.filter fun member => member.1 = name with
        | [(_, field)] => some field
        | _ => none
    else none
  | .array items => if items.length = names.length then some items else none
  | _ => none

def textField : Json → Option Str
  | .string (.text text) => some text
  | _ => none

def packageIdentity (value : Json) : Option PackageName :=
  match fieldsOf value ["scope".toList, "name".toList] with
  | some [scope, name] =>
    match textField scope, textField name with
    | some scope, some name => some ⟨scope, name⟩
    | _, _ => none
  | _ => none

def materializationJob (value : Json) : Option Materializer.MaterializationJob :=
  match fieldsOf value ["package".toList, "branch".toList, "commitSha".toList, "version".toList] with
  | some [package, branch, commitSha, version] =>
    match packageIdentity package, textField branch, textField commitSha, textField version with
    | some package, some branch, some commitSha, some version =>
      some ⟨package, branch, commitSha, version⟩
    | _, _, _, _ => none
  | _ => none

def sourceRepository (value : Json) : Option SourceRepository :=
  match fieldsOf value ["owner".toList, "repository".toList] with
  | some [owner, repository] =>
    match textField owner, textField repository with
    | some owner, some repository => some ⟨owner, repository⟩
    | _, _ => none
  | _ => none

def archiveMaterializationContext (value : Json) : Option MaterializationRequest :=
  match fieldsOf value ["job".toList, "source".toList, "statusUrl".toList] with
  | some [job, source, statusUrl] =>
    match materializationJob job, sourceRepository source, textField statusUrl with
    | some job, some source, some statusUrl => some ⟨job, source, statusUrl⟩
    | _, _, _ => none
  | _ => none

/-- The value of the first header of a name, whose case does not count. -/
def headerValue (headers : Headers) (name : Str) : Str :=
  ((headers.find? fun header => toAsciiLowercase header.1 = toAsciiLowercase name).map Prod.snd).getD []

def materializationInput (headers : Headers) : Option MaterializationRequest :=
  (Json.parse (headerValue headers "x-jsrproxy-materialization".toList)).bind
    archiveMaterializationContext

def validSourceComponent (value : Str) : Bool :=
  !value.isEmpty && value.all fun c => c.isAlphanum || c ∈ "-_.".toList

theorem validSourceComponent_ascii {value : Str} (h : validSourceComponent value = true) :
    isAscii value := by
  intro c hc
  rw [validSourceComponent, Bool.and_eq_true, List.all_eq_true] at h
  have hbyte := h.2 c hc
  rw [Bool.or_eq_true, decide_eq_true_eq] at hbyte
  rcases hbyte with hbyte | hbyte
  · exact Text.isAlphanum_ascii hbyte
  · have hall : "-_.".toList.all (fun d => d.toNat < 0x80) = true := by decide
    exact of_decide_eq_true (List.all_eq_true.1 hall c hbyte)

end Service

namespace ObjectHandlers
open Service PackageRegistry

def sentInput (name : PackageName) (job : MaterializationJob) (body : MaterializeBody) :
    MaterializationRequest :=
  ⟨⟨name, job.branch, job.commitSha, job.version⟩, ⟨body.owner, body.repository⟩, body.statusUrl⟩

theorem context_of_json (name : PackageName) (job : MaterializationJob) (body : MaterializeBody) :
    archiveMaterializationContext (materializationJson name job body)
      = some (sentInput name job body) := by
  rfl

/-- The texts that are neither a configured owner nor a version. -/
def freeTexts (name : PackageName) (job : MaterializationJob) (body : MaterializeBody) : List Str :=
  [name.scope, name.name, job.branch, job.commitSha, body.repository, body.statusUrl]

theorem materializationJson_valid (name : PackageName) (job : MaterializationJob)
    (body : MaterializeBody) : (materializationJson name job body).Valid := by
  simp only [materializationJson, Json.Valid, Json.ValidMembers, and_self]

theorem materializationJson_visible {name : PackageName} {job : MaterializationJob}
    {body : MaterializeBody} (hfree : ∀ text ∈ freeTexts name job body, isAscii text)
    (howner : isAscii body.owner) (hversion : isAscii job.version) :
    Json.Visible (materializationJson name job body).write := by
  have hkey : ∀ {key : Str}, key.all (fun c => c.toNat < 0x80) = true →
      ∃ found, JsString.text key = .text found ∧ isAscii found :=
    fun hkey => ⟨_, rfl, isAscii_of_all hkey⟩
  have htext : ∀ {key text : Str}, key.all (fun c => c.toNat < 0x80) = true → isAscii text →
      (∃ found, JsString.text key = .text found ∧ isAscii found) ∧ Json.Visible (Json.string text).write :=
    fun h htext => ⟨hkey h, Json.visible_string htext⟩
  simp only [freeTexts, List.forall_mem_cons, List.not_mem_nil, false_implies, implies_true,
    and_true] at hfree
  obtain ⟨hscope, hname, hbranch, hcommit, hrepository, hstatus⟩ := hfree
  unfold materializationJson
  apply Json.visible_object
  simp only [List.forall_mem_cons, List.not_mem_nil, false_implies, implies_true, and_true]
  refine ⟨⟨hkey (by decide), Json.visible_object ?_⟩, ⟨hkey (by decide), Json.visible_object ?_⟩,
    htext (by decide) hstatus⟩
  · simp only [List.forall_mem_cons, List.not_mem_nil, false_implies, implies_true, and_true]
    refine ⟨⟨hkey (by decide), Json.visible_object ?_⟩, htext (by decide) hbranch,
      htext (by decide) hcommit, htext (by decide) hversion⟩
    simp only [List.forall_mem_cons, List.not_mem_nil, false_implies, implies_true, and_true]
    exact ⟨htext (by decide) hscope, htext (by decide) hname⟩
  · simp only [List.forall_mem_cons, List.not_mem_nil, false_implies, implies_true, and_true]
    exact ⟨htext (by decide) howner, htext (by decide) hrepository⟩

theorem mem_materializationJson {name : PackageName} {job : MaterializationJob}
    {body : MaterializeBody} {text : Str} (htext : text ∈ freeTexts name job body) {c : Char}
    (hc : c ∈ text) (h : 0x80 ≤ c.toNat) : c ∈ (materializationJson name job body).write := by
  have hwritten : c ∈ (Json.string text).write := by
    rw [Json.write]
    exact Json.mem_writeString hc h
  simp only [freeTexts, List.mem_cons, List.not_mem_nil, or_false] at htext
  unfold materializationJson
  rcases htext with rfl | rfl | rfl | rfl | rfl | rfl
  · exact Json.mem_write_object (.head _) (Json.mem_write_object (.head _)
      (Json.mem_write_object (.head _) hwritten))
  · exact Json.mem_write_object (.head _) (Json.mem_write_object (.head _)
      (Json.mem_write_object (.tail _ (.head _)) hwritten))
  · exact Json.mem_write_object (.head _) (Json.mem_write_object (.tail _ (.head _)) hwritten)
  · exact Json.mem_write_object (.head _)
      (Json.mem_write_object (.tail _ (.tail _ (.head _))) hwritten)
  · exact Json.mem_write_object (.tail _ (.head _))
      (Json.mem_write_object (.tail _ (.head _)) hwritten)
  · exact Json.mem_write_object (.tail _ (.tail _ (.head _))) hwritten

theorem isAscii_decimal (n : ℤ) : isAscii (Text.decimal n) := by
  intro c hc
  rcases Text.mem_decimal hc with rfl | hdigit
  · decide
  · apply Text.isAlphanum_ascii
    rw [Char.isAlphanum, hdigit, Bool.or_true]

theorem isAscii_versionString (major sequence : ℤ) : isAscii (versionString major sequence) := by
  intro c hc
  rcases List.mem_append.1 hc with hc | hc
  · rcases List.mem_append.1 hc with hc | hc
    · exact isAscii_decimal major c hc
    · exact @isAscii_of_all ".1.".toList (by decide) c hc
  · exact isAscii_decimal sequence c hc

theorem job_version_ascii {registry : PackageRegistry} (h : registry.Coherent)
    {job : MaterializationJob} (hjob : job ∈ registry.jobs) : isAscii job.version := by
  obtain ⟨record, hrecord, rfl⟩ := List.mem_map.1 hjob
  obtain ⟨v, hv⟩ := (OrderedMap.mem_values _ _).1 hrecord
  have hof := h.record v record hv
  rw [hof.version, hof.named]
  exact isAscii_versionString _ _

/-- A header that can be sent and that the Container reads the same job from. -/
def Delivered (transport : Headers → Option Headers) (name : PackageName) (job : MaterializationJob)
    (body : MaterializeBody) (archive : Body) : Prop :=
  ∃ request arrived, materializationRequest name job body archive = .ok request ∧
    transport request.headers = some arrived ∧
    materializationInput arrived = some (sentInput name job body)

theorem materializationRequest_ascii {name : PackageName} {job : MaterializationJob}
    {body : MaterializeBody} (hvisible : Json.Visible (materializationJson name job body).write)
    (archive : Body) :
    Headers.normalize (materializationJson name job body).write
        = some (materializationJson name job body).write ∧
      ∃ request, materializationRequest name job body archive = .ok request ∧
        request.headers = [("content-type".toList, "application/gzip".toList),
          ("x-jsrproxy-materialization".toList, (materializationJson name job body).write)] := by
  have hnormal : Headers.normalize (materializationJson name job body).write
      = some (materializationJson name job body).write := by
    obtain ⟨text, htext⟩ := Json.write_object_ends "job".toList _ _
    have hends : (materializationJson name job body).write = '{' :: (text ++ ['}']) := htext
    rw [hends] at hvisible ⊢
    apply Headers.normalize_of_ends (by decide) (by decide)
    intro c hc
    have hrange := hvisible c hc
    omega
  refine ⟨hnormal, ⟨"POST".toList,
      .parse "https://materializer.internal".toList "/materialize-archive".toList,
      [("content-type".toList, "application/gzip".toList),
        ("x-jsrproxy-materialization".toList, (materializationJson name job body).write)],
      archive⟩, ?_, rfl⟩
  rw [materializationRequest, hnormal]

/-- A text outside of ASCII is refused on the way, by the client or by the server. -/
theorem undelivered {transport : Headers → Option Headers}
    (hrefused : ∀ headers : Headers, (∃ header ∈ headers, ¬ isAscii header.2) →
      transport headers = none)
    {name : PackageName} {job : MaterializationJob} {body : MaterializeBody} {archive : Body}
    {text : Str} (htext : text ∈ freeTexts name job body) (hforeign : ¬ isAscii text) :
    ¬ Delivered transport name job body archive := by
  rintro ⟨request, arrived, hrequest, harrived, -⟩
  unfold isAscii at hforeign
  push Not at hforeign
  obtain ⟨c, hc, hlarge⟩ := hforeign
  have hwritten := mem_materializationJson htext hc hlarge
  unfold materializationRequest at hrequest
  cases hn : Headers.normalize (materializationJson name job body).write with
  | none =>
    rw [hn] at hrequest
    cases hrequest
  | some sent =>
    rw [hn] at hrequest
    obtain rfl := Except.ok.inj hrequest
    have hsent : c ∈ sent := Headers.mem_normalize hn hwritten (by omega)
    rw [hrefused _ ⟨_, .tail _ (.head _), fun hascii => absurd (hascii c hsent) (by omega)⟩] at harrived
    cases harrived

/-- A transport that keeps sendable ASCII values and refuses every other one delivers
    exactly the jobs whose texts are ASCII. -/
theorem delivered_iff (transport : Headers → Option Headers)
    (hkept : ∀ headers : Headers, (headers.map fun header => toAsciiLowercase header.1).Nodup →
      (∀ header ∈ headers, isAscii header.2 ∧ Headers.normalize header.2 = some header.2) →
      ∃ arrived, transport headers = some arrived ∧
        ∀ name value, headers.get name = some value → headerValue arrived name = value)
    (hrefused : ∀ headers : Headers, (∃ header ∈ headers, ¬ isAscii header.2) →
      transport headers = none)
    (name : PackageName) (ops : List Op) (job : MaterializationJob)
    (hjob : job ∈ (Executions.run apply (new name) ops).jobs) (body : MaterializeBody)
    (howner : validSourceComponent body.owner = true) (archive : Body) :
    Delivered transport name job body archive ↔
      ∀ text ∈ freeTexts name job body, isAscii text := by
  constructor
  · intro hdelivered text htext
    by_contra hforeign
    exact undelivered hrefused htext hforeign hdelivered
  · intro hfree
    have hvisible := materializationJson_visible hfree (validSourceComponent_ascii howner)
      (job_version_ascii (run_coherent name ops) hjob)
    obtain ⟨hnormal, request, hrequest, hheaders⟩ := materializationRequest_ascii hvisible archive
    have hnames : (request.headers.map fun header => toAsciiLowercase header.1).Nodup := by
      rw [hheaders]
      simp only [List.map_cons, List.map_nil]
      decide
    have hvalues : ∀ header ∈ request.headers,
        isAscii header.2 ∧ Headers.normalize header.2 = some header.2 := by
      rw [hheaders]
      intro header hm
      simp only [List.mem_cons, List.not_mem_nil, or_false] at hm
      rcases hm with rfl | rfl
      · exact ⟨isAscii_of_all (by decide), by decide⟩
      · exact ⟨fun c hc => (hvisible c hc).2, hnormal⟩
    obtain ⟨arrived, harrived, hread⟩ := hkept request.headers hnames hvalues
    have hvalue := hread "x-jsrproxy-materialization".toList _ (by rw [hheaders]; rfl)
    refine ⟨request, arrived, hrequest, harrived, ?_⟩
    rw [materializationInput, hvalue, Json.parse_write (materializationJson_valid name job body)]
    exact context_of_json name job body

/-- A transport that does nothing more than that. -/
def asciiTransport (headers : Headers) : Option Headers :=
  if headers.all fun header => header.2.all fun c => c.toNat < 0x80 then some headers else none

theorem asciiTransport_refuses (headers : Headers) (h : ∃ header ∈ headers, ¬ isAscii header.2) :
    asciiTransport headers = none := by
  obtain ⟨header, hm, hforeign⟩ := h
  apply if_neg
  intro hall
  exact hforeign (isAscii_of_all (List.all_eq_true.1 hall header hm))

theorem headerValue_of_get {headers : Headers}
    (hnames : (headers.map fun header => toAsciiLowercase header.1).Nodup) {name value : Str}
    (h : headers.get name = some value) : headerValue headers name = value := by
  have hm := Headers.mem_of_get h
  cases hfind : headers.find? fun header =>
      toAsciiLowercase header.1 = toAsciiLowercase name with
  | none =>
    have habsent := List.find?_eq_none.1 hfind (name, value) hm
    simp at habsent
  | some header =>
    have hsame : toAsciiLowercase header.1 = toAsciiLowercase name := by
      simpa using List.find?_some hfind
    have hunique := List.inj_on_of_nodup_map hnames (List.mem_of_find?_eq_some hfind) hm hsame
    rw [headerValue, hfind, hunique]
    rfl

theorem asciiTransport_keeps (headers : Headers)
    (hnames : (headers.map fun header => toAsciiLowercase header.1).Nodup)
    (hvalues : ∀ header ∈ headers, isAscii header.2 ∧ Headers.normalize header.2 = some header.2) :
    ∃ arrived, asciiTransport headers = some arrived ∧
      ∀ name value, headers.get name = some value → headerValue arrived name = value := by
  refine ⟨headers, if_pos ?_, fun name value hget => headerValue_of_get hnames hget⟩
  rw [List.all_eq_true]
  intro header hm
  rw [List.all_eq_true]
  intro c hc
  exact decide_eq_true ((hvalues header hm).1 c hc)

def onlyTip (branch : Str) : List Op :=
  [.refresh ⟨branch, OrderedMap.empty.set branch ⟨"c0ffee".toList, 7⟩⟩]

def tipJob (branch : Str) : MaterializationJob :=
  ⟨branch, "c0ffee".toList, 0, "0.1.7".toList, .pending, none, none⟩

def acmeWidget : PackageName := ⟨"acme".toList, "widget".toList⟩

def acmeBody : MaterializeBody :=
  ⟨"acme".toList, "widget".toList, "pat".toList, "https://jsr.example/status".toList⟩

theorem delivered_iff_main :
    Delivered asciiTransport acmeWidget (tipJob "main".toList) acmeBody .absent ↔
      ∀ text ∈ freeTexts acmeWidget (tipJob "main".toList) acmeBody, isAscii text :=
  delivered_iff asciiTransport asciiTransport_keeps asciiTransport_refuses acmeWidget
    (onlyTip "main".toList) _ (by decide +kernel) acmeBody (by decide) .absent

theorem foreignBranch_unsent :
    tipJob "главная".toList
        ∈ (Executions.run apply (new acmeWidget) (onlyTip "главная".toList)).jobs ∧
      validSourceComponent acmeBody.owner = true ∧
      materializationRequest acmeWidget (tipJob "главная".toList) acmeBody .absent
        = .error "invalid header value".toList := by
  decide +kernel

end ObjectHandlers
end JsrProxy
