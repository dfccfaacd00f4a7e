import JsrProxy.PublishedFiles

set_option autoImplicit false

/-!
# Publications in a create-once store

What a publication leaves in any store that writes a key once and may fail at each
put, and which later publications of the version go through.
-/
namespace JsrProxy

structure StoredArtifact where
  bytes : Bytes
  sha256 : Str
deriving DecidableEq, Repr

namespace Publication
open Text

theorem manifestEntryJson_inj {entry entry' : ManifestEntry}
    (h : manifestEntryJson entry = manifestEntryJson entry') : entry = entry' := by
  obtain ⟨size, checksum⟩ := entry
  obtain ⟨size', checksum'⟩ := entry'
  simp only [manifestEntryJson, Json.object.injEq, List.cons.injEq, Prod.mk.injEq, true_and, and_true,
    Json.number.injEq, Json.string.injEq, JsString.text.injEq] at h
  rw [toDigits_inj h.1, h.2]

theorem toList_inj {ν : Type} {map map' : BTreeMap ν} (h : map.toList = map'.toList) : map = map' := by
  apply Std.ExtTreeMap.ext_getElem?
  intro key
  apply Option.ext
  intro value
  rw [← Std.ExtTreeMap.mem_toList_iff_getElem?_eq_some, h, Std.ExtTreeMap.mem_toList_iff_getElem?_eq_some]

theorem members_inj {ν : Type} {write : ν → Json} (hwrite : Function.Injective write)
    {map map' : BTreeMap ν} (h : (map.toList.map fun entry => (JsString.text entry.1, write entry.2))
      = map'.toList.map fun entry => (JsString.text entry.1, write entry.2)) : map = map' := by
  apply toList_inj
  apply List.map_injective_iff.2 _ h
  intro entry entry' he
  obtain ⟨hkey, hvalue⟩ := Prod.mk.inj he
  exact Prod.ext (JsString.text.inj hkey) (hwrite hvalue)

theorem metadataJson_inj {metadata metadata' : PackageMetadata}
    (h : metadataJson metadata = metadataJson metadata') : metadata = metadata' := by
  obtain ⟨manifest, exports, branch, commitSha⟩ := metadata
  obtain ⟨manifest', exports', branch', commitSha'⟩ := metadata'
  simp only [metadataJson, manifestJson, exportsJson, provenanceJson, Json.object.injEq,
    List.cons.injEq, Prod.mk.injEq, true_and, and_true, Json.string.injEq, JsString.text.injEq] at h
  obtain ⟨hmanifest, hexports, hbranch, hsha⟩ := h
  rw [members_inj (fun _ _ => manifestEntryJson_inj) hmanifest,
    members_inj (fun _ _ he => JsString.text.inj (Json.string.inj he)) hexports, hbranch, hsha]

theorem toVec_metadata_inj {metadata metadata' : PackageMetadata}
    (h : toVec (metadataJson metadata) = toVec (metadataJson metadata')) : metadata = metadata' := by
  have hparse := Json.parse_decode_write (valid_metadataJson metadata)
  rw [show Utf8.encode (metadataJson metadata).write = toVec (metadataJson metadata) from rfl, h, toVec,
    Json.parse_decode_write (valid_metadataJson metadata'), Option.some.injEq] at hparse
  exact (metadataJson_inj hparse).symm

theorem manifestOf_perm {files files' : List ArtifactFile} (hnodup : (files.map ArtifactFile.path).Nodup)
    (h : files'.Perm files) : manifestOf files' = manifestOf files := by
  have hnodup' : (files'.map ArtifactFile.path).Nodup := (h.map _).nodup_iff.2 hnodup
  apply Std.ExtTreeMap.ext_getElem?
  intro path
  apply Option.ext
  intro entry
  rw [manifestOf_get hnodup, manifestOf_get hnodup']
  simp only [h.mem_iff]

/-- Among these texts no two have the same digest. -/
def CollisionFree (texts : List Bytes) : Prop :=
  ∀ a ∈ texts, ∀ b ∈ texts, sha256Hex a = sha256Hex b → a = b

theorem manifestEntry_inj {bytes bytes' : Bytes} (h : manifestEntry bytes = manifestEntry bytes') :
    sha256Hex bytes = sha256Hex bytes' := by
  simp only [manifestEntry, ManifestEntry.mk.injEq] at h
  exact List.append_cancel_left h.2

theorem mem_of_manifestOf {files files' : List ArtifactFile}
    (hnodup : (files.map ArtifactFile.path).Nodup) (hnodup' : (files'.map ArtifactFile.path).Nodup)
    (hfree : ∀ file ∈ files, ∀ file' ∈ files', sha256Hex file'.bytes = sha256Hex file.bytes →
      file'.bytes = file.bytes)
    (h : manifestOf files' = manifestOf files) {file' : ArtifactFile} (hmem : file' ∈ files') :
    file' ∈ files := by
  have hentry : (manifestOf files')['/' :: file'.path]? = some (manifestEntry file'.bytes) :=
    (manifestOf_get hnodup').2 ⟨file', hmem, rfl, rfl⟩
  rw [h] at hentry
  obtain ⟨file, hfile, hpath, hsame⟩ := (manifestOf_get hnodup).1 hentry
  have hbytes := hfree file hfile file' hmem (manifestEntry_inj hsame)
  obtain ⟨path, bytes⟩ := file
  obtain ⟨path', bytes'⟩ := file'
  obtain rfl : path' = path := (List.cons.inj hpath).2
  obtain rfl : bytes' = bytes := hbytes
  exact hfile

/-- A manifest without collisions determines its files. -/
theorem perm_of_manifestOf {files files' : List ArtifactFile}
    (hnodup : (files.map ArtifactFile.path).Nodup) (hnodup' : (files'.map ArtifactFile.path).Nodup)
    (hfree : CollisionFree ((files ++ files').map ArtifactFile.bytes))
    (h : manifestOf files' = manifestOf files) : files'.Perm files := by
  have hbytes : ∀ file ∈ files, ∀ file' ∈ files', sha256Hex file'.bytes = sha256Hex file.bytes →
      file'.bytes = file.bytes := by
    intro file hfile file' hfile' hsame
    exact hfree _ (List.mem_map_of_mem (List.mem_append_right _ hfile')) _
      (List.mem_map_of_mem (List.mem_append_left _ hfile)) hsame
  rw [List.perm_ext_iff_of_nodup hnodup'.of_map hnodup.of_map]
  intro file
  constructor
  · exact mem_of_manifestOf hnodup hnodup' hbytes h
  · exact mem_of_manifestOf hnodup' hnodup
      (fun file' hfile' file hfile hsame => (hbytes file hfile file' hfile' hsame.symm).symm) h.symm

variable {σ : Type} {store : ArtifactStore σ} {held : σ → ObjectStore Str StoredArtifact}

/-- The store, seen through what it holds, creates a key once and takes an existing one
    for the same hash only. A put that fails writes nothing. -/
structure CreatesOnce (store : ArtifactStore σ) (held : σ → ObjectStore Str StoredArtifact) : Prop where
  accepts : ∀ s key bytes sha256, (store.putIfAbsent s key bytes sha256).1 = .ok () →
    (∀ object, held s key = some object → object.sha256 = sha256) ∧
      held (store.putIfAbsent s key bytes sha256).2 = (held s).put key ⟨bytes, sha256⟩
  refuses : ∀ s key bytes sha256 error, (store.putIfAbsent s key bytes sha256).1 = .error error →
    held (store.putIfAbsent s key bytes sha256).2 = held s ∧
      ((∃ message, error = .unavailable message) ∨
        ∃ object, held s key = some object ∧ object.sha256 ≠ sha256)

def Present (contents : ObjectStore Str StoredArtifact) (object : BatchObject) : Prop :=
  ∃ stored, contents object.key = some stored ∧ stored.sha256 = sha256Hex object.bytes

theorem Present.grows {contents contents' : ObjectStore Str StoredArtifact} {object : BatchObject}
    (h : Present contents object) (hgrows : contents.Grows contents') : Present contents' object := by
  obtain ⟨stored, hkey, hsha⟩ := h
  exact ⟨stored, hgrows _ _ hkey, hsha⟩

/-- What the puts of these objects change. -/
structure Puts (objects : List BatchObject) (before after : ObjectStore Str StoredArtifact) : Prop where
  grows : before.Grows after
  others : ∀ key, key ∉ objects.map BatchObject.key → after key = before key

theorem puts_nil (contents : ObjectStore Str StoredArtifact) : Puts [] contents contents :=
  ⟨ObjectStore.Grows.refl _, fun _ _ => rfl⟩

theorem Puts.cons {object : BatchObject} {rest : List BatchObject}
    {before after : ObjectStore Str StoredArtifact} {stored : StoredArtifact}
    (h : Puts rest (before.put object.key stored) after) : Puts (object :: rest) before after where
  grows := (ObjectStore.put_grows _ _ _).trans h.grows
  others key hkey := by
    rw [List.map_cons, List.mem_cons, not_or] at hkey
    rw [h.others key hkey.2, ObjectStore.put_of_ne _ _ hkey.1]

theorem putAll_ok (h : CreatesOnce store held) (objects : List BatchObject) (s : σ)
    (hok : (putAll store s objects).1 = .ok ()) :
    Puts objects (held s) (held (putAll store s objects).2) ∧
      ∀ object ∈ objects, Present (held (putAll store s objects).2) object := by
  induction objects generalizing s with
  | nil => exact ⟨puts_nil _, by simp⟩
  | cons object rest ih =>
    have haccepts := h.accepts s object.key object.bytes (sha256Hex object.bytes)
    rw [putAll] at hok ⊢
    cases hput : store.putIfAbsent s object.key object.bytes (sha256Hex object.bytes) with
    | mk answer after =>
      rw [hput] at hok haccepts
      cases answer with
      | error error => cases hok
      | ok =>
        obtain ⟨hsame, hafter⟩ := haccepts rfl
        dsimp only at hok hafter ⊢
        obtain ⟨hputs, hpresent⟩ := ih after hok
        have hfirst : Present (held after) object := by
          rw [hafter]
          rcases ObjectStore.put_held (held s) object.key ⟨object.bytes, sha256Hex object.bytes⟩ with
            hnew | ⟨old, hold, hput⟩
          · exact ⟨_, hnew, rfl⟩
          · rw [hput]
            exact ⟨old, hold, hsame old hold⟩
        refine ⟨(hafter ▸ hputs).cons, ?_⟩
        intro other hother
        rcases List.mem_cons.1 hother with rfl | hother
        · exact hfirst.grows hputs.grows
        · exact hpresent other hother

/-- Puts that fail have put some leading objects, but not the one they failed at. -/
theorem putAll_error (h : CreatesOnce store held) (objects : List BatchObject) (s : σ)
    {error : StoreError} (herror : (putAll store s objects).1 = .error error) :
    ∃ front object back, objects = front ++ object :: back ∧
      Puts front (held s) (held (putAll store s objects).2) ∧
      ((∃ message, error = .unavailable message) ∨
        ∃ stored, held (putAll store s objects).2 object.key = some stored ∧
          stored.sha256 ≠ sha256Hex object.bytes) := by
  induction objects generalizing s with
  | nil => cases herror
  | cons object rest ih =>
    have haccepts := h.accepts s object.key object.bytes (sha256Hex object.bytes)
    have hrefuses := h.refuses s object.key object.bytes (sha256Hex object.bytes)
    rw [putAll] at herror ⊢
    cases hput : store.putIfAbsent s object.key object.bytes (sha256Hex object.bytes) with
    | mk answer after =>
      rw [hput] at herror haccepts hrefuses
      cases answer with
      | error error' =>
        cases herror
        obtain ⟨hafter, hcause⟩ := hrefuses error rfl
        dsimp only at hafter ⊢
        rw [hafter]
        exact ⟨[], object, rest, rfl, puts_nil _, hcause⟩
      | ok =>
        obtain ⟨-, hafter⟩ := haccepts rfl
        dsimp only at herror hafter ⊢
        obtain ⟨front, failed, back, rfl, hputs, hcause⟩ := ih after herror
        exact ⟨object :: front, failed, back, rfl, (hafter ▸ hputs).cons, hcause⟩

theorem putAll_present (h : CreatesOnce store held) (objects : List BatchObject) (s : σ)
    (hpresent : ∀ object ∈ objects, Present (held s) object) :
    held (putAll store s objects).2 = held s ∧ ((putAll store s objects).1 = .ok () ∨
      ∃ message, (putAll store s objects).1 = .error (.unavailable message)) := by
  induction objects generalizing s with
  | nil => exact ⟨rfl, .inl rfl⟩
  | cons object rest ih =>
    obtain ⟨stored, hkey, hsha⟩ := hpresent object List.mem_cons_self
    have haccepts := h.accepts s object.key object.bytes (sha256Hex object.bytes)
    have hrefuses := h.refuses s object.key object.bytes (sha256Hex object.bytes)
    rw [putAll]
    cases hput : store.putIfAbsent s object.key object.bytes (sha256Hex object.bytes) with
    | mk answer after =>
      rw [hput] at haccepts hrefuses
      cases answer with
      | error error =>
        obtain ⟨hafter, hcause⟩ := hrefuses error rfl
        rcases hcause with ⟨message, rfl⟩ | ⟨other, hother, hne⟩
        · exact ⟨hafter, .inr ⟨message, rfl⟩⟩
        · rw [hkey, Option.some.injEq] at hother
          exact absurd hsha (hother ▸ hne)
      | ok =>
        obtain ⟨-, hafter⟩ := haccepts rfl
        dsimp only at hafter ⊢
        rw [ObjectStore.put_of_some hkey] at hafter
        have hrest := ih after (by
          intro other hother
          rw [hafter]
          exact hpresent other (List.mem_cons_of_mem _ hother))
        rw [hafter] at hrest
        exact hrest

/-- A publication and those of the same version that follow it, on a store whose
    contents only grow. -/
structure PublishedOnce (store : ArtifactStore σ) (held : σ → ObjectStore Str StoredArtifact)
    (job : Materializer.MaterializationJob) (files : List ArtifactFile) (exports : BTreeMap Str) (s : σ) :
    Prop where
  unmarked : ∀ error, (publish store job s files exports).1 = .error error →
    held (publish store job s files exports).2 (readyMarkerKey job) = held s (readyMarkerKey job)
  present : ∀ result, (publish store job s files exports).1 = .ok result →
    (∀ file ∈ files, Present (held (publish store job s files exports).2)
      ⟨fileKey job file.path, file.bytes⟩) ∧
    Present (held (publish store job s files exports).2)
      ⟨metadataKey job, toVec (metadataJson result.metadata)⟩ ∧
    Present (held (publish store job s files exports).2)
      ⟨readyMarkerKey job, toVec (markerJson result.manifestSha256)⟩
  grows : (held s).Grows (held (publish store job s files exports).2)
  republished : ∀ result, (publish store job s files exports).1 = .ok result →
    ∀ (later : σ) (job' : Materializer.MaterializationJob) (files' : List ArtifactFile)
      (exports' : BTreeMap Str), (held (publish store job s files exports).2).Grows (held later) →
    job'.package = job.package → job'.version = job.version →
    (∀ file ∈ files', validatePath file.path = .ok ()) → (files'.map ArtifactFile.path).Nodup →
    CollisionFree (toVec (metadataJson (metadataOf job (manifestOf files) exports)) ::
      toVec (metadataJson (metadataOf job' (manifestOf files') exports')) ::
      (files ++ files').map ArtifactFile.bytes) →
    (∀ message, (publish store job' later files' exports').1 ≠ .error (.storage (.unavailable message))) →
    ((∃ result', (publish store job' later files' exports').1 = .ok result') ↔
      files'.Perm files ∧ exports' = exports ∧ job'.branch = job.branch ∧
        job'.commitSha = job.commitSha) ∧
    ((∃ result', (publish store job' later files' exports').1 = .ok result') →
      held (publish store job' later files' exports').2 = held later)

theorem afterPuts_ok {α : Type} {result : α} {puts : Except StoreError Unit × σ} {answer : α}
    (h : (afterPuts result puts).1 = .ok answer) : puts.1 = .ok () ∧ answer = result := by
  unfold afterPuts at h
  cases hp : puts.1 with
  | error error =>
    rw [hp] at h
    cases h
  | ok =>
    rw [hp] at h
    cases h
    exact ⟨rfl, rfl⟩

theorem afterPuts_error {α : Type} {result : α} {puts : Except StoreError Unit × σ}
    {error : PublicationError} (h : (afterPuts result puts).1 = .error error) :
    ∃ cause, puts.1 = .error cause ∧ error = .storage cause := by
  unfold afterPuts at h
  cases hp : puts.1 with
  | error cause =>
    rw [hp] at h
    cases h
    exact ⟨cause, rfl, rfl⟩
  | ok =>
    rw [hp] at h
    cases h

variable {job job' : Materializer.MaterializationJob} {files files' : List ArtifactFile}
  {exports exports' : BTreeMap Str}

theorem metadataObject_mem : metadataObject job files exports ∈ batchOf job files exports :=
  List.mem_append_right _ List.mem_cons_self

theorem markerObject_mem : markerObject job files ∈ batchOf job files exports :=
  List.mem_append_right _ (List.mem_cons_of_mem _ List.mem_cons_self)

theorem fileObject_mem {file : ArtifactFile} (h : file ∈ files) :
    fileObject job file ∈ batchOf job files exports :=
  List.mem_append_left _ (List.mem_map_of_mem h)

theorem markerKey_not_mem (hnodup : (files.map ArtifactFile.path).Nodup) {front back : List BatchObject}
    {object : BatchObject} (h : batchOf job files exports = front ++ object :: back) :
    readyMarkerKey job ∉ front.map BatchObject.key := by
  have hkeys := batchOf_keys_nodup job exports hnodup
  have hlast : (batchOf job files exports).getLast? = some (markerObject job files) := by
    rw [batchOf, List.getLast?_append_of_ne_nil _ (List.cons_ne_nil _ _)]
    rfl
  intro hmem
  rw [h, List.map_append, List.nodup_append] at hkeys
  have hmarker : markerObject job files ∈ object :: back := by
    rw [h, List.getLast?_append_of_ne_nil _ (List.cons_ne_nil _ _)] at hlast
    exact List.mem_of_getLast? hlast
  exact hkeys.2.2 _ hmem _ (List.mem_map_of_mem hmarker) rfl

theorem batchOf_present (hnodup : (files.map ArtifactFile.path).Nodup) (hperm : files'.Perm files)
    {contents : ObjectStore Str StoredArtifact}
    (h : ∀ object ∈ batchOf job files exports, Present contents object) :
    ∀ object ∈ batchOf job files' exports, Present contents object := by
  intro object hobject
  apply h object
  rw [batchOf, metadataObject, markerObject, manifestOf_perm hnodup hperm] at hobject
  rcases List.mem_append.1 hobject with hobject | hobject
  · obtain ⟨file, hfile, rfl⟩ := List.mem_map.1 hobject
    exact fileObject_mem (hperm.mem_iff.1 hfile)
  · exact List.mem_append_right _ hobject

theorem packageKeyPrefix_congr (hpackage : job'.package = job.package)
    (hversion : job'.version = job.version) : packageKeyPrefix job' = packageKeyPrefix job := by
  unfold packageKeyPrefix
  rw [hpackage, hversion]

theorem metadataKey_congr (hpackage : job'.package = job.package)
    (hversion : job'.version = job.version) : metadataKey job' = metadataKey job :=
  congrArg (fun front => front ++ "_meta.json".toList) (packageKeyPrefix_congr hpackage hversion)

/-- What was published determines what can be published again. -/
theorem republished_same (hpackage : job'.package = job.package) (hversion : job'.version = job.version)
    (hnodup : (files.map ArtifactFile.path).Nodup) (hnodup' : (files'.map ArtifactFile.path).Nodup)
    (hfree : CollisionFree (toVec (metadataJson (metadataOf job (manifestOf files) exports)) ::
      toVec (metadataJson (metadataOf job' (manifestOf files') exports')) ::
      (files ++ files').map ArtifactFile.bytes))
    {contents : ObjectStore Str StoredArtifact}
    (h : Present contents (metadataObject job files exports))
    (h' : Present contents (metadataObject job' files' exports')) :
    files'.Perm files ∧ exports' = exports ∧ job'.branch = job.branch ∧
      job'.commitSha = job.commitSha := by
  have hkey := metadataKey_congr hpackage hversion
  obtain ⟨stored, hstored, hsha⟩ := h
  obtain ⟨stored', hstored', hsha'⟩ := h'
  have hsame : stored' = stored := by
    apply Option.some.inj
    rw [← hstored, ← hstored']
    exact congrArg contents hkey
  rw [hsame, hsha] at hsha'
  have hbytes := hfree _ List.mem_cons_self _ (List.mem_cons_of_mem _ List.mem_cons_self) hsha'
  have hmetadata := toVec_metadata_inj hbytes
  simp only [metadataOf, PackageMetadata.mk.injEq, Provenance.mk.injEq] at hmetadata
  obtain ⟨hmanifest, hexports, hbranch, hcommit⟩ := hmetadata
  refine ⟨perm_of_manifestOf hnodup hnodup' ?_ hmanifest.symm, hexports.symm, hbranch.symm, hcommit.symm⟩
  intro a ha b hb
  exact hfree a (List.mem_cons_of_mem _ (List.mem_cons_of_mem _ ha)) b
    (List.mem_cons_of_mem _ (List.mem_cons_of_mem _ hb))

theorem publishedOnce (h : CreatesOnce store held) (job : Materializer.MaterializationJob)
    (files : List ArtifactFile) (exports : BTreeMap Str) (s : σ)
    (hvalid : ∀ file ∈ files, validatePath file.path = .ok ())
    (hnodup : (files.map ArtifactFile.path).Nodup) : PublishedOnce store held job files exports s := by
  have hputs := publish_putAll store job s exports hvalid hnodup
  refine ⟨?_, ?_, ?_, ?_⟩
  · intro error herror
    rw [hputs] at herror ⊢
    obtain ⟨cause, hcause, -⟩ := afterPuts_error herror
    obtain ⟨front, object, back, hbatch, hfront, -⟩ := putAll_error h _ s hcause
    exact hfront.others _ (markerKey_not_mem hnodup hbatch)
  · intro result hresult
    rw [hputs] at hresult ⊢
    obtain ⟨hok, rfl⟩ := afterPuts_ok hresult
    obtain ⟨-, hpresent⟩ := putAll_ok h _ s hok
    exact ⟨fun file hfile => hpresent _ (fileObject_mem hfile), hpresent _ metadataObject_mem,
      hpresent _ markerObject_mem⟩
  · rw [hputs]
    cases hanswer : (putAll store s (batchOf job files exports)).1 with
    | error cause =>
      obtain ⟨_, _, _, _, hfront, _⟩ := putAll_error h _ s hanswer
      exact hfront.grows
    | ok => exact (putAll_ok h _ s hanswer).1.grows
  · intro result hresult later job' files' exports' hgrows hpackage hversion hvalid' hnodup' hfree
      havailable
    rw [hputs] at hresult hgrows
    obtain ⟨hok, rfl⟩ := afterPuts_ok hresult
    have hpresent : ∀ object ∈ batchOf job files exports, Present (held later) object :=
      fun object hobject => ((putAll_ok h _ s hok).2 object hobject).grows hgrows
    have hagain := publish_putAll store job' later exports' hvalid' hnodup'
    have hsame : (∃ result', (publish store job' later files' exports').1 = .ok result') →
        files'.Perm files ∧ exports' = exports ∧ job'.branch = job.branch ∧
          job'.commitSha = job.commitSha := by
      rintro ⟨result', hresult'⟩
      rw [hagain] at hresult'
      obtain ⟨hok', -⟩ := afterPuts_ok hresult'
      obtain ⟨hputs', hpresent'⟩ := putAll_ok h _ later hok'
      exact republished_same hpackage hversion hnodup hnodup' hfree
        ((hpresent _ metadataObject_mem).grows hputs'.grows) (hpresent' _ metadataObject_mem)
    have hback : files'.Perm files ∧ exports' = exports ∧ job'.branch = job.branch ∧
        job'.commitSha = job.commitSha →
        (∃ result', (publish store job' later files' exports').1 = .ok result') ∧
          held (publish store job' later files' exports').2 = held later := by
      rintro ⟨hperm, rfl, hbranch, hcommit⟩
      obtain rfl : job' = job := by
        cases job
        cases job'
        simp only at hpackage hversion hbranch hcommit
        rw [hpackage, hversion, hbranch, hcommit]
      obtain ⟨hheld, hanswer⟩ := putAll_present h _ later (batchOf_present hnodup hperm hpresent)
      rw [hagain] at havailable ⊢
      refine ⟨?_, hheld⟩
      rcases hanswer with hanswer | ⟨message, hanswer⟩
      · exact ⟨resultOf job' files' exports', by rw [afterPuts, hanswer]; rfl⟩
      · exact absurd (by rw [afterPuts, hanswer]; rfl) (havailable message)
    exact ⟨⟨hsame, fun hequal => (hback hequal).1⟩, fun hresult' => (hback (hsame hresult')).2⟩

def memoryStore : ArtifactStore (ObjectStore Str StoredArtifact) where
  putIfAbsent objects key bytes sha256 :=
    match objects key with
    | some existing =>
      if existing.sha256 = sha256 then (.ok (), objects)
      else (.error (.existingObjectHasDifferentHash key), objects)
    | none => (.ok (), objects.put key ⟨bytes, sha256⟩)

theorem memoryStore_createsOnce : CreatesOnce memoryStore id where
  accepts s key bytes sha256 hok := by
    unfold memoryStore at hok ⊢
    cases hkey : s key with
    | none =>
      simp only [hkey]
      refine ⟨?_, rfl⟩
      intro object hobject
      change s key = some object at hobject
      rw [hkey] at hobject
      cases hobject
    | some existing =>
      simp only [hkey] at hok ⊢
      split_ifs at hok ⊢ with hsame
      refine ⟨?_, (ObjectStore.put_of_some hkey).symm⟩
      intro object hobject
      change s key = some object at hobject
      rw [hkey, Option.some.injEq] at hobject
      rw [← hobject]
      exact hsame
  refuses s key bytes sha256 error herror := by
    unfold memoryStore at herror ⊢
    cases hkey : s key with
    | none =>
      simp only [hkey] at herror
      cases herror
    | some existing =>
      simp only [hkey] at herror ⊢
      split_ifs at herror ⊢ with hsame
      exact ⟨rfl, .inr ⟨existing, hkey, hsame⟩⟩

theorem publishedOnce_memory :
    PublishedOnce memoryStore id routeJob [routeFile] ∅ ObjectStore.empty :=
  publishedOnce memoryStore_createsOnce routeJob [routeFile] ∅ ObjectStore.empty
    (fun file hfile => validatePath_of_accepted (routeFile_accepted file hfile)) routeFile_nodup

end Publication
end JsrProxy
