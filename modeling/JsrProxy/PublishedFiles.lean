import JsrProxy.ArtifactKeys

set_option autoImplicit false

/-!
# Published files

What a batch of `publish` leaves in the bucket once `publishArtifactBatch` accepts
it: the bytes go through base64, JSON, the URL of their key and the digest, and
are stored under exactly that key.
-/
namespace JsrProxy

namespace Service

theorem shifted_or {m x i : ℕ} (hm : m * 2 ^ i < 256) (hx : x < 2 ^ i) :
    m <<< i % 256 ||| x = m * 2 ^ i + x := by
  rw [Nat.mod_eq_of_lt (by rw [Nat.shiftLeft_eq]; exact hm), ← Nat.shiftLeft_add_eq_or_of_lt hx,
    Nat.shiftLeft_eq]

theorem sextet_first (a : UInt8) : (a >>> 2).toNat = a.toNat / 4 := by
  rw [UInt8.toNat_shiftRight]
  exact Nat.shiftRight_eq_div_pow a.toNat 2

theorem sextet_second (a b : UInt8) :
    ((a &&& 0b11) <<< 4 ||| b >>> 4).toNat = a.toNat % 4 * 16 + b.toNat / 16 := by
  have hb := b.toNat_lt
  have hmask : a.toNat &&& 3 = a.toNat % 4 := Nat.and_two_pow_sub_one_eq_mod a.toNat 2
  rw [UInt8.toNat_or, UInt8.toNat_shiftLeft, UInt8.toNat_and, UInt8.toNat_shiftRight]
  change (a.toNat &&& 3) <<< 4 % 256 ||| b.toNat >>> 4 = _
  rw [hmask, Nat.shiftRight_eq_div_pow, shifted_or (by omega) (by omega)]
  rfl

theorem sextet_third (b c : UInt8) :
    ((b &&& 0b1111) <<< 2 ||| c >>> 6).toNat = b.toNat % 16 * 4 + c.toNat / 64 := by
  have hc := c.toNat_lt
  have hmask : b.toNat &&& 15 = b.toNat % 16 := Nat.and_two_pow_sub_one_eq_mod b.toNat 4
  rw [UInt8.toNat_or, UInt8.toNat_shiftLeft, UInt8.toNat_and, UInt8.toNat_shiftRight]
  change (b.toNat &&& 15) <<< 2 % 256 ||| c.toNat >>> 6 = _
  rw [hmask, Nat.shiftRight_eq_div_pow, shifted_or (by omega) (by omega)]
  rfl

theorem sextet_fourth (c : UInt8) : (c &&& 0b111111).toNat = c.toNat % 64 := by
  rw [UInt8.toNat_and]
  exact Nat.and_two_pow_sub_one_eq_mod c.toNat 6

theorem base64Digit_eq {sextet : UInt8} {n : ℕ} (h : sextet.toNat = n) :
    base64Digit sextet = Base64.digit n := by
  rw [base64Digit, h]
  rfl

theorem base64Encode_eq (bytes : Bytes) : base64Encode bytes = Base64.encode bytes := by
  induction bytes using base64Encode.induct with
  | case1 => rfl
  | case2 a =>
    rw [base64Encode, base64Chunk, base64Digit_eq (sextet_first a), base64Digit_eq (sextet_second a 0)]
    rfl
  | case3 a b =>
    rw [base64Encode, base64Chunk, base64Digit_eq (sextet_first a), base64Digit_eq (sextet_second a b),
      if_pos (by omega), base64Digit_eq (sextet_third b 0)]
    rfl
  | case4 a b c rest ih =>
    rw [base64Encode, base64Chunk, base64Digit_eq (sextet_first a), base64Digit_eq (sextet_second a b),
      if_pos (by omega), base64Digit_eq (sextet_third b c), if_pos (by omega),
      base64Digit_eq (sextet_fourth c), ih]
    rfl

end Service

/-- An object that a batch asks for. -/
structure BatchObject where
  key : Str
  bytes : Bytes

namespace BatchObject

def upload (object : BatchObject) : Service.BatchedArtifact :=
  ⟨object.key, Publication.sha256Hex object.bytes, Service.base64Encode object.bytes⟩

def stored (object : BatchObject) : R2Object :=
  ⟨object.bytes, some (R2Publication.sha256Hex object.bytes), some (R2Publication.contentType object.key)⟩

def HeldBy (object : BatchObject) (bucket : R2Bucket) : Prop :=
  ∃ held, bucket object.key = some held ∧ held.sha256 = some (R2Publication.sha256Hex object.bytes)

/-- The key comes out of its URL unchanged. -/
def Addressed (object : BatchObject) : Prop :=
  R2Publication.artifactKey (UrlPath.pathname ('/' :: object.key)) = some object.key

theorem decode_upload (object : BatchObject) : Base64.decode object.upload.body = some object.bytes := by
  rw [upload, Service.base64Encode_eq, Base64.decode_encode]

theorem HeldBy.grows {object : BatchObject} {bucket bucket' : R2Bucket}
    (h : object.HeldBy bucket) (hgrows : bucket.Grows bucket') : object.HeldBy bucket' := by
  obtain ⟨held, hkey, hsha⟩ := h
  exact ⟨held, hgrows _ _ hkey, hsha⟩

end BatchObject

namespace Publication

def manifestOf (files : List ArtifactFile) : BTreeMap ManifestEntry :=
  files.foldl (fun manifest file => manifest.insert ('/' :: file.path) (manifestEntry file.bytes)) ∅

def fileObject (job : Materializer.MaterializationJob) (file : ArtifactFile) : BatchObject :=
  ⟨fileKey job file.path, file.bytes⟩

def metadataObject (job : Materializer.MaterializationJob) (files : List ArtifactFile)
    (exports : BTreeMap Str) : BatchObject :=
  ⟨metadataKey job, toVec (metadataJson (metadataOf job (manifestOf files) exports))⟩

def markerObject (job : Materializer.MaterializationJob) (files : List ArtifactFile) : BatchObject :=
  ⟨readyMarkerKey job, toVec (markerJson (sha256Hex (toVec (manifestJson (manifestOf files)))))⟩

def batchOf (job : Materializer.MaterializationJob) (files : List ArtifactFile)
    (exports : BTreeMap Str) : List BatchObject :=
  files.map (fileObject job) ++ [metadataObject job files exports, markerObject job files]

theorem validatePath_of_accepted {path : Str} (h : Service.validatePackagePath path = .ok ()) :
    validatePath path = .ok () := by
  have hparts : ∀ part ∈ path.splitOn '/', part ≠ [] ∧ part ≠ ".".toList ∧ part ≠ "..".toList :=
    fun part hpart => Service.accepted_component (Service.accepted_splitOn h part hpart)
  have hany : ((path.splitOn '/').any fun part =>
      part.isEmpty || part = ".".toList || part = "..".toList) = false := by
    rw [List.any_eq_false]
    intro part hpart
    obtain ⟨hne, hdot, hdots⟩ := hparts part hpart
    simp only [List.isEmpty_eq_false_iff.2 hne, hdot, hdots, decide_false, Bool.or_self,
      Bool.false_eq_true, not_false_iff]
  cases path with
  | nil => exact absurd rfl (hparts [] (by simp)).1
  | cons c path =>
    have hslash : c ≠ '/' := by
      rintro rfl
      rw [Segments.splitOn_cons_self] at hparts
      exact (hparts [] List.mem_cons_self).1 rfl
    rw [validatePath, hany, List.isEmpty_cons, List.head?_cons, if_neg]
    simp [hslash]

def putAll {σ : Type} (store : ArtifactStore σ) (s : σ) : List BatchObject → Except StoreError Unit × σ
  | [] => (.ok (), s)
  | object :: rest =>
    match store.putIfAbsent s object.key object.bytes (sha256Hex object.bytes) with
    | (.error error, s) => (.error error, s)
    | (.ok (), s) => putAll store s rest

def afterPuts {σ α : Type} (result : α) (puts : Except StoreError Unit × σ) :
    Except PublicationError α × σ := ((puts.1.mapError .storage).map fun _ => result, puts.2)

variable {σ : Type} (store : ArtifactStore σ)

theorem putAll_append (s : σ) (front back : List BatchObject) :
    (∃ error, (putAll store s front).1 = .error error ∧
      putAll store s (front ++ back) = putAll store s front) ∨
    ((putAll store s front).1 = .ok () ∧
      putAll store s (front ++ back) = putAll store (putAll store s front).2 back) := by
  induction front generalizing s with
  | nil => exact .inr ⟨rfl, rfl⟩
  | cons object front ih =>
    rw [List.cons_append, putAll, putAll]
    cases store.putIfAbsent s object.key object.bytes (sha256Hex object.bytes) with
    | mk answer after =>
      cases answer with
      | error error => exact .inl ⟨error, rfl, rfl⟩
      | ok => exact ih after

theorem publishFiles_putAll (job : Materializer.MaterializationJob) (files : List ArtifactFile)
    (manifest : BTreeMap ManifestEntry) (s : σ)
    (hvalid : ∀ file ∈ files, validatePath file.path = .ok ())
    (hnodup : (files.map ArtifactFile.path).Nodup)
    (hnew : ∀ file ∈ files, ('/' :: file.path) ∉ manifest) :
    publishFiles store job manifest s files =
      afterPuts (files.foldl (fun manifest file =>
        manifest.insert ('/' :: file.path) (manifestEntry file.bytes)) manifest)
        (putAll store s (files.map (fileObject job))) := by
  induction files generalizing manifest s with
  | nil => rfl
  | cons file rest ih =>
    obtain ⟨hfile, hrest⟩ := List.nodup_cons.1 hnodup
    rw [publishFiles, hvalid file List.mem_cons_self, List.map_cons, putAll]
    simp only [if_neg (hnew file List.mem_cons_self), fileObject]
    cases store.putIfAbsent s (fileKey job file.path) file.bytes (sha256Hex file.bytes) with
    | mk answer after =>
      cases answer with
      | error error => rfl
      | ok =>
        dsimp only
        rw [ih _ after (fun f hf => hvalid f (List.mem_cons_of_mem _ hf)) hrest, List.foldl_cons]
        intro f hf hmem
        rw [Std.ExtTreeMap.mem_insert, Std.LawfulEqCmp.compare_eq_iff_eq] at hmem
        rcases hmem with he | hmem
        · apply hfile
          rw [(List.cons.inj he).2]
          exact List.mem_map_of_mem hf
        · exact hnew f (List.mem_cons_of_mem _ hf) hmem

def resultOf (job : Materializer.MaterializationJob) (files : List ArtifactFile) (exports : BTreeMap Str) :
    PublicationResult where
  metadata := metadataOf job (manifestOf files) exports
  manifestSha256 := sha256Hex (toVec (manifestJson (manifestOf files)))
  metadataKey := metadataKey job
  readyMarkerKey := readyMarkerKey job

/-- Publishing files with valid, distinct paths is putting the objects of the batch. -/
theorem publish_putAll (job : Materializer.MaterializationJob) (s : σ) {files : List ArtifactFile}
    (exports : BTreeMap Str) (hvalid : ∀ file ∈ files, validatePath file.path = .ok ())
    (hnodup : (files.map ArtifactFile.path).Nodup) :
    publish store job s files exports =
      afterPuts (resultOf job files exports) (putAll store s (batchOf job files exports)) := by
  have hloop := publishFiles_putAll store job files ∅ s hvalid hnodup
    (fun _ _ => Std.ExtTreeMap.not_mem_empty)
  rw [← manifestOf] at hloop
  rw [publish, hloop, batchOf]
  rcases putAll_append store s (files.map (fileObject job))
      [metadataObject job files exports, markerObject job files] with ⟨error, he, happend⟩ | ⟨hok, happend⟩
  · rw [happend, afterPuts, afterPuts, he]
    rfl
  · rw [happend, afterPuts, hok, putAll]
    simp only [Except.mapError, Except.map, metadataObject]
    cases store.putIfAbsent (putAll store s (files.map (fileObject job))).2 (metadataKey job)
        (toVec (metadataJson (metadataOf job (manifestOf files) exports)))
        (sha256Hex (toVec (metadataJson (metadataOf job (manifestOf files) exports)))) with
    | mk answer after =>
      cases answer with
      | error error => rfl
      | ok =>
        dsimp only
        rw [putAll]
        simp only [markerObject]
        cases store.putIfAbsent after (readyMarkerKey job)
            (toVec (markerJson (sha256Hex (toVec (manifestJson (manifestOf files))))))
            (sha256Hex (toVec (markerJson (sha256Hex (toVec (manifestJson (manifestOf files))))))) with
        | mk answer after =>
          cases answer with
          | error error => rfl
          | ok => rfl

theorem putAll_batched (uploads : List Service.BatchedArtifact) (objects : List BatchObject) :
    putAll Service.batchedArtifactStore uploads objects =
      (.ok (), uploads ++ objects.map BatchObject.upload) := by
  induction objects generalizing uploads with
  | nil => rw [putAll, List.map_nil, List.append_nil]
  | cons object rest ih =>
    rw [putAll]
    simp only [Service.batchedArtifactStore]
    change putAll Service.batchedArtifactStore _ rest = _
    rw [ih, List.map_cons, List.append_assoc, List.singleton_append]
    rfl

/-- Publishing files with accepted, distinct paths uploads exactly the batch. -/
theorem publish_batched (job : Materializer.MaterializationJob) (files : List ArtifactFile)
    (exports : BTreeMap Str)
    (haccepted : ∀ file ∈ files, Service.validatePackagePath file.path = .ok ())
    (hnodup : (files.map ArtifactFile.path).Nodup) :
    publish Service.batchedArtifactStore job [] files exports =
      (.ok ⟨metadataOf job (manifestOf files) exports,
        sha256Hex (toVec (manifestJson (manifestOf files))), metadataKey job, readyMarkerKey job⟩,
      (batchOf job files exports).map BatchObject.upload) := by
  rw [publish_putAll _ job [] exports (fun file hfile => validatePath_of_accepted (haccepted file hfile))
    hnodup, putAll_batched, List.nil_append]
  rfl

end Publication

namespace R2Publication

variable {rely guar : R2Bucket → R2Bucket → Prop}

theorem isSha256Hex_sha256Hex (bytes : Bytes) : isSha256Hex (sha256Hex bytes) = true := by
  have hlength : (sha256Hex bytes).length = 64 := by
    rw [sha256Hex, Sha256.length_hex, Sha256.length_digest]
  rw [isSha256Hex, hlength, Bool.and_eq_true, List.all_eq_true]
  exact ⟨rfl, fun c hc => Sha256.isHexDigit_of_mem_hex hc⟩

theorem isHexDigit_bounds {c : Char} (h : Sha256.isHexDigit c = true) :
    0x20 < c.toNat ∧ c.toNat ≤ 0xff := by
  simp only [Sha256.isHexDigit, Char.isDigit, Bool.or_eq_true, Bool.and_eq_true, decide_eq_true_eq,
    ge_iff_le, Char.le_def, UInt32.le_iff_toNat_le] at h
  change (48 ≤ c.toNat ∧ c.toNat ≤ 57) ∨ (97 ≤ c.toNat ∧ c.toNat ≤ 102) at h
  omega

/-- An upload of addressed bytes with their digest passes every check. -/
theorem publishArtifact_upload {object : BatchObject} (haddressed : object.Addressed) :
    ∃ request, uploadRequest object.key (sha256Hex object.bytes) object.bytes = .ok request ∧
      publishArtifact request = putArtifact object.key object.bytes (sha256Hex object.bytes) := by
  have hvalue : Headers.normalize (sha256Hex object.bytes) = some (sha256Hex object.bytes) := by
    apply Headers.normalize_eq_self
    intro c hc
    exact isHexDigit_bounds (Sha256.isHexDigit_of_mem_hex hc)
  have hheader : Headers.get [(sha256Header, sha256Hex object.bytes)] sha256Header
      = some (sha256Hex object.bytes) := List.lookup_cons_self
  refine ⟨_, by rw [uploadRequest, hvalue], ?_⟩
  rw [publishArtifact, if_neg (by simp)]
  simp only [Url.parse]
  rw [haddressed]
  simp only [hheader, isSha256Hex_sha256Hex, Bool.not_true, Bool.false_eq_true, if_false, ne_eq,
    not_true_eq_false]

def Accepted (held : R2Bucket → Prop) (answer : Except Str Response) (bucket : R2Bucket) : Prop :=
  ∀ response, answer = .ok response → response.ok = true → held bucket

theorem accepted_error {held : R2Bucket → Prop} {message : Str} {bucket : R2Bucket} :
    Accepted held (.error message) bucket := by
  intro response he
  cases he

theorem putArtifact_ensures (object : BatchObject) (bucket : R2Bucket)
    (hrefl : ∀ t : R2Bucket, guar t t)
    (hput : ∀ t : R2Bucket, rely bucket t → guar t (t.put object.key object.stored)) :
    Program.Ensures R2Step rely guar (Accepted object.HeldBy)
      (putArtifact object.key object.bytes (sha256Hex object.bytes)) bucket := by
  apply Program.Ensures.of_call
  intro t ht answer u hu
  cases hu with
  | created _ _ habsent =>
    refine ⟨hput t ht, .done ?_⟩
    intro response _ _
    exact ⟨object.stored, ObjectStore.put_self habsent, rfl⟩
  | putFails => exact ⟨hrefl t, .done accepted_error⟩
  | answerLost => exact ⟨hput t ht, .done accepted_error⟩
  | «exists» =>
    refine ⟨hrefl t, ?_⟩
    apply Program.Ensures.of_call
    intro t' _ answer u hu
    cases hu with
    | headFails => exact ⟨hrefl t', .done accepted_error⟩
    | head =>
      refine ⟨hrefl t', ?_⟩
      dsimp only
      split_ifs with hsame
      · refine .done ?_
        intro response _ _
        obtain ⟨held, hheld, hsha⟩ := Option.bind_eq_some_iff.1 hsame
        obtain ⟨stored, hstored, rfl⟩ := Option.map_eq_some_iff.1 hheld
        exact ⟨stored, hstored, hsha⟩
      · refine .done ?_
        intro response he hok
        obtain rfl := Except.ok.inj he
        cases hok

theorem readUpload_uploadJson (upload : Service.BatchedArtifact) :
    readUpload (Service.uploadJson upload) = .ok (some (upload.key, upload.sha256, upload.body)) := rfl

theorem publishUploads_cons {object : BatchObject} {rest : List Json} {request : Request}
    (hrequest : uploadRequest object.key (sha256Hex object.bytes) object.bytes = .ok request) :
    publishUploads (Service.uploadJson object.upload :: rest) =
      (publishArtifact request).bind fun response =>
        match response with
        | .error message => .done (.error message)
        | .ok response => if response.ok then publishUploads rest else .done (.ok response) := by
  have hupload : uploadRequest object.upload.key object.upload.sha256 object.bytes = .ok request :=
    hrequest
  rw [publishUploads, readUpload_uploadJson]
  dsimp only
  rw [object.decode_upload]
  dsimp only
  revert hupload
  generalize uploadRequest object.upload.key object.upload.sha256 object.bytes = made
  intro hmade
  subst hmade
  rfl

/-- However others interfere, an object is put only once those before it are held, and
    an accepting answer says that all of them are. -/
theorem publishUploads_ensures (bucket : R2Bucket) (front : List BatchObject) {batch : List BatchObject}
    (hrely : ∀ s t : R2Bucket, rely s t → s.Grows t) (hguar : ∀ s t : R2Bucket, guar s t → s.Grows t)
    (hrefl : ∀ t : R2Bucket, guar t t)
    (hput : ∀ before object after, front ++ batch = before ++ object :: after → ∀ t : R2Bucket,
      (∀ o ∈ before, o.HeldBy t) → guar t (t.put object.key object.stored))
    (haddressed : ∀ object ∈ batch, object.Addressed) (hfront : ∀ o ∈ front, o.HeldBy bucket) :
    Program.Ensures R2Step rely guar (Accepted fun t => ∀ o ∈ front ++ batch, o.HeldBy t)
      (publishUploads (batch.map fun object => Service.uploadJson object.upload)) bucket := by
  induction batch generalizing front bucket with
  | nil =>
    refine .done ?_
    intro response _ _
    rw [List.append_nil]
    exact hfront
  | cons object rest ih =>
    obtain ⟨request, hrequest, hpublish⟩ := publishArtifact_upload (haddressed object List.mem_cons_self)
    rw [List.map_cons, publishUploads_cons hrequest, hpublish]
    have hstable : ∀ s t : R2Bucket, s.Grows t → (∀ o ∈ front, o.HeldBy s) → ∀ o ∈ front, o.HeldBy t :=
      fun s t hgrows hs o ho => (hs o ho).grows hgrows
    have hobject : ∀ t : R2Bucket, rely bucket t → guar t (t.put object.key object.stored) :=
      fun t ht => hput front object rest rfl t (hstable bucket t (hrely _ _ ht) hfront)
    have hfirst := (putArtifact_ensures object bucket hrefl hobject).frame
      (fun s t h => hstable s t (hrely s t h)) (fun s t h => hstable s t (hguar s t h)) hfront
    apply hfirst.bind
    rintro answer t ⟨hanswer, ht⟩
    cases answer with
    | error message => exact .done accepted_error
    | ok response =>
      dsimp only
      split_ifs with hok
      · have hheld : ∀ o ∈ front ++ [object], o.HeldBy t := by
          intro o ho
          rcases List.mem_append.1 ho with ho | ho
          · exact ht o ho
          · rw [List.mem_singleton.1 ho]
            exact hanswer response rfl hok
        have hrest := ih t (front ++ [object])
          (by rw [List.append_assoc]; exact hput)
          (fun o ho => haddressed o (List.mem_cons_of_mem _ ho)) hheld
        rw [List.append_assoc, List.singleton_append] at hrest
        exact hrest
      · refine .done ?_
        intro response' he hok'
        obtain rfl := Except.ok.inj he
        exact absurd hok' hok

theorem publishArtifactBatch_uploads {batch : List BatchObject} (hne : batch ≠ []) :
    publishArtifactBatch (batchRequest (batch.map fun object => Service.uploadJson object.upload))
      = publishUploads (batch.map fun object => Service.uploadJson object.upload) := by
  have hvalid : Json.Valid (.object [("uploads".toList,
      .array (batch.map fun object => Service.uploadJson object.upload))]) := by
    refine ⟨Json.validItems_iff.2 ?_, trivial⟩
    intro item hitem
    obtain ⟨object, -, rfl⟩ := List.mem_map.1 hitem
    exact ⟨trivial, trivial, trivial, trivial⟩
  have hpath : UrlPath.pathname "/batch".toList = "/batch".toList := by decide
  have hguard : ¬ ((batchRequest (batch.map fun object => Service.uploadJson object.upload)).method
      ≠ "PUT".toList ∨ (batchRequest (batch.map fun object => Service.uploadJson object.upload)).url.pathname
        ≠ "/batch".toList) := by
    rintro (h | h)
    · exact h rfl
    · exact h hpath
  rw [publishArtifactBatch, if_neg hguard, batchRequest, Json.parse_decode_write hvalid]
  obtain ⟨object, rest, rfl⟩ := List.exists_cons_of_ne_nil hne
  rfl

theorem publishArtifactBatch_ensures (bucket : R2Bucket) {batch : List BatchObject}
    (hrely : ∀ s t : R2Bucket, rely s t → s.Grows t) (hguar : ∀ s t : R2Bucket, guar s t → s.Grows t)
    (hrefl : ∀ t : R2Bucket, guar t t)
    (hput : ∀ before object after, batch = before ++ object :: after → ∀ t : R2Bucket,
      (∀ o ∈ before, o.HeldBy t) → guar t (t.put object.key object.stored))
    (hne : batch ≠ []) (haddressed : ∀ object ∈ batch, object.Addressed) :
    Program.Ensures R2Step rely guar (Accepted fun t => ∀ o ∈ batch, o.HeldBy t)
      (publishArtifactBatch (batchRequest (batch.map fun object => Service.uploadJson object.upload)))
      bucket := by
  rw [publishArtifactBatch_uploads hne]
  exact publishUploads_ensures bucket [] hrely hguar hrefl hput haddressed
    (fun _ h => absurd h List.not_mem_nil)

def PutsOf (batch : List BatchObject) (s t : R2Bucket) : Prop :=
  t = s ∨ ∃ object ∈ batch, t = s.put object.key object.stored

theorem putsOf_grows {batch : List BatchObject} (s t : R2Bucket) (h : PutsOf batch s t) :
    s.Grows t := by
  rcases h with rfl | ⟨object, -, rfl⟩
  · exact ObjectStore.Grows.refl _
  · exact ObjectStore.put_grows _ _ _

theorem putsOf_held {batch : List BatchObject} {s t : R2Bucket}
    (h : Relation.ReflTransGen (PutsOf batch) s t) {key : Str} {held : R2Object}
    (hheld : t key = some held) :
    s key = some held ∨ ∃ object ∈ batch, object.key = key ∧ object.stored = held := by
  induction h generalizing held with
  | refl => exact .inl hheld
  | tail _ hstep ih =>
    rcases hstep with rfl | ⟨object, hobject, rfl⟩
    · exact ih hheld
    · rcases ObjectStore.put_some hheld with hheld | ⟨rfl, rfl, -⟩
      · exact ih hheld
      · exact .inr ⟨object, hobject, rfl, rfl⟩

/-- An accepted batch with distinct keys is stored as it is, where its keys held
    nothing else before. -/
theorem batch_stored {bucket bucket' : R2Bucket} {batch : List BatchObject} {response : Response}
    (hne : batch ≠ []) (haddressed : ∀ object ∈ batch, object.Addressed)
    (hdistinct : (batch.map BatchObject.key).Nodup)
    (hbefore : ∀ object ∈ batch, ∀ held, bucket object.key = some held → held = object.stored)
    (hrun : Program.Runs R2Step (publishArtifactBatch (batchRequest
      (batch.map fun object => Service.uploadJson object.upload))) bucket (.ok response) bucket')
    (hok : response.ok = true) :
    (∀ object ∈ batch, bucket' object.key = some object.stored) ∧
      Relation.ReflTransGen (PutsOf batch) bucket bucket' := by
  have hrely : ∀ s t : R2Bucket, s = t → s.Grows t := by
    rintro s t rfl
    exact ObjectStore.Grows.refl s
  have hput : ∀ before object after, batch = before ++ object :: after → ∀ t : R2Bucket,
      (∀ o ∈ before, o.HeldBy t) → PutsOf batch t (t.put object.key object.stored) := by
    rintro before object after rfl t _
    exact .inr ⟨object, List.mem_append_right _ List.mem_cons_self, rfl⟩
  have hensures := publishArtifactBatch_ensures bucket hrely putsOf_grows
    (fun t => .inl rfl) hput hne haddressed
  obtain ⟨haccepted, hputs⟩ := hensures.of_runs (fun _ => rfl) hrun
  refine ⟨?_, hputs⟩
  intro object hobject
  obtain ⟨held, hheld, -⟩ := haccepted response rfl hok object hobject
  rcases putsOf_held hputs hheld with hsame | ⟨other, hother, hkey, rfl⟩
  · rw [hbefore object hobject held hsame] at hheld
    exact hheld
  · rw [List.inj_on_of_nodup_map hdistinct hother hobject hkey] at hheld
    exact hheld

theorem publishUploads_runs (bucket : R2Bucket) {batch : List BatchObject}
    (haddressed : ∀ object ∈ batch, object.Addressed) (hdistinct : (batch.map BatchObject.key).Nodup)
    (hempty : ∀ object ∈ batch, bucket object.key = none) :
    ∃ bucket', Program.Runs R2Step
      (publishUploads (batch.map fun object => Service.uploadJson object.upload)) bucket
      (.ok ⟨204, [], []⟩) bucket' := by
  induction batch generalizing bucket with
  | nil => exact ⟨bucket, .done _ _⟩
  | cons object rest ih =>
    obtain ⟨request, hrequest, hpublish⟩ := publishArtifact_upload (haddressed object List.mem_cons_self)
    obtain ⟨hnew, hrest⟩ := List.nodup_cons.1 hdistinct
    have hput : Program.Runs R2Step (putArtifact object.key object.bytes (sha256Hex object.bytes)) bucket
        (.ok ⟨201, [], []⟩) (bucket.put object.key object.stored) :=
      .call (.created _ _ _ (hempty object List.mem_cons_self)) (.done _ _)
    obtain ⟨bucket', hruns⟩ := ih (bucket.put object.key object.stored)
      (fun o ho => haddressed o (List.mem_cons_of_mem _ ho)) hrest (by
        intro o ho
        rw [ObjectStore.put_of_ne, hempty o (List.mem_cons_of_mem _ ho)]
        intro he
        exact hnew (he ▸ List.mem_map_of_mem ho))
    refine ⟨bucket', ?_⟩
    rw [List.map_cons, publishUploads_cons hrequest, hpublish]
    exact hput.bind hruns

end R2Publication

namespace Publication

open R2Publication

theorem batchOf_ne_nil (job : Materializer.MaterializationJob) (files : List ArtifactFile)
    (exports : BTreeMap Str) : batchOf job files exports ≠ [] := by simp [batchOf]

theorem batchOf_addressed {job : Materializer.MaterializationJob} (hjob : IsAllocated job)
    {files : List ArtifactFile} (exports : BTreeMap Str)
    (haccepted : ∀ file ∈ files, Service.validatePackagePath file.path = .ok ()) :
    ∀ object ∈ batchOf job files exports, object.Addressed := by
  intro object hobject
  rcases List.mem_append.1 hobject with hobject | hobject
  · obtain ⟨file, hfile, rfl⟩ := List.mem_map.1 hobject
    exact artifactKey_fileKey hjob (haccepted file hfile)
  · simp only [List.mem_cons, List.not_mem_nil, or_false] at hobject
    rcases hobject with rfl | rfl
    · exact artifactKey_metadataKey hjob
    · exact artifactKey_readyMarkerKey hjob

theorem fileKey_inj {job : Materializer.MaterializationJob} {path path' : Str}
    (h : fileKey job path = fileKey job path') : path = path' :=
  (List.cons.inj (List.append_cancel_left h)).2

theorem fileKey_ne_metadataKey (job : Materializer.MaterializationJob) (path : Str) :
    fileKey job path ≠ metadataKey job := by
  intro h
  exact absurd (List.cons.inj (List.append_cancel_left h)).1 (by decide)

theorem fileKey_ne_readyMarkerKey (job : Materializer.MaterializationJob) (path : Str) :
    fileKey job path ≠ readyMarkerKey job := by
  intro h
  exact absurd (List.cons.inj (List.append_cancel_left h)).1 (by decide)

theorem metadataKey_ne_readyMarkerKey (job : Materializer.MaterializationJob) :
    metadataKey job ≠ readyMarkerKey job := by
  intro h
  exact absurd (List.cons.inj (List.append_cancel_left h)).1 (by decide)

theorem batchOf_keys_nodup (job : Materializer.MaterializationJob) {files : List ArtifactFile}
    (exports : BTreeMap Str) (hnodup : (files.map ArtifactFile.path).Nodup) :
    ((batchOf job files exports).map BatchObject.key).Nodup := by
  have hkeys : (batchOf job files exports).map BatchObject.key
      = (files.map ArtifactFile.path).map (fileKey job) ++ [metadataKey job, readyMarkerKey job] := by
    simp only [batchOf, List.map_append, List.map_map]
    rfl
  rw [hkeys, List.nodup_append]
  refine ⟨hnodup.map fun _ _ h => fileKey_inj h, ?_, ?_⟩
  · simp [metadataKey_ne_readyMarkerKey]
  · rintro key hkey other hother rfl
    obtain ⟨path, -, rfl⟩ := List.mem_map.1 hkey
    simp only [List.mem_cons, List.not_mem_nil, or_false] at hother
    rcases hother with h | h
    · exact fileKey_ne_metadataKey job path h
    · exact fileKey_ne_readyMarkerKey job path h

theorem manifestOf_get {files : List ArtifactFile} (hnodup : (files.map ArtifactFile.path).Nodup)
    {path : Str} {entry : ManifestEntry} : (manifestOf files)[path]? = some entry ↔
      ∃ file ∈ files, path = '/' :: file.path ∧ entry = manifestEntry file.bytes := by
  have hfold : ∀ manifest : BTreeMap ManifestEntry,
      (files.foldl (fun manifest file =>
        manifest.insert ('/' :: file.path) (manifestEntry file.bytes)) manifest)[path]? = some entry ↔
      (∃ file ∈ files, path = '/' :: file.path ∧ entry = manifestEntry file.bytes) ∨
        manifest[path]? = some entry ∧ ∀ file ∈ files, path ≠ '/' :: file.path := by
    induction files with
    | nil => simp
    | cons file rest ih =>
      obtain ⟨hfile, hrest⟩ := List.nodup_cons.1 hnodup
      intro manifest
      rw [List.foldl_cons, ih hrest, Std.ExtTreeMap.getElem?_insert]
      have hother : path = '/' :: file.path → ∀ f ∈ rest, path ≠ '/' :: f.path := by
        rintro rfl f hf he
        apply hfile
        rw [(List.cons.inj he).2]
        exact List.mem_map_of_mem hf
      by_cases he : path = '/' :: file.path
      · rw [if_pos (by rw [he]; exact Std.ReflCmp.compare_self), Option.some.injEq]
        constructor
        · rintro (⟨f, hf, hpath, -⟩ | ⟨rfl, -⟩)
          · exact absurd hpath (hother he f hf)
          · exact .inl ⟨file, List.mem_cons_self, he, rfl⟩
        · rintro (⟨f, hf, hpath, rfl⟩ | ⟨-, hnone⟩)
          · rcases List.mem_cons.1 hf with rfl | hf
            · exact .inr ⟨rfl, hother he⟩
            · exact absurd hpath (hother he f hf)
          · exact absurd he (hnone file List.mem_cons_self)
      · have hcompare : ¬ compare ('/' :: file.path) path = .eq := by
          intro h
          exact he (Std.LawfulEqCmp.eq_of_compare h).symm
        rw [if_neg hcompare]
        simp only [List.mem_cons, exists_eq_or_imp, forall_eq_or_imp, he, false_and, false_or, ne_eq,
          not_false_eq_true, true_and]
  rw [manifestOf, hfold]
  simp

theorem valid_metadataJson (metadata : PackageMetadata) : (metadataJson metadata).Valid := by
  refine ⟨Json.validMembers_iff.2 ?_, Json.validMembers_iff.2 ?_, ⟨trivial, trivial, trivial⟩, trivial⟩
  · intro member hmember
    obtain ⟨entry, -, rfl⟩ := List.mem_map.1 hmember
    exact ⟨⟨_, rfl⟩, Json.isNumber_toDigits _, trivial, trivial⟩
  · intro member hmember
    obtain ⟨entry, -, rfl⟩ := List.mem_map.1 hmember
    exact ⟨⟨_, rfl⟩, trivial⟩

/-- The manifest that stored metadata lists. -/
def listed (object : R2Object) : Option (List (JsString × Json)) :=
  match (Json.parse (Utf8.decode object.value)).bind (·.get? "manifest".toList) with
  | some (.object members) => some members
  | _ => none

theorem listed_metadata (job : Materializer.MaterializationJob) (files : List ArtifactFile)
    (exports : BTreeMap Str) : listed (metadataObject job files exports).stored =
      some ((manifestOf files).toList.map fun entry => (.text entry.1, manifestEntryJson entry.2)) := by
  rw [listed, BatchObject.stored, metadataObject, toVec, Json.parse_decode_write (valid_metadataJson _)]
  rfl

/-- The keys of a version: its metadata, its marker and its files. -/
def IsVersionKey (job : Materializer.MaterializationJob) (key : Str) : Prop :=
  key = metadataKey job ∨ key = readyMarkerKey job ∨ ∃ path, key = fileKey job path

theorem isVersionKey_of_batch {job : Materializer.MaterializationJob} {files : List ArtifactFile}
    {exports : BTreeMap Str} {object : BatchObject} (h : object ∈ batchOf job files exports) :
    IsVersionKey job object.key := by
  rcases List.mem_append.1 h with h | h
  · obtain ⟨file, -, rfl⟩ := List.mem_map.1 h
    exact .inr (.inr ⟨file.path, rfl⟩)
  · simp only [List.mem_cons, List.not_mem_nil, or_false] at h
    rcases h with rfl | rfl
    · exact .inl rfl
    · exact .inr (.inl rfl)

theorem mem_listed {files : List ArtifactFile} (hnodup : (files.map ArtifactFile.path).Nodup)
    {path : JsString} {entry : Json} : (path, entry) ∈ (manifestOf files).toList.map
        (fun entry => (JsString.text entry.1, manifestEntryJson entry.2)) ↔
      ∃ file ∈ files, path = .text ('/' :: file.path) ∧
        entry = manifestEntryJson (manifestEntry file.bytes) := by
  constructor
  · intro h
    obtain ⟨⟨path', entry'⟩, hentry, he⟩ := List.mem_map.1 h
    obtain ⟨rfl, rfl⟩ := Prod.mk.inj he
    obtain ⟨file, hfile, hpath, rfl⟩ :=
      (manifestOf_get hnodup).1 (Std.ExtTreeMap.mem_toList_iff_getElem?_eq_some.1 hentry)
    exact ⟨file, hfile, congrArg JsString.text hpath, rfl⟩
  · rintro ⟨file, hfile, rfl, rfl⟩
    refine List.mem_map.2 ⟨('/' :: file.path, manifestEntry file.bytes), ?_, rfl⟩
    rw [Std.ExtTreeMap.mem_toList_iff_getElem?_eq_some, manifestOf_get hnodup]
    exact ⟨file, hfile, rfl, rfl⟩

theorem listed_nodup (manifest : BTreeMap ManifestEntry) :
    ((manifest.toList.map fun entry => (JsString.text entry.1, manifestEntryJson entry.2)).map
      Prod.fst).Nodup := by
  have hfst : Prod.fst ∘ (fun entry : Str × ManifestEntry => (JsString.text entry.1, manifestEntryJson entry.2))
      = JsString.text ∘ Prod.fst := rfl
  rw [List.map_map, hfst, ← List.map_map, Std.ExtTreeMap.map_fst_toList_eq_keys]
  exact Std.ExtTreeMap.nodup_keys.map fun _ _ => JsString.text.inj

/-- Each file of an accepted batch is stored with its bytes under exactly its key, and
    the stored metadata lists it with its length and digest, and nothing else. -/
theorem accepted_batch_stored {pathname : Str} {identity : PackageName}
    (hidentity : Identity.parsePackageIdentity pathname = some identity) {major sequence : ℤ}
    (hmajor : 0 ≤ major) (hsequence : 0 ≤ sequence) (branch commitSha : Str)
    {files : List ArtifactFile} (exports : BTreeMap Str)
    (haccepted : ∀ file ∈ files, Service.validatePackagePath file.path = .ok ())
    (hnodup : (files.map ArtifactFile.path).Nodup) :
    ∃ result uploads, publish Service.batchedArtifactStore
        ⟨identity, branch, commitSha, versionString major sequence⟩ [] files exports
          = (.ok result, uploads) ∧
      ∀ (bucket bucket' : R2Bucket) (response : Response),
        (∀ key, IsVersionKey ⟨identity, branch, commitSha, versionString major sequence⟩ key →
          bucket key = none) →
        Program.Runs R2Step (publishArtifactBatch (batchRequest (uploads.map Service.uploadJson))) bucket
          (.ok response) bucket' →
        response.ok = true →
        (∀ file ∈ files, ∃ object, object.value = file.bytes ∧
          bucket' ("synthetic/".toList ++ identity.scope ++ '/' :: identity.name ++ '/' ::
            versionString major sequence ++ '/' :: file.path) = some object) ∧
        ∃ object members,
          bucket' ("synthetic/".toList ++ identity.scope ++ '/' :: identity.name ++ '/' ::
            versionString major sequence ++ "_meta.json".toList) = some object ∧
          listed object = some members ∧ (members.map Prod.fst).Nodup ∧
          ∀ path entry, (path, entry) ∈ members ↔ ∃ file ∈ files, path = .text ('/' :: file.path) ∧
            entry = manifestEntryJson ⟨file.bytes.length,
              "sha256-".toList ++ Sha256.hex (Sha256.digest file.bytes)⟩ := by
  obtain ⟨hscope, hname, -⟩ := Identity.parsePackageIdentity_some hidentity
  have hjob : IsAllocated ⟨identity, branch, commitSha, versionString major sequence⟩ :=
    ⟨hscope, hname, major, sequence, hmajor, hsequence, rfl⟩
  refine ⟨_, _, publish_batched _ files exports haccepted hnodup, ?_⟩
  intro bucket bucket' response hempty hrun hok
  rw [List.map_map] at hrun
  have hbefore : ∀ object ∈ batchOf ⟨identity, branch, commitSha, versionString major sequence⟩ files
      exports, ∀ held, bucket object.key = some held → held = object.stored := by
    intro object hobject held hheld
    rw [hempty _ (isVersionKey_of_batch hobject)] at hheld
    cases hheld
  obtain ⟨hstored, -⟩ := batch_stored (batchOf_ne_nil _ files exports)
    (batchOf_addressed hjob exports haccepted) (batchOf_keys_nodup _ exports hnodup) hbefore hrun hok
  constructor
  · intro file hfile
    exact ⟨_, rfl, hstored (fileObject _ file) (List.mem_append_left _ (List.mem_map_of_mem hfile))⟩
  · have hmetadata := hstored (metadataObject _ files exports)
      (List.mem_append_right _ List.mem_cons_self)
    exact ⟨_, _, hmetadata, listed_metadata _ files exports, listed_nodup _,
      fun path entry => mem_listed hnodup⟩

def routeFile : ArtifactFile := ⟨"routes/{id}.ts".toList, Utf8.encode "export {};".toList⟩

def routeJob : Materializer.MaterializationJob :=
  ⟨⟨"acme".toList, "widget".toList⟩, "main".toList, "abc".toList, versionString 0 7⟩

theorem routeFile_accepted : ∀ file ∈ [routeFile], Service.validatePackagePath file.path = .ok () := by
  intro file hfile
  rw [List.mem_singleton.1 hfile]
  exact Service.validatePackagePath_ok.2 (by decide +kernel)

theorem routeFile_nodup : ([routeFile].map ArtifactFile.path).Nodup := List.nodup_singleton _

theorem routeJob_isAllocated : IsAllocated routeJob :=
  ⟨by decide, by decide, 0, 7, by decide, by decide, rfl⟩

theorem routeJob_identity :
    Identity.parsePackageIdentity "/@acme/widget".toList = some routeJob.package := by decide +kernel

theorem accepted_batch_stored_route : ∃ (bucket : R2Bucket) (object : R2Object),
    object.value = Utf8.encode "export {};".toList ∧
      bucket "synthetic/acme/widget/0.1.7/routes/{id}.ts".toList = some object := by
  obtain ⟨result, uploads, hpublish, hstored⟩ := accepted_batch_stored routeJob_identity
    (by decide : (0 : ℤ) ≤ 0) (by decide : (0 : ℤ) ≤ 7) "main".toList "abc".toList ∅ routeFile_accepted
    routeFile_nodup
  rw [publish_batched _ _ _ routeFile_accepted routeFile_nodup] at hpublish
  obtain ⟨-, rfl⟩ := Prod.mk.inj hpublish
  obtain ⟨bucket, hruns⟩ := publishUploads_runs ObjectStore.empty
    (batchOf_addressed routeJob_isAllocated ∅ routeFile_accepted)
    (batchOf_keys_nodup _ ∅ routeFile_nodup) (fun _ _ => rfl)
  rw [← publishArtifactBatch_uploads (batchOf_ne_nil _ _ _)] at hruns
  rw [List.map_map] at hstored
  obtain ⟨hfiles, -⟩ := hstored _ _ _ (fun _ _ => rfl) hruns rfl
  obtain ⟨object, hvalue, hkey⟩ := hfiles routeFile List.mem_cons_self
  exact ⟨bucket, object, hvalue, hkey⟩

end Publication
end JsrProxy
