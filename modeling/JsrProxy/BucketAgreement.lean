import JsrProxy.MaterializedPackages
import JsrProxy.StoredPublications

set_option autoImplicit false

/-!
# Agreement in the bucket

Any number of uploads share one bucket, perhaps of different batches for one version,
and each may stop anywhere. Every object is one that some batch asks for, and behind a
ready marker stand the files and the metadata of one batch.
-/
namespace JsrProxy
namespace Publication
open R2Publication Service

theorem key_inj {job job' : Materializer.MaterializationJob} (hjob : IsAllocated job)
    (hjob' : IsAllocated job') {tail tail' : Str}
    (htail : ∀ c, tail.head? = some c → c.isDigit = false)
    (htail' : ∀ c, tail'.head? = some c → c.isDigit = false)
    (h : packageKeyPrefix job ++ tail = packageKeyPrefix job' ++ tail') :
    job.package = job'.package ∧ job.version = job'.version ∧ tail = tail' := by
  have hslash : ∀ rest : Str, ∀ c, ('/' :: rest).head? = some c → Identity.isNameChar c = false := by
    intro rest c hc
    obtain rfl := Option.some.inj hc
    exact Identity.isNameChar_slash
  rw [packageKeyPrefix_append, packageKeyPrefix_append] at h
  have hparts := congrArg Identity.scopeAndName (List.append_cancel_left h)
  rw [Identity.scopeAndName_append hjob.scope hjob.name (hslash _),
    Identity.scopeAndName_append hjob'.scope hjob'.name (hslash _)] at hparts
  simp only [Option.some.injEq, Prod.mk.injEq, List.cons.injEq, true_and] at hparts
  obtain ⟨hscope, hname, hversion⟩ := hparts
  obtain ⟨major, sequence, hmajor, hsequence, he⟩ := hjob.version
  obtain ⟨major', sequence', hmajor', hsequence', he'⟩ := hjob'.version
  have htake := congrArg Identity.takeVersion hversion
  rw [he, he', takeVersion_versionString hmajor hsequence htail,
    takeVersion_versionString hmajor' hsequence' htail'] at htake
  simp only [Option.some.injEq, Prod.mk.injEq] at htake
  refine ⟨?_, by rw [he, he', htake.1], htake.2⟩
  cases hp : job.package
  cases hp' : job'.package
  rw [hp, hp'] at hscope hname
  simp only at hscope hname
  rw [hscope, hname]

theorem batchOf_tail {job : Materializer.MaterializationJob} {files : List ArtifactFile}
    {exports : BTreeMap Str} {object : BatchObject} (h : object ∈ batchOf job files exports) :
    (∃ file ∈ files, object = fileObject job file ∧
      object.key = packageKeyPrefix job ++ '/' :: file.path) ∨
    (object = metadataObject job files exports ∧
      object.key = packageKeyPrefix job ++ "_meta.json".toList) ∨
    (object = markerObject job files ∧ object.key = packageKeyPrefix job ++ ".ready.json".toList) := by
  rcases List.mem_append.1 h with h | h
  · obtain ⟨file, hfile, rfl⟩ := List.mem_map.1 h
    exact .inl ⟨file, hfile, rfl, rfl⟩
  · simp only [List.mem_cons, List.not_mem_nil, or_false] at h
    rcases h with rfl | rfl
    · exact .inr (.inl ⟨rfl, rfl⟩)
    · exact .inr (.inr ⟨rfl, rfl⟩)

end Publication

open Publication R2Publication

/-- A batch that a run of the materializer can come to. -/
structure PackageBatch where
  job : Materializer.MaterializationJob
  files : List ArtifactFile
  exports : BTreeMap Str
  allocated : IsAllocated job
  publishable : Service.Publishable files

namespace PackageBatch

def objects (b : PackageBatch) : List BatchObject := batchOf b.job b.files b.exports

def metadata (b : PackageBatch) : BatchObject := metadataObject b.job b.files b.exports

def For (b : PackageBatch) (job : Materializer.MaterializationJob) : Prop :=
  b.job.package = job.package ∧ b.job.version = job.version

theorem keys_nodup (b : PackageBatch) : (b.objects.map BatchObject.key).Nodup :=
  batchOf_keys_nodup b.job b.exports b.publishable.distinct

theorem addressed (b : PackageBatch) : ∀ object ∈ b.objects, object.Addressed :=
  batchOf_addressed b.allocated b.exports b.publishable.accepted

theorem not_digit {tail : Str} {d : Char} (h : tail.head? = some d) (hd : d.isDigit = false) :
    ∀ c, tail.head? = some c → c.isDigit = false := by
  intro c hc
  rw [h, Option.some.injEq] at hc
  rw [← hc]
  exact hd

theorem object_of_key (b : PackageBatch) {object : BatchObject} (hobject : object ∈ b.objects)
    {job : Materializer.MaterializationJob} (hjob : IsAllocated job) {tail : Str}
    (htail : ∀ c, tail.head? = some c → c.isDigit = false)
    (hkey : object.key = packageKeyPrefix job ++ tail) :
    b.For job ∧ ((∃ file ∈ b.files, object = fileObject b.job file ∧ tail = '/' :: file.path) ∨
      (object = b.metadata ∧ tail = "_meta.json".toList) ∨
      (object = markerObject b.job b.files ∧ tail = ".ready.json".toList)) := by
  rcases batchOf_tail hobject with ⟨file, hfile, rfl, he⟩ | ⟨rfl, he⟩ | ⟨rfl, he⟩
  · obtain ⟨hpackage, hversion, ht⟩ := key_inj b.allocated hjob (not_digit rfl rfl) htail
      (he.symm.trans hkey)
    exact ⟨⟨hpackage, hversion⟩, .inl ⟨file, hfile, rfl, ht.symm⟩⟩
  · obtain ⟨hpackage, hversion, ht⟩ := key_inj b.allocated hjob (not_digit rfl rfl) htail
      (he.symm.trans hkey)
    exact ⟨⟨hpackage, hversion⟩, .inr (.inl ⟨rfl, ht.symm⟩)⟩
  · obtain ⟨hpackage, hversion, ht⟩ := key_inj b.allocated hjob (not_digit rfl rfl) htail
      (he.symm.trans hkey)
    exact ⟨⟨hpackage, hversion⟩, .inr (.inr ⟨rfl, ht.symm⟩)⟩

theorem marker_of_key (b : PackageBatch) {object : BatchObject} (hobject : object ∈ b.objects)
    {job : Materializer.MaterializationJob} (hjob : IsAllocated job)
    (hkey : object.key = readyMarkerKey job) : b.For job ∧ object = markerObject b.job b.files := by
  obtain ⟨hfor, hcases⟩ := b.object_of_key hobject hjob (not_digit rfl rfl) hkey
  rcases hcases with ⟨file, -, -, htail⟩ | ⟨-, htail⟩ | ⟨rfl, -⟩
  · exact absurd (List.cons.inj htail).1 (by decide)
  · exact absurd (List.cons.inj htail).1 (by decide)
  · exact ⟨hfor, rfl⟩

theorem metadata_of_key (b : PackageBatch) {object : BatchObject} (hobject : object ∈ b.objects)
    {job : Materializer.MaterializationJob} (hjob : IsAllocated job)
    (hkey : object.key = metadataKey job) : b.For job ∧ object = b.metadata := by
  obtain ⟨hfor, hcases⟩ := b.object_of_key hobject hjob (not_digit rfl rfl) hkey
  rcases hcases with ⟨file, -, -, htail⟩ | ⟨rfl, -⟩ | ⟨-, htail⟩
  · exact absurd (List.cons.inj htail).1 (by decide)
  · exact ⟨hfor, rfl⟩
  · exact absurd (List.cons.inj htail).1 (by decide)

theorem before_marker (b : PackageBatch) {front back : List BatchObject}
    (h : b.objects = front ++ markerObject b.job b.files :: back) :
    (∀ file ∈ b.files, fileObject b.job file ∈ front) ∧ b.metadata ∈ front := by
  have hfront : ∀ object ∈ b.objects, object.key ≠ readyMarkerKey b.job → object ∈ front := by
    intro object hobject hne
    have hlast : (front ++ markerObject b.job b.files :: back).getLast? =
        some (markerObject b.job b.files) := by
      rw [← h, objects, batchOf, List.getLast?_append_of_ne_nil _ (List.cons_ne_nil _ _)]
      rfl
    have hkeys := b.keys_nodup
    rw [h, List.map_append, List.nodup_append, List.map_cons, List.nodup_cons] at hkeys
    have hback : back = [] := by
      by_contra hback
      rw [List.getLast?_append_of_ne_nil _ (List.cons_ne_nil _ _),
        List.getLast?_cons_of_ne_nil hback] at hlast
      exact hkeys.2.1.1 (List.mem_map_of_mem (List.mem_of_getLast? hlast))
    rw [h, hback] at hobject
    rcases List.mem_append.1 hobject with hobject | hobject
    · exact hobject
    · rw [List.mem_singleton.1 hobject] at hne
      exact absurd rfl hne
  constructor
  · intro file hfile
    exact hfront _ (List.mem_append_left _ (List.mem_map_of_mem hfile))
      (fileKey_ne_readyMarkerKey b.job file.path)
  · exact hfront _ (List.mem_append_right _ List.mem_cons_self)
      (metadataKey_ne_readyMarkerKey b.job)

end PackageBatch

/-- What the bucket holds comes from the batches, and a marker only behind the rest of its own. -/
structure Agrees (batches : Set PackageBatch) (bucket : R2Bucket) : Prop where
  origin : ∀ key held, bucket key = some held →
    ∃ b ∈ batches, ∃ object ∈ b.objects, object.key = key ∧ object.stored = held
  marked : ∀ job, IsAllocated job → bucket (readyMarkerKey job) ≠ none →
    ∃ b ∈ batches, b.For job ∧ (∀ file ∈ b.files, (fileObject b.job file).HeldBy bucket) ∧
      b.metadata.HeldBy bucket

/-- An object is put once those before it are held, or nothing happens. -/
def PutsInOrder (batch : List BatchObject) (s t : R2Bucket) : Prop :=
  t = s ∨ ∃ front object back, batch = front ++ object :: back ∧ (∀ o ∈ front, o.HeldBy s) ∧
    t = s.put object.key object.stored

theorem putsInOrder_grows {batch : List BatchObject} (s t : R2Bucket) (h : PutsInOrder batch s t) :
    s.Grows t := by
  rcases h with rfl | ⟨_, object, _, -, -, rfl⟩
  · exact ObjectStore.Grows.refl _
  · exact ObjectStore.put_grows _ _ _

theorem agrees_empty (batches : Set PackageBatch) : Agrees batches ObjectStore.empty where
  origin _ _ hheld := by cases hheld
  marked _ _ hmarker := absurd rfl hmarker

theorem Agrees.mono {batches batches' : Set PackageBatch} {bucket : R2Bucket}
    (h : Agrees batches bucket) (hsub : batches ⊆ batches') : Agrees batches' bucket where
  origin key held hheld := by
    obtain ⟨b, hb, object, hobject⟩ := h.origin key held hheld
    exact ⟨b, hsub hb, object, hobject⟩
  marked job hjob hmarker := by
    obtain ⟨b, hb, hrest⟩ := h.marked job hjob hmarker
    exact ⟨b, hsub hb, hrest⟩

theorem Agrees.put {batches : Set PackageBatch} {bucket bucket' : R2Bucket}
    (h : Agrees batches bucket) {b : PackageBatch} (hb : b ∈ batches)
    (hput : PutsInOrder b.objects bucket bucket') : Agrees batches bucket' := by
  have hgrows := putsInOrder_grows _ _ hput
  rcases hput with rfl | ⟨front, object, back, hsplit, hfront, rfl⟩
  · exact h
  have hobject : object ∈ b.objects := by
    rw [hsplit]
    exact List.mem_append_right _ List.mem_cons_self
  constructor
  · intro key held hheld
    rcases ObjectStore.put_some hheld with hold | ⟨rfl, rfl, -⟩
    · exact h.origin key held hold
    · exact ⟨b, hb, object, hobject, rfl, rfl⟩
  · intro job hjob hmarker
    obtain ⟨held, hheld⟩ := Option.ne_none_iff_exists'.1 hmarker
    rcases ObjectStore.put_some hheld with hold | ⟨hkey, -, -⟩
    · obtain ⟨b', hb', hfor, hfiles, hmetadata⟩ := h.marked job hjob (by rw [hold]; nofun)
      exact ⟨b', hb', hfor, fun file hfile => (hfiles file hfile).grows hgrows,
        hmetadata.grows hgrows⟩
    · obtain ⟨hfor, rfl⟩ := b.marker_of_key hobject hjob hkey.symm
      obtain ⟨hfiles, hmetadata⟩ := b.before_marker hsplit
      exact ⟨b, hb, hfor, fun file hfile => (hfront _ (hfiles file hfile)).grows hgrows,
        (hfront _ hmetadata).grows hgrows⟩

/-- No two batches of the version have different metadata with one digest. -/
def MetadataDiffers (batches : Set PackageBatch) (job : Materializer.MaterializationJob) : Prop :=
  ∀ b ∈ batches, ∀ b' ∈ batches, b.For job → b'.For job →
    R2Publication.sha256Hex b.metadata.bytes = R2Publication.sha256Hex b'.metadata.bytes →
    b.metadata.bytes = b'.metadata.bytes

/-- Every file that the stored manifest lists is stored, with the listed checksum. -/
def ListedStored (job : Materializer.MaterializationJob) (bucket : R2Bucket) : Prop :=
  ∃ metadata members, bucket (metadataKey job) = some metadata ∧ listed metadata = some members ∧
    ∀ key entry, (key, entry) ∈ members → ∃ path held size, key = .text path ∧
      bucket (packageKeyPrefix job ++ path) = some held ∧
      held.sha256 = some (R2Publication.sha256Hex held.value) ∧
      entry = manifestEntryJson ⟨size, "sha256-".toList ++ R2Publication.sha256Hex held.value⟩

theorem listed_congr {object object' : R2Object} (h : object.value = object'.value) :
    listed object = listed object' := by
  rw [listed, listed, h]

theorem Agrees.listedStored {batches : Set PackageBatch} {bucket : R2Bucket}
    (h : Agrees batches bucket) {job : Materializer.MaterializationJob} (hjob : IsAllocated job)
    (hmarker : bucket (readyMarkerKey job) ≠ none) (hdiffers : MetadataDiffers batches job) :
    ListedStored job bucket := by
  obtain ⟨b, hb, hfor, hfiles, stored, hstored, hsha⟩ := h.marked job hjob hmarker
  have hprefix := packageKeyPrefix_congr hfor.1 hfor.2
  have hkey : b.metadata.key = metadataKey job := metadataKey_congr hfor.1 hfor.2
  rw [hkey] at hstored
  obtain ⟨b', hb', object, hobject, hkey', rfl⟩ := h.origin _ _ hstored
  obtain ⟨hfor', rfl⟩ := b'.metadata_of_key hobject hjob hkey'
  have hbytes := hdiffers b' hb' b hb hfor' hfor (Option.some.inj hsha)
  have hlisted : listed b'.metadata.stored =
      some ((manifestOf b.files).toList.map fun entry => (.text entry.1, manifestEntryJson entry.2)) :=
    (listed_congr hbytes).trans (listed_metadata b.job b.files b.exports)
  refine ⟨_, _, hstored, hlisted, ?_⟩
  intro key entry hentry
  obtain ⟨file, hfile, rfl, rfl⟩ := (mem_listed b.publishable.distinct).1 hentry
  obtain ⟨held, hheld, hheldSha⟩ := hfiles file hfile
  have hfileKey : (fileObject b.job file).key = packageKeyPrefix job ++ '/' :: file.path := by
    rw [← hprefix]
    rfl
  rw [hfileKey] at hheld
  obtain ⟨_, -, other, -, -, rfl⟩ := h.origin _ _ hheld
  refine ⟨_, other.stored, file.bytes.length, rfl, hheld, rfl, ?_⟩
  have hchecksum : R2Publication.sha256Hex other.bytes = R2Publication.sha256Hex file.bytes :=
    Option.some.inj hheldSha
  rw [manifestEntry]
  exact congrArg (fun digest => manifestEntryJson ⟨file.bytes.length, "sha256-".toList ++ digest⟩)
    hchecksum.symm

end JsrProxy
