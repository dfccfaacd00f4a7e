import JsrProxy.DamagedTransfers
import JsrProxy.ArchivedTrees

set_option autoImplicit false

/-!
# Unpacked archives

An archive that unpacks, entry by entry: the map that `unpack_archive` returns
holds each regular file once and nothing else.
-/
namespace JsrProxy

def TarEntry.IsAt (entry : TarEntry) (path : Str) : Prop :=
  path.getLast? ≠ some '/' ∧
    ∃ slashes, entry.path = Utf8.encode (path ++ List.replicate slashes '/')

namespace Service
open GitTree

/-- The entry holds this file below the root, and its header declares its length. -/
structure HoldsFile (root : Str) (entry : TarEntry) (file : Str × Bytes) : Prop where
  path : entry.IsAt (root ++ '/' :: file.1)
  contents : entry.contents = file.2
  size : entry.size = some file.2.length

def IsBelow (root : Str) (entry : TarEntry) : Prop :=
  entry.IsAt root ∧ entry.entryType ≠ .regular ∨ ∃ path, entry.IsAt (root ++ '/' :: path) ∧
    (entry.entryType = .directory ∨ entry.entryType = .regular)

def regularFiles (archive : List TarEntry) : List TarEntry :=
  archive.filter fun entry => entry.entryType = .regular

/-- The archive has one root, and the map is that of its regular files, each listed by
    its own entry. -/
def Archives (archive : List TarEntry) (files : BTreeMap Bytes) : Prop :=
  ∃ root, '/' ∉ root ∧ (∀ entry ∈ archive, IsBelow root entry) ∧ ∃ listed,
    List.Forall₂ (HoldsFile root) (regularFiles archive) listed ∧
    (∀ path contents, files[path]? = some contents ↔ (path, contents) ∈ listed) ∧ WithinLimits listed

theorem trimmed_slashes (text : Str) :
    (text.rdropWhile (· = '/')).getLast? ≠ some '/' ∧
      ∃ slashes, text = text.rdropWhile (· = '/') ++ List.replicate slashes '/' := by
  constructor
  · intro hlast
    have hne : text.rdropWhile (· = '/') ≠ [] := by
      intro hnil
      rw [hnil] at hlast
      cases hlast
    rw [List.getLast?_eq_some_getLast hne, Option.some.injEq] at hlast
    exact List.rdropWhile_last_not _ _ hne (by simpa using hlast)
  · refine ⟨(text.rtakeWhile (· = '/')).length, ?_⟩
    have hslash : text.rtakeWhile (· = '/') = List.replicate _ '/' :=
      List.eq_replicate_of_mem fun c hc => by simpa using List.mem_rtakeWhile_imp hc
    rw [← hslash, List.rdropWhile_append_rtakeWhile]

theorem entryPath_inv {entry : TarEntry} {root : Str} {relative : List Str}
    (h : entryPath entry = .ok (root, relative)) :
    IsRoot root ∧ entry.IsAt (['/'].intercalate (root :: relative)) := by
  unfold entryPath at h
  cases hd : Utf8.decode? entry.path with
  | none => simp only [hd, reduceCtorEq] at h
  | some text =>
    have htext : Utf8.encode text = entry.path := by
      unfold Utf8.decode? at hd
      split_ifs at hd with he
      rw [← Option.some.inj hd, he]
    cases hs : (text.rdropWhile (· = '/')).splitOn '/' with
    | nil => exact absurd hs (List.splitOn_ne_nil _ _)
    | cons first rest =>
      simp only [hd, hs] at h
      split_ifs at h with hempty hdots
      rw [Except.ok.injEq, Prod.mk.injEq] at h
      obtain ⟨rfl, rfl⟩ := h
      obtain ⟨hlast, slashes, hslashes⟩ := trimmed_slashes text
      rw [← hs, List.intercalate_splitOn]
      refine ⟨⟨?_, ?_, fun he => hdots (.inl he), fun he => hdots (.inr he)⟩, hlast, slashes, ?_⟩
      · intro he
        rw [he] at hempty
        exact hempty rfl
      · apply Segments.not_mem_of_mem_splitOn (s := text.rdropWhile (· = '/'))
        rw [hs]
        exact List.mem_cons_self
      · rw [← htext, ← hslashes]

theorem enterRoot_inv {state entered : Unpacking} {root : Str}
    (h : enterRoot state root = .ok entered) :
    entered = { state with archiveRoot := some root } ∧
      (state.archiveRoot = none ∨ state.archiveRoot = some root) := by
  unfold enterRoot at h
  cases hroot : state.archiveRoot with
  | none =>
    simp only [hroot, Except.ok.injEq] at h
    exact ⟨h.symm, .inl rfl⟩
  | some expected =>
    simp only [hroot] at h
    split_ifs at h with hne
    have heq := Classical.not_not.1 hne
    rw [Except.ok.injEq] at h
    refine ⟨?_, .inr (by rw [heq])⟩
    rw [← h, ← heq, ← hroot]

theorem WithinLimits.add {files : List (Str × Bytes)} {file : Str × Bytes} (hf : WithinLimits files)
    (hv : validatePackagePath file.1 = .ok ())
    (hnew : toAsciiLowercase file.1 ∉ files.map fun file => toAsciiLowercase file.1)
    (hsize : file.2.length ≤ maxSourceFileBytes)
    (htotal : (files.map fun file => file.2.length).sum + file.2.length ≤ maxTotalSourceBytes) :
    WithinLimits (files ++ [file]) where
  accepted other hother := by
    rcases List.mem_append.1 hother with hother | hother
    · exact hf.accepted other hother
    · rwa [List.mem_singleton.1 hother]
  distinct := by
    rw [List.map_append, List.map_singleton]
    apply List.nodup_append.2
    refine ⟨hf.distinct, List.nodup_singleton _, ?_⟩
    intro lower hlower other hother heq
    rw [heq, List.mem_singleton.1 hother] at hlower
    exact hnew hlower
  fileLimit other hother := by
    rcases List.mem_append.1 hother with hother | hother
    · exact hf.fileLimit other hother
    · rwa [List.mem_singleton.1 hother]
  totalLimit := by
    rwa [List.map_append, List.sum_append, List.map_singleton, List.sum_singleton]

/-- What one entry below the expected root adds: nothing, or its file. -/
theorem unpackBelowRoot_inv {root : Str} {relative : List Str} {entry : TarEntry}
    {state next : Unpacking} {done : List (Str × Bytes)} (hs : Holds root done state)
    (hdone : WithinLimits done) (hat : entry.IsAt (['/'].intercalate (root :: relative)))
    (h : unpackBelowRoot state entry relative = .ok next) :
    IsBelow root entry ∧ ∃ listed, Holds root (done ++ listed) next ∧ WithinLimits (done ++ listed) ∧
      List.Forall₂ (HoldsFile root) (regularFiles [entry]) listed := by
  unfold unpackBelowRoot at h
  cases relative with
  | nil =>
    rw [List.isEmpty_nil, if_pos rfl] at h
    split_ifs at h with hregular
    rw [Except.ok.injEq] at h
    subst h
    rw [List.intercalate_singleton] at hat
    refine ⟨.inl ⟨hat, hregular⟩, [], ?_, ?_, ?_⟩
    · rwa [List.append_nil]
    · rwa [List.append_nil]
    · simp [regularFiles, hregular]
  | cons part rest =>
    rw [List.intercalate_cons_of_ne_nil (List.cons_ne_nil _ _), List.append_assoc,
      List.singleton_append] at hat
    generalize hpath : ['/'].intercalate (part :: rest) = path at h hat
    rw [List.isEmpty_cons, if_neg Bool.false_ne_true] at h
    cases hv : validatePackagePath path with
    | error failure =>
      simp only [hv] at h
      split_ifs at h
    | ok =>
      simp only [hv] at h
      split_ifs at h with hunsafe hdirectory hother
      · rw [Except.ok.injEq] at h
        subst h
        refine ⟨.inr ⟨path, hat, .inl hdirectory⟩, [], ?_, ?_, ?_⟩
        · rwa [List.append_nil]
        · rwa [List.append_nil]
        · simp [regularFiles, hdirectory]
      · have hregular := Classical.not_not.1 hother
        obtain ⟨hsize, -, -, -, hfree, hlimit, htotal, rfl⟩ := unpackFile_inv h
        have hnew := (hs.paths _).1 hfree
        rw [hs.total] at htotal
        refine ⟨.inr ⟨path, hat, .inr hregular⟩, [(path, entry.contents)], hs.insert hnew,
          hdone.add hv hnew hlimit htotal, ?_⟩
        have hone : regularFiles [entry] = [entry] := by simp [regularFiles, hregular]
        rw [hone]
        exact .cons ⟨hat, rfl, hsize⟩ .nil

theorem unpackEntry_entered {entry : TarEntry} {state next : Unpacking}
    (h : unpackEntry state entry = .ok next) : ∃ root relative,
      entryPath entry = .ok (root, relative) ∧ (state.archiveRoot = none ∨ state.archiveRoot = some root) ∧
      unpackBelowRoot { state with archiveRoot := some root } entry relative = .ok next := by
  unfold unpackEntry at h
  cases hp : entryPath entry with
  | error failure => simp only [hp, reduceCtorEq] at h
  | ok parts =>
    obtain ⟨root, relative⟩ := parts
    simp only [hp] at h
    cases hr : enterRoot state root with
    | error failure => simp only [hr, reduceCtorEq] at h
    | ok entered =>
      obtain ⟨rfl, hstate⟩ := enterRoot_inv hr
      simp only [hr] at h
      exact ⟨root, relative, rfl, hstate, h⟩

theorem unpackEntry_first {entry : TarEntry} {next : Unpacking}
    (h : unpackEntry .start entry = .ok next) : ∃ root, '/' ∉ root ∧
      unpackEntry { Unpacking.start with archiveRoot := some root } entry = .ok next := by
  obtain ⟨root, relative, hpath, -, hbelow⟩ := unpackEntry_entered h
  refine ⟨root, (entryPath_inv hpath).1.single, ?_⟩
  unfold unpackEntry
  rw [hpath]
  simp only [enterRoot_same]
  exact hbelow

theorem regularFiles_cons (entry : TarEntry) (rest : List TarEntry) :
    regularFiles (entry :: rest) = regularFiles [entry] ++ regularFiles rest := by
  rw [regularFiles, ← List.singleton_append, List.filter_append]
  rfl

/-- The loop below a known root. -/
theorem unpackEntries_listed {root : Str} (items : List (Option TarEntry)) {state next : Unpacking}
    {done : List (Str × Bytes)} (hs : Holds root done state) (hdone : WithinLimits done)
    (h : unpackEntries state items = .ok next) :
    ∃ archive listed, items = archive.map some ∧ (∀ entry ∈ archive, IsBelow root entry) ∧
      Holds root (done ++ listed) next ∧ WithinLimits (done ++ listed) ∧
      List.Forall₂ (HoldsFile root) (regularFiles archive) listed := by
  induction items generalizing state done with
  | nil =>
    rw [unpackEntries, Except.ok.injEq] at h
    subst h
    refine ⟨[], [], rfl, ?_, ?_, ?_, .nil⟩
    · intro entry hentry
      cases hentry
    · rwa [List.append_nil]
    · rwa [List.append_nil]
  | cons item rest ih =>
    cases item with
    | none => cases h
    | some entry =>
      rw [unpackEntries] at h
      cases he : unpackEntry state entry with
      | error failure => simp only [he, reduceCtorEq] at h
      | ok after =>
        simp only [he] at h
        obtain ⟨root', relative, hpath, hroot, hbelow⟩ := unpackEntry_entered he
        have hsame : root' = root := by
          rw [hs.root] at hroot
          rcases hroot with hroot | hroot
          · cases hroot
          · exact (Option.some.inj hroot).symm
        subst hsame
        have hentered : Holds root' done { state with archiveRoot := some root' } :=
          ⟨rfl, hs.files, hs.paths, hs.total⟩
        obtain ⟨hin, one, hone, hlimits, hfiles⟩ := unpackBelowRoot_inv hentered hdone
          (entryPath_inv hpath).2 hbelow
        obtain ⟨archive, listed, rfl, hall, hnext, hwithin, hrest⟩ := ih hone hlimits h
        refine ⟨entry :: archive, one ++ listed, rfl, ?_, ?_, ?_, ?_⟩
        · intro other hother
          rcases List.mem_cons.1 hother with rfl | hother
          · exact hin
          · exact hall other hother
        · rwa [← List.append_assoc]
        · rwa [← List.append_assoc]
        · rw [regularFiles_cons]
          exact List.rel_append hfiles hrest

theorem withinLimits_nil : WithinLimits [] where
  accepted file hfile := by cases hfile
  distinct := List.nodup_nil
  fileLimit file hfile := by cases hfile
  totalLimit := Nat.zero_le _

/-- What is unpacked is the regular files below one root, each by its own entry. -/
theorem unpackArchive_exact (entries : ArchiveReader) (bytes : Bytes) (files : BTreeMap Bytes)
    (h : unpackArchive entries bytes = .ok files) :
    ∃ archive, entries bytes = some (archive.map some) ∧ Archives archive files := by
  obtain ⟨items, state, hitems, hstate, rfl⟩ := unpackArchive_ok.1 h
  cases items with
  | nil =>
    rw [unpackEntries, Except.ok.injEq] at hstate
    subst hstate
    refine ⟨[], hitems, [], List.not_mem_nil, ?_, [], .nil, (holds_start []).files, withinLimits_nil⟩
    intro entry hentry
    cases hentry
  | cons item rest =>
    cases item with
    | none => cases hstate
    | some entry =>
      rw [unpackEntries] at hstate
      cases he : unpackEntry .start entry with
      | error failure => simp only [he, reduceCtorEq] at hstate
      | ok after =>
        simp only [he] at hstate
        obtain ⟨root, hroot, hfirst⟩ := unpackEntry_first he
        have hentries : unpackEntries { Unpacking.start with archiveRoot := some root }
            (some entry :: rest) = .ok state := by
          rw [unpackEntries, hfirst]
          exact hstate
        obtain ⟨archive, listed, harchive, hall, hnext, hlimits, hfiles⟩ :=
          unpackEntries_listed _ (holds_start root) withinLimits_nil hentries
        rw [harchive] at hitems
        rw [List.nil_append] at hnext hlimits
        exact ⟨archive, hitems, root, hroot, hall, listed, hfiles, hnext.files, hlimits⟩

theorem unpackArchive_exact_widget : ∃ files, unpackArchive widgetReader widgetArchive = .ok files ∧
    ∃ archive, widgetReader widgetArchive = some (archive.map some) ∧ Archives archive files := by
  have hok : (unpackArchive widgetReader widgetArchive).toBool = true := by decide +kernel
  cases h : unpackArchive widgetReader widgetArchive with
  | error failure =>
    rw [h] at hok
    cases hok
  | ok files => exact ⟨files, rfl, unpackArchive_exact widgetReader widgetArchive files h⟩

end Service
end JsrProxy
