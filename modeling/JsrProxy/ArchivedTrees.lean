import JsrProxy.Segments
import JsrProxy.SourceArchive

set_option autoImplicit false

/-!
# Archived Git trees

What `unpack_archive` makes of the archive that GitHub serves for a tree. The
leading global header is an entry with a root of its own, which the directory
that follows does not share.
-/
namespace JsrProxy

namespace Service

theorem validatePackagePath_ok {path : Str} :
    validatePackagePath path = .ok () ↔ isInvalidPath path = false := by
  unfold validatePackagePath
  split_ifs with h
  · simp [h]
  · simp [Bool.eq_false_iff.2 h]

theorem isInvalidPath_iff {path last : Str} {front : List Str}
    (hs : path.splitOn '/' = front ++ [last]) : isInvalidPath path = false ↔
      byteLength path ≤ 154 ∧ (∀ component ∈ front ++ [last], isInvalidComponent component = false) ∧
        byteLength last ≤ 95 ∧ ∀ first, (front ++ [last]).head? = some first →
          toAsciiLowercase first ≠ ".git".toList ∧ toAsciiLowercase first ≠ "_dist".toList := by
  unfold isInvalidPath
  rw [hs, List.getLast?_concat]
  cases hh : (front ++ [last]).head? with
  | none => simp at hh
  | some first =>
    simp only [Bool.or_eq_false_iff, decide_eq_false_iff_not, List.any_eq_false, not_lt, gt_iff_lt,
      Option.some.injEq, Bool.not_eq_true, forall_eq', ne_eq, and_assoc]

theorem accepted_splitOn {path : Str} (h : validatePackagePath path = .ok ()) :
    ∀ component ∈ path.splitOn '/', isInvalidComponent component = false := by
  obtain ⟨front, last, hs⟩ := List.eq_nil_or_concat' (path.splitOn '/') |>.resolve_left
    (List.splitOn_ne_nil _ _)
  rw [hs]
  exact ((isInvalidPath_iff hs).1 (validatePackagePath_ok.1 h)).2.1

theorem accepted_mem {path : Str} (h : validatePackagePath path = .ok ()) {c : Char}
    (hc : c ∈ path) : c = '/' ∨ isAcceptedByte c = true := by
  rcases Segments.mem_splitOn '/' hc with rfl | ⟨component, hcomponent, hmem⟩
  · exact .inl rfl
  · right
    have hvalid := accepted_splitOn h component hcomponent
    simp only [isInvalidComponent, Bool.or_eq_false_iff, Bool.not_eq_false', List.all_eq_true]
      at hvalid
    exact hvalid.1.2 c hmem

theorem accepted_component {component : Str} (h : isInvalidComponent component = false) :
    component ≠ [] ∧ component ≠ ".".toList ∧ component ≠ "..".toList := by
  simp only [isInvalidComponent, Bool.or_eq_false_iff, List.isEmpty_eq_false_iff,
    decide_eq_false_iff_not] at h
  exact ⟨h.1.1.1.1.1, h.1.1.1.1.2, h.1.1.1.2⟩

theorem accepted_directory {directory rest : Str}
    (h : validatePackagePath (directory ++ '/' :: rest) = .ok ()) {front : List Str} {last : Str}
    (hs : directory.splitOn '/' = front ++ [last]) :
    validatePackagePath directory = .ok () ↔ byteLength last ≤ 95 := by
  rw [validatePackagePath_ok, isInvalidPath_iff hs]
  constructor
  · intro hd
    exact hd.2.2.1
  · intro hlast
    obtain ⟨front', last', hs'⟩ := List.eq_nil_or_concat' (rest.splitOn '/') |>.resolve_left
      (List.splitOn_ne_nil _ _)
    have hsplit : (directory ++ '/' :: rest).splitOn '/' = (front ++ [last] ++ front') ++ [last'] := by
      rw [List.splitOn_append_cons_self, hs, hs', ← List.append_assoc]
    obtain ⟨hlength, hall, -, hfirst⟩ := (isInvalidPath_iff hsplit).1 (validatePackagePath_ok.1 h)
    refine ⟨?_, ?_, hlast, ?_⟩
    · rw [byteLength, Utf8.encode_append, List.length_append] at hlength
      exact le_trans (Nat.le_add_right _ _) hlength
    · intro component hcomponent
      exact hall component (List.mem_append_left _ (List.mem_append_left _ hcomponent))
    · intro first hf
      apply hfirst first
      rw [List.append_assoc, List.append_assoc, ← List.append_assoc, List.head?_append, hf]
      rfl

theorem concat_of_parts {path : Str} (h : ∀ part ∈ path.splitOn '/', part ≠ []) :
    ∃ front c, path = front ++ [c] ∧ c ≠ '/' := by
  rcases List.eq_nil_or_concat' path with rfl | ⟨front, c, rfl⟩
  · exact absurd rfl (h [] (by simp))
  · refine ⟨front, c, rfl, ?_⟩
    rintro rfl
    rw [List.splitOn_append_cons_self] at h
    exact h [] (by simp) rfl

theorem accepted_parts {path : Str} (h : validatePackagePath path = .ok ()) :
    ∀ part ∈ path.splitOn '/', part ≠ [] :=
  fun part hpart => (accepted_component (accepted_splitOn h part hpart)).1

structure IsRoot (root : Str) : Prop where
  nonempty : root ≠ []
  single : '/' ∉ root
  notDot : root ≠ ".".toList
  notDots : root ≠ "..".toList

theorem entryPath_of_trimmed {entry : TarEntry} {root path trimmed : Str} {relative : List Str}
    (hroot : IsRoot root) (hpath : entry.path = Utf8.encode path)
    (htrim : path.rdropWhile (· = '/') = trimmed) (hs : trimmed.splitOn '/' = root :: relative) :
    entryPath entry = .ok (root, relative) := by
  have hne : root.isEmpty = false := List.isEmpty_eq_false_iff.2 hroot.nonempty
  have hdots : ¬ (root = ".".toList ∨ root = "..".toList) := by
    rintro (h | h)
    · exact hroot.notDot h
    · exact hroot.notDots h
  simp only [entryPath, hpath, Utf8.decode?_encode, htrim, hs, hne, Bool.false_eq_true, if_false,
    if_neg hdots]

theorem entryPath_below {entry : TarEntry} {root path : Str} (hroot : IsRoot root)
    (hparts : ∀ part ∈ path.splitOn '/', part ≠ [])
    (hpath : entry.path = Utf8.encode (root ++ '/' :: path) ∨
      entry.path = Utf8.encode (root ++ '/' :: path ++ ['/'])) :
    entryPath entry = .ok (root, path.splitOn '/') := by
  have hsplit := List.splitOn_append_cons_self_of_not_mem hroot.single path
  have htrim : (root ++ '/' :: path).rdropWhile (· = '/') = root ++ '/' :: path := by
    obtain ⟨front, c, rfl, hc⟩ := concat_of_parts hparts
    rw [← List.cons_append, ← List.append_assoc]
    exact List.rdropWhile_concat_neg _ _ _ (by simpa using hc)
  rcases hpath with hpath | hpath
  · exact entryPath_of_trimmed hroot hpath htrim hsplit
  · refine entryPath_of_trimmed hroot hpath ?_ hsplit
    rw [List.rdropWhile_concat_pos _ _ _ (by decide), htrim]

theorem enterRoot_same {state : Unpacking} {root : Str} (h : state.archiveRoot = some root) :
    enterRoot state root = .ok state := by
  simp only [enterRoot, h, ne_eq, not_true_eq_false, if_false]

theorem unpackBelowRoot_rejected (state : Unpacking) (entry : TarEntry) {path : Str}
    {failure : SourceFailure} (hv : validatePackagePath path = .error failure) :
    ∃ failure', unpackBelowRoot state entry (path.splitOn '/') = .error failure' := by
  have hne : (path.splitOn '/').isEmpty = false :=
    List.isEmpty_eq_false_iff.2 (List.splitOn_ne_nil _ _)
  unfold unpackBelowRoot
  rw [hne, if_neg Bool.false_ne_true]
  split
  · exact ⟨_, rfl⟩
  · rw [List.intercalate_splitOn, hv]
    exact ⟨_, rfl⟩

theorem unpackBelowRoot_accepted (state : Unpacking) (entry : TarEntry) {path : Str}
    (hv : validatePackagePath path = .ok ()) :
    unpackBelowRoot state entry (path.splitOn '/') =
      if entry.entryType = .directory then .ok state
      else if entry.entryType ≠ .regular then
        .error (invalidArchive
          "GitHub returned a source archive containing a link or unsupported entry".toList)
      else unpackFile state entry path := by
  have hne : (path.splitOn '/').isEmpty = false :=
    List.isEmpty_eq_false_iff.2 (List.splitOn_ne_nil _ _)
  have hsafe : ((path.splitOn '/').any fun part =>
      part.isEmpty || part = ".".toList || part = "..".toList) = false := by
    rw [List.any_eq_false]
    intro part hpart
    obtain ⟨h1, h2, h3⟩ := accepted_component (accepted_splitOn hv part hpart)
    rw [List.isEmpty_eq_false_iff.2 h1, decide_eq_false h2, decide_eq_false h3]
    exact Bool.false_ne_true
  unfold unpackBelowRoot
  rw [hne, if_neg Bool.false_ne_true, hsafe, if_neg Bool.false_ne_true, List.intercalate_splitOn, hv]

end Service

/-- The regular files of a Git tree without links and submodules, in the order its
    archive lists them. -/
structure GitTree where
  files : List (Str × Bytes)
  accepted : ∀ file ∈ files, Service.validatePackagePath file.1 = .ok ()
  distinct : (files.map fun file => toAsciiLowercase file.1).Nodup
  fileLimit : ∀ file ∈ files, file.2.length ≤ Service.maxSourceFileBytes
  totalLimit : (files.map fun file => file.2.length).sum ≤ Service.maxTotalSourceBytes

inductive TreeItem
  | directory (path : Str)
  | file (path : Str) (contents : Bytes)

def TreeItem.file? : TreeItem → Option (Str × Bytes)
  | .directory _ => none
  | .file path contents => some (path, contents)

namespace GitTree
open Service

def IsDirectory (tree : GitTree) (path : Str) : Prop :=
  ∃ file ∈ tree.files, ∃ rest, file.1 = path ++ '/' :: rest

structure Lists (tree : GitTree) (items : List TreeItem) : Prop where
  files : items.filterMap TreeItem.file? = tree.files
  directories : ∀ path, .directory path ∈ items ↔ tree.IsDirectory path

def globalHeader (comment : Bytes) : TarEntry :=
  ⟨Utf8.encode "pax_global_header".toList, .xGlobalHeader, some comment.length, comment, false⟩

def rootEntry (root : Str) : TarEntry :=
  ⟨Utf8.encode (root ++ ['/']), .directory, some 0, [], false⟩

def itemEntry (root : Str) : TreeItem → TarEntry
  | .directory path => ⟨Utf8.encode (root ++ '/' :: path ++ ['/']), .directory, some 0, [], false⟩
  | .file path contents =>
    ⟨Utf8.encode (root ++ '/' :: path), .regular, some contents.length, contents, false⟩

/-- The entries of the archive that GitHub serves: a global header with the commit id,
    the root directory and what is below it. -/
def githubArchive (root : Str) (comment : Bytes) (items : List TreeItem) : List (Option TarEntry) :=
  some (globalHeader comment) :: some (rootEntry root) ::
    items.map fun item => some (itemEntry root item)

/-- The unpacked files are those of the tree. -/
def Unpacks (tree : GitTree) (result : Except SourceFailure (BTreeMap Bytes)) : Prop :=
  ∃ files, result = .ok files ∧ ∀ path contents, files[path]? = some contents ↔
    (path, contents) ∈ tree.files

/-- No directory name of the tree is longer than a file name may be. -/
def ShortDirectories (tree : GitTree) : Prop :=
  ∀ path, tree.IsDirectory path → ∀ component ∈ path.splitOn '/', byteLength component ≤ 95

/-- The loop has unpacked `done` below `root` so far. -/
structure Holds (root : Str) (done : List (Str × Bytes)) (state : Unpacking) : Prop where
  root : state.archiveRoot = some root
  files : ∀ path contents, state.files[path]? = some contents ↔ (path, contents) ∈ done
  paths : ∀ lower, state.caseInsensitivePaths[lower]? = none ↔
    lower ∉ done.map fun file => toAsciiLowercase file.1
  total : state.totalSize = (done.map fun file => file.2.length).sum

theorem Holds.insert {root path : Str} {contents : Bytes} {done : List (Str × Bytes)}
    {state : Unpacking} (hs : Holds root done state)
    (hnew : toAsciiLowercase path ∉ done.map fun file => toAsciiLowercase file.1) :
    Holds root (done ++ [(path, contents)]) { state with
      files := state.files.insert path contents
      caseInsensitivePaths := state.caseInsensitivePaths.insert (toAsciiLowercase path) path
      totalSize := state.totalSize + contents.length } := by
  refine ⟨hs.root, ?_, ?_, ?_⟩
  · intro other contents'
    rw [Std.ExtTreeMap.getElem?_insert, List.mem_append, List.mem_singleton]
    split_ifs with he
    · obtain rfl := Std.LawfulEqCmp.eq_of_compare he
      constructor
      · intro h
        rw [Option.some.inj h]
        exact .inr rfl
      · rintro (h | h)
        · exact absurd (List.mem_map.2 ⟨_, h, rfl⟩) hnew
        · rw [(Prod.mk.inj h).2]
    · rw [hs.files]
      constructor
      · exact .inl
      · rintro (h | h)
        · exact h
        · rw [(Prod.mk.inj h).1] at he
          exact absurd (Std.ReflCmp.compare_self) he
  · intro lower
    rw [Std.ExtTreeMap.getElem?_insert, List.map_append, List.mem_append, List.map_singleton,
      List.mem_singleton]
    split_ifs with he
    · obtain rfl := Std.LawfulEqCmp.eq_of_compare he
      simp
    · have hne : lower ≠ toAsciiLowercase path := by
        rintro rfl
        exact he Std.ReflCmp.compare_self
      rw [hs.paths]
      simp [hne]
  · simp [hs.total]

theorem unpackEntry_below {state : Unpacking} {entry : TarEntry} {root path : Str}
    (hroot : IsRoot root) (hparts : ∀ part ∈ path.splitOn '/', part ≠ [])
    (hpath : entry.path = Utf8.encode (root ++ '/' :: path) ∨
      entry.path = Utf8.encode (root ++ '/' :: path ++ ['/']))
    (hstate : state.archiveRoot = some root) :
    unpackEntry state entry = unpackBelowRoot state entry (path.splitOn '/') := by
  unfold unpackEntry
  rw [entryPath_below hroot hparts hpath]
  simp only [enterRoot_same hstate]

theorem unpackEntry_directory {state : Unpacking} {root path : Str} (hroot : IsRoot root)
    (hv : validatePackagePath path = .ok ()) (hstate : state.archiveRoot = some root) :
    unpackEntry state (itemEntry root (.directory path)) = .ok state := by
  rw [unpackEntry_below hroot (accepted_parts hv) (.inr rfl) hstate,
    unpackBelowRoot_accepted _ _ hv]
  exact if_pos rfl

theorem unpackEntry_rejected (state : Unpacking) {root path : Str} {failure : SourceFailure}
    (hroot : IsRoot root) (hparts : ∀ part ∈ path.splitOn '/', part ≠ [])
    (hv : validatePackagePath path = .error failure) :
    ∃ failure', unpackEntry state (itemEntry root (.directory path)) = .error failure' := by
  unfold unpackEntry
  rw [entryPath_below hroot hparts (.inr rfl)]
  dsimp only
  cases enterRoot state root with
  | error failure' => exact ⟨failure', rfl⟩
  | ok entered => exact unpackBelowRoot_rejected entered _ hv

theorem unpackEntry_file {state : Unpacking} {root path : Str} {contents : Bytes}
    {done : List (Str × Bytes)} (hroot : IsRoot root) (hs : Holds root done state)
    (hv : validatePackagePath path = .ok ())
    (hnew : toAsciiLowercase path ∉ done.map fun file => toAsciiLowercase file.1)
    (hsize : contents.length ≤ maxSourceFileBytes)
    (htotal : (done.map fun file => file.2.length).sum + contents.length ≤ maxTotalSourceBytes) :
    ∃ next, unpackEntry state (itemEntry root (.file path contents)) = .ok next ∧
      Holds root (done ++ [(path, contents)]) next := by
  have hfree := (hs.paths _).2 hnew
  have habsent : path ∉ state.files := by
    intro hmem
    obtain ⟨old, hold⟩ := Option.isSome_iff_exists.1
      (Std.ExtTreeMap.isSome_getElem?_iff_mem.2 hmem)
    exact hnew (List.mem_map.2 ⟨_, (hs.files _ _).1 hold, rfl⟩)
  have hread : (itemEntry root (.file path contents)).read (maxSourceFileBytes + 1)
      = some contents := by
    have hlimit : ¬ maxSourceFileBytes + 1 ≤ contents.length := by omega
    simp only [TarEntry.read, itemEntry, if_neg hlimit, Bool.false_eq_true, if_false]
  have hmax : maxTotalSourceBytes = 20971520 := rfl
  have hdirectory : ¬ (itemEntry root (.file path contents)).entryType = .directory := by simp [itemEntry]
  have hregular : ¬ (itemEntry root (.file path contents)).entryType ≠ .regular := by simp [itemEntry]
  rw [unpackEntry_below hroot (accepted_parts hv) (.inl rfl) hs.root,
    unpackBelowRoot_accepted _ _ hv, if_neg hdirectory, if_neg hregular]
  have hfile : ¬ contents.length > maxSourceFileBytes := by omega
  have hsum : ¬ (state.totalSize + contents.length ≥ 2 ^ 64 ∨
      state.totalSize + contents.length > maxTotalSourceBytes) := by
    rw [hs.total]
    omega
  unfold unpackFile
  simp only [show (itemEntry root (.file path contents)).size = some contents.length from rfl,
    if_neg hfile, if_neg hsum, hread, hfree, if_neg habsent, ne_eq, not_true_eq_false, if_false]
  exact ⟨_, rfl, hs.insert hnew⟩

/-- The loop over accepted items adds their files to what it holds. -/
theorem unpackEntries_items {root : Str} (hroot : IsRoot root) (items : List TreeItem)
    {state : Unpacking} {done : List (Str × Bytes)} (hs : Holds root done state)
    (hdirectories : ∀ path, .directory path ∈ items → validatePackagePath path = .ok ())
    (haccepted : ∀ file ∈ items.filterMap TreeItem.file?, validatePackagePath file.1 = .ok ())
    (hfiles : ∀ file ∈ items.filterMap TreeItem.file?, file.2.length ≤ maxSourceFileBytes)
    (hdistinct : ((done ++ items.filterMap TreeItem.file?).map fun file =>
      toAsciiLowercase file.1).Nodup)
    (htotal : ((done ++ items.filterMap TreeItem.file?).map fun file => file.2.length).sum
      ≤ maxTotalSourceBytes) :
    ∃ next, unpackEntries state (items.map fun item => some (itemEntry root item)) = .ok next ∧
      Holds root (done ++ items.filterMap TreeItem.file?) next := by
  induction items generalizing state done with
  | nil => exact ⟨state, rfl, by rwa [List.filterMap_nil, List.append_nil]⟩
  | cons item items ih =>
    cases item with
    | directory path =>
      have hentry := unpackEntry_directory hroot (hdirectories path List.mem_cons_self) hs.root
      simp only [List.map_cons, unpackEntries, hentry]
      exact ih hs (fun p hp => hdirectories p (List.mem_cons_of_mem _ hp)) haccepted hfiles hdistinct
        htotal
    | file path contents =>
      have hcons : (TreeItem.file path contents :: items).filterMap TreeItem.file?
          = (path, contents) :: items.filterMap TreeItem.file? := rfl
      rw [hcons] at haccepted hfiles hdistinct htotal ⊢
      rw [List.append_cons] at hdistinct htotal ⊢
      have hnew : toAsciiLowercase path ∉ done.map fun file => toAsciiLowercase file.1 := by
        rw [List.map_append, List.map_append] at hdistinct
        have hfront := (List.nodup_append.1 hdistinct).1
        intro hmem
        exact (List.nodup_append.1 hfront).2.2 _ hmem _ (List.mem_singleton_self _) rfl
      have hsum : (done.map fun file => file.2.length).sum + contents.length
          ≤ maxTotalSourceBytes := by
        rw [List.map_append, List.map_append, List.sum_append, List.sum_append, List.map_singleton,
          List.sum_singleton] at htotal
        exact le_trans (Nat.le_add_right _ _) htotal
      obtain ⟨next, hentry, hnext⟩ := unpackEntry_file hroot hs
        (haccepted _ List.mem_cons_self) hnew (hfiles _ List.mem_cons_self) hsum
      simp only [List.map_cons, unpackEntries, hentry]
      exact ih hnext (fun p hp => hdirectories p (List.mem_cons_of_mem _ hp))
        (fun f hf => haccepted f (List.mem_cons_of_mem _ hf))
        (fun f hf => hfiles f (List.mem_cons_of_mem _ hf)) hdistinct htotal

theorem unpackEntries_error {entry : TarEntry}
    (he : ∀ state, ∃ failure, unpackEntry state entry = .error failure)
    {entries : List (Option TarEntry)} (hm : some entry ∈ entries) (state : Unpacking) :
    ∃ failure, unpackEntries state entries = .error failure := by
  induction entries generalizing state with
  | nil => cases hm
  | cons first rest ih =>
    cases first with
    | none => exact ⟨_, rfl⟩
    | some first =>
      unfold unpackEntries
      cases hf : unpackEntry state first with
      | error failure => exact ⟨failure, rfl⟩
      | ok next =>
        rcases List.mem_cons.1 hm with heq | hm
        · obtain rfl := Option.some.inj heq
          obtain ⟨failure, hfail⟩ := he state
          rw [hf] at hfail
          cases hfail
        · exact ih hm next

def headerRoot : Str := "pax_global_header".toList

theorem unpackEntry_header (comment : Bytes) :
    unpackEntry .start (globalHeader comment)
      = .ok { Unpacking.start with archiveRoot := some headerRoot } := by
  have hpath : entryPath (globalHeader comment) = .ok (headerRoot, []) := by
    unfold entryPath globalHeader
    rw [Utf8.decode?_encode]
    rfl
  unfold unpackEntry
  rw [hpath]
  rfl

theorem unpackEntry_root {state : Unpacking} {root : Str} (hroot : IsRoot root) :
    unpackEntry state (rootEntry root) = enterRoot state root := by
  have htrim : (root ++ ['/']).rdropWhile (· = '/') = root := by
    rw [List.rdropWhile_concat_pos _ _ _ (by decide)]
    rcases List.eq_nil_or_concat' root with rfl | ⟨front, c, rfl⟩
    · rfl
    · apply List.rdropWhile_concat_neg
      have hc : c ≠ '/' := by
        rintro rfl
        exact hroot.single (by simp)
      simpa using hc
  unfold unpackEntry
  rw [entryPath_of_trimmed hroot rfl htrim (List.splitOn_eq_singleton hroot.single)]
  dsimp only
  cases enterRoot state root with
  | error failure => rfl
  | ok entered => rfl

/-- With any other root than its own, the global header makes the root directory the
    second root of the archive. -/
theorem unpackEntries_otherRoot {root : Str} (hroot : IsRoot root) (hne : root ≠ headerRoot)
    (comment : Bytes) (items : List TreeItem) :
    unpackEntries .start (githubArchive root comment items) = .error (invalidArchive
      "GitHub returned source files from multiple archive roots".toList) := by
  have hother : enterRoot { Unpacking.start with archiveRoot := some headerRoot } root =
      .error (invalidArchive "GitHub returned source files from multiple archive roots".toList) := by
    simp only [enterRoot, ne_eq, hne.symm, not_false_eq_true, if_true]
  simp only [githubArchive, unpackEntries, unpackEntry_header, unpackEntry_root hroot, hother]

theorem unpackEntries_headerRoot (hroot : IsRoot headerRoot) (comment : Bytes)
    (items : List TreeItem) : unpackEntries .start (githubArchive headerRoot comment items) =
      unpackEntries { Unpacking.start with archiveRoot := some headerRoot }
        (items.map fun item => some (itemEntry headerRoot item)) := by
  have hsame : enterRoot { Unpacking.start with archiveRoot := some headerRoot } headerRoot =
      .ok { Unpacking.start with archiveRoot := some headerRoot } := enterRoot_same rfl
  simp only [githubArchive, unpackEntries, unpackEntry_header, unpackEntry_root hroot, hsame]

theorem holds_start (root : Str) :
    Holds root [] { Unpacking.start with archiveRoot := some root } where
  root := rfl
  files path contents := by simp [Unpacking.start]
  paths lower := by simp [Unpacking.start]
  total := rfl

theorem directory_parts (tree : GitTree) {path : Str} (h : tree.IsDirectory path) :
    ∀ part ∈ path.splitOn '/', part ≠ [] := by
  obtain ⟨file, hfile, rest, he⟩ := h
  intro part hpart
  apply accepted_parts (tree.accepted file hfile)
  rw [he, List.splitOn_append_cons_self]
  exact List.mem_append_left _ hpart

theorem directory_accepted (tree : GitTree) {path : Str} (h : tree.IsDirectory path)
    (hshort : ∀ component ∈ path.splitOn '/', byteLength component ≤ 95) :
    validatePackagePath path = .ok () := by
  obtain ⟨file, hfile, rest, he⟩ := h
  have haccepted := tree.accepted file hfile
  rw [he] at haccepted
  obtain ⟨front, last, hs⟩ := List.eq_nil_or_concat' (path.splitOn '/') |>.resolve_left
    (List.splitOn_ne_nil _ _)
  apply (accepted_directory haccepted hs).2
  apply hshort
  rw [hs]
  exact List.mem_append_right _ (List.mem_singleton_self _)

theorem directory_rejected (tree : GitTree) {path component : Str} (h : tree.IsDirectory path)
    (hc : component ∈ path.splitOn '/') (hlong : 95 < byteLength component) :
    ∃ directory, tree.IsDirectory directory ∧
      ∃ failure, validatePackagePath directory = .error failure := by
  obtain ⟨file, hfile, rest, he⟩ := h
  obtain ⟨before, after, hs⟩ := List.append_of_mem hc
  have hsplit : file.1.splitOn '/' = (before ++ [component]) ++ (after ++ rest.splitOn '/') := by
    rw [he, List.splitOn_append_cons_self, hs]
    simp only [List.append_assoc, List.cons_append, List.nil_append]
  have hafter : after ++ rest.splitOn '/' ≠ [] := by
    intro h
    exact List.splitOn_ne_nil _ _ (List.append_eq_nil_iff.1 h).2
  obtain ⟨hjoin, hfront, -⟩ := Segments.splitOn_eq_append (by simp) hafter hsplit
  refine ⟨_, ⟨file, hfile, _, hjoin⟩, ?_⟩
  have haccepted := tree.accepted file hfile
  rw [hjoin] at haccepted
  cases hv : validatePackagePath (['/'].intercalate (before ++ [component])) with
  | error failure => exact ⟨failure, rfl⟩
  | ok _ =>
    have := (accepted_directory haccepted hfront).1 hv
    omega

/-- Unpacking returns the tree only below a root that bears the global header's name,
    and only where every directory name is short enough for a file. -/
theorem unpacks_iff (tree : GitTree) (items : List TreeItem) (hitems : tree.Lists items)
    (root : Str) (hroot : IsRoot root) (comment : Bytes) (entries : ArchiveReader) (bytes : Bytes)
    (hread : entries bytes = some (githubArchive root comment items)) :
    tree.Unpacks (unpackArchive entries bytes) ↔ root = headerRoot ∧ tree.ShortDirectories := by
  unfold unpackArchive
  rw [hread]
  dsimp only
  by_cases hheader : root = headerRoot
  · subst hheader
    rw [unpackEntries_headerRoot hroot]
    constructor
    · rintro ⟨files, hok, -⟩
      refine ⟨rfl, ?_⟩
      intro path hpath component hcomponent
      by_contra hlong
      obtain ⟨directory, hdirectory, failure, hv⟩ :=
        tree.directory_rejected hpath hcomponent (Nat.lt_of_not_le hlong)
      have hmem : some (itemEntry headerRoot (.directory directory)) ∈
          items.map fun item => some (itemEntry headerRoot item) :=
        List.mem_map.2 ⟨_, (hitems.directories directory).2 hdirectory, rfl⟩
      obtain ⟨failure', hfail⟩ := unpackEntries_error (fun state => unpackEntry_rejected state hroot
        (tree.directory_parts hdirectory) hv) hmem _
      rw [hfail] at hok
      cases hok
    · rintro ⟨-, hshort⟩
      have hfiles : items.filterMap TreeItem.file? = tree.files := hitems.files
      obtain ⟨next, hok, hnext⟩ := unpackEntries_items hroot items (holds_start headerRoot)
        (fun path hp => tree.directory_accepted ((hitems.directories path).1 hp)
          (hshort path ((hitems.directories path).1 hp)))
        (by rw [hfiles]; exact tree.accepted) (by rw [hfiles]; exact tree.fileLimit)
        (by rw [hfiles]; exact tree.distinct) (by rw [hfiles]; exact tree.totalLimit)
      rw [hok]
      refine ⟨next.files, rfl, ?_⟩
      intro path contents
      rw [hnext.files, hfiles, List.nil_append]
  · rw [unpackEntries_otherRoot hroot hheader]
    constructor
    · rintro ⟨files, hok, -⟩
      cases hok
    · rintro ⟨heq, -⟩
      exact absurd heq hheader

def moduleTree : GitTree where
  files := [("mod.ts".toList, Utf8.encode "export {};".toList)]
  accepted := by
    intro file hfile
    obtain rfl := List.mem_singleton.1 hfile
    rfl
  distinct := by decide
  fileLimit := by decide
  totalLimit := by decide

def moduleItems : List TreeItem := [.file "mod.ts".toList (Utf8.encode "export {};".toList)]

def widgetRoot : Str := "acme-widget-0123abc".toList

def moduleArchive : ArchiveReader := fun _ => some (githubArchive widgetRoot
  (Utf8.encode "52 comment=0123abc0123abc0123abc0123abc0123abc0123\n".toList) moduleItems)

theorem moduleTree_lists : moduleTree.Lists moduleItems where
  files := rfl
  directories path := by
    constructor
    · intro h
      cases List.mem_singleton.1 h
    · rintro ⟨file, hfile, rest, he⟩
      obtain rfl := List.mem_singleton.1 hfile
      change "mod.ts".toList = path ++ '/' :: rest at he
      have hslash : '/' ∈ "mod.ts".toList := by
        rw [he]
        exact List.mem_append_right _ List.mem_cons_self
      exact absurd hslash (by decide)

theorem widgetRoot_isRoot : IsRoot widgetRoot := ⟨by decide, by decide, by decide, by decide⟩

theorem unpacks_iff_moduleTree :
    moduleTree.Unpacks (unpackArchive moduleArchive []) ↔
      widgetRoot = headerRoot ∧ moduleTree.ShortDirectories :=
  unpacks_iff moduleTree moduleItems moduleTree_lists widgetRoot widgetRoot_isRoot
    (Utf8.encode "52 comment=0123abc0123abc0123abc0123abc0123abc0123\n".toList) moduleArchive [] rfl

theorem moduleTree_not_unpacked : moduleTree.Lists moduleItems ∧ IsRoot widgetRoot ∧
    ¬ moduleTree.Unpacks (unpackArchive moduleArchive []) := by
  refine ⟨moduleTree_lists, widgetRoot_isRoot, ?_⟩
  rintro ⟨files, hok, -⟩
  simp only [unpackArchive, moduleArchive, unpackEntries_otherRoot widgetRoot_isRoot
    (by decide : widgetRoot ≠ headerRoot)] at hok
  cases hok

end GitTree
end JsrProxy
