import JsrProxy.MaterializedPackages

set_option autoImplicit false

/-!
# Damaged transfers

What a run of materialization makes of an archive whose transfer broke off. The
errors of the readers become source failures, so that it is yanked unless what
arrived happens to be a package of its own.
-/
namespace JsrProxy
namespace Service

structure PartialEntry (whole part : TarEntry) : Prop where
  path : part.path = whole.path
  entryType : part.entryType = whole.entryType
  size : part.size = whole.size
  contents : part.contents <+: whole.contents

/-- What the readers deliver of the entries of an archive whose transfer broke off. -/
inductive BrokenOff (full : List TarEntry) : Option (List (Option TarEntry)) → Prop
  | unopened : BrokenOff full none
  | ends (front back : List TarEntry) (h : full = front ++ back) : BrokenOff full (some (front.map some))
  | fails (front back : List TarEntry) (rest : List (Option TarEntry)) (h : full = front ++ back) :
      BrokenOff full (some (front.map some ++ none :: rest))
  | cut (front back : List TarEntry) (whole part : TarEntry) (rest : List (Option TarEntry))
      (h : full = front ++ whole :: back) (hpart : PartialEntry whole part)
      (hrest : rest = [] ∨ rest.head? = some none) :
      BrokenOff full (some (front.map some ++ some part :: rest))

/-- No reading fails, and every file is as long as its header says. -/
def Intact (items : List (Option TarEntry)) : Prop :=
  ∀ item ∈ items, ∃ entry, item = some entry ∧
    (entry.entryType = .regular → entry.size = some entry.contents.length ∧ entry.fails = false)

def fileOf (entry : TarEntry) : Option (Str × Bytes) :=
  match entryPath entry with
  | .error _ => none
  | .ok (_, relative) =>
    if entry.entryType = .regular then some (['/'].intercalate relative, entry.contents) else none

def addFile (files : BTreeMap Bytes) (item : Option TarEntry) : BTreeMap Bytes :=
  match item.bind fileOf with
  | none => files
  | some file => files.insert file.1 file.2

def sourceFiles (items : List (Option TarEntry)) : BTreeMap Bytes := items.foldl addFile ∅

theorem unpackFile_inv {state next : Unpacking} {entry : TarEntry} {relative : Str}
    (h : unpackFile state entry relative = .ok next) :
    entry.size = some entry.contents.length ∧ entry.fails = false ∧ relative ∉ state.files ∧
      next.files = state.files.insert relative entry.contents ∧
      state.caseInsensitivePaths[toAsciiLowercase relative]? = none ∧
      entry.contents.length ≤ maxSourceFileBytes ∧
      state.totalSize + entry.contents.length ≤ maxTotalSourceBytes ∧ next = { state with
        files := state.files.insert relative entry.contents
        caseInsensitivePaths := state.caseInsensitivePaths.insert (toAsciiLowercase relative) relative
        totalSize := state.totalSize + entry.contents.length } := by
  unfold unpackFile at h
  cases hsize : entry.size with
  | none => simp only [hsize, reduceCtorEq] at h
  | some size =>
    cases hread : entry.read (maxSourceFileBytes + 1) with
    | none =>
      simp only [hsize, hread] at h
      split_ifs at h
    | some contents =>
      cases hseen : state.caseInsensitivePaths[toAsciiLowercase relative]? with
      | some existing =>
        simp only [hsize, hread, hseen] at h
        split_ifs at h
      | none =>
        simp only [hsize, hread, hseen] at h
        split_ifs at h with hlimit htotal hlength hmem
        rw [Except.ok.injEq] at h
        -- what was read is short of the limit, so it is all there is
        unfold TarEntry.read at hread
        split_ifs at hread with hlong hfails
        · rw [Option.some.injEq] at hread
          rw [← hread, List.length_take] at hlength
          omega
        · rw [Option.some.injEq] at hread
          subst hread
          have heq := Classical.not_not.1 hlength
          rw [heq, ← h]
          exact ⟨rfl, Bool.eq_false_iff.2 hfails, hmem, rfl, rfl, Nat.le_of_not_lt hlimit,
            Nat.le_of_not_lt fun hlt => htotal (.inr hlt), rfl⟩

theorem unpackEntry_inv {state next : Unpacking} {entry : TarEntry}
    (h : unpackEntry state entry = .ok next) :
    (entry.entryType = .regular → entry.size = some entry.contents.length ∧ entry.fails = false) ∧
      next.files = addFile state.files (some entry) ∧ PartOf state.files next.files := by
  unfold unpackEntry at h
  unfold addFile fileOf
  cases hpath : entryPath entry with
  | error failure => simp only [hpath, reduceCtorEq] at h
  | ok parts =>
    obtain ⟨root, relative⟩ := parts
    simp only [hpath] at h
    cases hroot : enterRoot state root with
    | error failure => simp only [hroot, reduceCtorEq] at h
    | ok entered =>
      simp only [hroot] at h
      have hentered : entered.files = state.files := by
        unfold enterRoot at hroot
        split at hroot
        · split_ifs at hroot
          cases hroot
          rfl
        · cases hroot
          rfl
      simp only [Option.bind_some, hpath]
      unfold unpackBelowRoot at h
      cases hv : validatePackagePath (['/'].intercalate relative) with
      | error failure =>
        simp only [hv] at h
        split_ifs at h with hempty hregular
        cases h
        rw [if_neg hregular, hentered]
        exact ⟨fun hr => absurd hr hregular, rfl, fun _ _ hv => hv⟩
      | ok =>
        simp only [hv] at h
        split_ifs at h with hempty hregular hsafe hdirectory hother
        · cases h
          rw [if_neg hregular, hentered]
          exact ⟨fun hr => absurd hr hregular, rfl, fun _ _ hv => hv⟩
        · cases h
          rw [if_neg (by rw [hdirectory]; decide), hentered]
          exact ⟨fun hr => absurd (hr.symm.trans hdirectory) (by decide), rfl, fun _ _ hv => hv⟩
        · obtain ⟨hsize, hfails, hnew, hfiles, -⟩ := unpackFile_inv h
          rw [hentered] at hnew hfiles
          rw [if_pos (Classical.not_not.1 hother)]
          refine ⟨fun _ => ⟨hsize, hfails⟩, hfiles, ?_⟩
          intro path contents hold
          rw [hfiles, get_insert]
          split_ifs with he
          · rw [he, Std.ExtTreeMap.getElem?_eq_none hnew] at hold
            cases hold
          · exact hold

theorem unpackEntry_congr (state : Unpacking) {entry entry' : TarEntry} (hpath : entry'.path = entry.path)
    (htype : entry'.entryType = entry.entryType) (hfile : entry.entryType = .regular → entry' = entry) :
    unpackEntry state entry' = unpackEntry state entry := by
  by_cases hr : entry.entryType = .regular
  · rw [hfile hr]
  · have hentry : entryPath entry' = entryPath entry := by rw [entryPath, entryPath, hpath]
    have hbelow : ∀ entered relative,
        unpackBelowRoot entered entry' relative = unpackBelowRoot entered entry relative := by
      intro entered relative
      simp only [unpackBelowRoot, htype, ne_eq, hr, not_false_eq_true, if_true]
    rw [unpackEntry, unpackEntry, hentry]
    simp only [hbelow]

theorem unpackEntries_append (state : Unpacking) (front back : List (Option TarEntry)) :
    unpackEntries state (front ++ back) =
      (unpackEntries state front).bind fun between => unpackEntries between back := by
  induction front generalizing state with
  | nil => rfl
  | cons item front ih =>
    cases item with
    | none => rfl
    | some entry =>
      rw [List.cons_append, unpackEntries, unpackEntries]
      cases unpackEntry state entry with
      | error failure => rfl
      | ok after => exact ih after

/-- Entries that unpack are intact, and leave their files. -/
theorem unpackEntries_inv (items : List (Option TarEntry)) {state next : Unpacking}
    (h : unpackEntries state items = .ok next) :
    Intact items ∧ next.files = items.foldl addFile state.files ∧ PartOf state.files next.files := by
  induction items generalizing state with
  | nil =>
    rw [unpackEntries, Except.ok.injEq] at h
    rw [← h]
    exact ⟨by simp [Intact], rfl, fun _ _ hv => hv⟩
  | cons item rest ih =>
    cases item with
    | none => cases h
    | some entry =>
      rw [unpackEntries] at h
      cases he : unpackEntry state entry with
      | error failure => simp only [he, reduceCtorEq] at h
      | ok after =>
        simp only [he] at h
        obtain ⟨hwhole, hadd, hgrows⟩ := unpackEntry_inv he
        obtain ⟨hrest, hfiles, hgrows'⟩ := ih h
        refine ⟨?_, ?_, fun path contents hv => hgrows' _ _ (hgrows _ _ hv)⟩
        · intro item hitem
          rcases List.mem_cons.1 hitem with rfl | hitem
          · exact ⟨entry, rfl, hwhole⟩
          · exact hrest item hitem
        · rw [hfiles, hadd, List.foldl_cons]

theorem unpackArchive_ok {entries : ArchiveReader} {bytes : Bytes} {files : BTreeMap Bytes} :
    unpackArchive entries bytes = .ok files ↔ ∃ items state, entries bytes = some items ∧
      unpackEntries .start items = .ok state ∧ files = state.files := by
  unfold unpackArchive
  cases entries bytes with
  | none => simp
  | some items =>
    cases h : unpackEntries .start items with
    | error failure => simp [h, Except.map]
    | ok state => simp [h, Except.map, eq_comm]

theorem unpackEntry_partial (state : Unpacking) {whole part : TarEntry} (hpart : PartialEntry whole part)
    (hw : whole.entryType = .regular → whole.size = some whole.contents.length ∧ whole.fails = false)
    (hp : part.entryType = .regular → part.size = some part.contents.length ∧ part.fails = false) :
    unpackEntry state part = unpackEntry state whole := by
  apply unpackEntry_congr state hpart.path hpart.entryType
  intro hr
  obtain ⟨hsize, hfails⟩ := hw hr
  obtain ⟨hsize', hfails'⟩ := hp (hpart.entryType.trans hr)
  have hlength : part.contents.length = whole.contents.length := by
    rw [hpart.size, hsize, Option.some.injEq] at hsize'
    exact hsize'.symm
  have hcontents := hpart.contents.eq_of_length hlength
  cases part
  cases whole
  simp only [TarEntry.mk.injEq]
  exact ⟨hpart.path, hpart.entryType, hpart.size, hcontents, hfails'.trans hfails.symm⟩

/-- What arrives intact unpacks as leading entries of the whole archive. -/
theorem unpackEntries_brokenOff {full : List TarEntry} {items : List (Option TarEntry)}
    {whole : Unpacking} (hfull : unpackEntries .start (full.map some) = .ok whole)
    (hcut : BrokenOff full (some items)) (hintact : Intact items) :
    ∃ state, unpackEntries .start items = .ok state ∧ PartOf state.files whole.files := by
  have hfront : ∀ front back : List TarEntry, full = front ++ back →
      ∃ state, unpackEntries .start (front.map some) = .ok state ∧ PartOf state.files whole.files := by
    intro front back h
    rw [h, List.map_append, unpackEntries_append] at hfull
    cases hstate : unpackEntries .start (front.map some) with
    | error failure =>
      rw [hstate] at hfull
      cases hfull
    | ok state =>
      rw [hstate] at hfull
      exact ⟨state, rfl, (unpackEntries_inv _ hfull).2.2⟩
  generalize hd : some items = delivered at hcut
  cases hcut with
  | unopened => cases hd
  | ends front back h =>
    cases hd
    exact hfront front back h
  | fails front back rest h =>
    cases hd
    obtain ⟨entry, hentry, -⟩ := hintact none (by simp)
    cases hentry
  | cut front back entry part rest h hpart hrest =>
    cases hd
    obtain rfl : rest = [] := by
      rcases hrest with hrest | hrest
      · exact hrest
      · obtain ⟨entry, hentry, -⟩ := hintact none (by simp [List.mem_of_head? hrest])
        cases hentry
    obtain ⟨state, hstate, hpartOf⟩ := hfront (front ++ [entry]) back (by rw [h, List.append_assoc]; rfl)
    refine ⟨state, ?_, hpartOf⟩
    rw [List.map_append, List.map_singleton] at hstate
    have hwhole := (unpackEntries_inv _ hstate).1 (some entry) (by simp)
    obtain ⟨_, he, hwhole⟩ := hwhole
    cases he
    obtain ⟨_, he, hpartial⟩ := hintact (some part) (by simp)
    cases he
    rw [unpackEntries_append] at hstate ⊢
    rw [← hstate]
    congr 1
    funext between
    rw [unpackEntries, unpackEntries, unpackEntry_partial between hpart hwhole hpartial]

/-- What arrived makes a package by itself, with the root configuration at `path`. Where
    the whole archive is configured from another path, its sources have to convert anew. -/
structure CompleteByItself (libraries : Libraries) (job : Materializer.MaterializationJob)
    (full : List TarEntry) (items : List (Option TarEntry)) (path : Str) (config : SourceConfiguration) :
    Prop where
  intact : Intact items
  located : configPath (sourceFiles items) = some path
  parsed : parseRootConfiguration libraries.configuration ((sourceFiles items).getD path []) = .ok config
  exported : ∀ entry ∈ config.exports.toList, trimStartMatches entry.2 ∈ sourceFiles items
  converted : configPath (sourceFiles (full.map some)) = some path ∨
    ∃ files, rewritten libraries.ast (sourceFiles items) config = .ok files ∧
      validateOutputLimits (packaged job files config) = .ok ()

theorem configPath_mem {files : BTreeMap Bytes} {path : Str} (h : configPath files = some path) :
    path ∈ files := by
  unfold configPath at h
  split_ifs at h with hdeno hjsr
  · cases h
    exact hdeno
  · cases h
    exact hjsr

theorem packageFiles_part (libraries : Libraries) (input : MaterializationRequest)
    {part whole : BTreeMap Bytes} (hpart : PartOf part whole) {package : List ArtifactFile × BTreeMap Str}
    (hwhole : packageFiles libraries input whole = .ok package) {path : Str} {config : SourceConfiguration}
    (hlocated : configPath part = some path) (hsame : configPath whole = some path)
    (hparsed : parseRootConfiguration libraries.configuration (part.getD path []) = .ok config) :
    ∃ files, rewritten libraries.ast part config = .ok files ∧
      validateOutputLimits (packaged input.job files config) = .ok () := by
  obtain ⟨path', config', result, hpath, hconfig, hresult, -, hlimits, -⟩ :=
    (packageFiles_ok _ _ _ _).1 hwhole
  obtain rfl : path = path' := Option.some.inj (hsame.symm.trans hpath)
  rw [← hpart.getD (configPath_mem hlocated), hparsed, Except.ok.injEq] at hconfig
  subst hconfig
  obtain ⟨files, hfiles, hfilesPart⟩ := rewritten_part hpart hresult
  refine ⟨files, hfiles, ?_⟩
  rw [validateOutputLimits_ok] at hlimits ⊢
  exact hlimits.subperm (packaged_part hfilesPart input.job config).toList_subperm

/-- What arrives of the archive of a package is one exactly if it is complete by itself. -/
theorem sourcePackage_brokenOff (libraries : Libraries) (input : MaterializationRequest)
    {archive cut : Bytes} {full : List TarEntry} (hreader : libraries.entries archive = some (full.map some))
    {package : List ArtifactFile × BTreeMap Str}
    (hready : sourcePackage libraries archive input = .ok package)
    (hcut : BrokenOff full (libraries.entries cut)) :
    (∃ package, sourcePackage libraries cut input = .ok package) ↔
      ∃ items path config, libraries.entries cut = some items ∧
        CompleteByItself libraries input.job full items path config := by
  have hwhole : ∃ state, unpackEntries .start (full.map some) = .ok state ∧
      packageFiles libraries input state.files = .ok package := by
    unfold sourcePackage at hready
    cases hu : unpackArchive libraries.entries archive with
    | error failure => simp only [hu, reduceCtorEq] at hready
    | ok files =>
      simp only [hu] at hready
      obtain ⟨items, state, hitems, hstate, rfl⟩ := unpackArchive_ok.1 hu
      rw [hreader, Option.some.injEq] at hitems
      rw [hitems]
      exact ⟨state, hstate, hready⟩
  obtain ⟨whole, hfull, hpackage⟩ := hwhole
  have hwholeFiles : whole.files = sourceFiles (full.map some) := (unpackEntries_inv _ hfull).2.1
  constructor
  · rintro ⟨package', h⟩
    unfold sourcePackage at h
    cases hu : unpackArchive libraries.entries cut with
    | error failure => simp only [hu, reduceCtorEq] at h
    | ok files =>
      simp only [hu] at h
      obtain ⟨items, state, hitems, hstate, rfl⟩ := unpackArchive_ok.1 hu
      obtain ⟨hintact, hfiles, -⟩ := unpackEntries_inv _ hstate
      obtain ⟨path, config, files', hpath, hconfig, hfiles', hmissing, hlimits, -⟩ :=
        (packageFiles_ok _ _ _ _).1 h
      rw [show state.files = sourceFiles items from hfiles] at hpath hconfig hfiles'
      refine ⟨items, path, config, hitems, hintact, hpath, hconfig, ?_, .inr ⟨files', hfiles', hlimits⟩⟩
      intro entry hentry
      exact (rewritten_mem hfiles' _).1 (missingExport_none.1 hmissing entry hentry)
  · rintro ⟨items, path, config, hitems, h⟩
    rw [hitems] at hcut
    obtain ⟨state, hstate, hpart⟩ := unpackEntries_brokenOff hfull hcut h.intact
    have hfiles : state.files = sourceFiles items := (unpackEntries_inv _ hstate).2.1
    rw [hfiles] at hpart
    have hconverted : ∃ files, rewritten libraries.ast (sourceFiles items) config = .ok files ∧
        validateOutputLimits (packaged input.job files config) = .ok () := by
      rcases h.converted with hsame | hconverted
      · rw [← hwholeFiles] at hsame
        exact packageFiles_part libraries input hpart hpackage h.located hsame h.parsed
      · exact hconverted
    obtain ⟨files, hrewritten, hlimits⟩ := hconverted
    have hmissing : missingExport files config = none := by
      rw [missingExport_none]
      intro entry hentry
      exact (rewritten_mem hrewritten _).2 (h.exported entry hentry)
    refine ⟨(artifactFiles (packaged input.job files config), config.exports), ?_⟩
    unfold sourcePackage
    rw [unpackArchive_ok.2 ⟨items, state, hitems, hstate, rfl⟩, hfiles]
    exact (packageFiles_ok _ _ _ _).2
      ⟨path, config, files, h.located, h.parsed, hrewritten, hmissing, hlimits, rfl⟩

/-- A transfer that broke off is not yanked exactly if what arrived is a package by itself. -/
theorem not_yanked_iff_completeByItself (libraries : Libraries) (input : MaterializationRequest)
    (archive cut : Bytes) (full : List TarEntry)
    (hreader : libraries.entries archive = some (full.map some))
    (hready : ∃ uploads, runMaterialization libraries input archive = .ok (.ready uploads))
    (hcut : BrokenOff full (libraries.entries cut)) :
    (¬ ∃ diagnostic uploads, runMaterialization libraries input cut = .ok (.yanked diagnostic uploads)) ↔
      ∃ items path config, libraries.entries cut = some items ∧
        CompleteByItself libraries input.job full items path config := by
  obtain ⟨package, hpackage⟩ := (ready_iff libraries input archive).1 hready
  rw [← sourcePackage_brokenOff libraries input hreader hpackage hcut, yanked_iff]
  cases sourcePackage libraries cut input with
  | ok package' => simp
  | error failure => simp

/-- The gzip file of a tar archive with `widget-abc/deno.json` and `widget-abc/mod.ts`. -/
def widgetArchive : Bytes :=
  [31, 139, 8, 0, 0, 0, 0, 0, 2, 3, 43, 207, 76, 73, 79, 45, 209, 77, 76, 74, 214, 79, 73, 205,
    203, 215, 203, 42, 206, 207, 99, 160, 50, 48, 0, 2, 51, 19, 19, 48, 13, 4, 232, 180, 129, 129,
    145, 25, 130, 13, 18, 55, 52, 52, 53, 54, 100, 80, 48, 96, 160, 3, 40, 45, 46, 73, 44, 82, 80,
    96, 24, 161, 160, 90, 41, 181, 162, 32, 191, 168, 164, 88, 201, 74, 73, 79, 63, 55, 63, 69, 15,
    200, 172, 101, 24, 5, 35, 4, 148, 35, 242, 63, 36, 242, 105, 96, 7, 193, 252, 111, 104, 140,
    158, 255, 13, 140, 77, 70, 243, 63, 61, 0, 36, 247, 43, 84, 215, 90, 115, 141, 102, 134, 81,
    48, 10, 70, 193, 40, 24, 65, 0, 0, 46, 153, 110, 202, 0, 12, 0, 0]

def widgetConfiguration : Bytes := Utf8.encode "\x7b\"exports\":\"./mod.ts\"\x7d".toList

def widgetModule : Bytes := Utf8.encode "export \x7b\x7d;\n".toList

def widgetEntries : List TarEntry :=
  [⟨Utf8.encode "widget-abc/deno.json".toList, .regular, some 22, widgetConfiguration, false⟩,
    ⟨Utf8.encode "widget-abc/mod.ts".toList, .regular, some 11, widgetModule, false⟩]

def widgetReader : ArchiveReader := fun bytes =>
  if bytes = widgetArchive then some (widgetEntries.map some) else some [none]

def widgetLibraries : Libraries where
  entries := widgetReader
  configuration bytes :=
    if bytes = widgetConfiguration then .ok ⟨some (.string "./mod.ts".toList), ∅⟩
    else .error "expected value at line 1 column 1".toList
  ast := ⟨Str, .ok, fun _ source _ => .ok source, fun _ program => program, fun _ _ program => .ok program⟩

def widgetRequest : MaterializationRequest where
  job := ⟨⟨"acme".toList, "widget".toList⟩, "main".toList, "abc".toList, "0.1.42".toList⟩
  source := ⟨"acme".toList, "widget".toList⟩
  statusUrl := "https://proxy.invalid/-/status/@acme/widget".toList

theorem widget_whole : widgetLibraries.entries widgetArchive = some (widgetEntries.map some) := by
  change widgetReader widgetArchive = _
  rw [widgetReader, if_pos rfl]

theorem widget_ready : ∃ uploads,
    runMaterialization widgetLibraries widgetRequest widgetArchive = .ok (.ready uploads) := by
  have hok : (sourcePackage widgetLibraries widgetArchive widgetRequest).toBool = true := by
    decide +kernel
  rw [ready_iff]
  cases h : sourcePackage widgetLibraries widgetArchive widgetRequest with
  | error failure =>
    rw [h] at hok
    cases hok
  | ok package => exact ⟨package, rfl⟩

theorem widget_brokenOff : BrokenOff widgetEntries (widgetLibraries.entries (widgetArchive.take 20)) := by
  have hcut : widgetReader (widgetArchive.take 20) = some [none] := by decide +kernel
  rw [show widgetLibraries.entries = widgetReader from rfl, hcut]
  exact .fails [] widgetEntries [] rfl

theorem not_yanked_iff_completeByItself_widget :
    (¬ ∃ diagnostic uploads, runMaterialization widgetLibraries widgetRequest (widgetArchive.take 20)
      = .ok (.yanked diagnostic uploads)) ↔
      ∃ items path config, widgetLibraries.entries (widgetArchive.take 20) = some items ∧
        CompleteByItself widgetLibraries widgetRequest.job widgetEntries items path config :=
  not_yanked_iff_completeByItself widgetLibraries widgetRequest widgetArchive (widgetArchive.take 20)
    widgetEntries widget_whole widget_ready widget_brokenOff

/-- The first 20 bytes of the archive of a good package are yanked. -/
theorem brokenOff_yanked : ∃ (libraries : Libraries) (input : MaterializationRequest) (archive cut : Bytes)
    (full : List TarEntry), libraries.entries archive = some (full.map some) ∧
      (∃ uploads, runMaterialization libraries input archive = .ok (.ready uploads)) ∧
      cut <+: archive ∧ cut ≠ archive ∧ BrokenOff full (libraries.entries cut) ∧
      ∃ diagnostic uploads, runMaterialization libraries input cut = .ok (.yanked diagnostic uploads) := by
  refine ⟨widgetLibraries, widgetRequest, widgetArchive, widgetArchive.take 20, widgetEntries,
    widget_whole, widget_ready, List.take_prefix _ _, by decide, widget_brokenOff, ?_⟩
  have herror : (sourcePackage widgetLibraries (widgetArchive.take 20) widgetRequest).toBool = false := by
    decide +kernel
  rw [yanked_iff]
  cases h : sourcePackage widgetLibraries (widgetArchive.take 20) widgetRequest with
  | error failure => exact ⟨failure, rfl⟩
  | ok package =>
    rw [h] at herror
    cases herror

end Service
end JsrProxy
