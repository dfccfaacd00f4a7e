import JsrProxy.Materialization
import JsrProxy.PublishedFiles

set_option autoImplicit false

/-!
# Materialized packages

What the limits on a package and the rewriting of its imports make of a part of its
files, and the batch that each run of materialization answers with.
-/
namespace JsrProxy

def PartOf {ν : Type} (part whole : BTreeMap ν) : Prop :=
  ∀ (key : Str) (value : ν), part[key]? = some value → whole[key]? = some value

theorem get_insert {ν : Type} (map : BTreeMap ν) (key other : Str) (value : ν) :
    (map.insert key value)[other]? = if other = key then some value else map[other]? := by
  rw [Std.ExtTreeMap.getElem?_insert]
  split_ifs with he he' he'
  · rfl
  · exact absurd (Std.LawfulEqCmp.eq_of_compare he).symm he'
  · exact absurd (Std.LawfulEqCmp.compare_eq_iff_eq.2 he'.symm) he
  · rfl

namespace PartOf

variable {ν : Type} {part whole : BTreeMap ν}

theorem getD (h : PartOf part whole) {key : Str} (hkey : key ∈ part) (default : ν) :
    part.getD key default = whole.getD key default := by
  rw [← Std.ExtTreeMap.isSome_getElem?_iff_mem] at hkey
  obtain ⟨value, hvalue⟩ := Option.isSome_iff_exists.1 hkey
  rw [Std.ExtTreeMap.getD_eq_getD_getElem?, Std.ExtTreeMap.getD_eq_getD_getElem?, hvalue,
    h key value hvalue]

theorem erase (h : PartOf part whole) (key : Str) : PartOf (part.erase key) (whole.erase key) := by
  intro other value hvalue
  rw [Std.ExtTreeMap.getElem?_erase] at hvalue ⊢
  split_ifs at hvalue with he
  · rw [if_neg he]
    exact h other value hvalue

theorem insert (h : PartOf part whole) (key : Str) (value : ν) :
    PartOf (part.insert key value) (whole.insert key value) := by
  intro other value' hvalue
  rw [get_insert] at hvalue ⊢
  split_ifs at hvalue ⊢ with he
  · exact hvalue
  · exact h other value' hvalue

end PartOf

theorem toList_nodup {ν : Type} (map : BTreeMap ν) : (map.toList.map Prod.fst).Nodup := by
  rw [List.Nodup, List.pairwise_map]
  refine Std.ExtTreeMap.distinct_keys_toList.imp ?_
  intro entry entry' hne he
  exact hne (Std.LawfulEqCmp.compare_eq_iff_eq.2 he)

theorem PartOf.toList_subperm {ν : Type} {part whole : BTreeMap ν} (h : PartOf part whole) :
    part.toList.Subperm whole.toList := by
  apply List.subperm_of_subset (toList_nodup part).of_map
  intro entry hentry
  obtain ⟨key, value⟩ := entry
  rw [Std.ExtTreeMap.mem_toList_iff_getElem?_eq_some] at hentry ⊢
  exact h key value hentry

namespace Service

/-- What the generated files of a package are checked for. -/
structure WithinLimits (files : List (Str × Bytes)) : Prop where
  accepted : ∀ file ∈ files, validatePackagePath file.1 = .ok ()
  fileLimit : ∀ file ∈ files, file.2.length ≤ maxSourceFileBytes
  distinct : (files.map fun file => toAsciiLowercase file.1).Nodup
  totalLimit : (files.map fun file => file.2.length).sum ≤ maxTotalSourceBytes

theorem WithinLimits.subperm {files files' : List (Str × Bytes)} (h : WithinLimits files)
    (hs : files'.Subperm files) : WithinLimits files' := by
  obtain ⟨chosen, hperm, hsub⟩ := hs
  refine ⟨fun file hfile => h.accepted file (hsub.subset (hperm.mem_iff.2 hfile)),
    fun file hfile => h.fileLimit file (hsub.subset (hperm.mem_iff.2 hfile)), ?_, ?_⟩
  · rw [← (hperm.map _).nodup_iff]
    exact h.distinct.sublist (hsub.map _)
  · rw [← (hperm.map _).sum_eq]
    exact le_trans ((hsub.map _).sum_le_sum fun _ _ => Nat.zero_le _) h.totalLimit

/-- The loop has seen other paths before, and accepts what repeats none of them. -/
theorem validateFiles_inv (files : List (Str × Bytes)) (seen : BTreeMap Str) (total total' : ℕ)
    (h : validateFiles seen total files = .ok total') :
    total' = total + (files.map fun file => file.2.length).sum ∧
      (∀ file ∈ files, validatePackagePath file.1 = .ok () ∧ file.2.length ≤ maxSourceFileBytes ∧
        toAsciiLowercase file.1 ∉ seen) ∧
      (files.map fun file => toAsciiLowercase file.1).Nodup := by
  induction files generalizing seen total with
  | nil =>
    rw [validateFiles, Except.ok.injEq] at h
    exact ⟨h.symm, by simp, List.nodup_nil⟩
  | cons file rest ih =>
    obtain ⟨path, contents⟩ := file
    unfold validateFiles at h
    cases hv : validatePackagePath path with
    | error failure => simp only [hv, reduceCtorEq] at h
    | ok =>
      cases hs : seen[toAsciiLowercase path]? with
      | some existing => simp only [hv, hs, reduceCtorEq] at h
      | none =>
        simp only [hv, hs] at h
        split_ifs at h with hsize hsum
        obtain ⟨htotal, hall, hnodup⟩ := ih _ _ h
        have hnew : toAsciiLowercase path ∉ seen := by
          rw [← Std.ExtTreeMap.isSome_getElem?_iff_mem, hs]
          exact Bool.false_ne_true
        refine ⟨?_, ?_, ?_⟩
        · rw [htotal, List.map_cons, List.sum_cons, Nat.add_assoc]
        · intro file hfile
          rcases List.mem_cons.1 hfile with rfl | hfile
          · exact ⟨hv, Nat.le_of_not_gt hsize, hnew⟩
          · obtain ⟨haccepted, hlimit, hseen⟩ := hall file hfile
            rw [Std.ExtTreeMap.mem_insert, not_or] at hseen
            exact ⟨haccepted, hlimit, hseen.2⟩
        · rw [List.map_cons, List.nodup_cons]
          refine ⟨?_, hnodup⟩
          intro hmem
          obtain ⟨file, hfile, he⟩ := List.mem_map.1 hmem
          apply (hall file hfile).2.2
          rw [he]
          exact Std.ExtTreeMap.mem_insert_self

theorem validateFiles_of (files : List (Str × Bytes)) (seen : BTreeMap Str) (total : ℕ)
    (hall : ∀ file ∈ files, validatePackagePath file.1 = .ok () ∧
      file.2.length ≤ maxSourceFileBytes ∧ toAsciiLowercase file.1 ∉ seen)
    (hnodup : (files.map fun file => toAsciiLowercase file.1).Nodup)
    (htotal : total + (files.map fun file => file.2.length).sum < 2 ^ 64) :
    validateFiles seen total files = .ok (total + (files.map fun file => file.2.length).sum) := by
  induction files generalizing seen total with
  | nil => rfl
  | cons file rest ih =>
    obtain ⟨path, contents⟩ := file
    obtain ⟨hv, hsize, hseen⟩ := hall _ List.mem_cons_self
    have hnone : seen[toAsciiLowercase path]? = none := by
      exact Std.ExtTreeMap.getElem?_eq_none hseen
    rw [List.map_cons, List.nodup_cons] at hnodup
    simp only [List.map_cons, List.sum_cons] at htotal ⊢
    unfold validateFiles
    simp only [hv, hnone, if_neg (Nat.not_lt.2 hsize)]
    rw [if_neg (by omega), ih _ _ ?_ hnodup.2 (by omega), Nat.add_assoc]
    intro file hfile
    obtain ⟨haccepted, hlimit, hold⟩ := hall file (List.mem_cons_of_mem _ hfile)
    refine ⟨haccepted, hlimit, ?_⟩
    rw [Std.ExtTreeMap.mem_insert, not_or]
    refine ⟨?_, hold⟩
    intro he
    apply hnodup.1
    rw [Std.LawfulEqCmp.compare_eq_iff_eq] at he
    exact List.mem_map.2 ⟨file, hfile, he.symm⟩

theorem validateOutputLimits_ok (files : BTreeMap Bytes) :
    validateOutputLimits files = .ok () ↔ WithinLimits files.toList := by
  have hmax : maxTotalSourceBytes = 20971520 := rfl
  unfold validateOutputLimits
  constructor
  · intro h
    cases hv : validateFiles ∅ 0 files.toList with
    | error failure => simp only [hv, reduceCtorEq] at h
    | ok total =>
      simp only [hv] at h
      split_ifs at h with hlimit
      obtain ⟨htotal, hall, hnodup⟩ := validateFiles_inv _ _ _ _ hv
      exact ⟨fun file hfile => (hall file hfile).1, fun file hfile => (hall file hfile).2.1, hnodup,
        by omega⟩
  · intro h
    have htotal := h.totalLimit
    rw [validateFiles_of files.toList ∅ 0 ?_ h.distinct (by omega)]
    · exact if_neg (by omega)
    · intro file hfile
      exact ⟨h.accepted file hfile, h.fileLimit file hfile, Std.ExtTreeMap.not_mem_empty⟩

def Rewritable (ast : DenoAst) (imports : BTreeMap Str) (file : Str × Bytes) : Prop :=
  isRewritten file.1 = true →
    ∃ text, ImportRewriting.rewriteImportMapSpecifiers ast file.1 file.2 imports = .ok text

def rewrittenFile (ast : DenoAst) (imports : BTreeMap Str) (path : Str) (bytes : Bytes) : Bytes :=
  if isRewritten path then
    match ImportRewriting.rewriteImportMapSpecifiers ast path bytes imports with
    | .error _ => bytes
    | .ok text => Utf8.encode text
  else bytes

variable {ast : DenoAst} {imports : BTreeMap Str}

theorem rewriteFiles_inv (files : BTreeMap Bytes) (rest : List (Str × Bytes)) {result : BTreeMap Bytes}
    (h : rewriteFiles ast imports files rest = .ok result) :
    ∀ file ∈ rest, Rewritable ast imports file := by
  induction rest generalizing files with
  | nil => simp
  | cons file rest ih =>
    obtain ⟨path, bytes⟩ := file
    unfold rewriteFiles at h
    intro other hother
    cases hp : isRewritten path with
    | false =>
      simp only [hp, Bool.not_false, if_true] at h
      rcases List.mem_cons.1 hother with rfl | hother
      · intro hr
        rw [hp] at hr
        cases hr
      · exact ih _ h other hother
    | true =>
      cases ht : ImportRewriting.rewriteImportMapSpecifiers ast path bytes imports with
      | error message => simp only [hp, ht, Bool.not_true, Bool.false_eq_true, if_false, reduceCtorEq] at h
      | ok text =>
        simp only [hp, ht, Bool.not_true, Bool.false_eq_true, if_false] at h
        rcases List.mem_cons.1 hother with rfl | hother
        · intro _
          exact ⟨text, ht⟩
        · exact ih _ h other hother

/-- The loop has rewritten all files but the rest. -/
theorem rewriteFiles_of (source : BTreeMap Bytes) (rest : List (Str × Bytes)) (files : BTreeMap Bytes)
    (hrest : ∀ file ∈ rest, source[file.1]? = some file.2 ∧ Rewritable ast imports file)
    (hnodup : (rest.map Prod.fst).Nodup)
    (hfiles : ∀ path : Str, files[path]? = if path ∈ rest.map Prod.fst then source[path]?
      else source[path]?.map (rewrittenFile ast imports path)) :
    ∃ result, rewriteFiles ast imports files rest = .ok result ∧
      ∀ path : Str, result[path]? = source[path]?.map (rewrittenFile ast imports path) := by
  induction rest generalizing files with
  | nil => exact ⟨files, rfl, fun path => by rw [hfiles, List.map_nil, if_neg List.not_mem_nil]⟩
  | cons file rest ih =>
    obtain ⟨path, bytes⟩ := file
    obtain ⟨hsource, hrewritable⟩ := hrest _ List.mem_cons_self
    rw [List.map_cons, List.nodup_cons] at hnodup
    have hothers := fun file hfile => hrest file (List.mem_cons_of_mem _ hfile)
    have hnext : ∀ next : BTreeMap Bytes,
        (∀ other : Str, next[other]? = if other = path then some (rewrittenFile ast imports path bytes)
          else files[other]?) →
        ∀ other : Str, next[other]? = if other ∈ rest.map Prod.fst then source[other]?
          else source[other]?.map (rewrittenFile ast imports other) := by
      intro next hn other
      rw [hn]
      split_ifs with he hmem hmem
      · exact absurd (he ▸ hmem) hnodup.1
      · rw [he, hsource]
        rfl
      · rw [hfiles, List.map_cons, if_pos (List.mem_cons_of_mem _ hmem)]
      · rw [hfiles, List.map_cons, if_neg]
        rintro (_ | hm)
        · exact he rfl
        · exact hmem ‹_›
    unfold rewriteFiles
    cases hp : isRewritten path with
    | false =>
      simp only [Bool.not_false, if_true]
      apply ih files hothers hnodup.2
      apply hnext files
      intro other
      split_ifs with he
      · rw [he, hfiles, List.map_cons, if_pos List.mem_cons_self, hsource, rewrittenFile, hp]
        rfl
      · rfl
    | true =>
      obtain ⟨text, ht⟩ := hrewritable hp
      simp only [ht, Bool.not_true, Bool.false_eq_true, if_false]
      apply ih _ hothers hnodup.2
      apply hnext
      intro other
      rw [get_insert, rewrittenFile, hp, ht]
      rfl

theorem rewriteSourceImports_of {files : BTreeMap Bytes}
    (h : ∀ file ∈ files.toList, Rewritable ast imports file) :
    ∃ result, rewriteSourceImports ast files imports = .ok result ∧
      ∀ path : Str, result[path]? = files[path]?.map (rewrittenFile ast imports path) := by
  apply rewriteFiles_of files
  · intro file hfile
    refine ⟨?_, h file hfile⟩
    rw [← Std.ExtTreeMap.mem_toList_iff_getElem?_eq_some]
    exact hfile
  · exact toList_nodup files
  · intro path
    split_ifs with hmem
    · rfl
    · have hnone : files[path]? = none := by
        rw [← Option.not_isSome_iff_eq_none]
        intro hsome
        obtain ⟨bytes, hbytes⟩ := Option.isSome_iff_exists.1 hsome
        exact hmem (List.mem_map.2 ⟨_, Std.ExtTreeMap.mem_toList_iff_getElem?_eq_some.2 hbytes, rfl⟩)
      rw [hnone]
      rfl

theorem rewriteSourceImports_get {files result : BTreeMap Bytes}
    (h : rewriteSourceImports ast files imports = .ok result) (path : Str) :
    result[path]? = files[path]?.map (rewrittenFile ast imports path) := by
  obtain ⟨result', hresult', hget⟩ := rewriteSourceImports_of (rewriteFiles_inv _ _ h)
  rw [h, Except.ok.injEq] at hresult'
  rw [hresult', hget]

theorem rewritten_mem {files result : BTreeMap Bytes} {config : SourceConfiguration}
    (h : rewritten ast files config = .ok result) (path : Str) : path ∈ result ↔ path ∈ files := by
  unfold rewritten at h
  split_ifs at h
  · rw [Except.ok.injEq] at h
    rw [h]
  · rw [← Std.ExtTreeMap.isSome_getElem?_iff_mem, rewriteSourceImports_get h, Option.isSome_map,
      Std.ExtTreeMap.isSome_getElem?_iff_mem]

theorem rewritten_part {part whole result : BTreeMap Bytes} {config : SourceConfiguration}
    (hpart : PartOf part whole) (h : rewritten ast whole config = .ok result) :
    ∃ result', rewritten ast part config = .ok result' ∧ PartOf result' result := by
  unfold rewritten at h ⊢
  split_ifs at h ⊢
  · rw [Except.ok.injEq] at h
    exact ⟨part, rfl, h ▸ hpart⟩
  · have hall : ∀ file ∈ part.toList, Rewritable ast config.imports file := fun file hfile =>
      rewriteFiles_inv _ _ h file (hpart.toList_subperm.subset hfile)
    obtain ⟨result', hresult', hget⟩ := rewriteSourceImports_of hall
    refine ⟨result', hresult', ?_⟩
    intro path bytes hbytes
    rw [hget] at hbytes
    obtain ⟨source, hsource, rfl⟩ := Option.map_eq_some_iff.1 hbytes
    rw [rewriteSourceImports_get h, hpart path source hsource]
    rfl

theorem packaged_part {part whole : BTreeMap Bytes} (h : PartOf part whole)
    (job : Materializer.MaterializationJob) (config : SourceConfiguration) :
    PartOf (packaged job part config) (packaged job whole config) :=
  ((h.erase _).erase _).insert _ _

structure Publishable (files : List ArtifactFile) : Prop where
  accepted : ∀ file ∈ files, validatePackagePath file.path = .ok ()
  distinct : (files.map ArtifactFile.path).Nodup

theorem artifactFiles_publishable {files : BTreeMap Bytes} (h : validateOutputLimits files = .ok ()) :
    Publishable (artifactFiles files) where
  accepted file hfile := by
    obtain ⟨entry, hentry, rfl⟩ := List.mem_map.1 hfile
    exact ((validateOutputLimits_ok files).1 h).accepted entry hentry
  distinct := by
    rw [artifactFiles, List.map_map]
    exact toList_nodup files

theorem tombstone_publishable (failure : SourceFailure) (input : MaterializationRequest) :
    Publishable (tombstoneOf failure input).files where
  accepted file hfile := by
    have hconfig : validatePackagePath "deno.json".toList = .ok () :=
      validatePackagePath_ok.2 (by decide +kernel)
    have hmodule : validatePackagePath Tombstone.failureModulePath = .ok () :=
      validatePackagePath_ok.2 (by decide +kernel)
    rcases List.mem_cons.1 hfile with rfl | hfile
    · exact hconfig
    · rw [List.mem_singleton.1 hfile]
      exact hmodule
  distinct := by
    change ["deno.json".toList, Tombstone.failureModulePath].Nodup
    decide

theorem missingExport_none {files : BTreeMap Bytes} {config : SourceConfiguration} :
    missingExport files config = none ↔
      ∀ entry ∈ config.exports.toList, trimStartMatches entry.2 ∈ files := by
  simp [missingExport, List.find?_eq_none]

/-- What makes a package of source files. -/
theorem packageFiles_ok (libraries : Libraries) (input : MaterializationRequest)
    (files : BTreeMap Bytes) (package : List ArtifactFile × BTreeMap Str) :
    packageFiles libraries input files = .ok package ↔ ∃ path config files',
      configPath files = some path ∧
      parseRootConfiguration libraries.configuration (files.getD path []) = .ok config ∧
      rewritten libraries.ast files config = .ok files' ∧ missingExport files' config = none ∧
      validateOutputLimits (packaged input.job files' config) = .ok () ∧
      package = (artifactFiles (packaged input.job files' config), config.exports) := by
  unfold packageFiles
  constructor
  · intro h
    cases hpath : configPath files with
    | none => simp only [hpath, reduceCtorEq] at h
    | some path =>
      simp only [hpath] at h
      cases hconfig : parseRootConfiguration libraries.configuration (files.getD path []) with
      | error error => simp only [hconfig, reduceCtorEq] at h
      | ok config =>
        simp only [hconfig] at h
        cases hfiles : rewritten libraries.ast files config with
        | error message => simp only [hfiles, reduceCtorEq] at h
        | ok files' =>
          simp only [hfiles] at h
          cases hmissing : missingExport files' config with
          | some absent => simp only [hmissing, reduceCtorEq] at h
          | none =>
            simp only [hmissing] at h
            cases hlimits : validateOutputLimits (packaged input.job files' config) with
            | error failure => simp only [hlimits, reduceCtorEq] at h
            | ok =>
              simp only [hlimits, Except.ok.injEq] at h
              exact ⟨path, config, files', rfl, hconfig, hfiles, hmissing, hlimits, h.symm⟩
  · intro h
    obtain ⟨path, config, files', hpath, hconfig, hfiles, hmissing, hlimits, rfl⟩ := h
    simp only [hpath, hconfig, hfiles, hmissing, hlimits]

theorem packageFiles_publishable {libraries : Libraries} {input : MaterializationRequest}
    {files : BTreeMap Bytes} {package : List ArtifactFile × BTreeMap Str}
    (h : packageFiles libraries input files = .ok package) : Publishable package.1 := by
  obtain ⟨_, _, _, _, _, _, _, hlimits, rfl⟩ := (packageFiles_ok _ _ _ _).1 h
  exact artifactFiles_publishable hlimits

theorem sourcePackage_publishable {libraries : Libraries} {input : MaterializationRequest}
    {archive : Bytes} {package : List ArtifactFile × BTreeMap Str}
    (h : sourcePackage libraries archive input = .ok package) : Publishable package.1 := by
  unfold sourcePackage at h
  split at h
  · cases h
  · exact packageFiles_publishable h

theorem publishArtifacts_batched (input : MaterializationRequest) {files : List ArtifactFile}
    (exports : BTreeMap Str) (h : Publishable files) : publishArtifacts input files exports =
      .ok ((Publication.batchOf input.job files exports).map BatchObject.upload) := by
  rw [publishArtifacts, Publication.publish_batched input.job files exports h.accepted h.distinct]

variable (libraries : Libraries) (input : MaterializationRequest) (archive : Bytes)

theorem runMaterialization_ready {package : List ArtifactFile × BTreeMap Str}
    (h : sourcePackage libraries archive input = .ok package) :
    runMaterialization libraries input archive =
      .ok (.ready ((Publication.batchOf input.job package.1 package.2).map BatchObject.upload)) := by
  rw [runMaterialization, h]
  dsimp only
  rw [publishArtifacts_batched input package.2 (sourcePackage_publishable h)]
  rfl

theorem runMaterialization_yanked {failure : SourceFailure}
    (h : sourcePackage libraries archive input = .error failure) :
    runMaterialization libraries input archive = .ok (.yanked (diagnosticOf failure input)
      ((Publication.batchOf input.job (tombstoneOf failure input).files
        (tombstoneOf failure input).exports).map BatchObject.upload)) := by
  rw [runMaterialization, h]
  dsimp only
  rw [publishArtifacts_batched input _ (tombstone_publishable failure input)]
  rfl

/-- A run publishes the package, or the tombstone of its failure. -/
theorem runMaterialization_uploads : ∃ outcome files exports,
    runMaterialization libraries input archive = .ok outcome ∧ Publishable files ∧
      outcome.uploads = (Publication.batchOf input.job files exports).map BatchObject.upload := by
  cases h : sourcePackage libraries archive input with
  | ok package =>
    exact ⟨_, package.1, package.2, runMaterialization_ready _ _ _ h, sourcePackage_publishable h, rfl⟩
  | error failure =>
    exact ⟨_, _, _, runMaterialization_yanked _ _ _ h, tombstone_publishable failure input, rfl⟩

theorem ready_iff : (∃ uploads, runMaterialization libraries input archive = .ok (.ready uploads)) ↔
    ∃ package, sourcePackage libraries archive input = .ok package := by
  cases h : sourcePackage libraries archive input with
  | ok package => simp [runMaterialization_ready _ _ _ h]
  | error failure => simp [runMaterialization_yanked _ _ _ h]

theorem yanked_iff : (∃ diagnostic uploads,
    runMaterialization libraries input archive = .ok (.yanked diagnostic uploads)) ↔
      ∃ failure, sourcePackage libraries archive input = .error failure := by
  cases h : sourcePackage libraries archive input with
  | ok package => simp [runMaterialization_ready _ _ _ h]
  | error failure => simp [runMaterialization_yanked _ _ _ h]

end Service
end JsrProxy
