import JsrProxy.ArchivedTrees
import JsrProxy.R2Publication

set_option autoImplicit false

/-!
# Artifact keys

A key of a published version goes into a URL and comes out unchanged. Of the
characters that an accepted path may have, only braces are percent-encoded, and
each segment is decoded on its own.
-/
namespace JsrProxy

open Text

namespace Service

theorem accepted_ascii {c : Char} (h : isAcceptedByte c = true) : c.toNat < 128 := by
  rw [isAcceptedByte, Bool.or_eq_true, decide_eq_true_eq] at h
  rcases h with h | h
  · exact isAlphanum_ascii h
  · have hall : "$()+-.@[]_{}~".toList.all (fun d => d.toNat < 128) = true := by decide
    exact of_decide_eq_true (List.all_eq_true.1 hall c h)

theorem accepted_table : ∀ n < 128, isAcceptedByte (Char.ofNat n) = true →
    (UrlPath.isPlain (Char.ofNat n) = true ∧ Char.ofNat n ≠ '%' ∧
      R2Publication.isLineTerminator (Char.ofNat n) = false) ∧
    (UrlPath.inPathSet (Char.ofNat n) = true ↔ Char.ofNat n = '{' ∨ Char.ofNat n = '}') := by
  decide +kernel

theorem accepted_plain {c : Char} (h : isAcceptedByte c = true) :
    UrlPath.isPlain c = true ∧ c ≠ '%' ∧ R2Publication.isLineTerminator c = false := by
  have hc := accepted_table c.toNat (accepted_ascii h)
  rw [Char.ofNat_toNat] at hc
  exact (hc h).1

/-- Of the accepted characters, URLs encode the braces. -/
theorem accepted_inPathSet {c : Char} (h : isAcceptedByte c = true) :
    UrlPath.inPathSet c = true ↔ c = '{' ∨ c = '}' := by
  have hc := accepted_table c.toNat (accepted_ascii h)
  rw [Char.ofNat_toNat] at hc
  exact (hc h).2

end Service

namespace R2Publication

structure KeySegment (segment : Str) : Prop where
  accepted : ∀ c ∈ segment, Service.isAcceptedByte c = true
  nonempty : segment ≠ []
  notDot : segment ≠ ".".toList
  notDots : segment ≠ "..".toList

theorem KeySegment.plainSegment {segment : Str} (h : KeySegment segment) :
    UrlPath.PlainSegment segment := by
  apply UrlPath.plainSegment _ h.notDot h.notDots
  intro c hc
  obtain ⟨hplain, hpercent, -⟩ := Service.accepted_plain (h.accepted c hc)
  exact ⟨hplain, hpercent⟩

theorem KeySegment.not_mem {segment : Str} (h : KeySegment segment) :
    '/' ∉ segment ∧ '\\' ∉ segment := by
  constructor <;> intro hmem
  · exact (UrlPath.isPlain_iff.1 (h.plainSegment.plain _ hmem)).2.1 rfl
  · exact (UrlPath.isPlain_iff.1 (h.plainSegment.plain _ hmem)).2.2.1 rfl

theorem KeySegment.decodeSegment {segment : Str} (h : KeySegment segment) :
    R2Publication.decodeSegment (UrlPath.percentEncode UrlPath.inPathSet segment) = some segment := by
  have hdecode : UrlPath.decodeURIComponent (UrlPath.percentEncode UrlPath.inPathSet segment)
      = some segment := by
    apply UrlPath.decodeURIComponent_percentEncode
    intro c hc he
    exact absurd he (Service.accepted_plain (h.accepted c hc)).2.1
  rw [R2Publication.decodeSegment, hdecode]
  simpa [h.nonempty] using And.intro (And.intro h.notDot h.notDots) h.not_mem.2

theorem keySegment_component {component : Str} (h : Service.isInvalidComponent component = false) :
    KeySegment component := by
  obtain ⟨hne, hdot, hdots⟩ := Service.accepted_component h
  refine ⟨?_, hne, hdot, hdots⟩
  simp only [Service.isInvalidComponent, Bool.or_eq_false_iff, Bool.not_eq_false', List.all_eq_true]
    at h
  exact h.1.2

theorem pathname_segments {segments : List Str} (hne : segments ≠ [])
    (h : ∀ s ∈ segments, KeySegment s) :
    UrlPath.pathname ('/' :: ['/'].intercalate segments)
        = '/' :: ['/'].intercalate (segments.map (UrlPath.percentEncode UrlPath.inPathSet)) ∧
      (UrlPath.pathname ('/' :: ['/'].intercalate segments)).splitOn '/'
        = [] :: segments.map (UrlPath.percentEncode UrlPath.inPathSet) := by
  have hpath : UrlPath.pathname ('/' :: ['/'].intercalate segments)
      = '/' :: ['/'].intercalate (segments.map (UrlPath.percentEncode UrlPath.inPathSet)) := by
    rw [← UrlPath.flatMap_slash hne, UrlPath.pathname_plain hne (fun s hs => (h s hs).plainSegment),
      ← UrlPath.flatMap_slash (by simpa using hne), List.flatMap_map]
  refine ⟨hpath, ?_⟩
  rw [hpath, Segments.splitOn_cons_self]
  congr 1
  apply List.splitOn_intercalate '/' _ (by simpa using hne)
  intro s hs
  obtain ⟨segment, hsegment, rfl⟩ := List.mem_map.1 hs
  exact UrlPath.slash_not_mem_percentEncode (h segment hsegment).not_mem.1

/-- The URL of a key whose segments survive leads back to the key. -/
theorem artifactKey_segments {segments : List Str} (h : ∀ s ∈ segments, KeySegment s)
    (hhead : segments.head? = some "synthetic".toList) (hlength : 4 ≤ segments.length)
    (hkey : isArtifactKey (['/'].intercalate segments) = true) :
    artifactKey (UrlPath.pathname ('/' :: ['/'].intercalate segments))
      = some (['/'].intercalate segments) := by
  have hne : segments ≠ [] := by
    rintro rfl
    cases hhead
  have hdecoded : (segments.map (UrlPath.percentEncode UrlPath.inPathSet)).mapM decodeSegment
      = some segments := by
    clear hhead hlength hkey hne
    induction segments with
    | nil => rfl
    | cons s rest ih =>
      rw [List.map_cons, List.mapM_cons, (h s List.mem_cons_self).decodeSegment,
        ih fun t ht => h t (List.mem_cons_of_mem _ ht)]
      rfl
  have hfirst : (segments.map (UrlPath.percentEncode UrlPath.inPathSet)).head?
      = some "synthetic".toList := by
    rw [List.head?_map, hhead]
    decide
  have hguard : ¬ (([] : Str) ≠ [] ∨ (segments.map (UrlPath.percentEncode UrlPath.inPathSet)).head?
      ≠ some "synthetic".toList ∨ (segments.map (UrlPath.percentEncode UrlPath.inPathSet)).length < 4) := by
    rw [hfirst, List.length_map]
    simp only [ne_eq, not_true_eq_false, false_or, not_lt]
    exact hlength
  rw [artifactKey, (pathname_segments hne h).2]
  simp only [if_neg hguard, hdecoded, hkey, if_true]

/-- A job for a package that a URL names, with a version that the allocator makes. -/
structure IsAllocated (job : Materializer.MaterializationJob) : Prop where
  scope : Identity.isScope job.package.scope = true
  name : Identity.isScope job.package.name = true
  version : ∃ major sequence : ℤ, 0 ≤ major ∧ 0 ≤ sequence ∧
    job.version = versionString major sequence

theorem takeVersion_versionString {major sequence : ℤ} (hmajor : 0 ≤ major) (hsequence : 0 ≤ sequence)
    {tail : Str} (htail : ∀ c, tail.head? = some c → c.isDigit = false) :
    Identity.takeVersion (versionString major sequence ++ tail)
      = some (versionString major sequence, tail) := by
  have hdot : ∀ rest : Str, ∀ c, ('.' :: rest).head? = some c → c.isDigit = false := by
    intro rest c hc
    obtain rfl := Option.some.inj hc
    rfl
  have hdigits : ∀ n : ℤ, 0 ≤ n → ∀ c ∈ decimal n, c.isDigit = true :=
    fun n hn c hc => isDigit_of_mem_decimal hn hc
  have hempty : ∀ n : ℤ, (decimal n).isEmpty = false :=
    fun n => List.isEmpty_eq_false_iff.2 (decimal_ne_nil n)
  have hform : ∀ tail, versionString major sequence ++ tail
      = decimal major ++ '.' :: (['1'] ++ '.' :: (decimal sequence ++ tail)) := by
    intro tail
    have hminor : ".1.".toList = ['.', '1', '.'] := rfl
    rw [versionString, hminor]
    simp
  obtain ⟨htake, hdrop⟩ := Segments.span_append (hdigits major hmajor)
    (hdot (['1'] ++ '.' :: (decimal sequence ++ tail)))
  have hminor : ∀ c ∈ ['1'], c.isDigit = true := by
    intro c hc
    rw [List.mem_singleton.1 hc]
    rfl
  obtain ⟨htakeMinor, hdropMinor⟩ := Segments.span_append hminor (hdot (decimal sequence ++ tail))
  obtain ⟨htakeLast, hdropLast⟩ := Segments.span_append (hdigits sequence hsequence) htail
  have hversion := hform []
  rw [List.append_nil, List.append_nil] at hversion
  rw [hform, hversion, Identity.takeVersion, htake, hdrop]
  simp only [htakeMinor, hdropMinor, htakeLast, hdropLast, hempty, List.isEmpty_cons, Bool.or_self,
    Bool.false_eq_true, if_false]
  simp

theorem packageKeyPrefix_append (job : Materializer.MaterializationJob) (tail : Str) :
    Publication.packageKeyPrefix job ++ tail = "synthetic/".toList ++
      (job.package.scope ++ '/' :: (job.package.name ++ '/' :: (job.version ++ tail))) := by
  have hassoc : ∀ front scope name version : Str,
      front ++ scope ++ '/' :: name ++ '/' :: version ++ tail
        = front ++ (scope ++ '/' :: (name ++ '/' :: (version ++ tail))) := by simp
  exact hassoc _ _ _ _

theorem isArtifactKey_tail {job : Materializer.MaterializationJob} (hjob : IsAllocated job)
    {tail : Str} (htail : ∀ c, tail.head? = some c → c.isDigit = false) :
    isArtifactKey (Publication.packageKeyPrefix job ++ tail) = isArtifactSuffix tail := by
  obtain ⟨major, sequence, hmajor, hsequence, hversion⟩ := hjob.version
  have hslash : ∀ c, ('/' :: (job.version ++ tail)).head? = some c → Identity.isNameChar c = false := by
    intro c hc
    obtain rfl := Option.some.inj hc
    exact Identity.isNameChar_slash
  have hlead : "synthetic/".toList.isPrefixOf ("synthetic/".toList ++
      (job.package.scope ++ '/' :: (job.package.name ++ '/' :: (job.version ++ tail)))) = true := by
    rw [List.isPrefixOf_iff_prefix]
    exact List.prefix_append _ _
  have hlength : "synthetic/".toList.length = 10 := rfl
  rw [packageKeyPrefix_append, isArtifactKey, if_pos hlead, ← hlength, List.drop_left,
    Identity.scopeAndName_append hjob.scope hjob.name hslash, hversion]
  simp only [takeVersion_versionString hmajor hsequence htail]

theorem accepted_of_isNameChar {c : Char} (h : Identity.isNameChar c = true) :
    Service.isAcceptedByte c = true := by
  rw [Identity.isNameChar, Identity.isLowerAlphanum, Bool.or_eq_true, Bool.or_eq_true,
    decide_eq_true_eq] at h
  rw [Service.isAcceptedByte, Bool.or_eq_true]
  rcases h with (h | h) | rfl
  · left
    rw [Char.isAlphanum, h, Bool.or_true]
  · left
    have hlower : c.isLower = true := by simpa [Char.isLower, Char.le_def] using h
    rw [Char.isAlphanum, Char.isAlpha, hlower, Bool.or_true, Bool.true_or]
  · right
    decide

theorem keySegment_scope {scope : Str} (h : Identity.isScope scope = true) : KeySegment scope := by
  obtain ⟨hne, hchars⟩ := Identity.isScope_chars h
  refine ⟨fun c hc => accepted_of_isNameChar (hchars c hc), hne, ?_, ?_⟩
  · rintro rfl
    cases h
  · rintro rfl
    cases h

theorem keySegment_version {job : Materializer.MaterializationJob} (hjob : IsAllocated job)
    {suffix : Str} (hsuffix : ∀ c ∈ suffix, Service.isAcceptedByte c = true) :
    KeySegment (job.version ++ suffix) := by
  obtain ⟨major, sequence, hmajor, hsequence, hversion⟩ := hjob.version
  have hdigit : ∀ c, c.isDigit = true → Service.isAcceptedByte c = true := by
    intro c hc
    rw [Service.isAcceptedByte, Char.isAlphanum, hc, Bool.or_true, Bool.true_or]
  obtain ⟨first, rest, hfirst⟩ := List.exists_cons_of_ne_nil (decimal_ne_nil major)
  have hfirstDigit : first.isDigit = true := by
    apply isDigit_of_mem_decimal hmajor
    rw [hfirst]
    exact List.mem_cons_self
  have hform : job.version ++ suffix = first :: (rest ++ ".1.".toList ++ decimal sequence ++ suffix) := by
    rw [hversion, versionString, hfirst]
    rfl
  have hdot : ∀ tail : Str, job.version ++ suffix ≠ '.' :: tail := by
    intro tail he
    rw [hform] at he
    obtain ⟨rfl, -⟩ := List.cons.inj he
    cases hfirstDigit
  refine ⟨?_, ?_, hdot [], hdot ['.']⟩
  · intro c hc
    rw [hversion, versionString] at hc
    simp only [List.mem_append] at hc
    rcases hc with ((hc | hc) | hc) | hc
    · exact hdigit c (isDigit_of_mem_decimal hmajor hc)
    · have hall : ".1.".toList.all Service.isAcceptedByte = true := by decide
      exact List.all_eq_true.1 hall c hc
    · exact hdigit c (isDigit_of_mem_decimal hsequence hc)
    · exact hsuffix c hc
  · rw [hform]
    exact List.cons_ne_nil _ _

def keySegments (job : Materializer.MaterializationJob) (suffix : Str) (parts : List Str) : List Str :=
  "synthetic".toList :: job.package.scope :: job.package.name :: (job.version ++ suffix) :: parts

theorem keySegments_ne_nil (job : Materializer.MaterializationJob) (suffix : Str) (parts : List Str) :
    keySegments job suffix parts ≠ [] := List.cons_ne_nil _ _

theorem intercalate_keySegments (job : Materializer.MaterializationJob) (suffix : Str)
    (parts : List Str) : ['/'].intercalate (keySegments job suffix parts)
      = Publication.packageKeyPrefix job ++ (suffix ++ parts.flatMap ('/' :: ·)) := by
  have hassoc : ∀ front scope name version : Str,
      '/' :: front ++ ('/' :: scope ++ ('/' :: name ++ ('/' :: (version ++ suffix)
        ++ parts.flatMap ('/' :: ·)))) = '/' :: (front ++ ['/'] ++ scope ++ '/' :: name
          ++ '/' :: version ++ (suffix ++ parts.flatMap ('/' :: ·))) := by simp
  have hslash := UrlPath.flatMap_slash (keySegments_ne_nil job suffix parts)
  simp only [keySegments, List.flatMap_cons] at hslash
  rw [hassoc] at hslash
  exact (List.cons.inj hslash).2.symm

theorem keySegment_of_mem {job : Materializer.MaterializationJob} (hjob : IsAllocated job)
    {suffix : Str} {parts : List Str} (hsuffix : ∀ c ∈ suffix, Service.isAcceptedByte c = true)
    (hparts : ∀ part ∈ parts, KeySegment part) : ∀ s ∈ keySegments job suffix parts, KeySegment s := by
  intro s hs
  simp only [keySegments, List.mem_cons] at hs
  rcases hs with rfl | rfl | rfl | rfl | hs
  · exact keySegment_scope (by decide)
  · exact keySegment_scope hjob.scope
  · exact keySegment_scope hjob.name
  · exact keySegment_version hjob hsuffix
  · exact hparts s hs

theorem artifactKey_keySegments {job : Materializer.MaterializationJob} (hjob : IsAllocated job)
    (suffix : Str) (parts : List Str) (hsuffix : ∀ c ∈ suffix, Service.isAcceptedByte c = true)
    (hparts : ∀ part ∈ parts, KeySegment part)
    (hdigit : ∀ c, (suffix ++ parts.flatMap ('/' :: ·)).head? = some c → c.isDigit = false)
    (hend : isArtifactSuffix (suffix ++ parts.flatMap ('/' :: ·)) = true) :
    artifactKey (UrlPath.pathname ('/' :: ['/'].intercalate (keySegments job suffix parts)))
      = some (['/'].intercalate (keySegments job suffix parts)) := by
  apply artifactKey_segments (keySegment_of_mem hjob hsuffix hparts) rfl
  · simp [keySegments]
  · rw [intercalate_keySegments, isArtifactKey_tail hjob hdigit, hend]

theorem artifactKey_metadataKey {job : Materializer.MaterializationJob} (hjob : IsAllocated job) :
    artifactKey (UrlPath.pathname ('/' :: Publication.metadataKey job))
      = some (Publication.metadataKey job) := by
  have hkey := artifactKey_keySegments hjob "_meta.json".toList []
    (List.all_eq_true.1 (by decide)) (by simp) (by simp) (by decide)
  rw [intercalate_keySegments, List.flatMap_nil, List.append_nil] at hkey
  exact hkey

theorem artifactKey_readyMarkerKey {job : Materializer.MaterializationJob} (hjob : IsAllocated job) :
    artifactKey (UrlPath.pathname ('/' :: Publication.readyMarkerKey job))
      = some (Publication.readyMarkerKey job) := by
  have hkey := artifactKey_keySegments hjob ".ready.json".toList []
    (List.all_eq_true.1 (by decide)) (by simp) (by simp) (by decide)
  rw [intercalate_keySegments, List.flatMap_nil, List.append_nil] at hkey
  exact hkey

theorem flatMap_splitOn (path : Str) : (path.splitOn '/').flatMap ('/' :: ·) = '/' :: path := by
  rw [UrlPath.flatMap_slash (List.splitOn_ne_nil _ _), List.intercalate_splitOn]

theorem artifactKey_fileKey {job : Materializer.MaterializationJob} (hjob : IsAllocated job)
    {path : Str} (hpath : Service.validatePackagePath path = .ok ()) :
    artifactKey (UrlPath.pathname ('/' :: Publication.fileKey job path))
      = some (Publication.fileKey job path) := by
  have hkey := artifactKey_keySegments hjob [] (path.splitOn '/')
    (by simp) (fun part hpart => keySegment_component (Service.accepted_splitOn hpath part hpart))
  rw [List.nil_append, flatMap_splitOn, intercalate_keySegments, List.nil_append,
    flatMap_splitOn] at hkey
  apply hkey
  · intro c hc
    obtain rfl := Option.some.inj hc
    rfl
  · change (path.all fun c => !isLineTerminator c) = true
    rw [List.all_eq_true]
    intro c hc
    rcases Service.accepted_mem hpath hc with rfl | hc
    · decide
    · rw [(Service.accepted_plain hc).2.2]
      rfl

theorem packageKeyPrefix_chars {job : Materializer.MaterializationJob} (hjob : IsAllocated job) {c : Char}
    (hc : c ∈ Publication.packageKeyPrefix job) : c = '/' ∨ Service.isAcceptedByte c = true := by
  have hkey := intercalate_keySegments job [] []
  rw [List.nil_append, List.flatMap_nil, List.append_nil] at hkey
  have hmem : c ∈ (keySegments job [] []).flatMap ('/' :: ·) := by
    rw [UrlPath.flatMap_slash (keySegments_ne_nil job [] []), hkey]
    exact List.mem_cons_of_mem _ hc
  obtain ⟨s, hs, hcs⟩ := List.mem_flatMap.1 hmem
  have hsegment := keySegment_of_mem hjob (fun _ h => absurd h List.not_mem_nil)
    (fun _ h => absurd h List.not_mem_nil) s hs
  rcases List.mem_cons.1 hcs with rfl | hcs
  · exact .inl rfl
  · exact .inr (hsegment.accepted c hcs)

def filePath (identity : PackageName) (version path : Str) : Str :=
  '/' :: '@' :: (identity.scope ++ '/' :: (identity.name ++ '/' :: (version ++ '/' :: path)))

theorem encode_accepted {text : Str} (h : ∀ c ∈ text, c = '/' ∨ Service.isAcceptedByte c = true)
    (hopen : '{' ∉ text) (hclose : '}' ∉ text) :
    UrlPath.percentEncode UrlPath.inPathSet text = text := by
  apply UrlPath.percentEncode_eq_self
  intro c hc
  rcases h c hc with rfl | haccepted
  · decide
  · rw [Bool.eq_false_iff]
    intro hset
    rcases (Service.accepted_inPathSet haccepted).1 hset with rfl | rfl
    · exact hopen hc
    · exact hclose hc

structure UrlSegment (segment : Str) : Prop where
  key : KeySegment segment
  unbraced : ∀ c ∈ segment, c ≠ '{' ∧ c ≠ '}'

theorem UrlSegment.encode {segment : Str} (h : UrlSegment segment) :
    UrlPath.percentEncode UrlPath.inPathSet segment = segment :=
  encode_accepted (fun c hc => .inr (h.key.accepted c hc)) (fun hc => (h.unbraced _ hc).1 rfl)
    fun hc => (h.unbraced _ hc).2 rfl

theorem urlSegment_scope {scope : Str} (h : Identity.isScope scope = true) : UrlSegment scope := by
  refine ⟨keySegment_scope h, ?_⟩
  intro c hc
  have hchar := (Identity.isScope_chars h).2 c hc
  constructor <;> rintro rfl <;> exact absurd hchar (by decide)

theorem urlSegment_version {job : Materializer.MaterializationJob} (hjob : IsAllocated job) :
    UrlSegment job.version := by
  have hsegment := keySegment_version hjob (fun c (h : c ∈ []) => absurd h List.not_mem_nil)
  rw [List.append_nil] at hsegment
  refine ⟨hsegment, ?_⟩
  intro c hc
  obtain ⟨major, sequence, hmajor, hsequence, hversion⟩ := hjob.version
  have hdigit : ∀ {n : ℤ}, 0 ≤ n → c ∈ decimal n → c ≠ '{' ∧ c ≠ '}' := by
    intro n hn hc
    have hdigit := isDigit_of_mem_decimal hn hc
    constructor <;> rintro rfl <;> exact absurd hdigit (by decide)
  rw [hversion, versionString] at hc
  simp only [List.mem_append] at hc
  rcases hc with (hc | hc) | hc
  · exact hdigit hmajor hc
  · constructor <;> rintro rfl <;> exact absurd hc (by decide)
  · exact hdigit hsequence hc

theorem urlSegment_at {scope : Str} (h : UrlSegment scope) : UrlSegment ('@' :: scope) := by
  refine ⟨⟨?_, List.cons_ne_nil _ _, ?_, ?_⟩, ?_⟩
  · intro c hc
    rcases List.mem_cons.1 hc with rfl | hc
    · decide
    · exact h.key.accepted c hc
  · intro he
    exact absurd (List.cons.inj he).1 (by decide)
  · intro he
    exact absurd (List.cons.inj he).1 (by decide)
  · intro c hc
    rcases List.mem_cons.1 hc with rfl | hc
    · decide
    · exact h.unbraced c hc

/-- The parsed path keeps its segments, with the braces of the file's path encoded. -/
theorem pathname_filePath {identity : PackageName} {version path : Str}
    (hscope : UrlSegment identity.scope) (hname : UrlSegment identity.name)
    (hversion : UrlSegment version) (hpath : Service.validatePackagePath path = .ok ()) :
    UrlPath.pathname (filePath identity version path)
        = filePath identity version (UrlPath.percentEncode UrlPath.inPathSet path) ∧
      (UrlPath.pathname (filePath identity version path)).splitOn '/'
        = [] :: ('@' :: identity.scope) :: identity.name :: version ::
          (path.splitOn '/').map (UrlPath.percentEncode UrlPath.inPathSet) := by
  have hat := urlSegment_at hscope
  have hsegments : ∀ s ∈ ('@' :: identity.scope) :: identity.name :: version :: path.splitOn '/',
      KeySegment s := by
    intro s hs
    simp only [List.mem_cons] at hs
    rcases hs with rfl | rfl | rfl | hs
    · exact hat.key
    · exact hname.key
    · exact hversion.key
    · exact keySegment_component (Service.accepted_splitOn hpath s hs)
  have hjoin : ∀ parts : List Str, parts ≠ [] →
      '/' :: ['/'].intercalate (('@' :: identity.scope) :: identity.name :: version :: parts)
        = filePath identity version (['/'].intercalate parts) := by
    intro parts hne
    rw [← UrlPath.flatMap_slash (List.cons_ne_nil _ _)]
    simp only [List.flatMap_cons]
    rw [UrlPath.flatMap_slash hne]
    simp only [filePath, List.cons_append]
  obtain ⟨hparsed, hsplit⟩ := pathname_segments (List.cons_ne_nil _ _) hsegments
  rw [hjoin _ (List.splitOn_ne_nil _ _), List.intercalate_splitOn] at hparsed hsplit
  rw [List.map_cons, List.map_cons, List.map_cons, hat.encode, hname.encode, hversion.encode]
    at hparsed hsplit
  refine ⟨?_, hsplit⟩
  rw [hparsed, hjoin _ (by simp), ← UrlPath.percentEncode_intercalate (by decide),
    List.intercalate_splitOn]

end R2Publication
end JsrProxy
