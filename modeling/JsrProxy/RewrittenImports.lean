import JsrProxy.ArtifactKeys
import JsrProxy.ImportRewriting
import JsrProxy.RelativeUrls

set_option autoImplicit false

/-!
# Rewritten imports

Where a rewritten specifier leads. A relative specifier below the directory of its
source gets no `./` if it starts with two dots, even if these start a longer name.
-/
namespace JsrProxy
namespace ImportRewriting
open Service UrlPath

def directoryOf (path : Str) : List Str := (path.splitOn '/').dropLast

def IsPackagePath (path : Str) : Prop :=
  ∀ part ∈ path.splitOn '/', part = [] ∨ isInvalidComponent part = false

/-- As a relative reference, the specifier leads where the target does from the root. -/
def Resolves (path specifier target : Str) : Prop :=
  ("./".toList <+: specifier ∨ "../".toList <+: specifier) ∧
    resolve (filePath path) specifier = resolve (filePath []) target

theorem shared_spec (source target : List Str) :
    source.take (shared source target) = target.take (shared source target) ∧
      shared source target ≤ source.length ∧
      (shared source target < source.length ↔ ¬ source <+: target) := by
  induction source generalizing target with
  | nil => simp [shared]
  | cons left source ih =>
    cases target with
    | nil => simp [shared]
    | cons right target =>
      obtain ⟨htake, hle, hlt⟩ := ih target
      rw [shared]
      split_ifs with he
      · subst he
        refine ⟨?_, ?_, ?_⟩
        · rw [List.take_succ_cons, List.take_succ_cons, htake]
        · exact Nat.succ_le_succ hle
        · rw [List.length_cons, Nat.succ_lt_succ_iff, hlt, List.cons_prefix_cons]
          simp
      · refine ⟨rfl, Nat.zero_le _, ?_⟩
        rw [List.cons_prefix_cons]
        simp [he]

theorem plainSegment_part {part : Str} (h : part = [] ∨ isInvalidComponent part = false) :
    PlainSegment part := by
  rcases h with rfl | h
  · exact plainSegment_nil
  · exact (R2Publication.keySegment_component h).plainSegment

theorem prefix_of_joined {lead first : Str} {rest : List Str} (hlead : '/' ∉ lead)
    (h : lead <+: ['/'].intercalate (first :: rest)) : lead <+: first := by
  cases rest with
  | nil => rwa [List.intercalate_singleton] at h
  | cons next rest =>
    rw [List.intercalate_cons_of_ne_nil (List.cons_ne_nil _ _)] at h
    rcases List.prefix_or_prefix_of_prefix h (List.prefix_append _ _) with hshort | hlong
    · rcases List.prefix_concat_iff.1 hshort with heq | hfirst
      · rw [heq] at hlead
        exact absurd (List.mem_append_right _ (List.mem_singleton_self _)) hlead
      · exact hfirst
    · exact absurd (hlong.subset (List.mem_append_right _ (List.mem_singleton_self _))) hlead

theorem filePath_directory {path : Str} (h : validatePackagePath path = .ok ()) :
    (filePath path).dropLast = (directoryOf path).map (percentEncode inPathSet) := by
  have hplain : ∀ s ∈ path.splitOn '/', PlainSegment s := fun s hs =>
    plainSegment_part (.inr (accepted_splitOn h s hs))
  have hpath := filePath_plain (List.splitOn_ne_nil '/' path) hplain
  rw [List.intercalate_splitOn] at hpath
  rw [hpath, directoryOf, List.map_dropLast]

theorem resolve_root {file : Str} (h : IsPackagePath file) :
    resolve (filePath []) ("./".toList ++ file) = (file.splitOn '/').map (percentEncode inPathSet) := by
  have hjoin : "./".toList ++ file = ['/'].intercalate (".".toList :: file.splitOn '/') := by
    rw [List.intercalate_cons_of_ne_nil (List.splitOn_ne_nil '/' file), List.intercalate_splitOn]
    rfl
  have hroot : (filePath []).dropLast = [] := by decide
  rw [hjoin, resolve_dot _ (List.splitOn_ne_nil '/' file) fun s hs => plainSegment_part (h s hs), hroot,
    List.nil_append]

theorem not_relative_dots {first : Str} {rest : List Str} (hfree : '/' ∉ first)
    (hdots : "..".toList <+: first) (hne : first ≠ "..".toList) :
    ¬ ("./".toList <+: ['/'].intercalate (first :: rest) ∨
      "../".toList <+: ['/'].intercalate (first :: rest)) := by
  obtain ⟨more, rfl⟩ := hdots
  cases more with
  | nil => exact absurd rfl hne
  | cons c more =>
    have hc : c ≠ '/' := by
      rintro rfl
      exact hfree (by simp)
    have hjoin : ∃ tail, ['/'].intercalate (("..".toList ++ c :: more) :: rest) = '.' :: '.' :: c :: tail := by
      cases rest with
      | nil => exact ⟨more, by rw [List.intercalate_singleton]; rfl⟩
      | cons next rest =>
        exact ⟨_, by rw [List.intercalate_cons_of_ne_nil (List.cons_ne_nil _ _)]; rfl⟩
    obtain ⟨tail, hjoin⟩ := hjoin
    rw [hjoin]
    simp [List.cons_prefix_cons, hc.symm]

/-- The specifier of a file below the directory of its source. -/
theorem relativeSpecifier_below {path file first : Str} {rest : List Str}
    (h : file.splitOn '/' = directoryOf path ++ first :: rest) : relativeSpecifier path file =
      if "..".toList <+: first then ['/'].intercalate (first :: rest)
      else ['/'].intercalate (".".toList :: first :: rest) := by
  obtain ⟨-, hle, hlt⟩ := shared_spec (directoryOf path) (file.splitOn '/')
  have hall : shared (directoryOf path) (file.splitOn '/') = (directoryOf path).length := by
    have hnot : ¬ shared (directoryOf path) (file.splitOn '/') < (directoryOf path).length :=
      fun hless => hlt.1 hless ⟨_, h.symm⟩
    omega
  have hdots : "..".toList.isPrefixOf (['/'].intercalate (first :: rest)) = true ↔
      "..".toList <+: first := by
    rw [List.isPrefixOf_iff_prefix]
    constructor
    · exact prefix_of_joined (by decide)
    · intro hfirst
      cases rest with
      | nil => rwa [List.intercalate_singleton]
      | cons next rest =>
        rw [List.intercalate_cons_of_ne_nil (List.cons_ne_nil _ _), List.append_assoc]
        exact hfirst.trans (List.prefix_append _ _)
  have hjoin : "./".toList ++ ['/'].intercalate (first :: rest) =
      ['/'].intercalate (".".toList :: first :: rest) := by
    rw [List.intercalate_cons_of_ne_nil (List.cons_ne_nil first rest)]
    rfl
  unfold relativeSpecifier
  dsimp only
  rw [show (path.splitOn '/').dropLast = directoryOf path from rfl, hall, Nat.sub_self,
    List.replicate_zero, List.nil_append, h, List.drop_left, hjoin]
  simp only [hdots]

/-- The specifier of a file elsewhere goes up to the directory that both share. -/
theorem relativeSpecifier_elsewhere {path file : Str} (h : ¬ directoryOf path <+: file.splitOn '/') :
    ∃ common count, (directoryOf path).length = common + (count + 1) ∧
      (directoryOf path).take common = (file.splitOn '/').take common ∧
      relativeSpecifier path file = ['/'].intercalate
        (List.replicate (count + 1) "..".toList ++ (file.splitOn '/').drop common) := by
  obtain ⟨htake, -, hlt⟩ := shared_spec (directoryOf path) (file.splitOn '/')
  have hless := hlt.2 h
  obtain ⟨count, hcount⟩ : ∃ count, (directoryOf path).length -
      shared (directoryOf path) (file.splitOn '/') = count + 1 :=
    ⟨(directoryOf path).length - shared (directoryOf path) (file.splitOn '/') - 1, by omega⟩
  refine ⟨_, count, by omega, htake, ?_⟩
  unfold relativeSpecifier
  dsimp only
  rw [show (path.splitOn '/').dropLast = directoryOf path from rfl, hcount]
  apply if_pos
  rw [List.isPrefixOf_iff_prefix, List.replicate_succ, List.cons_append]
  cases hrest : List.replicate count "..".toList ++ (file.splitOn '/').drop
      (shared (directoryOf path) (file.splitOn '/')) with
  | nil =>
    rw [List.intercalate_singleton]
  | cons next rest =>
    rw [List.intercalate_cons_of_ne_nil (List.cons_ne_nil _ _), List.append_assoc]
    exact List.prefix_append _ _

/-- The specifier of a file that is no directory above its source. -/
theorem relativeSpecifier_resolves_iff {path file : Str} (hpath : validatePackagePath path = .ok ())
    (hfile : IsPackagePath file) (hdirectory : ¬ file.splitOn '/' <+: directoryOf path) :
    Resolves path (relativeSpecifier path file) ("./".toList ++ file) ↔
      ∀ component rest, file.splitOn '/' = directoryOf path ++ component :: rest →
        ¬ "..".toList <+: component := by
  have hplain : ∀ s ∈ file.splitOn '/', PlainSegment s := fun s hs => plainSegment_part (hfile s hs)
  unfold Resolves
  rw [resolve_root hfile]
  by_cases hbelow : directoryOf path <+: file.splitOn '/'
  · obtain ⟨below, hsplit⟩ := hbelow
    cases below with
    | nil =>
      rw [List.append_nil] at hsplit
      exact absurd (by rw [hsplit]) hdirectory
    | cons first rest =>
      rw [relativeSpecifier_below hsplit.symm]
      have hmem : first ∈ file.splitOn '/' := by
        rw [← hsplit]
        exact List.mem_append_right _ List.mem_cons_self
      split_ifs with hdots
      · have hne : first ≠ "..".toList := by
          rcases hfile first hmem with rfl | hvalid
          · decide
          · exact (accepted_component hvalid).2.2
        apply iff_of_false
        · intro h
          exact not_relative_dots (Segments.not_mem_of_mem_splitOn hmem) hdots hne h.1
        · intro h
          exact h first rest hsplit.symm hdots
      · have hrest : ∀ s ∈ first :: rest, PlainSegment s := by
          intro s hs
          apply hplain
          rw [← hsplit]
          exact List.mem_append_right _ hs
        apply iff_of_true
        · refine ⟨.inl ?_, ?_⟩
          · rw [List.intercalate_cons_of_ne_nil (List.cons_ne_nil first rest)]
            exact List.prefix_append _ _
          · rw [resolve_dot _ (List.cons_ne_nil _ _) hrest, filePath_directory hpath,
              ← List.map_append, hsplit]
        · intro component rest' hother
          rw [← hsplit] at hother
          rw [← (List.cons.inj (List.append_cancel_left hother)).1]
          exact hdots
  · obtain ⟨common, count, hlength, htake, heq⟩ := relativeSpecifier_elsewhere hbelow
    have hrest : (file.splitOn '/').drop common ≠ [] := by
      intro hnil
      apply hdirectory
      rw [← List.take_append_drop common (file.splitOn '/'), hnil, List.append_nil, ← htake]
      exact List.take_prefix _ _
    rw [heq]
    apply iff_of_true
    · refine ⟨.inr ?_, ?_⟩
      · have hne : List.replicate count "..".toList ++ (file.splitOn '/').drop common ≠ [] := by
          simp [hrest]
        rw [List.replicate_succ, List.cons_append, List.intercalate_cons_of_ne_nil hne]
        exact List.prefix_append _ _
      · have hback : (directoryOf path).length - (count + 1) = common := by omega
        rw [resolve_ups _ _ hrest fun s hs => hplain s (List.mem_of_mem_drop hs),
          filePath_directory hpath, List.length_map, hback, ← List.map_take, htake, ← List.map_append,
          List.take_append_drop]
    · intro component rest hother
      exact absurd ⟨_, hother.symm⟩ hbelow

def IsAlias (name specifier remainder : Str) : Prop :=
  specifier = name ++ remainder ∧ (remainder = [] ∨ name.getLast? = some '/')

def IsLocal (name target : Str) : Prop :=
  ∃ file, target = "./".toList ++ file ∧ IsPackagePath file ∧
    (name.getLast? = some '/' → file = [] ∨ file.getLast? = some '/')

def IsAbsolute (target : Str) : Prop :=
  ∃ letter scheme rest, target = letter :: scheme ++ ':' :: rest ∧ letter.isAlpha = true ∧
    ∀ c ∈ scheme, c.isAlphanum = true ∨ c ∈ "+-.".toList

/-- The alias that is the specifier itself, or the longest that starts it. -/
structure Chosen (imports : BTreeMap Str) (specifier name target remainder : Str) : Prop where
  listed : imports[name]? = some target
  isAlias : IsAlias name specifier remainder
  exact : specifier ∈ imports → name = specifier
  longest : ∀ other ∈ imports, ∀ rest, IsAlias other specifier rest → other.length ≤ name.length

theorem stripLeading_eq_some {lead text rest : Str} :
    stripLeading lead text = some rest ↔ text = lead ++ rest := by
  unfold stripLeading
  split_ifs with h
  · obtain ⟨tail, rfl⟩ := List.isPrefixOf_iff_prefix.1 h
    rw [List.drop_left, Option.some.injEq, List.append_cancel_left_eq]
  · constructor
    · intro hnone
      cases hnone
    · rintro rfl
      exact absurd (List.isPrefixOf_iff_prefix.2 (List.prefix_append _ _)) h

theorem aliasSuffix_eq_some {name specifier remainder : Str} :
    aliasSuffix name specifier = some remainder ↔ IsAlias name specifier remainder := by
  unfold aliasSuffix IsAlias
  split_ifs with hslash heq
  · rw [stripLeading_eq_some]
    simp [hslash]
  · subst heq
    rw [Option.some.injEq]
    constructor
    · rintro rfl
      exact ⟨(List.append_nil _).symm, .inl rfl⟩
    · rintro ⟨h, -⟩
      exact (List.append_right_eq_self.1 h.symm).symm
  · constructor
    · intro h
      cases h
    · rintro ⟨h, hempty | h'⟩
      · rw [hempty, List.append_nil] at h
        exact absurd h heq
      · exact absurd h' hslash

theorem mem_candidates {imports : BTreeMap Str} {specifier : Str} {candidate : ℕ × Str × Str} :
    candidate ∈ candidates imports specifier ↔ ∃ name, imports[name]? = some candidate.2.1 ∧
      IsAlias name specifier candidate.2.2 ∧ candidate.1 = byteLength name := by
  rw [candidates, List.mem_filterMap]
  constructor
  · rintro ⟨⟨name, target⟩, hentry, h⟩
    obtain ⟨suffix, hsuffix, rfl⟩ := Option.map_eq_some_iff.1 h
    exact ⟨name, Std.ExtTreeMap.mem_toList_iff_getElem?_eq_some.1 hentry,
      aliasSuffix_eq_some.1 hsuffix, rfl⟩
  · rintro ⟨name, hentry, halias, hlength⟩
    refine ⟨(name, candidate.2.1), Std.ExtTreeMap.mem_toList_iff_getElem?_eq_some.2 hentry, ?_⟩
    rw [Option.map_eq_some_iff]
    refine ⟨candidate.2.2, aliasSuffix_eq_some.2 halias, ?_⟩
    rw [← hlength]

theorem longest_eq_none {entries : List (ℕ × Str × Str)} : longest entries = none ↔ entries = [] := by
  cases entries with
  | nil => simp [longest]
  | cons entry rest =>
    unfold longest
    cases longest rest with
    | none => simp
    | some best => by_cases hless : best.1 < entry.1 <;> simp [hless]

theorem longest_eq_some {entries : List (ℕ × Str × Str)} {best : ℕ × Str × Str}
    (h : longest entries = some best) : best ∈ entries ∧ ∀ entry ∈ entries, entry.1 ≤ best.1 := by
  induction entries generalizing best with
  | nil => cases h
  | cons entry rest ih =>
    unfold longest at h
    cases hrest : longest rest with
    | none =>
      rw [longest_eq_none] at hrest
      subst hrest
      rw [← Option.some.inj h]
      simp
    | some other =>
      obtain ⟨hmem, hmax⟩ := ih hrest
      rw [hrest] at h
      dsimp only at h
      split_ifs at h with hless
      · rw [← Option.some.inj h]
        refine ⟨List.mem_cons_self, ?_⟩
        intro candidate hcandidate
        rcases List.mem_cons.1 hcandidate with rfl | hcandidate
        · exact le_refl _
        · exact le_trans (hmax candidate hcandidate) (Nat.le_of_lt hless)
      · rw [← Option.some.inj h]
        refine ⟨List.mem_cons_of_mem _ hmem, ?_⟩
        intro candidate hcandidate
        rcases List.mem_cons.1 hcandidate with rfl | hcandidate
        · exact Nat.le_of_not_lt hless
        · exact hmax candidate hcandidate

theorem byteLength_append (s t : Str) : byteLength (s ++ t) = byteLength s + byteLength t := by
  rw [byteLength, byteLength, byteLength, Utf8.encode_append, List.length_append]

theorem eq_nil_of_byteLength {text : Str} (h : byteLength text = 0) : text = [] := by
  have hempty := List.eq_nil_of_length_eq_zero h
  exact Utf8.encode_inj (hempty.trans Utf8.encode_nil.symm)

theorem length_le_of_byteLength {text name other rest rest' : Str} (h : text = name ++ rest)
    (h' : text = other ++ rest') (hle : byteLength other ≤ byteLength name) :
    other.length ≤ name.length := by
  have hname : name <+: text := ⟨rest, h.symm⟩
  have hother : other <+: text := ⟨rest', h'.symm⟩
  rcases List.prefix_or_prefix_of_prefix hname hother with ⟨more, rfl⟩ | hshort
  · rw [byteLength_append] at hle
    have hempty : more = [] := eq_nil_of_byteLength (by omega)
    rw [hempty, List.append_nil]
  · exact hshort.length_le

/-- The rewriting goes by the exact alias if there is one, else by the longest. -/
theorem rewrite_chosen (path : Str) {imports : BTreeMap Str} {specifier : Str}
    (h : ∃ name ∈ imports, ∃ remainder, IsAlias name specifier remainder) :
    ∃ name target remainder, Chosen imports specifier name target remainder ∧
      (∀ file, target = "./".toList ++ file →
        rewrite path imports specifier = relativeSpecifier path (file ++ remainder)) ∧
      (¬ "./".toList <+: target → rewrite path imports specifier = target ++ remainder) := by
  have hcandidate : ∀ name ∈ imports, ∀ remainder, IsAlias name specifier remainder →
      ∃ target, (byteLength name, target, remainder) ∈ candidates imports specifier := by
    intro name hname remainder halias
    obtain ⟨target, htarget⟩ := Option.isSome_iff_exists.1
      (Std.ExtTreeMap.isSome_getElem?_iff_mem.2 hname)
    exact ⟨target, mem_candidates.2 ⟨name, htarget, halias, rfl⟩⟩
  cases hbest : longest (candidates imports specifier) with
  | none =>
    obtain ⟨name, hname, remainder, halias⟩ := h
    obtain ⟨target, hmem⟩ := hcandidate name hname remainder halias
    rw [longest_eq_none.1 hbest] at hmem
    cases hmem
  | some best =>
    obtain ⟨hmem, hmax⟩ := longest_eq_some hbest
    obtain ⟨length, target, remainder⟩ := best
    obtain ⟨name, hlisted, halias, hlength⟩ := mem_candidates.1 hmem
    have hlongest : ∀ other ∈ imports, ∀ rest, IsAlias other specifier rest →
        other.length ≤ name.length := by
      intro other hother rest hrest
      obtain ⟨target', hmem'⟩ := hcandidate other hother rest hrest
      apply length_le_of_byteLength halias.1 hrest.1
      rw [← hlength]
      exact hmax _ hmem'
    refine ⟨name, target, remainder, ⟨hlisted, halias, ?_, hlongest⟩, ?_, ?_⟩
    · intro hexact
      have hself : IsAlias specifier specifier [] := ⟨(List.append_nil _).symm, .inl rfl⟩
      have hle := hlongest specifier hexact [] hself
      have hprefix : name <+: specifier := ⟨remainder, halias.1.symm⟩
      exact hprefix.eq_of_length_le hle
    · intro file hfile
      simp only [rewrite, hbest, stripLeading_eq_some.2 hfile]
    · intro hfile
      cases hstrip : stripLeading "./".toList target with
      | some file => exact absurd ⟨file, (stripLeading_eq_some.1 hstrip).symm⟩ hfile
      | none => simp only [rewrite, hbest, hstrip]

theorem rewrite_unmatched (path : Str) {imports : BTreeMap Str} {specifier : Str}
    (h : ¬ ∃ name ∈ imports, ∃ remainder, IsAlias name specifier remainder) :
    rewrite path imports specifier = specifier := by
  cases hbest : longest (candidates imports specifier) with
  | none => simp only [rewrite, hbest]
  | some best =>
    obtain ⟨name, hlisted, halias, -⟩ := mem_candidates.1 (longest_eq_some hbest).1
    exact absurd ⟨name, Std.ExtTreeMap.isSome_getElem?_iff_mem.1 (by rw [hlisted]; rfl), _, halias⟩ h

theorem isPackagePath_nil : IsPackagePath [] := by
  intro part hpart
  rw [List.splitOn_nil, List.mem_singleton] at hpart
  exact .inl hpart

theorem isPackagePath_below {front back : Str} :
    IsPackagePath (front ++ '/' :: back) ↔ IsPackagePath front ∧ IsPackagePath back := by
  unfold IsPackagePath
  rw [List.splitOn_append_cons_self]
  simp only [List.mem_append, or_imp, forall_and]

theorem slash_last {text : Str} (h : text.getLast? = some '/') : ∃ front, text = front ++ ['/'] :=
  List.getLast?_eq_some_iff.1 h

theorem Chosen.remainder {imports : BTreeMap Str} {specifier name target remainder other rest : Str}
    (h : Chosen imports specifier name target remainder) (hother : other ∈ imports)
    (halias : IsAlias other specifier rest) (hrest : IsPackagePath rest) : IsPackagePath remainder := by
  rcases h.isAlias.2 with rfl | hslash
  · exact isPackagePath_nil
  · have hle := h.longest other hother rest halias
    have hprefix : other <+: name := List.prefix_of_prefix_length_le ⟨rest, halias.1.symm⟩
      ⟨remainder, h.isAlias.1.symm⟩ hle
    obtain ⟨more, hmore⟩ := hprefix
    have hsame : rest = more ++ remainder := by
      apply @List.append_cancel_left _ other
      rw [← halias.1, ← List.append_assoc, hmore, h.isAlias.1]
    rcases List.eq_nil_or_concat' more with rfl | ⟨front, c, rfl⟩
    · rwa [hsame, List.nil_append] at hrest
    · have hc : c = '/' := by
        rw [← hmore, ← List.append_assoc, List.getLast?_concat] at hslash
        exact Option.some.inj hslash
      rw [hsame, hc, List.append_assoc, List.singleton_append] at hrest
      exact (isPackagePath_below.1 hrest).2

theorem IsLocal.file {name target remainder specifier : Str} (h : IsLocal name target)
    (halias : IsAlias name specifier remainder) (hremainder : IsPackagePath remainder) :
    ∃ file, target = "./".toList ++ file ∧ IsPackagePath (file ++ remainder) := by
  obtain ⟨file, htarget, hfile, hdirectory⟩ := h
  refine ⟨file, htarget, ?_⟩
  rcases halias.2 with rfl | hslash
  · rwa [List.append_nil]
  · rcases hdirectory hslash with rfl | hend
    · exact hremainder
    · obtain ⟨front, rfl⟩ := slash_last hend
      rw [List.append_assoc, List.singleton_append, isPackagePath_below]
      exact ⟨(isPackagePath_below.1 hfile).1, hremainder⟩

theorem IsAbsolute.not_relative {target : Str} (h : IsAbsolute target) (remainder : Str) :
    ¬ "./".toList <+: target ++ remainder := by
  obtain ⟨letter, scheme, rest, rfl, hletter, -⟩ := h
  rintro ⟨tail, htail⟩
  have hdot : '.' = letter := (List.cons.inj htail).1
  rw [← hdot] at hletter
  exact absurd hletter (by decide)

/-- Rewriting keeps the meaning of an import map, but for a local target below the
    directory of the source of which the next component starts with two dots. -/
theorem rewrite_resolves_iff (path : Str) (imports : BTreeMap Str) (specifier : Str)
    (hpath : validatePackagePath path = .ok ())
    (himports : ∀ name target : Str, imports[name]? = some target → IsLocal name target ∨ IsAbsolute target) :
    ((¬ ∃ name ∈ imports, ∃ remainder, IsAlias name specifier remainder) →
      rewrite path imports specifier = specifier) ∧
    ((∃ name ∈ imports, ∃ remainder, IsAlias name specifier remainder ∧ IsPackagePath remainder) →
      ∃ name target remainder, Chosen imports specifier name target remainder ∧
        (IsAbsolute target → rewrite path imports specifier = target ++ remainder) ∧
        ∀ file, target ++ remainder = "./".toList ++ file → ¬ file.splitOn '/' <+: directoryOf path →
          (Resolves path (rewrite path imports specifier) (target ++ remainder) ↔
            ∀ component rest, file.splitOn '/' = directoryOf path ++ component :: rest →
              ¬ "..".toList <+: component)) := by
  refine ⟨rewrite_unmatched path, ?_⟩
  rintro ⟨other, hother, rest, halias, hrest⟩
  obtain ⟨name, target, remainder, hchosen, hlocal, habsolute⟩ :=
    rewrite_chosen path ⟨other, hother, rest, halias⟩
  refine ⟨name, target, remainder, hchosen, ?_, ?_⟩
  · intro h
    apply habsolute
    have hnot := h.not_relative []
    rwa [List.append_nil] at hnot
  · intro file hfile hdirectory
    rcases himports name target hchosen.listed with h | h
    · obtain ⟨front, htarget, hpackage⟩ := h.file hchosen.isAlias (hchosen.remainder hother halias hrest)
      have heq : file = front ++ remainder := by
        rw [htarget, List.append_assoc] at hfile
        exact (List.append_cancel_left hfile).symm
      rw [hfile, hlocal front htarget, ← heq]
      rw [← heq] at hpackage
      exact relativeSpecifier_resolves_iff hpath hpackage hdirectory
    · exact absurd ⟨file, hfile.symm⟩ (h.not_relative remainder)

def sourceImports : BTreeMap Str := (∅ : BTreeMap Str).insert "~/".toList "./src/".toList

theorem sourceImports_local (name target : Str) (h : sourceImports[name]? = some target) :
    IsLocal name target ∨ IsAbsolute target := by
  rw [sourceImports, Std.ExtTreeMap.getElem?_insert] at h
  split_ifs at h with hname
  · refine .inl ⟨"src/".toList, (Option.some.inj h).symm, ?_, fun _ => .inr (by decide)⟩
    unfold IsPackagePath
    decide
  · simp at h

theorem rewrite_resolves_iff_source :
    ((¬ ∃ name ∈ sourceImports, ∃ remainder, IsAlias name "~/a.ts".toList remainder) →
      rewrite "src/mod.ts".toList sourceImports "~/a.ts".toList = "~/a.ts".toList) ∧
    ((∃ name ∈ sourceImports, ∃ remainder, IsAlias name "~/a.ts".toList remainder ∧
        IsPackagePath remainder) →
      ∃ name target remainder, Chosen sourceImports "~/a.ts".toList name target remainder ∧
        (IsAbsolute target →
          rewrite "src/mod.ts".toList sourceImports "~/a.ts".toList = target ++ remainder) ∧
        ∀ file, target ++ remainder = "./".toList ++ file →
          ¬ file.splitOn '/' <+: directoryOf "src/mod.ts".toList →
          (Resolves "src/mod.ts".toList (rewrite "src/mod.ts".toList sourceImports "~/a.ts".toList)
              (target ++ remainder) ↔
            ∀ component rest, file.splitOn '/' = directoryOf "src/mod.ts".toList ++ component :: rest →
              ¬ "..".toList <+: component)) :=
  rewrite_resolves_iff "src/mod.ts".toList sourceImports "~/a.ts".toList rfl sourceImports_local

def dottedImports : BTreeMap Str := (∅ : BTreeMap Str).insert "~/".toList "./..lib/".toList

/-- A module in a directory whose name starts with two dots is imported by a bare specifier. -/
theorem rewrite_bare : ∃ (path : Str) (imports : BTreeMap Str) (specifier name target remainder file : Str),
    validatePackagePath path = .ok () ∧
    (∀ name target : Str, imports[name]? = some target → IsLocal name target ∨ IsAbsolute target) ∧
    Chosen imports specifier name target remainder ∧ IsPackagePath remainder ∧
    target ++ remainder = "./".toList ++ file ∧ ¬ file.splitOn '/' <+: directoryOf path ∧
    rewrite path imports specifier = "..lib/a.ts".toList ∧
    ¬ Resolves path (rewrite path imports specifier) (target ++ remainder) := by
  have hrewrite : rewrite "mod.ts".toList dottedImports "~/a.ts".toList = "..lib/a.ts".toList := by
    decide +kernel
  refine ⟨"mod.ts".toList, dottedImports, "~/a.ts".toList, "~/".toList, "./..lib/".toList,
    "a.ts".toList, "..lib/a.ts".toList, rfl, ?_, ⟨?_, ⟨rfl, .inr (by decide)⟩, ?_, ?_⟩, ?_, rfl, by decide,
    hrewrite, ?_⟩
  · intro name target h
    rw [dottedImports, Std.ExtTreeMap.getElem?_insert] at h
    split_ifs at h with hname
    · refine .inl ⟨"..lib/".toList, (Option.some.inj h).symm, ?_, fun _ => .inr (by decide)⟩
      unfold IsPackagePath
      decide
    · simp at h
  · decide +kernel
  · intro hmem
    exact absurd hmem (by decide +kernel)
  · intro other hother rest halias
    rw [dottedImports, Std.ExtTreeMap.mem_insert] at hother
    rcases hother with hother | hother
    · rw [← Std.LawfulEqCmp.eq_of_compare hother]
    · simp at hother
  · unfold IsPackagePath
    decide
  · rw [hrewrite]
    rintro ⟨hrelative, -⟩
    exact absurd hrelative (by decide)

end ImportRewriting
end JsrProxy
