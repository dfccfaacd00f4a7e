import JsrProxy.GatedScopes
import JsrProxy.GitHubBranches

set_option autoImplicit false

/-!
# Link headers

What a header of comma-separated links names as the target of a relation.
-/
namespace JsrProxy.GitHubBranches
open Identity

structure Link where
  url : Str
  relations : Str
  url_ne : url ≠ []
  url_plain : ∀ c ∈ url, c ≠ '>' ∧ c ≠ ','
  relations_plain : ∀ c ∈ relations, c ≠ '"' ∧ c ≠ ','

namespace Link

def names (link : Link) (relation : Str) : Bool := (link.relations.splitOn ' ').contains relation

def text (link : Link) (before between after : Str) : Str :=
  before ++ '<' :: (link.url ++ (">;".toList ++ (between ++ ("rel=\"".toList ++
    (link.relations ++ '"' :: after)))))

def Written (link : Link) (part : Str) : Prop :=
  ∃ before between after, (∀ c ∈ before ++ between ++ after, isWhitespace c = true) ∧
    part = link.text before between after

theorem linkEntry_text (link : Link) {before between after : Str}
    (h : ∀ c ∈ before ++ between ++ after, isWhitespace c = true) :
    linkEntry (link.text before between after) =
      if link.relations = [] then none else some (link.url, link.relations) := by
  have hbefore : ∀ c ∈ before, isWhitespace c = true := fun c hc => h c (by simp [hc])
  have hbetween : ∀ c ∈ between, isWhitespace c = true := fun c hc => h c (by simp [hc])
  have hafter : after.all isWhitespace = true := List.all_eq_true.2 fun c hc => h c (by simp [hc])
  have hopen : isWhitespace '<' = false := by decide
  have hr : isWhitespace 'r' = false := by decide
  have hurl : ∀ c ∈ link.url, decide (c ≠ '>') = true := fun c hc => decide_eq_true (link.url_plain c hc).1
  have hrelations : ∀ c ∈ link.relations, decide (c ≠ '"') = true :=
    fun c hc => decide_eq_true (link.relations_plain c hc).1
  have hstart : (link.text before between after).dropWhile isWhitespace = '<' :: (link.url ++ (">;".toList ++
      (between ++ ("rel=\"".toList ++ (link.relations ++ '"' :: after))))) := by
    rw [text, List.dropWhile_append_of_pos hbefore, List.dropWhile_cons_of_neg (by simp [hopen])]
  have hparameters : (between ++ ("rel=\"".toList ++ (link.relations ++ '"' :: after))).dropWhile isWhitespace =
      "rel=\"".toList ++ (link.relations ++ '"' :: after) := by
    have hrel : "rel=\"".toList = 'r' :: "el=\"".toList := rfl
    rw [List.dropWhile_append_of_pos hbetween, hrel, List.cons_append,
      List.dropWhile_cons_of_neg (by simp [hr])]
  have hrest : ∀ more : Str, (link.url ++ (">;".toList ++ more)).dropWhile (fun c => decide (c ≠ '>')) =
      ">;".toList ++ more := by
    intro more
    rw [List.dropWhile_append_of_pos hurl]
    rfl
  have htarget : ∀ more : Str, (link.url ++ (">;".toList ++ more)).takeWhile (fun c => decide (c ≠ '>')) =
      link.url := by
    intro more
    rw [List.takeWhile_append_of_pos hurl]
    exact List.append_nil _
  have hquoted : (link.relations ++ '"' :: after).dropWhile (fun c => decide (c ≠ '"')) = '"' :: after := by
    rw [List.dropWhile_append_of_pos hrelations]
    rfl
  have hnamed : (link.relations ++ '"' :: after).takeWhile (fun c => decide (c ≠ '"')) = link.relations := by
    rw [List.takeWhile_append_of_pos hrelations]
    exact List.append_nil _
  rw [linkEntry, hstart]
  simp only
  rw [hrest, Worker.afterPrefix_append]
  dsimp only
  rw [hparameters, Worker.afterPrefix_append]
  dsimp only
  rw [hquoted, htarget, hnamed]
  dsimp only
  by_cases hempty : link.relations = []
  · rw [if_pos (.inr hempty), if_pos hempty]
  · rw [if_neg (not_or.2 ⟨link.url_ne, hempty⟩), if_pos hafter, if_neg hempty]

theorem Written.no_comma {link : Link} {part : Str} (h : link.Written part) : ',' ∉ part := by
  obtain ⟨before, between, after, hblank, rfl⟩ := h
  have hcomma : isWhitespace ',' = false := by decide
  have hwhite : ',' ∉ before ++ between ++ after := by
    intro hmem
    rw [hblank _ hmem] at hcomma
    cases hcomma
  have hurl : ',' ∉ link.url := fun hmem => (link.url_plain _ hmem).2 rfl
  have hrelations : ',' ∉ link.relations := fun hmem => (link.relations_plain _ hmem).2 rfl
  simp only [List.mem_append, not_or] at hwhite
  simp [text, hwhite, hurl, hrelations]

end Link

theorem no_comma_of_parts {links : List Link} {parts : List Str} (h : List.Forall₂ Link.Written links parts) :
    ∀ part ∈ parts, ',' ∉ part := by
  induction h with
  | nil => exact fun part hpart => absurd hpart List.not_mem_nil
  | cons hpart _ ih =>
    intro part hmem
    rcases List.mem_cons.1 hmem with rfl | hmem
    · exact hpart.no_comma
    · exact ih part hmem

/-- The header holds the links, separated by commas. -/
def Holds (links : List Link) : Option Str → Prop
  | none => links = []
  | some header => ∃ parts, parts ≠ [] ∧ List.Forall₂ Link.Written links parts ∧ header = [','].intercalate parts

def targetOf (links : List Link) (relation : Str) : Option Str :=
  (links.find? fun link => link.names relation).map Link.url

theorem linkTarget_parts {links : List Link} {parts : List Str} {relation : Str} (hrelation : relation ≠ [])
    (h : List.Forall₂ Link.Written links parts) : (parts.findSome? fun part =>
        match linkEntry part with
        | some (target, relations) =>
          if (relations.splitOn ' ').contains relation then some target else none
        | none => none) = targetOf links relation := by
  induction h with
  | nil => rfl
  | @cons link part links parts hpart _ ih =>
    obtain ⟨before, between, after, hblank, rfl⟩ := hpart
    rw [List.findSome?_cons, link.linkEntry_text hblank, targetOf, List.find?_cons]
    by_cases hempty : link.relations = []
    · have hnot : link.names relation = false := by
        simp [Link.names, hempty, hrelation]
      rw [if_pos hempty, hnot]
      exact ih
    · rw [if_neg hempty]
      dsimp only
      by_cases hnames : link.names relation = true
      · rw [hnames]
        have hcontains : (link.relations.splitOn ' ').contains relation = true := hnames
        rw [if_pos hcontains]
        rfl
      · rw [Bool.not_eq_true] at hnames
        have hcontains : (link.relations.splitOn ' ').contains relation = false := hnames
        rw [hnames, hcontains]
        exact ih

/-- Of such a header the parser takes what it names. -/
theorem linkTarget_holds {links : List Link} {header : Option Str} {relation : Str} (hrelation : relation ≠ [])
    (h : Holds links header) : linkTarget header relation = targetOf links relation := by
  cases header with
  | none =>
    cases h
    rfl
  | some header =>
    obtain ⟨parts, hne, hparts, rfl⟩ := h
    rw [linkTarget, List.splitOn_intercalate ',' (no_comma_of_parts hparts) hne]
    exact linkTarget_parts hrelation hparts

end JsrProxy.GitHubBranches
