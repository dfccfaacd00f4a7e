import JsrProxy.BranchListings
import JsrProxy.LinkHeaders
import JsrProxy.ReleaseMajors

set_option autoImplicit false

/-!
# Whole listings

What GitHub answers about the branches of a repository, page by page, and that the
discovery returns what all of the pages say, or throws.
-/
namespace JsrProxy.GitHubBranches
open Branches ObjectHandlers Worker

variable {env : DiscoveryEnv} {answers : ℕ → Except Str Fetched}

def Gives (answer : Except Str Fetched) (response : Fetched) (value : Json) : Prop :=
  answer = .ok response ∧ response.ok = true ∧ response.body.parsed = .ok value

def stringAt (value : Json) : List String → Option JsString
  | [] => stringOf (some value)
  | key :: rest => (value.get? key.toList).bind (stringAt · rest)

def NamesDefault (answer : Except Str Fetched) (defaultBranch : JsString) : Prop :=
  ∃ response metadata, Gives answer response metadata ∧
    stringAt metadata ["default_branch"] = some defaultBranch ∧ defaultBranch ≠ .text []

def ListsBranch (item : Json) (branch : ListedBranch) : Prop :=
  stringAt item ["name"] = some branch.name ∧ stringAt item ["commit", "sha"] = some branch.sha

/-- A page of branches, with the links of its header. -/
def Lists (answer : Except Str Fetched) (listed : List ListedBranch) (header : Option Str) : Prop :=
  ∃ response items, Gives answer response (.array items) ∧ List.Forall₂ ListsBranch items listed ∧
    response.headers.get "link".toList = header

/-- A commit whose committer time is a whole number of seconds. -/
def CommittedAt (env : DiscoveryEnv) (answer : Except Str Fetched) (seconds : ℤ) : Prop :=
  ∃ response commit date, Gives answer response commit ∧
    stringAt commit ["commit", "committer", "date"] = some date ∧ env.dateParse date = some (1000 * seconds) ∧
    0 ≤ seconds ∧ Doubles.isSafeInteger seconds = true

theorem reading_eq {answer : Except Str Fetched} {response : Fetched} {value : Json} :
    reading answer = .ok (response, value) ↔ Gives answer response value := by
  unfold reading Gives
  cases answer with
  | error message => simp
  | ok other =>
    dsimp only
    cases hok : other.ok with
    | false =>
      simp only [Bool.not_false, if_true, reduceCtorEq, Except.ok.injEq, false_iff]
      rintro ⟨rfl, hsuccess, -⟩
      rw [hok] at hsuccess
      cases hsuccess
    | true =>
      cases hparsed : other.body.parsed with
      | error message =>
        simp only [Bool.not_true, Bool.false_eq_true, if_false, Except.mapError, Except.map, reduceCtorEq,
          Except.ok.injEq, false_iff]
        rintro ⟨rfl, -, hvalue⟩
        rw [hparsed] at hvalue
        cases hvalue
      | ok found =>
        simp only [Bool.not_true, Bool.false_eq_true, if_false, Except.mapError, Except.map, Except.ok.injEq,
          Prod.mk.injEq]
        constructor
        · rintro ⟨rfl, rfl⟩
          exact ⟨rfl, hok, hparsed⟩
        · rintro ⟨rfl, -, hvalue⟩
          rw [hparsed, Except.ok.injEq] at hvalue
          exact ⟨rfl, hvalue⟩

theorem reading_error {answer : Except Str Fetched} {error : DiscoveryError} (h : reading answer = .error error) :
    error ≠ .unfinished := by
  unfold reading at h
  cases answer with
  | error message =>
    rw [Except.error.injEq] at h
    rw [← h]
    exact fun hne => by cases hne
  | ok other =>
    dsimp only at h
    split_ifs at h
    · rw [Except.error.injEq] at h
      rw [← h]
      exact fun hne => by cases hne
    · cases hparsed : other.body.parsed with
      | error message =>
        simp only [hparsed, Except.mapError, Except.map, Except.error.injEq] at h
        rw [← h]
        exact fun hne => by cases hne
      | ok found => simp only [hparsed, Except.mapError, Except.map, reduceCtorEq] at h

theorem property_text {value : Json} {key : String} {found : Option Json} (h : property value key = .ok found) :
    value.get? key.toList = found := by
  cases value <;> simp only [property, Except.ok.injEq, reduceCtorEq] at h
  all_goals exact h

theorem property_get {value : Json} {key : String} {found : Json} (h : value.get? key.toList = some found) :
    property value key = .ok (some found) := by
  cases value with
  | null => cases h
  | _ => simp only [property, h]

theorem stringOf_bind (found : Option Json) : stringOf found = found.bind fun value => stringOf (some value) := by
  cases found with
  | none => rfl
  | some value => rfl

theorem stringAt_one (value : Json) (key : String) : stringAt value [key] = stringOf (value.get? key.toList) :=
  (stringOf_bind _).symm

theorem stringAt_two (value : Json) (key inner : String) :
    stringAt value [key, inner] = stringOf ((value.get? key.toList).bind (·.get? inner.toList)) := by
  cases hfound : value.get? key.toList with
  | none => simp only [stringAt, hfound, Option.bind_none, stringOf]
  | some found =>
    rw [Option.bind_some, ← stringAt_one]
    simp only [stringAt, hfound, Option.bind_some]

theorem stringAt_three (value : Json) (key inner last : String) : stringAt value [key, inner, last] =
    stringOf (((value.get? key.toList).bind (·.get? inner.toList)).bind (·.get? last.toList)) := by
  cases hfound : value.get? key.toList with
  | none => simp only [stringAt, hfound, Option.bind_none, stringOf]
  | some found =>
    rw [Option.bind_some, ← stringAt_two]
    simp only [stringAt, hfound, Option.bind_some]

theorem property_of_stringAt {value : Json} {key : String} {rest : List String} {text : JsString}
    (h : stringAt value (key :: rest) = some text) : property value key = .ok (value.get? key.toList) := by
  rw [stringAt] at h
  cases hfound : value.get? key.toList with
  | none =>
    rw [hfound] at h
    cases h
  | some found => exact property_get hfound

theorem readBranch_eq {item : Json} {branch : ListedBranch} :
    readBranch item = .ok branch ↔ ListsBranch item branch := by
  unfold readBranch
  constructor
  · intro h
    cases hproperty : property item "name" with
    | error message => simp only [hproperty, reduceCtorEq] at h
    | ok name =>
      simp only [hproperty] at h
      split at h
      · obtain rfl := Except.ok.inj h
        refine ⟨?_, ?_⟩
        · rw [stringAt_one, property_text hproperty]
          assumption
        · rw [stringAt_two]
          assumption
      · cases h
  · rintro ⟨hname, hsha⟩
    rw [property_of_stringAt hname]
    rw [stringAt_one] at hname
    rw [stringAt_two] at hsha
    simp only [hname, hsha]

theorem bind_ok {α β : Type} {x : Except Str α} {f : α → Except Str β} {b : β} (h : (x >>= f) = .ok b) :
    ∃ a, x = .ok a ∧ f a = .ok b := by
  cases x with
  | error message => cases h
  | ok a => exact ⟨a, rfl, h⟩

theorem mapM_readBranch {items : List Json} {listed : List ListedBranch} :
    items.mapM readBranch = .ok listed ↔ List.Forall₂ ListsBranch items listed := by
  induction items generalizing listed with
  | nil =>
    rw [List.mapM_nil, List.forall₂_nil_left_iff]
    exact ⟨fun h => (Except.ok.inj h).symm, fun h => congrArg Except.ok h.symm⟩
  | cons item items ih =>
    rw [List.mapM_cons]
    constructor
    · intro h
      obtain ⟨branch, hbranch, h⟩ := bind_ok h
      obtain ⟨rest, hrest, h⟩ := bind_ok h
      rw [← Except.ok.inj h]
      exact .cons (readBranch_eq.1 hbranch) (ih.1 hrest)
    · intro h
      cases h with
      | cons hitem hrest =>
        rw [readBranch_eq.2 hitem, ih.2 hrest]
        rfl

theorem defaultOf_eq {answer : Except Str Fetched} {defaultBranch : JsString} :
    defaultOf answer = .ok defaultBranch ↔ NamesDefault answer defaultBranch := by
  unfold defaultOf
  constructor
  · intro h
    cases hread : reading answer with
    | error error => simp only [hread, reduceCtorEq] at h
    | ok read =>
      obtain ⟨response, metadata⟩ := read
      simp only [hread] at h
      cases hproperty : property metadata "default_branch" with
      | error message => simp only [hproperty, reduceCtorEq] at h
      | ok found =>
        simp only [hproperty] at h
        split at h
        · cases h
        · cases h
        · obtain rfl := Except.ok.inj h
          refine ⟨response, metadata, reading_eq.1 hread, ?_, by assumption⟩
          rw [stringAt_one, property_text hproperty]
          assumption
  · rintro ⟨response, metadata, hgives, htext, hne⟩
    have hproperty := property_of_stringAt htext
    rw [stringAt_one] at htext
    rw [reading_eq.2 hgives]
    dsimp only
    rw [hproperty]
    dsimp only
    rw [htext]
    cases defaultBranch with
    | unpaired points lone => rfl
    | text name =>
      cases name with
      | nil => exact absurd rfl hne
      | cons c rest => rfl

theorem pageOf_eq {answer : Except Str Fetched} {listed : List ListedBranch} {target : Option Str} :
    pageOf answer = .ok (listed, target) ↔
      ∃ header, Lists answer listed header ∧ linkTarget header "next".toList = target := by
  unfold pageOf
  constructor
  · intro h
    cases hread : reading answer with
    | error error => simp only [hread, reduceCtorEq] at h
    | ok read =>
      obtain ⟨response, page⟩ := read
      simp only [hread] at h
      cases hpage : readPage page with
      | error message => simp only [hpage, reduceCtorEq] at h
      | ok found =>
        simp only [hpage, Except.ok.injEq, Prod.mk.injEq] at h
        obtain ⟨rfl, htarget⟩ := h
        unfold readPage at hpage
        split at hpage
        · exact ⟨_, ⟨response, _, reading_eq.1 hread, mapM_readBranch.1 hpage, rfl⟩, htarget⟩
        · cases hpage
  · rintro ⟨header, ⟨response, items, hgives, hitems, rfl⟩, rfl⟩
    have hpage : readPage (.array items) = .ok listed := mapM_readBranch.2 hitems
    rw [reading_eq.2 hgives]
    dsimp only
    rw [hpage]

theorem timeOf_eq {sha : Str} {answer : Except Str Fetched} {seconds : ℤ} :
    timeOf env sha answer = .ok seconds ↔ CommittedAt env answer seconds := by
  unfold timeOf committedAt
  constructor
  · intro h
    cases hread : reading answer with
    | error error => simp only [hread, reduceCtorEq] at h
    | ok read =>
      obtain ⟨response, commit⟩ := read
      simp only [hread] at h
      cases hproperty : property commit "commit" with
      | error message => simp only [hproperty, reduceCtorEq] at h
      | ok found =>
        simp only [hproperty] at h
        cases hdate : stringOf ((found.bind (·.get? "committer".toList)).bind (·.get? "date".toList)) with
        | none => simp only [hdate, Option.bind_none, reduceCtorEq] at h
        | some date =>
          cases hparse : env.dateParse date with
          | none => simp only [hdate, Option.bind_some, hparse, reduceCtorEq] at h
          | some milliseconds =>
            simp only [hdate, Option.bind_some, hparse] at h
            split_ifs at h with hwhole
            obtain ⟨hmod, hsafe, hnonneg⟩ := hwhole
            rw [Except.ok.injEq] at h
            subst h
            refine ⟨response, commit, date, reading_eq.1 hread, ?_, ?_, hnonneg, hsafe⟩
            · rw [stringAt_three, property_text hproperty, hdate]
            · rw [hparse]
              congr 1
              omega
  · rintro ⟨response, commit, date, hgives, htext, hparse, hnonneg, hsafe⟩
    have hproperty := property_of_stringAt htext
    have hdiv : 1000 * seconds / 1000 = seconds := by omega
    have hmod : 1000 * seconds % 1000 = 0 := by omega
    rw [stringAt_three] at htext
    rw [reading_eq.2 hgives]
    dsimp only
    rw [hproperty]
    dsimp only
    rw [htext, Option.bind_some, hparse]
    dsimp only
    rw [hdiv, if_pos ⟨hmod, hsafe, hnonneg⟩]

theorem defaultOf_error {answer : Except Str Fetched} {error : DiscoveryError}
    (h : defaultOf answer = .error error) : error ≠ .unfinished := by
  unfold defaultOf at h
  cases hread : reading answer with
  | error other =>
    simp only [hread, Except.error.injEq] at h
    exact h ▸ reading_error hread
  | ok read =>
    simp only [hread] at h
    rintro rfl
    split at h
    · cases h
    · split at h <;> cases h

theorem pageOf_error {answer : Except Str Fetched} {error : DiscoveryError}
    (h : pageOf answer = .error error) : error ≠ .unfinished := by
  unfold pageOf at h
  cases hread : reading answer with
  | error other =>
    simp only [hread, Except.error.injEq] at h
    exact h ▸ reading_error hread
  | ok read =>
    simp only [hread] at h
    rintro rfl
    split at h <;> cases h

theorem timeOf_error {sha : Str} {answer : Except Str Fetched} {error : DiscoveryError}
    (h : timeOf env sha answer = .error error) : error ≠ .unfinished := by
  unfold timeOf committedAt at h
  cases hread : reading answer with
  | error other =>
    simp only [hread, Except.error.injEq] at h
    exact h ▸ reading_error hread
  | ok read =>
    simp only [hread] at h
    rintro rfl
    split at h
    · cases h
    · split at h
      · split_ifs at h
        cases h
      · cases h

structure Page where
  url : Url
  listed : List ListedBranch
  links : List Link

namespace Page

def Answers (page : Page) (answer : Except Str Fetched) : Prop :=
  ∃ header, Lists answer page.listed header ∧ Holds page.links header

def NamesNext (env : DiscoveryEnv) (page : Page) (url : Url) : Prop :=
  ∃ target absolute, targetOf page.links "next".toList = some target ∧
    env.parseUrl target = some absolute ∧ absolute.url = url

def IsLast (page : Page) : Prop := targetOf page.links "next".toList = none

theorem Answers.pageOf {page : Page} {answer : Except Str Fetched} (h : page.Answers answer) :
    pageOf answer = .ok (page.listed, targetOf page.links "next".toList) := by
  obtain ⟨header, hlists, hholds⟩ := h
  have hnext : "next".toList ≠ [] := by decide
  exact pageOf_eq.2 ⟨header, hlists, linkTarget_holds hnext hholds⟩

theorem NamesNext.linked {page : Page} {url : Url} (h : page.NamesNext env url) :
    ∃ target, targetOf page.links "next".toList = some target ∧ linkedUrl env target = .ok url := by
  obtain ⟨target, absolute, htarget, hparse, rfl⟩ := h
  refine ⟨target, htarget, ?_⟩
  rw [linkedUrl, hparse]

end Page

/-- From an answer on, each page names the following one, up to a last one. -/
inductive Chain (env : DiscoveryEnv) (answers : ℕ → Except Str Fetched) : ℕ → List Page → Prop
  | last {n : ℕ} {page : Page} (hpage : page.Answers (answers n)) (hlast : page.IsLast) : Chain env answers n [page]
  | next {n : ℕ} {page following : Page} {rest : List Page} (hpage : page.Answers (answers n))
      (hnext : page.NamesNext env following.url) (hrest : Chain env answers (n + 1) (following :: rest)) :
      Chain env answers n (page :: following :: rest)

/-- Of so many pages the last one is an error or malformed. -/
inductive Broken (env : DiscoveryEnv) (answers : ℕ → Except Str Fetched) : ℕ → ℕ → Prop
  | here {n : ℕ} (h : ∀ listed header, ¬ Lists (answers n) listed header) : Broken env answers n 1
  | next {n k : ℕ} {page : Page} {url : Url} (hpage : page.Answers (answers n)) (hnext : page.NamesNext env url)
      (hrest : Broken env answers (n + 1) k) : Broken env answers n (k + 1)

def listing (pages : List Page) : List ListedBranch := pages.flatMap Page.listed

section
variable {pat authorization : Str} (hpat : Headers.normalize (Auth.bearer ++ pat) = some authorization)
include hpat

theorem does_chain {n fuel : ℕ} {pages : List Page} {url : Url} (h : Chain env answers n pages)
    (hurl : pages.head?.map Page.url = some url) (hfuel : pages.length ≤ fuel) (branches : List ListedBranch) :
    Does answers (listBranches env pat fuel (.ok url) branches) n
      (pages.map fun page => authorizedGet authorization page.url) (.ok (branches ++ listing pages))
      (n + pages.length) := by
  induction h generalizing fuel url branches with
  | @last n page hpage hlast =>
    obtain ⟨fuel, rfl⟩ := Nat.exists_eq_add_one.2 hfuel
    obtain rfl := Option.some.inj hurl
    have hread := hpage.pageOf
    rw [hlast] at hread
    apply does_listBranches hpat
    rw [hread, listing, List.flatMap_singleton]
    exact does_done _ _
  | @next n page following rest hpage hnext _ ih =>
    obtain ⟨fuel, rfl⟩ := Nat.exists_eq_add_one.2 (Nat.lt_of_lt_of_le (Nat.zero_lt_succ _) hfuel)
    obtain rfl := Option.some.inj hurl
    obtain ⟨target, htarget, hlinked⟩ := hnext.linked
    have hread := hpage.pageOf
    rw [htarget] at hread
    have hrest := ih rfl (Nat.le_of_succ_le_succ hfuel) (branches ++ page.listed)
    have hcount : n + (page :: following :: rest).length = n + 1 + (following :: rest).length := by
      rw [List.length_cons, Nat.add_assoc, Nat.add_comm 1]
    apply does_listBranches hpat
    rw [hread, afterPage, hlinked, listing, List.flatMap_cons, ← List.append_assoc, hcount]
    exact hrest

theorem does_broken {n k fuel : ℕ} (h : Broken env answers n k) (hfuel : k ≤ fuel) (url : Url)
    (branches : List ListedBranch) : ∃ sent error m, error ≠ .unfinished ∧
      Does answers (listBranches env pat fuel (.ok url) branches) n sent (.error error) m := by
  induction h generalizing fuel url branches with
  | @here n h =>
    obtain ⟨fuel, rfl⟩ := Nat.exists_eq_add_one.2 hfuel
    cases hread : pageOf (answers n) with
    | ok page =>
      obtain ⟨header, hlists, -⟩ := pageOf_eq.1 hread
      exact absurd hlists (h _ _)
    | error error =>
      refine ⟨[authorizedGet authorization url], error, n + 1, pageOf_error hread, ?_⟩
      apply does_listBranches hpat
      rw [hread]
      exact does_done _ _
  | @next n k page next hpage hnext _ ih =>
    obtain ⟨fuel, rfl⟩ := Nat.exists_eq_add_one.2 (Nat.lt_of_lt_of_le (Nat.zero_lt_succ _) hfuel)
    obtain ⟨target, htarget, hlinked⟩ := hnext.linked
    have hread := hpage.pageOf
    rw [htarget] at hread
    obtain ⟨sent, error, m, hfinished, hdoes⟩ := ih (Nat.le_of_succ_le_succ hfuel) next (branches ++ page.listed)
    refine ⟨authorizedGet authorization url :: sent, error, m, hfinished, ?_⟩
    apply does_listBranches hpat
    rw [hread, afterPage, hlinked]
    exact hdoes

end

theorem tipsOf_all {timestamps : Timestamps} {time : Str → ℤ} {selected : List ListedBranch}
    (tips : OrderedMap Str CommitTip)
    (hknown : ∀ branch ∈ selected, timestamps.get? branch.sha = some (.ok (time branch.sha.wellFormed)))
    (hdistinct : (tips.entries.map Prod.fst ++ selected.map fun branch => branch.name.wellFormed).Nodup) :
    ∃ result, tipsOf timestamps tips selected = .ok result ∧ result.entries =
      tips.entries ++ selected.map fun branch =>
        (branch.name.wellFormed, ⟨branch.sha.wellFormed, time branch.sha.wellFormed⟩) := by
  induction selected generalizing tips with
  | nil => exact ⟨tips, rfl, (List.append_nil _).symm⟩
  | cons branch rest ih =>
    have hnew : branch.name.wellFormed ∉ tips.entries.map Prod.fst := by
      intro hmem
      exact (List.nodup_append.1 hdistinct).2.2 _ hmem _ List.mem_cons_self rfl
    have hentries := OrderedMap.entries_set_new tips
      ⟨branch.sha.wellFormed, time branch.sha.wellFormed⟩ hnew
    obtain ⟨result, hresult, hall⟩ := ih
      (tips.set branch.name.wellFormed ⟨branch.sha.wellFormed, time branch.sha.wellFormed⟩)
      (fun other hother => hknown other (List.mem_cons_of_mem _ hother)) (by
        rw [hentries, List.map_append, List.append_assoc]
        exact hdistinct)
    refine ⟨result, ?_, ?_⟩
    · rw [tipsOf, hknown branch List.mem_cons_self]
      exact hresult
    · rw [hall, hentries, List.append_assoc]
      rfl

theorem tipsOf_throws {timestamps : Timestamps} {selected : List ListedBranch} (tips : OrderedMap Str CommitTip)
    (hknown : ∀ branch ∈ selected, ∃ known, timestamps.get? branch.sha = some known ∧
      ∀ error, known = .error error → error ≠ .unfinished)
    {failed : ListedBranch} (hfailed : failed ∈ selected) {error : DiscoveryError}
    (herror : timestamps.get? failed.sha = some (.error error)) :
    ∃ first, first ≠ .unfinished ∧ tipsOf timestamps tips selected = .error first := by
  induction selected generalizing tips with
  | nil => cases hfailed
  | cons branch rest ih =>
    obtain ⟨known, hget, hfinished⟩ := hknown branch List.mem_cons_self
    rw [tipsOf, hget]
    cases known with
    | error first => exact ⟨first, hfinished first rfl, rfl⟩
    | ok timestamp =>
      rcases List.mem_cons.1 hfailed with rfl | hmem
      · rw [herror] at hget
        cases hget
      · exact ih _ (fun other hother => hknown other (List.mem_cons_of_mem _ hother)) hmem

/-- The SHAs of the branches, each once, in the order in which they first stand. -/
def askedShas (branches : List ListedBranch) : List Str :=
  (branches.map ListedBranch.sha).eraseDups.filterMap JsString.text?

theorem nodup_eraseDups {α : Type} [BEq α] [LawfulBEq α] (l : List α) : l.eraseDups.Nodup := by
  induction hn : l.length using Nat.strong_induction_on generalizing l with
  | _ n ih =>
    cases l with
    | nil => exact List.nodup_nil
    | cons a rest =>
      rw [List.eraseDups_cons, List.nodup_cons, List.mem_eraseDups, List.mem_filter]
      have hshort : (rest.filter fun b => !b == a).length < n := by
        have hle := List.length_filter_le (fun b => !b == a) rest
        rw [List.length_cons] at hn
        omega
      exact ⟨fun hmem => by simp at hmem, ih _ hshort _ rfl⟩

theorem nodup_askedShas (branches : List ListedBranch) : (askedShas branches).Nodup := by
  apply (nodup_eraseDups _).filterMap
  intro sha sha' content hsha hsha'
  rw [JsString.text_of_text? hsha, JsString.text_of_text? hsha']

theorem mem_askedShas {branches : List ListedBranch} {sha : Str} :
    sha ∈ askedShas branches ↔ ∃ branch ∈ branches, branch.sha = .text sha := by
  rw [askedShas, List.mem_filterMap]
  constructor
  · rintro ⟨found, hfound, hsha⟩
    rw [List.mem_eraseDups, List.mem_map] at hfound
    obtain ⟨branch, hbranch, rfl⟩ := hfound
    exact ⟨branch, hbranch, JsString.text_of_text? hsha⟩
  · rintro ⟨branch, hbranch, hsha⟩
    exact ⟨branch.sha, List.mem_eraseDups.2 (List.mem_map_of_mem hbranch), by rw [hsha]; rfl⟩

theorem newShas_empty (branches : List ListedBranch) : newShas .empty branches = askedShas branches := by
  have hall : (branches.map ListedBranch.sha).filter (fun sha => !(OrderedMap.empty : Timestamps).has sha) =
      branches.map ListedBranch.sha := List.filter_eq_self.2 fun sha _ => rfl
  rw [newShas, hall, askedShas]

def Selects (defaultBranch : JsString) (branch : ListedBranch) : Prop :=
  branch.name = defaultBranch ∨ ∃ major, branch.name = .text (releaseName major)

theorem isReleaseBranch_iff (name : JsString) :
    isReleaseBranch name = true ↔ ∃ major, name = .text (releaseName major) := by
  constructor
  · intro h
    unfold isReleaseBranch at h
    split at h
    · exact ⟨_, congrArg (fun digits => JsString.text ('v' :: digits)) (toDigits_of_isNumeral h).symm⟩
    · cases h
  · rintro ⟨major, rfl⟩
    exact isNumeral_toDigits major

theorem mem_selectedBranches {defaultBranch : JsString} {branches : List ListedBranch} {branch : ListedBranch} :
    branch ∈ selectedBranches defaultBranch branches ↔ branch ∈ branches ∧ Selects defaultBranch branch := by
  rw [selectedBranches, List.mem_filter, Bool.or_eq_true, decide_eq_true_eq, isReleaseBranch_iff, Selects]

theorem releaseName_plain (major : ℕ) : '\ufffd' ∉ releaseName major := by
  intro h
  rcases List.mem_cons.1 h with h | h
  · exact absurd h (by decide)
  · exact absurd (Text.isDigit_of_mem_toDigits h) (by decide)

/-- Selected branches of different names are passed on under different texts. -/
theorem selected_distinct {defaultBranch : JsString} {branches : List ListedBranch}
    (h : (branches.map ListedBranch.name).Nodup) :
    ((selectedBranches defaultBranch branches).map fun branch => branch.name.wellFormed).Nodup := by
  have hnames : ((selectedBranches defaultBranch branches).map ListedBranch.name).Nodup :=
    h.sublist (List.filter_sublist.map _)
  have hmap : (selectedBranches defaultBranch branches).map (fun branch => branch.name.wellFormed)
      = ((selectedBranches defaultBranch branches).map ListedBranch.name).map JsString.wellFormed := by
    rw [List.map_map]
    rfl
  have hselects : ∀ name ∈ (selectedBranches defaultBranch branches).map ListedBranch.name,
      name = defaultBranch ∨ ∃ major, name = .text (releaseName major) := by
    intro name hname
    obtain ⟨branch, hbranch, rfl⟩ := List.mem_map.1 hname
    exact (mem_selectedBranches.1 hbranch).2
  rw [hmap]
  apply hnames.map_on
  intro name hname name' hname' hsame
  rcases hselects name hname with hdefault | ⟨major, rfl⟩
  · rcases hselects name' hname' with hdefault' | ⟨major', rfl⟩
    · rw [hdefault, hdefault']
    · exact JsString.eq_text_of_wellFormed (releaseName_plain major') hsame
  · exact (JsString.eq_text_of_wellFormed (releaseName_plain major) hsame.symm).symm

theorem does_readTips_missing (owner repository pat : Str) {defaultBranch : JsString} {branches : List ListedBranch}
    (hdefault : ∀ branch ∈ branches, branch.name ≠ defaultBranch) (n : ℕ) :
    Does answers (readTips env owner repository pat defaultBranch branches) n []
      (.error (.thrown ("GitHub did not return default branch ".toList ++ defaultBranch.wellFormed))) n := by
  have hany : (selectedBranches defaultBranch branches).any (fun branch => branch.name = defaultBranch) = false := by
    apply List.any_eq_false.2
    intro branch hbranch
    rw [decide_eq_true_eq]
    exact hdefault branch (mem_selectedBranches.1 hbranch).1
  unfold readTips
  dsimp only
  rw [hany, if_pos (by decide)]
  exact does_done _ _

section
variable {pat authorization : Str} (hpat : Headers.normalize (Auth.bearer ++ pat) = some authorization)
include hpat

variable (answers env) in
theorem does_readTips (owner repository : Str) {defaultBranch : JsString} {branches : List ListedBranch}
    (hdefault : ∃ branch ∈ branches, branch.name = defaultBranch) (n : ℕ) : ∃ timestamps : Timestamps,
      (∀ i sha, (askedShas (selectedBranches defaultBranch branches))[i]? = some sha →
        timestamps.get? (.text sha) = some (timeOf env sha (answers (n + i)))) ∧
      (∀ branch ∈ selectedBranches defaultBranch branches, branch.sha.text? = none →
        timestamps.get? branch.sha = some malformedSha) ∧
      Does answers (readTips env owner repository pat defaultBranch branches) n
        ((askedShas (selectedBranches defaultBranch branches)).map (commitGet authorization owner repository))
        ((tipsOf timestamps .empty (selectedBranches defaultBranch branches)).map fun tips =>
          ⟨defaultBranch.wellFormed, tips⟩)
        (n + (askedShas (selectedBranches defaultBranch branches)).length) := by
  obtain ⟨branch, hbranch, hname⟩ := hdefault
  have hany : (selectedBranches defaultBranch branches).any (fun branch => branch.name = defaultBranch) = true := by
    apply List.any_eq_true.2
    exact ⟨branch, mem_selectedBranches.2 ⟨hbranch, .inl hname⟩, decide_eq_true hname⟩
  obtain ⟨timestamps, hdoes, -, hasked, hmalformed⟩ := does_askTimestamps answers env hpat owner
    repository (selectedBranches defaultBranch branches) .empty n
  rw [newShas_empty] at hdoes hasked
  refine ⟨timestamps, hasked, fun branch hbranch => hmalformed branch hbranch rfl, ?_⟩
  unfold readTips
  dsimp only
  rw [hany, if_neg (by decide), ← List.append_nil (List.map _ _)]
  exact hdoes.bind (does_done _ _)

end

/-- A selected branch whose time is not known has a reason for it. -/
theorem known_finished {timestamps : Timestamps} {selected : List ListedBranch} {n : ℕ}
    (htimes : ∀ i sha, (askedShas selected)[i]? = some sha →
      timestamps.get? (.text sha) = some (timeOf env sha (answers (n + i))))
    (hmalformed : ∀ branch ∈ selected, branch.sha.text? = none →
      timestamps.get? branch.sha = some malformedSha) {branch : ListedBranch} (hbranch : branch ∈ selected) :
    ∃ known, timestamps.get? branch.sha = some known ∧ ∀ error, known = .error error → error ≠ .unfinished := by
  cases hsha : branch.sha.text? with
  | none =>
    refine ⟨_, hmalformed branch hbranch hsha, ?_⟩
    rintro error herror rfl
    cases herror
  | some sha =>
    have htext := JsString.text_of_text? hsha
    obtain ⟨i, hi⟩ := List.getElem?_of_mem (mem_askedShas.2 ⟨branch, hbranch, htext⟩)
    rw [htext]
    exact ⟨_, htimes i sha hi, fun _ => timeOf_error⟩

/-- GitHub names a default branch and answers every page, the first one at its URL. -/
structure Enumerated (env : DiscoveryEnv) (answers : ℕ → Except Str Fetched) (owner repository : Str)
    (defaultBranch : JsString) (pages : List Page) : Prop where
  named : NamesDefault (answers 0) defaultBranch
  chain : Chain env answers 1 pages
  first : pages.head?.map Page.url = some (branchesUrl owner repository)

/-- The listing has distinct names and the default branch, the SHAs of the selected branches
    are texts, and each commit has its time. -/
structure Whole (env : DiscoveryEnv) (answers : ℕ → Except Str Fetched) (owner repository : Str)
    (defaultBranch : JsString) (pages : List Page) (time : Str → ℤ) : Prop
    extends Enumerated env answers owner repository defaultBranch pages where
  distinct : ((listing pages).map ListedBranch.name).Nodup
  listed : ∃ branch ∈ listing pages, branch.name = defaultBranch
  shas : ∀ branch ∈ listing pages, Selects defaultBranch branch → ∃ sha, branch.sha = .text sha
  commits : ∀ i sha, (askedShas (selectedBranches defaultBranch (listing pages)))[i]? = some sha →
    CommittedAt env (answers (1 + pages.length + i)) (time sha)

/-- Some answer that is needed is an error or malformed, or the default branch is missing. -/
inductive Incomplete (env : DiscoveryEnv) (answers : ℕ → Except Str Fetched) (owner repository : Str) (fuel : ℕ) : Prop
  | repository (h : ∀ defaultBranch, ¬ NamesDefault (answers 0) defaultBranch)
  | page {defaultBranch : JsString} {k : ℕ} (hdefault : NamesDefault (answers 0) defaultBranch)
      (h : Broken env answers 1 k) (hfuel : k ≤ fuel)
  | defaultBranch {defaultBranch : JsString} {pages : List Page}
      (henumerated : Enumerated env answers owner repository defaultBranch pages) (hfuel : pages.length ≤ fuel)
      (h : ∀ branch ∈ listing pages, branch.name ≠ defaultBranch)
  | sha {defaultBranch : JsString} {pages : List Page} {branch : ListedBranch}
      (henumerated : Enumerated env answers owner repository defaultBranch pages) (hfuel : pages.length ≤ fuel)
      (hlisted : branch ∈ listing pages) (hselects : Selects defaultBranch branch)
      (h : ∀ sha, branch.sha ≠ .text sha)
  | commit {defaultBranch : JsString} {sha : Str} {pages : List Page} {i : ℕ}
      (henumerated : Enumerated env answers owner repository defaultBranch pages) (hfuel : pages.length ≤ fuel)
      (hasked : (askedShas (selectedBranches defaultBranch (listing pages)))[i]? = some sha)
      (h : ∀ seconds, ¬ CommittedAt env (answers (1 + pages.length + i)) seconds)

def Throws (answers : ℕ → Except Str Fetched) (p : Discovering BranchDiscovery) : Prop :=
  ∃ error, error ≠ .unfinished ∧ (p.run (inTurn answers) 0).1 = .error error

section
variable {pat authorization : Str} (hpat : Headers.normalize (Auth.bearer ++ pat) = some authorization)
include hpat

theorem does_enumerated {owner repository : Str} {defaultBranch : JsString} {pages : List Page}
    (h : Enumerated env answers owner repository defaultBranch pages) {fuel : ℕ} (hfuel : pages.length ≤ fuel)
    {sent : List Request} {result : Except DiscoveryError BranchDiscovery} {m : ℕ}
    (hdoes : Does answers (readTips env owner repository pat defaultBranch (listing pages)) (1 + pages.length) sent
      result m) :
    Does answers (discoverGitHubBranches env fuel owner repository pat) 0
      (repositoryGet authorization owner repository ::
        ((pages.map fun page => authorizedGet authorization page.url) ++ sent)) result m := by
  apply does_discover hpat
  rw [defaultOf_eq.2 h.named, afterRepository]
  have hlisting := does_chain hpat h.chain h.first hfuel []
  exact hlisting.andThen hdoes

theorem throws_missing {owner repository : Str} {defaultBranch : JsString} {pages : List Page}
    (h : Enumerated env answers owner repository defaultBranch pages) {fuel : ℕ} (hfuel : pages.length ≤ fuel)
    (hmissing : ∀ branch ∈ listing pages, branch.name ≠ defaultBranch) :
    Throws answers (discoverGitHubBranches env fuel owner repository pat) := by
  have hdoes := does_enumerated hpat h hfuel (does_readTips_missing owner repository pat hmissing _)
  refine ⟨.thrown ("GitHub did not return default branch ".toList ++ defaultBranch.wellFormed), by simp, ?_⟩
  rw [hdoes.run]

/-- One selected branch without a time is enough. -/
theorem throws_failed {owner repository : Str} {defaultBranch : JsString} {pages : List Page}
    (h : Enumerated env answers owner repository defaultBranch pages) {fuel : ℕ} (hfuel : pages.length ≤ fuel)
    {failed : ListedBranch} (hfailed : failed ∈ selectedBranches defaultBranch (listing pages))
    (hsha : failed.sha.text? = none ∨ ∃ i sha error, failed.sha = .text sha ∧
      (askedShas (selectedBranches defaultBranch (listing pages)))[i]? = some sha ∧
      timeOf env sha (answers (1 + pages.length + i)) = .error error) :
    Throws answers (discoverGitHubBranches env fuel owner repository pat) := by
  by_cases hlisted : ∃ branch ∈ listing pages, branch.name = defaultBranch
  · obtain ⟨timestamps, htimes, hmalformed, hcommits⟩ := does_readTips env answers hpat owner
      repository hlisted (1 + pages.length)
    have hdoes := does_enumerated hpat h hfuel hcommits
    have herror : ∃ error, timestamps.get? failed.sha = some (.error error) := by
      rcases hsha with hnone | ⟨i, sha, error, htext, hi, herror⟩
      · exact ⟨_, hmalformed failed hfailed hnone⟩
      · exact ⟨error, by rw [htext, htimes i sha hi, herror]⟩
    obtain ⟨error, herror⟩ := herror
    obtain ⟨first, hfinished, hfirst⟩ := tipsOf_throws .empty
      (fun branch hbranch => known_finished htimes hmalformed hbranch) hfailed herror
    refine ⟨first, hfinished, ?_⟩
    rw [hdoes.run, hfirst]
    rfl
  · apply throws_missing hpat h hfuel
    intro branch hbranch hname
    exact hlisted ⟨branch, hbranch, hname⟩

theorem throws_of_incomplete {owner repository : Str} {fuel : ℕ}
    (h : Incomplete env answers owner repository fuel) :
    Throws answers (discoverGitHubBranches env fuel owner repository pat) := by
  cases h with
  | repository h =>
    cases hdefault : defaultOf (answers 0) with
    | ok defaultBranch => exact absurd (defaultOf_eq.1 hdefault) (h defaultBranch)
    | error error =>
      refine ⟨error, defaultOf_error hdefault, ?_⟩
      have hdoes : Does answers (afterRepository env fuel owner repository pat (defaultOf (answers 0))) 1 []
          (.error error) 1 := by
        rw [hdefault]
        exact does_done _ _
      rw [(does_discover hpat hdoes).run]
  | @page defaultBranch k hdefault h hfuel =>
    obtain ⟨sent, error, m, hfinished, hlisting⟩ := does_broken hpat h hfuel (branchesUrl owner repository) []
    refine ⟨error, hfinished, ?_⟩
    have hdoes : Does answers (afterRepository env fuel owner repository pat (defaultOf (answers 0))) 1 (sent ++ [])
        (.error error) m := by
      rw [defaultOf_eq.2 hdefault]
      exact hlisting.andThen (does_done _ _)
    rw [(does_discover hpat hdoes).run]
  | @defaultBranch defaultBranch pages henumerated hfuel h => exact throws_missing hpat henumerated hfuel h
  | @sha defaultBranch pages branch henumerated hfuel hlisted hselects h =>
    apply throws_failed hpat henumerated hfuel (mem_selectedBranches.2 ⟨hlisted, hselects⟩)
    left
    cases hsha : branch.sha.text? with
    | none => rfl
    | some sha => exact absurd (JsString.text_of_text? hsha) (h sha)
  | @commit defaultBranch sha pages i henumerated hfuel hasked h =>
    obtain ⟨failed, hfailed, hsha⟩ := mem_askedShas.1 (List.mem_of_getElem? hasked)
    apply throws_failed hpat henumerated hfuel hfailed
    cases htime : timeOf env sha (answers (1 + pages.length + i)) with
    | ok seconds => exact absurd (timeOf_eq.1 htime) (h seconds)
    | error error => exact .inr ⟨i, sha, error, hsha, hasked, htime⟩

theorem does_whole {owner repository : Str} {defaultBranch : JsString} {pages : List Page} {time : Str → ℤ}
    (h : Whole env answers owner repository defaultBranch pages time) {fuel : ℕ} (hfuel : pages.length ≤ fuel) :
    ∃ tips : OrderedMap Str CommitTip, Does answers (discoverGitHubBranches env fuel owner repository pat) 0
        (repositoryGet authorization owner repository ::
          ((pages.map fun page => authorizedGet authorization page.url) ++
            (askedShas (selectedBranches defaultBranch (listing pages))).map
              (commitGet authorization owner repository)))
        (.ok ⟨defaultBranch.wellFormed, tips⟩)
        (1 + pages.length + (askedShas (selectedBranches defaultBranch (listing pages))).length) ∧
      tips.entries = (selectedBranches defaultBranch (listing pages)).map fun branch =>
        (branch.name.wellFormed, ⟨branch.sha.wellFormed, time branch.sha.wellFormed⟩) := by
  obtain ⟨timestamps, htimes, -, hcommits⟩ := does_readTips env answers hpat owner
    repository h.listed (1 + pages.length)
  have hknown : ∀ branch ∈ selectedBranches defaultBranch (listing pages),
      timestamps.get? branch.sha = some (.ok (time branch.sha.wellFormed)) := by
    intro branch hbranch
    obtain ⟨hlisted, hselects⟩ := mem_selectedBranches.1 hbranch
    obtain ⟨sha, hsha⟩ := h.shas branch hlisted hselects
    obtain ⟨i, hi⟩ := List.getElem?_of_mem (mem_askedShas.2 ⟨branch, hbranch, hsha⟩)
    rw [hsha, htimes i sha hi, timeOf_eq.2 (h.commits i sha hi)]
    rfl
  obtain ⟨tips, htips, hentries⟩ := tipsOf_all .empty hknown (selected_distinct h.distinct)
  refine ⟨tips, ?_, hentries⟩
  have hdoes := does_enumerated hpat h.toEnumerated hfuel hcommits
  rw [htips] at hdoes
  exact hdoes

end

theorem throws_of_unsent {pat : Str} (hpat : Headers.normalize (Auth.bearer ++ pat) = none) (fuel : ℕ)
    (owner repository : Str) : Throws answers (discoverGitHubBranches env fuel owner repository pat) := by
  have hthrows : Auth.githubRequest (repositoryPath owner repository) pat =
      .error "invalid header value".toList := by
    rw [Auth.githubRequest, hpat]
  refine ⟨.thrown "invalid header value".toList, by simp, ?_⟩
  rw [discoverGitHubBranches, hthrows]
  rfl

/-- From a whole listing exactly the selected branches are returned, each commit being
    asked for once; from anything less nothing is. -/
theorem discovers_whole (env : DiscoveryEnv) (owner repository pat : Str) (answers : ℕ → Except Str Fetched)
    (fuel : ℕ) :
    (∀ authorization defaultBranch pages time, Headers.normalize (Auth.bearer ++ pat) = some authorization →
      Whole env answers owner repository defaultBranch pages time → pages.length ≤ fuel →
      ∃ (tips : OrderedMap Str CommitTip) (shas : List Str),
        (discoverGitHubBranches env fuel owner repository pat).run (inTurn answers) 0 =
          (.ok ⟨defaultBranch.wellFormed, tips⟩, 1 + pages.length + shas.length) ∧
        (∀ name tip, tips.get? name = some tip ↔ ∃ branch ∈ listing pages, Selects defaultBranch branch ∧
          branch.name.wellFormed = name ∧ tip = ⟨branch.sha.wellFormed, time branch.sha.wellFormed⟩) ∧
        ((discoverGitHubBranches env fuel owner repository pat).calls (inTurn answers) 0).map Prod.snd =
          repositoryGet authorization owner repository ::
            ((pages.map fun page => authorizedGet authorization page.url) ++
              shas.map (commitGet authorization owner repository)) ∧
        shas.Nodup ∧ ∀ sha, sha ∈ shas ↔ ∃ branch ∈ listing pages, Selects defaultBranch branch ∧
          branch.sha = .text sha) ∧
      (Incomplete env answers owner repository fuel →
        Throws answers (discoverGitHubBranches env fuel owner repository pat)) := by
  constructor
  · intro authorization defaultBranch pages time hpat h hfuel
    obtain ⟨tips, hdoes, hentries⟩ := does_whole hpat h hfuel
    refine ⟨tips, askedShas (selectedBranches defaultBranch (listing pages)), hdoes.run, ?_, hdoes.calls,
      nodup_askedShas _, ?_⟩
    · intro name tip
      rw [OrderedMap.get?_eq_some, hentries, List.mem_map]
      constructor
      · rintro ⟨branch, hbranch, heq⟩
        obtain ⟨hname, htip⟩ := Prod.mk.inj heq
        obtain ⟨hlisted, hselects⟩ := mem_selectedBranches.1 hbranch
        exact ⟨branch, hlisted, hselects, hname, htip.symm⟩
      · rintro ⟨branch, hlisted, hselects, rfl, rfl⟩
        exact ⟨branch, mem_selectedBranches.2 ⟨hlisted, hselects⟩, rfl⟩
    · intro sha
      rw [mem_askedShas]
      constructor
      · rintro ⟨branch, hbranch, hsha⟩
        obtain ⟨hlisted, hselects⟩ := mem_selectedBranches.1 hbranch
        exact ⟨branch, hlisted, hselects, hsha⟩
      · rintro ⟨branch, hlisted, hselects, hsha⟩
        exact ⟨branch, mem_selectedBranches.2 ⟨hlisted, hselects⟩, hsha⟩
  · intro h
    cases hpat : Headers.normalize (Auth.bearer ++ pat) with
    | none => exact throws_of_unsent hpat fuel owner repository
    | some authorization => exact throws_of_incomplete hpat h

theorem lists_of_pageOf {response : Fetched} {listed : List ListedBranch} {target : Option Str}
    (h : pageOf (.ok response) = .ok (listed, target)) :
    Lists (.ok response) listed (response.headers.get "link".toList) := by
  obtain ⟨header, hlists, -⟩ := pageOf_eq.1 h
  obtain ⟨other, items, hgives, hitems, hheader⟩ := hlists
  obtain rfl := Except.ok.inj hgives.1
  exact ⟨response, items, hgives, hitems, rfl⟩

def secondUrl : Str := "https://api.github.com/branches".toList

def firstPage : Fetched := ⟨200, [("link".toList, "<https://api.github.com/branches>; rel=\"next\"".toList)],
  .bytes (Utf8.encode ("[\x7b\"name\":\"main\",\"commit\":\x7b\"sha\":\"a\"\x7d\x7d,".toList ++
    "\x7b\"name\":\"topic\",\"commit\":\x7b\"sha\":\"b\"\x7d\x7d]".toList)), "api.github.com".toList⟩

def secondPage : Fetched := ⟨200, [],
  .bytes (Utf8.encode "[\x7b\"name\":\"v2\",\"commit\":\x7b\"sha\":\"a\"\x7d\x7d]".toList),
  "api.github.com".toList⟩

def pagedAnswers : ℕ → Except Str Fetched
  | 0 => .ok ⟨200, [], .bytes (Utf8.encode "\x7b\"default_branch\":\"main\"\x7d".toList), "api.github.com".toList⟩
  | 1 => .ok firstPage
  | 2 => .ok secondPage
  | _ => .ok ⟨200, [], .bytes (Utf8.encode
      "\x7b\"commit\":\x7b\"committer\":\x7b\"date\":\"1970-01-01T00:00:07Z\"\x7d\x7d\x7d".toList),
      "api.github.com".toList⟩

def pagedEnv : DiscoveryEnv where
  parseUrl target := if target = secondUrl then
      some ⟨"https:".toList, "api.github.com".toList, .parse Auth.githubOrigin "/branches".toList⟩
    else none
  dateParse date := if date = "1970-01-01T00:00:07Z".toList then some 7000 else none
  numberText := id

def secondLink : Link where
  url := secondUrl
  relations := "next".toList
  url_ne := by decide
  url_plain := by
    have hplain : secondUrl.all (fun c => c != '>' && c != ',') = true := by decide +kernel
    intro c hc
    simpa using List.all_eq_true.1 hplain c hc
  relations_plain := by simp

def pagedPages : List Page :=
  [⟨branchesUrl "acme".toList "widget".toList,
    [⟨"main".toList, "a".toList⟩, ⟨"topic".toList, "b".toList⟩], [secondLink]⟩,
    ⟨.parse Auth.githubOrigin "/branches".toList, [⟨"v2".toList, "a".toList⟩], []⟩]

theorem paged_whole : Whole pagedEnv pagedAnswers "acme".toList "widget".toList "main".toList pagedPages
    fun _ => 7 := by
  have hfirst : Lists (pagedAnswers 1) [⟨"main".toList, "a".toList⟩, ⟨"topic".toList, "b".toList⟩]
      (firstPage.headers.get "link".toList) :=
    lists_of_pageOf (by decide +kernel : pageOf (.ok firstPage) = .ok (_, some secondUrl))
  have hsecond : Lists (pagedAnswers 2) [⟨"v2".toList, "a".toList⟩] (secondPage.headers.get "link".toList) :=
    lists_of_pageOf (by decide +kernel : pageOf (.ok secondPage) = .ok (_, none))
  have hwritten : secondLink.Written "<https://api.github.com/branches>; rel=\"next\"".toList :=
    ⟨[], " ".toList, [], by simp [isWhitespace], by decide +kernel⟩
  have hholds : Holds [secondLink] (firstPage.headers.get "link".toList) :=
    ⟨_, by simp, .cons hwritten .nil, List.intercalate_singleton.symm⟩
  refine ⟨⟨defaultOf_eq.1 (by decide +kernel), ?_, rfl⟩, by decide, ⟨_, List.mem_cons_self, rfl⟩, ?_, ?_⟩
  · exact .next ⟨_, hfirst, hholds⟩ ⟨secondUrl, _, by decide, rfl, rfl⟩ (.last ⟨_, hsecond, rfl⟩ rfl)
  · have htexts : ∀ branch ∈ listing pagedPages, branch.sha.text?.isSome = true := by decide
    intro branch hbranch _
    obtain ⟨sha, hsha⟩ := Option.isSome_iff_exists.1 (htexts branch hbranch)
    exact ⟨sha, JsString.text_of_text? hsha⟩
  · have hasked : askedShas (selectedBranches (.text "main".toList) (listing pagedPages)) = ["a".toList] := by
      decide
    intro i sha hi
    rw [hasked] at hi
    cases i with
    | zero =>
      obtain rfl := Option.some.inj hi
      exact timeOf_eq.1 (by decide +kernel : timeOf pagedEnv "a".toList (pagedAnswers 3) = .ok 7)
    | succ i => cases hi

theorem discovers_whole_paged : ∃ (tips : OrderedMap Str CommitTip) (shas : List Str),
    (discoverGitHubBranches pagedEnv 2 "acme".toList "widget".toList "secret".toList).run (inTurn pagedAnswers) 0 =
      (.ok ⟨"main".toList, tips⟩, 3 + shas.length) ∧ shas.Nodup := by
  obtain ⟨tips, shas, hrun, -, -, hnodup, -⟩ := (discovers_whole pagedEnv "acme".toList "widget".toList
    "secret".toList pagedAnswers 2).1 "Bearer secret".toList "main".toList pagedPages (fun _ => 7)
    (by decide) paged_whole (by decide)
  exact ⟨tips, shas, hrun, hnodup⟩

end JsrProxy.GitHubBranches
