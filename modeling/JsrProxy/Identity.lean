import JsrProxy.PackageRegistry
import JsrProxy.Segments
import JsrProxy.SourceArchive

set_option autoImplicit false

/-!
# Package identities

The paths that name a synthetic package. The characters of a scope, a name and a
version exclude what follows each of them, so a pattern matches in one way only.
-/
namespace JsrProxy.Identity

def isLowerAlphanum (c : Char) : Bool := c.isDigit || ('a' ≤ c && c ≤ 'z')

def isNameChar (c : Char) : Bool := isLowerAlphanum c || c = '-'

def isScope : Str → Bool
  | [] => false
  | c :: rest => isLowerAlphanum c && rest.all isNameChar

/-- Returns the JSR identity for a proxyable GitHub repository name. Callers pass
    ASCII names, where `toLowerCase` agrees with this. -/
def proxyableRepositoryName (repository : Str) : Option Str :=
  let name := toAsciiLowercase repository
  if isScope name = true ∧ 2 ≤ name.length ∧ name.length ≤ 58 ∧ ¬ "--".toList <:+: name then some name
  else none

def scopeAndName (input : Str) : Option (Str × Str × Str) :=
  match input.dropWhile isNameChar with
  | '/' :: rest =>
    if isScope (input.takeWhile isNameChar) && !(rest.takeWhile isNameChar).isEmpty then
      some (input.takeWhile isNameChar, rest.takeWhile isNameChar, rest.dropWhile isNameChar)
    else none
  | _ => none

def takeVersion (input : Str) : Option (Str × Str) :=
  match input.takeWhile Char.isDigit, input.dropWhile Char.isDigit with
  | major, '.' :: input =>
    match input.takeWhile Char.isDigit, input.dropWhile Char.isDigit with
    | minor, '.' :: input =>
      if major.isEmpty || minor.isEmpty || (input.takeWhile Char.isDigit).isEmpty then none
      else some (major ++ '.' :: minor ++ '.' :: input.takeWhile Char.isDigit,
        input.dropWhile Char.isDigit)
    | _, _ => none
  | _, _ => none

def parsePackageIdentity (pathname : Str) : Option PackageName :=
  match pathname with
  | '/' :: '@' :: input =>
    match scopeAndName input with
    | none => none
    | some (scope, name, rest) =>
      if rest = [] ∨ rest.head? = some '/' then (proxyableRepositoryName name).map fun name => ⟨scope, name⟩
      else none
  | _ => none

def afterPrefix (route pathname : Str) : Option Str :=
  if route.isPrefixOf pathname then some (pathname.drop route.length) else none

def statusRoute : Str := "/-/status/@".toList

def recoveryRoute : Str := "/-/recover/@".toList

def versionSegment (rest : Str) : Option Str :=
  match rest with
  | '/' :: input =>
    match takeVersion input with
    | some (version, []) => some version
    | _ => none
  | _ => none

structure StatusPath where
  identity : PackageName
  version : Option Str
deriving DecidableEq, Repr

structure RecoveryPath where
  identity : PackageName
  version : Str
deriving DecidableEq, Repr

/-- Parses the authenticated diagnostic route for a synthetic package. -/
def parsePackageStatusPath (pathname : Str) : Option StatusPath :=
  match (afterPrefix statusRoute pathname).bind scopeAndName with
  | none => none
  | some (scope, name, rest) =>
    match rest, versionSegment rest with
    | [], _ => (proxyableRepositoryName name).map fun name => ⟨⟨scope, name⟩, none⟩
    | _, some version => (proxyableRepositoryName name).map fun name => ⟨⟨scope, name⟩, some version⟩
    | _, none => none

/-- Parses the deployment-operator recovery route for one published version. -/
def parsePackageRecoveryPath (pathname : Str) : Option RecoveryPath :=
  match (afterPrefix recoveryRoute pathname).bind scopeAndName with
  | none => none
  | some (scope, name, rest) =>
    match versionSegment rest with
    | some version => (proxyableRepositoryName name).map fun name => ⟨⟨scope, name⟩, version⟩
    | none => none

theorem isNameChar_slash : isNameChar '/' = false := by decide

theorem isNameChar_of_isLowerAlphanum {c : Char} (h : isLowerAlphanum c = true) :
    isNameChar c = true := by
  rw [isNameChar, h, Bool.true_or]

theorem isScope_chars {scope : Str} (h : isScope scope = true) :
    scope ≠ [] ∧ ∀ c ∈ scope, isNameChar c = true := by
  cases scope with
  | nil => cases h
  | cons c rest =>
    rw [isScope, Bool.and_eq_true, List.all_eq_true] at h
    refine ⟨List.cons_ne_nil _ _, ?_⟩
    intro d hd
    rcases List.mem_cons.1 hd with rfl | hd
    · exact isNameChar_of_isLowerAlphanum h.1
    · exact h.2 d hd

theorem toLower_of_isNameChar {c : Char} (h : isNameChar c = true) : c.toLower = c := by
  simp only [isNameChar, isLowerAlphanum, Char.isDigit, Bool.or_eq_true, Bool.and_eq_true,
    decide_eq_true_eq, ge_iff_le, Char.le_def, UInt32.le_iff_toNat_le] at h
  change ((48 ≤ c.toNat ∧ c.toNat ≤ 57) ∨ (97 ≤ c.toNat ∧ c.toNat ≤ 122)) ∨ c = '-' at h
  unfold Char.toLower
  rw [dif_neg]
  rintro ⟨hlow, hhigh⟩
  have hlow' : 65 ≤ c.toNat := hlow
  have hhigh' : c.toNat ≤ 90 := hhigh
  rcases h with h | rfl
  · omega
  · exact absurd hlow' (by decide)

theorem parsePackageIdentity_some {pathname : Str} {identity : PackageName}
    (h : parsePackageIdentity pathname = some identity) :
    isScope identity.scope = true ∧ isScope identity.name = true ∧
      proxyableRepositoryName identity.name = some identity.name := by
  unfold parsePackageIdentity at h
  split at h
  · rename_i input
    cases hs : scopeAndName input with
    | none =>
      rw [hs] at h
      cases h
    | some parsed =>
      obtain ⟨scope, name, rest⟩ := parsed
      rw [hs] at h
      dsimp only at h
      split_ifs at h
      obtain ⟨name', hname, rfl⟩ := Option.map_eq_some_iff.1 h
      have hscope : isScope scope = true := by
        unfold scopeAndName at hs
        split at hs
        · split_ifs at hs with hvalid
          obtain ⟨rfl, -⟩ := Prod.mk.inj (Option.some.inj hs)
          rw [Bool.and_eq_true] at hvalid
          exact hvalid.1
        · cases hs
      unfold proxyableRepositoryName at hname
      dsimp only at hname
      split_ifs at hname with hvalid
      obtain rfl := Option.some.inj hname
      have hsame : toAsciiLowercase (toAsciiLowercase name) = toAsciiLowercase name := by
        conv_rhs => rw [← List.map_id (toAsciiLowercase name)]
        apply List.map_congr_left
        intro c hc
        exact toLower_of_isNameChar ((isScope_chars hvalid.1).2 c hc)
      refine ⟨hscope, hvalid.1, ?_⟩
      rw [proxyableRepositoryName, hsame]
      exact if_pos hvalid
  · cases h

theorem scopeAndName_append {scope name rest : Str} (hscope : isScope scope = true)
    (hname : isScope name = true)
    (hrest : ∀ c, rest.head? = some c → isNameChar c = false) :
    scopeAndName (scope ++ '/' :: (name ++ rest)) = some (scope, name, rest) := by
  obtain ⟨-, hscopeChars⟩ := isScope_chars hscope
  obtain ⟨hne, hnameChars⟩ := isScope_chars hname
  have hslash : ∀ c, ('/' :: (name ++ rest)).head? = some c → isNameChar c = false := by
    intro c hc
    obtain rfl := Option.some.inj hc
    exact isNameChar_slash
  obtain ⟨htake, hdrop⟩ := Segments.span_append hscopeChars hslash
  obtain ⟨htakeName, hdropName⟩ := Segments.span_append hnameChars hrest
  have hempty : name.isEmpty = false := List.isEmpty_eq_false_iff.2 hne
  rw [scopeAndName, hdrop]
  simp only [htake, htakeName, hdropName, hscope, hempty, Bool.not_false, Bool.and_self, if_true]

theorem parsePackageIdentity_again {pathname : Str} {identity : PackageName}
    (h : parsePackageIdentity pathname = some identity) (rest : Str) :
    parsePackageIdentity ('/' :: '@' :: (identity.scope ++ '/' :: (identity.name ++ '/' :: rest)))
      = some identity := by
  obtain ⟨hscope, hname, hvalid⟩ := parsePackageIdentity_some h
  have hslash : ∀ c, ('/' :: rest).head? = some c → isNameChar c = false := by
    intro c hc
    obtain rfl := Option.some.inj hc
    exact isNameChar_slash
  rw [parsePackageIdentity, scopeAndName_append hscope hname hslash]
  simp [hvalid]

end JsrProxy.Identity
