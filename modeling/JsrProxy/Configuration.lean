import JsrProxy.Identity
import JsrProxy.JsonText
import JsrProxy.OrderedMap

set_option autoImplicit false

/-!
# Configuration

The JSON configuration that the deployment provides: the scopes that are taken over
from JSR, each with its GitHub owner, and the trusted users.
-/
namespace JsrProxy

structure GitHubScope where
  owner : Str
deriving DecidableEq, Repr

structure ProxyConfig where
  scopes : OrderedMap Str GitHubScope
  trustedGitHubUsers : List JsString
deriving DecidableEq

namespace Config

/-- Array indices come first among the properties of an object, in ascending order. -/
def arrayIndex (key : Str) : Option ℕ :=
  if !key.isEmpty && key.all Char.isDigit && (key.length = 1 || key.head? ≠ some '0') &&
      Nat.ofDigitChars 10 key 0 < 2 ^ 32 - 1 then
    some (Nat.ofDigitChars 10 key 0)
  else none

/-- The properties of a parsed object. A repeated name keeps its first place and its last value. -/
def properties (members : List (JsString × Json)) : List (JsString × Json) :=
  let own := (members.foldl (fun map member => map.set member.1 member.2) OrderedMap.empty).entries
  let indexed := own.filterMap fun member => (arrayIndex member.1.wellFormed).map fun index => (index, member)
  (indexed.insertionSort fun left right => left.1 ≤ right.1).map Prod.snd ++
    own.filter fun member => (arrayIndex member.1.wellFormed).isNone

def entries : Json → List (JsString × Json)
  | .object members => properties members
  | .array items => items.zipIdx.map fun item => (.text (Nat.toDigits 10 item.2), item.1)
  | .string text => text.wellFormed.zipIdx.map fun c => (.text (Nat.toDigits 10 c.2), .string (.text [c.1]))
  | _ => []

def readScope (scope : Str) (entry : Json) : Except Str GitHubScope :=
  if !Identity.isScope scope then .error ("invalid configured scope: ".toList ++ scope)
  else
    match entry with
    | .null => .error "Cannot read properties of null (reading 'type')".toList
    | entry =>
      match entry.get? "type".toList with
      | some (.string type) =>
        if type ≠ .text "github".toList then
          .error ("scope @".toList ++ scope ++ " must have type github".toList)
        else
          match entry.get? "owner".toList with
          | none | some .null => .ok ⟨scope⟩
          | some (.string owner) =>
            if owner.wellFormed.isEmpty then
              .error ("scope @".toList ++ scope ++ " has an invalid GitHub owner".toList)
            else .ok ⟨owner.wellFormed⟩
          | some _ => .error ("scope @".toList ++ scope ++ " has an invalid GitHub owner".toList)
      | _ => .error ("scope @".toList ++ scope ++ " must have type github".toList)

def readScopes (scopes : OrderedMap Str GitHubScope) :
    List (JsString × Json) → Except Str (OrderedMap Str GitHubScope)
  | [] => .ok scopes
  | (scope, entry) :: rest =>
    match readScope scope.wellFormed entry with
    | .error message => .error message
    | .ok parsed => readScopes (scopes.set scope.wellFormed parsed) rest

def readUser : Json → Option JsString
  | .string user => if user.wellFormed.isEmpty then none else some user
  | _ => none

def readUsers (users : Option Json) : Except Str (List JsString) :=
  match users with
  | none => .ok []
  | some (.array items) =>
    match items.mapM readUser with
    | some users => .ok users
    | none => .error "trusted_github_users must be an array of non-empty strings".toList
  | some _ => .error "trusted_github_users must be an array of non-empty strings".toList

def readConfig (raw : Json) : Except Str ProxyConfig :=
  match raw with
  | .null => .error "Cannot read properties of null (reading 'scopes')".toList
  | raw =>
    match readScopes .empty (match raw.get? "scopes".toList with
      | none | some .null => []
      | some scopes => entries scopes) with
    | .error message => .error message
    | .ok scopes =>
      match readUsers (raw.get? "trusted_github_users".toList) with
      | .error message => .error message
      | .ok users => .ok ⟨scopes, users⟩

/-- Parses the JSON configuration provided to the Worker by its deployment. -/
def parseConfig (value : Option Str) : Except Str ProxyConfig :=
  match value with
  | none | some [] => .ok ⟨.empty, []⟩
  | some value =>
    match Json.parse value with
    | none => .error "JSRPROXY_CONFIG must contain valid JSON".toList
    | some raw => readConfig raw

theorem readScopes_isScope {scopes configured : OrderedMap Str GitHubScope} {rest : List (JsString × Json)}
    (h : readScopes scopes rest = .ok configured)
    (hscopes : ∀ scope, scopes.has scope = true → Identity.isScope scope = true) :
    ∀ scope, configured.has scope = true → Identity.isScope scope = true := by
  induction rest generalizing scopes with
  | nil =>
    obtain rfl := Except.ok.inj h
    exact hscopes
  | cons entry rest ih =>
    rw [readScopes] at h
    cases hread : readScope entry.1.wellFormed entry.2 with
    | error message =>
      rw [hread] at h
      cases h
    | ok parsed =>
      rw [hread] at h
      apply ih h
      intro scope hhas
      by_cases he : scope = entry.1.wellFormed
      · subst he
        by_contra hinvalid
        rw [Bool.not_eq_true] at hinvalid
        unfold readScope at hread
        rw [if_pos (by rw [hinvalid]; rfl)] at hread
        cases hread
      · rw [OrderedMap.has, OrderedMap.get?_set_of_ne _ _ he] at hhas
        exact hscopes scope hhas

/-- Only scopes that a package path may name are configured. -/
theorem parseConfig_isScope {value : Option Str} {config : ProxyConfig}
    (h : parseConfig value = .ok config) {scope : Str} (hscope : config.scopes.has scope = true) :
    Identity.isScope scope = true := by
  have hempty : ∀ scope, (OrderedMap.empty : OrderedMap Str GitHubScope).has scope = true →
      Identity.isScope scope = true := fun scope hhas => nomatch hhas
  unfold parseConfig at h
  split at h
  · obtain rfl := Except.ok.inj h
    exact hempty scope hscope
  · obtain rfl := Except.ok.inj h
    exact hempty scope hscope
  · split at h
    · cases h
    · unfold readConfig at h
      split at h
      · cases h
      · split at h
        · cases h
        · rename_i hread
          split at h
          · cases h
          · obtain rfl := Except.ok.inj h
            exact readScopes_isScope hread hempty scope hscope

end Config
end JsrProxy
