import JsrProxy.Base64
import JsrProxy.Http
import JsrProxy.PackageObject
import JsrProxy.Sha256

set_option autoImplicit false

/-!
# GitHub authorization

The one form of credential, its fingerprint, and what an answer of GitHub decides.
Seconds are kept as the exact quotient.
-/
namespace JsrProxy

structure AdmissionRecord where
  granted : Bool
  expiresAt : ℤ
deriving DecidableEq, Repr

inductive GitHubResult
  | decision (decision : AdmissionRecord)
  | unavailable (retryAfterSeconds : Option ℚ)
deriving DecidableEq, Repr

inductive Body
  | absent
  | bytes (content : Bytes)
  | broken (message : Str)
deriving DecidableEq, Repr

structure Fetched where
  status : ℕ
  headers : Headers
  body : Body
  hostname : Str
deriving DecidableEq, Repr

namespace Body

/-- `json()`, with nothing for a body that fails to be read or parsed. -/
def json : Body → Option Json
  | .bytes content => Json.parse (Utf8.decode content)
  | _ => none

end Body

def Fetched.ok (response : Fetched) : Bool := Response.isOk response.status

namespace Auth

def bearer : Str := "Bearer ".toList

/-- The only credential form accepted for configured GitHub-backed scopes. -/
def githubPat (headers : Headers) : Option Str :=
  let authorization := (headers.get "authorization".toList).getD []
  if bearer.isPrefixOf authorization && !(authorization.drop 7).isEmpty &&
      (authorization.drop 7).all fun c => !isWhitespace c then
    some (authorization.drop 7)
  else none

theorem githubPat_eq_some {headers : Headers} {pat : Str} (h : githubPat headers = some pat) :
    headers.get "authorization".toList = some (bearer ++ pat) ∧ pat ≠ [] ∧
      pat.all (fun c => !isWhitespace c) = true := by
  unfold githubPat at h
  dsimp only at h
  split_ifs at h with hform
  obtain rfl := Option.some.inj h
  simp only [Bool.and_eq_true, Bool.not_eq_true', List.isEmpty_eq_false_iff] at hform
  obtain ⟨⟨hbearer, hne⟩, hspace⟩ := hform
  refine ⟨?_, hne, hspace⟩
  cases hget : headers.get "authorization".toList with
  | none =>
    rw [hget] at hne
    exact absurd rfl hne
  | some value =>
    rw [hget, Option.getD_some] at hbearer
    obtain ⟨rest, rfl⟩ := List.isPrefixOf_iff_prefix.1 hbearer
    have hlength : bearer.length = 7 := rfl
    rw [Option.getD_some, ← hlength, List.drop_left]

def hmacKey (key : Bytes) : Bytes :=
  let short := if 64 < key.length then Sha256.digest key else key
  short ++ List.replicate (64 - short.length) 0

def hmac (key message : Bytes) : Bytes :=
  Sha256.digest ((hmacKey key).map (· ^^^ 0x5c) ++
    Sha256.digest ((hmacKey key).map (· ^^^ 0x36) ++ message))

def base64Url (bytes : Bytes) : Str :=
  ((Base64.encode bytes).map fun c => if c = '+' then '-' else if c = '/' then '_' else c).rdropWhile (· = '=')

/-- A stable secret-free identifier for a caller credential. -/
def fingerprintPat (secret pat : Str) : Str := base64Url (hmac (Utf8.encode secret) (Utf8.encode pat))

def isDigits (text : Str) : Bool := !text.isEmpty && text.all Char.isDigit

/-- `Number(digits)` -/
def numberOf (digits : Str) : ℤ := Doubles.round (Nat.ofDigitChars 10 digits 0)

def retryAfter (headers : Headers) (now : ℤ) : Option ℚ :=
  match (headers.get "retry-after".toList).filter isDigits,
    (headers.get "x-ratelimit-reset".toList).filter isDigits with
  | some seconds, _ => some (numberOf seconds)
  | none, some reset =>
    some (max 1 (Doubles.add (Doubles.add (Doubles.mul (numberOf reset) 1000) (-now)) 1000) / 1000)
  | none, none => none

/-- Classifies an authenticated GitHub REST response without persisting its PAT. -/
def classifyGitHubResponse (response : Fetched) (now : ℤ) : GitHubResult :=
  if response.status = 401 ∨ response.status = 404 then .decision ⟨false, now + 60000⟩
  else if !response.ok || response.status = 403 || response.status = 429 then
    .unavailable (retryAfter response.headers now)
  else .decision ⟨true, now + 60000⟩

def githubOrigin : Str := "https://api.github.com".toList

/-- Sends the minimally scoped authenticated request used by admission and repository
    gates. A PAT that no header can carry throws. -/
def githubRequest (path pat : Str) : Except Str Request :=
  match Headers.normalize (bearer ++ pat) with
  | none => .error "invalid header value".toList
  | some authorization => .ok ⟨"GET".toList, .parse githubOrigin path,
      [("accept".toList, "application/vnd.github+json".toList),
        ("authorization".toList, authorization), ("user-agent".toList, "jsrproxy".toList),
        ("x-github-api-version".toList, "2022-11-28".toList)], []⟩

theorem classify_granted {response : Fetched} {now : ℤ} {decision : AdmissionRecord}
    (h : classifyGitHubResponse response now = .decision decision) (hgranted : decision.granted = true) :
    response.ok = true ∧ decision.expiresAt = now + 60000 := by
  unfold classifyGitHubResponse at h
  split_ifs at h with hrefused hunavailable
  · cases h
    cases hgranted
  · cases h
    simp only [Bool.or_eq_true, Bool.not_eq_true', decide_eq_true_eq, not_or] at hunavailable
    exact ⟨by simpa using hunavailable.1.1, rfl⟩

theorem classify_decision {response : Fetched} {now : ℤ} {decision : AdmissionRecord}
    (h : classifyGitHubResponse response now = .decision decision) : decision.expiresAt = now + 60000 := by
  unfold classifyGitHubResponse at h
  split_ifs at h <;> cases h <;> rfl

end Auth
end JsrProxy
