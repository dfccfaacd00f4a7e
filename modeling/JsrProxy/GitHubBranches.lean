import JsrProxy.FailedCalls
import JsrProxy.WorkerRequests

set_option autoImplicit false

/-!
# Discovery of branches

How the default branch and the release branches are read from GitHub: the repository,
the pages of its branches, and one commit for each distinct tip. The loop over the pages
gets a number of pages after which it is left unfinished.
-/
namespace JsrProxy
open Branches

abbrev githubCalls : Effects := ⟨Request, fun _ => Except Str Fetched⟩

/-- The library functions that the discovery rests on. `Date.parse` is in milliseconds,
    and none where it is not a number. `numberText` is the text of a number with the digits. -/
structure DiscoveryEnv where
  parseUrl : Str → Option AbsoluteUrl
  dateParse : JsString → Option ℤ
  numberText : Str → Str

/-- A response that distinguishes an absent repository from an outage, what else is
    thrown, or a listing that goes on. -/
inductive DiscoveryError
  | refused (response : Fetched)
  | thrown (message : Str)
  | unfinished
deriving DecidableEq

structure ListedBranch where
  name : JsString
  sha : JsString
deriving DecidableEq

namespace GitHubBranches
open ObjectHandlers Worker

abbrev Discovering (α : Type) := Program githubCalls (Except DiscoveryError α)

def fail {α : Type} (error : DiscoveryError) : Discovering α := .done (.error error)

/-- `githubRequest` of a URL that may lead anywhere. -/
def githubRequest (url : Url) (pat : Str) : Except Str Request :=
  match Headers.normalize (Auth.bearer ++ pat) with
  | none => .error "invalid header value".toList
  | some authorization => .ok ⟨"GET".toList, url,
      [("accept".toList, "application/vnd.github+json".toList),
        ("authorization".toList, authorization), ("user-agent".toList, "jsrproxy".toList),
        ("x-github-api-version".toList, "2022-11-28".toList)], []⟩

def fetch (request : Except Str Request) : Discovering Fetched :=
  match request with
  | .error message => fail (.thrown message)
  | .ok request => .call (E := githubCalls) request fun answer : Except Str Fetched =>
      .done (answer.mapError .thrown)

def fetchJson (request : Except Str Request) : Discovering (Fetched × Json) :=
  (fetch request).andThen fun response =>
    if !response.ok then fail (.refused response)
    else .done ((response.body.parsed.mapError .thrown).map fun value => (response, value))

/-- `^\s*<([^>]+)>;\s*rel="([^"]+)"\s*$` -/
def linkEntry (part : Str) : Option (Str × Str) :=
  match part.dropWhile isWhitespace with
  | '<' :: rest =>
    match Identity.afterPrefix ">;".toList (rest.dropWhile (· ≠ '>')) with
    | none => none
    | some parameters =>
      match Identity.afterPrefix "rel=\"".toList (parameters.dropWhile isWhitespace) with
      | none => none
      | some quoted =>
        match quoted.dropWhile (· ≠ '"') with
        | [] => none
        | _ :: trailing =>
          if rest.takeWhile (· ≠ '>') = [] ∨ quoted.takeWhile (· ≠ '"') = [] then none
          else if trailing.all isWhitespace then
            some (rest.takeWhile (· ≠ '>'), quoted.takeWhile (· ≠ '"'))
          else none
  | _ => none

def linkTarget (link : Option Str) (relation : Str) : Option Str :=
  match link with
  | none => none
  | some link => (link.splitOn ',').findSome? fun part =>
      match linkEntry part with
      | some (target, relations) =>
        if (relations.splitOn ' ').contains relation then some target else none
      | none => none

def readBranch (value : Json) : Except Str ListedBranch :=
  match property value "name" with
  | .error message => .error message
  | .ok name =>
    match stringOf name, stringOf ((value.get? "commit".toList).bind (·.get? "sha".toList)) with
    | some name, some sha => .ok ⟨name, sha⟩
    | _, _ => .error "GitHub branch response was malformed".toList

def readPage (page : Json) : Except Str (List ListedBranch) :=
  match page with
  | .array items => items.mapM readBranch
  | _ => .error "GitHub branches response was not an array".toList

def linkedUrl (env : DiscoveryEnv) (target : Str) : Except Str Url :=
  match env.parseUrl target with
  | none => .error "Invalid URL".toList
  | some absolute => .ok absolute.url

def listBranches (env : DiscoveryEnv) (pat : Str) :
    ℕ → Except Str Url → List ListedBranch → Discovering (List ListedBranch)
  | 0, _, _ => fail .unfinished
  | pages + 1, url, branches =>
    (fetchJson (url.bind (githubRequest · pat))).andThen fun (response, page) =>
      match readPage page with
      | .error message => fail (.thrown message)
      | .ok listed =>
        match linkTarget (response.headers.get "link".toList) "next".toList with
        | none => .done (.ok (branches ++ listed))
        | some next => listBranches env pat pages (linkedUrl env next) (branches ++ listed)

def committedAt (env : DiscoveryEnv) (sha : Str) (commit : Json) : Except DiscoveryError ℤ :=
  match property commit "commit" with
  | .error message => .error (.thrown message)
  | .ok found =>
    let date := (found.bind (·.get? "committer".toList)).bind (·.get? "date".toList)
    match (stringOf date).bind env.dateParse with
    | some milliseconds =>
      if milliseconds % 1000 = 0 ∧ Doubles.isSafeInteger (milliseconds / 1000) ∧
          0 ≤ milliseconds / 1000 then .ok (milliseconds / 1000)
      else .error (.thrown ("GitHub commit ".toList ++ sha ++
        " has an invalid committer timestamp".toList))
    | none => .error (.thrown ("GitHub commit ".toList ++ sha ++
        " has an invalid committer timestamp".toList))

abbrev Timestamps := OrderedMap JsString (Except DiscoveryError ℤ)

def commitPath (owner repository sha : Str) : Str :=
  repositoryPath owner repository ++ "/commits/".toList ++ UrlPath.encodeURIComponent sha

/-- No URL can hold a SHA that is no text. -/
def askTimestamp (env : DiscoveryEnv) (owner repository pat : Str) : JsString → Discovering ℤ
  | .text sha =>
    (fetchJson (Auth.githubRequest (commitPath owner repository sha) pat)).andThen fun (_, commit) =>
      .done (committedAt env sha commit)
  | .unpaired _ _ => fail (.thrown "URI malformed".toList)

/-- All requests are on their way before the first answer is looked at. -/
def askTimestamps (env : DiscoveryEnv) (owner repository pat : Str) :
    Timestamps → List ListedBranch → Program githubCalls Timestamps
  | timestamps, [] => .done timestamps
  | timestamps, branch :: rest =>
    if timestamps.has branch.sha then askTimestamps env owner repository pat timestamps rest
    else (askTimestamp env owner repository pat branch.sha).bind fun timestamp =>
      askTimestamps env owner repository pat (timestamps.set branch.sha timestamp) rest

def tipsOf (timestamps : Timestamps) :
    OrderedMap Str CommitTip → List ListedBranch → Except DiscoveryError (OrderedMap Str CommitTip)
  | tips, [] => .ok tips
  | tips, branch :: rest =>
    match timestamps.get? branch.sha with
    | some (.ok timestamp) =>
      tipsOf timestamps (tips.set branch.name.wellFormed ⟨branch.sha.wellFormed, timestamp⟩) rest
    | some (.error error) => .error error
    | none => .error (.thrown "no timestamp".toList)

def isReleaseBranch (name : JsString) : Bool :=
  match name with
  | .text ('v' :: digits) => isNumeral digits
  | _ => false

def selectedBranches (defaultBranch : JsString) (branches : List ListedBranch) : List ListedBranch :=
  branches.filter fun branch => branch.name = defaultBranch || isReleaseBranch branch.name

def readTips (env : DiscoveryEnv) (owner repository pat : Str) (defaultBranch : JsString)
    (branches : List ListedBranch) : Discovering BranchDiscovery :=
  let selected := selectedBranches defaultBranch branches
  if !selected.any fun branch => branch.name = defaultBranch then
    fail (.thrown ("GitHub did not return default branch ".toList ++ defaultBranch.wellFormed))
  else
    (askTimestamps env owner repository pat .empty selected).bind fun timestamps =>
      .done ((tipsOf timestamps .empty selected).map fun tips => ⟨defaultBranch.wellFormed, tips⟩)

/-- Fetches the default and `vN` branch tips required for package versioning. -/
def discoverGitHubBranches (env : DiscoveryEnv) (pages : ℕ) (owner repository pat : Str) :
    Discovering BranchDiscovery :=
  (fetchJson (Auth.githubRequest (repositoryPath owner repository) pat)).andThen fun (_, metadata) =>
    match property metadata "default_branch" with
    | .error message => fail (.thrown message)
    | .ok found =>
      match stringOf found with
      | none | some (.text []) => fail (.thrown "GitHub repository response has no default branch".toList)
      | some defaultBranch =>
        (listBranches env pat pages (.ok (.parse Auth.githubOrigin
          (repositoryPath owner repository ++ "/branches?per_page=100".toList))) []).andThen
            fun branches => readTips env owner repository pat defaultBranch branches

/-- The seconds that a refusal names, unless they are zero. -/
def retryAfterSeconds (env : DiscoveryEnv) (headers : Headers) : Option Str :=
  match (headers.get "retry-after".toList).filter Auth.isDigits with
  | none => none
  | some digits => if Nat.ofDigitChars 10 digits 0 = 0 then none else some (env.numberText digits)

def discovered (env : DiscoveryEnv) (result : Except DiscoveryError BranchDiscovery) : Discovery :=
  match result with
  | .ok discovery => .found discovery
  | .error (.refused response) => .refused response.status (retryAfterSeconds env response.headers)
  | .error _ => .failed

end GitHubBranches
end JsrProxy
