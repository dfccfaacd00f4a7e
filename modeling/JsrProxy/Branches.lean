import JsrProxy.Doubles
import JsrProxy.OrderedMap
import JsrProxy.Text

set_option autoImplicit false

/-!
# Branch selection

The release majors of a repository and the branches that own them. Majors and
timestamps are JavaScript numbers; a timestamp that is not an integer is refused
where a negative one is, so integers stand for all of them.
-/
namespace JsrProxy.Branches
open Text

structure CommitTip where
  sha : Str
  /-- Git committer timestamp in whole Unix seconds. -/
  committedAt : ℤ
deriving DecidableEq, Repr

structure BranchDiscovery where
  defaultBranch : Str
  branches : OrderedMap Str CommitTip
deriving DecidableEq

structure BranchState where
  /-- Highest release major ever seen, including deleted branches. -/
  highestObservedReleaseMajor : Option ℤ
deriving DecidableEq, Repr

structure SelectedBranch where
  branch : Str
  major : ℤ
  tip : CommitTip
deriving DecidableEq, Repr

structure BranchSelection where
  state : BranchState
  branches : List SelectedBranch
deriving DecidableEq, Repr

def isNumeral : Str → Bool
  | ['0'] => true
  | c :: cs => c != '0' && (c :: cs).all Char.isDigit
  | [] => false

/-- Returns the major owned by an exactly named release branch. -/
def releaseMajor (branch : Str) : Option ℤ :=
  match branch with
  | 'v' :: digits =>
    if isNumeral digits then
      let major := Doubles.round (Nat.ofDigitChars 10 digits 0)
      if Doubles.isSafeInteger major then some major else none
    else none
  | _ => none

def observe (observed : Option ℤ) (major : ℤ) : ℤ :=
  match observed with
  | none => major
  | some highest => max highest major

def observeReleases : List (Str × CommitTip) → List SelectedBranch → Option ℤ →
    List SelectedBranch × Option ℤ
  | [], releases, observed => (releases, observed)
  | (branch, tip) :: rest, releases, observed =>
    match releaseMajor branch with
    | none => observeReleases rest releases observed
    | some major =>
      observeReleases rest (releases ++ [⟨branch, major, tip⟩]) (some (observe observed major))

def defaultMajor (observed : Option ℤ) : ℤ :=
  match observed with
  | none => 0
  | some highest => Doubles.add highest 1

/-- Selects only the default and `vN` branches, retaining the historic major
    high-water mark when a release branch is later deleted. -/
def selectBranches (discovery : BranchDiscovery) (prior : BranchState) :
    Except Str BranchSelection :=
  let (releases, observed) :=
    observeReleases discovery.branches.entries [] prior.highestObservedReleaseMajor
  match discovery.branches.get? discovery.defaultBranch with
  | none => .error ("default branch ".toList ++ discovery.defaultBranch ++
      " was not returned by GitHub".toList)
  | some defaultTip =>
    let sameCommitRelease := ((releases.filter fun release =>
      release.tip.sha = defaultTip.sha).insertionSort fun left right => right.major ≤ left.major).head?
    .ok {
      state := ⟨observed⟩
      branches := match sameCommitRelease with
        | some _ => releases
        | none => releases ++ [⟨discovery.defaultBranch, defaultMajor observed, defaultTip⟩] }

end JsrProxy.Branches
