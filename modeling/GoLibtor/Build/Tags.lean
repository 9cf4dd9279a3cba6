import GoLibtor.Build.Machine

/-! Which release of an upstream repository is taken when no commit is locked. -/
namespace GoLibtor

open Text Files Transition

/-- Decimal digits, the most significant one first. -/
def decimal (digits : Str) : ℕ := digits.foldl (fun n c => 10 * n + (c.toNat - '0'.toNat)) 0

/-- `strconv.Atoi` where an `int` has `intSize` bits. -/
def atoi (intSize : ℕ) (s : Str) : Except Err ℤ :=
  let digits := match s with
    | '+' :: ds => ds
    | '-' :: ds => ds
    | ds => ds
  let value : ℤ := if s.head? = some '-' then -(decimal digits) else decimal digits
  if digits ≠ [] ∧ digits.all Char.isDigit ∧ -(2 ^ (intSize - 1)) ≤ value ∧ value < 2 ^ (intSize - 1) then
    .ok value
  else .error (.atoi s)

structure VersionTag where
  name : Str
  version : List ℤ
  prerelease : ℕ
  deriving DecidableEq

def parseVersionParts (intSize : ℕ) (raw : Str) : Except Err (List ℤ) :=
  (splitOn raw '.').mapM (atoi intSize)

/-- The loop of `compareVersionParts`: `n` more positions, from position `i` on. -/
def compareFrom (a b : List ℤ) : (n i : ℕ) → ℤ
  | 0, _ => 0
  | n + 1, i =>
    if a.getD i 0 < b.getD i 0 then -1
    else if a.getD i 0 > b.getD i 0 then 1
    else compareFrom a b n (i + 1)

def compareVersionParts (a b : List ℤ) : ℤ := compareFrom a b (max b.length a.length) 0

def libeventPrereleaseRank (label : Str) : ℕ :=
  if label = [] ∨ label = "stable".toList then 4
  else if label = "rc".toList then 3
  else if label = "beta".toList then 2
  else if label = "alpha".toList ∨ label = "alpha-dev".toList ∨ label = "dev".toList then 1
  else 0

def digitRun : Regexp := .plus (.set fun c => '0' ≤ c ∧ c ≤ '9')

/-- `^v([0-9]+(?:\.[0-9]+)*)$`. -/
def zlibTagPattern : Regexp :=
  .seq .textStart (.seq (.char 'v') (.seq
    (.group 1 (.seq digitRun (.star (.seq (.char '.') digitRun)))) .textEnd))

/-- `[0-9]+(?:\.[0-9]+){2}`. -/
def threeParts : Regexp :=
  .seq digitRun (.seq (.seq (.char '.') digitRun) (.seq (.char '.') digitRun))

/-- `[A-Za-z0-9.-]`. -/
def labelChar (c : Char) : Bool :=
  ('A' ≤ c ∧ c ≤ 'Z') || ('a' ≤ c ∧ c ≤ 'z') || ('0' ≤ c ∧ c ≤ '9') || c == '.' || c == '-'

/-- `^release-([0-9]+(?:\.[0-9]+){2})(?:-([A-Za-z0-9.-]+))?$`. -/
def libeventTagPattern : Regexp :=
  .seq .textStart (.seq (.lit "release-".toList) (.seq (.group 1 threeParts) (.seq
    (.opt (.seq (.char '-') (.group 2 (.plus (.set labelChar))))) .textEnd)))

/-- `^openssl-([0-9]+(?:\.[0-9]+){2})$`. -/
def opensslTagPattern : Regexp :=
  .seq .textStart (.seq (.lit "openssl-".toList) (.seq (.group 1 threeParts) .textEnd))

/-- One tag against the best one so far. -/
def nextBest (intSize : ℕ) (pattern : Regexp) (rank : Place → ℕ) (newer : VersionTag → VersionTag → Bool)
    (best : Option VersionTag) (tag : Str) : Except Err (Option VersionTag) :=
  match pattern.findSubmatch tag with
  | none => .ok best
  | some found => do
    let version ← parseVersionParts intSize (found.submatch 1)
    let candidate : VersionTag := ⟨tag, version, rank found⟩
    match best with
    | none => pure (some candidate)
    | some b => pure (some (if newer candidate b then candidate else b))

def latestTag (intSize : ℕ) (pattern : Regexp) (rank : Place → ℕ) (newer : VersionTag → VersionTag → Bool)
    (missing : Str) (tags : List Str) : Except Err Str := do
  let best ← tags.foldlM (nextBest intSize pattern rank newer) none
  match best with
  | none => .error (.new missing)
  | some tag => pure tag.name

def newerVersion (candidate best : VersionTag) : Bool :=
  decide (0 < compareVersionParts candidate.version best.version)

def newerRelease (candidate best : VersionTag) : Bool :=
  let cmp := compareVersionParts candidate.version best.version
  decide (0 < cmp) || (cmp == 0 && decide (best.prerelease < candidate.prerelease))

section

variable {σ : Type} (m : Machine σ) (intSize : ℕ)

def listGitTags (repo : Path) (pattern : Str) : Gen σ (List Str) := do
  let out ← output m (command repo ["git", "tag", "--list"] [pattern])
  pure (sortStrings (fields out))

def latestZlibTag (repo : Path) : Gen σ Str := do
  let tags ← listGitTags m repo "v*".toList
  checked (latestTag intSize zlibTagPattern (fun _ => 0) newerVersion "no zlib release tag found".toList tags)

def latestLibeventTag (repo : Path) : Gen σ Str := do
  let tags ← listGitTags m repo "release-*".toList
  checked (latestTag intSize libeventTagPattern
    (fun found => libeventPrereleaseRank (toLower (found.submatch 2))) newerRelease
    "no libevent release tag found".toList tags)

def latestOpenSSLTag (repo : Path) : Gen σ Str := do
  let tags ← listGitTags m repo "openssl-*".toList
  checked (latestTag intSize opensslTagPattern (fun _ => 0) newerVersion
    "no OpenSSL release tag found".toList tags)

end

end GoLibtor
