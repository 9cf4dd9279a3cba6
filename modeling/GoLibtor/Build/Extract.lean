import GoLibtor.Text.Strings

/-! What the generator reads out of the output of `make --dry-run`. -/
namespace GoLibtor

open Text

/-- `[[:space:]]`. -/
def spaceClass (c : Char) : Bool :=
  c == '\t' || c == '\n' || c == '\x0b' || c == '\x0c' || c == '\r' || c == ' '

/-- `\s`, which leaves out the vertical tab. -/
def blankClass (c : Char) : Bool :=
  c == '\t' || c == '\n' || c == '\x0c' || c == '\r' || c == ' '

def inRange (lo hi c : Char) : Bool := decide (lo ≤ c) && decide (c ≤ hi)

/-- The loop of `uniqueStrings`: what is in `out` has been seen. -/
def uniqueLoop : List Str → (out : List Str) → List Str
  | [], out => out
  | item :: items, out => uniqueLoop items (if item ∈ out then out else out ++ [item])

def uniqueStrings (items : List Str) : List Str := sortStrings (uniqueLoop items [])

def containsString (items : List Str) (want : Str) : Bool := decide (want ∈ items)

/-- `[a-z0-9_]`. -/
def objectChar (c : Char) : Bool := inRange 'a' 'z' c || inRange '0' '9' c || c == '_'

/-- `(?m)(?:^|[[:space:]])([a-z0-9_]+)\.lo(?:[[:space:];]|$)`. -/
def libeventObjectPattern : Regexp :=
  .seq (.alt .lineStart (.set spaceClass))
    (.seq (.group 1 (.plus (.set objectChar)))
      (.seq (.lit ".lo".toList) (.alt (.set fun c => spaceClass c || c == ';') .lineEnd)))

def extractLibeventObjects (out : Str) : List Str :=
  uniqueStrings ((libeventObjectPattern.findAllSubmatch out).map fun m => m.submatch 1)

/-- `[A-Za-z0-9_./+-]`. -/
def sourceChar (c : Char) : Bool :=
  inRange 'A' 'Z' c || inRange 'a' 'z' c || inRange '0' '9' c || c == '_' || c == '.' || c == '/' ||
    c == '+' || c == '-'

/-- `(?m)-c\s+-o\s+(\S+)\s+([A-Za-z0-9_./+-]+)\.c(?:\s|$)`. -/
def opensslSourcePattern : Regexp :=
  .seq (.lit "-c".toList) (.seq (.plus (.set blankClass)) (.seq (.lit "-o".toList)
    (.seq (.plus (.set blankClass)) (.seq (.group 1 (.plus (.set fun c => !blankClass c)))
      (.seq (.plus (.set blankClass)) (.seq (.group 2 (.plus (.set sourceChar)))
        (.seq (.lit ".c".toList) (.alt (.set blankClass) .lineEnd))))))))

/-- The objects that belong to the libraries. -/
def libraryObject (object : Str) : Bool :=
  contains object "libcrypto-lib-".toList || contains object "libssl-lib-".toList ||
    contains object "libcommon-lib-".toList || contains object "libdefault-lib-".toList

def extractOpenSSLSources (out : Str) : List Str :=
  uniqueStrings (((opensslSourcePattern.findAllSubmatch out).filter fun m =>
    libraryObject (trimPrefix (m.submatch 1) "./".toList)).map fun m =>
      trimPrefix (m.submatch 2) "./".toList)

/-- Lower-case letters, digits, the underscore, the slash and the minus sign. -/
def torSourceChar (c : Char) : Bool :=
  inRange 'a' 'z' c || inRange '0' '9' c || c == '_' || c == '/' || c == '-'

/-- A non-empty run of these, as group 1, and then `.c`. -/
def torSourcePattern : Regexp := .seq (.group 1 (.plus (.set torSourceChar))) (.lit ".c".toList)

/-- The `dep[1]` of every match of the scan in `wrapTor`, repetitions included. -/
def extractTorSources (out : Str) : List Str :=
  (torSourcePattern.findAllSubmatch out).map fun m => m.submatch 1

theorem mem_uniqueLoop {s : Str} {items out : List Str} :
    s ∈ uniqueLoop items out ↔ s ∈ out ∨ s ∈ items := by
  induction items generalizing out with
  | nil => simp [uniqueLoop]
  | cons item items ih =>
    rw [uniqueLoop, ih]
    split
    next hmem =>
      simp only [List.mem_cons]
      constructor
      · rintro (h | h)
        · exact Or.inl h
        · exact Or.inr (Or.inr h)
      · rintro (h | rfl | h)
        · exact Or.inl h
        · exact Or.inl hmem
        · exact Or.inr h
    next => simp [or_assoc]

theorem uniqueLoop_nodup {items out : List Str} (h : out.Nodup) : (uniqueLoop items out).Nodup := by
  induction items generalizing out with
  | nil => exact h
  | cons item items ih =>
    rw [uniqueLoop]
    split
    next => exact ih h
    next hmem =>
      refine ih (List.nodup_append.mpr ⟨h, List.nodup_singleton item, ?_⟩)
      rintro a ha b hb rfl
      exact hmem (List.mem_singleton.mp hb ▸ ha)

theorem mem_uniqueStrings {s : Str} {items : List Str} : s ∈ uniqueStrings items ↔ s ∈ items := by
  rw [uniqueStrings, mem_sortStrings, mem_uniqueLoop]
  simp

theorem uniqueStrings_strict (items : List Str) : (uniqueStrings items).Pairwise (· < ·) :=
  sortStrings_strict (uniqueLoop_nodup List.nodup_nil)

end GoLibtor
