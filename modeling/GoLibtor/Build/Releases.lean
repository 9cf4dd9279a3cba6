import GoLibtor.Build.ReleaseNames
import GoLibtor.Search.Scan

/-! The release that is taken is the greatest of those the tags name, in whatever order git
prints them. -/
namespace GoLibtor

open Text Files Transition Program Search

/-- The components of a version, missing ones being 0. -/
noncomputable def components (version : List ℤ) : Lex (ℕ → ℤ) := toLex fun i => version.getD i 0

/-- The components of a version, missing ones being 0, and then the rank of its label. -/
noncomputable def Releases.key (r : Releases) (parts : List Str) (label : Str) : Lex (ℕ → ℤ) ×ₗ ℕ :=
  toLex (components (parts.map fun part => (decimal part : ℤ)),
    if r.labelled then libeventPrereleaseRank (toLower label) else 0)

/-- The value of a numeral fits an `int` of that many bits. -/
def Fits (intSize : ℕ) (numeral : Str) : Prop := (decimal numeral : ℤ) < 2 ^ (intSize - 1)

/-! ### Versions and their order -/

theorem atoi_numeral (intSize : ℕ) {s : Str} (hs : Numeral s) :
    atoi intSize s = if (decimal s : ℤ) < 2 ^ (intSize - 1) then .ok (decimal s : ℤ) else .error (.atoi s) := by
  obtain ⟨hne, hall⟩ := hs
  cases s with
  | nil => exact absurd rfl hne
  | cons c cs =>
    have hc : c.isDigit = true := hall c List.mem_cons_self
    have hplus : c ≠ '+' := by
      intro h
      rw [h] at hc
      exact absurd hc (by decide)
    have hminus : c ≠ '-' := by
      intro h
      rw [h] at hc
      exact absurd hc (by decide)
    have hdigits : (c :: cs).all Char.isDigit = true := List.all_eq_true.mpr hall
    have hlow : -(2 ^ (intSize - 1) : ℤ) ≤ decimal (c :: cs) := by
      have hpos : (0 : ℤ) < 2 ^ (intSize - 1) := Int.pow_pos (by decide)
      omega
    unfold atoi
    split
    · rename_i heq
      exact absurd (List.cons.inj heq).1 hplus
    · rename_i heq
      exact absurd (List.cons.inj heq).1 hminus
    · simp [hminus, hdigits, hlow]

theorem splitOn_numerals {parts : List Str} (hne : parts ≠ []) (hparts : ∀ part ∈ parts, Numeral part) :
    splitOn (joinWith ".".toList parts) '.' = parts := by
  apply splitOn_joinWith hne
  intro part hpart hdot
  have hdigit : '.'.isDigit = true := (hparts part hpart).2 '.' hdot
  exact absurd hdigit (by decide)

/-- Every component fits, and the version is the list of their values. -/
theorem mapM_atoi_ok {intSize : ℕ} {parts : List Str} (hparts : ∀ part ∈ parts, Numeral part)
    (hfits : ∀ part ∈ parts, Fits intSize part) :
    parts.mapM (atoi intSize) = .ok (parts.map fun part => (decimal part : ℤ)) := by
  apply mapM_ok
  intro part hpart
  rw [atoi_numeral intSize (hparts part hpart)]
  exact if_pos (hfits part hpart)

theorem mapM_atoi_error {intSize : ℕ} {parts : List Str} (hparts : ∀ part ∈ parts, Numeral part)
    (hfits : ∃ part ∈ parts, ¬ Fits intSize part) : ∃ e, parts.mapM (atoi intSize) = .error e := by
  obtain ⟨part, hpart, hlarge⟩ := hfits
  apply mapM_error
  refine ⟨part, hpart, .atoi part, ?_⟩
  rw [atoi_numeral intSize (hparts part hpart)]
  exact if_neg hlarge

/-- The versions compare as at the first position of the range where they differ. -/
theorem compareFrom_pos {a b : List ℤ} {n i : ℕ} :
    0 < compareFrom a b n i ↔
      ∃ k, i ≤ k ∧ k < i + n ∧ (∀ j, i ≤ j → j < k → a.getD j 0 = b.getD j 0) ∧ b.getD k 0 < a.getD k 0 := by
  induction n generalizing i with
  | zero =>
    simp only [compareFrom, lt_irrefl, false_iff]
    intro ⟨k, hle, hlt, _⟩
    omega
  | succ n ih =>
    unfold compareFrom
    split
    · rename_i hlt
      constructor
      · intro h
        exact absurd h (by decide)
      · intro ⟨k, hle, _, hbefore, hk⟩
        rcases Nat.lt_or_eq_of_le hle with hik | hik
        · have heq := hbefore i le_rfl hik
          omega
        · subst hik
          omega
    · split
      · rename_i hnot hgt
        constructor
        · intro _
          exact ⟨i, le_rfl, by omega, fun j hj hji => by omega, hgt⟩
        · intro _
          decide
      · rename_i hnot hnot'
        have heq : a.getD i 0 = b.getD i 0 := by omega
        rw [ih]
        constructor
        · intro ⟨k, hle, hlt, hbefore, hk⟩
          refine ⟨k, by omega, by omega, ?_, hk⟩
          intro j hj hjk
          rcases Nat.lt_or_eq_of_le hj with hij | hij
          · exact hbefore j hij hjk
          · exact hij ▸ heq
        · intro ⟨k, hle, hlt, hbefore, hk⟩
          have hik : i ≠ k := by
            intro h
            subst h
            omega
          exact ⟨k, by omega, by omega, fun j hj hjk => hbefore j (by omega) hjk, hk⟩

theorem compareFrom_zero {a b : List ℤ} {n i : ℕ} :
    compareFrom a b n i = 0 ↔ ∀ j, i ≤ j → j < i + n → a.getD j 0 = b.getD j 0 := by
  induction n generalizing i with
  | zero =>
    simp only [compareFrom, true_iff]
    intro j hj hlt
    omega
  | succ n ih =>
    unfold compareFrom
    split
    · rename_i hlt
      constructor
      · intro h
        exact absurd h (by decide)
      · intro h
        have heq := h i le_rfl (by omega)
        omega
    · split
      · rename_i hnot hgt
        constructor
        · intro h
          exact absurd h (by decide)
        · intro h
          have heq := h i le_rfl (by omega)
          omega
      · rename_i hnot hnot'
        have heq : a.getD i 0 = b.getD i 0 := by omega
        rw [ih]
        constructor
        · intro h j hj hlt
          rcases Nat.lt_or_eq_of_le hj with hij | hij
          · exact h j hij (by omega)
          · exact hij ▸ heq
        · intro h j hj hlt
          exact h j (by omega) (by omega)

theorem components_lt {a b : List ℤ} :
    components a < components b ↔
      ∃ k, (∀ j < k, a.getD j 0 = b.getD j 0) ∧ a.getD k 0 < b.getD k 0 := Iff.rfl

theorem compareVersionParts_pos {a b : List ℤ} :
    0 < compareVersionParts a b ↔ components b < components a := by
  unfold compareVersionParts
  rw [compareFrom_pos, components_lt]
  constructor
  · intro ⟨k, _, _, hbefore, hk⟩
    exact ⟨k, fun j hj => (hbefore j (Nat.zero_le j) hj).symm, hk⟩
  · intro ⟨k, hbefore, hk⟩
    refine ⟨k, Nat.zero_le k, ?_, fun j _ hj => (hbefore j hj).symm, hk⟩
    by_contra hlarge
    have ha : a.getD k 0 = 0 := List.getD_eq_default _ _ (by omega)
    have hb : b.getD k 0 = 0 := List.getD_eq_default _ _ (by omega)
    omega

theorem compareVersionParts_zero {a b : List ℤ} :
    compareVersionParts a b = 0 ↔ components a = components b := by
  unfold compareVersionParts
  rw [compareFrom_zero]
  constructor
  · intro h
    apply congrArg toLex
    funext j
    by_cases hj : j < 0 + max b.length a.length
    · exact h j (Nat.zero_le j) hj
    · rw [List.getD_eq_default _ _ (by omega), List.getD_eq_default _ _ (by omega)]
  · intro h j _ _
    exact congrFun (toLex_inj.mp h) j

/-! ### What is read out of one tag -/

theorem not_dash_joinWith {parts : List Str} (hparts : ∀ part ∈ parts, Numeral part) :
    '-' ∉ joinWith ".".toList parts := by
  cases parts with
  | nil => simp [joinWith]
  | cons part parts =>
    have hdigit : ∀ p ∈ part :: parts, '-' ∉ p := by
      intro p hp hmem
      have hdash : '-'.isDigit = true := (hparts p hp).2 '-' hmem
      exact absurd hdash (by decide)
    rw [joinWith_cons]
    intro h
    rcases List.mem_append.mp h with h | h
    · exact hdigit part List.mem_cons_self h
    · obtain ⟨piece, hpiece, hmem⟩ := List.mem_flatten.mp h
      obtain ⟨p, hp, heq⟩ := List.mem_map.mp hpiece
      rw [← heq] at hmem
      rcases List.mem_append.mp hmem with hmem | hmem
      · exact absurd hmem (by decide)
      · exact hdigit p (List.mem_cons_of_mem part hp) hmem

/-- A tag names one release. -/
theorem Releases.Names.unique {r : Releases} {tag label label' : Str} {parts parts' : List Str}
    (hne : parts ≠ []) (hne' : parts' ≠ []) (h : r.Names tag parts label)
    (h' : r.Names tag parts' label') : parts = parts' ∧ label = label' := by
  have htail : ∀ l : Str, (if l = [] then [] else '-' :: l) = ([] : Str) ∨
      ∃ l', (if l = [] then [] else '-' :: l) = '-' :: l' := by
    intro l
    by_cases hl : l = []
    · exact Or.inl (if_pos hl)
    · exact Or.inr ⟨l, if_neg hl⟩
  have hspelled := List.append_cancel_left (h.spelled.symm.trans h'.spelled)
  obtain ⟨hversion, hlabel⟩ := append_left_of_not_mem (not_dash_joinWith h.numerals)
    (not_dash_joinWith h'.numerals) (htail label) (htail label') hspelled
  constructor
  · rw [← splitOn_numerals hne h.numerals, hversion, splitOn_numerals hne' h'.numerals]
  · by_cases hl : label = []
    · by_cases hl' : label' = []
      · rw [hl, hl']
      · rw [if_pos hl, if_neg hl'] at hlabel
        cases hlabel
    · by_cases hl' : label' = []
      · rw [if_neg hl, if_pos hl'] at hlabel
        cases hlabel
      · rw [if_neg hl, if_neg hl'] at hlabel
        exact (List.cons.inj hlabel).2

noncomputable def VersionTag.key (v : VersionTag) : Lex (ℕ → ℤ) ×ₗ ℕ :=
  toLex (components v.version, v.prerelease)

/-- One tag as `nextBest` reads it. -/
def readTag (intSize : ℕ) (pattern : Regexp) (rank : Place → ℕ) (tag : Str) : Except Err (Option VersionTag) :=
  match pattern.findSubmatch tag with
  | none => .ok none
  | some found =>
    (parseVersionParts intSize (found.submatch 1)).map fun version => some ⟨tag, version, rank found⟩

theorem nextBest_eq (intSize : ℕ) (pattern : Regexp) (rank : Place → ℕ)
    (newer : VersionTag → VersionTag → Bool) :
    nextBest intSize pattern rank newer = offer (readTag intSize pattern rank) newer := by
  funext best tag
  unfold nextBest offer readTag
  cases pattern.findSubmatch tag with
  | none => rfl
  | some found =>
    cases hparse : parseVersionParts intSize (found.submatch 1) with
    | error e =>
      simp only [hparse]
      rfl
    | ok version =>
      simp only [hparse]
      cases best <;> rfl

theorem latestTag_eq (intSize : ℕ) (pattern : Regexp) (rank : Place → ℕ)
    (newer : VersionTag → VersionTag → Bool) (missing : Str) (tags : List Str) :
    latestTag intSize pattern rank newer missing tags =
      (Search.scan (readTag intSize pattern rank) newer tags).bind fun
        | none => .error (.new missing)
        | some tag => .ok tag.name := by
  unfold latestTag Search.scan
  rw [nextBest_eq]
  cases tags.foldlM (offer (readTag intSize pattern rank) newer) none with
  | error e => rfl
  | ok best => cases best <;> rfl

theorem key_lt {b c : VersionTag} :
    b.key < c.key ↔ 0 < compareVersionParts c.version b.version ∨
      compareVersionParts c.version b.version = 0 ∧ b.prerelease < c.prerelease := by
  rw [compareVersionParts_pos, compareVersionParts_zero, eq_comm]
  exact Prod.Lex.toLex_lt_toLex

theorem ranks_newerRelease (intSize : ℕ) (pattern : Regexp) (rank : Place → ℕ) :
    Ranks (readTag intSize pattern rank) newerRelease VersionTag.key := by
  intro _ _ b c _ _
  unfold newerRelease
  rw [key_lt]
  simp

theorem ranks_newerVersion (intSize : ℕ) (pattern : Regexp) :
    Ranks (readTag intSize pattern fun _ => 0) newerVersion VersionTag.key := by
  have hzero : ∀ {a v}, readTag intSize pattern (fun _ => 0) a = .ok (some v) → v.prerelease = 0 := by
    intro a v h
    unfold readTag at h
    cases hfound : pattern.findSubmatch a with
    | none => simp [hfound] at h
    | some found =>
      cases hparse : parseVersionParts intSize (found.submatch 1) with
      | error e => simp [hfound, hparse, Except.map] at h
      | ok version =>
        have heq : (⟨a, version, 0⟩ : VersionTag) = v := by simpa [hfound, hparse, Except.map] using h
        rw [← heq]
  intro _ _ b c hb hc
  unfold newerVersion
  rw [key_lt, hzero hb, hzero hc]
  simp

/-- How the ranks of a selection come out of what the pattern found. -/
def Releases.RankedBy (r : Releases) (rank : Place → ℕ) : Prop :=
  ∀ found, rank found = if r.labelled then libeventPrereleaseRank (toLower (found.submatch 2)) else 0

section

variable {intSize : ℕ} {pattern : Regexp} {rank : Place → ℕ} {r : Releases} {tag label : Str}
  {parts : List Str}

theorem parseVersionParts_found (intSize : ℕ) (hpos : ∀ n, r.counts n → 0 < n) (hreads : Reads pattern r)
    (hnames : r.Names tag parts label) :
    ∃ found, pattern.findSubmatch tag = some found ∧
      parseVersionParts intSize (found.submatch 1) = parts.mapM (atoi intSize) ∧ found.submatch 2 = label := by
  have hne : ∀ {parts : List Str}, r.counts parts.length → parts ≠ [] := by
    intro parts h
    exact List.length_pos_iff.mp (hpos _ h)
  cases hfound : pattern.findSubmatch tag with
  | none => exact absurd hnames (hreads.missing hfound parts label)
  | some found =>
    obtain ⟨parts', label', hnames', hversion, hlabel⟩ := hreads.found hfound
    obtain ⟨hparts, heq⟩ := hnames.unique (hne hnames.counts) (hne hnames'.counts) hnames'
    refine ⟨found, rfl, ?_, by rw [hlabel, heq]⟩
    unfold parseVersionParts
    rw [hversion, ← hparts, splitOn_numerals (hne hnames.counts) hnames.numerals]

/-- A release whose components fit is a candidate with the key of the release. -/
theorem readTag_release (hpos : ∀ n, r.counts n → 0 < n) (hreads : Reads pattern r)
    (hrank : r.RankedBy rank) (hnames : r.Names tag parts label) (hfits : ∀ part ∈ parts, Fits intSize part) :
    ∃ v, readTag intSize pattern rank tag = .ok (some v) ∧ v.name = tag ∧ v.key = r.key parts label := by
  obtain ⟨found, hfound, hparse, hlabel⟩ := parseVersionParts_found intSize hpos hreads hnames
  rw [mapM_atoi_ok hnames.numerals hfits] at hparse
  refine ⟨⟨tag, parts.map fun part => (decimal part : ℤ), rank found⟩, ?_, rfl, ?_⟩
  · unfold readTag
    rw [hfound]
    simp only [hparse]
    rfl
  · unfold VersionTag.key Releases.key
    rw [hrank, hlabel]

theorem readTag_unfit (rank : Place → ℕ) (hpos : ∀ n, r.counts n → 0 < n) (hreads : Reads pattern r)
    (hnames : r.Names tag parts label) (hfits : ∃ part ∈ parts, ¬ Fits intSize part) :
    ∃ e, readTag intSize pattern rank tag = .error e := by
  obtain ⟨found, hfound, hparse, _⟩ := parseVersionParts_found intSize hpos hreads hnames
  obtain ⟨e, he⟩ := mapM_atoi_error hnames.numerals hfits
  refine ⟨e, ?_⟩
  unfold readTag
  rw [hfound]
  simp only [hparse, he]
  rfl

theorem readTag_other (hreads : Reads pattern r) (hother : ∀ parts label, ¬ r.Names tag parts label) :
    readTag intSize pattern rank tag = .ok none := by
  unfold readTag
  cases hfound : pattern.findSubmatch tag with
  | none => rfl
  | some found =>
    obtain ⟨parts, label, hnames, _⟩ := hreads.found hfound
    exact absurd hnames (hother parts label)

end

/-! ### The three selections -/

namespace Releases

variable (r : Releases)

/-- git printed these tags. -/
def Printed {σ : Type} (m : Machine σ) (repo : Path) (w : World σ) (tags : List Str) : Prop :=
  let reply := m.exec w.machine (within repo.head? w.files)
    (command repo ["git", "tag", "--list"] [r.glob.toList])
  reply.ok = true ∧ fields reply.out = tags

/-- There is no release to take, or one whose version cannot be read. -/
def Unreadable (intSize : ℕ) (tags : List Str) : Prop :=
  (∀ tag ∈ tags, ∀ parts label, ¬ r.Names tag parts label) ∨
    ∃ tag ∈ tags, ∃ parts label, r.Names tag parts label ∧ ∃ part ∈ parts, ¬ Fits intSize part

/-- A listed release with the greatest key, the first in order of those with this key. -/
def Greatest (tags : List Str) (tag : Str) : Prop :=
  tag ∈ tags ∧ ∃ parts label, r.Names tag parts label ∧
    ∀ tag' ∈ tags, ∀ parts' label', r.Names tag' parts' label' →
      r.key parts' label' ≤ r.key parts label ∧
        (r.key parts' label' = r.key parts label → tag ≤ tag')

/-- What a selection answers when git lists the tags. -/
structure Selects (intSize : ℕ) (latest : ∀ {σ : Type}, Machine σ → Path → Gen σ Str) : Prop where
  fails : ∀ {σ : Type} {m : Machine σ} {repo : Path} {w : World σ} {tags : List Str},
    r.Printed m repo w tags →
      ((∃ e, ((latest m repo).run w).result = .error (.returned e)) ↔ r.Unreadable intSize tags)
  takes : ∀ {σ : Type} {m : Machine σ} {repo : Path} {w : World σ} {tags : List Str},
    r.Printed m repo w tags → ¬ r.Unreadable intSize tags →
      ∃ tag, ((latest m repo).run w).result = .ok tag ∧ r.Greatest tags tag
  reordered : ∀ {σ σ' : Type} {m : Machine σ} {m' : Machine σ'} {repo repo' : Path} {w : World σ}
    {w' : World σ'} {tags tags' : List Str}, r.Printed m repo w tags → r.Printed m' repo' w' tags' →
      (∀ tag, tag ∈ tags ↔ tag ∈ tags') → ((latest m repo).run w).result = ((latest m' repo').run w').result

end Releases

section

variable {intSize : ℕ} {pattern : Regexp} {rank : Place → ℕ} {newer : VersionTag → VersionTag → Bool}
  {missing : Str} {r : Releases} {tags : List Str}

theorem latestTag_fails (missing : Str) (hpos : ∀ n, r.counts n → 0 < n) (hreads : Reads pattern r)
    (hrank : r.RankedBy rank) (hranks : Ranks (readTag intSize pattern rank) newer VersionTag.key)
    (hsorted : tags.Pairwise (· ≤ ·)) :
    (∃ e, latestTag intSize pattern rank newer missing tags = .error e) ↔ r.Unreadable intSize tags := by
  rw [latestTag_eq]
  cases hscan : Search.scan (readTag intSize pattern rank) newer tags with
  | error e =>
    constructor
    · intro _
      obtain ⟨tag, htag, hread, _⟩ := error_of_scan hsorted hscan
      have hnames : ∃ parts label, r.Names tag parts label := by
        by_contra hother
        push Not at hother
        rw [readTag_other hreads hother] at hread
        cases hread
      obtain ⟨parts, label, hnames⟩ := hnames
      right
      refine ⟨tag, htag, parts, label, hnames, ?_⟩
      by_contra hfits
      push Not at hfits
      obtain ⟨v, hv, _⟩ := readTag_release hpos hreads hrank hnames hfits
      rw [hread] at hv
      cases hv
    · intro _
      exact ⟨e, rfl⟩
  | ok best =>
    have hreadable := readable_of_scan hscan
    have hbest := best_of_scan hranks hsorted hscan
    have hfits : ∀ tag ∈ tags, ∀ parts label, r.Names tag parts label → ∀ part ∈ parts, Fits intSize part := by
      intro tag htag parts label hnames
      by_contra hunfit
      push Not at hunfit
      obtain ⟨e, he⟩ := readTag_unfit rank hpos hreads hnames hunfit
      obtain ⟨c, hc⟩ := hreadable tag htag
      rw [he] at hc
      cases hc
    cases best with
    | none =>
      constructor
      · intro _
        left
        intro tag htag parts label hnames
        obtain ⟨v, hv, _⟩ := readTag_release hpos hreads hrank hnames (hfits tag htag parts label hnames)
        rw [hbest tag htag] at hv
        cases hv
      · intro _
        exact ⟨_, rfl⟩
    | some b =>
      constructor
      · intro ⟨e, he⟩
        cases he
      · intro h
        exfalso
        rcases h with hnone | ⟨tag, htag, parts, label, hnames, part, hpart, hlarge⟩
        · obtain ⟨tag, htag, hread, _⟩ := hbest
          rw [readTag_other hreads (hnone tag htag)] at hread
          cases hread
        · exact hlarge (hfits tag htag parts label hnames part hpart)

theorem latestTag_takes (missing : Str) (hpos : ∀ n, r.counts n → 0 < n) (hreads : Reads pattern r)
    (hrank : r.RankedBy rank) (hranks : Ranks (readTag intSize pattern rank) newer VersionTag.key)
    (hsorted : tags.Pairwise (· ≤ ·)) (hreadable : ¬ r.Unreadable intSize tags) :
    ∃ tag, latestTag intSize pattern rank newer missing tags = .ok tag ∧ r.Greatest tags tag := by
  have hok : ∀ e, latestTag intSize pattern rank newer missing tags ≠ .error e := by
    intro e he
    exact hreadable ((latestTag_fails missing hpos hreads hrank hranks hsorted).mp ⟨e, he⟩)
  have hfits : ∀ tag ∈ tags, ∀ parts label, r.Names tag parts label → ∀ part ∈ parts, Fits intSize part := by
    intro tag htag parts label hnames part hpart
    by_contra hlarge
    exact hreadable (Or.inr ⟨tag, htag, parts, label, hnames, part, hpart, hlarge⟩)
  rw [latestTag_eq] at hok ⊢
  cases hscan : Search.scan (readTag intSize pattern rank) newer tags with
  | error e =>
    rw [hscan] at hok
    exact absurd rfl (hok e)
  | ok best =>
    rw [hscan] at hok
    have hbest := best_of_scan hranks hsorted hscan
    cases best with
    | none => exact absurd rfl (hok _)
    | some b =>
      obtain ⟨tag, htag, hread, hgreatest⟩ := hbest
      have hnames : ∃ parts label, r.Names tag parts label := by
        by_contra hother
        push Not at hother
        rw [readTag_other hreads hother] at hread
        cases hread
      obtain ⟨parts, label, hnames⟩ := hnames
      obtain ⟨v, hv, hname, hkey⟩ :=
        readTag_release hpos hreads hrank hnames (hfits tag htag parts label hnames)
      have hvb : v = b := by
        rw [hread] at hv
        simpa using hv.symm
      subst hvb
      refine ⟨v.name, rfl, ?_⟩
      rw [hname]
      refine ⟨htag, parts, label, hnames, ?_⟩
      intro tag' htag' parts' label' hnames'
      obtain ⟨v', hv', _, hkey'⟩ :=
        readTag_release hpos hreads hrank hnames' (hfits tag' htag' parts' label' hnames')
      rw [← hkey, ← hkey']
      rcases hgreatest tag' htag' v' hv' with hlt | ⟨heq, hle⟩
      · exact ⟨le_of_lt hlt, fun heq => absurd heq (ne_of_lt hlt)⟩
      · exact ⟨le_of_eq heq, fun _ => hle⟩

theorem latestTag_congr (hranks : Ranks (readTag intSize pattern rank) newer VersionTag.key)
    {tags' : List Str} (hsorted : tags.Pairwise (· ≤ ·)) (hsorted' : tags'.Pairwise (· ≤ ·))
    (hmem : ∀ tag, tag ∈ tags ↔ tag ∈ tags') :
    latestTag intSize pattern rank newer missing tags = latestTag intSize pattern rank newer missing tags' := by
  rw [latestTag_eq, latestTag_eq, scan_congr hranks hsorted hsorted' hmem]

/-- The selection among what git printed, sorted. -/
theorem selection_result {σ : Type} {m : Machine σ} {repo : Path} {w : World σ} (h : r.Printed m repo w tags)
    (select : List Str → Except Err Str) :
    ((listGitTags m repo r.glob.toList >>= fun tags => checked (select tags)).run w).result =
      (select (sortStrings tags)).mapError Stop.returned := by
  obtain ⟨hok, hfields⟩ := h
  have hlist : ((listGitTags m repo r.glob.toList).run w).result = .ok (sortStrings tags) := by
    have hpart := part_reaches (c := command repo ["git", "tag", "--list"] [r.glob.toList]) rfl w.files
    have hdir : (command repo ["git", "tag", "--list"] [r.glob.toList]).dir = repo := rfl
    unfold listGitTags output combinedOutput
    simp only [run_bind, resume, hpart, hdir, hok, if_true, check, run_pure, hfields]
  have hreturns := returns_of_result hlist
  rw [run_bind]
  unfold Returns at hreturns
  rw [hreturns]
  simp only [resume, checked]
  cases select (sortStrings tags) <;> rfl

/-- A selection that sorts what git prints and takes the best of it. -/
theorem selects_of (hpos : ∀ n, r.counts n → 0 < n) (hreads : Reads pattern r) (hrank : r.RankedBy rank)
    (hranks : Ranks (readTag intSize pattern rank) newer VersionTag.key) :
    r.Selects intSize fun {_} m repo => listGitTags m repo r.glob.toList >>= fun tags =>
      checked (latestTag intSize pattern rank newer missing tags) := by
  have hsorted : ∀ tags : List Str, (sortStrings tags).Pairwise (· ≤ ·) :=
    fun tags => List.pairwise_insertionSort _ tags
  have hunreadable : ∀ tags, r.Unreadable intSize (sortStrings tags) ↔ r.Unreadable intSize tags := by
    intro tags
    unfold Releases.Unreadable
    simp only [mem_sortStrings]
  constructor
  · intro σ m repo w tags hprinted
    rw [selection_result hprinted, ← hunreadable,
      ← latestTag_fails missing hpos hreads hrank hranks (hsorted tags)]
    cases latestTag intSize pattern rank newer missing (sortStrings tags) with
    | error e => simp [Except.mapError]
    | ok tag => simp [Except.mapError]
  · intro σ m repo w tags hprinted hreadable
    rw [← hunreadable] at hreadable
    obtain ⟨tag, htag, hgreatest⟩ :=
      latestTag_takes missing hpos hreads hrank hranks (hsorted tags) hreadable
    refine ⟨tag, by rw [selection_result hprinted, htag]; rfl, ?_⟩
    unfold Releases.Greatest at hgreatest ⊢
    simpa only [mem_sortStrings] using hgreatest
  · intro σ σ' m m' repo repo' w w' tags tags' hprinted hprinted' hmem
    rw [selection_result hprinted, selection_result hprinted']
    rw [latestTag_congr hranks (hsorted tags) (hsorted tags')]
    intro tag
    rw [mem_sortStrings, mem_sortStrings]
    exact hmem tag

end

/-- Each selection takes the greatest release of those that git lists. -/
theorem takes_greatest_release (intSize : ℕ) :
    zlibReleases.Selects intSize (fun {_} m repo => latestZlibTag m intSize repo) ∧
      libeventReleases.Selects intSize (fun {_} m repo => latestLibeventTag m intSize repo) ∧
      opensslReleases.Selects intSize (fun {_} m repo => latestOpenSSLTag m intSize repo) := by
  have hthree : ∀ n : ℕ, n = 3 → 0 < n := by omega
  refine ⟨?_, ?_, ?_⟩
  · apply selects_of (fun _ h => h) reads_zlib _ (ranks_newerVersion intSize zlibTagPattern)
    intro found
    rfl
  · apply selects_of hthree reads_libevent _ (ranks_newerRelease intSize libeventTagPattern _)
    intro found
    rfl
  · apply selects_of hthree reads_openssl _ (ranks_newerVersion intSize opensslTagPattern)
    intro found
    rfl

/-- 1.2 and 1.2.0 tie, and the numbers count, not the digits. -/
example : latestTag 64 zlibTagPattern (fun _ => 0) newerVersion [] ["v1.10.0".toList, "v1.10".toList,
    "v1.2".toList, "v1.9".toList] = .ok "v1.10.0".toList := by decide +kernel

end GoLibtor
