import GoLibtor.Build.Tags
import GoLibtor.Text.Language

/-! The releases that tags name, and the patterns that find them. -/
namespace GoLibtor

open Text

def Numeral (s : Str) : Prop := s ≠ [] ∧ ∀ c ∈ s, c.isDigit = true

/-- How the releases of a repository are named: what git is asked for, what a name begins with,
how many components its version may have, and whether a label may follow. -/
structure Releases where
  glob : String
  opening : String
  counts : ℕ → Prop
  labelled : Bool

def zlibReleases : Releases := ⟨"v*", "v", (0 < ·), false⟩

def libeventReleases : Releases := ⟨"release-*", "release-", (· = 3), true⟩

def opensslReleases : Releases := ⟨"openssl-*", "openssl-", (· = 3), false⟩

namespace Releases

variable (r : Releases)

/-- The release a tag names. -/
structure Names (tag : Str) (parts : List Str) (label : Str) : Prop where
  counts : r.counts parts.length
  numerals : ∀ part ∈ parts, Numeral part
  labelled : label ≠ [] → r.labelled = true ∧ ∀ c ∈ label, labelChar c = true
  spelled : tag = r.opening.toList ++ (joinWith ".".toList parts ++ if label = [] then [] else '-' :: label)

end Releases

theorem isDigit_iff {c : Char} : ('0' ≤ c ∧ c ≤ '9') ↔ c.isDigit = true := by
  simp [Char.isDigit, Char.le_def]

theorem mem_digitRun {w : Str} : w ∈ digitRun.language ↔ Numeral w := by
  unfold digitRun Numeral
  rw [Regexp.mem_language_plus_set]
  simp only [decide_eq_true_eq, isDigit_iff]

/-! ### The patterns of the tags -/

theorem mem_dotted {w : Str} :
    w ∈ (Regexp.seq (.char '.') digitRun).language ↔ ∃ part, Numeral part ∧ w = ".".toList ++ part := by
  rw [Regexp.mem_language_seq, Regexp.language_char]
  constructor
  · intro ⟨u, hu, v, hv, huv⟩
    have hu : u = ['.'] := hu
    exact ⟨v, mem_digitRun.mp hv, by rw [← huv, hu]; rfl⟩
  · intro ⟨part, hpart, hw⟩
    exact ⟨['.'], rfl, part, mem_digitRun.mpr hpart, hw.symm⟩

/-- The components that a list of dotted numerals adds to the first one. -/
theorem mem_dotted_star {w : Str} :
    w ∈ (Regexp.star (.seq (.char '.') digitRun)).language ↔
      ∃ parts : List Str, (∀ part ∈ parts, Numeral part) ∧ w = (parts.map (".".toList ++ ·)).flatten := by
  constructor
  · intro ⟨pieces, hflat, hpieces⟩
    induction pieces generalizing w with
    | nil => exact ⟨[], by simp, hflat⟩
    | cons piece pieces ih =>
      obtain ⟨part, hpart, hpiece⟩ := mem_dotted.mp (hpieces piece List.mem_cons_self)
      obtain ⟨parts, hparts, hrest⟩ := ih rfl fun y hy => hpieces y (List.mem_cons_of_mem piece hy)
      refine ⟨part :: parts, ?_, ?_⟩
      · simpa [hpart] using hparts
      · rw [hflat, List.flatten_cons, hpiece, hrest]
        rfl
  · intro ⟨parts, hparts, hw⟩
    refine ⟨parts.map (".".toList ++ ·), hw, ?_⟩
    intro piece hpiece
    obtain ⟨part, hpart, heq⟩ := List.mem_map.mp hpiece
    exact mem_dotted.mpr ⟨part, hparts part hpart, heq.symm⟩

theorem mem_anyParts {w : Str} :
    w ∈ (Regexp.seq digitRun (.star (.seq (.char '.') digitRun))).language ↔
      ∃ parts : List Str, 0 < parts.length ∧ (∀ part ∈ parts, Numeral part) ∧
        w = joinWith ".".toList parts := by
  rw [Regexp.mem_language_seq]
  constructor
  · intro ⟨u, hu, v, hv, huv⟩
    obtain ⟨parts, hparts, hv⟩ := mem_dotted_star.mp hv
    refine ⟨u :: parts, by simp, ?_, ?_⟩
    · simpa [mem_digitRun.mp hu] using hparts
    · rw [joinWith_cons, ← hv, huv]
  · intro ⟨parts, hpos, hparts, hw⟩
    cases parts with
    | nil => simp at hpos
    | cons part parts =>
      rw [joinWith_cons] at hw
      refine ⟨part, mem_digitRun.mpr (hparts part List.mem_cons_self), _, ?_, hw.symm⟩
      exact mem_dotted_star.mpr ⟨parts, fun p hp => hparts p (List.mem_cons_of_mem part hp), rfl⟩

theorem mem_threeParts {w : Str} :
    w ∈ threeParts.language ↔
      ∃ parts : List Str, parts.length = 3 ∧ (∀ part ∈ parts, Numeral part) ∧
        w = joinWith ".".toList parts := by
  unfold threeParts
  rw [Regexp.mem_language_seq]
  constructor
  · intro ⟨u, hu, v, hv, huv⟩
    obtain ⟨v₁, hv₁, v₂, hv₂, hvv⟩ := Regexp.mem_language_seq.mp hv
    obtain ⟨minor, hminor, hv₁⟩ := mem_dotted.mp hv₁
    obtain ⟨patch, hpatch, hv₂⟩ := mem_dotted.mp hv₂
    refine ⟨[u, minor, patch], rfl, ?_, ?_⟩
    · simp [mem_digitRun.mp hu, hminor, hpatch]
    · rw [joinWith_cons, ← huv, ← hvv, hv₁, hv₂]
      simp
  · intro ⟨parts, hlength, hparts, hw⟩
    obtain ⟨major, minor, patch, heq⟩ := List.length_eq_three.mp hlength
    subst heq
    rw [joinWith_cons] at hw
    refine ⟨major, mem_digitRun.mpr (hparts major (by simp)),
      ".".toList ++ minor ++ (".".toList ++ patch), ?_, ?_⟩
    · apply Regexp.mem_language_seq.mpr
      refine ⟨".".toList ++ minor, mem_dotted.mpr ⟨minor, hparts minor (by simp), rfl⟩, ".".toList ++ patch,
        mem_dotted.mpr ⟨patch, hparts patch (by simp), rfl⟩, rfl⟩
    · rw [hw]
      simp

theorem plain_digitRun : digitRun.Plain := ⟨trivial, trivial⟩

theorem plain_threeParts : threeParts.Plain :=
  ⟨plain_digitRun, ⟨trivial, plain_digitRun⟩, trivial, plain_digitRun⟩

/-- What a pattern finds in a tag is the release that the tag names. -/
structure Reads (pattern : Regexp) (r : Releases) : Prop where
  found : ∀ {tag found}, pattern.findSubmatch tag = some found →
    ∃ parts label, r.Names tag parts label ∧ found.submatch 1 = joinWith ".".toList parts ∧
      found.submatch 2 = label
  missing : ∀ {tag}, pattern.findSubmatch tag = none → ∀ parts label, ¬ r.Names tag parts label

theorem reads_of_ends {pattern : Regexp} {r : Releases}
    (hsound : ∀ tag t, t ∈ pattern.ends (Place.start tag) → ∃ parts label, r.Names tag parts label ∧
      t.submatch 1 = joinWith ".".toList parts ∧ t.submatch 2 = label)
    (hcomplete : ∀ tag parts label, r.Names tag parts label → ∃ t, t ∈ pattern.ends (Place.start tag)) :
    Reads (.seq .textStart pattern) r := by
  constructor
  · intro tag found hfound
    rw [Regexp.findSubmatch_textStart] at hfound
    exact hsound tag found (Regexp.mem_of_matchHere hfound)
  · intro tag hnone parts label hnames
    rw [Regexp.findSubmatch_textStart, Regexp.matchHere_eq_none] at hnone
    obtain ⟨t, ht⟩ := hcomplete tag parts label hnames
    exact hnone t ht

/-- A pattern that ends after the version alone. -/
theorem reads_version {start body : Regexp} {r : Releases} (hstart : start.Plain) (hbody : body.Plain)
    (hopening : ∀ w, w ∈ start.language ↔ w = r.opening.toList) (hlabelled : r.labelled = false)
    (hversion : ∀ w, w ∈ body.language ↔ ∃ parts : List Str, r.counts parts.length ∧
      (∀ part ∈ parts, Numeral part) ∧ w = joinWith ".".toList parts) :
    Reads (.seq .textStart (.seq start (.seq (.group 1 body) .textEnd))) r := by
  apply reads_of_ends
  · intro tag t ht
    obtain ⟨u, hu, rest, hsplit, ht⟩ := (Regexp.mem_ends_plain_seq hstart _ t).mp ht
    obtain ⟨w, hw, rest', hsplit', ht⟩ := (Regexp.mem_ends_group_seq hbody 1 _ t).mp ht
    obtain ⟨hend, ht⟩ := Regexp.mem_ends_textEnd.mp ht
    have hrest' : rest' = [] := hend
    have htag : tag = u ++ rest := hsplit
    have hrest : rest = w ++ rest' := hsplit'
    obtain ⟨parts, hcounts, hnumerals, hspelled⟩ := (hversion w).mp hw
    refine ⟨parts, [], ⟨hcounts, hnumerals, by simp, ?_⟩, ?_, ?_⟩
    · rw [htag, hrest, hrest', (hopening u).mp hu, hspelled]
      simp
    · rw [ht, ← hspelled]
      rfl
    · rw [ht]
      rfl
  · intro tag parts label hnames
    have hlabel : label = [] := by
      by_contra hne
      have htrue := (hnames.labelled hne).1
      rw [hlabelled] at htrue
      cases htrue
    have hspelled : tag = r.opening.toList ++ joinWith ".".toList parts := by
      rw [hnames.spelled, if_pos hlabel, List.append_nil]
    have hbodyMem : joinWith ".".toList parts ∈ body.language :=
      (hversion _).mpr ⟨parts, hnames.counts, hnames.numerals, rfl⟩
    apply Regexp.exists_ends_seq hstart ((hopening _).mpr rfl) hspelled
    apply Regexp.exists_ends_group hbody 1 hbodyMem (List.append_nil _).symm
    exact ⟨_, Regexp.mem_ends_textEnd.mpr ⟨rfl, rfl⟩⟩

theorem reads_zlib : Reads zlibTagPattern zlibReleases := by
  have hstart : (Regexp.char 'v').Plain := trivial
  have hbody : (Regexp.seq digitRun (.star (.seq (.char '.') digitRun))).Plain :=
    ⟨plain_digitRun, trivial, plain_digitRun⟩
  apply reads_version hstart hbody _ rfl fun _ => mem_anyParts
  intro w
  rw [Regexp.language_char]
  rfl

theorem reads_openssl : Reads opensslTagPattern opensslReleases :=
  reads_version (Regexp.plain_lit _) plain_threeParts (fun _ => Regexp.mem_language_lit) rfl
    fun _ => mem_threeParts

/-- The end of a tag of libevent: nothing, or a label as group 2. -/
theorem mem_labelEnds {s t : Place} :
    t ∈ (Regexp.seq (.opt (.seq (.char '-') (.group 2 (.plus (.set labelChar))))) .textEnd).ends s ↔
      (s.rest = [] ∧ t = s) ∨
        ∃ label, label ≠ [] ∧ (∀ c ∈ label, labelChar c = true) ∧ s.rest = '-' :: label ∧
          t = { s.after ('-' :: label) [] with groups := (2, label) :: s.groups } := by
  have hplain : (Regexp.plus (.set labelChar)).Plain := ⟨trivial, trivial⟩
  have hdash : (Regexp.char '-').Plain := trivial
  rw [Regexp.ends_seq, Regexp.opt, Regexp.ends_alt, List.flatMap_append, List.mem_append]
  rw [or_comm]
  apply or_congr
  · rw [show Regexp.empty.ends s = [s] from rfl, List.flatMap_singleton, Regexp.mem_ends_textEnd]
  · rw [List.mem_flatMap]
    constructor
    · intro ⟨u, hu, ht⟩
      obtain ⟨hend, ht⟩ := Regexp.mem_ends_textEnd.mp ht
      obtain ⟨d, hd, rest, hsplit, hu⟩ := (Regexp.mem_ends_plain_seq hdash s u).mp hu
      obtain ⟨label, hlabel, rest', hsplit', hu⟩ := (Regexp.mem_ends_group_iff hplain 2 _ u).mp hu
      rw [Regexp.language_char] at hd
      have hd : d = ['-'] := hd
      have hrest' : rest' = [] := by
        rw [hu] at hend
        exact hend
      have hrest : rest = label := by
        have hsame : rest = label ++ rest' := hsplit'
        rw [hsame, hrest', List.append_nil]
      obtain ⟨hne, hall⟩ := Regexp.mem_language_plus_set.mp hlabel
      refine ⟨label, hne, hall, by rw [hsplit, hd, hrest]; rfl, ?_⟩
      rw [ht, hu, hd, hrest', Place.after_after]
      rfl
    · intro ⟨label, hne, hall, hsplit, ht⟩
      refine ⟨t, ?_, Regexp.mem_ends_textEnd.mpr ⟨by rw [ht]; rfl, rfl⟩⟩
      apply (Regexp.mem_ends_plain_seq hdash s t).mpr
      refine ⟨['-'], by rw [Regexp.language_char]; rfl, label, hsplit, ?_⟩
      apply (Regexp.mem_ends_group_iff hplain 2 _ t).mpr
      refine ⟨label, Regexp.mem_language_plus_set.mpr ⟨hne, hall⟩, [], (List.append_nil label).symm, ?_⟩
      rw [ht, Place.after_after]
      rfl

theorem reads_libevent : Reads libeventTagPattern libeventReleases := by
  have hstart : (Regexp.lit "release-".toList).Plain := Regexp.plain_lit _
  apply reads_of_ends
  · intro tag t ht
    obtain ⟨u, hu, rest, hsplit, ht⟩ := (Regexp.mem_ends_plain_seq hstart _ t).mp ht
    obtain ⟨w, hw, rest', hsplit', ht⟩ := (Regexp.mem_ends_group_seq plain_threeParts 1 _ t).mp ht
    obtain ⟨parts, hcounts, hnumerals, hspelled⟩ := mem_threeParts.mp hw
    have htag : tag = "release-".toList ++ (joinWith ".".toList parts ++ rest') := by
      have hrest : rest = w ++ rest' := hsplit'
      have htag : tag = u ++ rest := hsplit
      rw [htag, hrest, Regexp.mem_language_lit.mp hu, hspelled]
    rcases mem_labelEnds.mp ht with ⟨hend, ht⟩ | ⟨label, hne, hall, hend, ht⟩
    · have hrest' : rest' = [] := hend
      refine ⟨parts, [], ⟨hcounts, hnumerals, by simp, ?_⟩, ?_, ?_⟩
      · rw [htag, hrest']
        rfl
      · rw [ht, ← hspelled]
        rfl
      · rw [ht]
        rfl
    · have hrest' : rest' = '-' :: label := hend
      refine ⟨parts, label, ⟨hcounts, hnumerals, fun _ => ⟨rfl, hall⟩, ?_⟩, ?_, ?_⟩
      · rw [htag, hrest', if_neg hne]
        rfl
      · rw [ht, ← hspelled]
        rfl
      · rw [ht]
        rfl
  · intro tag parts label hnames
    obtain ⟨hcounts, hnumerals, hlabelled, hspelled⟩ := hnames
    have hversion : joinWith ".".toList parts ∈ threeParts.language :=
      mem_threeParts.mpr ⟨parts, hcounts, hnumerals, rfl⟩
    by_cases hlabel : label = []
    · rw [if_pos hlabel] at hspelled
      apply Regexp.exists_ends_seq hstart (Regexp.mem_language_lit.mpr rfl) hspelled
      apply Regexp.exists_ends_group plain_threeParts 1 hversion rfl
      exact ⟨_, mem_labelEnds.mpr (Or.inl ⟨rfl, rfl⟩)⟩
    · rw [if_neg hlabel] at hspelled
      apply Regexp.exists_ends_seq hstart (Regexp.mem_language_lit.mpr rfl) hspelled
      apply Regexp.exists_ends_group plain_threeParts 1 hversion rfl
      exact ⟨_, mem_labelEnds.mpr (Or.inr ⟨label, hlabel, (hlabelled hlabel).2, rfl, rfl⟩)⟩

end GoLibtor
