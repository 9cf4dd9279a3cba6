import GoLibtor.Build.OpenSSLVersion
import GoLibtor.Text.Lines
import GoLibtor.Text.Language
import GoLibtor.Search.Scan

/-! Reading `VERSION.dat` undoes its rendering. -/
namespace GoLibtor

open Text Files Transition Program Search

def versionKeys : List Str := requiredKeys ++ optionalKeys

/-- One key with its value, which may stand between quotes. -/
def versionLine (quoted : Bool) (key value : Str) : Str :=
  key ++ "=".toList ++ if quoted then '"' :: (value ++ ['"']) else value

/-- The lines render each key once, in any order and between further lines. -/
structure VersionFile (values : Str → Str) (quoted : Str → Bool) (further lines : List Str) : Prop where
  clean : ∀ key ∈ versionKeys, '"' ∉ values key ∧ '\n' ∉ values key
  others : ∀ line ∈ further, '\n' ∉ line ∧ ∀ key ∈ versionKeys, ¬ key ++ "=".toList <+: line
  rendered : lines.Perm ((versionKeys.map fun key => versionLine (quoted key) key (values key)) ++ further)

/-! ### One line -/

/-- A character of a value. -/
def valueChar (c : Char) : Bool := c != '"' && c != '\n'

theorem valueChar_iff {c : Char} : valueChar c = true ↔ c ≠ '"' ∧ c ≠ '\n' := by
  simp [valueChar]

/-- What `versionPattern` looks for behind the value. -/
def closing : Regexp := .seq (.opt (.char '"')) .lineEnd

theorem ends_opt_quote {s : Place} (h : ∀ rest, s.rest ≠ '"' :: rest) :
    (Regexp.opt (.char '"')).ends s = [s] := by
  have hquote : (Regexp.char '"').ends s = [] := by
    unfold Regexp.char
    cases hrest : s.rest with
    | nil => rw [Regexp.ends_set_nil hrest]
    | cons c rest =>
      have hc : c ≠ '"' := fun hc => h rest (by rw [hrest, hc])
      simp [Regexp.ends_set_cons hrest, hc]
  rw [Regexp.opt, Regexp.ends_alt, hquote]
  rfl

theorem ends_opt_quote_cons {s : Place} {rest : Str} (h : s.rest = '"' :: rest) :
    (Regexp.opt (.char '"')).ends s = [s.past '"' rest, s] := by
  have hquote : (Regexp.char '"').ends s = [s.past '"' rest] := by
    simp [Regexp.char, Regexp.ends_set_cons h]
  rw [Regexp.opt, Regexp.ends_alt, hquote]
  rfl

theorem not_quote_of_lineEnds {rest : Str} (h : LineEnds rest) : ∀ more, rest ≠ '"' :: more := by
  intro more heq
  rcases h with h | ⟨tail, h⟩
  · rw [h] at heq
    cases heq
  · rw [h] at heq
    exact absurd (List.cons.inj heq).1 (by decide)

theorem ends_lineEnd {s : Place} (h : LineEnds s.rest) : Regexp.lineEnd.ends s = [s] := by
  unfold Regexp.ends
  apply if_pos
  rcases h with h | ⟨more, h⟩
  · exact Or.inl h
  · exact Or.inr (by rw [h]; rfl)

theorem closing_end {s : Place} (h : LineEnds s.rest) : closing.ends s = [s] := by
  unfold closing
  rw [Regexp.ends_seq, ends_opt_quote (not_quote_of_lineEnds h), List.flatMap_singleton, ends_lineEnd h]

theorem closing_quote {s : Place} {rest : Str} (h : s.rest = '"' :: rest) (hend : LineEnds rest) :
    closing.ends s = [s.past '"' rest] := by
  have hstay : Regexp.lineEnd.ends s = [] := by simp [Regexp.ends, h]
  have hover : Regexp.lineEnd.ends (s.past '"' rest) = [s.past '"' rest] := ends_lineEnd hend
  unfold closing
  rw [Regexp.ends_seq, ends_opt_quote_cons h]
  simp [hstay, hover]

/-- Nothing closes a value in the middle of it. -/
theorem closing_stuck : Regexp.Stuck valueChar fun t => closing.ends t := by
  intro t c rest hrest hc
  obtain ⟨hquote, hnewline⟩ := valueChar_iff.mp hc
  have hopt : ∀ more, t.rest ≠ '"' :: more := by
    intro more heq
    rw [hrest] at heq
    exact hquote (List.cons.inj heq).1
  change closing.ends t = []
  unfold closing
  rw [Regexp.ends_seq, ends_opt_quote hopt, List.flatMap_singleton]
  simp [Regexp.ends, hrest, hnewline]

/-- The body of the pattern of a key, the value being group 1. -/
def valuePattern (possiblyEmpty : Bool) : Regexp :=
  .seq (.group 1 (if possiblyEmpty then .star (.set valueChar) else .plus (.set valueChar))) closing

theorem versionPattern_eq (possiblyEmpty : Bool) (key : Str) :
    versionPattern possiblyEmpty key =
      .seq .lineStart (.seq (.lit (key ++ "=".toList))
        (.seq (.opt (.char '"')) (valuePattern possiblyEmpty))) := rfl

/-- The place behind a value, which is recorded. -/
theorem capture_value {s : Place} {value rest : Str} (hsplit : s.rest = value ++ rest)
    (hvalue : ∀ c ∈ value, valueChar c = true) (hrest : ∀ c more, rest = c :: more → valueChar c = false) :
    (s.capture 1 (s.skip valueChar)).rest = rest ∧ (s.capture 1 (s.skip valueChar)).submatch 1 = value := by
  have hdrop : s.rest.dropWhile valueChar = rest := by
    rw [hsplit, List.dropWhile_append_of_pos hvalue]
    cases rest with
    | nil => rfl
    | cons c more => rw [List.dropWhile_cons_of_neg (by simp [hrest c more rfl])]
  refine ⟨hdrop, ?_⟩
  have hskip : (s.skip valueChar).rest = rest := hdrop
  simp [Place.capture, Place.submatch, hskip, hsplit]

/-- A value is taken as a whole. -/
theorem valuePattern_ends {possiblyEmpty : Bool} {s : Place} {value rest : Str}
    (hsplit : s.rest = value ++ rest) (hvalue : ∀ c ∈ value, valueChar c = true)
    (hne : possiblyEmpty = true ∨ value ≠ []) :
    (valuePattern possiblyEmpty).ends s = closing.ends (s.capture 1 (s.skip valueChar)) := by
  unfold valuePattern
  rw [Regexp.ends_seq]
  cases possiblyEmpty with
  | true =>
    simp only [if_true]
    rw [Regexp.ends, List.flatMap_map]
    exact Regexp.ends_star_set_flatMap (k := fun t => closing.ends (s.capture 1 t))
      (fun t c more ht hc => closing_stuck _ c more ht hc) s
  | false =>
    cases value with
    | nil => simp at hne
    | cons c value =>
      have hc : valueChar c = true := hvalue c List.mem_cons_self
      simp only [Bool.false_eq_true, if_false]
      rw [Regexp.ends_group_plus_set_flatMap closing_stuck hsplit, if_pos hc]

/-- A value that is needed is not there. -/
theorem valuePattern_empty {s : Place} (h : ∀ c more, s.rest = c :: more → valueChar c = false) :
    (valuePattern false).ends s = [] := by
  unfold valuePattern
  rw [Regexp.ends_seq]
  simp only [Bool.false_eq_true, if_false]
  cases hrest : s.rest with
  | nil => rw [Regexp.ends, Regexp.ends_plus_set_nil hrest]; rfl
  | cons c more =>
    rw [Regexp.ends_group_plus_set_flatMap closing_stuck hrest, if_neg (by simp [h c more hrest])]

theorem valueChar_of_lineEnds {rest : Str} (h : LineEnds rest) :
    ∀ c more, rest = c :: more → valueChar c = false := by
  intro c more heq
  rcases h with h | ⟨tail, h⟩
  · rw [h] at heq
    cases heq
  · rw [h] at heq
    rw [← (List.cons.inj heq).1]
    rfl

/-- The body of the pattern of a key, at the start of a line. -/
def keyPattern (possiblyEmpty : Bool) (key : Str) : Regexp :=
  .seq (.lit (key ++ "=".toList)) (.seq (.opt (.char '"')) (valuePattern possiblyEmpty))

theorem keyPattern_ends (possiblyEmpty : Bool) (key line : Str) (prev : Option Char) :
    ∃ prev', (keyPattern possiblyEmpty key).ends ⟨prev, key ++ "=".toList ++ line, []⟩ =
      (Regexp.seq (.opt (.char '"')) (valuePattern possiblyEmpty)).ends ⟨prev', line, []⟩ := by
  have hrest : (⟨prev, key ++ "=".toList ++ line, []⟩ : Place).rest = key ++ "=".toList ++ line := rfl
  have hlit := Regexp.ends_lit hrest
  unfold keyPattern
  rw [Regexp.ends_seq, hlit, List.flatMap_singleton]
  exact ⟨_, rfl⟩

/-- The line of a key is matched, and its value found. -/
theorem keyPattern_found {possiblyEmpty quoted : Bool} {key value rest : Str} (prev : Option Char)
    (hvalue : ∀ c ∈ value, valueChar c = true) (hne : possiblyEmpty = true ∨ value ≠ [])
    (hend : LineEnds rest) :
    ∃ t, (keyPattern possiblyEmpty key).matchHere ⟨prev, versionLine quoted key value ++ rest, []⟩ = some t ∧
      t.submatch 1 = value := by
  cases quoted with
  | false =>
    have hline : versionLine false key value ++ rest = key ++ "=".toList ++ (value ++ rest) := by
      simp [versionLine]
    obtain ⟨prev', hends⟩ := keyPattern_ends possiblyEmpty key (value ++ rest) prev
    have hopen : ∀ more, value ++ rest ≠ '"' :: more := by
      cases value with
      | nil => exact not_quote_of_lineEnds hend
      | cons c value =>
        intro more heq
        exact (valueChar_iff.mp (hvalue c List.mem_cons_self)).1 (List.cons.inj heq).1
    obtain ⟨hrest, hsubmatch⟩ := capture_value (s := ⟨prev', value ++ rest, []⟩) rfl hvalue
      (valueChar_of_lineEnds hend)
    refine ⟨_, ?_, hsubmatch⟩
    unfold Regexp.matchHere
    rw [hline, hends, Regexp.ends_seq, ends_opt_quote hopen, List.flatMap_singleton,
      valuePattern_ends rfl hvalue hne, closing_end (by rw [hrest]; exact hend)]
    rfl
  | true =>
    have hline : versionLine true key value ++ rest =
        key ++ "=".toList ++ '"' :: (value ++ '"' :: rest) := by
      simp [versionLine]
    obtain ⟨prev', hends⟩ :=
      keyPattern_ends possiblyEmpty key ('"' :: (value ++ '"' :: rest)) prev
    have hquote : ∀ c more, '"' :: rest = c :: more → valueChar c = false := by
      intro c more heq
      rw [← (List.cons.inj heq).1]
      rfl
    obtain ⟨hrest, hsubmatch⟩ := capture_value (s := ⟨some '"', value ++ '"' :: rest, []⟩) rfl hvalue hquote
    have hover : (Place.past (Place.capture 1 ⟨some '"', value ++ '"' :: rest, []⟩
        (Place.skip valueChar ⟨some '"', value ++ '"' :: rest, []⟩)) '"' rest).submatch 1 = value := hsubmatch
    refine ⟨_, ?_, hover⟩
    unfold Regexp.matchHere
    rw [hline, hends, Regexp.ends_seq, ends_opt_quote_cons rfl, List.flatMap_cons]
    have hinside : (valuePattern possiblyEmpty).ends ⟨some '"', value ++ '"' :: rest, []⟩ = _ :=
      (valuePattern_ends rfl hvalue hne).trans (closing_quote hrest hend)
    rw [show Place.past ⟨prev', '"' :: (value ++ '"' :: rest), []⟩ '"' (value ++ '"' :: rest) =
      ⟨some '"', value ++ '"' :: rest, []⟩ from rfl, hinside]
    rfl

/-- A key that needs a value finds none in its empty line. -/
theorem keyPattern_empty {quoted : Bool} {key rest : Str} (prev : Option Char) (hend : LineEnds rest) :
    (keyPattern false key).matchHere ⟨prev, versionLine quoted key [] ++ rest, []⟩ = none := by
  unfold Regexp.matchHere
  cases quoted with
  | false =>
    have hline : versionLine false key [] ++ rest = key ++ "=".toList ++ rest := by
      simp [versionLine]
    obtain ⟨prev', hends⟩ := keyPattern_ends false key rest prev
    rw [hline, hends, Regexp.ends_seq, ends_opt_quote (not_quote_of_lineEnds hend), List.flatMap_singleton,
      valuePattern_empty (valueChar_of_lineEnds hend)]
    rfl
  | true =>
    have hline : versionLine true key [] ++ rest = key ++ "=".toList ++ '"' :: '"' :: rest := by
      simp [versionLine]
    obtain ⟨prev', hends⟩ := keyPattern_ends false key ('"' :: '"' :: rest) prev
    have hquote : ∀ more c more', '"' :: more = c :: more' → valueChar c = false := by
      intro more c more' heq
      rw [← (List.cons.inj heq).1]
      rfl
    have hinside : (valuePattern false).ends
        ((⟨prev', '"' :: '"' :: rest, []⟩ : Place).past '"' ('"' :: rest)) = [] :=
      valuePattern_empty (hquote rest)
    have hbefore : (valuePattern false).ends ⟨prev', '"' :: '"' :: rest, []⟩ = [] :=
      valuePattern_empty (hquote ('"' :: rest))
    rw [hline, hends, Regexp.ends_seq, ends_opt_quote_cons rfl]
    simp [hinside, hbefore]

/-- A line that does not begin with the key. -/
theorem keyPattern_other {possiblyEmpty : Bool} {key line rest : Str} (prev : Option Char)
    (hkey : '\n' ∉ key) (hline : ¬ key ++ "=".toList <+: line) (hend : LineEnds rest) :
    (keyPattern possiblyEmpty key).matchHere ⟨prev, line ++ rest, []⟩ = none := by
  have hnewline : '\n' ∉ key ++ "=".toList := by
    intro h
    rcases List.mem_append.mp h with h | h
    · exact hkey h
    · exact absurd h (by decide)
  have hnot : ¬ key ++ "=".toList <+: line ++ rest := fun h => hline (prefix_of_line hnewline hend h)
  unfold Regexp.matchHere keyPattern
  rw [Regexp.ends_seq, Regexp.ends_lit_of_not hnot]
  rfl

/-! ### The whole file -/

theorem versionKeys_plain : ∀ key ∈ versionKeys, '\n' ∉ key ∧ '=' ∉ key := by decide

/-- A line that begins with a key and the sign begins with no other key. -/
theorem versionKey_unique {key key' : Str} {quoted : Bool} {value : Str} (hkey : key ∈ versionKeys)
    (hkey' : key' ∈ versionKeys) (h : key ++ "=".toList <+: versionLine quoted key' value) : key = key' := by
  obtain ⟨rest, hrest⟩ := h
  unfold versionLine at hrest
  rw [List.append_assoc, List.append_assoc] at hrest
  exact (append_left_of_not_mem (versionKeys_plain key hkey).2 (versionKeys_plain key' hkey').2
    (Or.inr ⟨_, rfl⟩) (Or.inr ⟨_, rfl⟩) hrest).1

section

variable {values : Str → Str} {quoted : Str → Bool} {further lines : List Str}

theorem VersionFile.valueChar (h : VersionFile values quoted further lines) {key : Str}
    (hkey : key ∈ versionKeys) : ∀ c ∈ values key, valueChar c = true := by
  intro c hc
  obtain ⟨hquote, hnewline⟩ := h.clean key hkey
  rw [valueChar_iff]
  constructor
  · intro heq
    exact hquote (heq ▸ hc)
  · intro heq
    exact hnewline (heq ▸ hc)

theorem VersionFile.no_newline (h : VersionFile values quoted further lines) :
    ∀ line ∈ lines, '\n' ∉ line := by
  intro line hline
  rcases List.mem_append.mp (h.rendered.mem_iff.mp hline) with hline | hline
  · obtain ⟨key, hkey, heq⟩ := List.mem_map.mp hline
    have hvalue : '\n' ∉ values key := (h.clean key hkey).2
    have hname : '\n' ∉ key := (versionKeys_plain key hkey).1
    rw [← heq]
    unfold versionLine
    cases quoted key <;> simp [hvalue, hname]
  · exact (h.others line hline).1

/-- The first line that begins with a key is the one that renders it. -/
theorem VersionFile.first_line (h : VersionFile values quoted further lines) {key : Str}
    (hkey : key ∈ versionKeys) :
    ∃ before after, lines = before ++ versionLine (quoted key) key (values key) :: after ∧
      ∀ line ∈ before, ¬ key ++ "=".toList <+: line := by
  have hmem : versionLine (quoted key) key (values key) ∈ lines := by
    apply h.rendered.mem_iff.mpr
    exact List.mem_append_left _ (List.mem_map.mpr ⟨key, hkey, rfl⟩)
  obtain ⟨before, after, hsplit, hfirst⟩ := List.eq_append_cons_of_mem hmem
  refine ⟨before, after, hsplit, ?_⟩
  intro line hline hprefixed
  have hlines : line ∈ lines := hsplit ▸ List.mem_append_left _ hline
  rcases List.mem_append.mp (h.rendered.mem_iff.mp hlines) with hrendered | hother
  · obtain ⟨key', hkey', heq⟩ := List.mem_map.mp hrendered
    have hsame : key = key' := versionKey_unique hkey hkey' (heq ▸ hprefixed)
    rw [← heq, ← hsame] at hline
    exact hfirst hline
  · exact (h.others line hother).2 key hkey hprefixed

theorem parseVersionField_found (h : VersionFile values quoted further lines) {possiblyEmpty : Bool}
    {key : Str} (hkey : key ∈ versionKeys) (hne : possiblyEmpty = true ∨ values key ≠ []) :
    parseVersionField possiblyEmpty (joinWith "\n".toList lines) key = .ok (key, values key) := by
  obtain ⟨before, after, hsplit, hbefore⟩ := h.first_line hkey
  have hfind : ∃ t, (versionPattern possiblyEmpty key).find none (joinWith "\n".toList lines) = some t ∧
      t.submatch 1 = values key := by
    rw [hsplit]
    apply Regexp.find_lines_some (Or.inl rfl) (hsplit ▸ h.no_newline)
    · intro line hline prev rest hend
      exact keyPattern_other prev (versionKeys_plain key hkey).1 (hbefore line hline) hend
    · intro prev rest hend
      exact keyPattern_found prev (h.valueChar hkey) hne hend
  obtain ⟨t, ht, hvalue⟩ := hfind
  unfold parseVersionField Regexp.findSubmatch
  rw [ht, ← hvalue]

/-- A key that begins no line, or that needs a value and has none, cannot be parsed. -/
theorem parseVersionField_missing {possiblyEmpty : Bool} {key blob : Str} (hkey : key ∈ versionKeys)
    (hnone : ∀ line ∈ splitOn blob '\n', ¬ key ++ "=".toList <+: line) :
    ∃ e, parseVersionField possiblyEmpty blob key = .error e := by
  have hfind : (versionPattern possiblyEmpty key).find none (joinWith "\n".toList (splitOn blob '\n')) = none := by
    apply Regexp.find_lines_none (Or.inl rfl) _ _ (splitOn_ne_nil blob '\n')
    · exact fun line hline => not_mem_of_mem_splitOn hline
    · intro line hline prev rest hend
      exact keyPattern_other prev (versionKeys_plain key hkey).1 (hnone line hline) hend
  have hjoin : joinWith "\n".toList (splitOn blob '\n') = blob := joinWith_splitOn blob '\n'
  rw [hjoin] at hfind
  unfold parseVersionField Regexp.findSubmatch
  rw [hfind]
  exact ⟨_, rfl⟩

theorem parseVersionField_empty (h : VersionFile values quoted further lines) {key : Str}
    (hkey : key ∈ versionKeys) (hempty : values key = []) :
    ∃ e, parseVersionField false (joinWith "\n".toList lines) key = .error e := by
  have hne : lines ≠ [] := by
    obtain ⟨before, after, hsplit, _⟩ := h.first_line hkey
    rw [hsplit]
    simp
  have hfind : (versionPattern false key).find none (joinWith "\n".toList lines) = none := by
    apply Regexp.find_lines_none (Or.inl rfl) h.no_newline _ hne
    intro line hline prev rest hend
    by_cases hprefixed : key ++ "=".toList <+: line
    · have heq : line = versionLine (quoted key) key [] := by
        rcases List.mem_append.mp (h.rendered.mem_iff.mp hline) with hrendered | hother
        · obtain ⟨key', hkey', heq⟩ := List.mem_map.mp hrendered
          have hsame : key = key' := versionKey_unique hkey hkey' (heq ▸ hprefixed)
          rw [← heq, ← hsame, hempty]
        · exact absurd hprefixed ((h.others line hother).2 key hkey)
      rw [heq]
      exact keyPattern_empty prev hend
    · exact keyPattern_other prev (versionKeys_plain key hkey).1 hprefixed hend
  unfold parseVersionField Regexp.findSubmatch
  rw [hfind]
  exact ⟨_, rfl⟩

theorem parseVersionData_ok (h : VersionFile values quoted further lines)
    (hne : ∀ key ∈ requiredKeys, values key ≠ []) :
    parseVersionData (joinWith "\n".toList lines) = .ok (versionKeys.map fun key => (key, values key)) := by
  have hrequired : requiredKeys.mapM (parseVersionField false (joinWith "\n".toList lines)) =
      .ok (requiredKeys.map fun key => (key, values key)) :=
    mapM_ok fun key hkey =>
      parseVersionField_found h (List.mem_append_left optionalKeys hkey) (Or.inr (hne key hkey))
  have hoptional : optionalKeys.mapM (parseVersionField true (joinWith "\n".toList lines)) =
      .ok (optionalKeys.map fun key => (key, values key)) :=
    mapM_ok fun key hkey =>
      parseVersionField_found h (List.mem_append_right requiredKeys hkey) (Or.inl rfl)
  unfold parseVersionData
  rw [hrequired, hoptional]
  rfl

/-- The data cannot be parsed if one of its fields cannot. -/
theorem parseVersionData_error {blob : Str}
    (h : (∃ key ∈ requiredKeys, ∃ e, parseVersionField false blob key = .error e) ∨
      ∃ key ∈ optionalKeys, ∃ e, parseVersionField true blob key = .error e) :
    ∃ e, parseVersionData blob = .error e := by
  unfold parseVersionData
  cases hrequired : requiredKeys.mapM (parseVersionField false blob) with
  | error e => exact ⟨e, rfl⟩
  | ok required =>
    rcases h with hmissing | hmissing
    · obtain ⟨e, he⟩ := mapM_error hmissing
      rw [hrequired] at he
      cases he
    · obtain ⟨e, he⟩ := mapM_error hmissing
      rw [he]
      exact ⟨e, rfl⟩

end

/-! ### What is accepted -/

theorem plain_value (possiblyEmpty : Bool) :
    (if possiblyEmpty then Regexp.star (.set valueChar) else Regexp.plus (.set valueChar)).Plain := by
  cases possiblyEmpty
  · exact ⟨trivial, trivial⟩
  · trivial

theorem chars_of_mem_value {possiblyEmpty : Bool} {w : Str}
    (h : w ∈ (if possiblyEmpty then Regexp.star (.set valueChar) else Regexp.plus (.set valueChar)).language) :
    ∀ c ∈ w, valueChar c = true := by
  cases possiblyEmpty
  · exact (Regexp.mem_language_plus_set.mp h).2
  · exact Regexp.mem_language_star_set.mp h

/-- A value that was found has the characters of one. -/
theorem submatch_keyPattern {possiblyEmpty : Bool} {key rest : Str} {prev : Option Char} {t : Place}
    (h : t ∈ (keyPattern possiblyEmpty key).ends ⟨prev, rest, []⟩) : ∀ c ∈ t.submatch 1, valueChar c = true := by
  have hquote : (Regexp.opt (.char '"')).Plain := ⟨trivial, trivial⟩
  obtain ⟨_, _, _, _, h⟩ := (Regexp.mem_ends_plain_seq (Regexp.plain_lit _) _ t).mp h
  obtain ⟨_, _, _, _, h⟩ := (Regexp.mem_ends_plain_seq hquote _ t).mp h
  obtain ⟨w, hw, _, _, h⟩ := (Regexp.mem_ends_group_seq (plain_value possiblyEmpty) 1 _ t).mp h
  obtain ⟨_, _, _, _, h⟩ := (Regexp.mem_ends_plain_seq hquote _ t).mp h
  have hsubmatch : t.submatch 1 = w := by
    unfold Regexp.ends at h
    split at h
    · rw [List.mem_singleton.mp h]
      rfl
    · cases h
  rw [hsubmatch]
  exact chars_of_mem_value hw

theorem parseVersionField_chars {possiblyEmpty : Bool} {blob key : Str} {field : Str × Str}
    (h : parseVersionField possiblyEmpty blob key = .ok field) : ∀ c ∈ field.2, valueChar c = true := by
  unfold parseVersionField at h
  cases hfound : (versionPattern possiblyEmpty key).findSubmatch blob with
  | none => simp [hfound] at h
  | some found =>
    have heq : (key, found.submatch 1) = field := by simpa [hfound] using h
    obtain ⟨prev, rest, hends⟩ := Regexp.mem_of_find hfound
    have hends' : found ∈ (keyPattern possiblyEmpty key).ends ⟨prev, rest, []⟩ := by
      rw [versionPattern_eq, Regexp.ends_seq, Regexp.ends] at hends
      split at hends
      · rwa [List.flatMap_singleton] at hends
      · cases hends
    rw [← heq]
    exact submatch_keyPattern hends'

/-- Accepted values are free of quotes and newlines. -/
theorem value_chars {blob : Str} {fields : Fields} (h : parseVersionData blob = .ok fields) (key : String) :
    ∀ c ∈ fields.value key, valueChar c = true := by
  unfold parseVersionData at h
  cases hrequired : requiredKeys.mapM (parseVersionField false blob) with
  | error e =>
    rw [hrequired] at h
    cases h
  | ok required =>
    cases hoptional : optionalKeys.mapM (parseVersionField true blob) with
    | error e =>
      rw [hrequired, hoptional] at h
      cases h
    | ok optional =>
      rw [hrequired, hoptional] at h
      have heq : required ++ optional = fields := Except.ok.inj h
      have hfield : ∀ field ∈ fields, ∀ c ∈ field.2, valueChar c = true := by
        intro field hfield
        rw [← heq] at hfield
        rcases List.mem_append.mp hfield with hmem | hmem
        · obtain ⟨_, _, hread⟩ := mem_of_mapM hrequired field hmem
          exact parseVersionField_chars hread
        · obtain ⟨_, _, hread⟩ := mem_of_mapM hoptional field hmem
          exact parseVersionField_chars hread
      unfold Fields.value
      cases hlookup : fields.lookup key.toList with
      | none => simp
      | some value =>
        have hmem : (key.toList, value) ∈ fields := by
          obtain ⟨l₁, l₂, hsplit, _⟩ := List.lookup_eq_some_iff.mp hlookup
          rw [hsplit]
          simp
        exact hfield _ hmem

/-! ### Runs -/

/-- The file is there and can be read. -/
def HasVersionFile {σ : Type} (m : Machine σ) (repo : Path) (w : World σ) (blob : Str) : Prop :=
  get w.files (repo ++ ["VERSION.dat".toList]) = some blob ∧
    (m.fault w.machine (.readFile (repo ++ ["VERSION.dat".toList]))).1 = none

/-- A file that is there is read. -/
theorem readFile_result {σ : Type} {m : Machine σ} {p : Path} {w : World σ} {content : Str}
    (hget : get w.files p = some content) (hfault : (m.fault w.machine (.readFile p)).1 = none) :
    ((readFile m p).run w).result = .ok (content, none) := by
  have hattempt : (attempt m w (.readFile p)).1 = none := by
    unfold attempt
    simp only [hget, reduceCtorEq, if_false, hfault]
  unfold readFile act
  simp only [hattempt, Op.see, hget, readData, outcome, Option.map_none, Option.getD_some]

theorem openSSLVersionData_result {σ : Type} {m : Machine σ} {repo : Path} {w : World σ} {blob : Str}
    (h : HasVersionFile m repo w blob) :
    ((openSSLVersionData m repo).run w).result = (parseVersionData blob).mapError Stop.returned := by
  have hread := returns_of_result (readFile_result h.1 h.2)
  unfold Returns at hread
  unfold openSSLVersionData
  rw [run_bind, hread]
  simp only [resume, check, run_bind, run_pure, checked]
  cases parseVersionData blob <;> rfl

/-- A rendered file is read back; without a key, or without a value that is needed, there is an
error. -/
theorem openSSLVersionData_renders {σ : Type} (m : Machine σ) (repo : Path) (w : World σ) (blob : Str)
    (hfile : HasVersionFile m repo w blob) :
    (∀ values quoted further lines, VersionFile values quoted further lines →
      blob = joinWith "\n".toList lines →
        ((∀ key ∈ requiredKeys, values key ≠ []) → ((openSSLVersionData m repo).run w).result =
          .ok (versionKeys.map fun key => (key, values key))) ∧
        ((∃ key ∈ requiredKeys, values key = []) →
          ∃ e, ((openSSLVersionData m repo).run w).result = .error (.returned e))) ∧
    ((∃ key ∈ versionKeys, ∀ line ∈ splitOn blob '\n', ¬ key ++ "=".toList <+: line) →
      ∃ e, ((openSSLVersionData m repo).run w).result = .error (.returned e)) := by
  rw [openSSLVersionData_result hfile]
  have hreported : (∃ e, parseVersionData blob = .error e) →
      ∃ e, (parseVersionData blob).mapError Stop.returned = .error (.returned e) := by
    intro ⟨e, he⟩
    exact ⟨e, by rw [he]; rfl⟩
  constructor
  · intro values quoted further lines hversion hblob
    subst hblob
    constructor
    · intro hne
      rw [parseVersionData_ok hversion hne]
      rfl
    · intro ⟨key, hkey, hempty⟩
      apply hreported
      apply parseVersionData_error
      exact Or.inl ⟨key, hkey,
        parseVersionField_empty hversion (List.mem_append_left optionalKeys hkey) hempty⟩
  · intro ⟨key, hkey, hnone⟩
    apply hreported
    apply parseVersionData_error
    rcases List.mem_append.mp hkey with hrequired | hoptional
    · exact Or.inl ⟨key, hrequired, parseVersionField_missing hkey hnone⟩
    · exact Or.inr ⟨key, hoptional, parseVersionField_missing hkey hnone⟩

/-- A machine on which nothing happens and nothing fails. -/
def idle : Machine Unit where
  exec _ files _ := ⟨[], true, files, ()⟩
  goBuild _ _ := (true, ())
  fault _ _ := (none, ())
  cwd := []

def smallVersion (key : Str) : Str :=
  if key = "SHLIB_VERSION".toList then "3".toList
  else if key = "MAJOR".toList then "3".toList
  else if key = "MINOR".toList then "5".toList
  else if key = "PATCH".toList then "0".toList
  else if key = "RELEASE_DATE".toList then "8 Apr 2025".toList
  else []

/-- A date between quotes, an empty tag with and one without them, and a comment. -/
def smallVersionLines : List Str :=
  ["MAJOR=3".toList, "# MINOR=4".toList, "SHLIB_VERSION=3".toList, "MINOR=5".toList, "PATCH=0".toList,
    "PRE_RELEASE_TAG=".toList, "BUILD_METADATA=\"\"".toList, "RELEASE_DATE=\"8 Apr 2025\"".toList, []]

def smallVersionWorld : World Unit :=
  ⟨(), [(["VERSION.dat".toList], joinWith "\n".toList smallVersionLines)]⟩

theorem smallVersion_file : VersionFile smallVersion
    (fun key => key = "BUILD_METADATA".toList ∨ key = "RELEASE_DATE".toList)
    ["# MINOR=4".toList, []] smallVersionLines :=
  ⟨by decide +kernel, by decide +kernel, by decide +kernel⟩

theorem openSSLVersionData_renders_small :
    HasVersionFile idle [] smallVersionWorld (joinWith "\n".toList smallVersionLines) ∧
      VersionFile smallVersion (fun key => key = "BUILD_METADATA".toList ∨ key = "RELEASE_DATE".toList)
        ["# MINOR=4".toList, []] smallVersionLines ∧
      (∀ key ∈ requiredKeys, smallVersion key ≠ []) ∧
      ((openSSLVersionData idle []).run smallVersionWorld).result =
        .ok (versionKeys.map fun key => (key, smallVersion key)) := by
  have hfile : HasVersionFile idle [] smallVersionWorld (joinWith "\n".toList smallVersionLines) :=
    ⟨rfl, rfl⟩
  have hne : ∀ key ∈ requiredKeys, smallVersion key ≠ [] := by decide +kernel
  exact ⟨hfile, smallVersion_file, hne,
    ((openSSLVersionData_renders idle [] smallVersionWorld _ hfile).1 _ _ _ _ smallVersion_file rfl).1 hne⟩

end GoLibtor
