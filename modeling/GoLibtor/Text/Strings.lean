import GoLibtor.Text.Regexp

/-! The functions of the Go packages `strings`, `sort`, `slices` and `path/filepath` that the
generator uses, on texts as lists of characters. -/
namespace Text

def hasPrefix (s pre : Str) : Bool := pre.isPrefixOf s

def hasSuffix (s suf : Str) : Bool := suf.isSuffixOf s

def trimPrefix (s pre : Str) : Str := if hasPrefix s pre then s.drop pre.length else s

def trimSuffix (s suf : Str) : Str := if hasSuffix s suf then s.take (s.length - suf.length) else s

/-- `strings.Contains`. -/
def contains (s sub : Str) : Bool := s.tails.any sub.isPrefixOf

/-- The state of `replaceAll`: how many characters of a replaced occurrence are still to be
passed over. -/
def replaceFrom (old new : Str) : ℕ → Str → Str
  | _, [] => []
  | skip + 1, _ :: cs => replaceFrom old new skip cs
  | 0, c :: cs =>
    if old.isPrefixOf (c :: cs) then new ++ replaceFrom old new (old.length - 1) cs
    else c :: replaceFrom old new 0 cs

/-- `strings.Replace(s, old, new, -1)` for a non-empty `old`. -/
def replaceAll (s old new : Str) : Str := replaceFrom old new 0 s

/-- `unicode.IsSpace`, which `strings.TrimSpace` and `strings.Fields` go by. -/
def isSpace (c : Char) : Bool :=
  let n := c.toNat
  (9 ≤ n && n ≤ 13) || n == 0x20 || n == 0x85 || n == 0xa0 || n == 0x1680 ||
    (0x2000 ≤ n && n ≤ 0x200a) || n == 0x2028 || n == 0x2029 || n == 0x202f || n == 0x205f ||
    n == 0x3000

def trimSpace (s : Str) : Str := ((s.dropWhile isSpace).reverse.dropWhile isSpace).reverse

/-- The non-empty pieces between white space. -/
def fields (s : Str) : List Str := (s.splitOnP isSpace).filter (! ·.isEmpty)

/-- `strings.Split` at a separator of one character. -/
def splitOn (s : Str) (sep : Char) : List Str := s.splitOnP (· == sep)

/-- `strings.Join` with a separator. -/
def joinWith (sep : Str) (parts : List Str) : Str := (parts.intersperse sep).flatten

def toLower (s : Str) : Str := s.map Char.toLower

/-- `sort.Strings`. -/
def sortStrings (items : List Str) : List Str := items.insertionSort (· ≤ ·)

/-- `filepath.Ext`: from the last dot on, empty without one. -/
def ext (name : Str) : Str :=
  if '.' ∈ name then '.' :: (name.reverse.takeWhile (· != '.')).reverse else []

theorem mem_sortStrings {s : Str} {items : List Str} : s ∈ sortStrings items ↔ s ∈ items :=
  (List.perm_insertionSort _ items).mem_iff

/-- Without repetitions the sorted list is strictly increasing. -/
theorem sortStrings_strict {items : List Str} (h : items.Nodup) :
    (sortStrings items).Pairwise (· < ·) := by
  have hnodup : (sortStrings items).Nodup := (List.perm_insertionSort _ items).nodup_iff.mpr h
  have hsorted : (sortStrings items).Pairwise (· ≤ ·) := List.pairwise_insertionSort _ items
  exact (hsorted.and hnodup).imp fun h => lt_of_le_of_ne h.1 h.2

theorem hasPrefix_iff {s pre : Str} : hasPrefix s pre = true ↔ pre <+: s := List.isPrefixOf_iff_prefix

theorem hasSuffix_iff {s suf : Str} : hasSuffix s suf = true ↔ suf <:+ s := List.isSuffixOf_iff_suffix

theorem replaceFrom_one (old new : Char) (s : Str) :
    replaceFrom [old] [new] 0 s = s.map fun c => if c = old then new else c := by
  induction s with
  | nil => rfl
  | cons c cs ih =>
    unfold replaceFrom
    by_cases h : c = old
    · simp [h, ih]
    · have hne : old ≠ c := Ne.symm h
      simp [h, hne, ih]

/-- Replacing one character by another one goes through the text character by character. -/
theorem replaceAll_one (old new : Char) (s : Str) :
    replaceAll s [old] [new] = s.map fun c => if c = old then new else c :=
  replaceFrom_one old new s

theorem mem_replaceFrom {old new s : Str} {n : ℕ} {c : Char} (h : c ∈ replaceFrom old new n s) :
    c ∈ s ∨ c ∈ new := by
  induction s generalizing n with
  | nil => cases n <;> cases h
  | cons d s ih =>
    cases n with
    | succ n =>
      rcases ih h with h | h
      · exact Or.inl (List.mem_cons_of_mem d h)
      · exact Or.inr h
    | zero =>
      unfold replaceFrom at h
      split at h
      · rcases List.mem_append.mp h with h | h
        · exact Or.inr h
        · rcases ih h with h | h
          · exact Or.inl (List.mem_cons_of_mem d h)
          · exact Or.inr h
      · rcases List.mem_cons.mp h with rfl | h
        · exact Or.inl List.mem_cons_self
        · rcases ih h with h | h
          · exact Or.inl (List.mem_cons_of_mem d h)
          · exact Or.inr h

/-- What follows the last separator of a text is one of its two separated tails. -/
theorem suffix_separated {sep : Char} {tag last s : Str} (htag : sep ∉ tag) (hlast : sep ∉ last) :
    sep :: tag <:+ s ++ sep :: last ↔ tag = last := by
  constructor
  · intro h
    rcases List.suffix_or_suffix_of_suffix h (List.suffix_append s (sep :: last)) with h' | h'
    · rcases List.suffix_cons_iff.mp h' with heq | htail
      · exact (List.cons.inj heq).2
      · exact absurd (htail.subset List.mem_cons_self) hlast
    · rcases List.suffix_cons_iff.mp h' with heq | htail
      · exact (List.cons.inj heq).2.symm
      · exact absurd (htail.subset List.mem_cons_self) htag
  · rintro rfl
    exact List.suffix_append s (sep :: tag)

/-- The part after the last separator can be told from what is before it. -/
theorem append_separated_inj {sep : Char} {last last' s s' : Str} (hlast : sep ∉ last)
    (hlast' : sep ∉ last') (h : s ++ sep :: last = s' ++ sep :: last') : s = s' ∧ last = last' := by
  have heq : last = last' := (suffix_separated hlast hlast').mp (h ▸ List.suffix_append s (sep :: last))
  subst heq
  exact ⟨List.append_cancel_right h, rfl⟩

/-- What comes before the first separator can be told from what follows it. -/
theorem append_left_of_not_mem {sep : Char} {a b x y : Str} (ha : sep ∉ a) (hb : sep ∉ b)
    (hx : x = [] ∨ ∃ l, x = sep :: l) (hy : y = [] ∨ ∃ l, y = sep :: l) (h : a ++ x = b ++ y) :
    a = b ∧ x = y := by
  have hshorter : ∀ {a b x y : Str}, sep ∉ b → (x = [] ∨ ∃ l, x = sep :: l) →
      ∀ as, b = a ++ as → x = as ++ y → a = b ∧ x = y := by
    intro a b x y hb hx as hbas hxas
    cases as with
    | nil => exact ⟨by rw [hbas, List.append_nil], hxas⟩
    | cons c as =>
      exfalso
      rcases hx with hx | ⟨l, hx⟩
      · rw [hx] at hxas
        cases hxas
      · have hc : c = sep := by
          rw [hx] at hxas
          exact (List.cons.inj hxas).1.symm
        apply hb
        rw [hbas, hc]
        simp
  rcases List.append_eq_append_iff.mp h with ⟨as, hbas, hxas⟩ | ⟨as, haas, hyas⟩
  · exact hshorter hb hx as hbas hxas
  · obtain ⟨hab, hxy⟩ := hshorter ha hy as haas hyas
    exact ⟨hab.symm, hxy.symm⟩

theorem joinWith_cons (sep part : Str) (parts : List Str) :
    joinWith sep (part :: parts) = part ++ (parts.map (sep ++ ·)).flatten := by
  induction parts generalizing part with
  | nil => simp [joinWith]
  | cons next parts ih =>
    have hnext : joinWith sep (next :: parts) = next ++ (parts.map (sep ++ ·)).flatten := ih next
    have hstep : joinWith sep (part :: next :: parts) = part ++ sep ++ joinWith sep (next :: parts) := by
      simp [joinWith]
    rw [hstep, hnext]
    simp

theorem mem_splitOn {s part : Str} {sep c : Char} (hpart : part ∈ splitOn s sep) (hc : c ∈ part) :
    c ∈ s := by
  unfold splitOn at hpart
  induction s generalizing part with
  | nil =>
    rw [List.splitOnP_nil, List.mem_singleton] at hpart
    rw [hpart] at hc
    cases hc
  | cons d s ih =>
    rw [List.splitOnP_cons_eq_if_modifyHead] at hpart
    split at hpart
    · rcases List.mem_cons.mp hpart with rfl | hpart
      · cases hc
      · exact List.mem_cons_of_mem d (ih hpart hc)
    · cases hsplit : s.splitOnP (· == sep) with
      | nil =>
        rw [hsplit] at hpart
        cases hpart
      | cons first parts =>
        rw [hsplit] at hpart
        rcases List.mem_cons.mp hpart with rfl | hpart
        · rcases List.mem_cons.mp hc with rfl | hc
          · exact List.mem_cons_self
          · exact List.mem_cons_of_mem d (ih (hsplit ▸ List.mem_cons_self) hc)
        · exact List.mem_cons_of_mem d (ih (hsplit ▸ List.mem_cons_of_mem first hpart) hc)

theorem not_mem_of_mem_splitOn {s part : Str} {sep : Char} (hpart : part ∈ splitOn s sep) :
    sep ∉ part := by
  unfold splitOn at hpart
  induction s generalizing part with
  | nil =>
    rw [List.splitOnP_nil, List.mem_singleton] at hpart
    simp [hpart]
  | cons c s ih =>
    rw [List.splitOnP_cons_eq_if_modifyHead] at hpart
    split at hpart
    · rcases List.mem_cons.mp hpart with hpart | hpart
      · simp [hpart]
      · exact ih hpart
    · rename_i hc
      cases hsplit : s.splitOnP (· == sep) with
      | nil => simp [hsplit] at hpart
      | cons first parts =>
        rw [hsplit] at hpart ih
        rcases List.mem_cons.mp hpart with hpart | hpart
        · have hfirst : sep ∉ first := ih List.mem_cons_self
          rw [hpart]
          intro hmem
          rcases List.mem_cons.mp hmem with heq | hmem
          · exact hc (by rw [heq]; exact beq_self_eq_true c)
          · exact hfirst hmem
        · exact ih (List.mem_cons_of_mem first hpart)

theorem joinWith_splitOn (s : Str) (sep : Char) : joinWith [sep] (splitOn s sep) = s :=
  List.intercalate_splitOn sep

theorem splitOn_joinWith {parts : List Str} {sep : Char} (hne : parts ≠ [])
    (hparts : ∀ part ∈ parts, sep ∉ part) : splitOn (joinWith [sep] parts) sep = parts :=
  List.splitOn_intercalate sep hparts hne

theorem splitOn_ne_nil (s : Str) (sep : Char) : splitOn s sep ≠ [] := List.splitOnP_ne_nil _ s

end Text
