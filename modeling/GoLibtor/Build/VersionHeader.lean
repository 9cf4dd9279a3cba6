import GoLibtor.Build.VersionData
import GoLibtor.Build.Phases
import GoLibtor.Build.Upstream

/-! The version header that the generator writes, beside the one of upstream's own template. -/
namespace GoLibtor

open Text Files Transition Program

/-! ### Upstream's header -/

/-- `%config`, as far as the template of the header uses it. -/
structure Config where
  major : Str
  minor : Str
  patch : Str
  prerelease : Str
  buildMetadata : Str
  shlibVersion : Str
  version : Str
  fullVersion : Str
  releaseDate : Str

/-- A macro, the text between its name and its value, and the value. -/
structure Macro where
  name : String
  gap : String
  value : Str

def Macro.line (opening : String) (d : Macro) : Str :=
  opening.toList ++ (d.name.toList ++ (d.gap.toList ++ d.value))

/-- The macros that hold the version data. -/
def dataMacros (gap : String) (config : Config) : List Macro :=
  [⟨"OPENSSL_VERSION_MAJOR", gap, config.major⟩, ⟨"OPENSSL_VERSION_MINOR", gap, config.minor⟩,
    ⟨"OPENSSL_VERSION_PATCH", gap, config.patch⟩,
    ⟨"OPENSSL_VERSION_PRE_RELEASE", " \"", config.prerelease ++ "\"".toList⟩,
    ⟨"OPENSSL_VERSION_BUILD_METADATA", " \"", config.buildMetadata ++ "\"".toList⟩,
    ⟨"OPENSSL_SHLIB_VERSION", " ", config.shlibVersion⟩]

/-- The macros that are put together from the data. -/
def textMacros (config : Config) : List Macro :=
  [⟨"OPENSSL_VERSION_STR", " \"", config.version ++ "\"".toList⟩,
    ⟨"OPENSSL_FULL_VERSION_STR", " \"", config.fullVersion ++ "\"".toList⟩,
    ⟨"OPENSSL_RELEASE_DATE", " \"", config.releaseDate ++ "\"".toList⟩,
    ⟨"OPENSSL_VERSION_TEXT", " \"OpenSSL ",
      config.fullVersion ++ " ".toList ++ config.releaseDate ++ "\"".toList⟩]

/-- The macros of the version between lines that do not depend on it. -/
def headerLines (opening gap : String) (before between after : List String) (config : Config) : List Str :=
  before.map String.toList ++ (dataMacros gap config).map (Macro.line opening) ++
    between.map String.toList ++ (textMacros config).map (Macro.line opening) ++ after.map String.toList

/-- `include/openssl/opensslv.h.in` without its comments and empty lines. -/
def templateLines (config : Config) : List Str :=
  headerLines "# define " "  "
    ["#ifndef OPENSSL_OPENSSLV_H", "#define OPENSSL_OPENSSLV_H", "#pragma once", "#ifdef __cplusplus",
      "extern \"C\" \x7b", "#endif"]
    ["#define OPENSSL_VERSION_PREREQ(maj, min) \\",
      "    ((OPENSSL_VERSION_MAJOR << 16) + OPENSSL_VERSION_MINOR >= ((maj) << 16) + (min))"]
    ["# define OPENSSL_VERSION_NUMBER          \\", "    ( (OPENSSL_VERSION_MAJOR<<28)        \\",
      "      |(OPENSSL_VERSION_MINOR<<20)       \\", "      |(OPENSSL_VERSION_PATCH<<4)        \\",
      "      |0x0L )", "#ifdef __cplusplus", "\x7d", "#endif", "#include <openssl/macros.h>",
      "#ifndef OPENSSL_NO_DEPRECATED_3_0", "#define HEADER_OPENSSLV_H", "#endif",
      "#endif /* OPENSSL_OPENSSLV_H */"]
    config

def upstreamHeader (config : Config) : Str := joinWith "\n".toList (templateLines config)

/-- What `Configure`, which is not in the tree, makes of the version data: the quotes are gone, and
a tag that is not empty gets its sign. -/
structure Configured (fields : Fields) (config : Config) : Prop where
  major : config.major = fields.value "MAJOR"
  minor : config.minor = fields.value "MINOR"
  patch : config.patch = fields.value "PATCH"
  prerelease : config.prerelease =
    if fields.value "PRE_RELEASE_TAG" = [] then [] else '-' :: fields.value "PRE_RELEASE_TAG"
  buildMetadata : config.buildMetadata =
    if fields.value "BUILD_METADATA" = [] then [] else '+' :: fields.value "BUILD_METADATA"
  shlibVersion : config.shlibVersion = fields.value "SHLIB_VERSION"
  releaseDate : config.releaseDate = fields.value "RELEASE_DATE"
  version : config.version = joinWith ".".toList [config.major, config.minor, config.patch]
  fullVersion : config.fullVersion = config.version ++ config.prerelease ++ config.buildMetadata

/-! ### The macros of a header -/

def strip (s : Str) : Str := ((s.dropWhile blankClass).reverse.dropWhile blankClass).reverse

/-- What follows a word at the start of a text. -/
def behind (word s : Str) : Option Str := if word.isPrefixOf s then some (s.drop word.length) else none

def nameChar (c : Char) : Bool :=
  inRange 'A' 'Z' c || inRange 'a' 'z' c || inRange '0' '9' c || c == '_'

/-- The macro that a line defines, with the text behind its name. -/
def definition (line : Str) : Option (Str × Str) :=
  (behind "#".toList line).bind fun rest =>
    (behind "define".toList (rest.dropWhile blankClass)).map fun rest =>
      let definition := rest.dropWhile blankClass
      (definition.takeWhile nameChar, strip (definition.dropWhile nameChar))

def macroValue (header name : Str) : Option Str :=
  ((splitOn header '\n').filterMap definition).lookup name

def versionMacros : List Str :=
  ["OPENSSL_VERSION_MAJOR", "OPENSSL_VERSION_MINOR", "OPENSSL_VERSION_PATCH", "OPENSSL_VERSION_PRE_RELEASE",
    "OPENSSL_VERSION_BUILD_METADATA", "OPENSSL_SHLIB_VERSION", "OPENSSL_VERSION_STR",
    "OPENSSL_FULL_VERSION_STR", "OPENSSL_RELEASE_DATE", "OPENSSL_VERSION_TEXT"].map String.toList

/-- What the generator puts in the place of `%config`: the tags as they are. -/
def generatorConfig (fields : Fields) : Config where
  major := fields.value "MAJOR"
  minor := fields.value "MINOR"
  patch := fields.value "PATCH"
  prerelease := fields.value "PRE_RELEASE_TAG"
  buildMetadata := fields.value "BUILD_METADATA"
  shlibVersion := fields.value "SHLIB_VERSION"
  version := versionNumber fields
  fullVersion := versionNumber fields ++ fields.value "PRE_RELEASE_TAG" ++ fields.value "BUILD_METADATA"
  releaseDate := fields.value "RELEASE_DATE"

/-- The lines of the header that the generator writes. -/
def versionHeaderLines (fields : Fields) : List Str :=
  headerLines "#define " " "
    ["/*", " * Generated by go-libtor's wrapper.", " */", "", "#ifndef OPENSSL_OPENSSLV_H",
      "#define OPENSSL_OPENSSLV_H", "#pragma once", "", "#ifdef __cplusplus", "extern \"C\" \x7b", "#endif", ""]
    ["#define OPENSSL_VERSION_PREREQ(maj, min) \\",
      "    ((OPENSSL_VERSION_MAJOR << 16) + OPENSSL_VERSION_MINOR >= ((maj) << 16) + (min))"]
    ["#define OPENSSL_VERSION_NUMBER          \\", "    ( (OPENSSL_VERSION_MAJOR<<28)        \\",
      "      |(OPENSSL_VERSION_MINOR<<20)       \\", "      |(OPENSSL_VERSION_PATCH<<4)        \\",
      "      |0x0L )", "", "#ifdef __cplusplus", "\x7d", "#endif", "", "#endif", ""]
    (generatorConfig fields)

theorem toList_append_append (a b : String) (x : Str) :
    a.toList ++ (b.toList ++ x) = (a ++ b).toList ++ x := by
  rw [String.toList_append, List.append_assoc]

theorem toList_append_toList (a b : String) : a.toList ++ b.toList = (a ++ b).toList :=
  (String.toList_append).symm

theorem versionHeader_eq (fields : Fields) :
    versionHeader fields = joinWith "\n".toList (versionHeaderLines fields) := by
  unfold versionHeader versionHeaderLines headerLines dataMacros textMacros generatorConfig
  simp only [List.map_cons, List.map_nil, List.cons_append, List.nil_append, Macro.line]
  rw [joinWith_cons]
  simp only [List.map_cons, List.map_nil, List.flatten_cons, List.flatten_nil, List.append_assoc,
    List.append_nil, toList_append_append, toList_append_toList, String.reduceAppend]

/-! ### What the two headers define -/

theorem behind_append (word rest : Str) : behind word (word ++ rest) = some rest := by
  unfold behind
  rw [if_pos (List.isPrefixOf_iff_prefix.mpr (List.prefix_append word rest)), List.drop_left]

theorem blankClass_nameChar {c : Char} (h : nameChar c = true) : blankClass c = false := by
  by_contra hblank
  have hcases : (((c = '\t' ∨ c = '\n') ∨ c = '\x0c') ∨ c = '\r') ∨ c = ' ' := by
    unfold blankClass at hblank
    simpa only [Bool.not_eq_false, Bool.or_eq_true, beq_iff_eq] using hblank
  rcases hcases with (((hc | hc) | hc) | hc) | hc
  all_goals
    rw [hc] at h
    exact absurd h (by decide)

/-- A macro that can be read back: its name is one, and a blank follows it on the same line. -/
def Macro.WellFormed (d : Macro) : Prop :=
  d.name.toList ≠ [] ∧ (∀ c ∈ d.name.toList, nameChar c = true) ∧
    (d.gap.toList.head? = some ' ' ∧ '\n' ∉ d.gap.toList)

/-- What a line defines its macro to. -/
theorem definition_line {opening : String} {d : Macro} (hd : d.WellFormed)
    (hopening : opening = "#define " ∨ opening = "# define ") :
    definition (d.line opening) = some (d.name.toList, strip (d.gap.toList ++ d.value)) := by
  obtain ⟨hne, hname, hgap, _⟩ := hd
  obtain ⟨more, hgap⟩ : ∃ more, d.gap.toList = ' ' :: more := List.head?_eq_some_iff.mp hgap
  have hblank : (d.name.toList ++ (d.gap.toList ++ d.value)).dropWhile blankClass =
      d.name.toList ++ (d.gap.toList ++ d.value) := by
    cases hchars : d.name.toList with
    | nil => exact absurd hchars hne
    | cons c cs =>
      have hc : blankClass c = false := blankClass_nameChar (hname c (by rw [hchars]; exact List.mem_cons_self))
      rw [List.cons_append, List.dropWhile_cons_of_neg (by simp [hc])]
  have htake : (d.name.toList ++ (d.gap.toList ++ d.value)).takeWhile nameChar = d.name.toList := by
    rw [List.takeWhile_append_of_pos hname, hgap, List.cons_append,
      List.takeWhile_cons_of_neg (by decide), List.append_nil]
  have hdrop : (d.name.toList ++ (d.gap.toList ++ d.value)).dropWhile nameChar = d.gap.toList ++ d.value := by
    rw [List.dropWhile_append_of_pos hname, hgap, List.cons_append, List.dropWhile_cons_of_neg (by decide)]
  have hdefine : ∃ rest, behind "#".toList (d.line opening) = some rest ∧
      rest.dropWhile blankClass = "define".toList ++ ' ' :: (d.name.toList ++ (d.gap.toList ++ d.value)) := by
    rcases hopening with hopening | hopening
    · rw [hopening]
      exact ⟨_, rfl, rfl⟩
    · rw [hopening]
      exact ⟨_, rfl, rfl⟩
  obtain ⟨rest, hhash, hrest⟩ := hdefine
  have hspace : (' ' :: (d.name.toList ++ (d.gap.toList ++ d.value))).dropWhile blankClass =
      d.name.toList ++ (d.gap.toList ++ d.value) := by
    rw [List.dropWhile_cons_of_pos (by decide), hblank]
  unfold definition
  rw [hhash, Option.bind_some, hrest, behind_append, Option.map_some]
  simp only [hspace, htake, hdrop]

/-- What the lines of some macros define. -/
def definitions (ds : List Macro) : List (Str × Str) :=
  ds.map fun d => (d.name.toList, strip (d.gap.toList ++ d.value))

theorem filterMap_definition_lines {opening : String} {ds : List Macro} (hds : ∀ d ∈ ds, d.WellFormed)
    (hopening : opening = "#define " ∨ opening = "# define ") :
    (ds.map (Macro.line opening)).filterMap definition = definitions ds := by
  induction ds with
  | nil => rfl
  | cons d ds ih =>
    rw [List.map_cons, List.filterMap_cons, definition_line (hds d List.mem_cons_self) hopening,
      ih fun e he => hds e (List.mem_cons_of_mem d he)]
    rfl

theorem line_newline {opening : String} {d : Macro} (hd : d.WellFormed) (hvalue : '\n' ∉ d.value)
    (hopening : opening = "#define " ∨ opening = "# define ") : '\n' ∉ d.line opening := by
  have hstart : '\n' ∉ opening.toList := by
    rcases hopening with hopening | hopening <;> rw [hopening] <;> decide
  have hname : '\n' ∉ d.name.toList := by
    intro h
    exact absurd (hd.2.1 _ h) (by decide)
  unfold Macro.line
  simp only [List.mem_append, not_or]
  exact ⟨hstart, hname, hd.2.2.2, hvalue⟩

theorem dataMacros_wellFormed {gap : String} (hgap : gap.toList.head? = some ' ' ∧ '\n' ∉ gap.toList)
    (config : Config) : ∀ d ∈ dataMacros gap config, d.WellFormed := by
  unfold dataMacros Macro.WellFormed
  simp only [List.forall_mem_cons, hgap, not_false_eq_true, and_true]
  decide +kernel

theorem textMacros_wellFormed (config : Config) : ∀ d ∈ textMacros config, d.WellFormed := by
  unfold textMacros Macro.WellFormed
  simp only [List.forall_mem_cons]
  decide +kernel

/-- The values that stand in a header. -/
def Config.values (config : Config) : List Str :=
  [config.major, config.minor, config.patch, config.prerelease, config.buildMetadata, config.shlibVersion,
    config.version, config.fullVersion, config.releaseDate]

section

variable {opening gap : String} {before between after : List String} {config : Config}

theorem headerLines_newline (hopening : opening = "#define " ∨ opening = "# define ")
    (hgap : gap.toList.head? = some ' ' ∧ '\n' ∉ gap.toList)
    (hclosed : ∀ line ∈ before ++ between ++ after, '\n' ∉ line.toList)
    (hvalues : ∀ value ∈ config.values, '\n' ∉ value) :
    ∀ line ∈ headerLines opening gap before between after config, '\n' ∉ line := by
  unfold Config.values at hvalues
  simp only [List.forall_mem_cons] at hvalues
  have hdata : ∀ d ∈ dataMacros gap config, '\n' ∉ d.value := by
    unfold dataMacros
    simp [hvalues]
  have htext : ∀ d ∈ textMacros config, '\n' ∉ d.value := by
    unfold textMacros
    simp [hvalues]
  have hdataLines : ∀ line ∈ (dataMacros gap config).map (Macro.line opening), '\n' ∉ line := by
    intro line hline
    obtain ⟨d, hd, heq⟩ := List.mem_map.mp hline
    rw [← heq]
    exact line_newline (dataMacros_wellFormed hgap config d hd) (hdata d hd) hopening
  have htextLines : ∀ line ∈ (textMacros config).map (Macro.line opening), '\n' ∉ line := by
    intro line hline
    obtain ⟨d, hd, heq⟩ := List.mem_map.mp hline
    rw [← heq]
    exact line_newline (textMacros_wellFormed config d hd) (htext d hd) hopening
  have hclosedLines : ∀ line ∈ (before ++ between ++ after).map String.toList, '\n' ∉ line := by
    intro line hline
    obtain ⟨text, htext, heq⟩ := List.mem_map.mp hline
    rw [← heq]
    exact hclosed text htext
  simp only [List.map_append, List.mem_append, or_imp, forall_and] at hclosedLines
  unfold headerLines
  simp only [List.mem_append, or_imp, forall_and]
  exact ⟨⟨⟨⟨hclosedLines.1.1, hdataLines⟩, hclosedLines.1.2⟩, htextLines⟩, hclosedLines.2⟩

/-- The macros of a header in the order of its lines. -/
theorem macroValue_header (name : Str) (hopening : opening = "#define " ∨ opening = "# define ")
    (hgap : gap.toList.head? = some ' ' ∧ '\n' ∉ gap.toList) (hne : before ≠ [])
    (hclosed : ∀ line ∈ before ++ between ++ after, '\n' ∉ line.toList)
    (hvalues : ∀ value ∈ config.values, '\n' ∉ value) :
    macroValue (joinWith "\n".toList (headerLines opening gap before between after config)) name =
      ((before.map String.toList).filterMap definition ++ definitions (dataMacros gap config) ++
        (between.map String.toList).filterMap definition ++ definitions (textMacros config) ++
        (after.map String.toList).filterMap definition).lookup name := by
  have hlines : headerLines opening gap before between after config ≠ [] := by
    unfold headerLines
    simp [hne]
  have hsplit : splitOn (joinWith "\n".toList (headerLines opening gap before between after config)) '\n' =
      headerLines opening gap before between after config :=
    splitOn_joinWith hlines (headerLines_newline hopening hgap hclosed hvalues)
  unfold macroValue
  rw [hsplit]
  unfold headerLines
  rw [List.filterMap_append, List.filterMap_append, List.filterMap_append, List.filterMap_append,
    filterMap_definition_lines (dataMacros_wellFormed hgap config) hopening,
    filterMap_definition_lines (textMacros_wellFormed config) hopening]

end

/-- What a header defines to its version, between the guard and the number. -/
def versionDefinitions (config : Config) : List (Str × Str) :=
  [("OPENSSL_OPENSSLV_H".toList, [])] ++ definitions (dataMacros " " config) ++
    [("OPENSSL_VERSION_PREREQ".toList, "(maj, min) \\".toList)] ++ definitions (textMacros config) ++
    [("OPENSSL_VERSION_NUMBER".toList, "\\".toList)]

theorem versionHeader_macros {fields : Fields} (name : Str)
    (hvalues : ∀ value ∈ (generatorConfig fields).values, '\n' ∉ value) :
    macroValue (versionHeader fields) name = (versionDefinitions (generatorConfig fields)).lookup name := by
  rw [versionHeader_eq, versionHeaderLines,
    macroValue_header name (Or.inl rfl) (by decide +kernel) (by simp) (by decide +kernel) hvalues]
  unfold versionDefinitions
  refine congrArg (List.lookup name) (congrArg₂ (· ++ ·) (congrArg (· ++ _) (congrArg₂ (· ++ ·)
    (congrArg (· ++ _) ?_) ?_)) ?_)
  · decide +kernel
  · decide +kernel
  · decide +kernel

theorem upstreamHeader_macros {config : Config} {name : Str} (hname : name ∈ versionMacros)
    (hvalues : ∀ value ∈ config.values, '\n' ∉ value) :
    macroValue (upstreamHeader config) name = (versionDefinitions config).lookup name := by
  have hother : [("HEADER_OPENSSLV_H".toList, ([] : Str))].lookup name = none := by
    revert name
    decide +kernel
  have hblank : ∀ s : Str, strip ("  ".toList ++ s) = strip (" ".toList ++ s) := fun _ => rfl
  have hgap : definitions (dataMacros "  " config) = definitions (dataMacros " " config) := by
    unfold definitions dataMacros
    simp only [List.map_cons, hblank]
  have hmore : (versionDefinitions config).lookup name =
      (versionDefinitions config ++ [("HEADER_OPENSSLV_H".toList, [])]).lookup name := by
    rw [List.lookup_append, hother, Option.or_none]
  rw [hmore, upstreamHeader, templateLines,
    macroValue_header name (Or.inr rfl) (by decide +kernel) (by simp) (by decide +kernel) hvalues, hgap]
  unfold versionDefinitions
  rw [List.append_assoc _ [("OPENSSL_VERSION_NUMBER".toList, "\\".toList)]]
  refine congrArg (List.lookup name) (congrArg₂ (· ++ ·) (congrArg (· ++ _) (congrArg₂ (· ++ ·)
    (congrArg (· ++ _) ?_) ?_)) ?_)
  · decide +kernel
  · decide +kernel
  · decide +kernel

/-- A quoted text keeps what is between its quotes. -/
theorem strip_quoted (s : Str) : strip (" \"".toList ++ (s ++ "\"".toList)) = '"' :: (s ++ ['"']) := by
  have hfront : (" \"".toList ++ (s ++ "\"".toList)).dropWhile blankClass = '"' :: (s ++ ['"']) := rfl
  have hreverse : ('"' :: (s ++ ['"'])).reverse = '"' :: (s.reverse ++ ['"']) := by simp
  unfold strip
  rw [hfront, hreverse, List.dropWhile_cons_of_neg (by decide)]
  simp

/-- A macro is looked up behind the macros with other names. -/
theorem lookup_definition {before rest : List Macro} {d : Macro} {config : Config}
    (hdata : dataMacros " " config = before ++ d :: rest)
    (hnames : ∀ name ∈ "OPENSSL_OPENSSLV_H" :: before.map Macro.name, (d.name.toList != name.toList) = true) :
    (versionDefinitions config).lookup d.name.toList = some (strip (d.gap.toList ++ d.value)) := by
  apply List.lookup_eq_some_iff.mpr
  refine ⟨("OPENSSL_OPENSSLV_H".toList, []) :: definitions before, definitions rest ++
    [("OPENSSL_VERSION_PREREQ".toList, "(maj, min) \\".toList)] ++ definitions (textMacros config) ++
    [("OPENSSL_VERSION_NUMBER".toList, "\\".toList)], ?_, ?_⟩
  · unfold versionDefinitions definitions
    rw [hdata]
    simp only [List.map_append, List.map_cons, List.append_assoc, List.cons_append, List.nil_append]
  · intro e he
    rcases List.mem_cons.mp he with he | he
    · rw [he]
      exact hnames _ List.mem_cons_self
    · obtain ⟨d', hd', heq⟩ := List.mem_map.mp he
      rw [← heq]
      exact hnames _ (List.mem_cons_of_mem _ (List.mem_map_of_mem hd'))

theorem lookup_prerelease (config : Config) :
    (versionDefinitions config).lookup "OPENSSL_VERSION_PRE_RELEASE".toList =
      some ('"' :: (config.prerelease ++ ['"'])) := by
  have hdata : dataMacros " " config = [⟨"OPENSSL_VERSION_MAJOR", " ", config.major⟩,
      ⟨"OPENSSL_VERSION_MINOR", " ", config.minor⟩, ⟨"OPENSSL_VERSION_PATCH", " ", config.patch⟩] ++
      ⟨"OPENSSL_VERSION_PRE_RELEASE", " \"", config.prerelease ++ "\"".toList⟩ :: _ := rfl
  have hnames : ∀ name ∈ ["OPENSSL_OPENSSLV_H", "OPENSSL_VERSION_MAJOR", "OPENSSL_VERSION_MINOR",
      "OPENSSL_VERSION_PATCH"], ("OPENSSL_VERSION_PRE_RELEASE".toList != name.toList) = true := by
    decide +kernel
  rw [← strip_quoted]
  exact lookup_definition hdata hnames

theorem lookup_buildMetadata (config : Config) :
    (versionDefinitions config).lookup "OPENSSL_VERSION_BUILD_METADATA".toList =
      some ('"' :: (config.buildMetadata ++ ['"'])) := by
  have hdata : dataMacros " " config = [⟨"OPENSSL_VERSION_MAJOR", " ", config.major⟩,
      ⟨"OPENSSL_VERSION_MINOR", " ", config.minor⟩, ⟨"OPENSSL_VERSION_PATCH", " ", config.patch⟩,
      ⟨"OPENSSL_VERSION_PRE_RELEASE", " \"", config.prerelease ++ "\"".toList⟩] ++
      ⟨"OPENSSL_VERSION_BUILD_METADATA", " \"", config.buildMetadata ++ "\"".toList⟩ :: _ := rfl
  have hnames : ∀ name ∈ ["OPENSSL_OPENSSLV_H", "OPENSSL_VERSION_MAJOR", "OPENSSL_VERSION_MINOR",
      "OPENSSL_VERSION_PATCH", "OPENSSL_VERSION_PRE_RELEASE"],
      ("OPENSSL_VERSION_BUILD_METADATA".toList != name.toList) = true := by
    decide +kernel
  rw [← strip_quoted]
  exact lookup_definition hdata hnames

/-! ### The headers of one build -/

/-- Both headers define every macro of the version to the same value. -/
def HeadersAgree (header header' : Str) : Prop :=
  ∀ name ∈ versionMacros, macroValue header name = macroValue header' name

section

variable {blob : Str} {fields : Fields} {config : Config}

theorem generatorConfig_newline (h : parseVersionData blob = .ok fields) :
    ∀ value ∈ (generatorConfig fields).values, '\n' ∉ value := by
  have hvalue : ∀ key : String, '\n' ∉ fields.value key := by
    intro key hmem
    exact absurd (value_chars h key _ hmem) (by decide)
  have hnumber : '\n' ∉ versionNumber fields := by
    unfold versionNumber
    rw [joinWith_cons]
    simp [hvalue]
  unfold Config.values generatorConfig
  simp [hvalue, hnumber]

theorem config_newline (h : parseVersionData blob = .ok fields) (hconfig : Configured fields config) :
    ∀ value ∈ config.values, '\n' ∉ value := by
  have hvalue : ∀ key : String, '\n' ∉ fields.value key := by
    intro key hmem
    exact absurd (value_chars h key _ hmem) (by decide)
  have htag : ∀ (sign : Char) (tag : Str), '\n' ≠ sign → '\n' ∉ tag →
      '\n' ∉ if tag = [] then [] else sign :: tag := by
    intro sign tag hsign htag
    split <;> simp [hsign, htag]
  have hprerelease := htag '-' _ (by decide) (hvalue "PRE_RELEASE_TAG")
  have hmetadata := htag '+' _ (by decide) (hvalue "BUILD_METADATA")
  have hnumber : '\n' ∉ joinWith ".".toList
      [fields.value "MAJOR", fields.value "MINOR", fields.value "PATCH"] := by
    rw [joinWith_cons]
    simp [hvalue]
  rw [← hconfig.prerelease] at hprerelease
  rw [← hconfig.buildMetadata] at hmetadata
  rw [← hconfig.major, ← hconfig.minor, ← hconfig.patch, ← hconfig.version] at hnumber
  unfold Config.values
  rw [hconfig.fullVersion, hconfig.major, hconfig.minor, hconfig.patch, hconfig.shlibVersion,
    hconfig.releaseDate]
  simp only [List.forall_mem_cons, List.mem_append, not_or]
  simp [hvalue, hprerelease, hmetadata, hnumber]

/-- Without tags there is nothing to put a sign before. -/
theorem config_eq (hconfig : Configured fields config) (hprerelease : fields.value "PRE_RELEASE_TAG" = [])
    (hmetadata : fields.value "BUILD_METADATA" = []) : config = generatorConfig fields := by
  obtain ⟨h₁, h₂, h₃, h₄, h₅, h₆, h₇, h₈, h₉⟩ := hconfig
  rw [if_pos hprerelease] at h₄
  rw [if_pos hmetadata] at h₅
  rw [h₁, h₂, h₃] at h₈
  rw [h₈, h₄, h₅] at h₉
  cases config
  simp only at h₁ h₂ h₃ h₄ h₅ h₆ h₇ h₈ h₉
  unfold generatorConfig versionNumber
  simp [h₁, h₂, h₃, h₄, h₅, h₆, h₇, h₈, h₉, hprerelease, hmetadata]

theorem headersAgree_iff (h : parseVersionData blob = .ok fields) (hconfig : Configured fields config) :
    HeadersAgree (versionHeader fields) (upstreamHeader config) ↔
      fields.value "PRE_RELEASE_TAG" = [] ∧ fields.value "BUILD_METADATA" = [] := by
  have hours : ∀ name, macroValue (versionHeader fields) name = _ :=
    fun name => versionHeader_macros name (generatorConfig_newline h)
  have htheirs : ∀ name ∈ versionMacros, macroValue (upstreamHeader config) name = _ :=
    fun name hname => upstreamHeader_macros hname (config_newline h hconfig)
  have hsigned : ∀ (sign : Char) (tag : Str),
      some ('"' :: (tag ++ ['"'])) = some ('"' :: ((if tag = [] then [] else sign :: tag) ++ ['"'])) →
      tag = [] := by
    intro sign tag heq
    by_contra hne
    rw [if_neg hne] at heq
    have hlength := congrArg List.length (Option.some.inj heq)
    simp at hlength
  constructor
  · intro hagree
    constructor
    · have hmem : "OPENSSL_VERSION_PRE_RELEASE".toList ∈ versionMacros := by decide +kernel
      have heq := hagree _ hmem
      rw [hours, htheirs _ hmem, lookup_prerelease, lookup_prerelease, hconfig.prerelease] at heq
      exact hsigned '-' _ heq
    · have hmem : "OPENSSL_VERSION_BUILD_METADATA".toList ∈ versionMacros := by decide +kernel
      have heq := hagree _ hmem
      rw [hours, htheirs _ hmem, lookup_buildMetadata, lookup_buildMetadata, hconfig.buildMetadata] at heq
      exact hsigned '+' _ heq
  · intro ⟨hprerelease, hmetadata⟩ name hname
    rw [hours, htheirs name hname, config_eq hconfig hprerelease hmetadata]

end

/-! ### One build -/

section

variable {σ : Type} {m : Machine σ} {pk : Packages} {o : Options}

/-- The version `wrapOpenSSL` reports is that of a file it read. -/
theorem wrapOpenSSL_version {lock : Option LockJson} {w w' : World σ} {a : Str × Str} {vs : List Event}
    (h : Returns (wrapOpenSSL m pk o linux lock) w a w' vs) :
    ∃ blob versionData, Event.read (Library.openssl.folder ++ ["VERSION.dat".toList]) blob true ∈ vs ∧
      parseVersionData blob = .ok versionData ∧ a.1 = versionString versionData := by
  obtain ⟨⟨commit, date, versionData, deps⟩, s, us, us', hconfigure, hrest, rfl⟩ := bind_returns.mp h
  have hreported : a.1 = versionString versionData :=
    Answers.returns (P := fun r => r.1 = versionString versionData)
      (answers_bind fun _ => answers_bind fun _ => answers_bind fun _ => answers_bind fun _ =>
        answers_pure rfl) hrest
  obtain ⟨_, _, _, _, _, hfound, _⟩ := configureOpenSSL_returns hconfigure
  obtain ⟨_, _, blob, data, _, hblob, hparse, hrelease⟩ := hfound
  cases hrelease
  exact ⟨blob, versionData, List.mem_append_left us' hblob, hparse, hreported⟩

theorem openSSLVersion_result {repo : Path} {w : World σ} {blob : Str} {fields : Fields}
    (hfile : HasVersionFile m repo w blob) (hparse : parseVersionData blob = .ok fields) :
    ((openSSLVersion m repo).run w).result = .ok (versionString fields) := by
  have hdata : ((openSSLVersionData m repo).run w).result = .ok fields := by
    rw [openSSLVersionData_result hfile, hparse]
    rfl
  have hreturns : Returns (openSSLVersion m repo) w (versionString fields) _ _ :=
    bind_returns.mpr ⟨_, _, _, _, returns_of_result hdata, pure_returns.mpr ⟨rfl, rfl, rfl⟩, rfl⟩
  exact congrArg Outcome.result hreturns

theorem writeOpenSSLVersionHeader_returns {p : Path} {w w' : World σ} {fields : Fields} {us : List Event}
    (h : Returns (writeOpenSSLVersionHeader m p fields) w none w' us) :
    get w'.files p = some (versionHeader fields) := by
  unfold writeOpenSSLVersionHeader at h
  rw [writeFile_ok h, get_put, if_pos rfl]

/-- Of a version file that is accepted, the generator's header defines what upstream's does, and
both functions report one version, exactly when there are no tags. -/
theorem one_version {repo p : Path} {w w₁ w₂ : World σ} {blob : Str} {fields : Fields} {config : Config}
    {us : List Event} (hfile : HasVersionFile m repo w blob)
    (haccepted : ((openSSLVersionData m repo).run w).result = .ok fields)
    (hconfig : Configured fields config)
    (hwrite : Returns (writeOpenSSLVersionHeader m p fields) w₁ none w₂ us) :
    ((∃ header, get w₂.files p = some header ∧ HeadersAgree header (upstreamHeader config)) ∧
      ∀ lock s s' reported commit vs, Returns (wrapOpenSSL m pk o linux lock) s (reported, commit) s' vs →
        (∀ data, Event.read (Library.openssl.folder ++ ["VERSION.dat".toList]) data true ∈ vs → data = blob) →
          ((openSSLVersion m repo).run w).result = .ok reported) ↔
    fields.value "PRE_RELEASE_TAG" = [] ∧ fields.value "BUILD_METADATA" = [] := by
  have hparse : parseVersionData blob = .ok fields := by
    rw [openSSLVersionData_result hfile] at haccepted
    cases hblob : parseVersionData blob with
    | error e => simp [hblob, Except.mapError] at haccepted
    | ok data =>
      rw [hblob] at haccepted
      cases haccepted
      rfl
  have hwritten : get w₂.files p = some (versionHeader fields) := writeOpenSSLVersionHeader_returns hwrite
  have hreports : ∀ lock s s' reported commit vs,
      Returns (wrapOpenSSL m pk o linux lock) s (reported, commit) s' vs →
        (∀ data, Event.read (Library.openssl.folder ++ ["VERSION.dat".toList]) data true ∈ vs → data = blob) →
          ((openSSLVersion m repo).run w).result = .ok reported := by
    intro lock s s' reported commit vs hrun hread
    obtain ⟨data, versionData, hmem, hdata, hreported⟩ := wrapOpenSSL_version hrun
    rw [hread data hmem, hparse] at hdata
    cases hdata
    rw [show reported = versionString fields from hreported]
    exact openSSLVersion_result hfile hparse
  rw [← headersAgree_iff hparse hconfig]
  constructor
  · intro ⟨⟨header, hheader, hagree⟩, _⟩
    obtain rfl := Option.some.inj (hwritten.symm.trans hheader)
    exact hagree
  · intro hagree
    exact ⟨⟨_, hwritten, hagree⟩, hreports⟩

end

/-- The `%config` of a version file. -/
def configure (fields : Fields) : Config :=
  let sign (c : Char) (tag : Str) : Str := if tag = [] then [] else c :: tag
  let version := joinWith ".".toList [fields.value "MAJOR", fields.value "MINOR", fields.value "PATCH"]
  let prerelease := sign '-' (fields.value "PRE_RELEASE_TAG")
  let buildMetadata := sign '+' (fields.value "BUILD_METADATA")
  { major := fields.value "MAJOR", minor := fields.value "MINOR", patch := fields.value "PATCH",
    prerelease := prerelease, buildMetadata := buildMetadata, shlibVersion := fields.value "SHLIB_VERSION",
    version := version, fullVersion := version ++ prerelease ++ buildMetadata,
    releaseDate := fields.value "RELEASE_DATE" }

theorem configured_configure (fields : Fields) : Configured fields (configure fields) :=
  ⟨rfl, rfl, rfl, rfl, rfl, rfl, rfl, rfl, rfl⟩

def smallVersionFields : Fields := versionKeys.map fun key => (key, smallVersion key)

/-- The small file has no tags, so what is rendered from it agrees. -/
theorem one_version_small :
    HasVersionFile idle [] smallVersionWorld (joinWith "\n".toList smallVersionLines) ∧
      ∃ w' us, Returns (writeOpenSSLVersionHeader idle ["opensslv.h".toList] smallVersionFields)
        smallVersionWorld none w' us ∧
      (∃ header, get w'.files ["opensslv.h".toList] = some header ∧
        HeadersAgree header (upstreamHeader (configure smallVersionFields))) ∧
      ∀ lock s s' reported commit vs,
        Returns (wrapOpenSSL idle plain (onLinux false) linux lock) s (reported, commit) s' vs →
          (∀ data, Event.read (Library.openssl.folder ++ ["VERSION.dat".toList]) data true ∈ vs →
            data = joinWith "\n".toList smallVersionLines) →
              ((openSSLVersion idle []).run smallVersionWorld).result = .ok reported := by
  have hfile : HasVersionFile idle [] smallVersionWorld (joinWith "\n".toList smallVersionLines) :=
    ⟨rfl, rfl⟩
  have hparse : parseVersionData (joinWith "\n".toList smallVersionLines) = .ok smallVersionFields := by
    apply parseVersionData_ok smallVersion_file
    decide +kernel
  have haccepted : ((openSSLVersionData idle []).run smallVersionWorld).result = .ok smallVersionFields := by
    rw [openSSLVersionData_result hfile, hparse]
    rfl
  refine ⟨hfile, _, _, rfl, ?_⟩
  exact (one_version hfile haccepted (configured_configure _) rfl).mpr (by decide +kernel)

/-- A pre-release. -/
def alphaVersion (key : Str) : Str :=
  if key = "PRE_RELEASE_TAG".toList then "alpha1".toList else smallVersion key

def alphaFields : Fields := versionKeys.map fun key => (key, alphaVersion key)

def alphaLines : List Str :=
  ["MAJOR=3".toList, "MINOR=5".toList, "PATCH=0".toList, "PRE_RELEASE_TAG=alpha1".toList,
    "BUILD_METADATA=".toList, "RELEASE_DATE=\"8 Apr 2025\"".toList, "SHLIB_VERSION=3".toList]

def alphaWorld : World Unit := ⟨(), [(["VERSION.dat".toList], joinWith "\n".toList alphaLines)]⟩

/-- The generator's header leaves out the sign that upstream puts before a tag. -/
theorem two_versions :
    HasVersionFile idle [] alphaWorld (joinWith "\n".toList alphaLines) ∧
      ((openSSLVersionData idle []).run alphaWorld).result = .ok alphaFields ∧
      Configured alphaFields (configure alphaFields) ∧
      macroValue (versionHeader alphaFields) "OPENSSL_VERSION_PRE_RELEASE".toList = some "\"alpha1\"".toList ∧
      macroValue (upstreamHeader (configure alphaFields)) "OPENSSL_VERSION_PRE_RELEASE".toList =
        some "\"-alpha1\"".toList ∧
      ∃ w' us, Returns (writeOpenSSLVersionHeader idle ["opensslv.h".toList] alphaFields) alphaWorld none
        w' us ∧ ¬ ∃ header, get w'.files ["opensslv.h".toList] = some header ∧
          HeadersAgree header (upstreamHeader (configure alphaFields)) := by
  have hfile : HasVersionFile idle [] alphaWorld (joinWith "\n".toList alphaLines) := ⟨rfl, rfl⟩
  have hversion : VersionFile alphaVersion (fun key => key = "RELEASE_DATE".toList) [] alphaLines :=
    ⟨by decide +kernel, by decide +kernel, by decide +kernel⟩
  have hparse : parseVersionData (joinWith "\n".toList alphaLines) = .ok alphaFields :=
    parseVersionData_ok hversion (by decide +kernel)
  have haccepted : ((openSSLVersionData idle []).run alphaWorld).result = .ok alphaFields := by
    rw [openSSLVersionData_result hfile, hparse]
    rfl
  have hconfig := configured_configure alphaFields
  have hours : macroValue (versionHeader alphaFields) "OPENSSL_VERSION_PRE_RELEASE".toList =
      some "\"alpha1\"".toList := by
    rw [versionHeader_macros _ (generatorConfig_newline hparse), lookup_prerelease]
    decide +kernel
  have htheirs : macroValue (upstreamHeader (configure alphaFields)) "OPENSSL_VERSION_PRE_RELEASE".toList =
      some "\"-alpha1\"".toList := by
    rw [upstreamHeader_macros (by decide +kernel) (config_newline hparse hconfig), lookup_prerelease]
    decide +kernel
  have hwrite : Returns (writeOpenSSLVersionHeader idle ["opensslv.h".toList] alphaFields) alphaWorld none
      _ _ := rfl
  refine ⟨hfile, haccepted, hconfig, hours, htheirs, _, _, hwrite, ?_⟩
  intro ⟨header, hheader, hagree⟩
  have hwritten : versionHeader alphaFields = header :=
    Option.some.inj ((writeOpenSSLVersionHeader_returns hwrite).symm.trans hheader)
  have heq := hagree _ (show "OPENSSL_VERSION_PRE_RELEASE".toList ∈ versionMacros by decide +kernel)
  rw [← hwritten, hours, htheirs] at heq
  exact absurd heq (by decide +kernel)

end GoLibtor
