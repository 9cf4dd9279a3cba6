import GoLibtor.Build.Extract
import GoLibtor.Files.Store

/-! The wrapper files the generator writes into `libtor`: their names, their texts, and the
sources each library contributes. -/
namespace GoLibtor

open Text Files

inductive Library
  | zlib
  | libevent
  | openssl
  | tor
  deriving DecidableEq, Repr

def Library.name : Library → Str
  | .zlib => "zlib".toList
  | .libevent => "libevent".toList
  | .openssl => "openssl".toList
  | .tor => "tor".toList

/-- The build tags of a target, empty for one that is not listed. -/
def targetFilters (tgt : Str) : Str :=
  if tgt = "linux".toList then "linux || android".toList else []

/-- The head of every file, without the two lines of comment above the build tags. -/
def fileHead (targetFilter : Str) : Str :=
  "//go:build ".toList ++ targetFilter ++ "\n// +build ".toList ++ targetFilter ++
    "\n\npackage libtor\n\n".toList

def importC : Str := "*/\nimport \"C\"\n".toList

/-- A wrapper: the head, what opens the C part, and the source that is included. -/
def includeFile (targetFilter opening file : Str) : Str :=
  fileHead targetFilter ++ (opening ++ (file ++ (".c>\n".toList ++ importC)))

def zlibOpening : Str := "/*\n#include <../zlib/".toList

def libeventOpening : Str :=
  "/*\n#include <event2/event-config.h>\n".toList ++
  "#include <evconfig-private.h>\n#include <compat/sys/queue.h>\n".toList ++
  "#if !defined(BIG_ENDIAN) && !defined(LITTLE_ENDIAN)\n".toList ++
  "#if defined(__BYTE_ORDER__) && (__BYTE_ORDER__ == __ORDER_BIG_ENDIAN__)\n".toList ++
  "#define BIG_ENDIAN 1\n#else\n#define LITTLE_ENDIAN 1\n#endif\n#endif\n".toList ++
  "#include <../".toList

def opensslOpening : Str :=
  "/*\n#define DSO_NONE\n#define OPENSSLDIR \"/usr/local/ssl\"\n".toList ++
  "#define ENGINESDIR \"/usr/local/lib/engines\"\n\n#include <../".toList

def torOpening : Str := "/*\n#define BUILDDIR \"\"\n\n#include <../".toList

def zlibTemplate (targetFilter file : Str) : Str := includeFile targetFilter zlibOpening file

def libeventTemplate (targetFilter file : Str) : Str := includeFile targetFilter libeventOpening file

def opensslTemplate (targetFilter file : Str) : Str := includeFile targetFilter opensslOpening file

def torTemplate (targetFilter file : Str) : Str := includeFile targetFilter torOpening file

def cgoInclude (target dir : Str) : Str :=
  "#cgo CFLAGS: -I${SRCDIR}/../".toList ++ (target ++ (dir ++ "\n".toList))

/-- The folders of a library that the C compiler is to search. -/
def cgoIncludes (target : Str) (dirs : List String) : Str :=
  dirs.flatMap fun dir => cgoInclude target dir.toList

def zlibFlags (target : Str) : Str :=
  "\n/*\n".toList ++ (cgoIncludes target ["/zlib"] ++
  "#cgo CFLAGS: -DHAVE_UNISTD_H -DHAVE_STDARG_H\n".toList)

def libeventFlags (target : Str) : Str :=
  "/*\n".toList ++ cgoIncludes target
    ["/libevent", "/libevent/compat", "/libevent/include", "/libevent/include/event2"]

def opensslFlags (target : Str) : Str :=
  "/*\n".toList ++ (cgoIncludes [] ["openssl_config"] ++ (cgoIncludes target
    ["/openssl", "/openssl/include", "/openssl/crypto/ec/curve448",
      "/openssl/crypto/ec/curve448/arch_32", "/openssl/crypto/modes", "/openssl/include/openssl",
      "/openssl/providers/common/include", "/openssl/providers/fips/include",
      "/openssl/providers/implementations/include"] ++
  "#cgo CFLAGS: -include ${SRCDIR}/../openssl_config/gotor_extra.h\n".toList))

def torFlags (target : Str) : Str :=
  "/*\n".toList ++ (cgoIncludes [] ["tor_config"] ++ (cgoIncludes target
    ["/tor", "/tor/src", "/tor/src/core/or", "/tor/src/ext", "/tor/src/ext/equix/include",
      "/tor/src/ext/equix/src", "/tor/src/ext/equix/hashx/include", "/tor/src/ext/equix/hashx/src",
      "/tor/src/ext/trunnel", "/tor/src/feature/api"] ++
  "\n#cgo CFLAGS: -D_GNU_SOURCE\n#cgo CFLAGS: -Wno-deprecated-declarations\n".toList ++
  "#cgo CFLAGS: -DED25519_CUSTOMRANDOM -DED25519_CUSTOMHASH -DED25519_SUFFIX=_donna\n".toList ++
  "#cgo CFLAGS: -include ${SRCDIR}/../tor_config/gotor_extra.h\n\n#cgo LDFLAGS: -lm\n".toList))

def zlibPreamble (targetFilter target : Str) : Str :=
  fileHead targetFilter ++ (zlibFlags target ++ importC)

def libeventPreamble (targetFilter target : Str) : Str :=
  fileHead targetFilter ++ (libeventFlags target ++ importC)

def opensslPreamble (targetFilter target : Str) : Str :=
  fileHead targetFilter ++ (opensslFlags target ++ importC)

def torPreamble (targetFilter target : Str) : Str :=
  fileHead targetFilter ++ (torFlags target ++ importC)

def Library.template : Library → (targetFilter file : Str) → Str
  | .zlib => zlibTemplate
  | .libevent => libeventTemplate
  | .openssl => opensslTemplate
  | .tor => torTemplate

def Library.preamble : Library → (targetFilter target : Str) → Str
  | .zlib => zlibPreamble
  | .libevent => libeventPreamble
  | .openssl => opensslPreamble
  | .tor => torPreamble

/-- A wrapper: the end of its file name, and what it names in its `#include`. -/
structure Wrapper where
  gofile : Str
  file : Str
  deriving DecidableEq, Repr

/-- `strings.Replace(dep, "/", "_", -1)`. -/
def flatten (dep : Str) : Str := replaceAll dep "/".toList "_".toList

/-- The sources of the folder of zlib, wrapped under their own names. -/
def zlibWrappers (files : List Entry) : List Wrapper :=
  (files.filter fun file => !file.isDir && ext file.name == ".c".toList).map fun file =>
    let name := trimSuffix file.name ".c".toList
    ⟨name ++ ".go".toList, name⟩

def libeventWrappers (deps : List Str) : List Wrapper :=
  deps.map fun dep => ⟨dep ++ ".go".toList, dep⟩

/-- What `wrapOpenSSL` does not skip. -/
def opensslKept (dep : Str) : Bool :=
  !hasPrefix dep "apps/".toList && !hasPrefix dep "fuzz/".toList && !hasPrefix dep "test/".toList &&
    !hasSuffix dep "_test".toList

def opensslWrappers (deps : List Str) : List Wrapper :=
  (deps.filter opensslKept).map fun dep => ⟨flatten dep ++ ".go".toList, dep⟩

/-- What `wrapTor` does not skip. -/
def torKept (hasModulePow : Bool) (dep : Str) : Bool :=
  !hasPrefix dep "src/ext/tinytest".toList && !hasPrefix dep "src/test/".toList &&
    !hasPrefix dep "src/tools/".toList && !(dep == "src/feature/hs/hs_pow".toList && !hasModulePow) &&
    !hasSuffix dep "tor_main".toList

def c64 : Str := "-c64".toList

/-- The source that stands in for a `-c64` one on 32 bits. -/
def portable (dep : Str) : Str := replaceAll dep c64 []

/-- The donna crypto library needs one wrapper per architecture. -/
def torWrap (dep : Str) : List Wrapper :=
  if hasSuffix dep c64 then
    (["amd64", "arm64"].map fun arch => ⟨flatten dep ++ "_".toList ++ arch.toList ++ ".go".toList, dep⟩) ++
    ["386", "arm"].map fun arch =>
      ⟨flatten dep ++ "_".toList ++ arch.toList ++ ".go".toList, portable dep⟩
  else [⟨flatten dep ++ ".go".toList, dep⟩]

def torWrappers (hasModulePow : Bool) (deps : List Str) : List Wrapper :=
  (deps.filter (torKept hasModulePow)).flatMap torWrap

/-- Where a wrapper of a library goes. -/
def wrapperPath (tgt : Str) (lib : Library) (gofile : Str) : Path :=
  ["libtor".toList, tgt ++ "_".toList ++ lib.name ++ "_".toList ++ gofile]

def preambleFile : Str := "preamble.go".toList

/-- The files one library puts into `libtor`, in the order they are written. -/
def libraryWrites (tgt : Str) (lib : Library) (wrappers : List Wrapper) : List (Path × Str) :=
  wrappers.map (fun w => (wrapperPath tgt lib w.gofile, lib.template (targetFilters tgt) w.file)) ++
    [(wrapperPath tgt lib preambleFile, lib.preamble (targetFilters tgt) tgt)]

/-! ### Telling the texts and the names apart -/

def Library.opening : Library → Str
  | .zlib => zlibOpening
  | .libevent => libeventOpening
  | .openssl => opensslOpening
  | .tor => torOpening

theorem template_eq (lib : Library) (filter file : Str) :
    lib.template filter file = includeFile filter lib.opening file := by
  cases lib <;> rfl

theorem opening_long (lib : Library) : 16 ≤ lib.opening.length := by
  cases lib <;> decide +kernel

theorem opening_inj {lib lib' : Library} {s s' : Str} (h : lib.opening ++ s = lib'.opening ++ s') :
    lib = lib' := by
  have htake : lib.opening.take 16 = lib'.opening.take 16 := by
    have := congrArg (List.take 16) h
    rwa [List.take_append_of_le_length (opening_long lib),
      List.take_append_of_le_length (opening_long lib')] at this
  revert htake
  cases lib <;> cases lib' <;> decide

/-- The text of a wrapper tells its library and its source. -/
theorem template_inj {lib lib' : Library} {filter file file' : Str}
    (h : lib.template filter file = lib'.template filter file') : lib = lib' ∧ file = file' := by
  rw [template_eq, template_eq, includeFile, includeFile, List.append_cancel_left_eq] at h
  obtain rfl := opening_inj h
  rw [List.append_cancel_left_eq, List.append_cancel_right_eq] at h
  exact ⟨rfl, h⟩

theorem preamble_ne_template (lib lib' : Library) (filter target file : Str) :
    lib.preamble filter target ≠ lib'.template filter file := by
  have hflags : ∀ l : Library, ∃ t : Str, l.preamble filter target = fileHead filter ++ t ∧
      (t.take 5 = "/*\n#c".toList ∨ t.take 5 = "\n/*\n#".toList) := by
    intro l
    cases l
    · exact ⟨_, rfl, Or.inr rfl⟩
    · exact ⟨_, rfl, Or.inl rfl⟩
    · exact ⟨_, rfl, Or.inl rfl⟩
    · exact ⟨_, rfl, Or.inl rfl⟩
  obtain ⟨t, ht, hhead⟩ := hflags lib
  intro h
  rw [ht, template_eq, includeFile, List.append_cancel_left_eq] at h
  have hlong : 5 ≤ lib'.opening.length := le_trans (by decide) (opening_long lib')
  rw [h, List.take_append_of_le_length hlong] at hhead
  revert hhead
  cases lib' <;> decide

end GoLibtor
