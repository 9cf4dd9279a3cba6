import GoLibtor.Build.Machine

/-! The version data of OpenSSL and the header rendered from it. -/
namespace GoLibtor

open Text Files Transition

/-- The `map[string]string` of the version data: a missing key reads as the empty text. -/
abbrev Fields := List (Str × Str)

def Fields.value (fields : Fields) (key : String) : Str := (fields.lookup key.toList).getD []

/-- `(?m)^KEY="?([^"\n]+)"?$`, and with `possiblyEmpty` the same with a star. -/
def versionPattern (possiblyEmpty : Bool) (key : Str) : Regexp :=
  let char : Regexp := .set fun c => c != '"' && c != '\n'
  .seq .lineStart (.seq (.lit (key ++ "=".toList)) (.seq (.opt (.char '"'))
    (.seq (.group 1 (if possiblyEmpty then .star char else .plus char))
      (.seq (.opt (.char '"')) .lineEnd))))

def parseVersionField (possiblyEmpty : Bool) (blob key : Str) : Except Err (Str × Str) :=
  match (versionPattern possiblyEmpty key).findSubmatch blob with
  | none => .error (.new ("could not parse OpenSSL ".toList ++ toLower key))
  | some found => .ok (key, found.submatch 1)

def requiredKeys : List Str :=
  ["MAJOR".toList, "MINOR".toList, "PATCH".toList, "SHLIB_VERSION".toList]

def optionalKeys : List Str :=
  ["PRE_RELEASE_TAG".toList, "BUILD_METADATA".toList, "RELEASE_DATE".toList]

/-- The fields of `VERSION.dat`, the keys that need a value first. -/
def parseVersionData (blob : Str) : Except Err Fields := do
  let required ← requiredKeys.mapM (parseVersionField false blob)
  let optional ← optionalKeys.mapM (parseVersionField true blob)
  pure (required ++ optional)

def versionNumber (fields : Fields) : Str :=
  joinWith ".".toList [fields.value "MAJOR", fields.value "MINOR", fields.value "PATCH"]

/-- The version `wrapOpenSSL` reports. -/
def versionString (fields : Fields) : Str :=
  if fields.value "PRE_RELEASE_TAG" ≠ [] then versionNumber fields ++ fields.value "PRE_RELEASE_TAG"
  else versionNumber fields

/-- The rendered template of `writeOpenSSLVersionHeader`. -/
def versionHeader (fields : Fields) : Str :=
  let fullVersion := versionNumber fields ++ fields.value "PRE_RELEASE_TAG" ++ fields.value "BUILD_METADATA"
  "/*\n * Generated by go-libtor's wrapper.\n */\n\n".toList ++
  "#ifndef OPENSSL_OPENSSLV_H\n#define OPENSSL_OPENSSLV_H\n#pragma once\n\n".toList ++
  "#ifdef __cplusplus\nextern \"C\" \x7b\n#endif\n\n".toList ++
  "#define OPENSSL_VERSION_MAJOR ".toList ++ fields.value "MAJOR" ++
  "\n#define OPENSSL_VERSION_MINOR ".toList ++ fields.value "MINOR" ++
  "\n#define OPENSSL_VERSION_PATCH ".toList ++ fields.value "PATCH" ++
  "\n#define OPENSSL_VERSION_PRE_RELEASE \"".toList ++ fields.value "PRE_RELEASE_TAG" ++
  "\"\n#define OPENSSL_VERSION_BUILD_METADATA \"".toList ++ fields.value "BUILD_METADATA" ++
  "\"\n#define OPENSSL_SHLIB_VERSION ".toList ++ fields.value "SHLIB_VERSION" ++
  "\n#define OPENSSL_VERSION_PREREQ(maj, min) \\\n".toList ++
  "    ((OPENSSL_VERSION_MAJOR << 16) + OPENSSL_VERSION_MINOR >= ((maj) << 16) + (min))\n".toList ++
  "#define OPENSSL_VERSION_STR \"".toList ++ versionNumber fields ++
  "\"\n#define OPENSSL_FULL_VERSION_STR \"".toList ++ fullVersion ++
  "\"\n#define OPENSSL_RELEASE_DATE \"".toList ++ fields.value "RELEASE_DATE" ++
  "\"\n#define OPENSSL_VERSION_TEXT \"OpenSSL ".toList ++ fullVersion ++ " ".toList ++
  fields.value "RELEASE_DATE" ++
  "\"\n#define OPENSSL_VERSION_NUMBER          \\\n".toList ++
  "    ( (OPENSSL_VERSION_MAJOR<<28)        \\\n".toList ++
  "      |(OPENSSL_VERSION_MINOR<<20)       \\\n".toList ++
  "      |(OPENSSL_VERSION_PATCH<<4)        \\\n".toList ++
  "      |0x0L )\n\n".toList ++
  "#ifdef __cplusplus\n\x7d\n#endif\n\n#endif\n".toList

section

variable {σ : Type} (m : Machine σ)

def openSSLVersionData (repo : Path) : Gen σ Fields := do
  let (blob, err) ← readFile m (repo ++ ["VERSION.dat".toList])
  check err
  checked (parseVersionData blob)

def openSSLVersion (repo : Path) : Gen σ Str := do
  let fields ← openSSLVersionData m repo
  pure (versionString fields)

def writeOpenSSLVersionHeader (path : Path) (fields : Fields) : Gen σ (Option Err) :=
  writeFile m path (versionHeader fields)

end

end GoLibtor
