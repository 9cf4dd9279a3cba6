import GoLibtor.Build.Tags
import GoLibtor.Build.OpenSSLVersion
import GoLibtor.Build.Wrapper

/-! The generator: one function for each library, which clones it, checks out a commit, lets
the build tools of the library print what they would compile, wipes what is not needed and
writes the wrappers and the configuration headers. -/
namespace GoLibtor

open Text Files Transition

/-- The commits for later reuse. -/
structure LockJson where
  zlib : Str
  libevent : Str
  openssl : Str
  tor : Str
  deriving DecidableEq

/-- The packages the generator leaves work to. -/
structure Packages where
  /-- `text/template`: `none` if the text does not parse, else what a template writes for some
  data, and whether it gets to its end. -/
  template : Str → Option (List (Str × Str) → Str × Bool)
  /-- `encoding/json`. -/
  marshal : LockJson → Str
  decode : Str → Option LockJson

structure Options where
  genLock : Bool
  nobuild : Bool
  goos : Str
  goarch : Str
  numCPU : ℕ
  intSize : ℕ

section

variable {σ : Type} (m : Machine σ) (pk : Packages) (o : Options)

/-! ### Parts the four functions share -/

def checkoutCommand (tgt : Str) (lib : Library) (checkout : Str) : Command :=
  command [tgt, lib.name] ["git", "checkout"] [checkout]

def revParseCommand (tgt : Str) (lib : Library) : Command :=
  command [tgt, lib.name] ["git", "rev-parse", "HEAD"] []

/-- Clone a repository, choose what to check out, and answer with the commit. -/
def checkoutCommit (tgt : Str) (lib : Library) (url : String) (choose : Gen σ Str) : Gen σ Str := do
  run m (command [tgt] ["git", "clone", url] [])
  let checkout ← choose
  run m (checkoutCommand tgt lib checkout)
  let commit ← output m (revParseCommand tgt lib)
  pure (trimSpace commit)

/-- `FindSubmatch(text)[1]`. -/
def firstSubmatch (pattern : Regexp) (text : Str) : Gen σ Str :=
  match pattern.findSubmatch text with
  | none => .fail .indexOutOfRange
  | some found => pure (found.submatch 1)

/-- Any text on one line, as group 1. -/
def restOfLine : Regexp := .group 1 (.plus (.set fun c => c != '\n'))

/-- Remove the folders and the files that are not kept, whatever comes of it. -/
def wipe (keepDir keepFile : Str → Bool) (dir : Path) (files : List Entry) : Gen σ PUnit :=
  files.forM fun file =>
    if file.isDir then
      if keepDir file.name then pure ()
      else do
        let err ← removeAll m (dir ++ [file.name])
        ignore err
    else if keepFile file.name then pure ()
    else do
      let err ← remove m (dir ++ [file.name])
      ignore err

def isSource (name : Str) : Bool := ext name == ".h".toList || ext name == ".c".toList

def isSourceOrLicense (name : Str) : Bool := name == "LICENSE".toList || isSource name

/-- Write the wrappers, `onError` saying what is done with the error of each. -/
def writeWrappers (onError : Option Err → Gen σ Unit) (tgt : Str) (lib : Library)
    (wrappers : List Wrapper) : Gen σ PUnit :=
  wrappers.forM fun w => do
    let err ← writeFile m (wrapperPath tgt lib w.gofile) (lib.template (targetFilters tgt) w.file)
    onError err

def writePreamble (onError : Option Err → Gen σ Unit) (tgt : Str) (lib : Library) : Gen σ Unit := do
  let err ← writeFile m (wrapperPath tgt lib preambleFile) (lib.preamble (targetFilters tgt) tgt)
  onError err

/-- Parse and execute a template. -/
def render (data : List (Str × Str)) (blob : Str) : Gen σ Str :=
  match pk.template blob with
  | none => .fail (.returned (.template blob))
  | some execute =>
    match execute data with
    | (text, true) => pure text
    | (_, false) => .fail (.returned (.template blob))

/-- Read each file of a folder, render it and write it under the same name. -/
def inject (rendered : Str → Gen σ Str) (src dst : Path) (names : List Str) : Gen σ PUnit :=
  names.forM fun name => do
    let (blob, _) ← readFile m (src ++ [name])
    let text ← rendered blob
    let err ← writeFile m (dst ++ [name]) text
    ignore err

/-- One header for each architecture. -/
def headers (base : String) (archs : List String) : List Str :=
  archs.map fun arch => (base ++ arch ++ ".h").toList

def allTargets : List String := ["", ".linux64", ".linux32", ".android64", ".android32"]

/-! ### zlib -/

/-- `define ZLIB_VERSION "(.+)"`. -/
def zlibVersionPattern : Regexp :=
  .seq (.lit "define ZLIB_VERSION \"".toList) (.seq restOfLine (.char '"'))

/-- The version and the commit that is checked out. -/
def checkoutZlib (tgt : Str) (lock : Option LockJson) : Gen σ (Str × Str) := do
  let tgtf : Path := [tgt, "zlib".toList]
  let commit ← checkoutCommit m tgt .zlib "https://github.com/madler/zlib"
    (match lock with
      | some lock => pure lock.zlib
      | none => latestZlibTag m o.intSize tgtf)
  let (conf, _) ← readFile m (tgtf ++ ["zlib.h".toList])
  let strver ← firstSubmatch zlibVersionPattern conf
  pure (strver, commit)

/-- The folder as it is before the wipe. -/
def wipeZlib (tgtf : Path) : Gen σ (List Entry) := do
  let listing ← readDir m tgtf
  let files ← checked listing
  wipe m (fun _ => false) isSource tgtf files
  pure files

def wrapZlib (tgt : Str) (lock : Option LockJson) : Gen σ (Str × Str) := do
  let tgtf : Path := [tgt, "zlib".toList]
  let (strver, commit) ← checkoutZlib m o tgt lock
  let files ← wipeZlib m tgtf
  writeWrappers m ignore tgt .zlib (zlibWrappers files)
  writePreamble m ignore tgt .zlib
  pure (strver, commit)

/-! ### libevent -/

/-- `AC_DEFINE\(NUMERIC_VERSION, (0x[0-9a-z]{8}),`. -/
def numericVersionPattern : Regexp :=
  let hex : Regexp := .set fun c => inRange '0' '9' c || inRange 'a' 'z' c
  .seq (.lit "AC_DEFINE(NUMERIC_VERSION, ".toList)
    (.seq (.group 1 (.seq (.lit "0x".toList) ((List.replicate 8 hex).foldr .seq .empty))) (.char ','))

/-- `AC_INIT\(libevent,(.+)\)`. -/
def libeventVersionPattern : Regexp :=
  .seq (.lit "AC_INIT(libevent,".toList) (.seq restOfLine (.char ')'))

def libeventConfigure : List String :=
  ["./configure", "--disable-shared", "--enable-static", "--enable-openssl", "--disable-mbedtls",
    "--disable-libevent-regress", "--enable-thread-support", "--disable-samples",
    "--disable-verbose-debug", "--disable-malloc-replacement"]

/-- Build and stage libevent, so that Tor can link against it in its configure checks. -/
def stageLibevent (tgtf : Path) : Gen σ Unit := do
  let prefixDir : Path := ["builddeps".toList, "libevent".toList]
  let path ← abs m prefixDir
  let libeventPrefix ← checked path
  let err ← removeAll m prefixDir
  check err
  let err ← mkdirAll m prefixDir
  check err
  run m { command tgtf ["make", "-j" ++ toString o.numCPU, "install"]
    ["DESTDIR=".toList ++ libeventPrefix] with dest := some prefixDir }

/-- The objects of libevent, and the hash its web sockets need. -/
def libeventDeps (tgtf : Path) (out : Str) : Gen σ (List Str) := do
  let deps := extractLibeventObjects out
  if deps.length = 0 then
    .fail (.returned (.new
      "failed to detect libevent object files from make --dry-run output".toList))
  else if containsString deps "ws".toList then
    match ← stat m (tgtf ++ ["sha1.c".toList]) with
    | .found =>
      if !containsString deps "sha1".toList then pure (sortStrings (deps ++ ["sha1".toList]))
      else pure deps
    | .notExist => pure deps
    | .failed err => .fail (.returned err)
  else pure deps

def libeventKeepsDir (name : Str) : Bool := name == "include".toList || name == "compat".toList

def wipeLibevent (tgtf : Path) : Gen σ PUnit := do
  let listing ← readDir m tgtf
  let files ← checked listing
  wipe m libeventKeepsDir isSourceOrLicense tgtf files

def injectLibevent (numver strver : Str) : Gen σ PUnit := do
  let _ ← mkdirAll m ["libevent_config".toList, "event2".toList]
  inject m (render pk [("NumVer".toList, numver), ("StrVer".toList, strver)])
    ["config".toList, "libevent".toList] ["libevent_config".toList, "event2".toList]
    (headers "event-config" allTargets)

/-- Check out and configure libevent: its commit, its two versions and its sources. -/
def configureLibevent (tgt : Str) (lock : Option LockJson) : Gen σ (Str × Str × Str × List Str) := do
  let tgtf : Path := [tgt, "libevent".toList]
  let commit ← checkoutCommit m tgt .libevent "https://github.com/libevent/libevent"
    (match lock with
      | some lock => pure lock.libevent
      | none => latestLibeventTag m o.intSize tgtf)
  run m (command tgtf ["./autogen.sh"] [])
  run m (command tgtf libeventConfigure [])
  stageLibevent m o tgtf
  let (conf, _) ← readFile m (tgtf ++ ["configure.ac".toList])
  let numver ← firstSubmatch numericVersionPattern conf
  let strver ← firstSubmatch libeventVersionPattern conf
  let out ← output m (command tgtf ["make", "--dry-run", "libevent.la"] [])
  let deps ← libeventDeps m tgtf out
  pure (commit, numver, strver, deps)

def wrapLibevent (tgt : Str) (lock : Option LockJson) : Gen σ (Str × Str) := do
  let tgtf : Path := [tgt, "libevent".toList]
  let (commit, numver, strver, deps) ← configureLibevent m o tgt lock
  wipeLibevent m tgtf
  writeWrappers m ignore tgt .libevent (libeventWrappers deps)
  writePreamble m ignore tgt .libevent
  injectLibevent m pk numver strver
  pure (strver, commit)

/-! ### OpenSSL -/

def openSSLConfigureTarget : Except Err Str :=
  let unsupported : Err :=
    .new ("unsupported OpenSSL configure target for ".toList ++ o.goos ++ "/".toList ++ o.goarch)
  if o.goos = "linux".toList then
    if o.goarch = "amd64".toList then .ok "linux-x86_64".toList
    else if o.goarch = "386".toList then .ok "linux-x86".toList
    else if o.goarch = "arm64".toList then .ok "linux-aarch64".toList
    else if o.goarch = "arm".toList then .ok "linux-armv4".toList
    else .error unsupported
  else .error unsupported

/-- One source that is to be wrapped: `make` has to generate it if it is not there and its
template is. -/
def findGenerated (tgtf : Path) (generatedDeps : List Str) (dep : Str) : Gen σ (List Str) := do
  match ← stat m (join tgtf (dep ++ ".c".toList)) with
  | .found => pure generatedDeps
  | .failed err => .fail (.returned err)
  | .notExist =>
    match ← stat m (join tgtf (dep ++ ".c.in".toList)) with
    | .found => pure (generatedDeps ++ [dep ++ ".c".toList])
    | .failed err => .fail (.returned err)
    | .notExist => pure generatedDeps

def makeGenerated (tgtf : Path) (generatedDeps : List Str) : Gen σ Unit :=
  if generatedDeps.length > 0 then run m (command tgtf ["make"] (sortStrings generatedDeps))
  else pure ()

/-- The sources of OpenSSL, once those that have to be generated are. -/
def opensslDeps (tgtf : Path) (out : Str) : Gen σ (List Str) := do
  let deps := extractOpenSSLSources out
  if deps.length = 0 then
    .fail (.returned (.new "failed to detect openssl source files from make --dry-run output".toList))
  else do
    let generatedDeps ← deps.foldlM (findGenerated m tgtf) []
    makeGenerated m tgtf generatedDeps
    pure deps

def opensslKeepsDir (name : Str) : Bool :=
  name == "crypto".toList || name == "engines".toList || name == "include".toList ||
    name == "providers".toList || name == "ssl".toList

def wipeOpenSSL (tgtf : Path) : Gen σ PUnit := do
  let listing ← readDir m tgtf
  let files ← checked listing
  wipe m opensslKeepsDir isSourceOrLicense tgtf files

/-- Copy a header of the configured tree into the configuration. -/
def copyHeader (tgtf : Path) (name : Str) : Gen σ Unit := do
  let (blob, err) ← readFile m (tgtf ++ ["include".toList, "openssl".toList, name])
  check err
  let err ← writeFile m ["openssl_config".toList, "openssl".toList, name] blob
  check err

/-- The headers of OpenSSL 3 come from its own tree, older ones from the repository. -/
def injectConfiguration (tgtf : Path) (versionData : Fields) : Gen σ PUnit := do
  match ← stat m (tgtf ++ ["include".toList, "openssl".toList, "configuration.h".toList]) with
  | .found =>
    copyHeader m tgtf "opensslconf.h".toList
    copyHeader m tgtf "configuration.h".toList
    let err ← writeOpenSSLVersionHeader m
      ["openssl_config".toList, "openssl".toList, "opensslv.h".toList] versionData
    check err
  | _ =>
    inject m pure ["config".toList, "openssl".toList] ["openssl_config".toList, "openssl".toList]
      (headers "opensslconf" ["", ".x64", ".x86"])

def injectOpenSSL (tgtf : Path) (date : Str) (versionData : Fields) : Gen σ PUnit := do
  let err ← removeAll m ["openssl_config".toList]
  check err
  let _ ← mkdirAll m ["openssl_config".toList, "crypto".toList]
  let _ ← mkdirAll m ["openssl_config".toList, "openssl".toList]
  inject m pure ["config".toList, "openssl".toList] ["openssl_config".toList, "crypto".toList]
    (headers "dso_conf" ["", ".linux"])
  inject m pure ["config".toList, "openssl".toList] ["openssl_config".toList, "crypto".toList]
    (headers "bn_conf" ["", ".x64", ".x86"])
  inject m (render pk [("Date".toList, date)]) ["config".toList, "openssl".toList]
    ["openssl_config".toList] (headers "buildinf" ["", ".x64", ".x86"])
  injectConfiguration m tgtf versionData

/-- Check out and configure OpenSSL: its commit, its date, its version data and its sources. -/
def configureOpenSSL (tgt : Str) (lock : Option LockJson) : Gen σ (Str × Str × Fields × List Str) := do
  let tgtf : Path := [tgt, "openssl".toList]
  let commit ← checkoutCommit m tgt .openssl "https://github.com/openssl/openssl"
    (match lock with
      | some lock => pure lock.openssl
      | none => latestOpenSSLTag m o.intSize tgtf)
  let date ← output m (command tgtf ["git", "show", "-s", "--format=%cd"] [])
  let versionData ← openSSLVersionData m tgtf
  let opensslTarget ← checked (openSSLConfigureTarget o)
  run m (command tgtf ["./Configure"]
    (opensslTarget :: ["no-shared", "no-zlib", "no-asm", "no-async", "no-sctp"].map String.toList))
  run m (command tgtf ["make", "build_generated"] [])
  let out ← output m (command tgtf ["make", "--dry-run"] [])
  let deps ← opensslDeps m tgtf out
  pure (commit, trimSpace date, versionData, deps)

/-- The wrappers of OpenSSL, of which there has to be one. -/
def writeOpenSSLWrappers (tgt : Str) (wrappers : List Wrapper) : Gen σ Unit := do
  writeWrappers m check tgt .openssl wrappers
  if wrappers.length = 0 then
    .fail (.returned (.new "no openssl wrapper files generated after filtering".toList))
  else pure ()

def wrapOpenSSL (tgt : Str) (lock : Option LockJson) : Gen σ (Str × Str) := do
  let tgtf : Path := [tgt, "openssl".toList]
  let (commit, date, versionData, deps) ← configureOpenSSL m o tgt lock
  wipeOpenSSL m tgtf
  writeOpenSSLWrappers m tgt (opensslWrappers deps)
  writePreamble m check tgt .openssl
  injectOpenSSL m pk tgtf date versionData
  pure (versionString versionData, commit)

/-! ### Tor -/

/-- `define VERSION "(.+)"`. -/
def torVersionPattern : Regexp :=
  .seq (.lit "define VERSION \"".toList) (.seq restOfLine (.char '"'))

/-- `(?m)^#define HAVE_MODULE_POW 1$`. -/
def modulePowPattern : Regexp :=
  .seq .lineStart (.seq (.lit "#define HAVE_MODULE_POW 1".toList) .lineEnd)

def torConfigure (libeventPrefix : Str) (tgtf : Path) : Command :=
  { command tgtf ["./configure", "--disable-asciidoc", "--disable-seccomp", "--disable-libscrypt",
      "--disable-lzma", "--disable-zstd", "--disable-systemd"]
      ["--with-libevent-dir=".toList ++ libeventPrefix] with
    env := ["PKG_CONFIG_PATH=".toList ++ libeventPrefix ++ "/lib/pkgconfig".toList,
      "CFLAGS=-I".toList ++ libeventPrefix ++ "/include".toList,
      "LDFLAGS=-L".toList ++ libeventPrefix ++ "/lib".toList] }

def torKeepsDir (name : Str) : Bool :=
  name == "app".toList || name == "core".toList || name == "ext".toList ||
    name == "feature".toList || name == "lib".toList || name == "trunnel".toList ||
    name == "win32".toList

/-- The top folder, then the sources, then the `.deps` folders below them. What the walk cannot
remove it passes over. -/
def wipeTor (tgtf : Path) : Gen σ Unit := do
  let listing ← readDir m tgtf
  let files ← checked listing
  wipe m (· == "src".toList) (· == "LICENSE".toList) tgtf files
  let listing ← readDir m (tgtf ++ ["src".toList])
  let files ← checked listing
  wipe m torKeepsDir (fun _ => false) (tgtf ++ ["src".toList]) files
  let err ← removeWalk m ".deps".toList (tgtf ++ ["src".toList])
  ignore err
  let err ← walk m (tgtf ++ ["src".toList])
  check err

def injectTor (strver : Str) : Gen σ PUnit := do
  let _ ← mkdirAll m ["tor_config".toList]
  inject m (render pk [("StrVer".toList, strver)]) ["config".toList, "tor".toList]
    ["tor_config".toList] (headers "orconfig" allTargets)
  inject m pure ["config".toList, "tor".toList] ["tor_config".toList] ["micro-revision.i".toList]

/-- Check out and configure Tor: its commit, its version, whether it has the module of proofs of
work, and its sources. -/
def configureTor (tgt : Str) (lock : Option LockJson) : Gen σ (Str × Str × Bool × List Str) := do
  let tgtf : Path := [tgt, "tor".toList]
  let commit ← checkoutCommit m tgt .tor "https://git.torproject.org/tor.git"
    (match lock with
      | some lock => pure lock.tor
      | none => pure "release-0.4.6".toList)
  run m (command tgtf ["./autogen.sh"] [])
  let path ← abs m ["builddeps".toList, "libevent".toList, "usr".toList, "local".toList]
  let libeventPrefix ← checked path
  run m (torConfigure libeventPrefix tgtf)
  let (orconf, _) ← readFile m (tgtf ++ ["orconfig.h".toList])
  let strver ← firstSubmatch torVersionPattern orconf
  let out ← output m (command tgtf ["make", "--dry-run"] [])
  pure (commit, strver, (modulePowPattern.findSubmatch orconf).isSome, extractTorSources out)

def wrapTor (tgt : Str) (lock : Option LockJson) : Gen σ (Str × Str) := do
  let tgtf : Path := [tgt, "tor".toList]
  let (commit, strver, hasModulePow, deps) ← configureTor m tgt lock
  wipeTor m tgtf
  writeWrappers m ignore tgt .tor (torWrappers hasModulePow deps)
  writePreamble m ignore tgt .tor
  injectTor m pk strver
  pure (strver, commit)

end

end GoLibtor
