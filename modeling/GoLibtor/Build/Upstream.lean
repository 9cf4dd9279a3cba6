import GoLibtor.Build.Returns

/-! Upstream repositories with one commit each, on which every command and every operation
succeeds, and packages that work on texts without template actions. -/
namespace GoLibtor

open Text Files Transition Program

structure Upstream where
  url : Str
  tag : Str
  commit : Str
  /-- The sources, as they are after the checkout and the configuration. -/
  files : Store
  dryRun : Str

def libraries : List Library := [.zlib, .libevent, .openssl, .tor]

def Upstream.clone (lib : Library) (up : Upstream) : Store :=
  up.files.map fun e => (linux :: lib.name :: e.1, e.2)

/-- What a command prints in the folder of a library. -/
def Upstream.answer (up : Upstream) (args : List Str) : Str :=
  match args.getD 1 [] with
  | verb =>
    if verb = "tag".toList then up.tag
    else if verb = "rev-parse".toList then up.commit ++ "\n".toList
    else if verb = "--dry-run".toList then up.dryRun
    else []

/-- A `make` that is asked for sources creates them. -/
def makes (dir : Path) (args : List Str) : Store :=
  if args.head? = some "make".toList then
    (args.filter fun name => hasSuffix name ".c".toList).map fun name => (join dir name, [])
  else []

/-- A clone adds the files of the repository, a `make` the sources it is asked for. -/
def upstreams (up : Library → Upstream) : Machine Unit where
  exec _ fs c :=
    if c.dir = [linux] then
      match libraries.find? fun lib => (up lib).url = c.args.getD 2 [] with
      | none => { out := [], ok := false, files := fs, state := () }
      | some lib => { out := [], ok := true, files := fs ++ (up lib).clone lib, state := () }
    else
      match libraries.find? fun lib => lib.name = c.dir.getD 1 [] with
      | none => { out := [], ok := false, files := fs, state := () }
      | some lib =>
        { out := (up lib).answer c.args, ok := true, files := fs ++ makes c.dir c.args, state := () }
  goBuild _ _ := (true, ())
  fault _ _ := (none, ())
  cwd := "/go-libtor".toList

theorem exec_library (up : Library → Upstream) (lib : Library) (s : Unit) (fs : Store) (args : List Str) :
    (upstreams up).exec s fs { dir := [linux, lib.name], args := args } =
      { out := (up lib).answer args, ok := true, files := fs ++ makes [linux, lib.name] args, state := () } := by
  cases lib <;> rfl

/-! ### A small example -/

def tree (files : List (String × String)) : Store :=
  files.map fun e => (splitOn e.1.toList '/', e.2.toList)

/-- One source for each library, and what the generator reads of the others. -/
def small : Library → Upstream
  | .zlib =>
    { url := "https://github.com/madler/zlib".toList, tag := "v1.3\n".toList,
      commit := List.replicate 40 'a', dryRun := [],
      files := tree [("zlib.h", "#define ZLIB_VERSION \"1.3\"\n"), ("adler32.c", ""), ("README", "")] }
  | .libevent =>
    { url := "https://github.com/libevent/libevent".toList, tag := "release-2.2.1-alpha\n".toList,
      commit := List.replicate 40 'b', dryRun := "gcc -o event.lo event.c\n".toList,
      files := tree [("configure.ac", "AC_INIT(libevent,2.2.1)\nAC_DEFINE(NUMERIC_VERSION, 0x02020101,"),
        ("event.c", ""), ("test/regress.c", "")] }
  | .openssl =>
    { url := "https://github.com/openssl/openssl".toList, tag := "openssl-3.6.3\n".toList,
      commit := List.replicate 40 'c',
      dryRun := "gcc -c -o crypto/libcrypto-lib-mem.o crypto/mem.c\n".toList,
      files := tree [("VERSION.dat", "MAJOR=3\nMINOR=6\nPATCH=3\nPRE_RELEASE_TAG=\nBUILD_METADATA=\n" ++
        "RELEASE_DATE=\"9 Jun 2026\"\nSHLIB_VERSION=3\n"), ("crypto/mem.c", ""), ("apps/apps.c", "")] }
  | .tor =>
    { url := "https://git.torproject.org/tor.git".toList, tag := [],
      commit := List.replicate 40 'd', dryRun := "gcc -c src/core/crypto.c\n".toList,
      files := tree [("orconfig.h", "#define VERSION \"0.4.6\"\n"), ("src/core/crypto.c", ""),
        ("src/test/test.c", "")] }

/-- A run on Linux, with or without an update. -/
def onLinux (genLock : Bool) : Options :=
  { genLock := genLock, nobuild := false, goos := linux, goarch := "amd64".toList, numCPU := 1,
    intSize := 64 }

/-! ### The lock as JSON -/

/-- A string between quotes, up to the quote that opens it. -/
def quoted (s : Str) : Str :=
  (s.flatMap fun c => if c = '"' ∨ c = '\\' then ['\\', c] else [c]) ++ "\"".toList

/-- A text up to its closing quote, and what follows. -/
def unquote : (escaped : Bool) → Str → Option (Str × Str)
  | _, [] => none
  | escaped, c :: s =>
    if escaped then (unquote false s).map fun r => (c :: r.1, r.2)
    else if c = '\\' then unquote true s
    else if c = '"' then some ([], s)
    else (unquote false s).map fun r => (c :: r.1, r.2)

/-- What follows a fixed text. -/
def after? (fixed s : Str) : Option Str := if fixed.isPrefixOf s then some (s.drop fixed.length) else none

def plainMarshal (lock : LockJson) : Str :=
  "\x7b\"zlib\":\"".toList ++ (quoted lock.zlib ++ (",\"libevent\":\"".toList ++
    (quoted lock.libevent ++ (",\"openssl\":\"".toList ++ (quoted lock.openssl ++
    (",\"tor\":\"".toList ++ (quoted lock.tor ++ "\x7d".toList)))))))

def plainDecode (s : Str) : Option LockJson := do
  let s ← after? "\x7b\"zlib\":\"".toList s
  let (zlib, s) ← unquote false s
  let s ← after? ",\"libevent\":\"".toList s
  let (libevent, s) ← unquote false s
  let s ← after? ",\"openssl\":\"".toList s
  let (openssl, s) ← unquote false s
  let s ← after? ",\"tor\":\"".toList s
  let (tor, _) ← unquote false s
  pure ⟨zlib, libevent, openssl, tor⟩

def plain : Packages where
  template blob := some fun _ => (blob, true)
  marshal := plainMarshal
  decode := plainDecode

theorem after?_append (fixed s : Str) : after? fixed (fixed ++ s) = some s := by
  unfold after?
  have hbelow : fixed.isPrefixOf (fixed ++ s) = true :=
    List.isPrefixOf_iff_prefix.mpr (List.prefix_append fixed s)
  rw [if_pos hbelow, List.drop_left]

theorem unquote_quoted (s rest : Str) : unquote false (quoted s ++ rest) = some (s, rest) := by
  induction s with
  | nil => rfl
  | cons c s ih =>
    have hcons : quoted (c :: s) = (if c = '"' ∨ c = '\\' then ['\\', c] else [c]) ++ quoted s := by
      unfold quoted
      rw [List.flatMap_cons, List.append_assoc]
    rw [hcons]
    by_cases hc : c = '"' ∨ c = '\\'
    · rw [if_pos hc]
      change (unquote false (quoted s ++ rest)).map _ = _
      rw [ih]
      rfl
    · rw [if_neg hc, List.singleton_append, List.cons_append, unquote, if_neg (by decide),
        if_neg (fun h => hc (Or.inr h)), if_neg (fun h => hc (Or.inl h)), ih]
      rfl

/-- The lock is read back as it was written. -/
theorem plain_json (lock : LockJson) : plain.decode (plain.marshal lock) = some lock := by
  change plainDecode (plainMarshal lock) = some lock
  unfold plainDecode plainMarshal
  simp only [Option.bind_eq_bind, after?_append, Option.bind_some, unquote_quoted]
  rfl

end GoLibtor
