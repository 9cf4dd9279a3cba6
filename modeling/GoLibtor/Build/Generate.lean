import GoLibtor.Build.Wrap

/-! The generator as a whole. -/
namespace GoLibtor

open Text Files Transition

def lockPath : Path := ["lock.json".toList]

def libtorDir : Path := ["libtor".toList]

section

variable {σ : Type} (m : Machine σ) (pk : Packages) (o : Options)

/-- The lock of the last update, if there is one. -/
def readLock : Gen σ (Option LockJson) := do
  match ← openFile m lockPath with
  | .notExist => pure none
  | .failed err => .fail (.panic err)
  | .found =>
    let (blob, err) ← readFile m lockPath
    must err
    match pk.decode blob with
    | none => .fail (.panic (.json blob))
    | some lock => pure (some lock)

/-- The lock to build from, none for an update. -/
def chooseLock (currentLock : Option LockJson) : Gen σ (Option LockJson) :=
  if !o.genLock then
    match currentLock with
    | none => .fail (.panic (.new "missing lock.json".toList))
    | some lock => pure (some lock)
  else pure none

/-- The target to generate. -/
def chooseTarget : Gen σ Str :=
  if o.goos = "linux".toList ∨ o.goos = "android".toList then pure "linux".toList
  else .fail (.panic (.new ("Sorry but your os : ".toList ++ o.goos ++ " is not yet supported.".toList)))

/-- Remove a file or a folder under a condition, whatever comes of it. -/
def removeWhen (condition : Bool) (p : Path) : Gen σ Unit :=
  if condition then do
    let err ← removeAll m p
    ignore err
  else pure ()

/-- Clean up any previously generated files, and do the same in the target directory. -/
def cleanUp (tgt : Str) : Gen σ Unit := do
  let libtor ← stat m libtorDir
  removeWhen m (decide (libtor ≠ .notExist) && o.genLock) libtorDir
  let target ← stat m [tgt]
  removeWhen m (decide (target ≠ .notExist)) [tgt]

/-- Copy a file of the build folder, whatever comes of it. -/
def copyBuildFile (name : String) (dst : Path) : Gen σ Unit := do
  let (blob, _) ← readFile m ["build".toList, name.toList]
  let err ← writeFile m dst blob
  ignore err

/-- Everything up to the first library. -/
def prepare (tgt : Str) : Gen σ Unit := do
  cleanUp m o tgt
  let err ← mkdirAll m libtorDir
  must err
  copyBuildFile m "libtor_preamble.go.in" ["libtor".toList, "libtor_preamble.go".toList]
  let err ← mkdirAll m [tgt]
  must err

def copyEntrypoints : Gen σ Unit := do
  copyBuildFile m "libtor_external.go.in" ["libtor.go".toList]
  copyBuildFile m "libtor_internal.go.in" ["libtor".toList, "libtor.go".toList]

/-- The version and the commit of each library. -/
structure Versions where
  zlib : Str × Str
  libevent : Str × Str
  openssl : Str × Str
  tor : Str × Str
  deriving DecidableEq

def Versions.lock (v : Versions) : LockJson :=
  { zlib := v.zlib.2, libevent := v.libevent.2, openssl := v.openssl.2, tor := v.tor.2 }

/-- Wrap the libraries in turn. Tor stays at the commit of the last lock even in an update. -/
def wrapAll (tgt : Str) (currentLock lock : Option LockJson) : Gen σ Versions := do
  let zlib ← (wrapZlib m o tgt lock).mapError Stop.toPanic
  let libevent ← (wrapLibevent m pk o tgt lock).mapError Stop.toPanic
  let openssl ← (wrapOpenSSL m pk o tgt lock).mapError Stop.toPanic
  let torLock := if o.genLock then currentLock else lock
  let tor ← (wrapTor m pk tgt torLock).mapError Stop.toPanic
  pure ⟨zlib, libevent, openssl, tor⟩

/-- The data of the readme template. -/
def Versions.fields (v : Versions) : List (Str × Str) :=
  [("zlibVer".toList, v.zlib.1), ("zlibHash".toList, v.zlib.2),
    ("libeventVer".toList, v.libevent.1), ("libeventHash".toList, v.libevent.2),
    ("opensslVer".toList, v.openssl.1), ("opensslHash".toList, v.openssl.2),
    ("torVer".toList, v.tor.1), ("torHash".toList, v.tor.2)]

def writeReadme (v : Versions) : Gen σ Unit := do
  match ← stat m ["build".toList, "README.md".toList] with
  | .found =>
    let (blob, err) ← readFile m ["build".toList, "README.md".toList]
    must err
    match pk.template blob with
    | none => .fail (.panic (.template blob))
    | some execute =>
      let err ← writeFile m ["README.md".toList] (execute v.fields).1
      ignore err
  | _ => pure ()

def writeLock (lock : LockJson) : Gen σ Unit := do
  let err ← writeFile m lockPath (pk.marshal lock)
  ignore err

/-- Up to the end of the libraries: what the rest of `main` needs of it. -/
def generate : Gen σ Versions := do
  let currentLock ← readLock m pk
  let lock ← chooseLock o currentLock
  let tgt ← chooseTarget o
  prepare m o tgt
  let versions ← wrapAll m pk o tgt currentLock lock
  copyEntrypoints m
  pure versions

def build : Gen σ Unit :=
  if !o.nobuild then do
    let err ← goBuild m
    must err
  else pure ()

/-- An update ends with the readme and the lock. -/
def update (versions : Versions) : Gen σ Unit :=
  if o.genLock then do
    writeReadme m pk versions
    writeLock m pk versions.lock
  else pure ()

/-- The answer is what the four functions returned. -/
def main : Gen σ Versions := do
  let versions ← generate m pk o
  build m o
  update m pk o versions
  pure versions

end

end GoLibtor
