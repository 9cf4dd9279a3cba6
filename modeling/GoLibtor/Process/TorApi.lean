import GoLibtor.Memory.Primitives
import Mathlib.Data.Int.Notation

/-! The C side of an embedded process: the three helpers of `libtor.go` on its array of
strings, and the functions of Tor's `tor_api.c`, on a memory of blocks. What the C library
answers where it may refuse is a parameter. -/
namespace GoLibtor

open Memory Transition.Program

/-- A `char *`: NULL, a string literal, or the first byte of a block. -/
inductive CharPtr where
  | null
  | literal (s : String)
  | block (a : ℕ)
  deriving DecidableEq, Repr

/-- What `argv` of a configuration points to: the static `fake_argv`, or what it was given. -/
inductive Argv where
  | fakeArgv
  | given (p : Ptr)
  deriving DecidableEq, Repr

structure TorMainConfiguration where
  argc : ℤ
  argv : Argv
  argcOwned : ℕ
  argvOwned : Ptr
  owningControllerSocket : ℤ
  deriving DecidableEq, Repr

inductive Block where
  | chars (s : String)
  | pointers (slots : List CharPtr)
  | configuration (cfg : TorMainConfiguration)
  deriving DecidableEq, Repr

/-- What a descriptor of the program stands for: an end of the socket pair that was made for
the configuration at an address, or anything else. -/
inductive FdObject where
  | goEnd (c : ℕ)
  | torEnd (c : ℕ)
  | other
  deriving DecidableEq, Repr

abbrev TorWorld := Resources Block FdObject

abbrev CCode (α : Type) := C Block FdObject α

/-- The greatest `int`. -/
def intMax : ℤ := 2147483647

/-- `C.int`, which keeps the low 32 bits. -/
def cInt (n : ℕ) : ℤ := Int.bmod n (2 ^ 32)

/-- The C string in a block ends at its first NUL. -/
def cText (s : String) : String := String.ofList (s.toList.takeWhile (· ≠ '\x00'))

/-! ### Typed loads and stores -/

def wrongBlock {α : Type} (p : Ptr) : CCode α :=
  match p with
  | none => fail .null
  | some a => fail (.invalid a)

def loadPointers (p : Ptr) : CCode (List CharPtr) := do
  match ← C.load p with
  | .pointers slots => pure slots
  | _ => wrongBlock p

def loadConfiguration (p : Ptr) : CCode TorMainConfiguration := do
  match ← C.load p with
  | .configuration cfg => pure cfg
  | _ => wrongBlock p

def loadPointer (p : Ptr) (i : ℕ) : CCode CharPtr := do
  let slots ← loadPointers p
  match slots[i]? with
  | some c => pure c
  | none => fail .bounds

def storePointer (p : Ptr) (i : ℕ) (c : CharPtr) : CCode PUnit := do
  let slots ← loadPointers p
  if i < slots.length then C.store p (.pointers (slots.set i c)) else fail .bounds

/-- The first `n` pointers of an array, as `memcpy` takes them. -/
def copyPointers (p : Ptr) (n : ℤ) : CCode (List CharPtr) := do
  let slots ← loadPointers p
  if 0 ≤ n ∧ n.toNat ≤ slots.length then pure (slots.take n.toNat) else fail .bounds

def freeChars : CharPtr → CCode PUnit
  | .null => pure PUnit.unit
  | .literal _ => fail .null
  | .block a => C.free (some a)

/-! ### The helpers of `libtor.go` -/

/-- `calloc(sizeof(char*), size)`, where a negative size is more than there is. -/
def makeCharArray (calloc : Bool) (size : ℤ) : CCode Ptr :=
  if calloc ∧ 0 ≤ size then C.malloc (.pointers (List.replicate size.toNat .null)) else pure none

def setArrayString (a : Ptr) (s : CharPtr) (n : ℤ) : CCode PUnit :=
  if 0 ≤ n then storePointer a n.toNat s else fail .bounds

/-- The body of a loop that frees the strings of an array. -/
def freeEntry (a : Ptr) (i : ℕ) : CCode PUnit := do
  let c ← loadPointer a i
  freeChars c

def freeCharArray (a : Ptr) (size : ℤ) : CCode PUnit := do
  (List.range size.toNat).forM (freeEntry a)
  C.free a

/-- `C.CString`, which ends the program rather than answer NULL. -/
def cString (s : String) : CCode CharPtr := do
  match ← C.malloc (.chars s) with
  | some a => pure (.block a)
  | none => pure .null

/-! ### The functions of `tor_api.c` -/

/-- What `realloc` and `strdup` answer in one call of `cfg_add_owned_arg`. -/
structure AddAnswers where
  realloc : Bool
  strdup : Bool
  deriving DecidableEq, Repr

def realloc (p : Ptr) (size : ℕ) (ok : Bool) : CCode Ptr :=
  if ok then
    match p with
    | none => C.malloc (.pointers (List.replicate size .null))
    | some _ => do
      let slots ← loadPointers p
      C.free p
      C.malloc (.pointers (slots.take size ++ List.replicate (size - slots.length) .null))
  else pure none

def strdup (s : String) (ok : Bool) : CCode CharPtr :=
  if ok then cString s else pure .null

/-- `cfg_add_owned_arg` once the array has grown. -/
def cfgStoreOwnedArg (cfg : Ptr) (c : TorMainConfiguration) (newArgv : ℕ) (arg : String)
    (ok : Bool) : CCode ℤ := do
  C.store cfg (.configuration { c with argvOwned := some newArgv })
  let s ← strdup arg ok
  storePointer (some newArgv) c.argcOwned s
  if s = .null then pure (-1)
  else do
    C.store cfg (.configuration { c with argvOwned := some newArgv, argcOwned := c.argcOwned + 1 })
    pure 0

def cfgAddOwnedArg (cfg : Ptr) (arg : String) (ans : AddAnswers) : CCode ℤ := do
  let c ← loadConfiguration cfg
  match ← realloc c.argvOwned (c.argcOwned + 1) ans.realloc with
  | none => pure (-1)
  | some newArgv => cfgStoreOwnedArg cfg c newArgv arg ans.strdup

/-- What a new configuration holds. -/
def newConfiguration : TorMainConfiguration where
  argc := 1
  argv := .fakeArgv
  argcOwned := 0
  argvOwned := none
  owningControllerSocket := -1

def torMainConfigurationNew (malloc : Bool) : CCode Ptr :=
  if malloc then C.malloc (.configuration newConfiguration) else pure none

def torMainConfigurationSetCommandLine (cfg : Ptr) (argc : ℤ) (argv : Ptr) : CCode ℤ :=
  match cfg with
  | none => pure (-1)
  | some a => do
    let c ← loadConfiguration (some a)
    C.store (some a) (.configuration { c with argc := argc, argv := .given argv })
    pure 0

/-- What the kernel and the C library answer in one call of
`tor_main_configuration_setup_control_socket`. The answers of `socketpair` are two numbers. -/
structure SocketAnswers where
  socketpair : Option (ℕ × ℕ)
  name : AddAnswers
  number : AddAnswers
  deriving DecidableEq, Repr

def owningControllerFD : String := "__OwningControllerFD"

/-- The answers of the two `cfg_add_owned_arg` are not looked at. -/
def torMainConfigurationSetupControlSocket (cfg : Ptr) (ans : SocketAnswers) : CCode ℤ := do
  let c ← loadConfiguration cfg
  if 0 ≤ c.owningControllerSocket then pure (-1)
  else
    match ans.socketpair with
    | none => pure (-1)
    | some (fd0, fd1) => do
      C.openAt fd0 (.goEnd (cfg.getD 0))
      C.openAt fd1 (.torEnd (cfg.getD 0))
      let _ ← cfgAddOwnedArg cfg owningControllerFD ans.name
      let _ ← cfgAddOwnedArg cfg (toString fd1) ans.number
      let c ← loadConfiguration cfg
      C.store cfg (.configuration { c with owningControllerSocket := fd1 })
      pure fd0

/-- The part of `tor_main_configuration_free` about the arguments that it owns. -/
def freeOwned (c : TorMainConfiguration) : CCode PUnit :=
  match c.argvOwned with
  | none => pure PUnit.unit
  | some a => do
    (List.range c.argcOwned).forM (freeEntry (some a))
    C.free (some a)

def closeOwned (c : TorMainConfiguration) : CCode PUnit :=
  if 0 ≤ c.owningControllerSocket then C.close c.owningControllerSocket.toNat else pure PUnit.unit

def torMainConfigurationFree (cfg : Ptr) : CCode PUnit :=
  match cfg with
  | none => pure PUnit.unit
  | some a => do
    let c ← loadConfiguration (some a)
    freeOwned c
    closeOwned c
    C.free (some a)

/-- `memcpy(argv, tor_cfg->argv, ..)`. There is one string behind `fake_argv`. -/
def copyArgv (c : TorMainConfiguration) : CCode (List CharPtr) :=
  match c.argv with
  | .fakeArgv => if c.argc = 1 then pure [.literal "tor"] else fail .bounds
  | .given p => copyPointers p c.argc

def copyOwned (c : TorMainConfiguration) : CCode (List CharPtr) :=
  if c.argcOwned = 0 then pure [] else copyPointers c.argvOwned c.argcOwned

/-- `tor_run_main` up to `tor_init`: the array it makes of both argument vectors. -/
def torRunMainArgv (cfg : Ptr) : CCode Ptr := do
  let c ← loadConfiguration cfg
  if intMax < c.argc + c.argcOwned then fail .overflow
  else
    let argv ← copyArgv c
    let owned ← copyOwned c
    C.malloc (.pointers (argv ++ owned))

/-- `tor_free(argv)`, on every way out of `tor_run_main`. -/
def torRunMainDone (argv : Ptr) : CCode PUnit := C.free argv

/-! ### What is read through pointers -/

def charsAt (h : Heap Block) : CharPtr → Option String
  | .null => none
  | .literal s => some s
  | .block a =>
    match h.block a with
    | some (.chars s) => some (cText s)
    | _ => none

/-- The strings of an argument vector. -/
def argvAt (h : Heap Block) (p : Ptr) : Option (List String) :=
  match p.bind h.block with
  | some (.pointers slots) => slots.mapM (charsAt h)
  | _ => none

end GoLibtor
