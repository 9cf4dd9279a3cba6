import GoLibtor.Process.Embedded
import GoLibtor.Process.TorApiSpec

/-! What the memory of a process is made of, in every state that it can be in, and what each
of its steps does to it. -/
namespace GoLibtor

open Memory Transition Transition.Program

namespace Thread

def confFreed : Thread → Bool
  | .freeing _ _ _ | .finished _ => true
  | _ => false

def stage : Thread → ℕ
  | .idle => 0
  | .spawned _ _ => 1
  | .running _ _ _ => 2
  | .sending _ _ _ => 3
  | .releasing _ _ _ => 4
  | .freeing _ _ _ => 5
  | .finished _ => 6

/-- The array of strings that the closure holds. -/
def array : Thread → Option (Ptr × ℤ)
  | .idle | .finished _ => none
  | .spawned a n | .running a n _ | .sending a n _ | .releasing a n _ | .freeing a n _ => some (a, n)

def torArgv : Thread → Ptr
  | .running _ _ v => v
  | _ => none

def cells (t : Thread) (argv seen : Strings) : Multiset (ℕ × Block) :=
  (t.array.bind Prod.fst).elim 0 (fun a => arrayCells a argv 0) +
    t.torArgv.elim 0 fun v => {(v, .pointers (argv.slots ++ seen.slots))}

end Thread

/-- The values behind the pointers of a process: its configuration with the arguments that it
owns, the strings of `charArray`, and the owned ones that Tor was given. -/
structure Layout where
  cfg : TorMainConfiguration
  owned : Strings
  pad : ℕ
  argv : Strings
  seen : Strings

namespace LiveProcess

variable {p q : LiveProcess} {L : Layout}

/-- The configuration, until it is freed. -/
def liveConf (p : LiveProcess) : Ptr := if p.thread.confFreed then none else p.conf

def cells (p : LiveProcess) (L : Layout) : Multiset (ℕ × Block) :=
  p.liveConf.elim 0 (fun c => confCells c L.cfg L.owned L.pad) + p.thread.cells L.argv L.seen

def dead (p : LiveProcess) : List ℕ := if p.thread.confFreed then p.conf.toList else []

/-- The configuration has no control socket yet, or it has the one that was answered once. -/
def SocketFits (p : LiveProcess) (L : Layout) : Prop :=
  (L.cfg.owningControllerSocket = -1 ∧ L.owned = [] ∧ ∀ r ∈ p.sockets, r = -1) ∨
    ∃ fd0 fd1 : ℕ, L.cfg.owningControllerSocket = fd1 ∧
      L.owned.texts.Sublist [owningControllerFD, toString fd1] ∧
      p.sockets.filter (· ≠ -1) = [(fd0 : ℤ)]

structure Fits (p : LiveProcess) (L : Layout) : Prop where
  idle : p.done = none ↔ p.thread = .idle
  null : p.conf = none → p.thread = .idle ∧ p.sockets = []
  counts : L.cfg.Counts L.owned
  socket : p.SocketFits L
  array : ∀ a n, p.thread.array = some (a, n) → a ≠ none ∧ n = L.argv.length ∧ n ≤ intMax ∧
    L.argv.texts = "tor" :: p.args
  commandLine : ∀ a n, p.thread = .spawned a n → L.cfg.argc = n ∧ L.cfg.argv = .given a
  seen : ∀ a n v, p.thread = .running a n v → v ≠ none ∧ L.seen <+: L.owned

end LiveProcess

namespace Thread

/-- The goroutine of the model of one process, which holds the strings themselves. -/
def goroutine (argv : List String) : Thread → Goroutine
  | .idle => .idle
  | .spawned _ _ => .spawned argv
  | .running _ _ _ => .running argv
  | .sending _ _ c => .sending argv c
  | .releasing _ _ c => .releasing argv c
  | .freeing _ _ c => .freeing argv c
  | .finished c => .finished argv c

end Thread

/-- The step that the model of one process takes, where `fd` is the socket that it is answered
if it asks for one. Tor refuses a command line only for a configuration that is NULL. -/
def LiveAction.model (conf : Ptr) (fd : ℤ) : LiveAction → Action
  | .start _ => .start (if conf = none then -1 else 0)
  | .wait => .wait
  | .waitDone i => .waitDone i
  | .waitReceive i => .waitReceive i
  | .embeddedControlConn _ fileConn => .embeddedControlConn fd fileConn
  | .cancel e => .cancel e
  | .goroutine code => .goroutine code

def LiveAction.asked : LiveAction → ℕ
  | .embeddedControlConn _ _ => 1
  | _ => 0

/-- Process `p` stands where `q`, a state of the model of one process, stands. -/
structure LiveProcess.Refines (p : LiveProcess) (q : ProcState) : Prop where
  ctx : q.ctx = p.ctx
  conf : q.conf = p.conf
  args : q.args = p.args
  done : q.done = p.done
  goroutine : q.goroutine = p.thread.goroutine ("tor" :: p.args)
  waits : q.waits = p.waits

/-- What the step needs: memory for the array of a first `Start`, and a configuration for
`EmbeddedControlConn`. -/
def LiveAction.Safe (p : LiveProcess) : LiveAction → Prop
  | .start calloc => p.done = none → calloc = true
  | .embeddedControlConn _ _ => p.liveConf ≠ none
  | _ => True

namespace LiveProcess

def socketAfter (L : Layout) : LiveAction → ℤ
  | .embeddedControlConn ans _ =>
    if 0 ≤ L.cfg.owningControllerSocket then L.cfg.owningControllerSocket
    else ans.socketpair.elim L.cfg.owningControllerSocket fun fds => fds.2
  | _ => L.cfg.owningControllerSocket

def ownedAfter (L : Layout) : LiveAction → List String
  | .embeddedControlConn ans _ =>
    if 0 ≤ L.cfg.owningControllerSocket then L.owned.texts
    else ans.socketpair.elim L.owned.texts fun fds => L.owned.texts ++ ans.added fds.2
  | _ => L.owned.texts

def fdsAfter (p : LiveProcess) (L : Layout) (d : Descriptors FdObject) :
    LiveAction → Descriptors FdObject
  | .embeddedControlConn ans _ =>
    if 0 ≤ L.cfg.owningControllerSocket then d
    else ans.socketpair.elim d fun fds =>
      (d.openAt fds.1 (.goEnd (p.conf.getD 0))).openAt fds.2 (.torEnd (p.conf.getD 0))
  | .goroutine _ =>
    match p.thread with
    | .releasing _ _ _ => closeSocket d L.cfg.owningControllerSocket
    | _ => d
  | _ => d

/-- What a step of a process makes of it. -/
structure Stepped (p : LiveProcess) (L : Layout) (a : LiveAction) (p' : LiveProcess)
    (L' : Layout) : Prop where
  fits : p'.Fits L'
  conf : p'.conf = p.conf
  args : p'.args = p.args
  stage : p.thread.stage ≤ p'.thread.stage
  advanced : ∀ code, a = .goroutine code → p'.thread.stage = p.thread.stage + 1
  owned : L'.owned.texts = ownedAfter L a
  socket : L'.cfg.owningControllerSocket = socketAfter L a
  seen : p.thread.torArgv ≠ none → p'.thread.torArgv ≠ none →
    p'.thread.torArgv = p.thread.torArgv ∧ L'.seen = L.seen
  entered : p.thread.torArgv = none → p'.thread.torArgv ≠ none → L'.seen = L.owned
  refines : ∃ fds : List ℤ, fds.length = a.asked ∧ p'.sockets = p.sockets ++ fds ∧
    ∀ q, p.Refines q → ∃ q', q.step (a.model p.conf (fds.headD (-1))) = some q' ∧ p'.Refines q'

end LiveProcess

end GoLibtor
