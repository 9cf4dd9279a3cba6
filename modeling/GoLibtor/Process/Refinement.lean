import Mathlib.Algebra.GroupWithZero.Nat
import GoLibtor.Process.Host

/-! Each process of a program runs as the model of one process does, whatever the others do
and whatever the C library answers. -/
namespace GoLibtor

open Memory Transition

/-- What `New` is called with. -/
def HostAction.created : HostAction → Option (Option Context × List String)
  | .new ctx _ args => some (ctx, args)
  | _ => none

variable {acts : List HostAction} {h : Host} {i : ℕ} {p : LiveProcess}

/-- The steps that the model of one process takes, where `fds` are the sockets that it is
answered, call by call. -/
def modelSteps (conf : Ptr) : List LiveAction → List ℤ → List Action
  | [], _ => []
  | b :: bs, fds => b.model conf (fds.headD (-1)) :: modelSteps conf bs (fds.drop b.asked)

theorem LiveAction.model_eq {b : LiveAction} (hb : b.asked = 0) (conf : Ptr) (fd fd' : ℤ) :
    b.model conf fd = b.model conf fd' := by
  cases b with
  | embeddedControlConn ans fileConn => cases hb
  | _ => rfl

theorem modelSteps_concat (conf : Ptr) (b : LiveAction) (more : List ℤ) :
    ∀ (bs : List LiveAction) (fds : List ℤ), (bs.map LiveAction.asked).sum = fds.length →
      modelSteps conf (bs ++ [b]) (fds ++ more) =
        modelSteps conf bs fds ++ [b.model conf (more.headD (-1))]
  | [], fds, hfds => by
    obtain rfl := List.eq_nil_of_length_eq_zero hfds.symm
    rfl
  | c :: bs, fds, hfds => by
    rw [List.map_cons, List.sum_cons] at hfds
    have hle : c.asked ≤ fds.length := by omega
    have hrest := modelSteps_concat conf b more bs (fds.drop c.asked) (by
      rw [List.length_drop]
      omega)
    have hhead : c.model conf ((fds ++ more).headD (-1)) = c.model conf (fds.headD (-1)) := by
      cases fds with
      | nil => exact LiveAction.model_eq (Nat.le_zero.mp hle) conf _ _
      | cons fd fds => rfl
    rw [List.cons_append, modelSteps, modelSteps, List.drop_append_of_le_length hle, hrest, hhead,
      List.cons_append]

/-- A process after the steps of a program: its own model goes there too. -/
def Follows (acts : List HostAction) (i : ℕ) (p : LiveProcess) : Prop :=
  ((acts.filterMap (HostAction.at i)).map LiveAction.asked).sum = p.sockets.length ∧
    ∃ ctx q, (acts.filterMap HostAction.created)[i]? = some (ctx, p.args) ∧
      Reaches ctx p.conf p.args (modelSteps p.conf (acts.filterMap (HostAction.at i)) p.sockets) q ∧
      p.Refines q

theorem filterMap_at_concat (acts : List HostAction) (a : HostAction) (i : ℕ) :
    (acts ++ [a]).filterMap (HostAction.at i) =
      acts.filterMap (HostAction.at i) ++ (a.at i).toList := by
  rw [List.filterMap_append]
  cases hat : a.at i <;> simp [hat]

/-- A step of somebody else. -/
theorem Follows.other (hp : Follows acts i p) {a : HostAction} (ha : a.at i = none) :
    Follows (acts ++ [a]) i p := by
  obtain ⟨hasked, ctx, q, hnew, hreach, hrefines⟩ := hp
  have hat : (acts ++ [a]).filterMap (HostAction.at i) = acts.filterMap (HostAction.at i) := by
    rw [filterMap_at_concat, ha, Option.toList_none, List.append_nil]
  refine ⟨by rw [hat, hasked], ctx, q, ?_, by rw [hat]; exact hreach, hrefines⟩
  rw [List.filterMap_append, List.getElem?_append_left]
  · exact hnew
  · exact (List.getElem?_eq_some_iff.mp hnew).1

/-- A step of its own. -/
theorem Follows.own (hp : Follows acts i p) {L L' : Layout} {b : LiveAction} {p' : LiveProcess}
    (hstepped : p.Stepped L b p' L') : Follows (acts ++ [.on i b]) i p' := by
  obtain ⟨hasked, ctx, q, hnew, hreach, hrefines⟩ := hp
  obtain ⟨fds, hlen, hsockets, hstep⟩ := hstepped.refines
  obtain ⟨q', hq', hrefines'⟩ := hstep q hrefines
  have hown : (HostAction.on i b).at i = some b := if_pos rfl
  have hat : (acts ++ [HostAction.on i b]).filterMap (HostAction.at i) =
      acts.filterMap (HostAction.at i) ++ [b] := by
    rw [filterMap_at_concat, hown, Option.toList_some]
  refine ⟨?_, ctx, q', ?_, ?_, hrefines'⟩
  · rw [hat, hsockets, List.map_append, List.sum_append, hasked, List.length_append, hlen]
    simp
  · rw [hstepped.args, List.filterMap_append, List.getElem?_append_left]
    · exact hnew
    · exact (List.getElem?_eq_some_iff.mp hnew).1
  · rw [hstepped.conf, hstepped.args, hat, hsockets, modelSteps_concat _ _ _ _ _ hasked]
    exact Transition.run_concat_eq_some.mpr ⟨q, hreach, hq'⟩

/-- A new process, which is the last one. -/
theorem follows_new {ctx : Option Context} {malloc : Bool} {args : List String} {conf : Ptr}
    (hcount : (acts.filterMap HostAction.created).length = i)
    (hunborn : acts.filterMap (HostAction.at i) = []) :
    Follows (acts ++ [.new ctx malloc args]) i (liveProcessNew ctx conf args) := by
  have hat : (acts ++ [HostAction.new ctx malloc args]).filterMap (HostAction.at i) = [] := by
    rw [filterMap_at_concat, hunborn]
    rfl
  refine ⟨by rw [hat]; rfl, ctx, embeddedCreatorNew ctx conf args, ?_, by rw [hat]; rfl,
    ⟨rfl, rfl, rfl, rfl, rfl, rfl⟩⟩
  rw [List.filterMap_append, List.getElem?_append_right hcount.le, hcount, Nat.sub_self]
  rfl

/-- The program has the processes that were created, and each of them follows its model. -/
structure Tracks (acts : List HostAction) (h : Host) : Prop where
  fits : ∃ ps, h.Fits ps
  created : (acts.filterMap HostAction.created).length = h.procs.length
  unborn : ∀ i, h.procs.length ≤ i → acts.filterMap (HostAction.at i) = []
  follows : ∀ i p, h.procs[i]? = some p → Follows acts i p

theorem tracks_initial : Tracks [] Host.initial where
  fits := ⟨[], Host.fits_initial⟩
  created := rfl
  unborn := fun _ _ => rfl
  follows := by simp [Host.initial]

/-- A step of the program that is no call of `New` and no step of a process. -/
theorem Tracks.other (ht : Tracks acts h) {a : HostAction} {k : Host} (hk : ∃ ps, k.Fits ps)
    (hprocs : k.procs = h.procs) (hnew : a.created = none) (ha : ∀ i, a.at i = none) :
    Tracks (acts ++ [a]) k where
  fits := hk
  created := by
    rw [List.filterMap_append, hprocs, ← ht.created]
    simp [hnew]
  unborn := by
    intro i hi
    rw [List.filterMap_append, ht.unborn i (hprocs ▸ hi)]
    simp [ha i]
  follows := by
    intro i p hp
    rw [hprocs] at hp
    exact (ht.follows i p hp).other (ha i)

theorem Tracks.new (ht : Tracks acts h) {ctx : Option Context} {malloc : Bool}
    {args : List String} {conf : Ptr} {k : Host} (hk : ∃ ps, k.Fits ps)
    (hprocs : k.procs = h.procs ++ [liveProcessNew ctx conf args]) :
    Tracks (acts ++ [.new ctx malloc args]) k where
  fits := hk
  created := by
    rw [List.filterMap_append, List.length_append, ht.created, hprocs, List.length_append]
    rfl
  unborn := by
    intro i hi
    rw [hprocs, List.length_append, List.length_singleton] at hi
    rw [List.filterMap_append, ht.unborn i (by omega)]
    rfl
  follows := by
    intro i p hp
    rw [hprocs, List.getElem?_append] at hp
    by_cases hlt : i < h.procs.length
    · rw [if_pos hlt] at hp
      exact (ht.follows i p hp).other rfl
    · rw [if_neg hlt, List.getElem?_singleton] at hp
      have hi : i = h.procs.length := by
        by_contra hne
        have hpos : i - h.procs.length ≠ 0 := by omega
        rw [if_neg hpos] at hp
        cases hp
      rw [hi, Nat.sub_self, if_pos rfl] at hp
      obtain rfl := Option.some.inj hp
      rw [hi]
      exact follows_new ht.created (ht.unborn _ le_rfl)

theorem Tracks.on (ht : Tracks acts h) {j : ℕ} {b : LiveAction} {p p' : LiveProcess} {L L' : Layout}
    {k : Host} (hk : ∃ ps, k.Fits ps) (hp : h.procs[j]? = some p) (hstepped : p.Stepped L b p' L')
    (hprocs : k.procs = h.procs.set j p') : Tracks (acts ++ [.on j b]) k where
  fits := hk
  created := by
    rw [List.filterMap_append, hprocs, List.length_set, ← ht.created]
    simp [HostAction.created]
  unborn := by
    intro i hi
    rw [hprocs, List.length_set] at hi
    have hlt := (List.getElem?_eq_some_iff.mp hp).1
    have hne : j ≠ i := by omega
    rw [List.filterMap_append, ht.unborn i hi]
    simp [HostAction.at, hne]
  follows := by
    intro i q hq
    rw [hprocs, List.getElem?_set] at hq
    by_cases hji : j = i
    · rw [if_pos hji, if_pos (List.getElem?_eq_some_iff.mp hp).1] at hq
      obtain rfl := Option.some.inj hq
      rw [← hji]
      exact (ht.follows j p hp).own hstepped
    · rw [if_neg hji] at hq
      exact (ht.follows i q hq).other (if_neg hji)

theorem HostReaches.tracks (hreach : HostReaches acts h) (hsmall : ∀ a ∈ acts, a.Small) :
    Tracks acts h := by
  refine Transition.run_history (I := fun as k => (∀ a ∈ as, HostAction.Small a) → Tracks as k)
    (fun _ => tracks_initial) ?_ hreach hsmall
  intro as k a k' _ ih hstep hall
  have ht := ih fun b hb => hall b (List.mem_append_left _ hb)
  have ha : a.Small := hall a (by simp)
  obtain ⟨ps, hfits⟩ := ht.fits
  have hk := hfits.step ha hstep
  rcases hfits.step_cases ha hstep with ⟨ctx, malloc, args, conf, rfl, _, hprocs, _⟩ |
    ⟨b, pre, p, L, post, p', L', rfl, _, _, _, hstepped, _, hp, hprocs, _⟩ |
    ⟨n, rfl, _, rfl⟩ | ⟨n, rfl, rfl⟩
  · exact ht.new hk hprocs
  · exact ht.on hk hp hstepped hprocs
  · exact ht.other hk rfl rfl fun _ => rfl
  · exact ht.other hk rfl rfl fun _ => rfl

/-- Every process of a program, under every interleaving, takes the steps of the model of one
process: that model has a run with the same calls and answers, and the process stands where it
stands. -/
theorem embedded_refines (hreach : HostReaches acts h) (hsmall : ∀ a ∈ acts, a.Small)
    (hp : h.procs[i]? = some p) :
    ∃ ctx q, (acts.filterMap HostAction.created)[i]? = some (ctx, p.args) ∧
      Reaches ctx p.conf p.args
        (modelSteps p.conf (acts.filterMap (HostAction.at i)) p.sockets) q ∧ p.Refines q :=
  ((hreach.tracks hsmall).follows i p hp).2

/-- Two processes in turn: the second is started while the first one's Tor runs, and it is
asked twice for a socket, which it gives once. -/
def twoProcesses : List HostAction :=
  [.new none true ["--quiet"], .on 0 (.start true), .new none true [], .on 0 (.goroutine 0),
    .on 1 .wait, .on 1 (.start true),
    .on 1 (.embeddedControlConn ⟨some (3, 4), ⟨true, true⟩, ⟨true, true⟩⟩ (.ok ())),
    .on 1 (.embeddedControlConn ⟨some (5, 6), ⟨true, true⟩, ⟨true, true⟩⟩ (.ok ()))]

theorem embedded_refines_pair : ∃ h p ctx q, HostReaches twoProcesses h ∧ h.procs[1]? = some p ∧
    Reaches ctx p.conf [] [.wait, .start 0, .embeddedControlConn 3 (.ok ()),
      .embeddedControlConn (-1) (.ok ())] q ∧ p.Refines q := by
  obtain ⟨h, p, hreach, hp, hargs, hsockets, hconf⟩ : ∃ h p, HostReaches twoProcesses h ∧
      h.procs[1]? = some p ∧ p.args = [] ∧ p.sockets = [3, -1] ∧ p.conf ≠ none :=
    ⟨_, _, rfl, rfl, rfl, by decide +kernel, by decide +kernel⟩
  obtain ⟨ctx, q, _, hq, hrefines⟩ := embedded_refines hreach (by decide) hp
  refine ⟨h, p, ctx, q, hreach, hp, ?_, hrefines⟩
  rw [hargs, hsockets] at hq
  change Reaches ctx p.conf [] [.wait, .start (if p.conf = none then -1 else 0),
    .embeddedControlConn 3 (.ok ()), .embeddedControlConn (-1) (.ok ())] q at hq
  rwa [if_neg hconf] at hq

end GoLibtor
