import GoLibtor.Process.TorApi

/-! What each function of the C side does to the memory that it is handed, whatever else
there is: one rule for each, by the cells before and after. -/
namespace GoLibtor

open Memory Transition.Program

/-- Strings in blocks of their own, with their addresses. -/
abbrev Strings := List (ℕ × String)

namespace Strings

def texts (l : Strings) : List String := l.map Prod.snd

def slots (l : Strings) : List CharPtr := l.map fun s => .block s.1

def cells (l : Strings) : Multiset (ℕ × Block) := Multiset.ofList (l.map fun s => (s.1, .chars s.2))

@[simp] theorem length_texts (l : Strings) : l.texts.length = l.length := List.length_map _

@[simp] theorem length_slots (l : Strings) : l.slots.length = l.length := List.length_map _

theorem slots_append (l m : Strings) : slots (l ++ m) = l.slots ++ m.slots := List.map_append

theorem texts_append (l m : Strings) : texts (l ++ m) = l.texts ++ m.texts := List.map_append

theorem cells_append (l m : Strings) : cells (l ++ m) = l.cells + m.cells := by
  simp [cells, Multiset.coe_add]

theorem cells_cons (s : ℕ × String) (l : Strings) :
    cells (s :: l) = {(s.1, .chars s.2)} + l.cells := rfl

theorem cells_nil : cells [] = 0 := rfl

end Strings

/-- An array of strings: its block, with `pad` slots that are NULL, and the strings. -/
def arrayCells (a : ℕ) (l : Strings) (pad : ℕ) : Multiset (ℕ × Block) :=
  {(a, .pointers (l.slots ++ List.replicate pad .null))} + l.cells

/-- A string put into the first free slot. -/
theorem arrayCells_concat (a b : ℕ) (l : Strings) (arg : String) (pad : ℕ) :
    arrayCells a (l ++ [(b, arg)]) pad =
      {(a, .pointers (l.slots ++ .block b :: List.replicate pad .null))} +
        (l.cells + {(b, .chars arg)}) := by
  rw [arrayCells, Strings.slots_append, Strings.cells_append, List.append_assoc]
  rfl

/-- A configuration with the arguments it owns. -/
def confCells (c : ℕ) (cfg : TorMainConfiguration) (owned : Strings) (pad : ℕ) :
    Multiset (ℕ × Block) :=
  {(c, .configuration cfg)} + cfg.argvOwned.elim 0 fun a => arrayCells a owned pad

/-- `argc_owned` counts the owned arguments, and without an array there are none. -/
def TorMainConfiguration.Counts (cfg : TorMainConfiguration) (owned : Strings) : Prop :=
  cfg.argcOwned = owned.length ∧ (cfg.argvOwned = none → owned = [])

section Specs

variable {rest : Multiset (ℕ × Block)} {dead : List ℕ} {d : Descriptors FdObject} {a c : ℕ}
  {slots : List CharPtr} {cfg : TorMainConfiguration} {owned : Strings} {pad : ℕ}

/-! ### Loads and stores -/

theorem loadPointers_meets : Meets (Resources.Is ({(a, .pointers slots)} + rest) dead d)
    (loadPointers (some a))
    fun xs w => xs = slots ∧ w.Is ({(a, .pointers slots)} + rest) dead d :=
  Meets.bindEq C.load_meets (meets_pure fun _ h => ⟨rfl, h⟩)

theorem loadConfiguration_meets : Meets (Resources.Is ({(c, .configuration cfg)} + rest) dead d)
    (loadConfiguration (some c))
    fun x w => x = cfg ∧ w.Is ({(c, .configuration cfg)} + rest) dead d :=
  Meets.bindEq C.load_meets (meets_pure fun _ h => ⟨rfl, h⟩)

theorem loadPointer_meets {i : ℕ} {p : CharPtr} (hi : slots[i]? = some p) :
    Meets (Resources.Is ({(a, .pointers slots)} + rest) dead d) (loadPointer (some a) i)
      fun x w => x = p ∧ w.Is ({(a, .pointers slots)} + rest) dead d := by
  refine Meets.bindEq loadPointers_meets ?_
  simp only [hi]
  exact meets_pure fun _ h => ⟨rfl, h⟩

theorem storePointer_meets {i : ℕ} (hi : i < slots.length) (p : CharPtr) :
    Meets (Resources.Is ({(a, .pointers slots)} + rest) dead d) (storePointer (some a) i p)
      fun _ => Resources.Is ({(a, .pointers (slots.set i p))} + rest) dead d := by
  refine Meets.bindEq loadPointers_meets ?_
  rw [if_pos hi]
  exact C.store_meets _

/-- A store into the first free slot of an array. -/
theorem storeNext_meets {l : Strings} {i : ℕ} (hi : i = l.length) (p : CharPtr) :
    Meets (Resources.Is (arrayCells a l (pad + 1) + rest) dead d) (storePointer (some a) i p)
      fun _ => Resources.Is ({(a, .pointers (l.slots ++ p :: List.replicate pad .null))} +
        (l.cells + rest)) dead d := by
  have hlt : l.length < (l.slots ++ List.replicate (pad + 1) CharPtr.null).length := by
    rw [List.length_append, Strings.length_slots, List.length_replicate]
    omega
  have hset : (l.slots ++ List.replicate (pad + 1) CharPtr.null).set l.length p =
      l.slots ++ p :: List.replicate pad .null := by
    rw [← l.length_slots, List.set_append_right _ _ le_rfl, Nat.sub_self]
    rfl
  rw [hi, ← hset]
  exact (storePointer_meets hlt p).pre fun w h => h.cells_eq (add_assoc _ _ _)

theorem copyPointers_meets {n : ℕ} (hn : n ≤ slots.length) :
    Meets (Resources.Is ({(a, .pointers slots)} + rest) dead d) (copyPointers (some a) n)
      fun xs w => xs = slots.take n ∧ w.Is ({(a, .pointers slots)} + rest) dead d := by
  refine Meets.bindEq loadPointers_meets ?_
  have hin : (0 : ℤ) ≤ n ∧ (n : ℤ).toNat ≤ slots.length := ⟨by omega, by omega⟩
  rw [if_pos hin]
  exact meets_pure fun _ h => ⟨rfl, h⟩

/-! ### Arrays of strings -/

theorem cString_meets (s : String) : Meets (Resources.Is rest dead d) (cString s)
    fun p w => ∃ a, p = .block a ∧ w.Is ({(a, .chars s)} + rest) dead d := by
  refine Meets.bind (C.malloc_meets _) fun p => meets_exists fun a => meets_and ?_
  rintro rfl
  exact meets_pure fun _ h => ⟨a, rfl, h⟩

/-- The first string of what is left of an array is freed. -/
theorem freeEntry_meets {i : ℕ} {s : ℕ × String} {l : Strings} (hi : slots[i]? = some (.block s.1)) :
    Meets (Resources.Is ({(a, .pointers slots)} + (Strings.cells (s :: l) + rest)) dead d)
      (freeEntry (some a) i)
      fun _ => Resources.Is ({(a, .pointers slots)} + (l.cells + rest)) dead d := by
  have hfree : Meets
      (Resources.Is ({(s.1, .chars s.2)} + ({(a, .pointers slots)} + (l.cells + rest))) dead d)
      (C.free (some s.1)) fun _ => Resources.Is ({(a, .pointers slots)} + (l.cells + rest)) (s.1 :: dead) d :=
    C.free_meets
  refine Meets.bindEq (loadPointer_meets hi) (hfree.mono ?_ ?_)
  · intro w h
    exact h.cells_eq (by rw [Strings.cells_cons]; ac_rfl)
  · intro _ w h
    exact h.weaken rfl (List.subset_cons_self _ _)

/-- The strings that the slots from `k` on point to are freed, one after the other. -/
theorem freeEntries_meets {l : Strings} {k : ℕ} {more : List CharPtr}
    (hslots : slots.drop k = l.slots ++ more) :
    Meets (Resources.Is ({(a, .pointers slots)} + (l.cells + rest)) dead d)
      ((List.range' k l.length).forM (freeEntry (some a)))
      fun _ => Resources.Is ({(a, .pointers slots)} + rest) dead d := by
  induction l generalizing k with
  | nil =>
    refine meets_pure fun w h => h.cells_eq ?_
    rw [Strings.cells_nil, zero_add]
  | cons s l ih =>
    have hk : slots[k]? = some (.block s.1) := by
      rw [← List.head?_drop, hslots]
      rfl
    have hnext : slots.drop (k + 1) = Strings.slots l ++ more := by
      rw [← List.tail_drop, hslots]
      rfl
    exact Meets.bind (freeEntry_meets hk) fun _ => ih hnext

/-- The strings of an array, and then the array. -/
theorem freeArray_meets {l : Strings} : Meets (Resources.Is (arrayCells a l pad + rest) dead d)
    (do (List.range l.length).forM (freeEntry (some a)); C.free (some a))
    fun _ => Resources.Is rest dead d := by
  have hloop : Meets
      (Resources.Is ({(a, .pointers (l.slots ++ List.replicate pad .null))} + (l.cells + rest)) dead d)
      ((List.range' 0 l.length).forM (freeEntry (some a)))
      fun _ => Resources.Is ({(a, .pointers (l.slots ++ List.replicate pad .null))} + rest) dead d :=
    freeEntries_meets List.drop_zero
  have hfree : Meets
      (Resources.Is ({(a, .pointers (l.slots ++ List.replicate pad .null))} + rest) dead d)
      (C.free (some a)) fun _ => Resources.Is rest (a :: dead) d := C.free_meets
  rw [List.range_eq_range']
  refine Meets.bind (hloop.pre ?_) fun _ => hfree.post ?_
  · intro w h
    exact h.cells_eq (by rw [arrayCells]; ac_rfl)
  · intro _ w h
    exact h.weaken rfl (List.subset_cons_self _ _)

theorem freeCharArray_meets {l : Strings} : Meets (Resources.Is (arrayCells a l pad + rest) dead d)
    (freeCharArray (some a) l.length) fun _ => Resources.Is rest dead d :=
  freeArray_meets

theorem makeCharArray_meets (n : ℕ) : Meets (Resources.Is rest dead d) (makeCharArray true n)
    fun p w => ∃ a, p = some a ∧ w.Is (arrayCells a [] n + rest) dead d := by
  have hin : (true : Bool) ∧ (0 : ℤ) ≤ n := ⟨rfl, by omega⟩
  rw [makeCharArray, if_pos hin]
  exact C.malloc_meets _

/-! ### The configuration -/

theorem Counts_new : newConfiguration.Counts [] := ⟨rfl, fun _ => rfl⟩

theorem torMainConfigurationNew_meets : Meets (Resources.Is rest dead d) (torMainConfigurationNew true)
    fun p w => ∃ c, p = some c ∧ w.Is (confCells c newConfiguration [] 0 + rest) dead d := by
  refine (C.malloc_meets (Block.configuration newConfiguration)).post ?_
  intro p w ⟨c, hp, h⟩
  exact ⟨c, hp, h⟩

theorem loadConfCells_meets : Meets (Resources.Is (confCells c cfg owned pad + rest) dead d)
    (loadConfiguration (some c))
    fun x w => x = cfg ∧ w.Is (confCells c cfg owned pad + rest) dead d := by
  refine loadConfiguration_meets.mono (fun w h => h.cells_eq (add_assoc _ _ _)) fun x w h => ?_
  exact ⟨h.1, h.2.cells_eq (add_assoc _ _ _).symm⟩

/-- A store that leaves the owned arguments where they are. -/
theorem storeConfCells_meets {cfg' : TorMainConfiguration} (h : cfg'.argvOwned = cfg.argvOwned) :
    Meets (Resources.Is (confCells c cfg owned pad + rest) dead d)
      (C.store (some c) (.configuration cfg'))
      fun _ => Resources.Is (confCells c cfg' owned pad + rest) dead d := by
  refine (C.store_meets _).mono (fun w hw => hw.cells_eq (add_assoc _ _ _)) fun _ w hw => ?_
  rw [confCells, h]
  exact hw.cells_eq (add_assoc _ _ _).symm

theorem torMainConfigurationSetCommandLine_meets (argc : ℤ) (argv : Ptr) :
    Meets (Resources.Is (confCells c cfg owned pad + rest) dead d)
      (torMainConfigurationSetCommandLine (some c) argc argv)
      fun r w => r = 0 ∧
        w.Is (confCells c { cfg with argc := argc, argv := .given argv } owned pad + rest) dead d :=
  Meets.bindEq loadConfCells_meets (Meets.bind (storeConfCells_meets rfl) fun _ =>
    meets_pure fun _ h => ⟨rfl, h⟩)

/-- The array of a configuration, if it has one, grown to hold one more string. -/
theorem realloc_meets {p : Ptr} (hp : p = none → owned = []) :
    Meets (Resources.Is (p.elim 0 (fun a => arrayCells a owned pad) + rest) dead d)
      (realloc p (owned.length + 1) true)
      fun q w => ∃ a, q = some a ∧ w.Is (arrayCells a owned 1 + rest) dead d := by
  cases p with
  | none =>
    rw [hp rfl]
    have hnew : Meets (Resources.Is rest dead d)
        (C.malloc (Block.pointers (List.replicate 1 .null)))
        fun q w => ∃ a, q = some a ∧ w.Is (arrayCells a [] 1 + rest) dead d := C.malloc_meets _
    exact hnew.pre fun w h => h.cells_eq (zero_add _)
  | some a =>
    let old := owned.slots ++ List.replicate pad CharPtr.null
    have hgrow : old.take (owned.length + 1) ++
        List.replicate (owned.length + 1 - old.length) CharPtr.null =
          owned.slots ++ List.replicate 1 .null := by
      have hlen : old.length = owned.length + pad := by simp [old]
      rw [hlen]
      by_cases hpad : pad = 0
      · simp [old, hpad, List.take_of_length_le]
      · have htake : 1 ≤ pad := by omega
        have hnone : owned.length + 1 - (owned.length + pad) = 0 := by omega
        simp [old, hnone, List.take_append, htake]
    have hload : Meets (Resources.Is (arrayCells a owned pad + rest) dead d) (loadPointers (some a))
        fun xs w => xs = old ∧ w.Is ({(a, .pointers old)} + (owned.cells + rest)) dead d :=
      loadPointers_meets.pre fun w h => h.cells_eq (add_assoc _ _ _)
    refine Meets.bindEq hload (Meets.bind C.free_meets fun _ => ?_)
    rw [hgrow]
    refine (C.malloc_meets _).post ?_
    intro q w ⟨b, hq, h⟩
    exact ⟨b, hq, h.weaken (add_assoc _ _ _).symm (List.subset_cons_self _ _)⟩

theorem realloc_null_meets {P : TorWorld → Prop} (p : Ptr) (n : ℕ) :
    Meets P (realloc p n false) fun q w => q = none ∧ P w :=
  meets_pure fun _ h => ⟨rfl, h⟩

/-- What a call of `cfg_add_owned_arg` adds. -/
def AddAnswers.added (ans : AddAnswers) (arg : String) : List String :=
  if ans.realloc && ans.strdup then [arg] else []

theorem cfgStoreOwnedArg_meets (hcfg : cfg.argcOwned = owned.length) (arg : String) (ok : Bool) :
    Meets (Resources.Is ({(c, .configuration cfg)} + (arrayCells a owned 1 + rest)) dead d)
      (cfgStoreOwnedArg (some c) cfg a arg ok)
      fun _ w => ∃ argcOwned new pad',
        TorMainConfiguration.Counts { cfg with argcOwned, argvOwned := some a } (owned ++ new) ∧
        new.texts = (if ok then [arg] else []) ∧
        w.Is ({(c, .configuration { cfg with argcOwned, argvOwned := some a })} +
          (arrayCells a (owned ++ new) pad' + rest)) dead d := by
  let cfg' : TorMainConfiguration := { cfg with argvOwned := some a }
  have hsome : ∀ n, TorMainConfiguration.Counts { cfg with argcOwned := n, argvOwned := some a } owned ↔
      n = owned.length := by simp [TorMainConfiguration.Counts]
  refine Meets.bind (C.store_meets _) fun _ => ?_
  cases ok with
  | false =>
    have hnull : Meets (Resources.Is ({(c, .configuration cfg')} + (arrayCells a owned 1 + rest)) dead d)
        (strdup arg false)
        fun s w => s = .null ∧ w.Is (arrayCells a owned 1 + ({(c, .configuration cfg')} + rest)) dead d :=
      meets_pure fun w h => ⟨rfl, h.cells_eq (add_left_comm _ _ _)⟩
    refine Meets.bindEq hnull (Meets.bind (storeNext_meets hcfg .null) fun _ => ?_)
    refine meets_pure fun w h => ⟨cfg.argcOwned, [], 1, ?_, rfl, ?_⟩
    · rw [List.append_nil]
      exact (hsome _).mpr hcfg
    · rw [List.append_nil]
      exact h.cells_eq (by rw [arrayCells]; ac_rfl)
  | true =>
    have hcopy : Meets (Resources.Is ({(c, .configuration cfg')} + (arrayCells a owned 1 + rest)) dead d)
        (strdup arg true)
        fun s w => ∃ b, s = .block b ∧
          w.Is (arrayCells a owned 1 + ({(c, .configuration cfg')} + ({(b, .chars arg)} + rest)))
            dead d := by
      refine (cString_meets arg).post fun s w ⟨b, hs, h⟩ => ⟨b, hs, h.cells_eq ?_⟩
      ac_rfl
    refine Meets.bind hcopy fun s => meets_exists fun b => meets_and ?_
    rintro rfl
    refine Meets.bind (storeNext_meets hcfg (.block b)) fun _ => ?_
    have hne : CharPtr.block b ≠ .null := by simp
    rw [if_neg hne]
    have hcount : Meets
        (Resources.Is ({(c, .configuration cfg')} + (arrayCells a (owned ++ [(b, arg)]) 0 + rest)) dead d)
        (C.store (some c) (.configuration { cfg' with argcOwned := cfg.argcOwned + 1 }))
        fun _ => Resources.Is ({(c, .configuration { cfg' with argcOwned := cfg.argcOwned + 1 })} +
          (arrayCells a (owned ++ [(b, arg)]) 0 + rest)) dead d := C.store_meets _
    refine Meets.bind (hcount.pre fun w h => h.cells_eq ?_) fun _ => meets_pure fun w h =>
      ⟨cfg.argcOwned + 1, [(b, arg)], 0, ?_, rfl, h⟩
    · rw [arrayCells_concat]
      ac_rfl
    · simp [TorMainConfiguration.Counts, hcfg]

theorem cfgAddOwnedArg_meets (hcfg : cfg.Counts owned) (arg : String) (ans : AddAnswers) :
    Meets (Resources.Is (confCells c cfg owned pad + rest) dead d) (cfgAddOwnedArg (some c) arg ans)
      fun _ w => ∃ argcOwned argvOwned new pad',
        TorMainConfiguration.Counts { cfg with argcOwned, argvOwned } (owned ++ new) ∧
        new.texts = ans.added arg ∧
        w.Is (confCells c { cfg with argcOwned, argvOwned } (owned ++ new) pad' + rest) dead d := by
  refine Meets.bindEq loadConfCells_meets ?_
  cases hrealloc : ans.realloc with
  | false =>
    refine Meets.bindEq (realloc_null_meets _ _) ?_
    refine meets_pure fun w h => ⟨cfg.argcOwned, cfg.argvOwned, [], pad, ?_, ?_, ?_⟩
    · rw [List.append_nil]
      exact hcfg
    · simp [AddAnswers.added, hrealloc, Strings.texts]
    · rw [List.append_nil]
      exact h
  | true =>
    let more := cfg.argvOwned.elim 0 fun a => arrayCells a owned pad
    have hgrow : Meets (Resources.Is (confCells c cfg owned pad + rest) dead d)
        (realloc cfg.argvOwned (cfg.argcOwned + 1) true)
        fun q w => ∃ a, q = some a ∧
          w.Is ({(c, .configuration cfg)} + (arrayCells a owned 1 + rest)) dead d := by
      rw [hcfg.1]
      refine Meets.mono (P := Resources.Is (more + ({(c, .configuration cfg)} + rest)) dead d)
        (realloc_meets hcfg.2) (fun w h => h.cells_eq ?_) fun q w ⟨a, hq, h⟩ => ⟨a, hq, h.cells_eq ?_⟩
      · change {(c, .configuration cfg)} + more + rest = more + ({(c, .configuration cfg)} + rest)
        ac_rfl
      · ac_rfl
    refine Meets.bind hgrow fun q => meets_exists fun a => meets_and ?_
    rintro rfl
    refine (cfgStoreOwnedArg_meets hcfg.1 arg ans.strdup).post ?_
    intro r w ⟨n, new, pad', hcounts, hnew, h⟩
    refine ⟨n, some a, new, pad', hcounts, ?_, h.cells_eq (add_assoc _ _ _).symm⟩
    simpa [AddAnswers.added, hrealloc] using hnew

/-- A second control socket is refused, and so is one that the kernel has no pair for. -/
theorem setupControlSocket_refused_meets {ans : SocketAnswers}
    (h : 0 ≤ cfg.owningControllerSocket ∨ ans.socketpair = none) :
    Meets (Resources.Is (confCells c cfg owned pad + rest) dead d)
      (torMainConfigurationSetupControlSocket (some c) ans)
      fun r w => r = -1 ∧ w.Is (confCells c cfg owned pad + rest) dead d := by
  refine Meets.bindEq loadConfCells_meets ?_
  by_cases hsocket : 0 ≤ cfg.owningControllerSocket
  · rw [if_pos hsocket]
    exact meets_pure fun w hw => ⟨rfl, hw⟩
  · rw [if_neg hsocket, h.resolve_left hsocket]
    exact meets_pure fun w hw => ⟨rfl, hw⟩

/-- What the two calls of `cfg_add_owned_arg` add for the number `fd`. -/
def SocketAnswers.added (ans : SocketAnswers) (fd : ℕ) : List String :=
  ans.name.added owningControllerFD ++ ans.number.added (toString fd)

theorem setupControlSocket_meets {ans : SocketAnswers} {fd0 fd1 : ℕ}
    (hsocket : cfg.owningControllerSocket < 0) (hcfg : cfg.Counts owned)
    (hans : ans.socketpair = some (fd0, fd1)) :
    Meets (Resources.Is (confCells c cfg owned pad + rest) dead d)
      (torMainConfigurationSetupControlSocket (some c) ans)
      fun r w => r = fd0 ∧ ∃ argcOwned argvOwned new pad',
        TorMainConfiguration.Counts { cfg with argcOwned, argvOwned } (owned ++ new) ∧
        new.texts = ans.added fd1 ∧
        w.Is (confCells c { cfg with argcOwned, argvOwned, owningControllerSocket := fd1 }
          (owned ++ new) pad' + rest) dead ((d.openAt fd0 (.goEnd c)).openAt fd1 (.torEnd c)) := by
  refine Meets.bindEq loadConfCells_meets ?_
  have hnot : ¬ 0 ≤ cfg.owningControllerSocket := by omega
  rw [if_neg hnot, hans]
  refine Meets.bind (C.openAt_meets _) fun _ => Meets.bind (C.openAt_meets _) fun _ => ?_
  refine Meets.bind (cfgAddOwnedArg_meets hcfg _ _) fun _ => meets_exists fun m => meets_exists
    fun p => meets_exists fun new => meets_exists fun pad' => meets_and fun hcfg' => meets_and ?_
  intro hnew
  refine Meets.bind (cfgAddOwnedArg_meets hcfg' _ _) fun _ => meets_exists fun m' => meets_exists
    fun p' => meets_exists fun new' => meets_exists fun pad'' => meets_and fun hcfg'' => meets_and ?_
  intro hnew'
  refine Meets.bindEq loadConfCells_meets (Meets.bind (storeConfCells_meets rfl) fun _ => ?_)
  refine meets_pure fun w h => ⟨rfl, m', p', new ++ new', pad'', ?_, ?_, ?_⟩
  · rw [← List.append_assoc]
    exact hcfg''
  · rw [Strings.texts_append, hnew, hnew']
    rfl
  · rw [← List.append_assoc]
    exact h

theorem freeOwned_meets (hcfg : cfg.Counts owned) :
    Meets (Resources.Is (confCells c cfg owned pad + rest) dead d) (freeOwned cfg)
      fun _ => Resources.Is ({(c, .configuration cfg)} + rest) dead d := by
  unfold freeOwned confCells
  cases hargv : cfg.argvOwned with
  | none => exact meets_pure fun w h => h.cells_eq (by rw [Option.elim_none, add_zero])
  | some a =>
    dsimp only
    rw [hcfg.1]
    refine Meets.pre (P := Resources.Is (arrayCells a owned pad + ({(c, .configuration cfg)} + rest))
      dead d) freeArray_meets ?_
    intro w h
    exact h.cells_eq (by rw [Option.elim_some]; ac_rfl)

/-- What `tor_main_configuration_free` closes. -/
def closeSocket (d : Descriptors FdObject) (socket : ℤ) :
    Descriptors FdObject :=
  if 0 ≤ socket then d.close socket.toNat else d

theorem closeOwned_meets : Meets (Resources.Is rest dead d) (closeOwned cfg)
    fun _ => Resources.Is rest dead (closeSocket d cfg.owningControllerSocket) := by
  unfold closeOwned closeSocket
  split_ifs
  · exact C.close_meets
  · exact meets_pure fun w h => h

theorem torMainConfigurationFree_meets (hcfg : cfg.Counts owned) :
    Meets (Resources.Is (confCells c cfg owned pad + rest) dead d) (torMainConfigurationFree (some c))
      fun _ => Resources.Is rest (c :: dead) (closeSocket d cfg.owningControllerSocket) :=
  Meets.bindEq loadConfCells_meets (Meets.bind (freeOwned_meets hcfg) fun _ =>
    Meets.bind closeOwned_meets fun _ => C.free_meets)

/-- The pointers of an array, without its padding. -/
theorem copyArray_meets {l : Strings} : Meets (Resources.Is (arrayCells a l pad + rest) dead d)
    (copyPointers (some a) l.length)
    fun xs w => xs = l.slots ∧ w.Is (arrayCells a l pad + rest) dead d := by
  have hlen : l.length ≤ (l.slots ++ List.replicate pad CharPtr.null).length := by simp
  have htake : (l.slots ++ List.replicate pad CharPtr.null).take l.length = l.slots := by
    rw [← l.length_slots, List.take_left]
  have hcells : arrayCells a l pad + rest =
      {(a, .pointers (l.slots ++ List.replicate pad .null))} + (l.cells + rest) := add_assoc _ _ _
  rw [hcells]
  exact (copyPointers_meets hlen).post fun xs w h => ⟨h.1.trans htake, h.2⟩

theorem copyOwned_meets (hcfg : cfg.Counts owned) :
    Meets (Resources.Is (confCells c cfg owned pad + rest) dead d) (copyOwned cfg)
      fun xs w => xs = owned.slots ∧ w.Is (confCells c cfg owned pad + rest) dead d := by
  unfold copyOwned
  by_cases hzero : cfg.argcOwned = 0
  · have hnil : owned = [] := List.length_eq_zero_iff.mp (hcfg.1.symm.trans hzero)
    rw [if_pos hzero, hnil]
    exact meets_pure fun w h => ⟨rfl, h⟩
  · rw [if_neg hzero]
    cases hargv : cfg.argvOwned with
    | none =>
      have hnil := hcfg.2 hargv
      exact absurd (hcfg.1.trans (by rw [hnil]; rfl)) hzero
    | some a =>
      have hcells : confCells c cfg owned pad + rest =
          arrayCells a owned pad + ({(c, .configuration cfg)} + rest) := by
        rw [confCells, hargv, Option.elim_some]
        ac_rfl
      rw [hcells, hcfg.1]
      exact copyArray_meets

/-- Tor's own array points to the strings of both vectors, in their order. -/
theorem torRunMainArgv_meets {argv : Strings} (hcfg : cfg.Counts owned) (hargc : cfg.argc = argv.length)
    (hargv : cfg.argv = .given (some a)) (hmax : (argv.length : ℤ) + owned.length ≤ intMax) :
    Meets (Resources.Is (confCells c cfg owned pad + (arrayCells a argv 0 + rest)) dead d)
      (torRunMainArgv (some c))
      fun p w => ∃ v, p = some v ∧ w.Is ({(v, .pointers (argv.slots ++ owned.slots))} +
        (confCells c cfg owned pad + (arrayCells a argv 0 + rest))) dead d := by
  have hfits : ¬ intMax < cfg.argc + cfg.argcOwned := by
    rw [hargc, hcfg.1]
    omega
  have hcopy : Meets (Resources.Is (confCells c cfg owned pad + (arrayCells a argv 0 + rest)) dead d)
      (copyArgv cfg)
      fun xs w => xs = argv.slots ∧
        w.Is (confCells c cfg owned pad + (arrayCells a argv 0 + rest)) dead d := by
    rw [copyArgv, hargv, hargc, add_left_comm]
    exact copyArray_meets
  refine Meets.bindEq loadConfCells_meets ?_
  rw [if_neg hfits]
  exact Meets.bindEq hcopy (Meets.bindEq (copyOwned_meets hcfg) (C.malloc_meets _))

end Specs

end GoLibtor
