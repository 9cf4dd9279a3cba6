import GoLibtor.Build.Complete
import GoLibtor.Build.Footprint

/-! The headers that the preambles make every compilation include. They are written by hand, and
one of them lies in a folder that each run removes. -/
namespace GoLibtor

open Text Files Transition Program

/-- The files, from the root of the repository, that a preamble names after `-include`. -/
def forcedIncludes (text : Str) : List Path :=
  (splitOn text '\n').filterMap fun line =>
    let flag := "#cgo CFLAGS: -include ${SRCDIR}/../".toList
    if flag.isPrefixOf line then some (splitOn (line.drop flag.length) '/') else none

def opensslExtra : Path := ["openssl_config".toList, "gotor_extra.h".toList]

def torExtra : Path := ["tor_config".toList, "gotor_extra.h".toList]

section

variable {σ : Type} {m : Machine σ} {pk : Packages} {o : Options}

/-- A removal of a folder that succeeds leaves nothing of it. -/
theorem removeAll_ok {p : Path} {w w' : World σ} {vs : List Event}
    (h : Returns (removeAll m p) w none w' vs) {q : Path} (hq : p <+: q) : get w'.files q = none := by
  obtain ⟨d, -, hd, rfl, -⟩ := act_returns.mp h
  cases d with
  | some d => cases hd
  | none => exact (get_removeAll w.files p _ q).trans (if_pos ⟨hq, rfl⟩)

theorem opensslConfig_below {p : Path} (hp : p.head? = some "openssl_config".toList) :
    ["openssl_config".toList] <+: p := by
  cases p with
  | nil => cases hp
  | cons top rest =>
    obtain rfl := Option.some.inj hp
    exact List.prefix_append _ rest

/-- The function of OpenSSL leaves nothing in its folder but what it writes there. -/
theorem injectOpenSSL_rebuilds {tgtf : Path} {date : Str} {versionData : Fields} {w w' : World σ}
    {u : PUnit} {vs : List Event} (h : Returns (injectOpenSSL m pk tgtf date versionData) w u w' vs)
    {p : Path} (hp : p.head? = some "openssl_config".toList)
    (hfree : ∀ q ∈ opensslConfigured, ¬ q <+: p) : get w'.files p = none := by
  obtain ⟨err, s, us, _, hremove, h₁, rfl⟩ := bind_returns.mp h
  obtain ⟨_, t, us', _, hcheck, h₂, rfl⟩ := bind_returns.mp h₁
  obtain ⟨rfl, rfl, rfl⟩ := check_returns.mp hcheck
  have hlinux : p.head? ≠ some linux := by
    rw [hp]
    decide
  have hstaged : ¬ staged <+: p := not_prefix_of_head rfl (by rw [hp]; decide)
  have hkeep : get w'.files p = get t.files p :=
    Along.returns (Confined.keeps (confined_fillConfiguration fun _ hq => hq) hfree hlinux hstaged) h₂
  exact hkeep.trans (removeAll_ok hremove (opensslConfig_below hp))

/-- And the preamble is there as it was written. -/
theorem wrapOpenSSL_leaves {lock : Option LockJson} {w w' : World σ} {a : Str × Str} {vs : List Event}
    (h : Returns (wrapOpenSSL m pk o linux lock) w a w' vs) :
    get w'.files (wrapperPath linux .openssl preambleFile) =
        some (opensslPreamble (targetFilters linux) linux) ∧
      ∀ p : Path, p.head? = some "openssl_config".toList →
        (∀ q ∈ opensslConfigured, ¬ q <+: p) → get w'.files p = none := by
  obtain ⟨date, versionData, deps, s, t, u, _, _, _, _, _, _, hwrite, hinject, _, _⟩ :=
    wrapOpenSSL_returns h
  refine ⟨?_, fun p hp hfree => injectOpenSSL_rebuilds hinject hp hfree⟩
  obtain ⟨_, _, _, _, hpreamble, _⟩ := writeAll_returns.mp hwrite
  obtain ⟨err, r, _, _, hfile, hcheck, _⟩ := bind_returns.mp hpreamble
  obtain ⟨rfl, rfl, _⟩ := check_returns.mp hcheck
  have hwritten : get u.files (wrapperPath linux .openssl preambleFile) =
      some (opensslPreamble (targetFilters linux) linux) := by
    rw [writeFile_ok hfile, get_put]
    exact if_pos rfl
  rw [← hwritten]
  have houtside : ∀ r, r.head? = some "openssl_config".toList →
      ¬ r <+: wrapperPath linux .openssl preambleFile :=
    fun r hr => not_prefix_of_head hr (by decide)
  have hconfined : Confined m (fun r => r.head? = some "openssl_config".toList)
      (injectOpenSSL m pk Library.openssl.folder date versionData) :=
    .bind (confined_change _ rfl rfl) fun err => .bind (confined_check err) fun _ =>
      confined_fillConfiguration fun _ hq => opensslConfigured_head hq
  exact Along.returns (hconfined.keeps houtside (by decide) (not_prefix_of_head rfl (by decide))) hinject

end

/-- When `main` completes, it has removed the header that OpenSSL's preamble, which it has written,
makes every compilation include. It leaves nothing in `openssl_config` but what it writes there,
and Tor's header, which the preamble of Tor asks for in the same way, as it was. -/
theorem forced_header_lost {σ : Type} {m : Machine σ} {pk : Packages} {o : Options} {w w' : World σ}
    {v : Versions} {vs : List Event} (h : Returns (main m pk o) w v w' vs) :
    (∃ text, get w'.files (wrapperPath linux .openssl preambleFile) = some text ∧
      opensslExtra ∈ forcedIncludes text) ∧
    get w'.files opensslExtra = none ∧
    (∀ p : Path, p.head? = some "openssl_config".toList → get w'.files p ≠ none →
      ∃ q ∈ opensslConfigured, q <+: p) ∧
    get w'.files torExtra = get w.files torExtra ∧
    (Undisturbed vs → ∃ text, get w'.files (wrapperPath linux .tor preambleFile) = some text ∧
      torExtra ∈ forcedIncludes text) := by
  obtain ⟨_, _, _, _, hlib, _, hkeep⟩ := main_wrapped h .openssl
  obtain ⟨hpreamble, hrebuilt⟩ := wrapOpenSSL_leaves hlib
  have hfolder : ∀ p : Path, p.head? = some "openssl_config".toList → get w'.files p ≠ none →
      ∃ q ∈ opensslConfigured, q <+: p := by
    intro p hp hne
    by_contra hfree
    push Not at hfree
    exact hne ((hkeep p (Or.inr hp)).trans (hrebuilt p hp hfree))
  refine ⟨⟨_, (hkeep _ (Or.inl ⟨_, rfl⟩)).trans hpreamble, by decide +kernel⟩, ?_, hfolder, ?_, ?_⟩
  · by_contra hne
    obtain ⟨q, hq, hbelow⟩ := hfolder opensslExtra rfl hne
    revert hbelow
    revert q
    decide +kernel
  · have hreach : OutOfReach o torExtra := by
      refine ⟨by decide +kernel, ?_, fun _ => by decide +kernel⟩
      intro lib gofile
      exact not_prefix_of_head rfl (by decide)
    exact Along.returns (confined_main.keeps (fun _ hr => hreach.not_below hr) hreach.head_ne hreach.not_staged) h
  · intro hvs
    obtain ⟨_, _, _, _, htor, hsub, hkeepTor⟩ := main_wrapped h .tor
    obtain ⟨wrappers, _, fs, _, _, hlibtor, _⟩ := wrap_written htor (hvs.mono hsub)
    refine ⟨torPreamble (targetFilters linux) linux, ?_, by decide +kernel⟩
    rw [hkeepTor _ (Or.inl ⟨_, rfl⟩), hlibtor]
    exact preamble_written fs .tor wrappers

/-- The small example, with both headers before the run. -/
theorem forced_header_lost_small : ∃ v w' vs, Returns (main (upstreams small) plain (onLinux true))
      ⟨(), [(opensslExtra, "#define DSO_EXTENSION
".toList), (torExtra, "#include <endian.h>
".toList)]⟩
      v w' vs ∧
    get w'.files opensslExtra = none ∧ get w'.files torExtra = some "#include <endian.h>
".toList := by
  have hresult : ((main (upstreams small) plain (onLinux true)).run
      ⟨(), [(opensslExtra, "#define DSO_EXTENSION
".toList), (torExtra, "#include <endian.h>
".toList)]⟩).result =
        .ok smallVersions := by
    decide +kernel
  have hmain := returns_of_result hresult
  obtain ⟨-, hlost, -, hkept, -⟩ := forced_header_lost hmain
  exact ⟨_, _, _, hmain, hlost, hkept.trans (by decide +kernel)⟩

end GoLibtor
