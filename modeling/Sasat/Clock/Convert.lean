import Sasat.Clock.Cpuinfo
import Sasat.Log.Format

/-!
# Time stamps

A time stamp counts the cycles of the processor. It is divided by the clock rate, the global
variable `cpu_mhz` that `main` sets to the result of `tsc_cycle_init`, before anything else is
initialised.

* `getUs`, `getMs`, `getSec`: the conversions of `util_inline.h`, which fault for a rate of zero.
* `getTimeMhz`: `get_time` of the log, with this conversion in place of the parameter `Clock.getMs`.
* `garpFrame`, `sendGarp`: the gratuitous ARP requests of `arp_proc.c`.
* `NeverDivides`: none of them divides by zero; **`neverDivides_iff`**: the rate is not zero.
* **`clock_safe_iff`**: when the rate that `tsc_cycle_init` returns is safe to divide by.
* **`clock_stopped`**: a file that says `0.000`.
-/

namespace Sasat

open Outcome

/-- `get_us`. -/
def getUs (cpuMhz tsc : BitVec 64) : ClockM (BitVec 64) :=
  if cpuMhz = 0 then .error .divide else .ok (tsc / cpuMhz)

/-- `get_ms`. -/
def getMs (cpuMhz tsc : BitVec 64) : ClockM (BitVec 64) := do
  let us ← getUs cpuMhz tsc
  .ok (us / 1000)

/-- `get_sec`. -/
def getSec (cpuMhz tsc : BitVec 64) : ClockM (BitVec 32) := do
  let ms ← getMs cpuMhz tsc
  .ok ((ms / 1000).setWidth 32)

/-- `get_time`. -/
def getTimeMhz (cpuMhz : BitVec 64) (c : Clock) (start curr ssec : BitVec 64) : ClockM Text := do
  let ms ← getMs cpuMhz (curr - start)
  .ok (getTime { c with getMs := fun _ => ms } start curr ssec)

/-- The frame of `send_garp`: an ARP request from the interface for its own address. -/
def garpFrame (ifd : Ifdata) : List Byte :=
  let bmac : Mac := fun _ => 0xff
  let b : Buf := fun _ => 0
  let b := store b 0 bmac
  let b := store b 6 ifd.mac
  let b := store b 12 ![0x08, 0x06]
  let b := store b 14 arphdrTmpl
  let b := store b 22 ifd.mac
  let b := store b 28 ifd.sip4
  let b := store b 32 bmac
  let b := store b 38 ifd.sip4
  frame b 42

/-- `send_garp` at the time `ctime`: the new `*start_time`, and what it writes to which socket. -/
def sendGarp (cpuMhz ctime : BitVec 64) (ifd : Ifdata) (startTime : BitVec 64)
    (interval : BitVec 32) : ClockM (BitVec 64 × Option (ℕ × List Byte)) :=
  if ctime ≤ startTime then .ok (ctime, none)
  else do
    let diffSec ← getSec cpuMhz (ctime - startTime)
    if interval ≤ diffSec then .ok (ctime, some (ifd.sockfd, garpFrame ifd))
    else .ok (startTime, none)

/-- No conversion divides by zero. -/
structure NeverDivides (cpuMhz : BitVec 64) : Prop where
  us : ∀ tsc, Avoids (· = .divide) (getUs cpuMhz tsc)
  ms : ∀ tsc, Avoids (· = .divide) (getMs cpuMhz tsc)
  sec : ∀ tsc, Avoids (· = .divide) (getSec cpuMhz tsc)
  time : ∀ c start curr ssec, Avoids (· = .divide) (getTimeMhz cpuMhz c start curr ssec)
  garp : ∀ ctime ifd startTime interval,
    Avoids (· = .divide) (sendGarp cpuMhz ctime ifd startTime interval)

/-- `tsc_cycle_init` returns a rate of at least 1, by which nothing divides by zero. -/
def ClockSafe (r : ClockM (BitVec 64)) : Prop :=
  ∃ cpuMhz, r = .ok cpuMhz ∧ 1 ≤ cpuMhz.toNat ∧ NeverDivides cpuMhz

section

variable {cpuMhz : BitVec 64}

/-! ## The conversions -/

theorem getMs_ok (h : cpuMhz ≠ 0) (tsc : BitVec 64) :
    getMs cpuMhz tsc = .ok (tsc / cpuMhz / 1000) := by
  rw [getMs, getUs, if_neg h]
  rfl

theorem getSec_ok (h : cpuMhz ≠ 0) (tsc : BitVec 64) :
    getSec cpuMhz tsc = .ok ((tsc / cpuMhz / 1000 / 1000).setWidth 32) := by
  rw [getSec, getMs_ok h]
  rfl

theorem getTimeMhz_ok (h : cpuMhz ≠ 0) (c : Clock) (start curr ssec : BitVec 64) :
    getTimeMhz cpuMhz c start curr ssec =
      .ok (getTime { c with getMs := fun tsc => tsc / cpuMhz / 1000 } start curr ssec) := by
  rw [getTimeMhz, getMs_ok h]
  rfl

theorem neverDivides_iff : NeverDivides cpuMhz ↔ cpuMhz ≠ 0 := by
  constructor
  · rintro h rfl
    exact h.us 0 .divide rfl rfl
  · intro h
    have hsec : ∀ tsc, Avoids (· = .divide) (getSec cpuMhz tsc) := fun tsc => by
      rw [getSec_ok h]
      exact avoids_ok _
    constructor
    · intro tsc
      rw [getUs, if_neg h]
      exact avoids_ok _
    · intro tsc
      rw [getMs_ok h]
      exact avoids_ok _
    · exact hsec
    · intro c start curr ssec
      rw [getTimeMhz_ok h]
      exact avoids_ok _
    · intro ctime ifd startTime interval
      exact .ite (avoids_ok _) ((hsec _).bind fun _ => .ite (avoids_ok _) (avoids_ok _))

/-- **The clock rate is safe to divide by** exactly if the first line for the key, if there is one,
has a colon and a number from 1 to below 2^64 behind it. -/
theorem clock_safe_iff (fp : Option File) (buf : Buf) :
    ClockSafe (tscCycleInit fp buf) ↔ ∀ f, fp = some f → GoodInfo buf (cpuinfoLines f) := by
  rw [← tscCycleInit_iff]
  constructor
  · rintro ⟨cpuMhz, h, hpos, -⟩
    exact ⟨cpuMhz, h, hpos⟩
  · rintro ⟨cpuMhz, h, hpos⟩
    refine ⟨cpuMhz, h, hpos, neverDivides_iff.mpr ?_⟩
    rintro rfl
    exact absurd hpos (by decide)

end

/-- The line `cpu MHz`, with `tail` behind it. -/
def cpuLine (tail : List Byte) : List Byte := cpuKey ++ tail ++ [newline]

/-- **A processor of `0.000` MHz**: the rate is 0, and the first `send_garp` divides by it. Without
a colon the function does not return. -/
theorem clock_stopped :
    (∀ buf, tscCycleInit (some (fopen (cpuLine [9, 9, 58, 32, 48, 46, 48, 48, 48]) false)) buf =
      .ok 0) ∧
    (∀ ctime ifd, 0 < ctime → sendGarp 0 ctime ifd 0 40 = .error .divide) ∧
    (∀ buf, tscCycleInit (some (fopen (cpuLine []) false)) buf = .error .null) ∧
    ¬ ∀ (bytes : List Byte) (buf : Buf),
      ClockSafe (tscCycleInit (some (fopen bytes false)) buf) := by
  have hzero : ∀ buf, tscCycleInit
      (some (fopen (cpuLine [9, 9, 58, 32, 48, 46, 48, 48, 48]) false)) buf = .ok 0 := fun buf => by
    have hdec : decimal [48, 46, 48, 48, 48, 10] = 0 := by decide +kernel
    have hrun := @tscCycleInit_line [48, 46, 48, 48, 48, 10]
      (cpuLine [9, 9, 58, 32, 48, 46, 48, 48, 48]) (cpuKey ++ [9, 9]) 32 [] [] (by decide) rfl
      (by simp) (List.prefix_append _ _) (by decide) (by decide) buf
    rw [hrun, hdec]
    rfl
  refine ⟨hzero, ?_, ?_, ?_⟩
  · intro ctime ifd hpos
    rw [sendGarp, if_neg (BitVec.not_le.mpr hpos)]
    rfl
  · intro buf
    have hlines := cpuinfoLines_eq (fopen (cpuLine []) false) rfl (by decide)
    have hloop := @cpuinfoLoop_key buf _ (cpuLine []) [] [] (hlines.trans rfl) (by simp)
      (by decide)
    change cpuinfoLoop buf _ >>= toUint64 = _
    rw [hloop]
    rfl
  · intro h
    obtain ⟨cpuMhz, hrun, hpos, -⟩ := h _ fun _ => 0
    rw [hzero] at hrun
    cases hrun
    exact absurd hpos (by decide)

end Sasat
