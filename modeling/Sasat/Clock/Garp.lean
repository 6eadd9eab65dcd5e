import Sasat.Clock.Convert

/-!
# Gratuitous ARP

The command thread calls `send_garp` before it waits for a command, and again after every command or
timeout.

* `seconds`: `get_sec` for a rate that is not zero.
* `garpTurns`: the turns of the command thread at given times, with the times of the requests that
  are sent.
* **`garp_turns_spec`**: with a clock that does not go back, two requests are never closer than the
  interval, and no turn passes after the interval without one.
-/

namespace Sasat

open Outcome List

def seconds (cpuMhz tsc : BitVec 64) : BitVec 32 := (tsc / cpuMhz / 1000 / 1000).setWidth 32

/-- `timeout_init` at each of the times `ts`: the new `start_time`, and what is written when. -/
def garpTurns (cpuMhz : BitVec 64) (ifd : Ifdata) (interval : BitVec 32) :
    List (BitVec 64) → BitVec 64 → ClockM (BitVec 64 × List (BitVec 64 × ℕ × List Byte))
  | [], startTime => .ok (startTime, [])
  | t :: ts, startTime => do
    let (startTime, x) ← sendGarp cpuMhz t ifd startTime interval
    let (startTime, sent) ← garpTurns cpuMhz ifd interval ts startTime
    .ok (startTime, x.toList.map (fun w => (t, w)) ++ sent)

section

variable {cpuMhz : BitVec 64} {ifd : Ifdata} {interval : BitVec 32}

theorem getSec_eq (h : cpuMhz ≠ 0) (tsc : BitVec 64) :
    getSec cpuMhz tsc = .ok (seconds cpuMhz tsc) := by
  rw [getSec, getMs, getUs, if_neg h]
  rfl

theorem sendGarp_eq (h : cpuMhz ≠ 0) (ctime startTime : BitVec 64) :
    sendGarp cpuMhz ctime ifd startTime interval = .ok
      (if ctime ≤ startTime then (ctime, none)
      else if interval ≤ seconds cpuMhz (ctime - startTime) then
        (ctime, some (ifd.sockfd, garpFrame ifd))
      else (startTime, none)) := by
  rw [sendGarp, getSec_eq h]
  by_cases hle : ctime ≤ startTime
  · rw [if_pos hle, if_pos hle]
  · rw [if_neg hle, if_neg hle]
    change (if interval ≤ seconds cpuMhz (ctime - startTime) then _ else _) = _
    split_ifs <;> rfl

/-- **Requests are neither too close nor too late.** -/
theorem garp_turns_spec (h : cpuMhz ≠ 0) : ∀ {ts : List (BitVec 64)} {startTime : BitVec 64},
    (startTime :: ts).Pairwise (· ≤ ·) → ∃ s sent,
      garpTurns cpuMhz ifd interval ts startTime = .ok (s, sent) ∧
        (∀ x ∈ sent, x.2 = (ifd.sockfd, garpFrame ifd)) ∧ sent.map Prod.fst <+ ts ∧
          (startTime :: sent.map Prod.fst).IsChain
            (fun t t' => t < t' ∧ interval ≤ seconds cpuMhz (t' - t)) ∧
          ∀ t ∈ ts, ∃ t₀ ∈ startTime :: sent.map Prod.fst, t₀ ≤ t ∧
            (t = t₀ ∨ seconds cpuMhz (t - t₀) < interval) := by
  intro ts
  induction ts with
  | nil =>
    intro startTime _
    exact ⟨startTime, [], rfl, nofun, .slnil, .singleton _, nofun⟩
  | cons t ts ih =>
    intro startTime hsort
    have hle : startTime ≤ t := rel_of_pairwise_cons hsort mem_cons_self
    have hsort₀ : (startTime :: ts).Pairwise (· ≤ ·) :=
      hsort.sublist (.cons_cons _ (sublist_cons_self _ _))
    rw [garpTurns, sendGarp_eq h]
    by_cases hnow : t ≤ startTime
    · -- the clock stands
      obtain rfl : t = startTime := BitVec.le_antisymm hnow hle
      obtain ⟨s, sent, hrun, hbytes, hsub, hchain, hturns⟩ := ih hsort₀
      rw [if_pos hnow]
      refine ⟨s, sent, ?_, hbytes, hsub.cons _, hchain, fun t' ht' => ?_⟩
      · change garpTurns cpuMhz ifd interval ts t >>= _ = _
        rw [hrun]
        rfl
      · rcases mem_cons.mp ht' with rfl | ht'
        · exact ⟨t', mem_cons_self, BitVec.le_refl _, .inl rfl⟩
        · exact hturns t' ht'
    · rw [if_neg hnow]
      by_cases hdue : interval ≤ seconds cpuMhz (t - startTime)
      · obtain ⟨s, sent, hrun, hbytes, hsub, hchain, hturns⟩ := ih (pairwise_cons.mp hsort).2
        rw [if_pos hdue]
        refine ⟨s, (t, ifd.sockfd, garpFrame ifd) :: sent, ?_, forall_mem_cons.mpr ⟨rfl, hbytes⟩,
          hsub.cons_cons _, .cons_cons ⟨BitVec.not_le.mp hnow, hdue⟩ hchain, fun t' ht' => ?_⟩
        · change garpTurns cpuMhz ifd interval ts t >>= _ = _
          rw [hrun]
          rfl
        · rcases mem_cons.mp ht' with rfl | ht'
          · exact ⟨t', mem_cons_of_mem _ mem_cons_self, BitVec.le_refl _, .inl rfl⟩
          · obtain ⟨t₀, ht₀, h₀⟩ := hturns t' ht'
            exact ⟨t₀, mem_cons_of_mem _ ht₀, h₀⟩
      · obtain ⟨s, sent, hrun, hbytes, hsub, hchain, hturns⟩ := ih hsort₀
        rw [if_neg hdue]
        refine ⟨s, sent, ?_, hbytes, hsub.cons _, hchain, fun t' ht' => ?_⟩
        · change garpTurns cpuMhz ifd interval ts startTime >>= _ = _
          rw [hrun]
          rfl
        · rcases mem_cons.mp ht' with rfl | ht'
          · exact ⟨startTime, mem_cons_self, hle, .inr (BitVec.not_le.mp hdue)⟩
          · exact hturns t' ht'

end

/-- An interface with the address `10.0.0.9`. -/
def garpIf : Ifdata :=
  ⟨3, ![2, 0, 0, 0, 0, 1], true, false, 0, ![10, 0, 0, 9], ![10, 0, 0, 1], 0, 0⟩

/-- At 1 GHz, 50 and 60 seconds after the start: one request. -/
theorem garp_turns_spec_minute : ∃ s sent,
    garpTurns 1000 garpIf 40 [50000000000, 60000000000] 0 = .ok (s, sent) ∧
      sent.map Prod.fst <+ [50000000000, 60000000000] ∧
        ∀ x ∈ sent, x.2 = (3, garpFrame garpIf) := by
  obtain ⟨s, sent, hrun, hbytes, hsub, -⟩ := garp_turns_spec (show (1000 : BitVec 64) ≠ 0 by decide)
    (show ([0, 50000000000, 60000000000] : List (BitVec 64)).Pairwise (· ≤ ·) by decide)
  exact ⟨s, sent, hrun, hsub, hbytes⟩

end Sasat
