import Sasat.Common.Checksum

/-!
# The IPv4 header checksum under translation

A header is the list of its 16-bit words in host order: word `5` is `ip_sum`, words `8` and `9`
are `ip_dst`. Both translators replace the destination and update the checksum by a delta that
depends on the two addresses only.

* `rewriteDst`, `translate`: the rewritten header, with any checksum and with the code's.
* `restSum`: the sum of the words that translation leaves alone; `wordSum_rewriteDst`.
* **`translate_valid_iff`**: the update preserves validity in both directions.
* **`translate_standard`**: it writes the standard checksum, up to the encoding of zero.
-/

namespace Sasat

open OnesComplement

def hiWord (a : InAddr) : BitVec 16 := ntohs (le16 ![a 0, a 1])

def loWord (a : InAddr) : BitVec 16 := ntohs (le16 ![a 2, a 3])

theorem toNat_hiWord (a : InAddr) : (hiWord a).toNat = 256 * (a 0).toNat + (a 1).toNat :=
  toNat_ntohs_le16 _

theorem toNat_loWord (a : InAddr) : (loWord a).toNat = 256 * (a 2).toNat + (a 3).toNat :=
  toNat_ntohs_le16 _

theorem addrSum_eq (a : InAddr) : addrSum a = (hiWord a).toNat + (loWord a).toNat := by
  rw [toNat_hiWord, toNat_loWord, addrSum]

/-- The destination field of the header `ws` is `a`. -/
def HasDst (ws : List (BitVec 16)) (a : InAddr) : Prop :=
  ws[8]? = some (hiWord a) ∧ ws[9]? = some (loWord a)

/-- The header `ws` has a word other than zero besides its checksum and destination. -/
def HasOther (ws : List (BitVec 16)) : Prop :=
  ∃ i w, i ≠ 5 ∧ i ≠ 8 ∧ i ≠ 9 ∧ ws[i]? = some w ∧ w ≠ 0

def ipSum (ws : List (BitVec 16)) : BitVec 16 := ws.getD 5 0

/-- The header `ws` with another destination and checksum. -/
def rewriteDst (ws : List (BitVec 16)) (dst : InAddr) (sum : BitVec 16) : List (BitVec 16) :=
  ((ws.set 8 (hiWord dst)).set 9 (loWord dst)).set 5 sum

/-- The header that a translator writes. -/
def translate (ws : List (BitVec 16)) (old new : InAddr) : List (BitVec 16) :=
  rewriteDst ws new (add16forCheckSum (ipSum ws) (calcChksumDelta old new))

/-- The standard header checksum: of the header with its checksum field taken as zero. -/
def stdChecksum (ws : List (BitVec 16)) : BitVec 16 := checksum (ws.set 5 0)

/-- The sum of the words that translation leaves alone. -/
def restSum (ws : List (BitVec 16)) : ℕ := wordSum (((ws.set 8 0).set 9 0).set 5 0)

variable {ws : List (BitVec 16)} {old new dst : InAddr} {sum : BitVec 16}

theorem HasDst.length (h : HasDst ws dst) : 10 ≤ ws.length :=
  (List.getElem?_eq_some_iff.mp h.2).1

/-! ## Sums -/

theorem wordSum_set : ∀ (ws : List (BitVec 16)) {i : ℕ} (w : BitVec 16), i < ws.length →
    wordSum (ws.set i w) + (ws.getD i 0).toNat = wordSum ws + w.toNat
  | [], _, _, h => absurd h (Nat.not_lt_zero _)
  | v :: ws, 0, w, _ => by
    simp only [List.set_cons_zero, List.getD_cons_zero, wordSum_cons]
    omega
  | v :: ws, i + 1, w, h => by
    have := wordSum_set ws w (Nat.lt_of_succ_lt_succ h)
    simp only [List.set_cons_succ, List.getD_cons_succ, wordSum_cons]
    omega

theorem wordSum_rewriteDst (h : 10 ≤ ws.length) :
    wordSum (rewriteDst ws dst sum) = restSum ws + sum.toNat + addrSum dst := by
  have key : ∀ a b c : BitVec 16, wordSum (((ws.set 8 a).set 9 b).set 5 c) +
      ((ws.getD 8 0).toNat + (ws.getD 9 0).toNat + (ws.getD 5 0).toNat) =
        wordSum ws + a.toNat + b.toNat + c.toNat := by
    intro a b c
    have h8 := wordSum_set ws a (show 8 < ws.length by omega)
    have h9 := wordSum_set (ws.set 8 a) b (show 9 < _ by simp; omega)
    have h5 := wordSum_set ((ws.set 8 a).set 9 b) c (show 5 < _ by simp; omega)
    simp only [List.getD_eq_getElem?_getD, List.getElem?_set] at h8 h9 h5 ⊢
    simp only [show (8 : ℕ) ≠ 9 by omega, show (8 : ℕ) ≠ 5 by omega, show (9 : ℕ) ≠ 5 by omega,
      if_false] at h9 h5
    omega
  have h0 := key 0 0 0
  have h1 := key (hiWord dst) (loWord dst) sum
  have hz : (0 : BitVec 16).toNat = 0 := rfl
  rw [hz] at h0
  rw [rewriteDst, restSum, addrSum_eq]
  omega

theorem rewriteDst_self (h : HasDst ws dst) : rewriteDst ws dst (ipSum ws) = ws := by
  have h10 := h.length
  apply List.ext_getElem?
  intro i
  simp only [rewriteDst, ipSum, List.getElem?_set, List.length_set, List.getD_eq_getElem?_getD]
  split_ifs with h5 h5' h9 h9' h8 h8'
  · subst h5
    simp [List.getElem?_eq_getElem h5']
  · omega
  · subst h9
    exact h.2.symm
  · omega
  · subst h8
    exact h.1.symm
  · omega
  · rfl

theorem wordSum_eq (h : HasDst ws dst) :
    wordSum ws = restSum ws + (ipSum ws).toNat + addrSum dst := by
  conv_lhs => rw [← rewriteDst_self h]
  exact wordSum_rewriteDst h.length

theorem restSum_ne_zero (h : HasOther ws) : restSum ws ≠ 0 := by
  obtain ⟨i, w, h5, h8, h9, hi, hw⟩ := h
  intro h0
  refine hw (wordSum_eq_zero.mp h0 w (List.mem_of_getElem? (i := i) ?_))
  simp only [List.getElem?_set, Ne.symm h5, Ne.symm h8, Ne.symm h9, if_false]
  exact hi

theorem wordSum_translate (h : HasDst ws old) (new : InAddr) :
    wordSum (translate ws old new) % 65535 = wordSum ws % 65535 := by
  have ho := addrSum_le old
  have hf := fold16_mod (131070 - addrSum old + addrSum new)
  have hl := fold16_le (131070 - addrSum old + addrSum new)
  have hs := fold16_mod ((ipSum ws).toNat + (calcChksumDelta old new).toNat)
  rw [translate, wordSum_rewriteDst h.length, wordSum_eq h, toNat_add16forCheckSum]
  rw [toNat_calcChksumDelta] at hs ⊢
  omega

/-! ## Validity and the standard checksum -/

/-- **The incremental update preserves validity both ways**, and none of its sums loses a carry. -/
theorem translate_valid_iff (hdst : HasDst ws old) (hother : HasOther ws) (new : InAddr) :
    (onesSum (translate ws old new) = 0xffff ↔ onesSum ws = 0xffff) ∧
      NoCarryLost old new (ipSum ws) := by
  have h0 := restSum_ne_zero hother
  have hmod := wordSum_translate hdst new
  have hws := wordSum_eq hdst
  have htr : wordSum (translate ws old new) ≠ 0 := by
    rw [translate, wordSum_rewriteDst hdst.length]
    omega
  refine ⟨?_, noCarryLost _ _ _⟩
  rw [onesSum_eq_full, onesSum_eq_full, hmod]
  exact and_congr_left fun _ => ⟨fun _ => by omega, fun _ => htr⟩

/-- A header without options, protocol UDP, from `10.0.0.1` to `10.0.0.1`. -/
def sampleHeader : List (BitVec 16) :=
  [0x4500, 0x0014, 0, 0, 0x4011, 0x66d8, 0x0a00, 0x0001, 0x0a00, 0x0001]

theorem sampleHeader_dst : HasDst sampleHeader ![10, 0, 0, 1] := by
  unfold HasDst
  decide

theorem sampleHeader_other : HasOther sampleHeader :=
  ⟨0, 0x4500, by decide, by decide, by decide, rfl, by decide⟩

theorem translate_valid_iff_sample :
    (onesSum (translate sampleHeader ![10, 0, 0, 1] ![10, 0, 102, 217]) = 0xffff ↔
      onesSum sampleHeader = 0xffff) ∧
        NoCarryLost ![10, 0, 0, 1] ![10, 0, 102, 217] (ipSum sampleHeader) :=
  translate_valid_iff sampleHeader_dst sampleHeader_other _

theorem toNat_stdChecksum_rewriteDst (h : 10 ≤ ws.length) (dst : InAddr) (sum : BitVec 16) :
    (stdChecksum (rewriteDst ws dst sum)).toNat = 65535 - fold16 (restSum ws + addrSum dst) := by
  have hset : (rewriteDst ws dst sum).set 5 0 = rewriteDst ws dst 0 := by
    rw [rewriteDst, List.set_set, rewriteDst]
  rw [stdChecksum, hset, toNat_checksum, wordSum_rewriteDst h]
  rfl

/-- **The written checksum is the standard one**, except that a standard checksum of `0x0000` is
written as `0xffff` unless the old checksum and the delta are both `0x0000`. -/
theorem translate_standard (hdst : HasDst ws old) (hother : HasOther ws)
    (hstd : ipSum ws = stdChecksum ws) (new : InAddr) :
    add16forCheckSum (ipSum ws) (calcChksumDelta old new) =
      if stdChecksum (translate ws old new) = 0 ∧
          ¬ (ipSum ws = 0 ∧ calcChksumDelta old new = 0) then 0xffff
      else stdChecksum (translate ws old new) := by
  have h0 := restSum_ne_zero hother
  have ho := addrSum_le old
  -- the three quantities, as folded sums
  have hnew := toNat_stdChecksum_rewriteDst hdst.length new
    (add16forCheckSum (ipSum ws) (calcChksumDelta old new))
  have hold := toNat_stdChecksum_rewriteDst hdst.length old (ipSum ws)
  rw [rewriteDst_self hdst, ← hstd] at hold
  have hd := toNat_calcChksumDelta old new
  have hr := toNat_add16forCheckSum (ipSum ws) (calcChksumDelta old new)
  have zero_iff : ∀ x : BitVec 16, x = 0 ↔ x.toNat = 0 :=
    fun x => ⟨fun h => by rw [h]; rfl, fun h => BitVec.eq_of_toNat_eq h⟩
  rw [translate]
  apply BitVec.eq_of_toNat_eq
  have m1 := fold16_mod (restSum ws + addrSum new)
  have m2 := fold16_mod (restSum ws + addrSum old)
  have m3 := fold16_mod (131070 - addrSum old + addrSum new)
  have m4 := fold16_mod ((ipSum ws).toNat + (calcChksumDelta old new).toNat)
  have z1 := (fold16_eq_zero (n := restSum ws + addrSum new)).not.mpr (by omega)
  have z4 := fold16_eq_zero (n := (ipSum ws).toNat + (calcChksumDelta old new).toNat)
  have l1 := fold16_le (restSum ws + addrSum new)
  have l2 := fold16_le (restSum ws + addrSum old)
  have l3 := fold16_le (131070 - addrSum old + addrSum new)
  have l4 := fold16_le ((ipSum ws).toNat + (calcChksumDelta old new).toNat)
  split_ifs with hc
  · rw [zero_iff, zero_iff, zero_iff] at hc
    change _ = 65535
    omega
  · rw [zero_iff, zero_iff, zero_iff] at hc
    omega

/-- The update that leaves a checksum of `0xffff` where the standard one is `0x0000`. -/
theorem translate_standard_sample_ne :
    ¬ ∀ (ws : List (BitVec 16)) (old new : InAddr), HasDst ws old → HasOther ws →
      ipSum ws = stdChecksum ws →
        add16forCheckSum (ipSum ws) (calcChksumDelta old new) =
          stdChecksum (translate ws old new) := by
  intro h
  have := h sampleHeader ![10, 0, 0, 1] ![10, 0, 102, 217] sampleHeader_dst sampleHeader_other
    (by decide)
  revert this
  decide

theorem translate_standard_sample :
    add16forCheckSum (ipSum sampleHeader) (calcChksumDelta ![10, 0, 0, 1] ![10, 0, 0, 2]) =
      if stdChecksum (translate sampleHeader ![10, 0, 0, 1] ![10, 0, 0, 2]) = 0 ∧
          ¬ (ipSum sampleHeader = 0 ∧ calcChksumDelta ![10, 0, 0, 1] ![10, 0, 0, 2] = 0) then
        0xffff
      else stdChecksum (translate sampleHeader ![10, 0, 0, 1] ![10, 0, 0, 2]) :=
  translate_standard sampleHeader_dst sampleHeader_other (by decide) _

end Sasat
