import Sasat.Common.Basic
import Sasat.Lib.OnesComplement

/-!
# `checksum.h`

* `add16forCheckSum`, `calcChksumDelta`: the incremental update of the IPv4 header checksum.
* `softChecksum`, `pseudoSumV6`, `icmpv6Sum`: the ICMPv6 checksum; the reads are checked.
* `toNat_add16forCheckSum`, **`toNat_calcChksumDelta`**, **`toNat_foldSum`**: all of them fold the
  plain sum.
* `NoCarryLost`, **`noCarryLost`**: the sums of the incremental update fit their words.
* **`icmpv6Sum_fold`**, **`icmpv6Sum_valid`**: the sum folds, and the value `0xffff` decides the
  RFC 1071 test of the big-endian words.
-/

namespace Sasat

open OnesComplement

/-- `s[0]` of `union l_util`. -/
def luS0 (l : BitVec 32) : BitVec 16 := l.setWidth 16

/-- `s[1]` of `union l_util`. -/
def luS1 (l : BitVec 32) : BitVec 16 := (l >>> 16).setWidth 16

/-- `s[k]` of `union q_util`. -/
def quS (q : BitVec 64) (k : ℕ) : BitVec 16 := (q >>> (16 * k)).setWidth 16

/-- `ADDCARRY`. -/
def addcarry (x : BitVec 32) : BitVec 32 := if 65535#32 < x then x - 65535#32 else x

/-- `add16forCheckSum`. -/
def add16forCheckSum (olddata newdata : BitVec 16) : BitVec 16 :=
  let sum := olddata.setWidth 32 + newdata.setWidth 32
  let sum := (sum >>> 16) + (sum &&& 0xffff#32)
  sum.setWidth 16

/-- `lu3` of `calc_chksum_delta`: the halves of the complemented old and of the new address. -/
def deltaLu3 (old new : InAddr) : BitVec 32 :=
  let lu1 := ~~~ ntohl (le32 old)
  let lu2 := ntohl (le32 new)
  (luS0 lu1).setWidth 32 + (luS1 lu1).setWidth 32 + (luS0 lu2).setWidth 32 + (luS1 lu2).setWidth 32

/-- `sum` of `calc_chksum_delta` before `ADDCARRY`. -/
def deltaSum (old new : InAddr) : BitVec 32 :=
  (luS0 (deltaLu3 old new)).setWidth 32 + (luS1 (deltaLu3 old new)).setWidth 32

/-- `calc_chksum_delta`. -/
def calcChksumDelta (old new : InAddr) : BitVec 16 :=
  (~~~ addcarry (deltaSum old new)).setWidth 16

/-- The counting loop of `soft_checksum`. -/
def softLoop (lim : ℕ) (b : Buf) : ℕ → ℕ → BitVec 32 → M (BitVec 32)
  | 0, _, sum => .ok sum
  | cnt + 1, w, sum => do
    let v ← fld lim b w 2
    softLoop lim b cnt (w + 2) (sum + (le16 v).setWidth 32)

/-- `soft_checksum`, of `len` bytes at `off`. -/
def softChecksum (lim : ℕ) (b : Buf) (off len : ℕ) : M (BitVec 32) := do
  let sum ← softLoop lim b (len / 2) off 0
  if len % 2 ≠ 0 then
    let v ← fld lim b (off + 2 * (len / 2)) 1
    .ok (sum + (v 0).setWidth 32)
  else .ok sum

/-- `pseudo_sum_v6`, of the fields that it reads; `plen` is in network order. -/
def pseudoSumV6 (src dst : In6Addr) (plen : Fin 2 → Byte) : BitVec 64 :=
  (s6Addr32 src 0).setWidth 64 + (s6Addr32 src 1).setWidth 64 + (s6Addr32 src 2).setWidth 64 +
    (s6Addr32 src 3).setWidth 64 + (s6Addr32 dst 0).setWidth 64 + (s6Addr32 dst 1).setWidth 64 +
    (s6Addr32 dst 2).setWidth 64 + (s6Addr32 dst 3).setWidth 64 + (le16 plen).setWidth 64 +
    (58#64 <<< 8)

/-- The folding part of `icmpv6_sum`. -/
def foldSum (q : BitVec 64) : BitVec 16 :=
  let l := (quS q 0).setWidth 32 + (quS q 1).setWidth 32 + (quS q 2).setWidth 32 +
    (quS q 3).setWidth 32
  (addcarry ((luS0 l).setWidth 32 + (luS1 l).setWidth 32)).setWidth 16

/-- `icmpv6_sum`, of `len` bytes at `off`. -/
def icmpv6Sum (lim : ℕ) (b : Buf) (off len : ℕ) (base : BitVec 64) : M (BitVec 16) := do
  let s ← softChecksum lim b off len
  .ok (foldSum (s.setWidth 64 + base))

/-! ## Values -/

theorem toNat_luS0 (l : BitVec 32) : (luS0 l).toNat = l.toNat % 65536 := by
  simp [luS0]

theorem toNat_luS1 (l : BitVec 32) : (luS1 l).toNat = l.toNat / 65536 := by
  have := l.isLt
  rw [luS1, BitVec.toNat_setWidth, BitVec.toNat_ushiftRight, Nat.shiftRight_eq_div_pow]
  omega

theorem toNat_quS (q : BitVec 64) (k : ℕ) : (quS q k).toNat = q.toNat / 2 ^ (16 * k) % 65536 := by
  rw [quS, BitVec.toNat_setWidth, BitVec.toNat_ushiftRight, Nat.shiftRight_eq_div_pow]

theorem toNat_addcarry (x : BitVec 32) (h : x.toNat ≤ 131070) :
    (addcarry x).toNat = fold16 x.toNat := by
  have h1 : (65535#32).toNat = 65535 := rfl
  unfold addcarry fold16
  split_ifs with hc h0 h0
  all_goals rw [BitVec.lt_def, h1] at hc
  all_goals try rw [BitVec.toNat_sub_of_le (by rw [BitVec.le_def]; omega), h1]
  all_goals omega

theorem toNat_add_setWidth (a b : BitVec 16) :
    (a.setWidth 32 + b.setWidth 32).toNat = a.toNat + b.toNat := by
  have ha := a.isLt
  have hb := b.isLt
  rw [BitVec.toNat_add, BitVec.toNat_setWidth, BitVec.toNat_setWidth]
  omega

theorem toNat_add4_setWidth (a b c d : BitVec 16) :
    (a.setWidth 32 + b.setWidth 32 + c.setWidth 32 + d.setWidth 32).toNat =
      a.toNat + b.toNat + c.toNat + d.toNat := by
  have ha := a.isLt
  have hb := b.isLt
  have hc := c.isLt
  have hd := d.isLt
  rw [BitVec.toNat_add, BitVec.toNat_add, toNat_add_setWidth, BitVec.toNat_setWidth,
    BitVec.toNat_setWidth]
  omega

theorem toNat_add16_fold (a b : BitVec 16) :
    ((a.setWidth 32 + b.setWidth 32) >>> 16 +
      ((a.setWidth 32 + b.setWidth 32) &&& 0xffff#32)).toNat = fold16 (a.toNat + b.toNat) := by
  have ha := a.isLt
  have hb := b.isLt
  have hand : ∀ n : ℕ, n &&& (0xffff#32).toNat = n % 65536 :=
    fun n => Nat.and_two_pow_sub_one_eq_mod n 16
  rw [BitVec.toNat_add, BitVec.toNat_ushiftRight, BitVec.toNat_and, hand, toNat_add_setWidth,
    Nat.shiftRight_eq_div_pow]
  unfold fold16
  rcases Nat.lt_or_ge (a.toNat + b.toNat) 65536 with h | h
  · rw [Nat.div_eq_of_lt h]
    split_ifs <;> omega
  · rw [show (a.toNat + b.toNat) / 2 ^ 16 = 1 by omega]
    split_ifs <;> omega

theorem toNat_add16forCheckSum (a b : BitVec 16) :
    (add16forCheckSum a b).toNat = fold16 (a.toNat + b.toNat) := by
  have := fold16_le (a.toNat + b.toNat)
  rw [add16forCheckSum, BitVec.toNat_setWidth, toNat_add16_fold]
  omega

def addrSum (a : InAddr) : ℕ :=
  (256 * (a 0).toNat + (a 1).toNat) + (256 * (a 2).toNat + (a 3).toNat)

theorem addrSum_le (a : InAddr) : addrSum a ≤ 131070 := by
  have h0 := (a 0).isLt
  have h1 := (a 1).isLt
  have h2 := (a 2).isLt
  have h3 := (a 3).isLt
  unfold addrSum
  omega

theorem toNat_deltaLu3 (old new : InAddr) :
    (deltaLu3 old new).toNat = 131070 - addrSum old + addrSum new := by
  have ho := toNat_ntohl_le32 old
  have hn := toNat_ntohl_le32 new
  have h0 := (old 0).isLt
  have h1 := (old 1).isLt
  have h2 := (old 2).isLt
  have h3 := (old 3).isLt
  have h0' := (new 0).isLt
  have h1' := (new 1).isLt
  have h2' := (new 2).isLt
  have h3' := (new 3).isLt
  unfold deltaLu3
  dsimp only
  rw [toNat_add4_setWidth, toNat_luS0, toNat_luS0, toNat_luS1, toNat_luS1, BitVec.toNat_not]
  generalize (ntohl (le32 old)).toNat = x at ho
  generalize (ntohl (le32 new)).toNat = y at hn
  have e0 : (2 ^ 32 - 1 - x) % 65536 = 65535 - (256 * (old 2).toNat + (old 3).toNat) := by omega
  have e1 : (2 ^ 32 - 1 - x) / 65536 = 65535 - (256 * (old 0).toNat + (old 1).toNat) := by omega
  have e2 : y % 65536 = 256 * (new 2).toNat + (new 3).toNat := by omega
  have e3 : y / 65536 = 256 * (new 0).toNat + (new 1).toNat := by omega
  rw [e0, e1, e2, e3]
  unfold addrSum
  omega

theorem toNat_deltaSum (old new : InAddr) : (deltaSum old new).toNat =
    (131070 - addrSum old + addrSum new) % 65536 +
      (131070 - addrSum old + addrSum new) / 65536 := by
  rw [deltaSum, toNat_add_setWidth, toNat_luS0, toNat_luS1, toNat_deltaLu3]

theorem fold16_deltaSum (old new : InAddr) :
    fold16 (deltaSum old new).toNat = fold16 (131070 - addrSum old + addrSum new) := by
  rw [toNat_deltaSum]
  exact fold16_congr (by omega) (by omega)

/-- **The delta is the complement of the folded difference of the addresses.** -/
theorem toNat_calcChksumDelta (old new : InAddr) : (calcChksumDelta old new).toNat =
    65535 - fold16 (131070 - addrSum old + addrSum new) := by
  have ho := addrSum_le old
  have hn := addrSum_le new
  have hs := toNat_deltaSum old new
  have h := fold16_le (131070 - addrSum old + addrSum new)
  rw [calcChksumDelta, BitVec.toNat_setWidth, BitVec.toNat_not, toNat_addcarry _ (by omega),
    fold16_deltaSum]
  omega

/-- The sums of the incremental update, as the code forms them, against the exact sums. -/
structure NoCarryLost (old new : InAddr) (sum : BitVec 16) : Prop where
  lu3 : (deltaLu3 old new).toNat =
    (luS0 (~~~ ntohl (le32 old))).toNat + (luS1 (~~~ ntohl (le32 old))).toNat +
      (luS0 (ntohl (le32 new))).toNat + (luS1 (ntohl (le32 new))).toNat
  delta : (deltaSum old new).toNat =
    (luS0 (deltaLu3 old new)).toNat + (luS1 (deltaLu3 old new)).toNat
  carry : (addcarry (deltaSum old new)).toNat ≤ 65535 ∧
    (addcarry (deltaSum old new)).toNat % 65535 = (deltaSum old new).toNat % 65535
  add : (sum.setWidth 32 + (calcChksumDelta old new).setWidth 32).toNat =
    sum.toNat + (calcChksumDelta old new).toNat
  fold : ((sum.setWidth 32 + (calcChksumDelta old new).setWidth 32) >>> 16 +
      ((sum.setWidth 32 + (calcChksumDelta old new).setWidth 32) &&& 0xffff#32)).toNat =
    (add16forCheckSum sum (calcChksumDelta old new)).toNat
  value : (add16forCheckSum sum (calcChksumDelta old new)).toNat % 65535 =
    (sum.toNat + (calcChksumDelta old new).toNat) % 65535

/-- **No sum of the incremental update loses a carry.** -/
theorem noCarryLost (old new : InAddr) (sum : BitVec 16) : NoCarryLost old new sum where
  lu3 := toNat_add4_setWidth _ _ _ _
  delta := toNat_add_setWidth _ _
  carry := by
    have ho := addrSum_le old
    have hn := addrSum_le new
    have hs := toNat_deltaSum old new
    rw [toNat_addcarry _ (by omega), fold16_mod]
    exact ⟨fold16_le _, rfl⟩
  add := toNat_add_setWidth _ _
  fold := by rw [toNat_add16_fold, toNat_add16forCheckSum]
  value := by rw [toNat_add16forCheckSum, fold16_mod]

theorem toNat_eq_quS (q : BitVec 64) : q.toNat = (quS q 0).toNat + 65536 * (quS q 1).toNat +
    4294967296 * (quS q 2).toNat + 281474976710656 * (quS q 3).toNat := by
  have hq := q.isLt
  simp only [toNat_quS, Nat.reduceMul, Nat.reducePow, Nat.div_one]
  have h1 := Nat.div_div_eq_div_mul q.toNat 65536 65536
  have h2 := Nat.div_div_eq_div_mul q.toNat 4294967296 65536
  omega

/-- **The fold of `icmpv6_sum` folds the whole sum.** -/
theorem toNat_foldSum (q : BitVec 64) : (foldSum q).toNat = fold16 q.toNat := by
  have hq := toNat_eq_quS q
  unfold foldSum
  dsimp only
  have hl := toNat_add4_setWidth (quS q 0) (quS q 1) (quS q 2) (quS q 3)
  have h0 := (quS q 0).isLt
  have h1 := (quS q 1).isLt
  have h2 := (quS q 2).isLt
  have h3 := (quS q 3).isLt
  generalize (quS q 0).setWidth 32 + (quS q 1).setWidth 32 + (quS q 2).setWidth 32 +
    (quS q 3).setWidth 32 = l at hl
  have hs := toNat_add_setWidth (luS0 l) (luS1 l)
  rw [toNat_luS0, toNat_luS1] at hs
  have hb : ((luS0 l).setWidth 32 + (luS1 l).setWidth 32).toNat ≤ 131070 := by omega
  rw [BitVec.toNat_setWidth, toNat_addcarry _ hb, hs]
  have h := fold16_le (l.toNat % 65536 + l.toNat / 65536)
  rw [Nat.mod_eq_of_lt (by omega), hq]
  clear hb hs h
  exact fold16_congr (by omega) (by omega)

/-! ## The ICMPv6 checksum -/

variable (lim : ℕ) (b : Buf) {off len : ℕ}

theorem softLoop_ok : ∀ (cnt w : ℕ) (sum : BitVec 32), w + 2 * cnt ≤ lim →
    sum.toNat + 65535 * cnt < 4294967296 → ∃ s, softLoop lim b cnt w sum = .ok s ∧
      s.toNat = sum.toNat + leSum (slice b w (2 * cnt))
  | 0, _, sum, _, _ => ⟨sum, rfl, rfl⟩
  | cnt + 1, w, sum, hlim, hsum => by
    have hv := toNat_le16 (load b w 2)
    have h0 := (b w).isLt
    have h1 := (b (w + 1)).isLt
    simp only [load_apply, Fin.val_zero, Fin.val_one, Nat.add_zero] at hv
    have hadd : (sum + (le16 (load b w 2)).setWidth 32).toNat =
        sum.toNat + ((b w).toNat + 256 * (b (w + 1)).toNat) := by
      rw [BitVec.toNat_add, BitVec.toNat_setWidth, hv]
      omega
    obtain ⟨s, hs, hval⟩ := softLoop_ok cnt (w + 2) (sum + (le16 (load b w 2)).setWidth 32)
      (by omega) (by omega)
    refine ⟨s, ?_, ?_⟩
    · rw [softLoop, fld_ok b (by omega)]
      exact hs
    · rw [hval, hadd, Nat.mul_add, slice_succ_succ, leSum]
      omega

theorem softLoop_fault : ∀ (cnt w : ℕ) (sum : BitVec 32), w ≤ lim → lim < w + 2 * cnt →
    ∃ o, softLoop lim b cnt w sum = .error (.read o)
  | 0, _, _, hw, h => absurd h (by omega)
  | cnt + 1, w, sum, hw, h => by
    by_cases hlim : w + 2 ≤ lim
    · rw [softLoop, fld_ok b hlim]
      exact softLoop_fault cnt (w + 2) _ hlim (by omega)
    · rw [softLoop, fld_fault b (by omega)]
      exact ⟨w, rfl⟩

/-- **`soft_checksum` is the little-endian sum of the bytes**, when they can be read. -/
theorem softChecksum_ok (hlim : off + len ≤ lim) (hlen : len ≤ 65535) :
    ∃ s, softChecksum lim b off len = .ok s ∧ s.toNat = leSum (slice b off len) := by
  obtain ⟨s, hs, hval⟩ := softLoop_ok lim b (len / 2) off 0 (by omega) (by simp; omega)
  rw [show (0 : BitVec 32).toNat = 0 from rfl, Nat.zero_add] at hval
  have hsplit := slice_add b off (2 * (len / 2)) (len % 2)
  rw [Nat.div_add_mod] at hsplit
  rw [softChecksum, hs, hsplit, leSum_append _ _ (by rw [length_slice]; omega)]
  rcases Nat.mod_two_eq_zero_or_one len with h0 | h1
  · rw [h0]
    exact ⟨s, rfl, hval⟩
  · rw [h1]
    have hb := (b (off + 2 * (len / 2))).isLt
    have hle := leSum_le (slice b off (2 * (len / 2)))
    rw [length_slice] at hle
    refine ⟨s + (b (off + 2 * (len / 2))).setWidth 32, ?_, ?_⟩
    · change (do let v ← fld lim b (off + 2 * (len / 2)) 1; _) = _
      rw [fld_ok b (by omega)]
      rfl
    · change _ = _ + (b (off + 2 * (len / 2) + 0)).toNat
      rw [BitVec.toNat_add, BitVec.toNat_setWidth, hval, Nat.add_zero]
      omega

theorem softChecksum_fault (hoff : off ≤ lim) (hlim : lim < off + len) (hlen : len ≤ 65535) :
    ∃ o, softChecksum lim b off len = .error (.read o) := by
  by_cases hloop : off + 2 * (len / 2) ≤ lim
  · obtain ⟨s, hs, -⟩ := softLoop_ok lim b (len / 2) off 0 hloop (by simp; omega)
    refine ⟨off + 2 * (len / 2), ?_⟩
    rw [softChecksum, hs, show len % 2 = 1 by omega]
    change (do let v ← fld lim b (off + 2 * (len / 2)) 1; _) = _
    rw [fld_fault b (by omega)]
    rfl
  · obtain ⟨o, ho⟩ := softLoop_fault lim b (len / 2) off 0 hoff (by omega)
    exact ⟨o, by rw [softChecksum, ho]; rfl⟩

/-- The pseudo header of an ICMPv6 message of `len` bytes. -/
def pseudoHeader (src dst : In6Addr) (len : ℕ) : List Byte :=
  List.ofFn src ++ List.ofFn dst ++ [0, 0, BitVec.ofNat 8 (len / 256), BitVec.ofNat 8 len,
    0, 0, 0, 58]

theorem leSum_ofFn (a : In6Addr) : leSum (List.ofFn a) % 65535 =
    ((s6Addr32 a 0).toNat + (s6Addr32 a 1).toNat + (s6Addr32 a 2).toNat +
      (s6Addr32 a 3).toNat) % 65535 := by
  have h0 : (s6Addr32 a 0).toNat = _ := toNat_le32 ![a 0, a 1, a 2, a 3]
  have h1 : (s6Addr32 a 1).toNat = _ := toNat_le32 ![a 4, a 5, a 6, a 7]
  have h2 : (s6Addr32 a 2).toNat = _ := toNat_le32 ![a 8, a 9, a 10, a 11]
  have h3 : (s6Addr32 a 3).toNat = _ := toNat_le32 ![a 12, a 13, a 14, a 15]
  have hl : List.ofFn a = [a 0, a 1, a 2, a 3, a 4, a 5, a 6, a 7, a 8, a 9, a 10, a 11, a 12,
    a 13, a 14, a 15] := rfl
  rw [h0, h1, h2, h3, hl]
  simp only [leSum, Matrix.cons_val]
  omega

theorem toNat_baseSum (a b c d e f g h : BitVec 32) (p : BitVec 16) :
    (a.setWidth 64 + b.setWidth 64 + c.setWidth 64 + d.setWidth 64 + e.setWidth 64 +
      f.setWidth 64 + g.setWidth 64 + h.setWidth 64 + p.setWidth 64 + (58#64 <<< 8)).toNat =
    a.toNat + b.toNat + c.toNat + d.toNat + (e.toNat + f.toNat + g.toNat + h.toNat) +
      (p.toNat + 14848) := by
  have ha := a.isLt
  have hb := b.isLt
  have hc := c.isLt
  have hd := d.isLt
  have he := e.isLt
  have hf := f.isLt
  have hg := g.isLt
  have hh := h.isLt
  have hp := p.isLt
  have h58 : (58#64 <<< 8).toNat = 14848 := by decide
  generalize (58#64 <<< 8) = k at h58
  simp only [BitVec.toNat_add, BitVec.toNat_setWidth, h58]
  omega

theorem toNat_pseudoSumV6_lt (src dst : In6Addr) (plen : Fin 2 → Byte) :
    14848 ≤ (pseudoSumV6 src dst plen).toNat ∧ (pseudoSumV6 src dst plen).toNat < 2 ^ 36 := by
  have hb : ∀ a k, (s6Addr32 a k).toNat < 2 ^ 32 := fun a k => (s6Addr32 a k).isLt
  have hs0 := hb src 0
  have hs1 := hb src 1
  have hs2 := hb src 2
  have hs3 := hb src 3
  have hd0 := hb dst 0
  have hd1 := hb dst 1
  have hd2 := hb dst 2
  have hd3 := hb dst 3
  have hp := (le16 plen).isLt
  rw [pseudoSumV6, toNat_baseSum]
  omega

theorem leSum_pseudoHeader (src dst : In6Addr) {plen : Fin 2 → Byte}
    (hp : (ntohs (le16 plen)).toNat = len) : leSum (pseudoHeader src dst len) =
      leSum (List.ofFn src) + leSum (List.ofFn dst) + ((le16 plen).toNat + 14848) := by
  have h0 := (plen 0).isLt
  have h1 := (plen 1).isLt
  have hz : (0 : BitVec 8).toNat = 0 := rfl
  have h58 : (58 : BitVec 8).toNat = 58 := rfl
  rw [toNat_ntohs_le16] at hp
  rw [pseudoHeader, leSum_append _ _ (by simp), leSum_append _ _ (by simp), toNat_le16]
  simp only [leSum, BitVec.toNat_ofNat, hz, h58]
  omega

theorem pseudoSumV6_mod (src dst : In6Addr) {plen : Fin 2 → Byte}
    (hp : (ntohs (le16 plen)).toNat = len) :
    (pseudoSumV6 src dst plen).toNat % 65535 = leSum (pseudoHeader src dst len) % 65535 := by
  have hs := leSum_ofFn src
  have hd := leSum_ofFn dst
  rw [leSum_pseudoHeader src dst hp, pseudoSumV6, toNat_baseSum]
  omega

/-- **`icmpv6_sum` folds the sum of the pseudo header and the message.** -/
theorem icmpv6Sum_fold (src dst : In6Addr) (plen : Fin 2 → Byte) (hlim : off + len ≤ lim)
    (hlen : len ≤ 65535) :
    ∃ v, icmpv6Sum lim b off len (pseudoSumV6 src dst plen) = .ok v ∧ v.toNat =
      fold16 (leSum (pseudoHeader src dst (ntohs (le16 plen)).toNat ++ slice b off len)) := by
  obtain ⟨s, hs, hsum⟩ := softChecksum_ok lim b hlim hlen
  obtain ⟨hlow, hhigh⟩ := toNat_pseudoSumV6_lt src dst plen
  have hmod : (pseudoSumV6 src dst plen).toNat % 65535 =
      leSum (pseudoHeader src dst (ntohs (le16 plen)).toNat) % 65535 := pseudoSumV6_mod src dst rfl
  have hpos : leSum (pseudoHeader src dst (ntohs (le16 plen)).toNat) =
      leSum (List.ofFn src) + leSum (List.ofFn dst) + ((le16 plen).toNat + 14848) :=
    leSum_pseudoHeader src dst rfl
  have happ := leSum_append (pseudoHeader src dst (ntohs (le16 plen)).toNat) (slice b off len)
    (by simp [pseudoHeader])
  have hadd : (s.setWidth 64 + pseudoSumV6 src dst plen).toNat =
      leSum (slice b off len) + (pseudoSumV6 src dst plen).toNat := by
    have := s.isLt
    rw [BitVec.toNat_add, BitVec.toNat_setWidth, hsum]
    omega
  refine ⟨_, by rw [icmpv6Sum, hs]; rfl, ?_⟩
  rw [toNat_foldSum, hadd]
  exact fold16_congr (by omega) (by omega)

/-- **`icmpv6_sum` is all ones exactly when the checksum is valid**: the one's-complement sum of
the pseudo header and the message, as big-endian words, is all ones. -/
theorem icmpv6Sum_valid (src dst : In6Addr) {plen : Fin 2 → Byte}
    (hp : (ntohs (le16 plen)).toNat = len) (hlim : off + len ≤ lim) :
    ∃ v, icmpv6Sum lim b off len (pseudoSumV6 src dst plen) = .ok v ∧
      (v = 0xffff ↔ onesSum (beWords (pseudoHeader src dst len ++ slice b off len)) = 0xffff) := by
  obtain ⟨v, hv, hfold⟩ := icmpv6Sum_fold lim b src dst plen hlim
    (by rw [← hp]; exact Nat.le_of_lt_succ (BitVec.isLt _))
  rw [hp] at hfold
  refine ⟨v, hv, ?_⟩
  rw [← fold16_leSum, ← hfold]
  exact BitVec.toNat_inj.symm

end Sasat
