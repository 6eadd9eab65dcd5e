import Sasat.Common.Checksum

/-!
# The checksum code and the Internet checksum

* `getChksum`: the checksum of `ping_body.c`.
* `NoOverflow`: every sum on the way is the exact one.
* **`inetSum`**: in native byte order the code decides and computes what RFC 1071 defines on
  big-endian words.
-/

namespace Sasat

open OnesComplement

/-- `get_chksum`, of `len` bytes at `off`. -/
def getChksum (lim : ℕ) (b : Buf) (off len : ℕ) : M (BitVec 16) := do
  let sum ← softChecksum lim b off len
  let sum := (sum &&& 0x0000ffff#32) + (sum >>> 16)
  let sum := if 0x0000ffff#32 < sum then sum - 0x0000ffff#32 else sum
  .ok (~~~ (sum &&& 0x0000ffff#32).setWidth 16)

/-- The four parts of a 64-bit sum, added up. -/
def partSum (q : BitVec 64) : BitVec 32 :=
  (quS q 0).setWidth 32 + (quS q 1).setWidth 32 + (quS q 2).setWidth 32 + (quS q 3).setWidth 32

/-- The two halves of a 32-bit sum, added up. -/
def halfSum (l : BitVec 32) : BitVec 32 := (luS0 l).setWidth 32 + (luS1 l).setWidth 32

/-- The sums over the `len` bytes at `off`, whose `soft_checksum` is `s`, and over a pseudo header,
as the code forms them, against the exact sums. -/
structure NoOverflow (lim : ℕ) (b : Buf) (off len : ℕ) (src dst : In6Addr) (plen : Fin 2 → Byte)
    (s : BitVec 32) : Prop where
  loop : ∀ k, 2 * k ≤ len →
    ∃ t, softLoop lim b k off 0 = .ok t ∧ t.toNat = leSum (slice b off (2 * k))
  soft : s.toNat = leSum (slice b off len)
  base : (pseudoSumV6 src dst plen).toNat =
    (s6Addr32 src 0).toNat + (s6Addr32 src 1).toNat + (s6Addr32 src 2).toNat +
      (s6Addr32 src 3).toNat + ((s6Addr32 dst 0).toNat + (s6Addr32 dst 1).toNat +
        (s6Addr32 dst 2).toNat + (s6Addr32 dst 3).toNat) + ((le16 plen).toNat + 58 * 256)
  add : (s.setWidth 64 + pseudoSumV6 src dst plen).toNat =
    s.toNat + (pseudoSumV6 src dst plen).toNat
  parts : ∀ q, (partSum q).toNat =
    (quS q 0).toNat + (quS q 1).toNat + (quS q 2).toNat + (quS q 3).toNat
  halves : ∀ q, (halfSum (partSum q)).toNat =
    (luS0 (partSum q)).toNat + (luS1 (partSum q)).toNat
  carry : ∀ q, (addcarry (halfSum (partSum q))).toNat ≤ 65535
  chksum : ((s &&& 0x0000ffff#32) + (s >>> 16)).toNat = s.toNat % 65536 + s.toNat / 65536

theorem toNat_and_ffff (s : BitVec 32) : (s &&& 0x0000ffff#32).toNat = s.toNat % 65536 := by
  rw [BitVec.toNat_and]
  exact Nat.and_two_pow_sub_one_eq_mod s.toNat 16

theorem toNat_chksumFold (s : BitVec 32) : ((s &&& 0x0000ffff#32) + (s >>> 16)).toNat =
    s.toNat % 65536 + s.toNat / 65536 := by
  have := s.isLt
  rw [BitVec.toNat_add, toNat_and_ffff, BitVec.toNat_ushiftRight, Nat.shiftRight_eq_div_pow]
  omega

theorem toNat_chksumCarry {x : BitVec 32} (h : x.toNat ≤ 131070) :
    (if 0x0000ffff#32 < x then x - 0x0000ffff#32 else x).toNat = fold16 x.toNat :=
  toNat_addcarry x h

theorem ntohs_not (x : BitVec 16) : ntohs (~~~ x) = ~~~ ntohs x := by
  have := x.isLt
  apply BitVec.eq_of_toNat_eq
  rw [toNat_ntohs, BitVec.toNat_not, BitVec.toNat_not, toNat_ntohs]
  omega

section

variable (lim : ℕ) (b : Buf) {off len : ℕ}

/-- **`get_chksum` is the Internet checksum with its bytes swapped.** -/
theorem getChksum_eq (hlim : off + len ≤ lim) (hlen : len ≤ 65535) :
    getChksum lim b off len = .ok (ntohs (checksum (beWords (slice b off len)))) := by
  obtain ⟨s, hs, hsum⟩ := softChecksum_ok lim b hlim hlen
  have hx := toNat_chksumFold s
  have hb : ((s &&& 0x0000ffff#32) + (s >>> 16)).toNat ≤ 131070 := by
    have := s.isLt
    omega
  have hcarry := toNat_chksumCarry hb
  rw [getChksum, hs, checksum, ntohs_not]
  refine congrArg (fun x => Except.ok (~~~ x)) (BitVec.eq_of_toNat_eq ?_)
  rw [BitVec.toNat_setWidth, toNat_and_ffff, hcarry, hx, toNat_ntohs, toNat_onesSum]
  have hswap := leSum_mod (slice b off len)
  rw [← fold16_swap hswap.1 hswap.2, ← hsum]
  have hle := fold16_le s.toNat
  rw [fold16_congr (b := s.toNat) (by omega) (by omega)]
  omega

theorem noOverflow (src dst : In6Addr) (plen : Fin 2 → Byte) (hlim : off + len ≤ lim)
    (hlen : len ≤ 65535) {s : BitVec 32} (hs : softChecksum lim b off len = .ok s) :
    NoOverflow lim b off len src dst plen s where
  loop k hk := by
    obtain ⟨t, ht, hval⟩ := softLoop_ok lim b k off 0 (by omega) (by simp; omega)
    refine ⟨t, ht, ?_⟩
    rw [hval]
    exact Nat.zero_add _
  soft := by
    obtain ⟨t, ht, hval⟩ := softChecksum_ok lim b hlim hlen
    rw [hs] at ht
    cases ht
    exact hval
  base := by rw [pseudoSumV6, toNat_baseSum]
  add := by
    have := s.isLt
    have := (toNat_pseudoSumV6_lt src dst plen).2
    rw [BitVec.toNat_add, BitVec.toNat_setWidth]
    omega
  parts q := toNat_add4_setWidth _ _ _ _
  halves q := toNat_add_setWidth _ _
  carry q := by
    have h0 := (luS0 (partSum q)).isLt
    have h1 := (luS1 (partSum q)).isLt
    have h : (halfSum (partSum q)).toNat = _ := toNat_add_setWidth _ _
    rw [toNat_addcarry _ (by omega)]
    exact fold16_le _
  chksum := toNat_chksumFold s

/-- **The native-order code computes the Internet checksum**: of a message and its pseudo header it
decides whether the RFC 1071 sum is all ones, of a buffer it gives the checksum. No sum on the way
overflows. -/
theorem inetSum (src dst : In6Addr) (plen : Fin 2 → Byte) (hlim : off + len ≤ lim)
    (hlen : len ≤ 65535) :
    (∃ v, icmpv6Sum lim b off len (pseudoSumV6 src dst plen) = .ok v ∧ (v = 0xffff ↔
      onesSum (beWords (pseudoHeader src dst (ntohs (le16 plen)).toNat ++ slice b off len)) =
        0xffff)) ∧
      getChksum lim b off len = .ok (ntohs (checksum (beWords (slice b off len)))) ∧
      ∃ s, softChecksum lim b off len = .ok s ∧ NoOverflow lim b off len src dst plen s := by
  obtain ⟨v, hv, hfold⟩ := icmpv6Sum_fold lim b src dst plen hlim hlen
  obtain ⟨s, hs, -⟩ := softChecksum_ok lim b hlim hlen
  refine ⟨⟨v, hv, ?_⟩, getChksum_eq lim b hlim hlen, s, hs,
    noOverflow lim b src dst plen hlim hlen hs⟩
  rw [← fold16_leSum, ← hfold]
  exact BitVec.toNat_inj.symm

end

theorem inetSum_sample : getChksum 3 (fun i => BitVec.ofNat 8 (i + 1)) 0 3 =
    .ok (ntohs (checksum (beWords (slice (fun i => BitVec.ofNat 8 (i + 1)) 0 3)))) :=
  (inetSum 3 (fun i => BitVec.ofNat 8 (i + 1)) 0 0 0 (by decide) (by decide)).2.1

end Sasat
