import Sasat.Common.InetSum

/-!
# Echo requests

`ping4` and `ping6` send an echo request when the kernel does not know a MAC address, so that it
looks for it.

* `echoRequest4`, `echoRequest6`: what they pass to `sendto`.
* **`echoRequest4_verifies`**: the checksum of `ping4` verifies.
-/

namespace Sasat

open OnesComplement

/-- The request of `ping4`: the header is summed up over `sizeof(struct icmp)` bytes, and its first
`ICMP_MINLEN` bytes are sent. -/
def echoRequest4 (seqNum : Byte) : M (List Byte) := do
  let sendData : Buf := fun _ => 0
  let sendData := store sendData 0 ![8]
  let sendData := store sendData 1 ![0]
  let sendData := store sendData 4 (bytes16 0)
  let sendData := store sendData 2 (bytes16 0)
  let sendData := store sendData 6 (bytes16 (ntohs (seqNum.setWidth 16)))
  let cksum ← getChksum 128 sendData 0 28
  .ok (frame (store sendData 2 (bytes16 cksum)) 8)

/-- The request of `ping6`. The kernel fills in its checksum. -/
def echoRequest6 (seqNum : Byte) : M (List Byte) :=
  let sendData : Buf := fun _ => 0
  let sendData := store sendData 0 ![128]
  let sendData := store sendData 1 ![0]
  let sendData := store sendData 4 (bytes16 0)
  let sendData := store sendData 6 (bytes16 (ntohs (seqNum.setWidth 16)))
  .ok (frame sendData 64)

theorem bytes16_ntohs (w : BitVec 16) :
    bytes16 (ntohs w) = ![BitVec.ofNat 8 (w.toNat / 256), BitVec.ofNat 8 (w.toNat % 256)] := by
  have := w.isLt
  rw [bytes16, toNat_ntohs]
  congr 1
  · exact congrArg (BitVec.ofNat 8) (by omega)
  · exact congrArg (fun n => ![BitVec.ofNat 8 n]) (by omega)

theorem bytes16_seqNum (seqNum : Byte) :
    bytes16 (ntohs (seqNum.setWidth 16)) = ![0, seqNum] := by
  have hlt := seqNum.isLt
  have hw : (seqNum.setWidth 16).toNat = seqNum.toNat := by
    rw [BitVec.toNat_setWidth]
    omega
  rw [bytes16_ntohs, hw, Nat.div_eq_of_lt hlt, Nat.mod_eq_of_lt hlt, BitVec.ofNat_toNat,
    BitVec.setWidth_eq]
  rfl

/-- **The checksum of an echo request verifies**, and its sequence number is `seqNum`. -/
theorem echoRequest4_verifies (seqNum : Byte) : ∃ a b : Byte,
    echoRequest4 seqNum = .ok [8, 0, a, b, 0, 0, 0, seqNum] ∧
      onesSum (beWords [8, 0, a, b, 0, 0, 0, seqNum]) = 0xffff := by
  obtain ⟨c, hc⟩ : ∃ c, c = checksum (beWords
      (8 :: 0 :: 0 :: 0 :: 0 :: 0 :: 0 :: seqNum :: List.replicate 20 0)) := ⟨_, rfl⟩
  refine ⟨BitVec.ofNat 8 (c.toNat / 256), BitVec.ofNat 8 (c.toNat % 256), ?_, ?_⟩
  · rw [echoRequest4, bytes16_seqNum, getChksum_eq 128 _ (by decide) (by decide),
      show slice _ 0 28 = 8 :: 0 :: 0 :: 0 :: 0 :: 0 :: 0 :: seqNum :: List.replicate 20 0
        from rfl, ← hc]
    change Except.ok (frame (store _ 2 (bytes16 (ntohs c))) 8) = _
    rw [bytes16_ntohs]
    rfl
  · have hlt := c.isLt
    have hseq := seqNum.isLt
    have hsum : c.toNat = 65535 - (2048 + seqNum.toNat) := by
      rw [hc, toNat_checksum, ← fold16_of_le (show 2048 + seqNum.toNat ≤ 65535 by omega)]
      simp [beWords, Nat.mod_eq_of_lt (show seqNum.toNat < 65536 by omega)]
    have hword : wordSum (beWords [8, 0, BitVec.ofNat 8 (c.toNat / 256),
        BitVec.ofNat 8 (c.toNat % 256), 0, 0, 0, seqNum]) = 65535 := by
      have h8 : (8 : Byte).toNat = 8 := rfl
      have h0 : (0 : Byte).toNat = 0 := rfl
      simp only [beWords, wordSum_cons, wordSum_nil, toNat_beWord]
      rw [BitVec.toNat_ofNat, BitVec.toNat_ofNat]
      omega
    rw [onesSum_eq_full, hword]
    decide

end Sasat
