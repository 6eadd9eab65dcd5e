import Sasat.Back.MacResolution
import Sasat.Common.InetSum

/-!
# The advertisements verify

* `NaVerifies`: what a receiver checks of an advertisement.
* **`naFrame_verifies`**: every frame that `send_icmp6_na` and `send_na_body` build passes.
* **`adverts_verify`**: so does every frame that they write.
-/

namespace Sasat

open OnesComplement

/-- The payload length fits the frame, the hop limit is 255, and the sum that `check_valid_ns` forms
is all ones. -/
structure NaVerifies (bytes : List Byte) : Prop where
  plen : bytes.length = 54 + ip6Plen (recvBuf bytes)
  hlim : recvBuf bytes 21 = 255
  sum : icmpv6Sum bytes.length (recvBuf bytes) 54 (ip6Plen (recvBuf bytes))
    (pseudoSumV6 (ip6Src (recvBuf bytes)) (ip6Dst (recvBuf bytes)) (load (recvBuf bytes) 18 2)) =
      .ok 0xffff

/-! ## The fields -/

section

variable (hdest mac : Mac) (src dst : In6Addr) (mcast : Bool)

theorem ip6Src_naBuff : ip6Src (naBuff hdest mac src dst mcast) = src := by
  unfold naBuff ip6Src
  split_ifs
  all_goals simp (disch := omega) only [load_store_of_disjoint, load_store_self]

theorem ip6Dst_naBuff : ip6Dst (naBuff hdest mac src dst mcast) = dst := by
  unfold naBuff ip6Dst
  split_ifs
  all_goals simp (disch := omega) only [load_store_of_disjoint, load_store_self]

theorem plen_naBuff : load (naBuff hdest mac src dst mcast) 18 2 =
    bytes16 (ntohs (BitVec.ofNat 16 (naPlen mcast))) := by
  unfold naBuff
  split_ifs
  all_goals simp (disch := omega) only [load_store_of_disjoint, load_store_self]

theorem hlim_naBuff : naBuff hdest mac src dst mcast 21 = 255 := by
  have h : load (naBuff hdest mac src dst mcast) 21 1 = ![255] := by
    unfold naBuff
    split_ifs
    all_goals simp (disch := omega) only [load_store_of_disjoint, load_store_self]
  exact congrFun h 0

theorem cksum_naBuff : load (naBuff hdest mac src dst mcast) 56 2 = 0 := by
  unfold naBuff
  split_ifs
  all_goals
    simp (disch := omega) only [load_store_of_disjoint]
    rfl

end

/-! ## The sum -/

theorem leSum_message (c : Buf) (n : ℕ) : leSum (slice c 54 (n + 4)) =
    (c 54).toNat + 256 * (c 55).toNat + (le16 (load c 56 2)).toNat + leSum (slice c 58 n) := by
  rw [show n + 4 = n + 2 + 2 by rfl, slice_succ_succ, slice_succ_succ, leSum, leSum, toNat_le16]
  simp only [load_apply, Fin.val_zero, Fin.val_one, Nat.reduceAdd]
  omega

theorem leSum_fill (c : Buf) (w : BitVec 16) {n : ℕ} (hn : 4 ≤ n) (h0 : load c 56 2 = 0) :
    leSum (slice (store c 56 (bytes16 w)) 54 n) = leSum (slice c 54 n) + w.toNat := by
  obtain ⟨k, rfl⟩ := Nat.exists_eq_add_of_le' hn
  have hrest : slice (store c 56 (bytes16 w)) 58 k = slice c 58 k :=
    frame_congr.mpr fun i _ => store_apply_of_not c _ (Or.inr (by omega))
  rw [leSum_message, leSum_message, hrest, load_store_self, le16_bytes16, h0,
    store_apply_of_not c _ (Or.inl (by omega)), store_apply_of_not c _ (Or.inl (by omega)),
    show (le16 0).toNat = 0 by decide]
  omega

theorem naPlen_cases (mcast : Bool) : naPlen mcast = 32 ∨ naPlen mcast = 24 := by
  cases mcast
  · exact Or.inr rfl
  · exact Or.inl rfl

/-- **Every advertisement that is built verifies.** -/
theorem naFrame_verifies (hdest mac : Mac) (src dst : In6Addr) (mcast : Bool) :
    ∃ bytes, naFrame hdest mac src dst mcast = .ok bytes ∧ NaVerifies bytes ∧
      bytes.length = naPlen mcast + 54 := by
  have hp := naPlen_cases mcast
  obtain ⟨b, hb⟩ : ∃ b, b = naBuff hdest mac src dst mcast := ⟨_, rfl⟩
  have hplen : (ntohs (le16 (load b 18 2))).toNat = naPlen mcast := by
    rw [hb, plen_naBuff, le16_bytes16, ntohs_ntohs, BitVec.toNat_ofNat]
    omega
  -- the checksum of the message without one
  have hin : 54 + naPlen mcast ≤ nsBaseSize + 8 := by
    rw [nsBaseSize]
    omega
  obtain ⟨v, hv, hfold⟩ := icmpv6Sum_fold _ b src dst (load b 18 2) hin (by omega)
  rw [hplen] at hfold
  obtain ⟨c, hc⟩ : ∃ c, c = store b 56 (bytes16 (~~~ v)) := ⟨_, rfl⟩
  have hload : ∀ {off n : ℕ}, off + n ≤ 56 → load (recvBuf (frame c (naPlen mcast + 54))) off n =
      load b off n := by
    intro off n h
    rw [load_recvBuf_frame (by omega), hc, load_store_of_disjoint _ _ (Or.inl h)]
  have hsrc : ip6Src (recvBuf (frame c (naPlen mcast + 54))) = src := by
    rw [ip6Src, hload (by omega), hb]
    exact ip6Src_naBuff hdest mac src dst mcast
  have hdst : ip6Dst (recvBuf (frame c (naPlen mcast + 54))) = dst := by
    rw [ip6Dst, hload (by omega), hb]
    exact ip6Dst_naBuff hdest mac src dst mcast
  have hplen' : ip6Plen (recvBuf (frame c (naPlen mcast + 54))) = naPlen mcast := by
    rw [ip6Plen, hload (by omega), hplen]
  refine ⟨frame c (naPlen mcast + 54), ?_, ⟨?_, ?_, ?_⟩, length_frame _ _⟩
  · rw [naFrame, ← hb, hv, hc]
    rfl
  · rw [hplen', length_frame]
    omega
  · rw [recvBuf_frame (by omega), hc, store_apply_of_not _ _ (Or.inl (by omega)), hb]
    exact hlim_naBuff hdest mac src dst mcast
  -- the checksum that is filled in completes the sum
  · rw [hplen', hsrc, hdst, hload (by omega), length_frame]
    have hin' : 54 + naPlen mcast ≤ naPlen mcast + 54 := by omega
    obtain ⟨w, hw, hwfold⟩ := icmpv6Sum_fold _ (recvBuf (frame c (naPlen mcast + 54))) src dst
      (load b 18 2) hin' (by omega)
    have hslice : slice (recvBuf (frame c (naPlen mcast + 54))) 54 (naPlen mcast) =
        slice c 54 (naPlen mcast) := frame_congr.mpr fun i hi => recvBuf_frame (by omega)
    have hfill := leSum_fill b (~~~ v) (n := naPlen mcast) (by omega)
      (by rw [hb]; exact cksum_naBuff hdest mac src dst mcast)
    have happ : ∀ l : List Byte, leSum (pseudoHeader src dst (naPlen mcast) ++ l) =
        leSum (pseudoHeader src dst (naPlen mcast)) + leSum l :=
      fun l => leSum_append _ _ (by simp [pseudoHeader])
    have hpos := leSum_pseudoHeader src dst hplen
    rw [hplen, hslice, hc, happ, hfill, ← Nat.add_assoc, ← happ, BitVec.toNat_not, hfold] at hwfold
    rw [hw]
    refine congrArg Except.ok (BitVec.eq_of_toNat_eq ?_)
    rw [hwfold, fold16_add_compl (by rw [happ]; omega)]
    rfl

/-- The solicitation has been sent to the multicast address of another target. -/
def OtherMulticast (b : Buf) : Prop :=
  hDest b 3 ≠ nsTarget b 13 ∨ hDest b 4 ≠ nsTarget b 14 ∨ hDest b 5 ≠ nsTarget b 15

instance (b : Buf) : Decidable (OtherMulticast b) := inferInstanceAs (Decidable (_ ∨ _))

theorem sendNaBody_skip {b : Buf} {mcast : Bool} (h : mcast = true ∧ OtherMulticast b) (mac : Mac)
    (s : BackState) : sendNaBody b mcast mac s = .ok s := if_pos h

theorem sendNaBody_write {b : Buf} {mcast : Bool} (h : ¬ (mcast = true ∧ OtherMulticast b))
    (mac : Mac) (s : BackState) : ∃ bytes,
      sendNaBody b mcast mac s = .ok (s.writeEg .sendNaBody bytes) ∧ NaVerifies bytes := by
  obtain ⟨bytes, hrun, hver, -⟩ := naFrame_verifies (hSource b) mac (nsTarget b) (ip6Src b) mcast
  refine ⟨bytes, ?_, hver⟩
  refine (if_neg h).trans ?_
  rw [hrun]
  rfl

/-- **Every advertisement that is written verifies**, in the multicast and in the unicast form. Only
`send_na_body` can write none, for a solicitation on the multicast address of another target. -/
theorem adverts_verify {S : Type} [DecidableEq S] (st : ArpStats S) (ifd : Ifdata) (b : Buf)
    (mcast : Bool) (mac : Mac) (io : Io S) (s : BackState) :
    (∃ bytes, sendIcmp6Na st ifd b mcast io =
        .ok ((io.write .sendIcmp6Na ifd.sockfd bytes).stat st.txNa) ∧ NaVerifies bytes) ∧
      if mcast = true ∧ OtherMulticast b then sendNaBody b mcast mac s = .ok s
      else ∃ bytes, sendNaBody b mcast mac s = .ok (s.writeEg .sendNaBody bytes) ∧
        NaVerifies bytes := by
  constructor
  · obtain ⟨bytes, hrun, hver, -⟩ := naFrame_verifies (hSource b) ifd.mac ifd.vip6 (ip6Src b) mcast
    refine ⟨bytes, ?_, hver⟩
    rw [sendIcmp6Na, hrun]
    rfl
  · split_ifs with h
    · exact sendNaBody_skip h mac s
    · exact sendNaBody_write h mac s

end Sasat
