import Sasat.Front.Front
import Sasat.Back.Backend
import Sasat.Common.Init

/-!
# Which solicitations are answered

* `Solicited`: the frames of exactly their declared length that reach the code for solicitations.
* **`na_dispatch`**: what the dispatchers have in common; **`procRecvData_na`**,
  **`procIngressData_na`**: which of the frames are answered.
* **`ns_answered_iff`**: all of the valid ones, but those whose payload length is a small multiple
  of `256`: `get_icmp6_ns` compares the length without swapping its bytes.
-/

namespace Sasat

open Outcome OnesComplement

/-- An IPv6 frame of its declared length that reaches `mac_resolve` on the solicited-node address,
or `get_icmp6_ns` as a unicast to the virtual address. Multicasts are handled under `mc`, unicasts
in `vip_mode`. -/
structure Solicited (ifd : Ifdata) (mc : Prop) (vipMode : Bool) (b : Buf) (len : ℕ) : Prop where
  foreign : hSource b ≠ ifd.mac
  proto : hProto b = ethPIpv6
  len : len = 54 + ip6Plen b
  v6Enable : ifd.v6Enable = true
  fmmac : ifd.fmmac = solicitedMac ifd.vip6
  way : (hDest b = ifd.fmmac ∧ mc) ∨
    (isMulticast (hDest b) = false ∧ ip6Dst b = ifd.vip6 ∧ vipMode = true)

theorem ethPIpv6_ne : ethPIpv6 ≠ ethPIp := by decide

section

variable {lim len : ℕ} {b : Buf}

theorem Solicited.mc {ifd : Ifdata} {mc : Prop} {v : Bool} (h : Solicited ifd mc v b len)
    (hdst : hDest b = ifd.fmmac) :
    isMulticast (hDest b) = true ∧ isBroadcast (hDest b) = false := by
  rw [hdst, h.fmmac]
  exact ⟨isMulticast_solicitedMac _, isBroadcast_solicitedMac _⟩

/-- **What the dispatchers have in common** on a solicitation: `mcast` handles multicasts, `uc` what
looks like a unicast solicitation, `other` other IPv6 packets. -/
theorem na_dispatch {α : Type} {Ans : α → Prop} {ifd : Ifdata} {mc : Prop} {v : Bool}
    {start mcast v4 uc other rest : M α} {short : α} (hlim : len ≤ lim)
    (h : Solicited ifd mc v b len)
    (hmc : hDest b = ifd.fmmac → mc →
      ((∃ r, mcast = .ok r ∧ Ans r) ↔ ValidNs ifd.vip6 b ∧ LooksNs b len))
    (huc : ip6Dst b = ifd.vip6 → v = true → ip6Nxt b = 58 → LooksNs b len →
      ((∃ r, uc = .ok r ∧ Ans r) ↔ ValidNs ifd.vip6 b))
    (hother : ∀ r, other = .ok r → ¬ Ans r) (hshort : ¬ Ans short) :
    (∃ r, (if hSource b = ifd.mac then start
      else if isMulticast (hDest b) then mcast
      else if hProto b = ethPIp then v4
      else if hProto b = ethPIpv6 then
        if 54 < len then isIcmp6Ns lim b len >>= fun ns => if ns then uc else other else .ok short
      else rest) = .ok r ∧ Ans r) ↔ ValidNs ifd.vip6 b ∧ LooksNs b len := by
  have hlen := h.len
  rw [if_neg h.foreign]
  rcases h.way with ⟨hdst, ha⟩ | ⟨hm, hdst, hv⟩
  · rw [if_pos (h.mc hdst).1]
    exact hmc hdst ha
  rw [hm, if_neg Bool.false_ne_true, h.proto, if_neg ethPIpv6_ne, if_pos rfl]
  by_cases h54 : 54 < len
  · obtain ⟨ns, hns, hiff⟩ := isIcmp6Ns_ok (b := b) (show 20 ≤ lim by omega) hlim
    rw [if_pos h54, hns]
    cases ns with
    | true =>
      obtain ⟨hnxt, hl⟩ := hiff.mp rfl
      exact (huc hdst hv hnxt hl).trans ⟨fun hvalid => ⟨hvalid, hl⟩, And.left⟩
    | false =>
      -- what does not look like a solicitation is handled as any other packet
      refine ⟨?_, fun hvalid => Bool.noConfusion (hiff.mpr ⟨hvalid.1.nxt, hvalid.2⟩)⟩
      rintro ⟨r, hok, hans⟩
      exact absurd hans (hother r hok)
  · rw [if_neg h54, exists_ok_iff rfl]
    exact ⟨fun hans => absurd hans hshort, fun hvalid => absurd hvalid.1.plen (by omega)⟩

/-- **The solicitations that the front translator answers.** -/
theorem procRecvData_na {s : FrontState} (hlim : len ≤ lim)
    (h : Solicited s.ifIngress (s.vipMode = true) s.vipMode b len) (o : ℕ → MacOutcomes)
    (tsc : BitVec 64) :
    (∃ r, procRecvData lim o tsc b len s = .ok r ∧ Sent .sendIcmp6Na s.io r.2.io) ↔
      ValidNs s.ifIngress.vip6 b ∧ LooksNs b len := by
  refine na_dispatch hlim h (fun hdst hvip => ?_) (fun hdst hvip hnxt hl => ?_) (fun r hok => ?_)
    (not_sent_self rfl)
  · obtain ⟨io', hrun, hres⟩ := macResolve_ns frontArpStats (s.io.stat .rxPacketMc) h.len hlim
      h.v6Enable hdst.symm (h.mc hdst).2
    rw [if_pos hvip, h.proto, hrun]
    exact (exists_ok_iff rfl).trans hres
  · obtain ⟨io', hrun, hres⟩ := macResolveUc6_ns frontArpStats (s.io.stat .rxPacketV6) h.len hlim
      h.v6Enable hdst hnxt hl
    rw [if_pos hvip, hrun]
    exact (exists_ok_iff rfl).trans hres
  · rintro ⟨x, hx, hsender⟩
    have hw := ((procV6_wrote o tsc b len (s.stat .rxPacketV6)).of_ok hok).of_eq hx
    rw [hsender] at hw
    cases hw

/-- **The solicitations that the backend answers on its ingress side.** -/
theorem procIngressData_na {s : BackState} (hlim : len ≤ lim)
    (h : Solicited s.ifIngress True s.vipMode b len) (r : Resolution) (tsc : BitVec 64) :
    (∃ x, procIngressData lim r tsc b len s = .ok x ∧ Sent .sendIcmp6Na s.io x.2.io) ↔
      ValidNs s.ifIngress.vip6 b ∧ LooksNs b len := by
  refine na_dispatch hlim h (fun hdst _ => ?_) (fun hdst hvip hnxt hl => ?_) (fun y hok => ?_)
    (not_sent_self rfl)
  · obtain ⟨io', hrun, hres⟩ := macResolve_ns backArpStats (s.io.stat .rxPacketMcIn) h.len hlim
      h.v6Enable hdst.symm (h.mc hdst).2
    rw [h.proto, hrun]
    exact (exists_ok_iff rfl).trans hres
  · obtain ⟨io', hrun, hres⟩ := macResolveUc6_ns backArpStats (s.io.stat .rxPacketV6In) h.len hlim
      h.v6Enable hdst hnxt hl
    rw [if_pos hvip, hrun]
    exact (exists_ok_iff rfl).trans hres
  · rintro ⟨x, hx, hsender⟩
    have hw := ((procV6In_wrote (P := fun x => x.sender = .procV6In) fun _ _ => rfl).of_ok
      hok).of_eq hx
    rw [hsender] at hw
    cases hw

end

/-! ## Two sample solicitations -/

/-- `fd00::1`. -/
def sampleVip6 : In6Addr := ![0xfd, 0, 0, 0, 0, 0, 0, 0, 0, 0, 0, 0, 0, 0, 0, 1]

/-- An interface with the virtual addresses `10.0.0.1` and `fd00::1`. -/
def sampleIf6 : Ifdata :=
  ⟨3, ![2, 0, 0, 0, 0, 1], true, true, solicitedMac sampleVip6, ![10, 0, 0, 9], ![10, 0, 0, 1], 0,
    sampleVip6⟩

/-- A solicitation for `fd00::1` from `fd00::7`, with an option of `8 * n` bytes: its payload has
`plen` bytes, and its checksum is `sum`. -/
def sampleNs (plen sum : BitVec 16) (n : Byte) : Buf := fun i =>
  ([0x33, 0x33, 0xff, 0, 0, 1, 2, 0, 0, 0, 0, 7, 0x86, 0xdd, 0x60, 0, 0, 0,
    BitVec.ofNat 8 (plen.toNat / 256), BitVec.ofNat 8 plen.toNat, 58, 255,
    0xfd, 0, 0, 0, 0, 0, 0, 0, 0, 0, 0, 0, 0, 0, 0, 7,
    0xff, 2, 0, 0, 0, 0, 0, 0, 0, 0, 0, 1, 0xff, 0, 0, 1, 135, 0,
    BitVec.ofNat 8 (sum.toNat / 256), BitVec.ofNat 8 sum.toNat, 0, 0, 0, 0,
    0xfd, 0, 0, 0, 0, 0, 0, 0, 0, 0, 0, 0, 0, 0, 0, 1, 1, n] : List Byte).getD i 0

def sampleNsShort : Buf := sampleNs 32 0x7f94 1

def sampleNsLong : Buf := sampleNs 256 0x7e98 29

theorem sampleNs_solicited (plen sum : BitVec 16) (n : Byte) {len : ℕ} {mc : Prop} (hmc : mc)
    (h : ip6Plen (sampleNs plen sum n) + 54 = len) (v : Bool) :
    Solicited sampleIf6 mc v (sampleNs plen sum n) len := by
  have hproto : load (sampleNs plen sum n) 12 2 = ![0x86, 0xdd] := by
    funext i
    fin_cases i <;> rfl
  refine ⟨fun h => ?_, ?_, by omega, rfl, rfl, Or.inl ⟨?_, hmc⟩⟩
  · exact absurd (congrFun h 5) (by simp [hSource, sampleNs, sampleIf6])
  · rw [hProto, hproto]
    decide
  · funext i
    fin_cases i <;> rfl

theorem sampleNsShort_valid : ValidNs sampleVip6 sampleNsShort where
  nxt := rfl
  type := rfl
  code := rfl
  hlim := rfl
  plen := by decide
  checksum := by
    unfold ChecksumOk
    decide +kernel
  src := by decide
  target := by decide
  notMulticast := by decide
  options := (ndOptions_slice (by decide)).mpr ⟨by decide, by decide, ndOptions_nil⟩

theorem sampleNsLong_valid : ValidNs sampleVip6 sampleNsLong where
  nxt := rfl
  type := rfl
  code := rfl
  hlim := rfl
  plen := by decide
  checksum := by
    unfold ChecksumOk
    decide +kernel
  src := by decide
  target := by decide
  notMulticast := by decide
  options := (ndOptions_slice (by decide)).mpr ⟨by decide, by decide, ndOptions_nil⟩

theorem sample_front6 : ∃ s, FrontReach s ∧ s.ifIngress = sampleIf6 ∧ s.vipMode = true := by
  obtain ⟨s, hinit, -⟩ := frontInit_spec (fun _ => ⟨0, 0, 0, 0, .init, 0, 0, 0, 0, none, 0⟩)
    (fun _ => ⟨0, 0, 0, 0, .init, (), 0, 0, 0, none, 0⟩) sampleIf6 true [] []
    ⟨emptySide 4 (BitVec 16) 0, emptySide 16 Unit (), sampleIf6, true, 0, 0, ⟨fun _ => 0, []⟩⟩
  refine ⟨s, .init _ _ _ _ _ _ _ _ hinit, ?_⟩
  obtain ⟨lb4, -, hinit⟩ := bind_eq_ok.mp hinit
  obtain ⟨lb6, -, hinit⟩ := bind_eq_ok.mp hinit
  cases hinit
  exact ⟨rfl, rfl⟩

/-- A backend with the interface `sampleIf6` on its ingress side. -/
def sampleBack6 : BackState :=
  ⟨initClientTable 0 0, ⟨false, false, false, 0, 0, 0, 0⟩, sampleIf6, sampleIf6, true, .l2, false,
    false, 0, 0, ⟨fun _ => 0, []⟩⟩

def sampleResolution : Resolution :=
  ⟨fun _ _ => ⟨true, ![2, 0, 0, 0, 0, 2]⟩, fun _ _ => ⟨true, ![2, 0, 0, 0, 0, 2]⟩,
    fun _ _ => ⟨true, ![2, 0, 0, 0, 0, 2]⟩, fun _ _ => ⟨true, ![2, 0, 0, 0, 0, 2]⟩⟩

/-! ## The answered solicitations -/

/-- **A solicitation is answered exactly when it is valid, unless it is a valid one whose payload
length is a multiple of `256` below `24 * 256`.** -/
theorem ns_answered_iff (lim len : ℕ) (b : Buf) (hlim : len ≤ lim) :
    (∀ (s : FrontState) (o : ℕ → MacOutcomes) (tsc : BitVec 64),
      Solicited s.ifIngress (s.vipMode = true) s.vipMode b len →
        (((∃ r, procRecvData lim o tsc b len s = .ok r ∧ Sent .sendIcmp6Na s.io r.2.io) ↔
            ValidNs s.ifIngress.vip6 b) ↔
          ¬ (ValidNs s.ifIngress.vip6 b ∧ ip6Plen b % 256 = 0 ∧ ip6Plen b < 6144))) ∧
    ∀ (s : BackState) (r : Resolution) (tsc : BitVec 64),
      Solicited s.ifIngress True s.vipMode b len →
        (((∃ x, procIngressData lim r tsc b len s = .ok x ∧ Sent .sendIcmp6Na s.io x.2.io) ↔
            ValidNs s.ifIngress.vip6 b) ↔
          ¬ (ValidNs s.ifIngress.vip6 b ∧ ip6Plen b % 256 = 0 ∧ ip6Plen b < 6144)) := by
  have key : ∀ {ifd : Ifdata} {mc : Prop} {v : Bool}, Solicited ifd mc v b len →
      ((ValidNs ifd.vip6 b ∧ LooksNs b len ↔ ValidNs ifd.vip6 b) ↔
        ¬ (ValidNs ifd.vip6 b ∧ ip6Plen b % 256 = 0 ∧ ip6Plen b < 6144)) := by
    intro ifd mc v h
    have hlooks := fun hv : ValidNs ifd.vip6 b => hv.looksNs_iff h.len
    tauto
  refine ⟨fun s o tsc h => ?_, fun s r tsc h => ?_⟩
  · rw [procRecvData_na hlim h o tsc]
    exact key h
  · rw [procIngressData_na hlim h r tsc]
    exact key h

/-- The sample with a payload of `32` bytes is answered by both translators. -/
theorem ns_answered_short :
    (∃ s r, FrontReach s ∧ procRecvData 1520 (fun _ _ => ⟨true, 0⟩) 0 sampleNsShort 86 s = .ok r ∧
      Sent .sendIcmp6Na s.io r.2.io) ∧
    ∃ x, procIngressData 1520 sampleResolution 0 sampleNsShort 86 sampleBack6 = .ok x ∧
      Sent .sendIcmp6Na sampleBack6.io x.2.io := by
  have hshort : ¬ (ValidNs sampleVip6 sampleNsShort ∧ ip6Plen sampleNsShort % 256 = 0 ∧
      ip6Plen sampleNsShort < 6144) := fun h => absurd h.2.1 (by decide)
  obtain ⟨hfront, hback⟩ := ns_answered_iff 1520 86 sampleNsShort (by decide)
  obtain ⟨s, hs, hif, hvip⟩ := sample_front6
  have hsol := sampleNs_solicited 32 0x7f94 1 hvip (show _ = 86 by decide) s.vipMode
  have hvalid : ValidNs s.ifIngress.vip6 sampleNsShort := hif ▸ sampleNsShort_valid
  obtain ⟨r, hr⟩ := ((hfront s (fun _ _ => ⟨true, 0⟩) 0 (hif ▸ hsol)).mpr (hif ▸ hshort)).mpr hvalid
  refine ⟨⟨s, r, hs, hr⟩, ?_⟩
  exact ((hback sampleBack6 sampleResolution 0 (sampleNs_solicited _ _ _ trivial (by decide) _)).mpr
    hshort).mpr sampleNsShort_valid

/-- The sample with a payload of `256` bytes is valid, and no translator answers it. -/
theorem ns_not_answered_long :
    (∃ s, FrontReach s ∧ Solicited s.ifIngress (s.vipMode = true) s.vipMode sampleNsLong 310 ∧
      ValidNs s.ifIngress.vip6 sampleNsLong ∧ ¬ ∃ r,
        procRecvData 1520 (fun _ _ => ⟨true, 0⟩) 0 sampleNsLong 310 s = .ok r ∧
          Sent .sendIcmp6Na s.io r.2.io) ∧
    Solicited sampleBack6.ifIngress True sampleBack6.vipMode sampleNsLong 310 ∧
      ValidNs sampleBack6.ifIngress.vip6 sampleNsLong ∧ ¬ ∃ x,
        procIngressData 1520 sampleResolution 0 sampleNsLong 310 sampleBack6 = .ok x ∧
          Sent .sendIcmp6Na sampleBack6.io x.2.io := by
  have hlooks : ¬ LooksNs sampleNsLong 310 := fun h => absurd h.1 (by decide)
  obtain ⟨s, hs, hif, hvip⟩ := sample_front6
  have hfront : Solicited s.ifIngress (s.vipMode = true) s.vipMode sampleNsLong 310 :=
    hif ▸ sampleNs_solicited _ _ _ hvip (by decide) _
  have hback : Solicited sampleBack6.ifIngress True sampleBack6.vipMode sampleNsLong 310 :=
    sampleNs_solicited _ _ _ trivial (by decide) _
  refine ⟨⟨s, hs, hfront, by rw [hif]; exact sampleNsLong_valid, ?_⟩, hback, sampleNsLong_valid, ?_⟩
  · rw [procRecvData_na (by decide) hfront]
    exact fun h => hlooks h.2
  · rw [procIngressData_na (by decide) hback]
    exact fun h => hlooks h.2

end Sasat
