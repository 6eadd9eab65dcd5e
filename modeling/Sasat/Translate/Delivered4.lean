import Sasat.Translate.Relay

/-!
# IPv4 packets from the clients to the server

Between the translators the routers of the network change the time to live of an IPv4 packet, and
its header checksum with it.

* `HeaderOk`: the header checksum verifies.
* `Carried4`: what the network does to a packet.
* `Stage.headerOk`: a translator keeps a header that verifies; **`Stage.undo`**: the second stage
  undoes the first.
* **`delivered4`**: over all runs of both translators; `delivered4_sample`.
-/

namespace Sasat

open Outcome List OnesComplement

/-- `ip_ttl` in a frame. -/
def ttlOffset : ℕ := 22

/-- The words of the IPv4 header in a frame, by its header length field. -/
def headerLen (b : Buf) : ℕ := 2 * (b 14 &&& 0x0f).toNat

/-- The IPv4 header in a frame of `len` bytes is complete, and its checksum verifies. -/
def HeaderOk (b : Buf) (len : ℕ) : Prop :=
  10 ≤ headerLen b ∧ 14 + 2 * headerLen b ≤ len ∧ onesSum (headerWords b (headerLen b)) = 0xffff

/-- The frame in `b` brings the IPv4 packet of the frame `bytes`, but for its time to live. The
header checksum has been changed with it. Padding may come behind the packet. -/
structure Carried4 (b : Buf) (len : ℕ) (bytes : List Byte) : Prop where
  header : HeaderOk (recvBuf bytes) bytes.length → HeaderOk b len
  length : bytes.length ≤ len
  bytes : ∀ i, 14 ≤ i → i < bytes.length → i ≠ ttlOffset → ¬ (24 ≤ i ∧ i < 26) →
    bytes[i]? = some (b i)

section

variable {b b' : Buf} {len len' : ℕ}

theorem HeaderOk.congr (h : HeaderOk b len) (hb : ∀ i, 14 ≤ i → i < len → b' i = b i)
    (hlen : len ≤ len') : HeaderOk b' len' := by
  obtain ⟨h10, hlong, hsum⟩ := h
  have hl : headerLen b' = headerLen b := by rw [headerLen, headerLen, hb 14 le_rfl (by omega)]
  have hw : headerWords b' (headerLen b) = headerWords b (headerLen b) := by
    refine map_congr_left fun k hk => congrArg (fun v => ntohs (le16 v)) (funext fun j => ?_)
    have := mem_range.mp hk
    exact hb _ (by omega) (by omega)
  refine ⟨hl ▸ h10, by rw [hl]; omega, ?_⟩
  rw [hl, hw]
  exact hsum

theorem HeaderOk.translateFrame (h : HeaderOk b len) (new : InAddr) :
    HeaderOk (translateFrame b (ipDst b) new) len := by
  obtain ⟨h10, hlong, hsum⟩ := h
  have hl : headerLen (Sasat.translateFrame b (ipDst b) new) = headerLen b := by
    rw [headerLen, headerLen, translateFrame_of_not (by omega) (by omega)]
  have hdst := hasDst_headerWords (b := b) h10
  refine ⟨hl ▸ h10, by rw [hl]; exact hlong, ?_⟩
  rw [hl, headerWords_translateFrame h10]
  obtain ⟨hne, hmod⟩ := onesSum_eq_full.mp hsum
  refine onesSum_eq_full.mpr ⟨?_, (wordSum_translate hdst new).trans hmod⟩
  -- the word with the header length is not zero
  have hother : HasOther (headerWords b (headerLen b)) := by
    refine ⟨0, _, by decide, by decide, by decide, getElem?_headerWords (by omega), fun h0 => ?_⟩
    have hword := toNat_ntohs_le16 (load b (14 + 2 * 0) 2)
    rw [h0] at hword
    have h14 : b 14 = 0 := BitVec.eq_of_toNat_eq (by
      change 0 = 256 * (b 14).toNat + _ at hword
      change (b 14).toNat = 0
      omega)
    rw [headerLen, h14] at h10
    exact absurd h10 (by decide)
  rw [translate, wordSum_rewriteDst hdst.length]
  have := restSum_ne_zero hother
  omega

end

/-- **A translator keeps a header that verifies.** -/
theorem Stage.headerOk {old new : InAddr} {b : Buf} {len : ℕ} {x : Tx} (h : Stage old new b len x)
    (hok : HeaderOk b len) : HeaderOk (recvBuf x.bytes) x.bytes.length := by
  have htr := hok.translateFrame new
  rw [h.dst] at htr
  refine htr.congr (fun i hi hil => ?_) h.length.ge
  rw [recvBuf, List.getD_eq_getElem?_getD, h.bytes i hi hil, Option.getD_some]

/-- **The second stage undoes the first**, when the server has the virtual address of the front
translator: it gets the packet that the client has sent. -/
theorem Stage.undo {b₁ b₂ : Buf} {len₁ len₂ : ℕ} {vip new old : InAddr} {x y : Tx}
    (hx : Stage vip new b₁ len₁ x) (hcarry : Carried4 b₂ len₂ x.bytes)
    (hy : Stage old vip b₂ len₂ y) :
    Carried4 (recvBuf y.bytes) y.bytes.length (frame b₁ len₁) := by
  have hlen := hcarry.length
  have hlx := hx.length
  have hly := hy.length
  refine ⟨fun hok => ?_, by rw [length_frame]; omega, fun i hi hil hne hsum => ?_⟩
  · rw [length_frame] at hok
    have hok₁ : HeaderOk b₁ len₁ := hok.congr (fun i _ hil => (recvBuf_frame hil).symm) le_rfl
    exact hy.headerOk (hcarry.header (hx.headerOk hok₁))
  · rw [length_frame] at hil
    rw [getElem?_frame hil, recvBuf, List.getD_eq_getElem?_getD, hy.bytes i hi (by omega),
      Option.getD_some]
    by_cases hdst : 30 ≤ i ∧ i < 34
    · rw [translateFrame_apply_dst hdst, ← hx.dst, ipDst, load_apply]
      exact congrArg (fun j => some (b₁ j)) (by dsimp only; omega)
    · have hcar := hcarry.bytes i hi (by omega) hne hsum
      rw [hx.bytes i hi hil, translateFrame_of_not hsum hdst] at hcar
      rw [translateFrame_of_not hsum hdst]
      exact hcar

/-- The backend takes the frame for an IPv4 packet to its server. -/
def ForServer4 (s : BackState) (a : BackArrival) : Prop :=
  (a.thread = .ingress ∧ hProto a.buf = ethPIp) ∧ ipDst a.buf = s.ifIngress.vip4

instance (s : BackState) : DecidablePred (ForServer4 s) :=
  fun _ => inferInstanceAs (Decidable (_ ∧ _))

/-- **The server gets the packets of the clients**, over IPv4. Where the network between the
translators loses packets and changes their times to live, and the server has the virtual address of
the front translator, the packets that come to the server are those that came to the front
translator, each at most once and in their order, and the header checksums of those that verified
still do. -/
theorem delivered4 {s₁ s₁' : FrontState} {s₂ s₂' : BackState} {as₁ : List FrontArrival}
    {as₂ : List BackArrival} {xs₁ xs₂ : List Tx} (h₁ : FrontReach s₁)
    (h₂ : BackReach (some s₁.vip4) s₂)
    (hrun₁ : as₁.foldlM FrontState.recv s₁ = .ok s₁') (htx₁ : s₁'.io.tx = s₁.io.tx ++ xs₁)
    (hnet : SublistForall₂ (fun (a : BackArrival) (x : Tx) => Carried4 a.buf a.len x.bytes)
      (as₂.filter (ForServer4 s₂)) (xs₁.filter fun x => x.sender = .procV4))
    (hrun₂ : as₂.foldlM BackState.recv s₂ = .ok s₂') (htx₂ : s₂'.io.tx = s₂.io.tx ++ xs₂) :
    SublistForall₂ (fun (y : Tx) (a : FrontArrival) =>
        Carried4 (recvBuf y.bytes) y.bytes.length (frame a.buf a.len))
      (xs₂.filter fun x => x.sender = .procV4In) as₁ := by
  obtain ⟨hip, hd⟩ := h₂.delta
  obtain ⟨ys₁, hys₁, hrel₁⟩ := front_relays h₁ hrun₁
  obtain ⟨ys₂, hys₂, hrel₂⟩ := back_relays hrun₂
  obtain rfl := append_cancel_left (htx₁.symm.trans hys₁)
  obtain rfl := append_cancel_left (htx₂.symm.trans hys₂)
  refine Relay.network hrel₂ hrel₁ (fun y a hy hya => ⟨(hya.v4In hy).1, (hya.v4In hy).2.dst⟩)
    hnet fun y a₂ x a₁ hy hya hcarry hx hxa => ?_
  obtain ⟨new, hst₁⟩ := hxa.v4 hx
  have hst₂ := (hya.v4In hy).2
  rw [hip] at hst₂
  exact hst₁.undo hcarry (hst₂.stage hd)

theorem delivered4_back {b : Buf} {len : ℕ} (hlen : 34 ≤ len)
    (hsrc : hSource b = ![2, 0, 0, 0, 0, 3]) (hdest : isMulticast (hDest b) = false)
    (hproto : hProto b = ethPIp) (hdst : ipDst b = ![10, 0, 0, 2]) :
    ∃ s s' x, BackReach (some ![10, 0, 0, 1]) s ∧ s.ifIngress.vip4 = ![10, 0, 0, 2] ∧
      [⟨.ingress, len, relayResolution, 0, b, len⟩].foldlM BackState.recv s = .ok s' ∧
        s'.io.tx = s.io.tx ++ [x] ∧ x.sender = .procV4In := by
  obtain ⟨t, hci, -⟩ := CiTable.getCi_initial cliHash4 0 (ipSrc b)
  obtain ⟨s, hs⟩ : ∃ s, s = backInit (some ![10, 0, 0, 1]) none sampleMac sampleMac sampleMac
    sampleMac .l2 0 0 sampleBack := ⟨_, rfl⟩
  have hcl : s.clientInfo = initClientTable 0 0 := by rw [hs]; rfl
  have hif : s.ifIngress = sampleIf ![10, 0, 0, 2] := by rw [hs]; rfl
  have hup : getCiUp4 0 (ipSrc b) s.clientInfo = .ok { initClientTable 0 0 with up4 := t } := by
    rw [hcl, getCiUp4]
    change CiTable.getCi cliHash4 0 (ipSrc b) .initial >>= _ = _
    rw [hci]
    rfl
  obtain ⟨b', s', x, hrun, htx, hx⟩ := procV4In_forwards (s := s.stat .rxPacketV4In)
    relayResolution 0 len (show _ = s.ifIngress.vip4 by rw [hif]; exact hdst) hup
    (show s.svrInfo.stat = true by rw [hs]; rfl)
  have hto : ToV4In s b len := ⟨by rw [hsrc, hif]; decide, hdest, hproto, hlen⟩
  refine ⟨s, s', x, hs ▸ .init none _ _ _ _ _ _ _ _, by rw [hif]; rfl, ?_, htx, hx⟩
  rw [foldlM_cons, BackState.recv]
  change (backIngress len relayResolution 0 b len s >>= _) >>= _ = _
  rw [backIngress_v4 hto, hrun]
  rfl

def delivered4Frame : Buf := store sampleFrame 24 ![0xb0, 0x11]

theorem delivered4_front : ∃ s s' x, FrontReach s ∧ s.vip4 = ![10, 0, 0, 1] ∧
    [⟨60, fun _ => sampleMac, 0, delivered4Frame, 60⟩].foldlM FrontState.recv s = .ok s' ∧
      s'.io.tx = s.io.tx ++ [x] ∧ x.sender = .procV4 ∧ 60 ≤ x.bytes.length ∧
        ipDst (recvBuf x.bytes) = ![10, 0, 0, 2] := by
  obtain ⟨s, mac, hinit, hvip, hmac, hc⟩ := sample_init
  rw [show ipSrc sampleFrame = ipSrc delivered4Frame by decide] at hc
  have h : FrontReach s := .init _ _ _ _ _ _ _ _ hinit
  obtain ⟨hs, hconf, -⟩ := h.inv
  obtain ⟨b', s', x, hrun, htx, hx⟩ := frontIngress1_forwards h 60 (fun _ => sampleMac) 0
    (show 34 < 60 by decide) (show hSource delivered4Frame ≠ _ by rw [hmac]; decide) (by decide)
    (by decide) (show ipDst delivered4Frame = _ by rw [hvip]; decide) hc
  have hrecv : s.recv ⟨60, fun _ => sampleMac, 0, delivered4Frame, 60⟩ = .ok s' := by
    rw [FrontState.recv]
    change frontIngress1 60 (fun _ => sampleMac) 0 delivered4Frame 60 s >>= _ = _
    rw [hrun]
    rfl
  obtain ⟨new, hst⟩ := ((s.recv_sent hs hconf hrecv).2.of_eq htx).v4 hx
  have hext := ((frontIngress1_handled hs 60 (fun _ => sampleMac) 0 delivered4Frame 60).of_ok
    hrun).ext4
  have hsent := ((frontIngress1_chosen hs 60).of_ok hrun).of_eq htx
  refine ⟨s, s', x, h, hvip, ?_, htx, hx, hst.length.ge,
    ((hc.mono hext).unique (hsent.v4 hx)).1⟩
  rw [foldlM_cons, hrecv]
  rfl

theorem delivered4_sample : ∃ y : Tx, y.sender = .procV4In ∧
    Carried4 (recvBuf y.bytes) y.bytes.length (frame delivered4Frame 60) ∧
      HeaderOk (recvBuf y.bytes) y.bytes.length := by
  obtain ⟨s₁, s₁', x₁, h₁, hvip, hrun₁, htx₁, hx₁, hlen, hdst⟩ := delivered4_front
  -- the backend is the next hop
  obtain ⟨b₂, hb₂⟩ : ∃ b₂ : Buf, b₂ = store (store (store (recvBuf x₁.bytes)
    0 ![2, 0, 0, 0, 0, 1]) 6 ![2, 0, 0, 0, 0, 3]) 12 ![8, 0] := ⟨_, rfl⟩
  have hsame : ∀ i, 14 ≤ i → b₂ i = recvBuf x₁.bytes i := fun i hi => by
    rw [hb₂, store_apply_of_not _ _ (by omega), store_apply_of_not _ _ (by omega),
      store_apply_of_not _ _ (by omega)]
  have hsrc₂ : hSource b₂ = ![2, 0, 0, 0, 0, 3] := by
    rw [hb₂, hSource, load_store_of_disjoint _ _ (by omega), load_store_self]
  have hdest₂ : hDest b₂ = ![2, 0, 0, 0, 0, 1] := by
    rw [hb₂, hDest, load_store_of_disjoint _ _ (by omega), load_store_of_disjoint _ _ (by omega),
      load_store_self]
  have hproto₂ : hProto b₂ = ethPIp := by
    rw [hb₂, hProto, load_store_self]
    rfl
  have hdst₂ : ipDst b₂ = ![10, 0, 0, 2] := by
    rw [← hdst]
    exact funext fun k => hsame _ (by omega)
  obtain ⟨s₂, s₂', y, h₂, hvip₂, hrun₂, htx₂, hy⟩ := delivered4_back
    (show 34 ≤ x₁.bytes.length by omega) hsrc₂ (by rw [hdest₂]; decide) hproto₂ hdst₂
  have hrel := delivered4 h₁ (hvip ▸ h₂) hrun₁ htx₁ (by
    rw [List.filter_cons_of_pos (by exact decide_eq_true ⟨⟨rfl, hproto₂⟩, hdst₂.trans hvip₂.symm⟩),
      List.filter_cons_of_pos (by simpa using hx₁)]
    refine .cons ⟨fun hok => hok.congr (fun i hi _ => hsame i hi) le_rfl, le_rfl,
      fun i hi hil _ _ => ?_⟩ .nil
    change _ = some (b₂ i)
    rw [hsame i hi, recvBuf, List.getD_eq_getElem?_getD, List.getElem?_eq_getElem hil]
    rfl) hrun₂ htx₂
  rw [List.filter_cons_of_pos (by simpa using hy)] at hrel
  cases hrel with
  | cons h _ => exact ⟨y, hy, h, h.header ⟨by decide, by decide, by decide⟩⟩
  | cons_right h => cases h

end Sasat
