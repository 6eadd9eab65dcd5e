import Sasat.Back.ClientWalk
import Sasat.Back.Start
import Sasat.Resolve.Advert

/-!
# What the backend forwards to its server

* `SvrKnown`: the MAC address of the server is there, or it is found in time.
* `Forwards4`, `Forwards6`: a frame is the packet of a client on its way to the server.
* **`procV4In_sent`**, **`procV6In_sent`**: what `proc_v4_in` and `proc_v6_in` write.
* `FamilyOk`: the packets that a step writes to the server are of enabled families, and they go to
  the configured address.
* **`ingress_family_iff`**: `Strays` are the frames for which that fails. The packet path compares
  with the virtual address and looks at the state of the server, but at no family.
-/

namespace Sasat

open Outcome

/-! ## The server -/

/-- The MAC address of the server is known, or the attempt to resolve it ends with `o`. -/
def SvrKnown (s : BackState) (o : MacOutcomes) : Prop := s.svrInfo.stat = true ∨ o.Resolves

theorem resolveMacLoop_iff : ∀ (os : List MacOutcome) (mac : Mac),
    (resolveMacLoop os mac).1 = true ↔ ∃ x ∈ os, x.ok = true ∧ x.mac ≠ 0
  | [], _ => by simp [resolveMacLoop]
  | x :: os, mac => by
    rw [resolveMacLoop]
    simp only [List.mem_cons, exists_eq_or_imp]
    by_cases hok : x.ok = true
    · by_cases hmac : x.mac = 0
      · rw [if_neg (by simp [hok]), if_neg (not_not.mpr hmac), resolveMacLoop_iff os]
        simp [hmac]
      · rw [if_neg (by simp [hok]), if_pos hmac]
        exact ⟨fun _ => Or.inl ⟨hok, hmac⟩, fun _ => rfl⟩
    · rw [if_pos (by simpa using hok), resolveMacLoop_iff os]
      simp [hok]

/-- **A resolution succeeds when one of its attempts ends with a MAC address.** -/
theorem resolveMac_iff (o : MacOutcomes) (mac : Mac) :
    (resolveMac o mac).1 = true ↔ o.Resolves := by
  rw [resolveMac, resolveMacLoop_iff]
  simp only [List.mem_ofFn, MacOutcomes.Resolves]
  constructor
  · rintro ⟨x, ⟨i, rfl⟩, hx⟩
    exact ⟨i, hx⟩
  · rintro ⟨i, hi⟩
    exact ⟨o i, ⟨i, rfl⟩, hi⟩

/-- What the attempt to resolve the server has come to. -/
structure Tried (s : BackState) (o : MacOutcomes) (y : Bool × BackState) : Prop where
  kept : BackKept s y.2
  io : y.2.io = s.io
  found : y.1 = true ↔ SvrKnown s o
  mac : y.1 = true → y.2.svrInfo.svrMac ≠ 0

theorem resolveSvr_found (s : BackState) (ci : ClientInfo) (o : MacOutcomes) :
    ({ s with clientInfo := ci }.resolveSvr o).1 = true ↔ SvrKnown s o := by
  unfold BackState.resolveSvr SvrKnown
  split_ifs with h
  · exact ⟨fun _ => Or.inl h, fun _ => rfl⟩
  · rw [resolveMac_iff]
    exact ⟨Or.inr, fun hc => hc.resolve_left h⟩

theorem resolveSvr_tried {s : BackState} (hm : BackMacs s) (ci : ClientInfo) (o : MacOutcomes) :
    Tried s o ({ s with clientInfo := ci }.resolveSvr o) where
  kept := (BackKept.clientInfo s ci).trans (.resolveSvr o _)
  io := BackKept.resolveSvr_io o _
  found := resolveSvr_found s ci o
  mac := by
    unfold BackState.resolveSvr
    split_ifs with h
    · exact fun _ => hm.svr h
    · exact resolveMac_ne o _

theorem Tried.sent {s : BackState} {o : MacOutcomes} {y : Bool × BackState} (ht : Tried s o y)
    {P : Tx → Prop} {io : Io BackStat}
    (hyes : y.1 = true → ∃ x, io.tx = y.2.io.tx ++ [x] ∧ P x)
    (hno : ¬ y.1 = true → io.tx = y.2.io.tx) :
    (SvrKnown s o → ∃ x, io.tx = s.io.tx ++ [x] ∧ P x) ∧ (¬ SvrKnown s o → io.tx = s.io.tx) := by
  rw [← ht.found, ← ht.io]
  exact ⟨hyes, hno⟩

/-! ## The frames to the server -/

/-- The frame `x` is the IPv4 packet in `b` on its way to the server. -/
structure Forwards4 (s : BackState) (b : Buf) (x : Tx) : Prop where
  sender : x.sender = .procV4In
  fd : x.fd = s.ifEgress.sockfd
  dest : hDest (recvBuf x.bytes) ≠ 0
  proto : hProto (recvBuf x.bytes) = hProto b
  dst : ipDst (recvBuf x.bytes) = s.svrInfo.svrIp4

/-- The frame `x` is the IPv6 packet in `b` on its way to the server. -/
structure Forwards6 (s : BackState) (b : Buf) (x : Tx) : Prop where
  sender : x.sender = .procV6In
  fd : x.fd = s.ifEgress.sockfd
  dest : hDest (recvBuf x.bytes) ≠ 0
  proto : hProto (recvBuf x.bytes) = hProto b
  dst : ip6Dst (recvBuf x.bytes) = s.svrInfo.svrIp6

section

variable {lim : ℕ} {r : Resolution} {tsc : BitVec 64} {b : Buf} {len : ℕ} {s : BackState}

/-- **What `proc_v4_in` writes** of a packet for the virtual address. -/
theorem procV4In_sent (hm : BackMacs s) (hlen : 34 ≤ len) (hdst : ipDst b = s.ifIngress.vip4) :
    Post (fun y => (SvrKnown s (r.ip4 s.svrInfo.svrIp4) →
        ∃ x, y.2.io.tx = s.io.tx ++ [x] ∧ Forwards4 s b x) ∧
      (¬ SvrKnown s (r.ip4 s.svrInfo.svrIp4) → y.2.io.tx = s.io.tx)) (fun _ => True)
        (procV4In r tsc b len s) := by
  refine .ite (fun h => absurd hdst h) fun _ => .bind .trivial fun ci _ => ?_
  have ht := resolveSvr_tried hm ci (r.ip4 s.svrInfo.svrIp4)
  generalize BackState.resolveSvr _ _ = y at ht ⊢
  refine ht.sent (fun hy => ?_) fun hy => ?_
  · unfold forwardV4In
    dsimp only
    rw [if_pos hy]
    refine ⟨_, rfl, rfl, ?_, ?_, ?_, ?_⟩
    · exact congrArg Ifdata.sockfd ht.kept.ifEgress
    · rw [hDest, load_recvBuf_frame (by omega), load_store_of_disjoint _ _ (by omega),
        load_store_of_disjoint _ _ (by omega), load_store_self]
      exact ht.mac hy
    · rw [hProto, load_recvBuf_frame (by omega), load_store_of_disjoint _ _ (by omega),
        load_store_of_disjoint _ _ (by omega), load_store_of_disjoint _ _ (by omega)]
      rfl
    · rw [ipDst, load_recvBuf_frame (by omega), load_store_of_disjoint _ _ (by omega),
        load_store_self]
      exact ht.kept.svrIp4
  · unfold forwardV4In
    dsimp only
    rw [if_neg hy]
    rfl

/-- **What `proc_v6_in` writes** of a packet for the virtual address. -/
theorem procV6In_sent (hm : BackMacs s) (hlen : 54 ≤ len) (hdst : ip6Dst b = s.ifIngress.vip6) :
    Post (fun y => (SvrKnown s (r.ip6 s.svrInfo.svrIp6) →
        ∃ x, y.2.io.tx = s.io.tx ++ [x] ∧ Forwards6 s b x) ∧
      (¬ SvrKnown s (r.ip6 s.svrInfo.svrIp6) → y.2.io.tx = s.io.tx)) (fun _ => True)
        (procV6In r tsc b len s) := by
  refine .ite (fun h => absurd hdst h) fun _ => .bind .trivial fun ci _ => ?_
  have ht := resolveSvr_tried hm ci (r.ip6 s.svrInfo.svrIp6)
  generalize BackState.resolveSvr _ _ = y at ht ⊢
  refine ht.sent (fun hy => ?_) fun hy => ?_
  · unfold forwardV6In
    dsimp only
    rw [if_pos hy]
    refine ⟨_, rfl, rfl, ?_, ?_, ?_, ?_⟩
    · exact congrArg Ifdata.sockfd ht.kept.ifEgress
    · rw [hDest, load_recvBuf_frame (by omega), load_store_of_disjoint _ _ (by omega),
        load_store_self]
      exact ht.mac hy
    · rw [hProto, load_recvBuf_frame (by omega), load_store_of_disjoint _ _ (by omega),
        load_store_of_disjoint _ _ (by omega)]
      rfl
    · rw [ip6Dst, load_recvBuf_frame (by omega), load_store_self]
      exact ht.kept.svrIp6
  · unfold forwardV6In
    dsimp only
    rw [if_neg hy]
    rfl

theorem procV4In_other (hdst : ipDst b ≠ s.ifIngress.vip4) :
    procV4In r tsc b len s = .ok (b, s.stat .rxDropAddrV4In) := if_pos hdst

theorem procV6In_other (hdst : ip6Dst b ≠ s.ifIngress.vip6) :
    procV6In r tsc b len s = .ok (b, s.stat .rxDropAddrV6In) := if_pos hdst

/-- **What a frame of a client makes the backend write**: answers to clients, packets to the
server. -/
theorem backIngress_forwards {P : Tx → Prop} (hm : BackMacs s)
    (ha : ∀ bytes, P ⟨.arpReply, s.ifIngress.sockfd, bytes⟩)
    (hn : ∀ bytes, P ⟨.sendIcmp6Na, s.ifIngress.sockfd, bytes⟩)
    (h4 : ToV4In s b len → ipDst b = s.ifIngress.vip4 → SvrKnown s (r.ip4 s.svrInfo.svrIp4) →
      ∀ x, Forwards4 s b x → P x)
    (h6 : ToV6In lim s b len → ip6Dst b = s.ifIngress.vip6 → SvrKnown s (r.ip6 s.svrInfo.svrIp6) →
      ∀ x, Forwards6 s b x → P x) :
    Post (fun y => Wrote P s.io y.2.io) (fun _ => True) (backIngress lim r tsc b len s) := by
  refine backIngress_wrote ha hn (fun hto => ?_) fun hto => ?_
  · by_cases hdst : ipDst b = s.ifIngress.vip4
    · refine (procV4In_sent (s := s.stat .rxPacketV4In) ⟨hm.svr, hm.gw4, hm.gw6⟩ hto.long
        hdst).mono (fun y hy => ?_) fun _ h => h
      by_cases hknown : SvrKnown s (r.ip4 s.svrInfo.svrIp4)
      · obtain ⟨x, htx, hx⟩ := hy.1 hknown
        exact Or.inr ⟨x, htx, h4 hto hdst hknown x ⟨hx.1, hx.2, hx.3, hx.4, hx.5⟩⟩
      · exact .none (hy.2 hknown)
    · rw [procV4In_other (s := s.stat .rxPacketV4In) hdst]
      exact .none rfl
  · have hlen := hto.long
    by_cases hdst : ip6Dst b = s.ifIngress.vip6
    · refine (procV6In_sent (s := s.stat .rxPacketV6In) ⟨hm.svr, hm.gw4, hm.gw6⟩
        (show 54 ≤ len by omega) hdst).mono (fun y hy => ?_) fun _ h => h
      by_cases hknown : SvrKnown s (r.ip6 s.svrInfo.svrIp6)
      · obtain ⟨x, htx, hx⟩ := hy.1 hknown
        exact Or.inr ⟨x, htx, h6 hto hdst hknown x ⟨hx.1, hx.2, hx.3, hx.4, hx.5⟩⟩
      · exact .none (hy.2 hknown)
    · rw [procV6In_other (s := s.stat .rxPacketV6In) hdst]
      exact .none rfl

/-! ## Disabled families -/

/-- The packets that the step from `s` to `s'` writes to the server are of enabled families, and go
to the server address that is configured for them. -/
def FamilyOk (boot : BackBoot) (s s' : BackState) : Prop :=
  ∀ x ∈ s'.io.tx.drop s.io.tx.length, x.fd = s.ifEgress.sockfd →
    (hProto (recvBuf x.bytes) = ethPIp →
      s.ifIngress.v4Enable = true ∧ boot.svrIp4 = some (ipDst (recvBuf x.bytes))) ∧
    (hProto (recvBuf x.bytes) = ethPIpv6 →
      s.ifIngress.v6Enable = true ∧ boot.svrIp6 = some (ip6Dst (recvBuf x.bytes)))

/-- A packet of a disabled family for the virtual address, while the server can be reached. -/
def Strays (lim : ℕ) (r : Resolution) (b : Buf) (len : ℕ) (s : BackState) : Prop :=
  (s.ifIngress.v4Enable = false ∧ ToV4In s b len ∧ ipDst b = s.ifIngress.vip4 ∧
    SvrKnown s (r.ip4 s.svrInfo.svrIp4)) ∨
  (s.ifIngress.v6Enable = false ∧ ToV6In lim s b len ∧ ip6Dst b = s.ifIngress.vip6 ∧
    SvrKnown s (r.ip6 s.svrInfo.svrIp6))

theorem backIngress_sent4 {s' : BackState} {b' : Buf} (hm : BackMacs s) (hto : ToV4In s b len)
    (hdst : ipDst b = s.ifIngress.vip4) (hknown : SvrKnown s (r.ip4 s.svrInfo.svrIp4))
    (hrun : backIngress lim r tsc b len s = .ok (b', s')) :
    ∃ x ∈ s'.io.tx.drop s.io.tx.length, Forwards4 s b x := by
  rw [backIngress_v4 hto] at hrun
  have hsent := (procV4In_sent (s := s.stat .rxPacketV4In) ⟨hm.svr, hm.gw4, hm.gw6⟩ hto.long
    hdst).of_ok hrun
  obtain ⟨x, htx, hx⟩ := hsent.1 hknown
  exact ⟨x, mem_drop_of_append htx, hx.1, hx.2, hx.3, hx.4, hx.5⟩

theorem backIngress_sent6 {s' : BackState} {b' : Buf} (hm : BackMacs s) (hto : ToV6In lim s b len)
    (hdst : ip6Dst b = s.ifIngress.vip6) (hknown : SvrKnown s (r.ip6 s.svrInfo.svrIp6))
    (hrun : backIngress lim r tsc b len s = .ok (b', s')) :
    ∃ x ∈ s'.io.tx.drop s.io.tx.length, Forwards6 s b x := by
  have hlen := hto.long
  rw [backIngress_v6 hto] at hrun
  have hsent := (procV6In_sent (s := s.stat .rxPacketV6In) ⟨hm.svr, hm.gw4, hm.gw6⟩
    (show 54 ≤ len by omega) hdst).of_ok hrun
  obtain ⟨x, htx, hx⟩ := hsent.1 hknown
  exact ⟨x, mem_drop_of_append htx, hx.1, hx.2, hx.3, hx.4, hx.5⟩

/-- **A disabled family is not translated, unless a packet of it strays.** -/
theorem ingress_family_iff {boot : BackBoot} {s' : BackState} {b' : Buf} (h : BackRun boot s)
    (hrun : backIngress lim r tsc b len s = .ok (b', s')) :
    FamilyOk boot s s' ↔ ¬ Strays lim r b len s := by
  have hset := h.settled
  have hm := h.macs
  constructor
  · rintro hok (⟨hdis, hto, hdst, hknown⟩ | ⟨hdis, hto, hdst, hknown⟩)
    · obtain ⟨x, hmem, hx⟩ := backIngress_sent4 hm hto hdst hknown hrun
      have hen := ((hok x hmem hx.fd).1 (hx.proto.trans hto.proto)).1
      exact Bool.noConfusion (hdis.symm.trans hen)
    · obtain ⟨x, hmem, hx⟩ := backIngress_sent6 hm hto hdst hknown hrun
      have hen := ((hok x hmem hx.fd).2 (hx.proto.trans hto.proto)).1
      exact Bool.noConfusion (hdis.symm.trans hen)
  · intro hstray
    refine ((backIngress_forwards hm (fun _ hfd => absurd hfd hset.sockfd)
      (fun _ hfd => absurd hfd hset.sockfd) (fun hto hdst hknown x hx _ => ?_)
        fun hto hdst hknown x hx _ => ?_).of_ok hrun).drop
    · have hen : s.ifIngress.v4Enable = true :=
        Bool.of_not_eq_false fun hdis => hstray (Or.inl ⟨hdis, hto, hdst, hknown⟩)
      refine ⟨fun _ => ⟨hen, ?_⟩, fun h6 => ?_⟩
      · rw [hx.dst]
        exact hset.svr4 hen
      · rw [hx.proto, hto.proto] at h6
        exact absurd h6 (by decide)
    · have hen : s.ifIngress.v6Enable = true :=
        Bool.of_not_eq_false fun hdis => hstray (Or.inr ⟨hdis, hto, hdst, hknown⟩)
      refine ⟨fun h4 => ?_, fun _ => ⟨hen, ?_⟩⟩
      · rw [hx.proto, hto.proto] at h4
        exact absurd h4 (by decide)
      · rw [hx.dst]
        exact hset.svr6 hen

theorem procV4In_ok (r : Resolution) (len : ℕ) {ci : ClientInfo}
    (h : getCiUp4 tsc (ipSrc b) s.clientInfo = .ok ci) :
    ∃ b' s', procV4In r tsc b len s = .ok (b', s') := by
  by_cases hdst : ipDst b = s.ifIngress.vip4
  · rw [procV4In, if_neg (not_not.mpr hdst), h]
    exact ⟨_, _, rfl⟩
  · exact ⟨_, _, procV4In_other hdst⟩

theorem procV6In_ok (r : Resolution) (len : ℕ) {ci : ClientInfo}
    (h : getCiUp6 tsc (ip6Src b) s.clientInfo = .ok ci) :
    ∃ b' s', procV6In r tsc b len s = .ok (b', s') := by
  by_cases hdst : ip6Dst b = s.ifIngress.vip6
  · rw [procV6In, if_neg (not_not.mpr hdst), h]
    exact ⟨_, _, rfl⟩
  · exact ⟨_, _, procV6In_other hdst⟩

end

/-- An IPv4 packet of a client for `10.0.0.9`. -/
def samplePacket4 : Buf := fun i =>
  ([2, 0, 0, 0, 0, 1, 2, 0, 0, 0, 0, 7, 8, 0, 0x45, 0, 0, 46, 0, 0, 0, 0, 64, 17, 0, 0,
    10, 0, 0, 7, 10, 0, 0, 9] : List Byte).getD i 0

/-- An IPv6 packet of a client for `fd00::9`. -/
def samplePacket6 : Buf := fun i =>
  ([2, 0, 0, 0, 0, 1, 2, 0, 0, 0, 0, 7, 0x86, 0xdd, 0x60, 0, 0, 0, 0, 8, 17, 64,
    0xfd, 0, 0, 0, 0, 0, 0, 0, 0, 0, 0, 0, 0, 0, 0, 7,
    0xfd, 0, 0, 0, 0, 0, 0, 0, 0, 0, 0, 0, 0, 0, 0, 9] : List Byte).getD i 0

theorem sampleBoot_clients : (∃ ci, getCiUp4 0 (ipSrc samplePacket4) sampleBoot.start.clientInfo =
    .ok ci) ∧ ∃ ci, getCiUp6 0 (ip6Src samplePacket6) sampleBoot.start.clientInfo = .ok ci := by
  have hcl : sampleBoot.start.clientInfo = initClientTable 0 0 := rfl
  obtain ⟨t4, h4, -⟩ := CiTable.getCi_initial cliHash4 0 (ipSrc samplePacket4)
  obtain ⟨t6, h6, -⟩ := CiTable.getCi_initial cliHash6 0 (ip6Src samplePacket6)
  rw [hcl, getCiUp4, getCiUp6]
  refine ⟨⟨{ initClientTable 0 0 with up4 := t4 }, ?_⟩,
    ⟨{ initClientTable 0 0 with up6 := t6 }, ?_⟩⟩
  · change CiTable.getCi cliHash4 0 _ .initial >>= _ = _
    rw [h4]
    rfl
  · change CiTable.getCi cliHash6 0 _ .initial >>= _ = _
    rw [h6]
    rfl

def sampleResolution0 : Resolution :=
  ⟨fun _ => sampleOutcomes 1, fun _ => sampleOutcomes 1, fun _ => sampleOutcomes 0,
    fun _ => sampleOutcomes 0⟩

theorem ingress_family_iff_sample : ∃ b' s',
    backIngress 1520 sampleResolution0 0 samplePacket4 60 sampleBoot.start = .ok (b', s') ∧
      FamilyOk sampleBoot sampleBoot.start s' := by
  have hto : ToV4In sampleBoot.start samplePacket4 60 :=
    ⟨by decide +kernel, by decide, by decide, by decide⟩
  obtain ⟨ci, hci⟩ := sampleBoot_clients.1
  obtain ⟨b', s', hrun⟩ := procV4In_ok sampleResolution0 60
    (s := sampleBoot.start.stat .rxPacketV4In) hci
  have hin : backIngress 1520 sampleResolution0 0 samplePacket4 60 sampleBoot.start =
      .ok (b', s') := (backIngress_v4 hto).trans hrun
  refine ⟨b', s', hin, (ingress_family_iff .init hin).mpr ?_⟩
  rintro (⟨hdis, -⟩ | ⟨-, hto6, -⟩)
  · exact absurd hdis (by decide +kernel)
  · exact absurd hto6.proto (by decide)

/-- IPv6 is disabled, and an IPv6 packet is written to the server, for the address `::`. -/
theorem ingress_family_stray : ∃ b' s', BackRun sampleBoot sampleBoot.start ∧
    backIngress 1520 sampleResolution0 0 samplePacket6 62 sampleBoot.start = .ok (b', s') ∧
      ¬ FamilyOk sampleBoot sampleBoot.start s' := by
  have hto : ToV6In 1520 sampleBoot.start samplePacket6 62 :=
    ⟨by decide +kernel, by decide, by decide, by decide, rfl⟩
  obtain ⟨ci, hci⟩ := sampleBoot_clients.2
  obtain ⟨b', s', hrun⟩ := procV6In_ok sampleResolution0 62
    (s := sampleBoot.start.stat .rxPacketV6In) hci
  have hin : backIngress 1520 sampleResolution0 0 samplePacket6 62 sampleBoot.start =
      .ok (b', s') := (backIngress_v6 hto).trans hrun
  refine ⟨b', s', .init, hin, fun hok => ?_⟩
  obtain ⟨x, hmem, hx⟩ := backIngress_sent6 (start_macs _) hto (by decide +kernel)
    (Or.inl (by decide +kernel)) hin
  have hen := ((hok x hmem hx.fd).2 (hx.proto.trans hto.proto)).1
  exact absurd hen (by decide +kernel)

end Sasat
