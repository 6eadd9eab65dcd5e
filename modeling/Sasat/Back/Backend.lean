import Sasat.Back.MacResolution
import Sasat.Common.FrameClass
import Sasat.Lib.Outcome

/-!
# `backend.c`

* `procV4In`, `procV6In`, `procIngressData`: frames of clients.
* `procV4Eg`, `procV6Eg`, `procEgressData`: frames of the server.
* `ingressClass`, `ingressClassDo`, `egressClass`, `egressClassDo`: the class of a frame and what is
  done with it; **`backIngress_post`**, **`backEgress_post`**: nothing else is.
* `ToV4In`, `ToV6In`: the frames that are handed to `proc_v4_in` and `proc_v6_in`;
  **`backIngress_wrote`**, **`backEgress_wrote`**: the frames that are written.
* `HandlerRel`: a relation that contains what the handlers do; **`backIngress_rel`**,
  **`backEgress_rel`**: the handling of a frame stays in it. `BackKept`: what it keeps.
* `BackReach`: the states of the running backend with a server address.
* **`BackReach.delta`**: in all of them the checksum delta is that of the two addresses.
-/

namespace Sasat

open Outcome

/-! ## Frames of clients -/

/-- The attempt of `proc_v4_in` and `proc_v6_in` to resolve a server without a MAC address. -/
def BackState.resolveSvr (o : MacOutcomes) (s : BackState) : Bool × BackState :=
  if s.svrInfo.stat then (true, s)
  else
    let r := resolveMac o s.svrInfo.svrMac
    (r.1, { s with svrInfo := { s.svrInfo with stat := r.1, svrMac := r.2 } })

/-- The end of `proc_v4_in`, on what the attempt to resolve the server has come to. -/
def forwardV4In (b : Buf) (len : ℕ) (x : Bool × BackState) : Buf × BackState :=
  let s := x.2
  if x.1 then
    let b := store b 0 s.svrInfo.svrMac
    let b := store b 30 s.svrInfo.svrIp4
    let b := store b 24
      (bytes16 (ntohs (add16forCheckSum (ntohs (ipSumField b)) s.svrInfo.checksumDelta)))
    (b, (s.writeEg .procV4In (frame b len)).stat .txPacketV4In)
  else (b, s.stat .rxDropIn)

/-- `proc_v4_in`. -/
def procV4In (r : Resolution) (tsc : BitVec 64) (b : Buf) (len : ℕ) (s : BackState) :
    M (Buf × BackState) :=
  if ipDst b ≠ s.ifIngress.vip4 then .ok (b, s.stat .rxDropAddrV4In)
  else do
    let ci ← getCiUp4 tsc (ipSrc b) s.clientInfo
    .ok (forwardV4In b len ({ s with clientInfo := ci }.resolveSvr (r.ip4 s.svrInfo.svrIp4)))

/-- The end of `proc_v6_in`, on what the attempt to resolve the server has come to. -/
def forwardV6In (b : Buf) (len : ℕ) (x : Bool × BackState) : Buf × BackState :=
  let s := x.2
  if x.1 then
    let b := store b 0 s.svrInfo.svrMac
    let b := store b 38 s.svrInfo.svrIp6
    (b, (s.writeEg .procV6In (frame b len)).stat .txPacketV6In)
  else (b, s.stat .rxDropIn)

/-- `proc_v6_in`. -/
def procV6In (r : Resolution) (tsc : BitVec 64) (b : Buf) (len : ℕ) (s : BackState) :
    M (Buf × BackState) :=
  if ip6Dst b ≠ s.ifIngress.vip6 then .ok (b, s.stat .rxDropAddrV6In)
  else do
    let ci ← getCiUp6 tsc (ip6Src b) s.clientInfo
    .ok (forwardV6In b len ({ s with clientInfo := ci }.resolveSvr (r.ip6 s.svrInfo.svrIp6)))

/-- `proc_ingress_data`. -/
def procIngressData (lim : ℕ) (r : Resolution) (tsc : BitVec 64) (b : Buf) (len : ℕ)
    (s : BackState) : M (Buf × BackState) :=
  if hSource b = s.ifIngress.mac then .ok (b, s)
  else if isMulticast (hDest b) then do
    let x ← macResolve backArpStats lim s.ifIngress (hProto b) len b (s.io.stat .rxPacketMcIn)
    .ok (x.1, { s with io := x.2 })
  else if hProto b = ethPIp then
    if 34 ≤ len then procV4In r tsc b len (s.stat .rxPacketV4In)
    else .ok (b, (s.stat .rxPacketV4In).stat .rxDropShortIn)
  else if hProto b = ethPIpv6 then
    if 54 < len then do
      let ns ← isIcmp6Ns lim b len
      if ns then
        if s.vipMode then do
          let io ← macResolveUc6 backArpStats lim s.ifIngress len b (s.io.stat .rxPacketV6In)
          .ok (b, { s with io := io })
        else .ok (b, s.stat .rxPacketV6In)
      else procV6In r tsc b len (s.stat .rxPacketV6In)
    else .ok (b, (s.stat .rxPacketV6In).stat .rxDropShortIn)
  else if hProto b = ethPArp then
    if s.ifIngress.v4Enable then
      let x := arpReply backArpStats s.ifIngress b s.io
      .ok (x.2.1, { s with io := if x.1 then x.2.2.stat .txArpReplyIn else x.2.2 })
    else .ok (b, s)
  else .ok (b, s.stat .rxDropNoipIn)

/-! ## Frames of the server -/

/-- The default gateway is looked up, by `get_gw_mac4`, unless its MAC address is known. -/
def BackState.gwKnown4 (o : MacOutcomes) (s : BackState) : BackState :=
  if s.gwMacV4Valid then s else s.getDefaultGw4 o

/-- The default gateway is looked up, by `get_gw_mac6`, unless its MAC address is known. -/
def BackState.gwKnown6 (o : MacOutcomes) (s : BackState) : BackState :=
  if s.gwMacV6Valid then s else s.getDefaultGw6 o

/-- `proc_v4_eg_vip`. -/
def procV4EgVip (tsc : BitVec 64) (b : Buf) (len : ℕ) (s : BackState) : M (Buf × BackState) := do
  let ci ← getCiDwn4 tsc (ipDst b) s.clientInfo
  let s := { s with clientInfo := ci }
  .ok (b, (s.writeIn .procV4Eg (frame b len)).stat .txPacketV4Eg)

/-- `proc_v4_eg_novip`. -/
def procV4EgNovip (r : Resolution) (tsc : BitVec 64) (b : Buf) (len : ℕ) (s : BackState) :
    M (Buf × BackState) := do
  let ci ← getCiDwn4 tsc (ipDst b) s.clientInfo
  let s := { s with clientInfo := ci }
  if hDest b = s.ifEgress.mac then
    let s := s.gwKnown4 (r.gw4 0)
    if s.gwMacV4Valid then
      let b := store b 0 s.gwMacV4
      .ok (b, (s.writeIn .procV4Eg (frame b len)).stat .txPacketV4Eg)
    else .ok (b, s.stat .txDropMac4)
  else .ok (b, (s.writeIn .procV4Eg (frame b len)).stat .txPacketV4Eg)

/-- `proc_v4_eg`, the entry of `v4_eg_list` for `vip_mode`. -/
def procV4Eg (r : Resolution) (tsc : BitVec 64) (b : Buf) (len : ℕ) (s : BackState) :
    M (Buf × BackState) :=
  if s.vipMode then procV4EgVip tsc b len s else procV4EgNovip r tsc b len s

/-- `proc_v6_eg_vip`. -/
def procV6EgVip (tsc : BitVec 64) (b : Buf) (len : ℕ) (s : BackState) : M (Buf × BackState) := do
  let ci ← getCiDwn6 tsc (ip6Dst b) s.clientInfo
  let s := { s with clientInfo := ci }
  .ok (b, (s.writeIn .procV6Eg (frame b len)).stat .txPacketV6Eg)

/-- `proc_v6_eg_novip`. -/
def procV6EgNovip (r : Resolution) (tsc : BitVec 64) (b : Buf) (len : ℕ) (s : BackState) :
    M (Buf × BackState) := do
  let ci ← getCiDwn6 tsc (ip6Dst b) s.clientInfo
  let s := { s with clientInfo := ci }
  if hDest b = s.ifEgress.mac then
    let s := s.gwKnown6 (r.gw6 0)
    if s.gwMacV6Valid then
      let b := store b 0 s.gwMacV6
      .ok (b, (s.writeIn .procV6Eg (frame b len)).stat .txPacketV6Eg)
    else .ok (b, s.stat .txDropMac6)
  else .ok (b, (s.writeIn .procV6Eg (frame b len)).stat .txPacketV6Eg)

/-- `proc_v6_eg`, the entry of `v6_eg_list` for `vip_mode`. -/
def procV6Eg (r : Resolution) (tsc : BitVec 64) (b : Buf) (len : ℕ) (s : BackState) :
    M (Buf × BackState) :=
  if s.vipMode then procV6EgVip tsc b len s else procV6EgNovip r tsc b len s

/-- `proc_egress_data`. -/
def procEgressData (lim : ℕ) (r : Resolution) (tsc : BitVec 64) (b : Buf) (len : ℕ)
    (s : BackState) : M (Buf × BackState) :=
  if hSource b = s.ifEgress.mac then .ok (b, s)
  else if isMulticast (hDest b) then
    macResolveEgress lim r (hProto b) len b (s.stat .rxPacketMcEg)
  else if hProto b = ethPIp then
    if 34 ≤ len then procV4Eg r tsc b len (s.stat .rxPacketV4Eg)
    else .ok (b, (s.stat .rxPacketV4Eg).stat .rxDropShortEg)
  else if hProto b = ethPIpv6 then
    if 54 < len then do
      let ns ← isIcmp6Ns lim b len
      if ns then do
        let s ← macResolveUc6Egress lim r len b (s.stat .rxPacketV6Eg)
        .ok (b, s)
      else procV6Eg r tsc b len (s.stat .rxPacketV6Eg)
    else .ok (b, (s.stat .rxPacketV6Eg).stat .rxDropShortEg)
  else if hProto b = ethPArp then
    if s.ifEgress.v4Enable then .ok (arpEgressReply r b s) else .ok (b, s)
  else .ok (b, s.stat .rxDropNoipEg)

/-- `back_ingress` on one frame that `recv` has put into the buffer. -/
def backIngress (lim : ℕ) (r : Resolution) (tsc : BitVec 64) (b : Buf) (len : ℕ) (s : BackState) :
    M (Buf × BackState) :=
  if 14 < len then procIngressData lim r tsc b len s else .ok (b, s.stat .rxDropShortIn)

/-- `back_egress` on one frame that `recv` has put into the buffer. -/
def backEgress (lim : ℕ) (r : Resolution) (tsc : BitVec 64) (b : Buf) (len : ℕ) (s : BackState) :
    M (Buf × BackState) :=
  if 14 < len then procEgressData lim r tsc b len s else .ok (b, s.stat .rxDropShortEg)

/-- The start of the backend, with the interface data in `mem`. -/
def backInit (ip4 : Option InAddr) (ip6 : Option In6Addr) (o4 o6 g4 g6 : MacOutcomes)
    (lMode : LMode) (starttime tsc : BitVec 64) (mem : BackState) : BackState :=
  let s := { mem with clientInfo := initClientTable starttime tsc }
  let s := { margeInfo (getSvrInfo ip4 ip6 o4 o6 s) with lMode := lMode }
  let s := if s.ifIngress.v4Enable then s.getDefaultGw4 g4 else s
  if s.ifIngress.v6Enable then s.getDefaultGw6 g6 else s

/-! ## The classes of frames -/

/-- The class of a frame in `proc_ingress_data`. -/
def ingressClass (lim : ℕ) (b : Buf) (len : ℕ) (s : BackState) : M FrameClass :=
  frameClass s.ifIngress.mac (34 ≤ len) lim b len

/-- The class of a frame in `proc_egress_data`. -/
def egressClass (lim : ℕ) (b : Buf) (len : ℕ) (s : BackState) : M FrameClass :=
  frameClass s.ifEgress.mac (34 ≤ len) lim b len

/-- What `proc_ingress_data` does with a frame of a class. -/
def ingressClassDo (lim : ℕ) (r : Resolution) (tsc : BitVec 64) (b : Buf) (len : ℕ)
    (s : BackState) : FrameClass → M (Buf × BackState)
  | .own => .ok (b, s)
  | .multicast => do
    let x ← macResolve backArpStats lim s.ifIngress (hProto b) len b (s.io.stat .rxPacketMcIn)
    .ok (x.1, { s with io := x.2 })
  | .v4 => procV4In r tsc b len (s.stat .rxPacketV4In)
  | .short4 => .ok (b, (s.stat .rxPacketV4In).stat .rxDropShortIn)
  | .v6 => procV6In r tsc b len (s.stat .rxPacketV6In)
  | .ns =>
    if s.vipMode then do
      let io ← macResolveUc6 backArpStats lim s.ifIngress len b (s.io.stat .rxPacketV6In)
      .ok (b, { s with io := io })
    else .ok (b, s.stat .rxPacketV6In)
  | .short6 => .ok (b, (s.stat .rxPacketV6In).stat .rxDropShortIn)
  | .arp =>
    if s.ifIngress.v4Enable then
      let x := arpReply backArpStats s.ifIngress b s.io
      .ok (x.2.1, { s with io := if x.1 then x.2.2.stat .txArpReplyIn else x.2.2 })
    else .ok (b, s)
  | .noip => .ok (b, s.stat .rxDropNoipIn)

/-- What `proc_egress_data` does with a frame of a class. -/
def egressClassDo (lim : ℕ) (r : Resolution) (tsc : BitVec 64) (b : Buf) (len : ℕ)
    (s : BackState) : FrameClass → M (Buf × BackState)
  | .own => .ok (b, s)
  | .multicast => macResolveEgress lim r (hProto b) len b (s.stat .rxPacketMcEg)
  | .v4 => procV4Eg r tsc b len (s.stat .rxPacketV4Eg)
  | .short4 => .ok (b, (s.stat .rxPacketV4Eg).stat .rxDropShortEg)
  | .v6 => procV6Eg r tsc b len (s.stat .rxPacketV6Eg)
  | .ns => do
    let s ← macResolveUc6Egress lim r len b (s.stat .rxPacketV6Eg)
    .ok (b, s)
  | .short6 => .ok (b, (s.stat .rxPacketV6Eg).stat .rxDropShortEg)
  | .arp => if s.ifEgress.v4Enable then .ok (arpEgressReply r b s) else .ok (b, s)
  | .noip => .ok (b, s.stat .rxDropNoipEg)

section

variable {lim len : ℕ} {b : Buf} {r : Resolution} {tsc : BitVec 64} {s : BackState}
  {g : MacOutcomes} {ci : ClientInfo} {P : Buf × BackState → Prop}

theorem procIngressData_class (r : Resolution) (tsc : BitVec 64) (s : BackState) :
    procIngressData lim r tsc b len s =
      ingressClass lim b len s >>= ingressClassDo lim r tsc b len s := by
  rw [ingressClass, frameClass_bind]
  simp only [decide_eq_true_eq]
  rfl

theorem procEgressData_class (r : Resolution) (tsc : BitVec 64) (s : BackState) :
    procEgressData lim r tsc b len s =
      egressClass lim b len s >>= egressClassDo lim r tsc b len s := by
  rw [egressClass, frameClass_bind]
  simp only [decide_eq_true_eq]
  rfl

theorem procIngressData_post (h : ∀ c : FrameClass, c.Says s.ifIngress.mac (34 ≤ len) lim b len →
    Post P (fun _ => True) (ingressClassDo lim r tsc b len s c)) :
    Post P (fun _ => True) (procIngressData lim r tsc b len s) := by
  rw [procIngressData_class]
  exact frameClass_post h

theorem procEgressData_post (h : ∀ c : FrameClass, c.Says s.ifEgress.mac (34 ≤ len) lim b len →
    Post P (fun _ => True) (egressClassDo lim r tsc b len s c)) :
    Post P (fun _ => True) (procEgressData lim r tsc b len s) := by
  rw [procEgressData_class]
  exact frameClass_post h

/-- **What is done with a frame of a client is shown class by class.** -/
theorem backIngress_post (runt : ¬ 14 < len → P (b, s.stat .rxDropShortIn))
    (h : 14 < len → ∀ c : FrameClass, c.Says s.ifIngress.mac (34 ≤ len) lim b len →
      Post P (fun _ => True) (ingressClassDo lim r tsc b len s c)) :
    Post P (fun _ => True) (backIngress lim r tsc b len s) :=
  .ite (fun hlen => procIngressData_post (h hlen)) runt

/-- **What is done with a frame of the server is shown class by class.** -/
theorem backEgress_post (runt : ¬ 14 < len → P (b, s.stat .rxDropShortEg))
    (h : 14 < len → ∀ c : FrameClass, c.Says s.ifEgress.mac (34 ≤ len) lim b len →
      Post P (fun _ => True) (egressClassDo lim r tsc b len s c)) :
    Post P (fun _ => True) (backEgress lim r tsc b len s) :=
  .ite (fun hlen => procEgressData_post (h hlen)) runt

theorem gwKnown4_io : (({ s with clientInfo := ci } : BackState).gwKnown4 g).io = s.io := by
  unfold BackState.gwKnown4
  split_ifs <;> rfl

theorem gwKnown4_tx : (({ s with clientInfo := ci } : BackState).gwKnown4 g).io.tx = s.io.tx :=
  congrArg Io.tx gwKnown4_io

theorem gwKnown4_clients :
    (({ s with clientInfo := ci } : BackState).gwKnown4 g).clientInfo = ci := by
  unfold BackState.gwKnown4
  split_ifs <;> rfl

theorem gwKnown4_ifIngress :
    (({ s with clientInfo := ci } : BackState).gwKnown4 g).ifIngress = s.ifIngress := by
  unfold BackState.gwKnown4
  split_ifs <;> rfl

theorem gwKnown6_io : (({ s with clientInfo := ci } : BackState).gwKnown6 g).io = s.io := by
  unfold BackState.gwKnown6
  split_ifs <;> rfl

theorem gwKnown6_tx : (({ s with clientInfo := ci } : BackState).gwKnown6 g).io.tx = s.io.tx :=
  congrArg Io.tx gwKnown6_io

theorem gwKnown6_clients :
    (({ s with clientInfo := ci } : BackState).gwKnown6 g).clientInfo = ci := by
  unfold BackState.gwKnown6
  split_ifs <;> rfl

theorem gwKnown6_ifIngress :
    (({ s with clientInfo := ci } : BackState).gwKnown6 g).ifIngress = s.ifIngress := by
  unfold BackState.gwKnown6
  split_ifs <;> rfl

theorem procV4Eg_post
    (passed : ∀ ci, getCiDwn4 tsc (ipDst b) s.clientInfo = .ok ci →
      (s.vipMode = false → hDest b ≠ s.ifEgress.mac) →
        P (b, (({ s with clientInfo := ci } : BackState).writeIn .procV4Eg
          (frame b len)).stat .txPacketV4Eg))
    (routed : ∀ ci s', getCiDwn4 tsc (ipDst b) s.clientInfo = .ok ci →
      s.vipMode = false → hDest b = s.ifEgress.mac →
        s' = ({ s with clientInfo := ci } : BackState).gwKnown4 (r.gw4 0) →
          s'.gwMacV4Valid = true → P (store b 0 s'.gwMacV4,
            (s'.writeIn .procV4Eg (frame (store b 0 s'.gwMacV4) len)).stat .txPacketV4Eg))
    (unrouted : ∀ ci s', getCiDwn4 tsc (ipDst b) s.clientInfo = .ok ci →
      s.vipMode = false → hDest b = s.ifEgress.mac →
        s' = ({ s with clientInfo := ci } : BackState).gwKnown4 (r.gw4 0) →
          s'.gwMacV4Valid = false → P (b, s'.stat .txDropMac4)) :
    Post P (fun _ => True) (procV4Eg r tsc b len s) := by
  unfold procV4Eg procV4EgVip procV4EgNovip
  cases hci : getCiDwn4 tsc (ipDst b) s.clientInfo with
  | error e => exact .ite (fun _ => trivial) fun _ => trivial
  | ok ci =>
    refine .ite (fun hvip => ?_) fun hvip => ?_
    · exact passed ci hci fun h => absurd hvip (by rw [h]; decide)
    · rw [Bool.not_eq_true] at hvip
      refine .ite (fun hown => ?_) fun hown => passed ci hci fun _ => hown
      refine .ite (fun hgw => ?_) fun hgw => ?_
      · exact routed ci _ hci hvip hown rfl hgw
      · exact unrouted ci _ hci hvip hown rfl (Bool.eq_false_iff.mpr hgw)

theorem procV6Eg_post
    (passed : ∀ ci, getCiDwn6 tsc (ip6Dst b) s.clientInfo = .ok ci →
      (s.vipMode = false → hDest b ≠ s.ifEgress.mac) →
        P (b, (({ s with clientInfo := ci } : BackState).writeIn .procV6Eg
          (frame b len)).stat .txPacketV6Eg))
    (routed : ∀ ci s', getCiDwn6 tsc (ip6Dst b) s.clientInfo = .ok ci →
      s.vipMode = false → hDest b = s.ifEgress.mac →
        s' = ({ s with clientInfo := ci } : BackState).gwKnown6 (r.gw6 0) →
          s'.gwMacV6Valid = true → P (store b 0 s'.gwMacV6,
            (s'.writeIn .procV6Eg (frame (store b 0 s'.gwMacV6) len)).stat .txPacketV6Eg))
    (unrouted : ∀ ci s', getCiDwn6 tsc (ip6Dst b) s.clientInfo = .ok ci →
      s.vipMode = false → hDest b = s.ifEgress.mac →
        s' = ({ s with clientInfo := ci } : BackState).gwKnown6 (r.gw6 0) →
          s'.gwMacV6Valid = false → P (b, s'.stat .txDropMac6)) :
    Post P (fun _ => True) (procV6Eg r tsc b len s) := by
  unfold procV6Eg procV6EgVip procV6EgNovip
  cases hci : getCiDwn6 tsc (ip6Dst b) s.clientInfo with
  | error e => exact .ite (fun _ => trivial) fun _ => trivial
  | ok ci =>
    refine .ite (fun hvip => ?_) fun hvip => ?_
    · exact passed ci hci fun h => absurd hvip (by rw [h]; decide)
    · rw [Bool.not_eq_true] at hvip
      refine .ite (fun hown => ?_) fun hown => passed ci hci fun _ => hown
      refine .ite (fun hgw => ?_) fun hgw => ?_
      · exact routed ci _ hci hvip hown rfl hgw
      · exact unrouted ci _ hci hvip hown rfl (Bool.eq_false_iff.mpr hgw)

end

/-! ## The states of the running backend -/

/-- What the handling of a frame keeps. -/
structure BackKept (s s' : BackState) : Prop where
  ifIngress : s'.ifIngress = s.ifIngress
  ifEgress : s'.ifEgress = s.ifEgress
  vipMode : s'.vipMode = s.vipMode
  lMode : s'.lMode = s.lMode
  svrIp4 : s'.svrInfo.svrIp4 = s.svrInfo.svrIp4
  svrIp6 : s'.svrInfo.svrIp6 = s.svrInfo.svrIp6
  delta : s'.svrInfo.checksumDelta = s.svrInfo.checksumDelta

namespace BackKept

variable {s s' s'' : BackState}

theorem refl (s : BackState) : BackKept s s := ⟨rfl, rfl, rfl, rfl, rfl, rfl, rfl⟩

theorem trans (h : BackKept s s') (h' : BackKept s' s'') : BackKept s s'' :=
  ⟨h'.ifIngress.trans h.ifIngress, h'.ifEgress.trans h.ifEgress, h'.vipMode.trans h.vipMode,
    h'.lMode.trans h.lMode, h'.svrIp4.trans h.svrIp4, h'.svrIp6.trans h.svrIp6,
    h'.delta.trans h.delta⟩

theorem io (s : BackState) (io : Io BackStat) : BackKept s { s with io := io } :=
  ⟨rfl, rfl, rfl, rfl, rfl, rfl, rfl⟩

theorem clientInfo (s : BackState) (ci : ClientInfo) : BackKept s { s with clientInfo := ci } :=
  ⟨rfl, rfl, rfl, rfl, rfl, rfl, rfl⟩

theorem gw4 (o : MacOutcomes) (s : BackState) : BackKept s (s.getDefaultGw4 o) :=
  ⟨rfl, rfl, rfl, rfl, rfl, rfl, rfl⟩

theorem gw6 (o : MacOutcomes) (s : BackState) : BackKept s (s.getDefaultGw6 o) :=
  ⟨rfl, rfl, rfl, rfl, rfl, rfl, rfl⟩

theorem resolveSvr (o : MacOutcomes) (s : BackState) : BackKept s (s.resolveSvr o).2 := by
  unfold BackState.resolveSvr
  split_ifs
  · exact refl s
  · exact ⟨rfl, rfl, rfl, rfl, rfl, rfl, rfl⟩

theorem resolveSvr_io (o : MacOutcomes) (s : BackState) : (s.resolveSvr o).2.io = s.io := by
  unfold BackState.resolveSvr
  split_ifs
  · rfl
  · rfl

end BackKept

/-- A relation that contains what the handlers of a frame do to the state, one after the other. -/
structure HandlerRel (R : BackState → BackState → Prop) : Prop where
  refl : ∀ s, R s s
  trans : ∀ {s s' s''}, R s s' → R s' s'' → R s s''
  io : ∀ s io, R s { s with io := io }
  clientInfo : ∀ s ci, R s { s with clientInfo := ci }
  gw4 : ∀ o s, R s (s.getDefaultGw4 o)
  gw6 : ∀ o s, R s (s.getDefaultGw6 o)
  svr : ∀ o s, R s (s.resolveSvr o).2

theorem backKept_rel : HandlerRel BackKept where
  refl := .refl
  trans := .trans
  io := .io
  clientInfo := .clientInfo
  gw4 := .gw4
  gw6 := .gw6
  svr := .resolveSvr

section

variable {R : BackState → BackState → Prop} (hR : HandlerRel R) (lim : ℕ) (r : Resolution)
  (tsc : BitVec 64) (b : Buf) (len : ℕ) (s : BackState)

include hR

theorem arpGwLoop_rel (k i : ℕ) : R s (arpGwLoop r b k i s).2 := by
  induction k generalizing i s with
  | zero => exact hR.refl s
  | succ k ih =>
    rw [arpGwLoop, arpProxyBody]
    split_ifs
    · exact hR.refl s
    · exact hR.io s _
    · exact hR.trans (hR.gw4 _ s) (ih _ _)

theorem arpEgressReply_rel : R s (arpEgressReply r b s).2 := by
  unfold arpEgressReply
  split_ifs
  · exact arpGwLoop_rel hR r b s 3 0
  · unfold arpProxyReply
    cases resolveMac (r.ip4 (arpTpa b)) 0 with
    | mk ok mac =>
      cases ok with
      | false => exact hR.refl s
      | true =>
        dsimp only
        rw [arpProxyBody]
        split_ifs
        · exact hR.refl s
        · exact hR.io s _
  · exact hR.refl s

theorem sendNaBody_rel (mcast : Bool) (mac : Mac) :
    Post (R s) (fun _ => True) (sendNaBody b mcast mac s) :=
  .ite (fun _ => hR.refl s) fun _ => .bind .trivial fun _ _ => hR.io s _

theorem sendGwNaLoop_rel (mcast : Bool) (k i : ℕ) :
    Post (R s) (fun _ => True) (sendGwNaLoop r b mcast k i s) := by
  induction k generalizing i s with
  | zero => exact hR.refl s
  | succ k ih =>
    refine .ite (fun _ => .bind (sendNaBody_rel hR b s mcast _) fun s' h =>
      hR.trans h (hR.io s' _)) fun _ => ?_
    exact (ih _ _).mono (fun s' h => hR.trans (hR.gw6 _ s) h) fun _ h => h

theorem sendGwNa_rel (mcast : Bool) : Post (R s) (fun _ => True) (sendGwNa r b mcast s) :=
  sendGwNaLoop_rel hR r b s mcast 3 0

theorem sendNaFor_rel (mcast : Bool) : Post (R s) (fun _ => True) (sendNaFor r b mcast s) := by
  refine .ite (fun _ => sendGwNa_rel hR r b s mcast) fun _ => ?_
  unfold sendProxyNa
  cases resolveMac (r.ip6 (nsTarget b)) 0 with
  | mk ok mac =>
    cases ok with
    | false => exact hR.refl s
    | true => exact .bind (sendNaBody_rel hR b s mcast mac) fun s' h => hR.trans h (hR.io s' _)

theorem forwardV4In_rel {x : Bool × BackState} (h : R s x.2) : R s (forwardV4In b len x).2 := by
  unfold forwardV4In
  dsimp only
  split_ifs
  · exact hR.trans h (hR.io _ _)
  · exact hR.trans h (hR.io _ _)

theorem forwardV6In_rel {x : Bool × BackState} (h : R s x.2) : R s (forwardV6In b len x).2 := by
  unfold forwardV6In
  dsimp only
  split_ifs
  · exact hR.trans h (hR.io _ _)
  · exact hR.trans h (hR.io _ _)

theorem procV4In_rel : Post (fun x => R s x.2) (fun _ => True) (procV4In r tsc b len s) :=
  .ite (fun _ => hR.io s _) fun _ => .bind .trivial fun ci _ =>
    forwardV4In_rel hR b len s (hR.trans (hR.clientInfo s ci) (hR.svr _ _))

theorem procV6In_rel : Post (fun x => R s x.2) (fun _ => True) (procV6In r tsc b len s) :=
  .ite (fun _ => hR.io s _) fun _ => .bind .trivial fun ci _ =>
    forwardV6In_rel hR b len s (hR.trans (hR.clientInfo s ci) (hR.svr _ _))

theorem procIngressData_rel :
    Post (fun x => R s x.2) (fun _ => True) (procIngressData lim r tsc b len s) := by
  have hio : ∀ {m s'}, R (s.stat m) s' → R s s' := fun h => hR.trans (hR.io s _) h
  refine procIngressData_post fun c _ => ?_
  cases c with
  | own => exact hR.refl s
  | multicast => exact .bind .trivial fun _ _ => hR.io s _
  | short4 | short6 | noip => exact hR.io s _
  | v4 => exact (procV4In_rel hR r tsc b len _).mono (fun _ => hio) fun _ h => h
  | v6 => exact (procV6In_rel hR r tsc b len _).mono (fun _ => hio) fun _ h => h
  | ns => exact .ite (fun _ => .bind .trivial fun _ _ => hR.io s _) fun _ => hR.io s _
  | arp => exact .ite (fun _ => hR.io s _) fun _ => hR.refl s

theorem gwKnown4_rel (o : MacOutcomes) (s : BackState) : R s (s.gwKnown4 o) := by
  unfold BackState.gwKnown4
  split_ifs
  · exact hR.refl s
  · exact hR.gw4 o s

theorem procV4Eg_rel : Post (fun x => R s x.2) (fun _ => True) (procV4Eg r tsc b len s) := by
  have hgw : ∀ ci, R s (({ s with clientInfo := ci } : BackState).gwKnown4 (r.gw4 0)) :=
    fun ci => hR.trans (hR.clientInfo s ci) (gwKnown4_rel hR _ _)
  refine procV4Eg_post ?passed ?routed ?unrouted
  case passed => exact fun ci _ _ => hR.trans (hR.clientInfo s ci) (hR.io _ _)
  case routed =>
    rintro ci _ _ _ _ rfl _
    exact hR.trans (hgw ci) (hR.io _ _)
  case unrouted =>
    rintro ci _ _ _ _ rfl _
    exact hR.trans (hgw ci) (hR.io _ _)

theorem gwKnown6_rel (o : MacOutcomes) (s : BackState) : R s (s.gwKnown6 o) := by
  unfold BackState.gwKnown6
  split_ifs
  · exact hR.refl s
  · exact hR.gw6 o s

theorem procV6Eg_rel : Post (fun x => R s x.2) (fun _ => True) (procV6Eg r tsc b len s) := by
  have hgw : ∀ ci, R s (({ s with clientInfo := ci } : BackState).gwKnown6 (r.gw6 0)) :=
    fun ci => hR.trans (hR.clientInfo s ci) (gwKnown6_rel hR _ _)
  refine procV6Eg_post ?passed ?routed ?unrouted
  case passed => exact fun ci _ _ => hR.trans (hR.clientInfo s ci) (hR.io _ _)
  case routed =>
    rintro ci _ _ _ _ rfl _
    exact hR.trans (hgw ci) (hR.io _ _)
  case unrouted =>
    rintro ci _ _ _ _ rfl _
    exact hR.trans (hgw ci) (hR.io _ _)

theorem macResolveEgress_rel : Post (fun x => R s x.2) (fun _ => True)
    (macResolveEgress lim r (hProto b) len b s) := by
  refine macResolveEgress_post ?arp ?gateway ?host ?drop
  case arp => exact arpEgressReply_rel hR r b s
  case gateway => exact sendGwNa_rel hR r b s true
  case host => exact sendNaFor_rel hR r b s true
  case drop => exact hR.io s _

theorem macResolveUc6Egress_rel :
    Post (R s) (fun _ => True) (macResolveUc6Egress lim r len b s) := by
  refine macResolveUc6Egress_post ?gateway ?host ?drop ?same
  case gateway => exact fun _ => sendGwNa_rel hR r b s false
  case host => exact fun _ => sendNaFor_rel hR r b s false
  case drop => exact hR.io s _
  case same => exact hR.refl s

theorem procEgressData_rel :
    Post (fun x => R s x.2) (fun _ => True) (procEgressData lim r tsc b len s) := by
  have hio : ∀ {m s'}, R (s.stat m) s' → R s s' := fun h => hR.trans (hR.io s _) h
  refine procEgressData_post fun c _ => ?_
  cases c with
  | own => exact hR.refl s
  | multicast => exact (macResolveEgress_rel hR lim r b len _).mono (fun _ => hio) fun _ h => h
  | short4 | short6 | noip => exact hR.io s _
  | v4 => exact (procV4Eg_rel hR r tsc b len _).mono (fun _ => hio) fun _ h => h
  | v6 => exact (procV6Eg_rel hR r tsc b len _).mono (fun _ => hio) fun _ h => h
  | ns => exact .bind (macResolveUc6Egress_rel hR lim r b len _) fun _ => hio
  | arp => exact .ite (fun _ => arpEgressReply_rel hR r b s) fun _ => hR.refl s

/-- **The handling of a frame stays in the relation.** -/
theorem backIngress_rel :
    Post (fun x => R s x.2) (fun _ => True) (backIngress lim r tsc b len s) :=
  .ite (fun _ => procIngressData_rel hR lim r tsc b len s) fun _ => hR.io s _

theorem backEgress_rel :
    Post (fun x => R s x.2) (fun _ => True) (backEgress lim r tsc b len s) :=
  .ite (fun _ => procEgressData_rel hR lim r tsc b len s) fun _ => hR.io s _

end

/-! ## The frames that are written -/

/-- A frame that `proc_ingress_data` hands to `proc_v4_in`. -/
structure ToV4In (s : BackState) (b : Buf) (len : ℕ) : Prop where
  foreign : hSource b ≠ s.ifIngress.mac
  unicast : isMulticast (hDest b) = false
  proto : hProto b = ethPIp
  long : 34 ≤ len

/-- A frame that `proc_ingress_data` hands to `proc_v6_in`. -/
structure ToV6In (lim : ℕ) (s : BackState) (b : Buf) (len : ℕ) : Prop where
  foreign : hSource b ≠ s.ifIngress.mac
  unicast : isMulticast (hDest b) = false
  proto : hProto b = ethPIpv6
  long : 54 < len
  other : isIcmp6Ns lim b len = .ok false

section

variable {P : Tx → Prop} {lim : ℕ} {r : Resolution} {tsc : BitVec 64} {b : Buf} {len : ℕ}
  {s : BackState}

/-- A frame of the interface itself is not handled. -/
theorem backIngress_own (hlen : 14 < len) (h : hSource b = s.ifIngress.mac) :
    backIngress lim r tsc b len s = .ok (b, s) := by
  rw [backIngress, if_pos hlen, procIngressData, if_pos h]

theorem backIngress_v4 (h : ToV4In s b len) :
    backIngress lim r tsc b len s = procV4In r tsc b len (s.stat .rxPacketV4In) := by
  have hlen := h.long
  rw [backIngress, if_pos (by omega), procIngressData, if_neg h.foreign, h.unicast,
    if_neg Bool.false_ne_true, if_pos h.proto, if_pos h.long]

theorem backIngress_v6 (h : ToV6In lim s b len) :
    backIngress lim r tsc b len s = procV6In r tsc b len (s.stat .rxPacketV6In) := by
  have hlen := h.long
  rw [backIngress, if_pos (by omega), procIngressData, if_neg h.foreign, h.unicast,
    if_neg Bool.false_ne_true, h.proto, if_neg (by decide), if_pos rfl, if_pos h.long, h.other]
  rfl

/-- **The frames that the handling of a client's frame writes**: ARP replies and advertisements to
the clients, and what `proc_v4_in` and `proc_v6_in` forward. -/
theorem backIngress_wrote (ha : ∀ bytes, P ⟨.arpReply, s.ifIngress.sockfd, bytes⟩)
    (hn : ∀ bytes, P ⟨.sendIcmp6Na, s.ifIngress.sockfd, bytes⟩)
    (h4 : ToV4In s b len → Post (fun x => Wrote P s.io x.2.io) (fun _ => True)
      (procV4In r tsc b len (s.stat .rxPacketV4In)))
    (h6 : ToV6In lim s b len → Post (fun x => Wrote P s.io x.2.io) (fun _ => True)
      (procV6In r tsc b len (s.stat .rxPacketV6In))) :
    Post (fun x => Wrote P s.io x.2.io) (fun _ => True) (backIngress lim r tsc b len s) := by
  refine backIngress_post (fun _ => .none rfl) fun _ c hc => ?_
  cases c with
  | own | short4 | short6 | noip => exact .none rfl
  | multicast => exact .bind (macResolve_wrote _ _ _ _ ha hn lim _ len) fun _ h => h
  | v4 =>
    obtain ⟨harr, hip, hlen⟩ := hc
    exact h4 ⟨harr.foreign, harr.unicast, hip, of_decide_eq_true hlen⟩
  | v6 =>
    obtain ⟨harr, hip6, hlen, hns⟩ := hc
    exact h6 ⟨harr.foreign, harr.unicast, hip6, hlen, hns⟩
  | ns =>
    refine .ite (fun _ => ?_) fun _ => .none rfl
    exact .bind (macResolveUc6_wrote _ _ _ _ hn lim len) fun _ h => h
  | arp =>
    refine .ite (fun _ => ?_) fun _ => .none rfl
    have harp := arpReply_wrote backArpStats s.ifIngress b s.io ha
    change Wrote P s.io (if (arpReply backArpStats s.ifIngress b s.io).1 then _ else _)
    split_ifs
    · exact harp
    · exact harp

theorem procV6In_wrote (h : ∀ fd bytes, P ⟨.procV6In, fd, bytes⟩) :
    Post (fun x => Wrote P s.io x.2.io) (fun _ => True) (procV6In r tsc b len s) := by
  refine .ite (fun _ => .none rfl) fun _ => .bind .trivial fun ci _ => ?_
  have hio := BackKept.resolveSvr_io (r.ip6 s.svrInfo.svrIp6) { s with clientInfo := ci }
  change Wrote _ s.io (forwardV6In b len _).2.io
  generalize BackState.resolveSvr _ _ = y at hio ⊢
  unfold forwardV6In
  dsimp only
  split_ifs
  · exact Or.inr ⟨_, congrArg (fun io : Io BackStat => io.tx ++ _) hio, h _ _⟩
  · exact .none (show y.2.io.tx = s.io.tx from congrArg Io.tx hio)

/-! ### Frames of the server -/

section

variable (hp : ∀ fd bytes, P ⟨.arpProxyBody, fd, bytes⟩)

include hp

theorem arpGwLoop_wrote (k i : ℕ) (s : BackState) : Wrote P s.io (arpGwLoop r b k i s).2.io := by
  induction k generalizing i s with
  | zero => exact .none rfl
  | succ k ih =>
    rw [arpGwLoop, arpProxyBody]
    split_ifs
    · exact .none rfl
    · exact Or.inr ⟨_, rfl, hp _ _⟩
    · exact ih _ _

theorem arpEgressReply_wrote (s : BackState) : Wrote P s.io (arpEgressReply r b s).2.io := by
  unfold arpEgressReply
  split_ifs
  · exact arpGwLoop_wrote hp 3 0 s
  · unfold arpProxyReply
    cases resolveMac (r.ip4 (arpTpa b)) 0 with
    | mk ok mac =>
      cases ok with
      | false => exact .none rfl
      | true =>
        dsimp only
        rw [arpProxyBody]
        split_ifs
        · exact .none rfl
        · exact Or.inr ⟨_, rfl, hp _ _⟩
  · exact .none rfl

end

section

variable (hn : ∀ fd bytes, P ⟨.sendNaBody, fd, bytes⟩)

include hn

theorem sendNaBody_wrote (mcast : Bool) (mac : Mac) (s : BackState) :
    Post (fun s' => Wrote P s.io s'.io) (fun _ => True) (sendNaBody b mcast mac s) :=
  .ite (fun _ => .none rfl) fun _ => .bind .trivial fun _ _ => Or.inr ⟨_, rfl, hn _ _⟩

theorem sendGwNaLoop_wrote (mcast : Bool) (k i : ℕ) (s : BackState) :
    Post (fun s' => Wrote P s.io s'.io) (fun _ => True) (sendGwNaLoop r b mcast k i s) := by
  induction k generalizing i s with
  | zero => exact .none rfl
  | succ k ih =>
    exact .ite (fun _ => .bind (sendNaBody_wrote hn mcast s.gwMacV6 s) fun _ h => h)
      fun _ => ih (i + 1) (s.getDefaultGw6 (r.gw6 i))

theorem sendNaFor_wrote (mcast : Bool) (s : BackState) :
    Post (fun s' => Wrote P s.io s'.io) (fun _ => True) (sendNaFor r b mcast s) := by
  refine .ite (fun _ => sendGwNaLoop_wrote hn mcast 3 0 s) fun _ => ?_
  unfold sendProxyNa
  cases resolveMac (r.ip6 (nsTarget b)) 0 with
  | mk ok mac =>
    cases ok with
    | false => exact .none rfl
    | true => exact .bind (sendNaBody_wrote hn mcast mac s) fun _ h => h

theorem macResolveEgress_wrote (hp : ∀ fd bytes, P ⟨.arpProxyBody, fd, bytes⟩) :
    Post (fun x => Wrote P s.io x.2.io) (fun _ => True)
      (macResolveEgress lim r (hProto b) len b s) := by
  refine macResolveEgress_post ?arp ?gateway ?host ?drop
  case arp => exact arpEgressReply_wrote hp s
  case gateway => exact sendGwNaLoop_wrote hn true 3 0 s
  case host => exact sendNaFor_wrote hn true s
  case drop => exact .none rfl

theorem macResolveUc6Egress_wrote :
    Post (fun s' => Wrote P s.io s'.io) (fun _ => True) (macResolveUc6Egress lim r len b s) := by
  refine macResolveUc6Egress_post ?gateway ?host ?drop ?same
  case gateway => exact fun _ => sendGwNaLoop_wrote hn false 3 0 s
  case host => exact fun _ => sendNaFor_wrote hn false s
  case drop => exact .none rfl
  case same => exact .none rfl

end

/-- **The frames that the handling of a server's frame writes**: answers to the server, and what
`proc_v4_eg` and `proc_v6_eg` forward. -/
theorem backEgress_wrote (hp : ∀ fd bytes, P ⟨.arpProxyBody, fd, bytes⟩)
    (hn : ∀ fd bytes, P ⟨.sendNaBody, fd, bytes⟩)
    (h4 : 34 ≤ len → Post (fun x => Wrote P s.io x.2.io) (fun _ => True)
      (procV4Eg r tsc b len (s.stat .rxPacketV4Eg)))
    (h6 : 54 < len → Post (fun x => Wrote P s.io x.2.io) (fun _ => True)
      (procV6Eg r tsc b len (s.stat .rxPacketV6Eg))) :
    Post (fun x => Wrote P s.io x.2.io) (fun _ => True) (backEgress lim r tsc b len s) := by
  refine backEgress_post (fun _ => .none rfl) fun _ c hc => ?_
  cases c with
  | own | short4 | short6 | noip => exact .none rfl
  | multicast => exact macResolveEgress_wrote (s := s.stat .rxPacketMcEg) hn hp
  | v4 => exact h4 (of_decide_eq_true hc.2.2)
  | v6 => exact h6 hc.2.2.1
  | ns => exact .bind (macResolveUc6Egress_wrote (s := s.stat .rxPacketV6Eg) hn) fun _ h => h
  | arp => exact .ite (fun _ => arpEgressReply_wrote hp s) fun _ => .none rfl

end

/-- The states of the running backend of the server `ip4`. -/
inductive BackReach (ip4 : Option InAddr) : BackState → Prop
  | init (ip6 : Option In6Addr) (o4 o6 g4 g6 : MacOutcomes) (lMode : LMode)
      (starttime tsc : BitVec 64) (mem : BackState) :
      BackReach ip4 (backInit ip4 ip6 o4 o6 g4 g6 lMode starttime tsc mem)
  | ingress {s s' : BackState} {b b' : Buf} (lim : ℕ) (r : Resolution) (tsc : BitVec 64) (len : ℕ) :
      BackReach ip4 s → backIngress lim r tsc b len s = .ok (b', s') → BackReach ip4 s'
  | egress {s s' : BackState} {b b' : Buf} (lim : ℕ) (r : Resolution) (tsc : BitVec 64) (len : ℕ) :
      BackReach ip4 s → backEgress lim r tsc b len s = .ok (b', s') → BackReach ip4 s'

theorem getSvrInfo_delta (a : InAddr) (ip6 : Option In6Addr) (o4 o6 : MacOutcomes) (s : BackState) :
    (getSvrInfo (some a) ip6 o4 o6 s).svrInfo.svrIp4 = a ∧
      (getSvrInfo (some a) ip6 o4 o6 s).svrInfo.checksumDelta =
        calcChksumDelta s.ifIngress.vip4 a := by
  unfold getSvrInfo
  cases ip6 with
  | none => exact ⟨rfl, rfl⟩
  | some a6 =>
    dsimp only
    split_ifs
    · exact ⟨rfl, rfl⟩
    · exact ⟨rfl, rfl⟩

/-- **In every reachable state the checksum delta is that of the two addresses.** -/
theorem BackReach.delta {a : InAddr} {s : BackState} (h : BackReach (some a) s) :
    s.svrInfo.svrIp4 = a ∧ s.svrInfo.checksumDelta = calcChksumDelta s.ifIngress.vip4 a := by
  have hkept : ∀ {s s' : BackState}, BackKept s s' → (s.svrInfo.svrIp4 = a ∧
      s.svrInfo.checksumDelta = calcChksumDelta s.ifIngress.vip4 a) → s'.svrInfo.svrIp4 = a ∧
        s'.svrInfo.checksumDelta = calcChksumDelta s'.ifIngress.vip4 a := by
    intro s s' hk h
    rw [hk.svrIp4, hk.delta, hk.ifIngress]
    exact h
  induction h with
  | init ip6 o4 o6 g4 g6 lMode starttime tsc mem =>
    have h := getSvrInfo_delta a ip6 o4 o6 { mem with clientInfo := initClientTable starttime tsc }
    unfold backInit
    dsimp only
    split_ifs
    all_goals exact h
  | @ingress s s' b b' lim r tsc len _ hrun ih =>
    exact hkept ((backIngress_rel backKept_rel lim r tsc b len s).of_ok hrun) ih
  | @egress s s' b b' lim r tsc len _ hrun ih =>
    exact hkept ((backEgress_rel backKept_rel lim r tsc b len s).of_ok hrun) ih

end Sasat
