import Sasat.Back.ClientTbl
import Sasat.Common.NsValid

/-!
# `mac_resolution.c` and the server part of `back_init.c`

The backend answers ARP requests and neighbour solicitations of its server: for addresses behind
the other interface with the MAC address of the default gateway or of the host itself.

* `BackState`: the global variables; `Resolution`: the outcomes of the MAC resolutions of a frame.
* `resolveMac`, `getDefaultGw4`, `getDefaultGw6`, `getSvrInfo`, `margeInfo`.
* `arpProxyBody`, `arpGwReply`, `arpProxyReply`, `arpEgressReply`: ARP.
* `sendNaBody`, `sendGwNa`, `sendProxyNa`, `macResolveEgress`, `macResolveUc6Egress`: solicitations.
* `macResolveEgress_post`, `macResolveUc6Egress_post`: what the two entries can do.
-/

namespace Sasat

open Outcome

/-- The counters of the backend. -/
inductive BackStat
  | rxPacketV6In | txPacketV6In | rxPacketV4In | txPacketV4In | rxPacketMcIn
  | txArpReplyIn | txNaIn | rxDropAddrV6In | rxDropAddrV4In | rxDropNoipIn | rxDropShortIn
  | rxDropIn
  | rxPacketV6Eg | txPacketV6Eg | rxPacketV4Eg | txPacketV4Eg | rxPacketMcEg
  | txArpReplyEg | txNaEg | txProxyArp | txProxyNa | rxDropNoipEg | rxDropShortEg | rxDropEg
  | txDropMac6 | txDropMac4
  deriving DecidableEq

/-- `backend_svr_t`. -/
structure BackendSvr where
  /-- `SVR_OK`. -/
  stat : Bool
  v4Enable : Bool
  v6Enable : Bool
  svrIp4 : InAddr
  svrIp6 : In6Addr
  svrMac : Mac
  checksumDelta : BitVec 16

/-- `l_mode`. -/
inductive LMode
  | l2 | l3
  deriving DecidableEq

/-- The global variables of the backend. -/
structure BackState where
  clientInfo : ClientInfo
  svrInfo : BackendSvr
  ifIngress : Ifdata
  ifEgress : Ifdata
  vipMode : Bool
  lMode : LMode
  gwMacV4Valid : Bool
  gwMacV6Valid : Bool
  gwMacV4 : Mac
  gwMacV6 : Mac
  io : Io BackStat

/-- What `get_target_mac` ends with while a frame is handled: for an address, and for the default
gateway in the calls of `get_default_gw` one after the other. -/
structure Resolution where
  ip4 : InAddr → MacOutcomes
  ip6 : In6Addr → MacOutcomes
  gw4 : ℕ → MacOutcomes
  gw6 : ℕ → MacOutcomes

/-- The counters of `arp_proc.c` in the backend. -/
def backArpStats : ArpStats BackStat := ⟨.rxDropIn, .txNaIn, none⟩

/-- The loop of `resolve_mac`. A zero MAC address is answered by a ping and another try. -/
def resolveMacLoop : List MacOutcome → Mac → Bool × Mac
  | [], mac => (false, mac)
  | o :: os, _ =>
    if o.ok = false then resolveMacLoop os o.mac
    else if o.mac ≠ 0 then (true, o.mac)
    else resolveMacLoop os o.mac

/-- `resolve_mac`: whether it returns `SVR_OK`, and what it leaves in `mac`. -/
def resolveMac (o : MacOutcomes) (mac : Mac) : Bool × Mac := resolveMacLoop (List.ofFn o) mac

namespace BackState

def stat (s : BackState) (m : BackStat) : BackState := { s with io := s.io.stat m }

/-- `write(if_egress->sockfd, ...)`. -/
def writeEg (s : BackState) (sender : Sender) (bytes : List Byte) : BackState :=
  { s with io := s.io.write sender s.ifEgress.sockfd bytes }

/-- `write(if_ingress->sockfd, ...)`. -/
def writeIn (s : BackState) (sender : Sender) (bytes : List Byte) : BackState :=
  { s with io := s.io.write sender s.ifIngress.sockfd bytes }

/-- `get_default_gw(if_ingress, 1, 0)`. -/
def getDefaultGw4 (o : MacOutcomes) (s : BackState) : BackState :=
  let r := resolveMac o s.gwMacV4
  { s with gwMacV4Valid := r.1, gwMacV4 := r.2 }

/-- `get_default_gw(if_ingress, 0, 1)`. -/
def getDefaultGw6 (o : MacOutcomes) (s : BackState) : BackState :=
  let r := resolveMac o s.gwMacV6
  { s with gwMacV6Valid := r.1, gwMacV6 := r.2 }

end BackState

/-! ## The start -/

/-- `get_svr_info`, with the configured addresses that `inet_pton` accepts. -/
def getSvrInfo (ip4 : Option InAddr) (ip6 : Option In6Addr) (o4 o6 : MacOutcomes) (s : BackState) :
    BackState :=
  let svr : BackendSvr := ⟨false, false, false, 0, 0, 0, 0⟩
  let svr := match ip4 with
    | some a =>
      let r := resolveMac o4 svr.svrMac
      { svr with
        v4Enable := true
        svrIp4 := a
        stat := r.1
        svrMac := r.2
        checksumDelta := calcChksumDelta s.ifIngress.vip4 a }
    | none => svr
  let svr := match ip6 with
    | some a =>
      let svr := { svr with v6Enable := true, svrIp6 := a }
      if svr.stat = false then
        let r := resolveMac o6 svr.svrMac
        { svr with stat := r.1, svrMac := r.2 }
      else svr
    | none => svr
  { s with svrInfo := svr }

/-- `marge_info`. -/
def margeInfo (s : BackState) : BackState :=
  let v4 := s.ifIngress.v4Enable && s.ifEgress.v4Enable && s.svrInfo.v4Enable
  let v6 := s.ifIngress.v6Enable && s.ifEgress.v6Enable && s.svrInfo.v6Enable
  { s with
    ifIngress := { s.ifIngress with v4Enable := v4, v6Enable := v6 }
    ifEgress := { s.ifEgress with v4Enable := v4, v6Enable := v6 }
    svrInfo := { s.svrInfo with v4Enable := v4, v6Enable := v6 } }

/-! ## ARP -/

/-- `arp_proxy_body`: whether it answers, the buffer, and the state. -/
def arpProxyBody (mac : Mac) (b : Buf) (s : BackState) : Bool × Buf × BackState :=
  if load b 14 8 ≠ arphdrTmpl then (false, b, s)
  else (true, arpAnswer mac b, s.writeEg .arpProxyBody (frame (arpAnswer mac b) 42))

/-- The loop of `arp_gw_reply` from its round `i` on, with `k` rounds ahead. -/
def arpGwLoop (r : Resolution) (b : Buf) : ℕ → ℕ → BackState → Buf × BackState
  | 0, _, s => (b, s)
  | k + 1, i, s =>
    if s.gwMacV4Valid then
      match arpProxyBody s.gwMacV4 b s with
      | (true, b, s) => (b, s.stat .txArpReplyEg)
      | (false, b, s) => (b, s)
    else arpGwLoop r b k (i + 1) (s.getDefaultGw4 (r.gw4 i))

/-- `arp_gw_reply`. -/
def arpGwReply (r : Resolution) (b : Buf) (s : BackState) : Buf × BackState := arpGwLoop r b 3 0 s

/-- `arp_proxy_reply`. -/
def arpProxyReply (r : Resolution) (b : Buf) (s : BackState) : Buf × BackState :=
  match resolveMac (r.ip4 (arpTpa b)) 0 with
  | (false, _) => (b, s)
  | (true, mac) =>
    match arpProxyBody mac b s with
    | (true, b, s) => (b, s.stat .txProxyArp)
    | (false, b, s) => (b, s)

/-- `arp_egress_reply`. -/
def arpEgressReply (r : Resolution) (b : Buf) (s : BackState) : Buf × BackState :=
  if arpTpa b ≠ s.ifEgress.sip4 ∧ arpTpa b ≠ s.svrInfo.svrIp4 then
    if s.lMode = .l3 then arpGwReply r b s else arpProxyReply r b s
  else (b, s)

/-! ## Neighbour solicitations -/

/-- `send_na_body`. -/
def sendNaBody (b : Buf) (mcast : Bool) (mac : Mac) (s : BackState) : M BackState :=
  if mcast ∧ (hDest b 3 ≠ nsTarget b 13 ∨ hDest b 4 ≠ nsTarget b 14 ∨
      hDest b 5 ≠ nsTarget b 15) then .ok s
  else do
    let bytes ← naFrame (hSource b) mac (nsTarget b) (ip6Src b) mcast
    .ok (s.writeEg .sendNaBody bytes)

/-- `send_proxy_na`. -/
def sendProxyNa (r : Resolution) (b : Buf) (mcast : Bool) (s : BackState) : M BackState :=
  match resolveMac (r.ip6 (nsTarget b)) 0 with
  | (false, _) => .ok s
  | (true, mac) => do
    let s ← sendNaBody b mcast mac s
    .ok (s.stat .txProxyNa)

/-- The loop of `send_gw_na` from its round `i` on, with `k` rounds ahead. -/
def sendGwNaLoop (r : Resolution) (b : Buf) (mcast : Bool) : ℕ → ℕ → BackState → M BackState
  | 0, _, s => .ok s
  | k + 1, i, s =>
    if s.gwMacV6Valid then do
      let s ← sendNaBody b mcast s.gwMacV6 s
      .ok (s.stat .txNaEg)
    else sendGwNaLoop r b mcast k (i + 1) (s.getDefaultGw6 (r.gw6 i))

/-- `send_gw_na`. -/
def sendGwNa (r : Resolution) (b : Buf) (mcast : Bool) (s : BackState) : M BackState :=
  sendGwNaLoop r b mcast 3 0 s

/-- The answer for another host: `send_gw_na` or `send_proxy_na`, by `l_mode`. -/
def sendNaFor (r : Resolution) (b : Buf) (mcast : Bool) (s : BackState) : M BackState :=
  if s.lMode = .l3 then sendGwNa r b mcast s else sendProxyNa r b mcast s

/-- `mac_resolve_egress`. -/
def macResolveEgress (lim : ℕ) (r : Resolution) (prot : BitVec 16) (len : ℕ) (b : Buf)
    (s : BackState) : M (Buf × BackState) :=
  if isBroadcast (hDest b) then
    if prot = ethPArp ∧ s.ifEgress.v4Enable then .ok (arpEgressReply r b s)
    else .ok (b, s.stat .rxDropEg)
  else if prot = ethPIpv6 ∧ s.ifEgress.v6Enable ∧ isMulticastV6 (hDest b) then do
    let ns ← isIcmp6Ns lim b len
    if ns then
      if s.vipMode ∧ hDest b = s.ifEgress.fmmac then do
        let valid ← checkValidNs lim b s.ifEgress.vip6 false (len - nsBaseSize)
        if valid then do
          let s ← sendGwNa r b true s
          .ok (b, s)
        else .ok (b, s.stat .rxDropEg)
      else if hDest b 2 = 0xff ∧ (hDest b 3 ≠ s.ifEgress.sip6 13 ∨ hDest b 4 ≠ s.ifEgress.sip6 14 ∨
          hDest b 5 ≠ s.ifEgress.sip6 15) then do
        -- the address that is looked for is no address of this host: any target
        let valid ← checkValidNs lim b 0 true (len - nsBaseSize)
        if valid then do
          let s ← sendNaFor r b true s
          .ok (b, s)
        else .ok (b, s.stat .rxDropEg)
      else .ok (b, s.stat .rxDropEg)
    else .ok (b, s.stat .rxDropEg)
  else .ok (b, s.stat .rxDropEg)

/-- `mac_resolve_uc6_egress`. -/
def macResolveUc6Egress (lim : ℕ) (r : Resolution) (len : ℕ) (b : Buf) (s : BackState) :
    M BackState :=
  if s.ifEgress.v6Enable = false then .ok (s.stat .rxDropEg)
  else if hDest b = s.ifEgress.mac then
    if s.vipMode then do
      let valid ← checkValidNs lim b s.ifEgress.vip6 false (len - nsBaseSize)
      if valid then sendGwNa r b false s else .ok s
    else .ok s
  else do
    let valid ← checkValidNs lim b 0 true (len - nsBaseSize)
    if valid then sendNaFor r b false s else .ok s

section

variable {lim len : ℕ} {r : Resolution} {prot : BitVec 16} {b : Buf} {s : BackState}

theorem macResolveEgress_post {P : Buf × BackState → Prop} (arp : P (arpEgressReply r b s))
    (gateway : Post (fun s' => P (b, s')) (fun _ => True) (sendGwNa r b true s))
    (host : Post (fun s' => P (b, s')) (fun _ => True) (sendNaFor r b true s))
    (drop : P (b, s.stat .rxDropEg)) :
    Post P (fun _ => True) (macResolveEgress lim r prot len b s) := by
  refine .ite (fun _ => .ite (fun _ => arp) fun _ => drop) fun _ => .ite (fun _ => ?_) fun _ => drop
  refine .bind .trivial fun ns _ => .ite (fun _ => ?_) fun _ => drop
  refine .ite (fun _ => ?_) fun _ => .ite (fun _ => ?_) fun _ => drop
  · refine .bind .trivial fun valid _ => ?_
    exact .ite (fun _ => .bind gateway fun _ h => h) fun _ => drop
  · refine .bind .trivial fun valid _ => ?_
    exact .ite (fun _ => .bind host fun _ h => h) fun _ => drop

theorem macResolveUc6Egress_post {P : BackState → Prop}
    (gateway : hDest b = s.ifEgress.mac → Post P (fun _ => True) (sendGwNa r b false s))
    (host : hDest b ≠ s.ifEgress.mac → Post P (fun _ => True) (sendNaFor r b false s))
    (drop : P (s.stat .rxDropEg)) (same : P s) :
    Post P (fun _ => True) (macResolveUc6Egress lim r len b s) := by
  refine .ite (fun _ => drop) fun _ => .ite (fun hmac => ?_) fun hmac => ?_
  · refine .ite (fun _ => .bind .trivial fun valid _ => ?_) fun _ => same
    exact .ite (fun _ => gateway hmac) fun _ => same
  · refine .bind .trivial fun valid _ => ?_
    exact .ite (fun _ => host hmac) fun _ => same

end

end Sasat
