import Sasat.Back.Backend
import Sasat.Common.Init

/-!
# The backend from its start on

* `BackBoot`: what the backend finds when it starts; `start`: the state in which the two packet
  threads begin.
* `Received`, `Received.step`: a frame on one of the two interfaces, and its handling.
* `BackRun`: the states of a backend that has been started so.
* `BackSettled`: what the start settles about the interfaces, the families and the server;
  **`BackRun.settled`**: it holds ever after.
* `BackMacs`: the MAC addresses in use are not zero; **`BackRun.macs`**.
-/

namespace Sasat

open Outcome

/-! ## The start -/

/-- What `main` of the backend finds: the system, the properties, the outcomes of the MAC
resolutions, the connection mode, the clock, and the sockets that the two threads open. -/
structure BackBoot where
  host : Host
  props : Props
  o4 : MacOutcomes
  o6 : MacOutcomes
  g4 : MacOutcomes
  g6 : MacOutcomes
  lMode : LMode
  starttime : BitVec 64
  tsc : BitVec 64
  fdIn : ℕ
  fdEg : ℕ
  fd_ne : fdIn ≠ fdEg

namespace BackBoot

variable (boot : BackBoot)

/-- The IPv4 address of the server, if one is configured and `inet_pton` takes it. -/
def svrIp4 : Option InAddr := (anycastGetProperties boot.props keySvrIp4).bind boot.host.pton.v4

/-- The IPv6 address of the server, if one is configured and `inet_pton` takes it. -/
def svrIp6 : Option In6Addr := (anycastGetProperties boot.props keySvrIp6).bind boot.host.pton.v6

def zeroIf : Ifdata := ⟨0, 0, false, false, 0, 0, 0, 0, 0⟩

/-- The zeroed memory, with what `get_interface_info` has found and with the sockets, which nothing
reads before the threads run. -/
def mem : BackState :=
  let i := getInterfaceInfo boot.host boot.props zeroIf zeroIf
  ⟨initClientTable 0 0, ⟨false, false, false, 0, 0, 0, 0⟩, { i.1 with sockfd := boot.fdIn },
    { i.2.1 with sockfd := boot.fdEg }, i.2.2, .l2, false, false, 0, 0, ⟨fun _ => 0, []⟩⟩

/-- The state in which the packet threads begin. -/
def start : BackState :=
  backInit boot.svrIp4 boot.svrIp6 boot.o4 boot.o6 boot.g4 boot.g6 boot.lMode boot.starttime
    boot.tsc boot.mem

/-- The state behind `marge_info`, with the connection mode. -/
def merged : BackState :=
  { margeInfo (getSvrInfo boot.svrIp4 boot.svrIp6 boot.o4 boot.o6
      { boot.mem with clientInfo := initClientTable boot.starttime boot.tsc }) with
    lMode := boot.lMode }

theorem start_rel {R : BackState → BackState → Prop} (hR : HandlerRel R) :
    R boot.merged boot.start := by
  have h4 : R boot.merged (if boot.merged.ifIngress.v4Enable then
      boot.merged.getDefaultGw4 boot.g4 else boot.merged) := by
    split_ifs
    · exact hR.gw4 _ _
    · exact hR.refl _
  change R boot.merged (if (if boot.merged.ifIngress.v4Enable then
      boot.merged.getDefaultGw4 boot.g4 else boot.merged).ifIngress.v6Enable then
    (if boot.merged.ifIngress.v4Enable then boot.merged.getDefaultGw4 boot.g4
      else boot.merged).getDefaultGw6 boot.g6
    else if boot.merged.ifIngress.v4Enable then boot.merged.getDefaultGw4 boot.g4 else boot.merged)
  generalize (if boot.merged.ifIngress.v4Enable then boot.merged.getDefaultGw4 boot.g4
    else boot.merged) = s at h4 ⊢
  split_ifs
  · exact hR.trans h4 (hR.gw6 _ _)
  · exact h4

end BackBoot

/-! ## Runs -/

inductive Side
  | ingress | egress
  deriving DecidableEq

/-- A frame that `recv` puts into the buffer, of which `lim` bytes may be read, and what happens
while it is handled. -/
structure Received where
  side : Side
  lim : ℕ
  resolution : Resolution
  tsc : BitVec 64
  buf : Buf
  len : ℕ
  fits : len ≤ lim

/-- `back_ingress` or `back_egress`. -/
def Received.step (x : Received) (s : BackState) : M (Buf × BackState) :=
  match x.side with
  | .ingress => backIngress x.lim x.resolution x.tsc x.buf x.len s
  | .egress => backEgress x.lim x.resolution x.tsc x.buf x.len s

inductive BackRun (boot : BackBoot) : BackState → Prop
  | init : BackRun boot boot.start
  | step {s s' : BackState} {b' : Buf} (x : Received) :
      BackRun boot s → x.step s = .ok (b', s') → BackRun boot s'

theorem Received.step_rel {R : BackState → BackState → Prop} (hR : HandlerRel R) (x : Received)
    (s : BackState) : Post (fun y => R s y.2) (fun _ => True) (x.step s) := by
  unfold Received.step
  cases x.side with
  | ingress => exact backIngress_rel hR _ _ _ _ _ s
  | egress => exact backEgress_rel hR _ _ _ _ _ s

variable {boot : BackBoot} {s s' : BackState}

/-! ## What the start settles -/

/-- The families are enabled on both interfaces or on none, and only with a server address; the
multicast addresses are those of the virtual addresses; there are two sockets. -/
structure BackSettled (boot : BackBoot) (s : BackState) : Prop where
  same4 : s.ifEgress.v4Enable = s.ifIngress.v4Enable
  same6 : s.ifEgress.v6Enable = s.ifIngress.v6Enable
  svr4 : s.ifIngress.v4Enable = true → boot.svrIp4 = some s.svrInfo.svrIp4
  svr6 : s.ifIngress.v6Enable = true → boot.svrIp6 = some s.svrInfo.svrIp6
  fmmacIn : FmmacOk s.ifIngress
  fmmacEg : FmmacOk s.ifEgress
  sockfd : s.ifIngress.sockfd ≠ s.ifEgress.sockfd

theorem BackSettled.kept (h : BackSettled boot s) (hk : BackKept s s') : BackSettled boot s' where
  same4 := by rw [hk.ifIngress, hk.ifEgress]; exact h.same4
  same6 := by rw [hk.ifIngress, hk.ifEgress]; exact h.same6
  svr4 := by rw [hk.ifIngress, hk.svrIp4]; exact h.svr4
  svr6 := by rw [hk.ifIngress, hk.svrIp6]; exact h.svr6
  fmmacIn := by rw [hk.ifIngress]; exact h.fmmacIn
  fmmacEg := by rw [hk.ifEgress]; exact h.fmmacEg
  sockfd := by rw [hk.ifIngress, hk.ifEgress]; exact h.sockfd

theorem getSvrInfo_svr (ip4 : Option InAddr) (ip6 : Option In6Addr) (o4 o6 : MacOutcomes)
    (s : BackState) :
    ((getSvrInfo ip4 ip6 o4 o6 s).svrInfo.v4Enable = true →
      ip4 = some (getSvrInfo ip4 ip6 o4 o6 s).svrInfo.svrIp4) ∧
    ((getSvrInfo ip4 ip6 o4 o6 s).svrInfo.v6Enable = true →
      ip6 = some (getSvrInfo ip4 ip6 o4 o6 s).svrInfo.svrIp6) := by
  unfold getSvrInfo
  cases ip4 with
  | none =>
    cases ip6 with
    | none => exact ⟨fun h => absurd h Bool.false_ne_true, fun h => absurd h Bool.false_ne_true⟩
    | some a6 => exact ⟨fun h => absurd h Bool.false_ne_true, fun _ => rfl⟩
  | some a4 =>
    cases ip6 with
    | none => exact ⟨fun _ => rfl, fun h => absurd h Bool.false_ne_true⟩
    | some a6 =>
      dsimp only
      split_ifs
      · exact ⟨fun _ => rfl, fun _ => rfl⟩
      · exact ⟨fun _ => rfl, fun _ => rfl⟩

theorem margeInfo_settled {s : BackState}
    (h4 : s.svrInfo.v4Enable = true → boot.svrIp4 = some s.svrInfo.svrIp4)
    (h6 : s.svrInfo.v6Enable = true → boot.svrIp6 = some s.svrInfo.svrIp6)
    (hin : FmmacOk s.ifIngress) (heg : FmmacOk s.ifEgress)
    (hfd : s.ifIngress.sockfd ≠ s.ifEgress.sockfd) : BackSettled boot (margeInfo s) where
  same4 := rfl
  same6 := rfl
  svr4 h := h4 (Bool.and_eq_true_iff.mp h).2
  svr6 h := h6 (Bool.and_eq_true_iff.mp h).2
  fmmacIn h := hin (Bool.and_eq_true_iff.mp (Bool.and_eq_true_iff.mp h).1).1
  fmmacEg h := heg (Bool.and_eq_true_iff.mp (Bool.and_eq_true_iff.mp h).1).2
  sockfd := hfd

theorem start_settled (boot : BackBoot) : BackSettled boot boot.start := by
  obtain ⟨hin, heg⟩ :=
    getInterfaceInfo_fmmac boot.host boot.props BackBoot.zeroIf BackBoot.zeroIf
  obtain ⟨h4, h6⟩ := getSvrInfo_svr boot.svrIp4 boot.svrIp6 boot.o4 boot.o6
    { boot.mem with clientInfo := initClientTable boot.starttime boot.tsc }
  have h : BackSettled boot (margeInfo (getSvrInfo boot.svrIp4 boot.svrIp6 boot.o4 boot.o6
      { boot.mem with clientInfo := initClientTable boot.starttime boot.tsc })) :=
    margeInfo_settled h4 h6 hin heg boot.fd_ne
  have h' : BackSettled boot boot.merged := ⟨h.1, h.2, h.3, h.4, h.5, h.6, h.7⟩
  exact h'.kept (boot.start_rel backKept_rel)

/-- **What the start settles holds ever after.** -/
theorem BackRun.settled (h : BackRun boot s) : BackSettled boot s := by
  induction h with
  | init => exact start_settled boot
  | step x _ hrun ih => exact ih.kept ((x.step_rel backKept_rel _).of_ok hrun)

/-! ## MAC addresses in use -/

/-- The MAC addresses of the server and of the gateways are not zero where they are in use. -/
structure BackMacs (s : BackState) : Prop where
  svr : s.svrInfo.stat = true → s.svrInfo.svrMac ≠ 0
  gw4 : s.gwMacV4Valid = true → s.gwMacV4 ≠ 0
  gw6 : s.gwMacV6Valid = true → s.gwMacV6 ≠ 0

theorem resolveMacLoop_ne : ∀ (os : List MacOutcome) (mac : Mac),
    (resolveMacLoop os mac).1 = true → (resolveMacLoop os mac).2 ≠ 0
  | [], _, h => absurd h Bool.false_ne_true
  | o :: os, mac, h => by
    rw [resolveMacLoop] at h ⊢
    split_ifs at h ⊢ with hok hmac
    · exact resolveMacLoop_ne os _ h
    · exact hmac
    · exact resolveMacLoop_ne os _ h

/-- **A resolution that succeeds leaves a MAC address.** -/
theorem resolveMac_ne (o : MacOutcomes) (mac : Mac) (h : (resolveMac o mac).1 = true) :
    (resolveMac o mac).2 ≠ 0 := resolveMacLoop_ne _ mac h

theorem backMacs_rel : HandlerRel fun s s' => BackMacs s → BackMacs s' where
  refl _ h := h
  trans h h' hs := h' (h hs)
  io _ _ h := ⟨h.svr, h.gw4, h.gw6⟩
  clientInfo _ _ h := ⟨h.svr, h.gw4, h.gw6⟩
  gw4 o s h := ⟨h.svr, resolveMac_ne o s.gwMacV4, h.gw6⟩
  gw6 o s h := ⟨h.svr, h.gw4, resolveMac_ne o s.gwMacV6⟩
  svr o s h := by
    unfold BackState.resolveSvr
    split_ifs
    · exact h
    · exact ⟨resolveMac_ne o s.svrInfo.svrMac, h.gw4, h.gw6⟩

theorem getSvrInfo_mac (ip4 : Option InAddr) (ip6 : Option In6Addr) (o4 o6 : MacOutcomes)
    (s : BackState) (h : (getSvrInfo ip4 ip6 o4 o6 s).svrInfo.stat = true) :
    (getSvrInfo ip4 ip6 o4 o6 s).svrInfo.svrMac ≠ 0 := by
  unfold getSvrInfo at h ⊢
  cases ip4 with
  | none =>
    cases ip6 with
    | none => exact absurd h Bool.false_ne_true
    | some a6 => exact resolveMac_ne o6 0 h
  | some a4 =>
    cases ip6 with
    | none => exact resolveMac_ne o4 0 h
    | some a6 =>
      dsimp only at h ⊢
      -- the MAC address that IPv4 has found is kept
      by_cases hst : (resolveMac o4 0).1 = false
      · rw [if_pos hst] at h ⊢
        exact resolveMac_ne o6 _ h
      · rw [if_neg hst] at h ⊢
        exact resolveMac_ne o4 0 h

theorem start_macs (boot : BackBoot) : BackMacs boot.start := by
  have hsvr := getSvrInfo_mac boot.svrIp4 boot.svrIp6 boot.o4 boot.o6
    { boot.mem with clientInfo := initClientTable boot.starttime boot.tsc }
  have h : BackMacs boot.merged :=
    ⟨hsvr, fun h => absurd h Bool.false_ne_true, fun h => absurd h Bool.false_ne_true⟩
  exact boot.start_rel backMacs_rel h

/-- **In every state of a run the MAC addresses in use are not zero.** -/
theorem BackRun.macs (h : BackRun boot s) : BackMacs s := by
  induction h with
  | init => exact start_macs boot
  | step x _ hrun ih => exact (x.step_rel backMacs_rel _).of_ok hrun ih

/-! ## A sample -/

/-- Two interfaces with addresses of both families. -/
def sampleHost : Host where
  pton := ptonV4
  getifaddrs _ := some
    [⟨ifnameIngressDefault, some (.inet ![10, 0, 0, 9])⟩,
      ⟨ifnameIngressDefault, some (.inet6 ![0xfd, 0, 0, 0, 0, 0, 0, 0, 0, 0, 0, 0, 0, 0, 0, 9])⟩,
      ⟨ifnameEgressDefault, some (.inet ![10, 1, 0, 9])⟩,
      ⟨ifnameEgressDefault, some (.inet6 ![0xfd, 1, 0, 0, 0, 0, 0, 0, 0, 0, 0, 0, 0, 0, 0, 9])⟩]
  hwaddr name :=
    some (if name = ifnameIngressDefault then ![2, 0, 0, 0, 0, 1] else ![2, 0, 0, 0, 1, 1])

def sampleOutcomes (k : Byte) : MacOutcomes := fun _ => ⟨true, ![2, 0, 0, 0, k, 2]⟩

/-- A server with an IPv4 address only. -/
def sampleBoot : BackBoot where
  host := sampleHost
  props := [(keySvrIp4, bytesOf "10.1.0.2")]
  o4 := sampleOutcomes 1
  o6 := sampleOutcomes 1
  g4 := sampleOutcomes 0
  g6 := sampleOutcomes 0
  lMode := .l3
  starttime := 0
  tsc := 0
  fdIn := 3
  fdEg := 4
  fd_ne := by decide

end Sasat
