import Sasat.Front.Runs
import Sasat.Common.FrameClass
import Sasat.Common.NsValid
import Sasat.Lib.Outcome

/-!
# `front.c`

What the packet thread does with a frame: `lim` bytes of its buffer may be read by the code of
`arp_proc.c`, `len` bytes have been received, the bytes behind them are left over.

* `procV4`, `procV6`, `procRecvData`: the handling of one frame, with the buffer that it leaves.
* `recvClass`, `recvClassDo`: the class of a frame and what is done with it;
  **`procRecvData_class`**, **`frontIngress1_post`**: nothing else is.
* `FrontReach`: the states of the running translator.
* **`FrontReach.inv`**: every one of them satisfies the invariant of the tables.
-/

namespace Sasat

open Outcome

/-- The counters of `arp_proc.c` under `FRONT_T`. -/
def frontArpStats : ArpStats FrontStat := ⟨.rxDrop, .txNa, some .txArpReply⟩

namespace FrontState

def stat (s : FrontState) (m : FrontStat) : FrontState := { s with io := s.io.stat m }

def write (s : FrontState) (sender : Sender) (bytes : List Byte) : FrontState :=
  { s with io := s.io.write sender s.ifIngress.sockfd bytes }

end FrontState

/-- `proc_v4`. The outgoing interface is the incoming one. -/
def procV4 (o : ℕ → MacOutcomes) (tsc : BitVec 64) (b : Buf) (len : ℕ) (s : FrontState) :
    M (Buf × FrontState) :=
  if ipDst b ≠ s.vip4 then .ok (b, s.stat .rxDropAddrV4)
  else do
    let (e, s) ← getPolV4 o tsc (ipSrc b) s
    match e with
    | none => .ok (b, s.stat .rxDropPolicy)
    | some e =>
      let lb := s.lb4.cache e
      let b := store b 0 lb.lbDstMac
      let b := store b 6 s.ifIngress.mac
      let b := store b 30 lb.lbDstIp
      let b := store b 24 (bytes16 (ntohs (add16forCheckSum (ntohs (ipSumField b)) lb.chksumDelta)))
      .ok (b, (s.stat .txPacketV4).write .procV4 (frame b len))

/-- `proc_v6`. -/
def procV6 (o : ℕ → MacOutcomes) (tsc : BitVec 64) (b : Buf) (len : ℕ) (s : FrontState) :
    M (Buf × FrontState) :=
  if ip6Dst b ≠ s.vip6 then .ok (b, s.stat .rxDropAddrV6)
  else do
    let (e, s) ← getPolV6 o tsc (ip6Src b) s
    match e with
    | none => .ok (b, s.stat .rxDropPolicy)
    | some e =>
      let lb := s.lb6.cache e
      let b := store b 0 lb.lbDstMac
      let b := store b 6 s.ifIngress.mac
      let b := store b 38 lb.lbDstIp
      .ok (b, (s.stat .txPacketV6).write .procV6 (frame b len))

/-- `proc_recv_data`. -/
def procRecvData (lim : ℕ) (o : ℕ → MacOutcomes) (tsc : BitVec 64) (b : Buf) (len : ℕ)
    (s : FrontState) : M (Buf × FrontState) :=
  if hSource b = s.ifIngress.mac then .ok (b, s)
  else if isMulticast (hDest b) then
    if s.vipMode then do
      let r ← macResolve frontArpStats lim s.ifIngress (hProto b) len b (s.io.stat .rxPacketMc)
      .ok (r.1, { s with io := r.2 })
    else .ok (b, s.stat .rxPacketMc)
  else if hProto b = ethPIp then
    if 34 < len then procV4 o tsc b len (s.stat .rxPacketV4)
    else .ok (b, (s.stat .rxPacketV4).stat .rxDropShort)
  else if hProto b = ethPIpv6 then
    if 54 < len then do
      let ns ← isIcmp6Ns lim b len
      if ns then
        if s.vipMode then do
          let io ← macResolveUc6 frontArpStats lim s.ifIngress len b (s.io.stat .rxPacketV6)
          .ok (b, { s with io := io })
        else .ok (b, s.stat .rxPacketV6)
      else procV6 o tsc b len (s.stat .rxPacketV6)
    else .ok (b, (s.stat .rxPacketV6).stat .rxDropShort)
  else if hProto b = ethPArp then
    if s.ifIngress.v4Enable then
      let r := arpReply frontArpStats s.ifIngress b s.io
      .ok (r.2.1, { s with io := r.2.2 })
    else .ok (b, s)
  else .ok (b, s.stat .rxDropNoip)

/-- `front_ingress1` on one frame that `recv` has put into the buffer. -/
def frontIngress1 (lim : ℕ) (o : ℕ → MacOutcomes) (tsc : BitVec 64) (b : Buf) (len : ℕ)
    (s : FrontState) : M (Buf × FrontState) :=
  if 14 < len then procRecvData lim o tsc b len s else .ok (b, s.stat .rxDropShort)

/-! ## The classes of frames -/

/-- The class of a frame in `proc_recv_data`. -/
def recvClass (lim : ℕ) (b : Buf) (len : ℕ) (s : FrontState) : M FrameClass :=
  frameClass s.ifIngress.mac (34 < len) lim b len

/-- What `proc_recv_data` does with a frame of a class. -/
def recvClassDo (lim : ℕ) (o : ℕ → MacOutcomes) (tsc : BitVec 64) (b : Buf) (len : ℕ)
    (s : FrontState) : FrameClass → M (Buf × FrontState)
  | .own => .ok (b, s)
  | .multicast =>
    if s.vipMode then do
      let r ← macResolve frontArpStats lim s.ifIngress (hProto b) len b (s.io.stat .rxPacketMc)
      .ok (r.1, { s with io := r.2 })
    else .ok (b, s.stat .rxPacketMc)
  | .v4 => procV4 o tsc b len (s.stat .rxPacketV4)
  | .short4 => .ok (b, (s.stat .rxPacketV4).stat .rxDropShort)
  | .v6 => procV6 o tsc b len (s.stat .rxPacketV6)
  | .ns =>
    if s.vipMode then do
      let io ← macResolveUc6 frontArpStats lim s.ifIngress len b (s.io.stat .rxPacketV6)
      .ok (b, { s with io := io })
    else .ok (b, s.stat .rxPacketV6)
  | .short6 => .ok (b, (s.stat .rxPacketV6).stat .rxDropShort)
  | .arp =>
    if s.ifIngress.v4Enable then
      let r := arpReply frontArpStats s.ifIngress b s.io
      .ok (r.2.1, { s with io := r.2.2 })
    else .ok (b, s)
  | .noip => .ok (b, s.stat .rxDropNoip)

section

variable {lim len : ℕ} {b : Buf} {o : ℕ → MacOutcomes} {tsc : BitVec 64} {s : FrontState}
  {P : Buf × FrontState → Prop}

theorem procRecvData_class (o : ℕ → MacOutcomes) (tsc : BitVec 64) (s : FrontState) :
    procRecvData lim o tsc b len s =
      recvClass lim b len s >>= recvClassDo lim o tsc b len s := by
  rw [recvClass, frameClass_bind]
  simp only [decide_eq_true_eq]
  rfl

theorem procRecvData_post (h : ∀ c : FrameClass, c.Says s.ifIngress.mac (34 < len) lim b len →
    Post P (fun _ => True) (recvClassDo lim o tsc b len s c)) :
    Post P (fun _ => True) (procRecvData lim o tsc b len s) := by
  rw [procRecvData_class]
  exact frameClass_post h

/-- A frame of the interface itself is not handled. -/
theorem frontIngress1_own (hlen : 14 < len) (h : hSource b = s.ifIngress.mac) :
    frontIngress1 lim o tsc b len s = .ok (b, s) := by
  rw [frontIngress1, if_pos hlen, procRecvData, if_pos h]

/-- **What is done with a frame is shown class by class.** -/
theorem frontIngress1_post (runt : ¬ 14 < len → P (b, s.stat .rxDropShort))
    (h : 14 < len → ∀ c : FrameClass, c.Says s.ifIngress.mac (34 < len) lim b len →
      Post P (fun _ => True) (recvClassDo lim o tsc b len s c)) :
    Post P (fun _ => True) (frontIngress1 lim o tsc b len s) :=
  .ite (fun hlen => procRecvData_post (h hlen)) runt

end

/-! ## The states of the running translator -/

/-- What the handling of a frame keeps: besides counters and written frames it changes the tables
of one family, and there no rule. -/
structure Handled (s s' : FrontState) : Prop where
  inv : FrontInv s'
  ext4 : Extends s.lb4 s'.lb4
  ext6 : Extends s.lb6 s'.lb6
  ifIngress : s'.ifIngress = s.ifIngress
  vip4 : s'.vip4 = s.vip4
  vip6 : s'.vip6 = s.vip6
  vipMode : s'.vipMode = s.vipMode

section

variable {s s' : FrontState}

theorem Handled.of_io (hs : FrontInv s) (io : Io FrontStat) : Handled s { s with io := io } :=
  ⟨⟨hs.side4, hs.side6⟩, .refl _, .refl _, rfl, rfl, rfl, rfl⟩

theorem Handled.trans_io (h : Handled s s') (io : Io FrontStat) : Handled s { s' with io := io } :=
  ⟨⟨h.inv.side4, h.inv.side6⟩, h.ext4, h.ext6, h.ifIngress, h.vip4, h.vip6, h.vipMode⟩

theorem procV4_handled (hs : FrontInv s) (o : ℕ → MacOutcomes) (tsc : BitVec 64) (b : Buf)
    (len : ℕ) : Post (fun r => Handled s r.2) (fun _ => True) (procV4 o tsc b len s) := by
  refine .ite (fun _ => .of_io hs _) fun _ => ?_
  obtain ⟨r, lb, hget, hinv, hext, -⟩ := getPolV4_spec hs o tsc (ipSrc b)
  have hlb : Handled s { s with lb4 := lb } := ⟨hinv, hext, .refl _, rfl, rfl, rfl, rfl⟩
  rw [hget]
  cases r with
  | none => exact hlb.trans_io _
  | some e => exact hlb.trans_io _

theorem procV6_handled (hs : FrontInv s) (o : ℕ → MacOutcomes) (tsc : BitVec 64) (b : Buf)
    (len : ℕ) : Post (fun r => Handled s r.2) (fun _ => True) (procV6 o tsc b len s) := by
  refine .ite (fun _ => .of_io hs _) fun _ => ?_
  obtain ⟨r, lb, hget, hinv, hext, -⟩ := getPolV6_spec hs o tsc (ip6Src b)
  have hlb : Handled s { s with lb6 := lb } := ⟨hinv, .refl _, hext, rfl, rfl, rfl, rfl⟩
  rw [hget]
  cases r with
  | none => exact hlb.trans_io _
  | some e => exact hlb.trans_io _

/-- **The handling of a frame keeps the invariant and the configuration.** -/
theorem procRecvData_handled (hs : FrontInv s) (lim : ℕ) (o : ℕ → MacOutcomes) (tsc : BitVec 64)
    (b : Buf) (len : ℕ) :
    Post (fun r => Handled s r.2) (fun _ => True) (procRecvData lim o tsc b len s) := by
  have hio : ∀ io, Handled s { s with io := io } := fun io => .of_io hs io
  have hstat : ∀ m r, Handled (s.stat m) r → Handled s r :=
    fun m r h => ⟨h.inv, h.ext4, h.ext6, h.ifIngress, h.vip4, h.vip6, h.vipMode⟩
  refine procRecvData_post fun c _ => ?_
  cases c with
  | own | short4 | short6 | noip => exact hio _
  | multicast | ns => exact .ite (fun _ => .bind .trivial fun _ _ => hio _) fun _ => hio _
  | v4 => exact (procV4_handled (hio _).inv o tsc b len).mono (fun r h => hstat _ _ h) fun _ h => h
  | v6 => exact (procV6_handled (hio _).inv o tsc b len).mono (fun r h => hstat _ _ h) fun _ h => h
  | arp => exact .ite (fun _ => hio _) fun _ => hio _

theorem frontIngress1_handled (hs : FrontInv s) (lim : ℕ) (o : ℕ → MacOutcomes) (tsc : BitVec 64)
    (b : Buf) (len : ℕ) :
    Post (fun r => Handled s r.2) (fun _ => True) (frontIngress1 lim o tsc b len s) :=
  .ite (fun _ => procRecvData_handled hs lim o tsc b len) fun _ => .of_io hs _

end

theorem procV6_wrote (o : ℕ → MacOutcomes) (tsc : BitVec 64) (b : Buf) (len : ℕ) (s : FrontState) :
    Post (fun r => Wrote (fun x => x.sender = .procV6) s.io r.2.io) (fun _ => True)
      (procV6 o tsc b len s) := by
  refine .ite (fun _ => .none rfl) fun _ => ?_
  refine .bind (P := fun r : Option CachePtr × FrontState => r.2.io = s.io)
    (.bind .trivial fun _ _ => rfl) fun ⟨e, s'⟩ hr => ?_
  replace hr : s'.io = s.io := hr
  rw [← hr]
  cases e with
  | none => exact .none rfl
  | some e => exact Or.inr ⟨_, rfl, rfl⟩

/-- **The frames that the handling of a frame writes**: ARP replies and advertisements, and what
`proc_v4` and `proc_v6` forward. -/
theorem frontIngress1_wrote {P : Tx → Prop} {lim : ℕ} {o : ℕ → MacOutcomes} {tsc : BitVec 64}
    {b : Buf} {len : ℕ} {s : FrontState}
    (ha : ∀ bytes, P ⟨.arpReply, s.ifIngress.sockfd, bytes⟩)
    (hn : ∀ bytes, P ⟨.sendIcmp6Na, s.ifIngress.sockfd, bytes⟩)
    (h4 : 34 < len → Post (fun r => Wrote P s.io r.2.io) (fun _ => True)
      (procV4 o tsc b len (s.stat .rxPacketV4)))
    (h6 : 54 < len → Post (fun r => Wrote P s.io r.2.io) (fun _ => True)
      (procV6 o tsc b len (s.stat .rxPacketV6))) :
    Post (fun r => Wrote P s.io r.2.io) (fun _ => True) (frontIngress1 lim o tsc b len s) := by
  refine frontIngress1_post (fun _ => .none rfl) fun _ c hc => ?_
  cases c with
  | own | short4 | short6 | noip => exact .none rfl
  | multicast =>
    refine .ite (fun _ => ?_) fun _ => .none rfl
    exact .bind (macResolve_wrote _ _ _ _ ha hn lim _ len) fun _ h => h
  | v4 => exact h4 (of_decide_eq_true hc.2.2)
  | v6 => exact h6 hc.2.2.1
  | ns =>
    refine .ite (fun _ => ?_) fun _ => .none rfl
    exact .bind (macResolveUc6_wrote _ _ _ _ hn lim len) fun _ h => h
  | arp => exact .ite (fun _ => arpReply_wrote _ _ _ _ ha) fun _ => .none rfl

/-- The states of the running translator: it starts, its tables are operated on, frames arrive. -/
inductive FrontReach : FrontState → Prop
  | init (pool4 : Fin lbMaxCache → LbPolCache 4 (BitVec 16))
      (pool6 : Fin lbMaxCache → LbPolCache 16 Unit) (i : Ifdata) (m : Bool)
      (lines4 : List (PolicyLine 4)) (lines6 : List (PolicyLine 16)) (mem s : FrontState) :
      frontInit pool4 pool6 i m lines4 lines6 mem = .ok s → FrontReach s
  | op {s s' : FrontState} (op : FrontOp) : FrontReach s → op.step s = .ok s' → FrontReach s'
  | recv {s s' : FrontState} {b b' : Buf} (lim : ℕ) (o : ℕ → MacOutcomes) (tsc : BitVec 64)
      (len : ℕ) : FrontReach s → frontIngress1 lim o tsc b len s = .ok (b', s') → FrontReach s'

/-- The packet thread's copies of the virtual addresses are those of the interface. -/
structure FrontConfig (s : FrontState) : Prop where
  vip4 : s.vip4 = s.ifIngress.vip4
  vip6 : s.vip6 = s.ifIngress.vip6

theorem FrontConfig.handled {s s' : FrontState} (h : FrontConfig s) (hh : Handled s s') :
    FrontConfig s' :=
  ⟨by rw [hh.vip4, hh.ifIngress, h.vip4], by rw [hh.vip6, hh.ifIngress, h.vip6]⟩

theorem FrontConfig.step {s s' : FrontState} (h : FrontConfig s) (hs : FrontInv s) (op : FrontOp)
    (hstep : op.step s = .ok s') : FrontConfig s' := by
  cases op with
  | getPol4 o tsc a =>
    obtain ⟨r, lb, hget, -⟩ := getPolV4_spec hs o tsc a
    rw [FrontOp.step, hget] at hstep
    cases hstep
    exact ⟨h.vip4, h.vip6⟩
  | getPol6 o tsc a =>
    obtain ⟨r, lb, hget, -⟩ := getPolV6_spec hs o tsc a
    rw [FrontOp.step, hget] at hstep
    cases hstep
    exact ⟨h.vip4, h.vip6⟩
  | patrol =>
    have hpost : Post (fun r => FrontConfig r.2) (fun _ => True) (procPatrol s) :=
      .ite (fun _ => .bind .trivial fun _ _ => .bind .trivial fun _ _ => ⟨h.vip4, h.vip6⟩)
        fun _ => h
    obtain ⟨r, hrun, hstep⟩ := bind_eq_ok.mp hstep
    cases hstep
    exact hpost.of_ok hrun
  | reload i m lines4 lines6 =>
    obtain ⟨lb4, -, hstep⟩ := bind_eq_ok.mp hstep
    obtain ⟨lb6, -, hstep⟩ := bind_eq_ok.mp hstep
    cases hstep
    exact ⟨rfl, rfl⟩

/-- **Every reachable state satisfies the invariant of the tables**, has the rules of two policy
files, and the virtual addresses of the interface. -/
theorem FrontReach.inv {s : FrontState} (h : FrontReach s) : FrontInv s ∧ FrontConfig s ∧
    ∃ lines4 lines6, Loaded lines4 lines6 s := by
  induction h with
  | init pool4 pool6 i m lines4 lines6 mem s hinit =>
    obtain ⟨s₁, hrun, hs, hl⟩ := frontInit_spec pool4 pool6 i m lines4 lines6 mem
    rw [hrun] at hinit
    cases hinit
    obtain ⟨lb4, -, hrun⟩ := bind_eq_ok.mp hrun
    obtain ⟨lb6, -, hrun⟩ := bind_eq_ok.mp hrun
    cases hrun
    exact ⟨hs, ⟨rfl, rfl⟩, lines4, lines6, hl⟩
  | op op _ hstep ih =>
    obtain ⟨hs, hc, lines4, lines6, hl⟩ := ih
    obtain ⟨s₁, hrun, hs₁, hl₁⟩ := op.step_spec hs (lines4, lines6) hl
    rw [hrun] at hstep
    cases hstep
    exact ⟨hs₁, hc.step hs op hrun, _, _, hl₁⟩
  | @recv s s' b b' lim o tsc len _ hrecv ih =>
    obtain ⟨hs, hc, lines4, lines6, hl⟩ := ih
    have hh := (frontIngress1_handled hs lim o tsc b len).of_ok hrecv
    obtain ⟨L4, h4⟩ := hs.side4
    obtain ⟨L6, h6⟩ := hs.side6
    exact ⟨hh.inv, hc.handled hh, lines4, lines6, (hh.ext4.rules h4.live).trans hl.rules4,
      (hh.ext6.rules h6.live).trans hl.rules6⟩

/-- The zeroed memory of a family: no policies, no servers, no cache entries. -/
def emptySide (n : ℕ) (D : Type) (d : D) : PolSide n D where
  polHead := []
  pols _ := none
  svrHead := []
  svrs _ := none
  serverNum := 0
  brk := 0
  cache _ := ⟨0, 0, 0, 0, .init, d, 0, 0, 0, none, 0⟩
  tq := ⟨fun _ => none, fun _ => .head .free, fun _ => .head .free⟩
  delCache := false
  ptr := 0

end Sasat
