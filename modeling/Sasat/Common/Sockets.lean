import Sasat.Lib.Handles
import Sasat.Common.Ping

/-!
# The sockets of the translators

The functions that open sockets, each with the outcomes of the calls that it makes. A translator
runs for a long time, so that a socket that is not closed is lost until it ends.

* `setUp`: a socket that is closed when it cannot be set up; `initSocketIf`, `initPingSoc4`,
  `initPingSoc6`, `initUdSocket`.
* `rtsockOpen`, `getTargetMac`, `getMask`: the netlink sockets.
* `ping4`, `ping6`, `sendPing`: the echo requests.
* `SocketCall`, `SocketRun`: the calls of a translator, in any order.
* **`sockets_exact`**: which sockets are open after them.
-/

namespace Sasat

open List Handles

/-! ## Opening sockets -/

/-- The errors `NET_REQ_*`. -/
inductive NetReqErr
  | socketErr | gifindexErr | gifflagsErr | sifflagsErr | bindErr | soBindtodeviceErr | fcntlErr
  deriving DecidableEq

/-- A socket is opened, and set up by `calls`, each with its outcome and with what is returned when
it fails. Then the socket is closed. -/
def setUp {ε : Type} (socket : Bool) (noSocket : ε) (calls : List (Bool × ε)) (fds : List ℕ) :
    Except ε ℕ × List ℕ :=
  if socket then
    match calls.find? fun c => !c.1 with
    | some c => (.error c.2, (lowest fds :: fds).erase (lowest fds))
    | none => (.ok (lowest fds), lowest fds :: fds)
  else (.error noSocket, fds)

/-- The outcomes in `init_socket_if`. -/
structure SocketIfEnv where
  socket : Bool
  gifindex : Bool
  bind : Bool
  gifflags : Bool
  sifflags : Bool
  fcntl : Bool

/-- `init_socket_if`. -/
def initSocketIf (e : SocketIfEnv) : List ℕ → Except NetReqErr ℕ × List ℕ :=
  setUp e.socket .socketErr [(e.gifindex, .gifindexErr), (e.bind, .bindErr),
    (e.gifflags, .gifflagsErr), (e.sifflags, .sifflagsErr), (e.fcntl, .fcntlErr)]

/-- The outcomes in `init_ping_soc4` and `init_ping_soc6`. -/
structure PingSocEnv where
  socket : Bool
  bindtodevice : Bool
  bind : Bool
  gifflags : Bool
  sifflags : Bool
  fcntl : Bool

/-- `init_ping_soc4`. -/
def initPingSoc4 (e : PingSocEnv) : List ℕ → Except NetReqErr ℕ × List ℕ :=
  setUp e.socket .socketErr [(e.bindtodevice, .soBindtodeviceErr), (e.bind, .bindErr),
    (e.gifflags, .gifflagsErr), (e.sifflags, .sifflagsErr), (e.fcntl, .fcntlErr)]

/-- `init_ping_soc6`. -/
def initPingSoc6 (e : PingSocEnv) : List ℕ → Except NetReqErr ℕ × List ℕ :=
  setUp e.socket .socketErr [(e.bindtodevice, .soBindtodeviceErr), (e.bind, .bindErr),
    (e.gifflags, .gifflagsErr), (e.sifflags, .sifflagsErr), (e.fcntl, .fcntlErr)]

/-- The outcomes in `cre_ud_socket`. -/
structure UdEnv where
  socket : Bool
  bind : Bool
  fcntl : Bool

/-- `init_ud_socket`, with `cre_ud_socket`; its errors are all `-1`. -/
def initUdSocket (e : UdEnv) : List ℕ → Except Unit ℕ × List ℕ :=
  setUp e.socket () [(e.bind, ()), (e.fcntl, ())]

/-- The outcomes in `rtsock_open`, and what `getsockname` returns. -/
structure RtsockEnv where
  socket : Bool
  sndbuf : Bool
  rcvbuf : Bool
  bind : Bool
  getsockname : Bool
  addrLen : ℕ
  nlFamily : BitVec 16

/-- The calls and checks of `rtsock_open` behind `socket` succeed. -/
def RtsockEnv.passes (e : RtsockEnv) : Bool :=
  e.sndbuf && e.rcvbuf && e.bind && e.getsockname && e.addrLen == 12 && e.nlFamily == 16

/-- `rtsock_open`. It does not close its socket when it fails. -/
def rtsockOpen (e : RtsockEnv) (fds : List ℕ) : Option ℕ × List ℕ :=
  if e.socket then
    if e.passes then (some (lowest fds), lowest fds :: fds) else (none, lowest fds :: fds)
  else (none, fds)

/-- The descriptors after `get_target_mac`: `rtsock_close` stands before every `return` behind
`rtsock_open`. -/
def targetMacFds (e : RtsockEnv) (fds : List ℕ) : List ℕ :=
  match rtsockOpen e fds with
  | (some fd, fds) => fds.erase fd
  | (none, fds) => fds

/-- The descriptors after `get_mask`: `family`, `sent` and `dumped` tell whether the address has a
family that it knows, and whether `wdump_request` and `dump_filter` succeed. -/
def maskFds (e : RtsockEnv) (family sent dumped : Bool) (fds : List ℕ) : List ℕ :=
  match rtsockOpen e fds with
  | (some fd, fds) => if family && sent && dumped then fds else fds.erase fd
  | (none, fds) => fds

section

variable {ε : Type} {socket : Bool} {noSocket : ε} {calls : List (Bool × ε)} {fds : List ℕ}

/-- **A socket that cannot be set up is closed.** -/
theorem setUp_spec : (∃ err, setUp socket noSocket calls fds = (.error err, fds)) ∨
    setUp socket noSocket calls fds = (.ok (lowest fds), lowest fds :: fds) := by
  unfold setUp
  split
  · split
    · exact Or.inl ⟨_, by rw [erase_cons_head]⟩
    · exact Or.inr rfl
  · exact Or.inl ⟨_, rfl⟩

/-- The socket of `rtsock_open` is lost. -/
def RtsockEnv.leaks (e : RtsockEnv) : Bool := e.socket && !e.passes

theorem targetMacFds_eq (e : RtsockEnv) (fds : List ℕ) :
    targetMacFds e fds = if e.leaks then lowest fds :: fds else fds := by
  unfold targetMacFds rtsockOpen RtsockEnv.leaks
  cases e.socket <;> cases e.passes <;> simp

theorem maskFds_eq (e : RtsockEnv) (family sent dumped : Bool) (fds : List ℕ) :
    maskFds e family sent dumped fds =
      if e.leaks || e.socket && family && sent && dumped then lowest fds :: fds else fds := by
  unfold maskFds rtsockOpen RtsockEnv.leaks
  cases e.socket <;> cases e.passes <;> cases family <;> cases sent <;> cases dumped <;> simp

end

/-! ## Echo requests -/

/-- A request that has been passed to `sendto`. -/
structure EchoRequest (A : Type) where
  fd : ℕ
  target : A
  bytes : List Byte

/-- The `seq_num` of one family, and its requests. -/
structure Pings (A : Type) where
  seqNum : Byte
  requests : List (EchoRequest A)

/-- `ping4` and `ping6`, which have the socket `fd`, or none yet. -/
def ping {A : Type} (initPingSoc : PingSocEnv → List ℕ → Except NetReqErr ℕ × List ℕ)
    (echoRequest : Byte → M (List Byte)) (e : PingSocEnv) (target : A) (fd : ℕ) (fds : List ℕ)
    (p : Pings A) : M (ℕ × List ℕ × Pings A) :=
  let send (fd : ℕ) (fds : List ℕ) : M (ℕ × List ℕ × Pings A) := do
    let bytes ← echoRequest p.seqNum
    .ok (fd, fds, ⟨p.seqNum + 1, p.requests ++ [⟨fd, target, bytes⟩]⟩)
  if fd = 0 then
    match initPingSoc e fds with
    | (.error _, fds) => .ok (fd, fds, p)
    | (.ok fd, fds) => send fd fds
  else send fd fds

/-- `ping4`. -/
def ping4 (e : PingSocEnv) (target : InAddr) (fd : ℕ) (fds : List ℕ) (p : Pings InAddr) :
    M (ℕ × List ℕ × Pings InAddr) := ping initPingSoc4 echoRequest4 e target fd fds p

/-- `ping6`. -/
def ping6 (e : PingSocEnv) (target : In6Addr) (fd : ℕ) (fds : List ℕ) (p : Pings In6Addr) :
    M (ℕ × List ℕ × Pings In6Addr) := ping initPingSoc6 echoRequest6 e target fd fds p

/-- What one call of `ping4` or `ping6` does: nothing, or it sends the next request, on the socket
that it has or on a new one. -/
inductive Pinged {A : Type} (echoRequest : Byte → M (List Byte)) (target : A) (fd : ℕ)
    (fds : List ℕ) (p : Pings A) : ℕ → List ℕ → Pings A → Prop
  | failed : fd = 0 → Pinged echoRequest target fd fds p 0 fds p
  | opened {bytes : List Byte} : fd = 0 → echoRequest p.seqNum = .ok bytes →
      Pinged echoRequest target fd fds p (lowest fds) (lowest fds :: fds)
        ⟨p.seqNum + 1, p.requests ++ [⟨lowest fds, target, bytes⟩]⟩
  | sent {bytes : List Byte} : fd ≠ 0 → echoRequest p.seqNum = .ok bytes →
      Pinged echoRequest target fd fds p fd fds
        ⟨p.seqNum + 1, p.requests ++ [⟨fd, target, bytes⟩]⟩

section

variable {A : Type} {initPingSoc : PingSocEnv → List ℕ → Except NetReqErr ℕ × List ℕ}
  {echoRequest : Byte → M (List Byte)} {fds : List ℕ}

theorem ping_spec (hsoc : ∀ e, (∃ err, initPingSoc e fds = (.error err, fds)) ∨
      initPingSoc e fds = (.ok (lowest fds), lowest fds :: fds))
    {e : PingSocEnv} {target : A} {fd fd' : ℕ} {fds' : List ℕ} {p p' : Pings A}
    (h : ping initPingSoc echoRequest e target fd fds p = .ok (fd', fds', p')) :
    Pinged echoRequest target fd fds p fd' fds' p' := by
  unfold ping at h
  dsimp only at h
  split_ifs at h with hfd
  · obtain ⟨err, herr⟩ | hok := hsoc e
    · rw [herr] at h
      cases h
      subst hfd
      exact .failed rfl
    · rw [hok] at h
      obtain ⟨bytes, hbytes, h⟩ := bind_eq_ok.mp h
      cases h
      exact .opened hfd hbytes
  · obtain ⟨bytes, hbytes, h⟩ := bind_eq_ok.mp h
    cases h
    exact .sent hfd hbytes

end

/-! ## Runs -/

inductive IfSide
  | ingress | egress
  deriving DecidableEq

/-- The sockets of an interface, in its `struct ifdata`; 0 if there is none. -/
structure IfSockets where
  sockfd : ℕ
  ping4Fd : ℕ
  ping6Fd : ℕ

/-- The open descriptors, the sockets that the translator keeps, and its requests. -/
structure Sockets where
  fds : List ℕ
  ifs : IfSide → IfSockets
  soc : Option ℕ
  pings4 : Pings InAddr
  pings6 : Pings In6Addr

/-- The start, with the descriptors `fds`. -/
def Sockets.start (fds : List ℕ) : Sockets :=
  ⟨fds, fun _ => ⟨0, 0, 0⟩, none, ⟨1, []⟩, ⟨1, []⟩⟩

def Sockets.setIf (s : Sockets) (i : IfSide) (x : IfSockets) : Sockets :=
  { s with ifs := Function.update s.ifs i x }

/-- `send_ping` on an interface. -/
def Sockets.sendPing (s : Sockets) (target : InAddr ⊕ In6Addr) (i : IfSide) (e : PingSocEnv) :
    M Sockets :=
  match target with
  | .inl target => do
    let (fd, fds, p) ← ping4 e target (s.ifs i).ping4Fd s.fds s.pings4
    .ok ({ s with fds := fds, pings4 := p }.setIf i { s.ifs i with ping4Fd := fd })
  | .inr target => do
    let (fd, fds, p) ← ping6 e target (s.ifs i).ping6Fd s.fds s.pings6
    .ok ({ s with fds := fds, pings6 := p }.setIf i { s.ifs i with ping6Fd := fd })

/-- The beginning of `front_ingress1`, `back_ingress` or `back_egress`. -/
def Sockets.initSocketIf (s : Sockets) (i : IfSide) (e : SocketIfEnv) : Sockets :=
  match Sasat.initSocketIf e s.fds with
  | (.error _, fds) => { s with fds := fds }
  | (.ok fd, fds) => { s with fds := fds }.setIf i { s.ifs i with sockfd := fd }

/-- `front_cleanup`. -/
def Sockets.frontCleanup (s : Sockets) : Sockets :=
  if (s.ifs .ingress).sockfd ≠ 0 then
    { s with fds := s.fds.erase (s.ifs .ingress).sockfd }.setIf .ingress
      { s.ifs .ingress with sockfd := 0 }
  else s

/-- The beginning of `command_proc`; `pid` tells whether `init_pid` succeeds. -/
def Sockets.commandProc (s : Sockets) (e : UdEnv) (pid : Bool) : Sockets :=
  match initUdSocket e s.fds with
  | (.error _, fds) => { s with fds := fds }
  | (.ok soc, fds) =>
    if pid then { s with fds := fds, soc := some soc } else { s with fds := fds.erase soc }

/-- The end of `get_ifaddr_info`, which asks for the MAC address. -/
def Sockets.getIfaddrInfo (s : Sockets) (socket : Bool) : Sockets :=
  if socket then { s with fds := (lowest s.fds :: s.fds).erase (lowest s.fds) } else s

/-- A call of a function that uses sockets. -/
inductive SocketCall
  | initSocketIf (i : IfSide) (e : SocketIfEnv)
  | frontCleanup
  /-- The packet thread is cancelled while it has a socket of its own, for the kernel or to ping. -/
  | interrupted
  | commandProc (e : UdEnv) (pid : Bool)
  | getIfaddrInfo (socket : Bool)
  | getTargetMac (e : RtsockEnv)
  | getMask (e : RtsockEnv) (family sent dumped : Bool)
  | sendPing (target : InAddr ⊕ In6Addr) (i : IfSide) (e : PingSocEnv)

/-- A packet thread starts when its interface has no socket, and `command_proc` is called once. -/
def SocketCall.Ready (s : Sockets) : SocketCall → Prop
  | .initSocketIf i _ => (s.ifs i).sockfd = 0
  | .commandProc _ _ => s.soc = none
  | _ => True

def SocketCall.run (s : Sockets) : SocketCall → M Sockets
  | .initSocketIf i e => .ok (s.initSocketIf i e)
  | .frontCleanup => .ok s.frontCleanup
  | .interrupted => .ok { s with fds := lowest s.fds :: s.fds }.frontCleanup
  | .commandProc e pid => .ok (s.commandProc e pid)
  | .getIfaddrInfo socket => .ok (s.getIfaddrInfo socket)
  | .getTargetMac e => .ok { s with fds := targetMacFds e s.fds }
  | .getMask e family sent dumped => .ok { s with fds := maskFds e family sent dumped s.fds }
  | .sendPing target i e => s.sendPing target i e

/-- The call loses a socket: `rtsock_open` fails behind `socket`, `get_mask` succeeds, or the packet
thread has been cancelled. -/
def SocketCall.leaks : SocketCall → Bool
  | .getTargetMac e => e.leaks
  | .getMask e family sent dumped => e.leaks || e.socket && family && sent && dumped
  | .interrupted => true
  | _ => false

inductive SocketRun (base : List ℕ) : List SocketCall → Sockets → Prop
  | start : SocketRun base [] (.start base)
  | call {calls : List SocketCall} {s s' : Sockets} {c : SocketCall} : SocketRun base calls s →
      c.Ready s → c.run s = .ok s' → SocketRun base (calls ++ [c]) s'

/-- A packet socket, a netlink socket that cannot be bound, and a ping to `10.0.0.2`. -/
def sampleCalls : List SocketCall :=
  [.initSocketIf .ingress ⟨true, true, true, true, true, true⟩,
    .getTargetMac ⟨true, true, true, false, true, 12, 16⟩,
    .sendPing (.inl ![10, 0, 0, 2]) .ingress ⟨true, true, true, true, true, true⟩]

theorem sample_sockets : ∃ s, SocketRun [0, 1, 2] sampleCalls s ∧ s.fds = [5, 4, 3, 0, 1, 2] ∧
    ∃ r, s.pings4.requests = [r] := by
  obtain ⟨a, b, hbytes, -⟩ := echoRequest4_verifies 1
  have hping : ping4 ⟨true, true, true, true, true, true⟩ ![10, 0, 0, 2] 0 [4, 3, 0, 1, 2] ⟨1, []⟩ =
      .ok (5, [5, 4, 3, 0, 1, 2], ⟨2, [⟨5, ![10, 0, 0, 2], [8, 0, a, b, 0, 0, 0, 1]⟩]⟩) := by
    rw [ping4, ping, if_pos rfl]
    change echoRequest4 1 >>= _ = _
    rw [hbytes]
    rfl
  obtain ⟨s, h, hfds, hfd, hp⟩ : ∃ s, SocketRun [0, 1, 2] (sampleCalls.take 2) s ∧
      s.fds = [4, 3, 0, 1, 2] ∧ (s.ifs .ingress).ping4Fd = 0 ∧ s.pings4 = ⟨1, []⟩ :=
    ⟨_, .call (c := .getTargetMac ⟨true, true, true, false, true, 12, 16⟩)
      (.call (c := .initSocketIf .ingress ⟨true, true, true, true, true, true⟩) .start rfl rfl)
      trivial rfl, rfl, rfl, rfl⟩
  obtain ⟨s', hrun, hfds', hr⟩ : ∃ s', s.sendPing (.inl ![10, 0, 0, 2]) .ingress
      ⟨true, true, true, true, true, true⟩ = .ok s' ∧ s'.fds = [5, 4, 3, 0, 1, 2] ∧
        ∃ r, s'.pings4.requests = [r] := by
    rw [Sockets.sendPing, hfds, hfd, hp, hping]
    exact ⟨_, rfl, rfl, _, rfl⟩
  exact ⟨s', .call h trivial hrun, hfds', hr⟩

/-! ## Which sockets are open -/

/-- A descriptor, unless it is 0. -/
def keptFd (fd : ℕ) : List ℕ := if fd = 0 then [] else [fd]

def IfSockets.held (x : IfSockets) : List ℕ :=
  keptFd x.sockfd ++ keptFd x.ping4Fd ++ keptFd x.ping6Fd

def Sockets.held (s : Sockets) : List ℕ :=
  s.soc.toList ++ (s.ifs .ingress).held ++ (s.ifs .egress).held

/-- All open descriptors but `n` are those of the start and those that the translator keeps. -/
def Exact (base : List ℕ) (n : ℕ) (s : Sockets) : Prop :=
  ∃ lost, Accounted (base ++ s.held) lost s.fds ∧ lost.length = n

def IfSide.other : IfSide → IfSide
  | .ingress => .egress
  | .egress => .ingress

section

variable {base : List ℕ} {n fd : ℕ} {s : Sockets} {i : IfSide} {x : IfSockets}

theorem keptFd_of_ne (h : fd ≠ 0) : keptFd fd = [fd] := if_neg h

/-- What is kept besides the sockets of an interface. -/
def Sockets.others (s : Sockets) (i : IfSide) : List ℕ :=
  s.soc.toList ++ (s.ifs i.other).held

theorem Sockets.held_perm (s : Sockets) (i : IfSide) : s.held ~ (s.ifs i).held ++ s.others i := by
  cases i with
  | ingress =>
    rw [Sockets.held, append_assoc]
    exact perm_append_comm_assoc _ _ _
  | egress => exact perm_append_comm

theorem Sockets.setIf_held (s : Sockets) (i : IfSide) (x : IfSockets) :
    (s.setIf i x).held ~ x.held ++ s.others i := by
  have hself : (s.setIf i x).ifs i = x := Function.update_self ..
  have hother : (s.setIf i x).ifs i.other = s.ifs i.other :=
    Function.update_of_ne (by cases i <;> decide) ..
  refine ((s.setIf i x).held_perm i).trans ?_
  rw [Sockets.others, hself, hother]
  rfl

theorem Exact.gain (h : Exact base n s) (hx : x.held ~ lowest s.fds :: (s.ifs i).held) :
    Exact base n ({ s with fds := lowest s.fds :: s.fds }.setIf i x) := by
  obtain ⟨lost, ha, hn⟩ := h
  have hperm := calc lowest s.fds :: (base ++ s.held)
      ~ base ++ lowest s.fds :: s.held := perm_middle.symm
    _ ~ base ++ lowest s.fds :: ((s.ifs i).held ++ s.others i) :=
      ((s.held_perm i).cons _).append_left _
    _ ~ base ++ (x.held ++ s.others i) := (hx.symm.append_right _).append_left _
    _ ~ base ++ (s.setIf i x).held := (s.setIf_held i x).symm.append_left _
  exact ⟨lost, ha.opened.congr hperm, hn⟩

theorem Exact.drop (h : Exact base n s) (hx : (s.ifs i).held ~ fd :: x.held) :
    Exact base n ({ s with fds := s.fds.erase fd }.setIf i x) := by
  obtain ⟨lost, ha, hn⟩ := h
  have hperm := calc base ++ s.held
      ~ base ++ ((s.ifs i).held ++ s.others i) := (s.held_perm i).append_left _
    _ ~ base ++ (fd :: x.held ++ s.others i) := (hx.append_right _).append_left _
    _ ~ fd :: (base ++ (x.held ++ s.others i)) := perm_middle
    _ ~ fd :: (base ++ (s.setIf i x).held) := ((s.setIf_held i x).symm.append_left _).cons _
  exact ⟨lost, Accounted.closed (ha.congr hperm), hn⟩

theorem Exact.lose (h : Exact base n s) :
    Exact base (n + 1) { s with fds := lowest s.fds :: s.fds } := by
  obtain ⟨lost, ha, hn⟩ := h
  exact ⟨lowest s.fds :: lost, ha.opened.forgotten, by rw [length_cons, hn]⟩

theorem Exact.lose_if (h : Exact base n s) (c : Bool) :
    Exact base (n + if c then 1 else 0)
      { s with fds := if c then lowest s.fds :: s.fds else s.fds } := by
  cases c with
  | true => exact h.lose
  | false => exact h

theorem Exact.frontCleanup (h : Exact base n s) : Exact base n s.frontCleanup := by
  unfold Sockets.frontCleanup
  split_ifs with hfd
  · refine h.drop ?_
    rw [IfSockets.held, keptFd_of_ne hfd]
    rfl
  · exact h

theorem Exact.initSocketIf (h : Exact base n s) (h0 : lowest s.fds ≠ 0)
    (hi : (s.ifs i).sockfd = 0) (e : SocketIfEnv) : Exact base n (s.initSocketIf i e) := by
  unfold Sockets.initSocketIf
  obtain ⟨err, herr⟩ | hok : (∃ err, Sasat.initSocketIf e s.fds = (.error err, s.fds)) ∨ _ :=
    setUp_spec
  · rw [herr]
    exact h
  · rw [show Sasat.initSocketIf e s.fds = _ from hok]
    refine h.gain ?_
    rw [IfSockets.held, IfSockets.held, hi, keptFd_of_ne h0]
    rfl

theorem Exact.commandProc (h : Exact base n s) (hsoc : s.soc = none) (e : UdEnv) (pid : Bool) :
    Exact base n (s.commandProc e pid) := by
  unfold Sockets.commandProc
  obtain ⟨err, herr⟩ | hok : (∃ err, initUdSocket e s.fds = (.error err, s.fds)) ∨ _ := setUp_spec
  · rw [herr]
    exact h
  · rw [show initUdSocket e s.fds = _ from hok]
    cases pid with
    | true =>
      obtain ⟨lost, ha, hn⟩ := h
      refine ⟨lost, ha.opened.congr ?_, hn⟩
      rw [Sockets.held, hsoc]
      exact perm_middle.symm
    | false =>
      dsimp only
      rw [if_neg Bool.false_ne_true, erase_cons_head]
      exact h

theorem Exact.pinged {A : Type} {echoRequest : Byte → M (List Byte)} {target : A} {fd fd' : ℕ}
    {fds' : List ℕ} {p p' : Pings A} (h : Exact base n s) (h0 : lowest s.fds ≠ 0)
    (hp : Pinged echoRequest target fd s.fds p fd' fds' p') {x : ℕ → IfSockets} {l : List ℕ}
    (hx : ∀ fd, (x fd).held ~ keptFd fd ++ l) (hfd : x fd = s.ifs i) :
    Exact base n ({ s with fds := fds' }.setIf i (x fd')) := by
  have hsame : Exact base n (s.setIf i (x fd)) := by
    rw [hfd, Sockets.setIf, Function.update_eq_self]
    exact h
  cases hp with
  | failed h => exact h ▸ hsame
  | opened h =>
    refine Exact.gain ‹_› ?_
    have hnew := hx (lowest s.fds)
    have hold := hx fd
    rw [keptFd_of_ne h0] at hnew
    rw [hfd, h, keptFd, if_pos rfl] at hold
    exact hnew.trans (hold.symm.cons _)
  | sent => exact hsame

theorem Exact.sendPing (h : Exact base n s) (h0 : lowest s.fds ≠ 0) {target : InAddr ⊕ In6Addr}
    {e : PingSocEnv} {s' : Sockets} (hrun : s.sendPing target i e = .ok s') : Exact base n s' := by
  cases target with
  | inl target =>
    obtain ⟨⟨fd, fds, p⟩, hping, hrun⟩ := bind_eq_ok.mp hrun
    cases hrun
    refine h.pinged h0 (ping_spec (fun e => setUp_spec) hping)
      (x := fun fd => { s.ifs i with ping4Fd := fd })
      (l := keptFd (s.ifs i).sockfd ++ keptFd (s.ifs i).ping6Fd) (fun fd => ?_) rfl
    rw [← append_assoc]
    exact perm_append_comm.append_right _
  | inr target =>
    obtain ⟨⟨fd, fds, p⟩, hping, hrun⟩ := bind_eq_ok.mp hrun
    cases hrun
    exact h.pinged h0 (ping_spec (fun e => setUp_spec) hping)
      (x := fun fd => { s.ifs i with ping6Fd := fd })
      (l := keptFd (s.ifs i).sockfd ++ keptFd (s.ifs i).ping4Fd) (fun fd => perm_append_comm) rfl

theorem Exact.run (h : Exact base n s) (h0 : 0 ∈ base) {c : SocketCall} {s' : Sockets}
    (hready : c.Ready s) (hrun : c.run s = .ok s') :
    Exact base (n + if c.leaks then 1 else 0) s' := by
  have hlow : lowest s.fds ≠ 0 := by
    obtain ⟨lost, ha, -⟩ := h
    exact lowest_ne (ha.mem_held (mem_append_left _ h0))
  cases c with
  | initSocketIf i e =>
    cases hrun
    exact h.initSocketIf hlow hready e
  | frontCleanup =>
    cases hrun
    exact h.frontCleanup
  | interrupted =>
    cases hrun
    exact h.lose.frontCleanup
  | commandProc e pid =>
    cases hrun
    exact h.commandProc hready e pid
  | getIfaddrInfo socket =>
    cases hrun
    change Exact base n (s.getIfaddrInfo socket)
    unfold Sockets.getIfaddrInfo
    rw [erase_cons_head]
    split_ifs <;> exact h
  | getTargetMac e =>
    cases hrun
    rw [targetMacFds_eq]
    exact h.lose_if e.leaks
  | getMask e family sent dumped =>
    cases hrun
    rw [maskFds_eq]
    exact h.lose_if _
  | sendPing target i e => exact h.sendPing hlow hrun

end

theorem SocketRun.exact {base : List ℕ} {calls : List SocketCall} {s : Sockets}
    (h : SocketRun base calls s) (hb : base.Nodup) (h0 : 0 ∈ base) :
    Exact base (calls.countP SocketCall.leaks) s := by
  induction h with
  | start => exact ⟨[], ⟨hb, by simp [Sockets.start, Sockets.held, IfSockets.held, keptFd]⟩, rfl⟩
  | call _ hready hrun ih =>
    rw [countP_append, countP_singleton]
    exact ih.run h0 hready hrun

theorem Sockets.length_held (s : Sockets) : s.held.length ≤ 7 := by
  have hkept : ∀ fd, (keptFd fd).length ≤ 1 := fun fd => by unfold keptFd; split_ifs <;> simp
  have hif : ∀ x : IfSockets, x.held.length ≤ 3 := fun x => by
    have h₁ := hkept x.sockfd
    have h₂ := hkept x.ping4Fd
    have h₃ := hkept x.ping6Fd
    rw [IfSockets.held, length_append, length_append]
    omega
  have hsoc : s.soc.toList.length ≤ 1 := by cases s.soc <;> simp
  have hin := hif (s.ifs .ingress)
  have heg := hif (s.ifs .egress)
  rw [Sockets.held, length_append, length_append]
  omega

/-- **Which sockets are open.** Whatever the calls return, and in any order: the open descriptors
are those of the start, the at most seven that the translator keeps, and one for each call that
loses its socket. None of them is kept twice, and none that is kept has been closed. -/
theorem sockets_exact {base : List ℕ} {calls : List SocketCall} {s : Sockets} (hb : base.Nodup)
    (h0 : 0 ∈ base) (h : SocketRun base calls s) : s.fds.Nodup ∧
      (∃ lost, s.fds ~ base ++ s.held ++ lost ∧ lost.length = calls.countP SocketCall.leaks) ∧
        s.fds.length ≤ base.length + 7 + calls.countP SocketCall.leaks := by
  obtain ⟨lost, ha, hn⟩ := h.exact hb h0
  have hlen := ha.perm.length_eq
  have hheld := s.length_held
  rw [length_append, length_append] at hlen
  exact ⟨ha.nodup, ⟨lost, ha.perm, hn⟩, by omega⟩

theorem sockets_exact_sample : ∃ s lost, SocketRun [0, 1, 2] sampleCalls s ∧
    s.fds ~ [0, 1, 2] ++ s.held ++ lost ∧ lost.length = 1 := by
  obtain ⟨s, h, -⟩ := sample_sockets
  obtain ⟨-, ⟨lost, hperm, hlen⟩, -⟩ := sockets_exact (by decide) (by decide) h
  exact ⟨s, lost, h, hperm, hlen⟩

end Sasat
