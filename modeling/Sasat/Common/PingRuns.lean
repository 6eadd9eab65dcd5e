import Sasat.Common.Sockets

/-!
# The echo requests of a run

The sequence number is one byte, which all interfaces share; each family has its own.

* `Numbered`: the requests of one family; **`Numbered.pinged`**: one more call.
* **`pings_numbered`**: the requests that a translator has sent.
-/

namespace Sasat

open List Handles

/-- The requests `p` of one family, where `fds` are the sockets of the interfaces and `targets` the
addresses for which it has been called. -/
structure Numbered {A : Type} (echoRequest : Byte → M (List Byte)) (fds : IfSide → ℕ)
    (targets : List A) (p : Pings A) : Prop where
  seqNum : p.seqNum = BitVec.ofNat 8 (p.requests.length + 1)
  request : ∀ k r, p.requests[k]? = some r → echoRequest (BitVec.ofNat 8 (k + 1)) = .ok r.bytes
  socket : ∀ r ∈ p.requests, ∃ i, r.fd = fds i ∧ r.fd ≠ 0
  target : p.requests.map EchoRequest.target <+ targets

section

variable {A : Type} {echoRequest : Byte → M (List Byte)} {fds : IfSide → ℕ} {targets : List A}
  {p p' : Pings A} {target : A} {i : IfSide} {fd : ℕ} {bytes : List Byte} {t t' : List ℕ}

theorem Numbered.push (h : Numbered echoRequest fds targets p) (hfd : fd ≠ 0)
    (hkept : ∀ r ∈ p.requests, r.fd = fds i → r.fd = fd)
    (hbytes : echoRequest p.seqNum = .ok bytes) :
    Numbered echoRequest (Function.update fds i fd) (targets ++ [target])
      ⟨p.seqNum + 1, p.requests ++ [⟨fd, target, bytes⟩]⟩ := by
  refine ⟨?_, fun k r hr => ?_, fun r hr => ?_, ?_⟩
  · rw [length_append, length_singleton, BitVec.ofNat_add]
    exact congrArg (· + 1) h.seqNum
  · rw [getElem?_append] at hr
    split_ifs at hr with hk
    · exact h.request k r hr
    · rw [getElem?_singleton] at hr
      split_ifs at hr with hk'
      cases hr
      obtain rfl : k = p.requests.length := by omega
      exact h.seqNum ▸ hbytes
  · rcases mem_append.mp hr with hr | hr
    · obtain ⟨j, hj, hne⟩ := h.socket r hr
      by_cases hij : j = i
      · subst hij
        exact ⟨j, by rw [Function.update_self, hkept r hr hj], hne⟩
      · exact ⟨j, by rw [Function.update_of_ne hij, hj], hne⟩
    · obtain rfl := mem_singleton.mp hr
      exact ⟨i, (Function.update_self i fd fds).symm, hfd⟩
  · rw [map_append]
    exact h.target.append (.refl _)

theorem Numbered.pinged (h : Numbered echoRequest fds targets p) (h0 : lowest t ≠ 0)
    (hp : Pinged echoRequest target (fds i) t p fd t' p') :
    Numbered echoRequest (Function.update fds i fd) (targets ++ [target]) p' := by
  cases hp with
  | failed hfd =>
    rw [← hfd, Function.update_eq_self]
    exact ⟨h.seqNum, h.request, h.socket, h.target.trans (sublist_append_left _ _)⟩
  | opened hfd hbytes =>
    refine h.push h0 (fun r hr hri => ?_) hbytes
    obtain ⟨j, -, hne⟩ := h.socket r hr
    exact absurd (hri.trans hfd) hne
  | sent hfd hbytes => exact h.push hfd (fun _ _ hri => hri) hbytes

/-- What the calls other than `send_ping` leave as it is. -/
structure SamePings (s s' : Sockets) : Prop where
  pings4 : s'.pings4 = s.pings4
  pings6 : s'.pings6 = s.pings6
  ping4Fd : (fun i => (s'.ifs i).ping4Fd) = fun i => (s.ifs i).ping4Fd
  ping6Fd : (fun i => (s'.ifs i).ping6Fd) = fun i => (s.ifs i).ping6Fd

end

section

variable {s s' : Sockets} {i : IfSide}

theorem setIf_apply {B : Type} (f : IfSockets → B) (s : Sockets) (i : IfSide) (x : IfSockets) :
    (fun j => f ((s.setIf i x).ifs j)) = Function.update (fun j => f (s.ifs j)) i (f x) :=
  funext fun j => Function.apply_update (fun _ => f) s.ifs i x j

theorem SamePings.setSockfd (s : Sockets) (fds : List ℕ) (i : IfSide) (fd : ℕ) :
    SamePings s ({ s with fds := fds }.setIf i { s.ifs i with sockfd := fd }) :=
  ⟨rfl, rfl, (setIf_apply _ _ _ _).trans (Function.update_eq_self i _),
    (setIf_apply _ _ _ _).trans (Function.update_eq_self i _)⟩

theorem SamePings.frontCleanup (s : Sockets) (fds : List ℕ) :
    SamePings s { s with fds := fds }.frontCleanup := by
  unfold Sockets.frontCleanup
  split_ifs
  · exact .setSockfd s _ .ingress 0
  · exact ⟨rfl, rfl, rfl, rfl⟩

theorem SocketCall.samePings {c : SocketCall} (hc : ∀ target i e, c ≠ .sendPing target i e)
    (hrun : c.run s = .ok s') : SamePings s s' := by
  cases c with
  | initSocketIf i e =>
    cases hrun
    unfold Sockets.initSocketIf
    split
    · exact ⟨rfl, rfl, rfl, rfl⟩
    · exact .setSockfd s _ i _
  | frontCleanup =>
    cases hrun
    exact .frontCleanup s s.fds
  | interrupted =>
    cases hrun
    exact .frontCleanup s _
  | commandProc e pid =>
    cases hrun
    unfold Sockets.commandProc
    split
    · exact ⟨rfl, rfl, rfl, rfl⟩
    · split_ifs <;> exact ⟨rfl, rfl, rfl, rfl⟩
  | getIfaddrInfo socket =>
    cases hrun
    unfold Sockets.getIfaddrInfo
    split_ifs <;> exact ⟨rfl, rfl, rfl, rfl⟩
  | getTargetMac e =>
    cases hrun
    exact ⟨rfl, rfl, rfl, rfl⟩
  | getMask e family sent dumped =>
    cases hrun
    exact ⟨rfl, rfl, rfl, rfl⟩
  | sendPing target i e => exact absurd rfl (hc target i e)

def SocketCall.target4 : SocketCall → Option InAddr
  | .sendPing (.inl target) _ _ => some target
  | _ => none

def SocketCall.target6 : SocketCall → Option In6Addr
  | .sendPing (.inr target) _ _ => some target
  | _ => none

/-- The requests of both families, after `calls`. -/
structure PingsAfter (calls : List SocketCall) (s : Sockets) : Prop where
  pings4 : Numbered echoRequest4 (fun i => (s.ifs i).ping4Fd)
    (calls.filterMap SocketCall.target4) s.pings4
  pings6 : Numbered echoRequest6 (fun i => (s.ifs i).ping6Fd)
    (calls.filterMap SocketCall.target6) s.pings6

theorem PingsAfter.run {calls : List SocketCall} (h : PingsAfter calls s)
    (h0 : lowest s.fds ≠ 0) {c : SocketCall} (hrun : c.run s = .ok s') :
    PingsAfter (calls ++ [c]) s' := by
  by_cases hc : ∃ target i e, c = .sendPing target i e
  · obtain ⟨target, i, e, rfl⟩ := hc
    cases target with
    | inl target =>
      obtain ⟨⟨fd, fds, p⟩, hping, hrun⟩ := bind_eq_ok.mp hrun
      cases hrun
      refine ⟨?_, ?_⟩ <;> rw [setIf_apply, filterMap_append]
      · exact h.pings4.pinged h0 (ping_spec (fun e => setUp_spec) hping)
      · rw [Function.update_eq_self]
        exact (append_nil _).symm ▸ h.pings6
    | inr target =>
      obtain ⟨⟨fd, fds, p⟩, hping, hrun⟩ := bind_eq_ok.mp hrun
      cases hrun
      refine ⟨?_, ?_⟩ <;> rw [setIf_apply, filterMap_append]
      · rw [Function.update_eq_self]
        exact (append_nil _).symm ▸ h.pings4
      · exact h.pings6.pinged h0 (ping_spec (fun e => setUp_spec) hping)
  · have hs := c.samePings (fun target i e he => hc ⟨target, i, e, he⟩) hrun
    have h4 : c.target4 = none := by
      cases c <;> first | rfl | exact absurd ⟨_, _, _, rfl⟩ hc
    have h6 : c.target6 = none := by
      cases c <;> first | rfl | exact absurd ⟨_, _, _, rfl⟩ hc
    refine ⟨?_, ?_⟩
    · rw [hs.pings4, hs.ping4Fd, filterMap_append, filterMap_cons_none h4]
      exact (append_nil _).symm ▸ h.pings4
    · rw [hs.pings6, hs.ping6Fd, filterMap_append, filterMap_cons_none h6]
      exact (append_nil _).symm ▸ h.pings6

end

section

variable {base : List ℕ} {calls : List SocketCall} {s : Sockets}

theorem SocketRun.pings (h : SocketRun base calls s) (hb : base.Nodup) (h0 : 0 ∈ base) :
    PingsAfter calls s := by
  induction h with
  | start => exact ⟨⟨rfl, by simp [Sockets.start], by simp [Sockets.start], .slnil⟩,
      ⟨rfl, by simp [Sockets.start], by simp [Sockets.start], .slnil⟩⟩
  | call hprev _ hrun ih =>
    obtain ⟨lost, ha, -⟩ := hprev.exact hb h0
    exact ih.run (lowest_ne (ha.mem_held (mem_append_left _ h0))) hrun

/-- **The echo requests.** Whatever the calls return, and in any order: over either family a call of
`send_ping` sends at most one request, to its address and on the socket that an interface keeps for
it; the requests are numbered from 1 on, modulo 256, and the checksums over IPv4 verify. -/
theorem pings_numbered (hb : base.Nodup) (h0 : 0 ∈ base) (h : SocketRun base calls s) :
    (s.pings4.requests.map EchoRequest.target <+ calls.filterMap SocketCall.target4 ∧
      ∀ k r, s.pings4.requests[k]? = some r → (∃ i, r.fd = (s.ifs i).ping4Fd ∧ r.fd ≠ 0) ∧
        (∃ a b, r.bytes = [8, 0, a, b, 0, 0, 0, BitVec.ofNat 8 (k + 1)]) ∧
          OnesComplement.onesSum (OnesComplement.beWords r.bytes) = 0xffff) ∧
    s.pings6.requests.map EchoRequest.target <+ calls.filterMap SocketCall.target6 ∧
      ∀ k r, s.pings6.requests[k]? = some r → (∃ i, r.fd = (s.ifs i).ping6Fd ∧ r.fd ≠ 0) ∧
        r.bytes = [128, 0, 0, 0, 0, 0, 0, BitVec.ofNat 8 (k + 1)] ++ replicate 56 0 := by
  obtain ⟨h4, h6⟩ := h.pings hb h0
  refine ⟨⟨h4.target, fun k r hr => ⟨h4.socket r (mem_of_getElem? hr), ?_⟩⟩,
    h6.target, fun k r hr => ⟨h6.socket r (mem_of_getElem? hr), ?_⟩⟩
  · obtain ⟨a, b, hbytes, hsum⟩ := echoRequest4_verifies (BitVec.ofNat 8 (k + 1))
    rw [← Except.ok.inj (hbytes.symm.trans (h4.request k r hr))]
    exact ⟨⟨a, b, rfl⟩, hsum⟩
  · have hbytes := h6.request k r hr
    rw [echoRequest6, bytes16_seqNum] at hbytes
    rw [← Except.ok.inj hbytes]
    rfl

end

theorem pings_numbered_sample : ∃ s r, SocketRun [0, 1, 2] sampleCalls s ∧
    s.pings4.requests = [r] ∧ (∃ a b, r.bytes = [8, 0, a, b, 0, 0, 0, 1]) ∧
      OnesComplement.onesSum (OnesComplement.beWords r.bytes) = 0xffff := by
  obtain ⟨s, h, -, r, hr⟩ := sample_sockets
  obtain ⟨⟨-, h4⟩, -⟩ := pings_numbered (by decide) (by decide) h
  exact ⟨s, r, h, hr, (h4 0 r (by rw [hr]; rfl)).2⟩

end Sasat
