import Sasat.Resolve.Proxy

/-!
# The counters of the answers

Every kind of answer of the backend has a counter. Some are counted by the function that writes
them, some by one of its callers.

* `TxKind`, `txKind`: the kinds, and the kind of a frame that is written for a received frame.
* `Tally`: the counters have gone up by the answers that were written.
* `BroadcastArp`, `StraySolicitation`: the frames that are answered and not counted, and those that
  are counted and not answered. **`Received.step_tally_iff`**: all others are tallied.
* `countRun`: a run of the backend, with the numbers of the answers written; **`counters_exact`**:
  all along a run the counters are these numbers exactly if there are no such frames.
-/

namespace Sasat

open Outcome

/-! ## Kinds of answers -/

/-- The answers to the clients and to the server, by the address that they are for. -/
inductive TxKind
  | arpReplyIn | naIn | arpReplyEg | proxyArp | naEg | proxyNa
  deriving DecidableEq

def TxKind.stat : TxKind → BackStat
  | .arpReplyIn => .txArpReplyIn
  | .naIn => .txNaIn
  | .arpReplyEg => .txArpReplyEg
  | .proxyArp => .txProxyArp
  | .naEg => .txNaEg
  | .proxyNa => .txProxyNa

def TxKind.ofStat : BackStat → Option TxKind
  | .txArpReplyIn => some .arpReplyIn
  | .txNaIn => some .naIn
  | .txArpReplyEg => some .arpReplyEg
  | .txProxyArp => some .proxyArp
  | .txNaEg => some .naEg
  | .txProxyNa => some .proxyNa
  | _ => none

theorem TxKind.ofStat_stat (k : TxKind) : ofStat k.stat = some k := by
  cases k <;> rfl

theorem TxKind.stat_injective : Function.Injective TxKind.stat := by
  intro k k' h
  have hk := ofStat_stat k
  rw [h, ofStat_stat] at hk
  exact (Option.some.inj hk).symm

/-- The solicitation in `b` is for the virtual address. -/
def ToVip (s : BackState) (b : Buf) : Prop :=
  (isMulticast (hDest b) = true ∧ s.vipMode = true ∧ hDest b = s.ifEgress.fmmac) ∨
    (isMulticast (hDest b) = false ∧ hDest b = s.ifEgress.mac)

instance (s : BackState) (b : Buf) : Decidable (ToVip s b) := inferInstanceAs (Decidable (_ ∨ _))

/-- The kind of a frame that is written in the state `s` for the frame in `b`. -/
def txKind (s : BackState) (b : Buf) (x : Tx) : Option TxKind :=
  match x.sender with
  | .arpReply => some .arpReplyIn
  | .sendIcmp6Na => some .naIn
  | .arpProxyBody => some (if s.lMode = .l3 then .arpReplyEg else .proxyArp)
  | .sendNaBody => some (if s.lMode = .l3 ∨ ToVip s b then .naEg else .proxyNa)
  | _ => none

/-- The number of frames of a kind. -/
def ofKind (f : Tx → Option TxKind) (tx : List Tx) (k : TxKind) : ℕ :=
  tx.countP fun x => f x = some k

/-- The counters have gone up by the frames that were written. -/
def Tally (f : Tx → Option TxKind) (io io' : Io BackStat) : Prop :=
  ∃ tx, io'.tx = io.tx ++ tx ∧
    ∀ k : TxKind, io'.sstat k.stat = io.sstat k.stat + BitVec.ofNat 64 (ofKind f tx k)

namespace Tally

variable {f : Tx → Option TxKind} {io io' io'' : Io BackStat}

theorem refl (io : Io BackStat) : Tally f io io :=
  ⟨[], (List.append_nil _).symm, fun _ => (BitVec.add_zero _).symm⟩

theorem trans (h : Tally f io io') (h' : Tally f io' io'') : Tally f io io'' := by
  obtain ⟨tx, htx, hstat⟩ := h
  obtain ⟨tx', htx', hstat'⟩ := h'
  refine ⟨tx ++ tx', by rw [htx', htx, List.append_assoc], fun k => ?_⟩
  rw [hstat', hstat]
  simp only [ofKind, List.countP_append, BitVec.ofNat_add, BitVec.add_assoc]

theorem stat {m : BackStat} (hm : TxKind.ofStat m = none) (io : Io BackStat) :
    Tally f io (io.stat m) := by
  refine ⟨[], (List.append_nil _).symm, fun k => ?_⟩
  have hk : k.stat ≠ m := by
    rintro rfl
    rw [k.ofStat_stat] at hm
    cases hm
  exact (Function.update_of_ne hk _ _).trans (BitVec.add_zero _).symm

theorem passed {sender : Sender} {fd : ℕ} {bytes : List Byte} (h : f ⟨sender, fd, bytes⟩ = none)
    (io : Io BackStat) : Tally f io (io.write sender fd bytes) := by
  refine ⟨[⟨sender, fd, bytes⟩], rfl, fun k => ?_⟩
  rw [ofKind, List.countP_singleton, h]
  exact (BitVec.add_zero _).symm

theorem forwarded {sender : Sender} {fd : ℕ} {bytes : List Byte} {m : BackStat}
    (h : f ⟨sender, fd, bytes⟩ = none) (hm : TxKind.ofStat m = none) (io : Io BackStat) :
    Tally f io ((io.write sender fd bytes).stat m) :=
  (passed h io).trans (stat hm _)

theorem sent {sender : Sender} {fd : ℕ} {bytes : List Byte} {k : TxKind}
    (h : f ⟨sender, fd, bytes⟩ = some k) (io : Io BackStat) :
    Tally f io ((io.write sender fd bytes).stat k.stat) := by
  refine ⟨[⟨sender, fd, bytes⟩], rfl, fun k' => ?_⟩
  rw [ofKind, List.countP_singleton, h]
  by_cases hk : k = k'
  · subst hk
    simp [Io.stat, Io.write]
  · refine (Function.update_of_ne (fun hs => hk (TxKind.stat_injective hs.symm)) _ _).trans ?_
    simp [Io.write, hk]

theorem count {tx : List Tx} (h : Tally f io io') (htx : io'.tx = io.tx ++ tx) (k : TxKind) :
    io'.sstat k.stat = io.sstat k.stat + BitVec.ofNat 64 (ofKind f tx k) := by
  obtain ⟨tx', htx', hstat⟩ := h
  rw [htx] at htx'
  rw [List.append_cancel_left htx']
  exact hstat k

end Tally

/-! ## Frames of clients -/

/-- A broadcast ARP request for the virtual address. -/
structure BroadcastArp (s : BackState) (b : Buf) (len : ℕ) : Prop where
  long : 14 < len
  foreign : hSource b ≠ s.ifIngress.mac
  broadcast : isBroadcast (hDest b) = true
  proto : hProto b = ethPArp
  v4Enable : s.ifIngress.v4Enable = true
  header : load b 14 8 = arphdrTmpl
  target : arpTpa b = s.ifIngress.vip4

section

variable {f : Tx → Option TxKind} {lim : ℕ} {r : Resolution} {tsc : BitVec 64} {b : Buf} {len : ℕ}
  {s : BackState}

theorem arpReply_silent {ifd : Ifdata} (h : ¬ (load b 14 8 = arphdrTmpl ∧ arpTpa b = ifd.vip4))
    (io : Io BackStat) : arpReply backArpStats ifd b io = (false, b, io) := by
  by_cases hb : load b 14 8 = arphdrTmpl
  · rw [arpReply, if_neg (not_not.mpr hb), if_pos fun ht => h ⟨hb, ht⟩]
  · rw [arpReply, if_pos hb]

/-- A request for the virtual address is answered, and not counted. -/
theorem arpReply_answer {ifd : Ifdata} (hb : load b 14 8 = arphdrTmpl) (ht : arpTpa b = ifd.vip4)
    (io : Io BackStat) : arpReply backArpStats ifd b io = (true, arpAnswer ifd.mac b,
      io.write .arpReply ifd.sockfd (frame (arpAnswer ifd.mac b) 42)) := by
  rw [arpReply, if_neg (not_not.mpr hb), if_neg (not_not.mpr ht)]
  rfl

theorem arpReply_tally (ha : ∀ fd bytes, f ⟨.arpReply, fd, bytes⟩ = some .arpReplyIn)
    (ifd : Ifdata) (io : Io BackStat) :
    Tally f io (if (arpReply backArpStats ifd b io).1 then
      (arpReply backArpStats ifd b io).2.2.stat .txArpReplyIn
      else (arpReply backArpStats ifd b io).2.2) := by
  by_cases h : load b 14 8 = arphdrTmpl ∧ arpTpa b = ifd.vip4
  · rw [arpReply_answer h.1 h.2, if_pos rfl]
    exact .sent (ha _ _) io
  · rw [arpReply_silent h, if_neg Bool.false_ne_true]
    exact .refl io

section

variable (hn : ∀ fd bytes, f ⟨.sendIcmp6Na, fd, bytes⟩ = some .naIn)

include hn

theorem sendIcmp6Na_tally (ifd : Ifdata) (mcast : Bool) (io : Io BackStat) :
    Post (Tally f io) (fun _ => True) (sendIcmp6Na backArpStats ifd b mcast io) :=
  .bind .trivial fun _ _ => .sent (hn _ _) io

/-- **`mac_resolve` counts all answers** but the ARP replies. -/
theorem macResolve_tally (ifd : Ifdata) (prot : BitVec 16) (io : Io BackStat)
    (h : isBroadcast (hDest b) = true → prot = ethPArp → ifd.v4Enable = true →
      ¬ (load b 14 8 = arphdrTmpl ∧ arpTpa b = ifd.vip4)) :
    Post (fun x => Tally f io x.2) (fun _ => True)
      (macResolve backArpStats lim ifd prot len b io) := by
  have hdrop : Tally f io (io.stat .rxDropIn) := .stat rfl io
  refine macResolve_post ?arp ?na hdrop
  case arp =>
    intro hbc hp hv4
    rw [arpReply_silent (h hbc hp hv4)]
    exact .refl io
  case na => exact sendIcmp6Na_tally hn ifd true io

theorem macResolveUc6_tally (ifd : Ifdata) (io : Io BackStat) :
    Post (Tally f io) (fun _ => True) (macResolveUc6 backArpStats lim ifd len b io) :=
  macResolveUc6_post (sendIcmp6Na_tally hn ifd false io) (.stat rfl io)

end

theorem forwardV4In_tally (hp : ∀ fd bytes, f ⟨.procV4In, fd, bytes⟩ = none)
    (y : Bool × BackState) : Tally f y.2.io (forwardV4In b len y).2.io := by
  unfold forwardV4In
  dsimp only
  split_ifs
  · exact .forwarded (hp _ _) rfl y.2.io
  · exact .stat (m := .rxDropIn) rfl y.2.io

theorem forwardV6In_tally (hp : ∀ fd bytes, f ⟨.procV6In, fd, bytes⟩ = none)
    (y : Bool × BackState) : Tally f y.2.io (forwardV6In b len y).2.io := by
  unfold forwardV6In
  dsimp only
  split_ifs
  · exact .forwarded (hp _ _) rfl y.2.io
  · exact .stat (m := .rxDropIn) rfl y.2.io

theorem resolveSvr_tally {io : Io BackStat} {o : MacOutcomes}
    (h : Tally f (s.resolveSvr o).2.io io) : Tally f s.io io := by
  rw [BackKept.resolveSvr_io] at h
  exact h

theorem procV4In_tally (hp : ∀ fd bytes, f ⟨.procV4In, fd, bytes⟩ = none) :
    Post (fun x => Tally f s.io x.2.io) (fun _ => True) (procV4In r tsc b len s) := by
  refine .ite (fun _ => .stat (m := .rxDropAddrV4In) rfl s.io) fun _ =>
    .bind .trivial fun ci _ => ?_
  exact resolveSvr_tally (s := { s with clientInfo := ci }) (forwardV4In_tally hp _)

theorem procV6In_tally (hp : ∀ fd bytes, f ⟨.procV6In, fd, bytes⟩ = none) :
    Post (fun x => Tally f s.io x.2.io) (fun _ => True) (procV6In r tsc b len s) := by
  refine .ite (fun _ => .stat (m := .rxDropAddrV6In) rfl s.io) fun _ =>
    .bind .trivial fun ci _ => ?_
  exact resolveSvr_tally (s := { s with clientInfo := ci }) (forwardV6In_tally hp _)

/-- **The answers to the clients are tallied**, but the replies to broadcast ARP requests. -/
theorem backIngress_tally (h : ¬ BroadcastArp s b len) :
    Post (fun x => Tally (txKind s b) s.io x.2.io) (fun _ => True)
      (backIngress lim r tsc b len s) := by
  have hstat {m : BackStat} (hm : TxKind.ofStat m = none) {io : Io BackStat}
      (ht : Tally (txKind s b) (s.io.stat m) io) : Tally (txKind s b) s.io io :=
    (Tally.stat hm s.io).trans ht
  refine backIngress_post (fun _ => .stat rfl _) fun hlen c hc => ?_
  cases c with
  | own => exact .refl _
  | multicast =>
    refine .bind (macResolve_tally (f := txKind s b) (fun _ _ => rfl) s.ifIngress (hProto b) _ ?_)
      fun _ h => hstat rfl h
    exact fun hbc hp h4 hb => h ⟨hlen, hc.1, hbc, hp, h4, hb.1, hb.2⟩
  | v4 => exact (procV4In_tally (fun _ _ => rfl)).mono (fun _ h => hstat rfl h) fun _ h => h
  | v6 => exact (procV6In_tally (fun _ _ => rfl)).mono (fun _ h => hstat rfl h) fun _ h => h
  | short4 | short6 => exact hstat rfl (.stat rfl _)
  | ns =>
    refine .ite (fun _ => ?_) fun _ => .stat rfl _
    exact .bind (macResolveUc6_tally (f := txKind s b) (fun _ _ => rfl) s.ifIngress _)
      fun _ h => hstat rfl h
  | arp => exact .ite (fun _ => arpReply_tally (fun _ _ => rfl) s.ifIngress s.io) fun _ => .refl _
  | noip => exact .stat rfl _

theorem isMulticast_of_broadcast {mac : Mac} (h : isBroadcast mac = true) :
    isMulticast mac = true := by
  rw [isBroadcast, beq_iff_eq] at h
  rw [h]
  decide

theorem BroadcastArp.answered (h : BroadcastArp s b len) (lim : ℕ) (r : Resolution)
    (tsc : BitVec 64) : ∃ b' s', backIngress lim r tsc b len s = .ok (b', s') ∧ ∃ bytes,
      s'.io = (s.io.stat .rxPacketMcIn).write .arpReply s.ifIngress.sockfd bytes := by
  refine ⟨arpAnswer s.ifIngress.mac b,
    { s with
      io := (s.io.stat .rxPacketMcIn).write .arpReply s.ifIngress.sockfd
        (frame (arpAnswer s.ifIngress.mac b) 42) }, ?_, _, rfl⟩
  rw [backIngress, if_pos h.long, procIngressData, if_neg h.foreign,
    if_pos (isMulticast_of_broadcast h.broadcast), macResolve, if_pos h.broadcast,
    if_pos ⟨h.proto, h.v4Enable⟩, arpReply_answer h.header h.target]
  rfl

theorem BroadcastArp.not_tally (h : BroadcastArp s b len) (lim : ℕ) (r : Resolution)
    (tsc : BitVec 64) : ∃ b' s' tx, backIngress lim r tsc b len s = .ok (b', s') ∧
      s'.io.tx = s.io.tx ++ tx ∧ ¬ Tally (txKind s b) s.io s'.io := by
  obtain ⟨b', s', hrun, bytes, hio⟩ := h.answered lim r tsc
  refine ⟨b', s', _, hrun, by rw [hio]; rfl, fun ht => ?_⟩
  have hcount := ht.count (by rw [hio]; rfl) .arpReplyIn
  rw [hio] at hcount
  simp [ofKind, txKind, TxKind.stat, Io.stat, Io.write] at hcount

theorem backIngress_arp (lim : ℕ) (r : Resolution) (tsc : BitVec 64) (hlen : 14 < len)
    (hsrc : hSource b ≠ s.ifIngress.mac) (huc : isMulticast (hDest b) = false)
    (hproto : hProto b = ethPArp) (h4 : s.ifIngress.v4Enable = true)
    (hb : load b 14 8 = arphdrTmpl) (ht : arpTpa b = s.ifIngress.vip4) :
    ∃ b' s', backIngress lim r tsc b len s = .ok (b', s') ∧ ∃ bytes,
      s'.io.tx = s.io.tx ++ [⟨.arpReply, s.ifIngress.sockfd, bytes⟩] := by
  refine ⟨arpAnswer s.ifIngress.mac b,
    { s with
      io := (s.io.write .arpReply s.ifIngress.sockfd
        (frame (arpAnswer s.ifIngress.mac b) 42)).stat .txArpReplyIn }, ?_, _, rfl⟩
  rw [backIngress, if_pos hlen, procIngressData, if_neg hsrc, huc, if_neg Bool.false_ne_true,
    hproto, if_neg (by decide), if_neg (by decide), if_pos rfl, if_pos h4, arpReply_answer hb ht]
  rfl

/-! ## Frames of the server -/

theorem arpGwLoop_tally (hk : ∀ fd bytes, f ⟨.arpProxyBody, fd, bytes⟩ = some .arpReplyEg)
    (k i : ℕ) (s : BackState) : Tally f s.io (arpGwLoop r b k i s).2.io := by
  induction k generalizing i s with
  | zero => exact .refl s.io
  | succ k ih =>
    rw [arpGwLoop, arpProxyBody]
    split_ifs
    · exact .refl s.io
    · exact .sent (hk _ _) s.io
    · exact ih _ _

/-- **The ARP replies to the server are tallied.** -/
theorem arpEgressReply_tally (hk : ∀ fd bytes, f ⟨.arpProxyBody, fd, bytes⟩ =
    some (if s.lMode = .l3 then .arpReplyEg else .proxyArp)) :
    Tally f s.io (arpEgressReply r b s).2.io := by
  unfold arpEgressReply
  split_ifs with hp hl
  · rw [if_pos hl] at hk
    exact arpGwLoop_tally hk 3 0 s
  · rw [if_neg hl] at hk
    unfold arpProxyReply
    cases resolveMac (r.ip4 (arpTpa b)) 0 with
    | mk ok mac =>
      cases ok with
      | false => exact .refl s.io
      | true =>
        dsimp only
        rw [arpProxyBody]
        split_ifs
        · exact .refl s.io
        · exact .sent (hk _ _) s.io
  · exact .refl s.io

section

variable {mcast : Bool} {k : TxKind}

/-- The callers of `send_na_body` count, which is right unless it writes nothing. -/
theorem sendNaBody_tally (hk : ∀ fd bytes, f ⟨.sendNaBody, fd, bytes⟩ = some k)
    (hb : ¬ (mcast = true ∧ OtherMulticast b)) (mac : Mac) (s : BackState) :
    Post (fun s' => Tally f s.io s'.io) (fun _ => True)
      (sendNaBody b mcast mac s >>= fun s' => .ok (s'.stat k.stat)) := by
  obtain ⟨bytes, hrun, -⟩ := sendNaBody_write hb mac s
  rw [hrun]
  exact Tally.sent (hk _ _) s.io

theorem sendGwNaLoop_tally (hk : ∀ fd bytes, f ⟨.sendNaBody, fd, bytes⟩ = some .naEg) (n i : ℕ)
    (s : BackState) (hb : mcast = true → OtherMulticast b →
      ¬ GwBy s.gwMacV6Valid (fun j => r.gw6 (i + j)) n) :
    Post (fun s' => Tally f s.io s'.io) (fun _ => True) (sendGwNaLoop r b mcast (n + 1) i s) := by
  induction n generalizing i s with
  | zero =>
    exact .ite (fun hv => sendNaBody_tally hk (fun h => hb h.1 h.2 (Or.inl hv)) s.gwMacV6 s)
      fun _ => .refl s.io
  | succ n ih =>
    refine .ite (fun hv => sendNaBody_tally hk (fun h => hb h.1 h.2 (Or.inl hv)) s.gwMacV6 s)
      fun hv => ih (i + 1) (s.getDefaultGw6 (r.gw6 i)) fun hm ho hgw => hb hm ho ?_
    rw [Bool.not_eq_true] at hv
    rw [hv, gwBy_succ s.gwMacV6]
    simp only [Nat.add_assoc, Nat.add_comm 1] at hgw
    exact hgw

theorem sendGwNa_tally (hk : ∀ fd bytes, f ⟨.sendNaBody, fd, bytes⟩ = some .naEg)
    (hb : mcast = true → OtherMulticast b → ¬ GwBy s.gwMacV6Valid r.gw6 2) :
    Post (fun s' => Tally f s.io s'.io) (fun _ => True) (sendGwNa r b mcast s) := by
  refine sendGwNaLoop_tally hk 2 0 s ?_
  simp only [Nat.zero_add]
  exact hb

theorem sendNaFor_tally (hk : ∀ fd bytes, f ⟨.sendNaBody, fd, bytes⟩ =
    some (if s.lMode = .l3 then .naEg else .proxyNa))
    (hb : mcast = true → OtherMulticast b →
      ¬ ((s.lMode = .l3 → GwBy s.gwMacV6Valid r.gw6 2) ∧
        (s.lMode ≠ .l3 → (r.ip6 (nsTarget b)).Resolves))) :
    Post (fun s' => Tally f s.io s'.io) (fun _ => True) (sendNaFor r b mcast s) := by
  refine .ite (fun hl => ?_) fun hl => ?_
  · rw [if_pos hl] at hk
    exact sendGwNa_tally hk fun hm ho hgw => hb hm ho ⟨fun _ => hgw, fun hn => absurd hl hn⟩
  · rw [if_neg hl] at hk
    have hiff := resolveMac_iff (r.ip6 (nsTarget b)) 0
    unfold sendProxyNa
    cases hres : resolveMac (r.ip6 (nsTarget b)) 0 with
    | mk ok mac =>
      rw [hres] at hiff
      cases ok with
      | false => exact .refl s.io
      | true =>
        exact sendNaBody_tally hk (fun h => hb h.1 h.2 ⟨fun hc => absurd hc hl,
          fun _ => hiff.mp rfl⟩) mac s

end

/-- A multicast solicitation for another host that is not on the multicast address of its target,
while the answer could be given. -/
structure StraySolicitation (lim : ℕ) (r : Resolution) (b : Buf) (len : ℕ) (s : BackState) :
    Prop where
  long : 14 < len
  foreign : hSource b ≠ s.ifEgress.mac
  group : isMulticastV6 (hDest b) = true
  proto : hProto b = ethPIpv6
  v6Enable : s.ifEgress.v6Enable = true
  ns : isIcmp6Ns lim b len = .ok true
  notVip : ¬ (s.vipMode = true ∧ hDest b = s.ifEgress.fmmac)
  solicited : hDest b 2 = 0xff
  other : hDest b 3 ≠ s.ifEgress.sip6 13 ∨ hDest b 4 ≠ s.ifEgress.sip6 14 ∨
    hDest b 5 ≠ s.ifEgress.sip6 15
  valid : checkValidNs lim b 0 true (len - nsBaseSize) = .ok true
  stray : OtherMulticast b
  gateway : s.lMode = .l3 → GwBy s.gwMacV6Valid r.gw6 2
  target : s.lMode ≠ .l3 → (r.ip6 (nsTarget b)).Resolves

theorem macResolveEgress_tally (hf : FmmacOk s.ifEgress) (hlen : 14 < len)
    (hsrc : hSource b ≠ s.ifEgress.mac) (hmc : isMulticast (hDest b) = true)
    (h : ¬ StraySolicitation lim r b len s) :
    Post (fun x => Tally (txKind s b) s.io x.2.io) (fun _ => True)
      (macResolveEgress lim r (hProto b) len b s) := by
  have hdrop : Tally (txKind s b) s.io (s.io.stat .rxDropEg) := .stat rfl s.io
  refine .ite (fun _ => .ite (fun _ => arpEgressReply_tally fun _ _ => rfl) fun _ => hdrop)
    fun _ => .ite (fun h6 => ?_) fun _ => hdrop
  cases hns : isIcmp6Ns lim b len with
  | error e => trivial
  | ok ns =>
    refine .ite (fun hn => .ite (fun hv => ?_) fun hv => .ite (fun hlow => ?_) fun _ => hdrop)
      fun _ => hdrop
    · refine .bind checkValidNs_target fun ok ht => .ite (fun hok => ?_) fun _ => hdrop
      have hk : ∀ fd bytes, txKind s b ⟨.sendNaBody, fd, bytes⟩ = some .naEg := fun _ _ =>
        congrArg some (if_pos (Or.inr (Or.inl ⟨hmc, hv⟩)))
      refine .bind (sendGwNa_tally hk fun _ ho => ?_) fun _ h => h
      have hdest : hDest b = solicitedMac (nsTarget b) := by
        rw [ht hok, hv.2, hf h6.2.1]
      exact absurd ho (not_other_of_solicited hdest)
    · cases hchk : checkValidNs lim b 0 true (len - nsBaseSize) with
      | error e => trivial
      | ok ok =>
        refine .ite (fun hok => ?_) fun _ => hdrop
        have hnv : ¬ ToVip s b := by
          rintro (hvip | hvip)
          · exact hv hvip.2
          · exact Bool.noConfusion (hvip.1.symm.trans hmc)
        have hk : ∀ fd bytes, txKind s b ⟨.sendNaBody, fd, bytes⟩ =
            some (if s.lMode = .l3 then .naEg else .proxyNa) := fun _ _ => by
          simp only [txKind, hnv, or_false]
        refine .bind (sendNaFor_tally hk fun _ ho hres => ?_) fun _ h => h
        subst hn hok
        exact h ⟨hlen, hsrc, h6.2.2, h6.1, h6.2.1, hns, hv, hlow.1, hlow.2, hchk, ho, hres.1,
          hres.2⟩

/-- A gateway that is known in time is counted, though nothing is written. -/
theorem sendGwNaLoop_stray (hb : OtherMulticast b) (n i : ℕ) (s : BackState)
    (hgw : GwBy s.gwMacV6Valid (fun j => r.gw6 (i + j)) n) :
    ∃ s', sendGwNaLoop r b true (n + 1) i s = .ok s' ∧ s'.io = s.io.stat .txNaEg := by
  have hvalid (n i : ℕ) {s : BackState} (hv : s.gwMacV6Valid = true) :
      sendGwNaLoop r b true (n + 1) i s = .ok (s.stat .txNaEg) := by
    rw [sendGwNaLoop, if_pos hv, sendNaBody_skip ⟨rfl, hb⟩]
    rfl
  induction n generalizing i s with
  | zero => exact ⟨_, hvalid 0 i (gwBy_zero.mp hgw), rfl⟩
  | succ n ih =>
    by_cases hv : s.gwMacV6Valid = true
    · exact ⟨_, hvalid (n + 1) i hv, rfl⟩
    · rw [Bool.not_eq_true] at hv
      rw [hv, gwBy_succ s.gwMacV6] at hgw
      obtain ⟨s', hrun, hio⟩ := ih (i + 1) (s.getDefaultGw6 (r.gw6 i)) (by
        simp only [Nat.add_assoc, Nat.add_comm 1]
        exact hgw)
      refine ⟨s', ?_, hio⟩
      rw [sendGwNaLoop, hv, if_neg Bool.false_ne_true, hrun]

theorem sendNaFor_stray (hb : OtherMulticast b)
    (hgw : s.lMode = .l3 → GwBy s.gwMacV6Valid r.gw6 2)
    (ht : s.lMode ≠ .l3 → (r.ip6 (nsTarget b)).Resolves) :
    ∃ s' k, sendNaFor r b true s = .ok s' ∧ s'.io = s.io.stat (TxKind.stat k) := by
  unfold sendNaFor
  split_ifs with hl
  · obtain ⟨s', hrun, hio⟩ := sendGwNaLoop_stray (r := r) hb 2 0 s (by simpa using hgw hl)
    exact ⟨s', .naEg, hrun, hio⟩
  · have hok := (resolveMac_iff (r.ip6 (nsTarget b)) 0).mpr (ht hl)
    refine ⟨s.stat .txProxyNa, .proxyNa, ?_, rfl⟩
    unfold sendProxyNa
    cases hres : resolveMac (r.ip6 (nsTarget b)) 0 with
    | mk ok mac =>
      rw [hres] at hok
      subst hok
      dsimp only
      rw [sendNaBody_skip ⟨rfl, hb⟩]
      rfl

theorem StraySolicitation.not_tally (h : StraySolicitation lim r b len s) (tsc : BitVec 64) :
    ∃ b' s' tx, backEgress lim r tsc b len s = .ok (b', s') ∧
      s'.io.tx = s.io.tx ++ tx ∧ ¬ Tally (txKind s b) s.io s'.io := by
  have hmac : hDest b 0 = 0x33 := by
    have hgroup := h.group
    rw [isMulticastV6, Bool.and_eq_true, beq_iff_eq] at hgroup
    exact hgroup.1
  have hmc : isMulticast (hDest b) = true := by
    rw [isMulticast, hmac]
    decide
  have hbc : isBroadcast (hDest b) = false := by
    apply beq_false_of_ne
    intro hall
    rw [hall] at hmac
    exact absurd hmac (by decide)
  obtain ⟨s', k, hrun, hio⟩ :=
    sendNaFor_stray (s := s.stat .rxPacketMcEg) h.stray h.gateway h.target
  refine ⟨b, s', [], ?_, by rw [hio]; exact (List.append_nil _).symm, fun ht => ?_⟩
  · rw [backEgress, if_pos h.long, procEgressData, if_neg h.foreign, if_pos hmc, macResolveEgress,
      hbc, if_neg Bool.false_ne_true, if_pos ⟨h.proto, h.v6Enable, h.group⟩, h.ns]
    refine (if_neg h.notVip).trans ((if_pos ⟨h.solicited, h.other⟩).trans ?_)
    rw [h.valid]
    change (sendNaFor r b true _ >>= _) = _
    rw [hrun]
    rfl
  · have hcount := ht.count (by rw [hio]; exact (List.append_nil _).symm) k
    rw [hio] at hcount
    have hk : k.stat ≠ .rxPacketMcEg := by cases k <;> decide
    simp [ofKind, Io.stat, BackState.stat, hk] at hcount

theorem macResolveUc6Egress_tally (huc : isMulticast (hDest b) = false) :
    Post (fun s' => Tally (txKind s b) s.io s'.io) (fun _ => True)
      (macResolveUc6Egress lim r len b s) := by
  refine macResolveUc6Egress_post ?gateway ?host ?drop ?same
  case gateway =>
    intro hmac
    have hk : ∀ fd bytes, txKind s b ⟨.sendNaBody, fd, bytes⟩ = some .naEg := fun _ _ =>
      congrArg some (if_pos (Or.inr (Or.inr ⟨huc, hmac⟩)))
    exact sendGwNa_tally hk fun hm => Bool.noConfusion hm
  case host =>
    intro hmac
    have hnv : ¬ ToVip s b := by
      rintro (hvip | hvip)
      · exact Bool.noConfusion (huc.symm.trans hvip.1)
      · exact hmac hvip.2
    have hk : ∀ fd bytes, txKind s b ⟨.sendNaBody, fd, bytes⟩ =
        some (if s.lMode = .l3 then .naEg else .proxyNa) := fun _ _ => by
      simp only [txKind, hnv, or_false]
    exact sendNaFor_tally hk fun hm => Bool.noConfusion hm
  case drop => exact .stat rfl s.io
  case same => exact .refl s.io

theorem procV4Eg_tally (hp : ∀ fd bytes, f ⟨.procV4Eg, fd, bytes⟩ = none) :
    Post (fun x => Tally f s.io x.2.io) (fun _ => True) (procV4Eg r tsc b len s) := by
  have hgw : ∀ {ci} {io : Io BackStat}, Tally f
      (({ s with clientInfo := ci } : BackState).gwKnown4 (r.gw4 0)).io io → Tally f s.io io := by
    intro ci io h
    rwa [gwKnown4_io] at h
  refine procV4Eg_post ?passed ?routed ?unrouted
  case passed => exact fun ci _ _ => .forwarded (hp _ _) rfl s.io
  case routed =>
    rintro ci _ _ _ _ rfl _
    exact hgw (.forwarded (hp _ _) rfl _)
  case unrouted =>
    rintro ci _ _ _ _ rfl _
    exact hgw (.stat rfl _)

theorem procV6Eg_tally (hp : ∀ fd bytes, f ⟨.procV6Eg, fd, bytes⟩ = none) :
    Post (fun x => Tally f s.io x.2.io) (fun _ => True) (procV6Eg r tsc b len s) := by
  have hgw : ∀ {ci} {io : Io BackStat}, Tally f
      (({ s with clientInfo := ci } : BackState).gwKnown6 (r.gw6 0)).io io → Tally f s.io io := by
    intro ci io h
    rwa [gwKnown6_io] at h
  refine procV6Eg_post ?passed ?routed ?unrouted
  case passed => exact fun ci _ _ => .forwarded (hp _ _) rfl s.io
  case routed =>
    rintro ci _ _ _ _ rfl _
    exact hgw (.forwarded (hp _ _) rfl _)
  case unrouted =>
    rintro ci _ _ _ _ rfl _
    exact hgw (.stat rfl _)

/-- **The answers to the server are tallied**, but for stray solicitations. -/
theorem backEgress_tally (hf : FmmacOk s.ifEgress) (h : ¬ StraySolicitation lim r b len s) :
    Post (fun x => Tally (txKind s b) s.io x.2.io) (fun _ => True)
      (backEgress lim r tsc b len s) := by
  have hstat {m : BackStat} (hm : TxKind.ofStat m = none) {io : Io BackStat}
      (ht : Tally (txKind s b) (s.io.stat m) io) : Tally (txKind s b) s.io io :=
    (Tally.stat hm s.io).trans ht
  refine backEgress_post (fun _ => .stat rfl _) fun hlen c hc => ?_
  cases c with
  | own => exact .refl _
  | multicast =>
    refine (macResolveEgress_tally (s := s.stat .rxPacketMcEg) hf hlen hc.1 hc.2 fun hstray =>
      h ?_).mono (fun _ ht => hstat rfl ht) fun _ h => h
    exact ⟨hstray.1, hstray.2, hstray.3, hstray.4, hstray.5, hstray.6, hstray.7, hstray.8,
      hstray.9, hstray.10, hstray.11, hstray.12, hstray.13⟩
  | v4 => exact (procV4Eg_tally fun _ _ => rfl).mono (fun _ ht => hstat rfl ht) fun _ h => h
  | v6 => exact (procV6Eg_tally fun _ _ => rfl).mono (fun _ ht => hstat rfl ht) fun _ h => h
  | short4 | short6 => exact hstat rfl (.stat rfl _)
  | ns =>
    exact .bind (macResolveUc6Egress_tally (s := s.stat .rxPacketV6Eg) hc.1.unicast)
      fun _ ht => hstat rfl ht
  | arp => exact .ite (fun _ => arpEgressReply_tally fun _ _ => rfl) fun _ => .refl _
  | noip => exact .stat rfl _

end

/-! ## Runs -/

/-- A frame that is answered and not counted, or counted and not answered. -/
def Miscounted (s : BackState) (x : Received) : Prop :=
  match x.side with
  | .ingress => BroadcastArp s x.buf x.len
  | .egress => StraySolicitation x.lim x.resolution x.buf x.len s

section

variable {boot : BackBoot} {s s' : BackState} {b' : Buf} {x : Received}

/-- **One step of the backend is tallied unless its frame is miscounted.** -/
theorem Received.step_tally_iff (hf : FmmacOk s.ifEgress) (hrun : x.step s = .ok (b', s')) :
    (∃ tx, s'.io.tx = s.io.tx ++ tx) ∧ (Tally (txKind s x.buf) s.io s'.io ↔ ¬ Miscounted s x) := by
  unfold Miscounted
  unfold Received.step at hrun
  cases hside : x.side with
  | ingress =>
    rw [hside] at hrun
    dsimp only
    by_cases h : BroadcastArp s x.buf x.len
    · obtain ⟨b'', s'', tx, hrun', htx, hnot⟩ := h.not_tally x.lim x.resolution x.tsc
      cases hrun.symm.trans hrun'
      exact ⟨⟨tx, htx⟩, iff_of_false hnot (not_not.mpr h)⟩
    · have ht := (backIngress_tally h).of_ok hrun
      exact ⟨ht.imp fun _ => And.left, iff_of_true ht h⟩
  | egress =>
    rw [hside] at hrun
    dsimp only
    by_cases h : StraySolicitation x.lim x.resolution x.buf x.len s
    · obtain ⟨b'', s'', tx, hrun', htx, hnot⟩ := h.not_tally x.tsc
      cases hrun.symm.trans hrun'
      exact ⟨⟨tx, htx⟩, iff_of_false hnot (not_not.mpr h)⟩
    · have ht := (backEgress_tally hf h).of_ok hrun
      exact ⟨ht.imp fun _ => And.left, iff_of_true ht h⟩

/-- One received frame, with how many answers of each kind have been given to `write`. -/
def countStep (c : BackState × (TxKind → ℕ)) (x : Received) : M (BackState × (TxKind → ℕ)) := do
  let r ← x.step c.1
  .ok (r.2, fun k => c.2 k + ofKind (txKind c.1 x.buf) (r.2.io.tx.drop c.1.io.tx.length) k)

theorem countStep_eq {c : BackState × (TxKind → ℕ)} (h : x.step c.1 = .ok (b', s')) :
    countStep c x = .ok (s', fun k => c.2 k +
      ofKind (txKind c.1 x.buf) (s'.io.tx.drop c.1.io.tx.length) k) := by
  rw [countStep, h]
  rfl

/-- A run of a backend from its start, over the received frames. -/
def countRun (boot : BackBoot) (xs : List Received) : M (BackState × (TxKind → ℕ)) :=
  xs.foldlM countStep (boot.start, fun _ => 0)

/-- The counters are the numbers of the answers. -/
def TxExact (c : BackState × (TxKind → ℕ)) : Prop :=
  ∀ k : TxKind, c.1.io.sstat k.stat = BitVec.ofNat 64 (c.2 k)

/-- **From exact counters a frame leads to exact counters unless it is miscounted.** -/
theorem countStep_exact_iff {c c' : BackState × (TxKind → ℕ)} (hf : FmmacOk c.1.ifEgress)
    (hc : TxExact c) (hstep : countStep c x = .ok c') : TxExact c' ↔ ¬ Miscounted c.1 x := by
  obtain ⟨r, hrun, hstep⟩ := bind_eq_ok.mp hstep
  cases hstep
  obtain ⟨⟨tx, htx⟩, htally⟩ := Received.step_tally_iff hf hrun
  rw [← htally]
  refine ⟨fun h => ⟨tx, htx, fun k => ?_⟩, fun ht k => ?_⟩
  · have hk := h k
    dsimp only at hk
    rw [hk, htx, List.drop_left, hc k, BitVec.ofNat_add]
  · dsimp only
    rw [ht.count htx k, hc k, htx, List.drop_left, BitVec.ofNat_add]

theorem countRun_append {xs : List Received} {c : BackState × (TxKind → ℕ)} :
    countRun boot (xs ++ [x]) = .ok c ↔
      ∃ c₁, countRun boot xs = .ok c₁ ∧ countStep c₁ x = .ok c := by
  rw [countRun, List.foldlM_append, bind_eq_ok]
  refine exists_congr fun c₁ => and_congr_right fun _ => ?_
  rw [List.foldlM_cons, bind_eq_ok]
  constructor
  · rintro ⟨c₂, hstep, hc⟩
    cases hc
    exact hstep
  · exact fun hstep => ⟨c, hstep, rfl⟩

theorem countRun_backRun {xs : List Received} {c : BackState × (TxKind → ℕ)}
    (h : countRun boot xs = .ok c) : BackRun boot c.1 := by
  induction xs using List.reverseRecOn generalizing c with
  | nil =>
    cases h
    exact .init
  | append_singleton xs x ih =>
    obtain ⟨c₁, h₁, hstep⟩ := countRun_append.mp h
    obtain ⟨r, hrun, hstep⟩ := bind_eq_ok.mp hstep
    cases hstep
    exact .step x (ih h₁) hrun

end

theorem BackBoot.start_io (boot : BackBoot) : boot.start.io = ⟨fun _ => 0, []⟩ := by
  unfold BackBoot.start backInit
  dsimp only
  split_ifs
  all_goals rfl

/-- **All along a run the counters are the numbers of the answers exactly if no frame of the run is
miscounted.** -/
theorem counters_exact {boot : BackBoot} {xs : List Received} {c : BackState × (TxKind → ℕ)}
    (hrun : countRun boot xs = .ok c) :
    (∀ ys d, ys <+: xs → countRun boot ys = .ok d → TxExact d) ↔
      ∀ ys x d, ys ++ [x] <+: xs → countRun boot ys = .ok d → ¬ Miscounted d.1 x := by
  constructor
  · intro h ys x d hpre hys
    obtain ⟨zs, rfl⟩ := hpre
    rw [countRun, List.foldlM_append] at hrun
    obtain ⟨d', hd', -⟩ := bind_eq_ok.mp hrun
    obtain ⟨d₁, hd₁, hstep⟩ := countRun_append.mp hd'
    obtain rfl := Except.ok.inj (hys.symm.trans hd₁)
    have hpre : ys <+: ys ++ [x] ++ zs := by simp
    exact (countStep_exact_iff (countRun_backRun hys).settled.fmmacEg (h ys d hpre hys) hstep).mp
      (h _ d' ⟨zs, rfl⟩ hd')
  · intro h ys d hpre hys
    induction ys using List.reverseRecOn generalizing d with
    | nil =>
      cases hys
      intro k
      dsimp only
      rw [boot.start_io]
      rfl
    | append_singleton ys x ih =>
      obtain ⟨d₁, hd₁, hstep⟩ := countRun_append.mp hys
      exact (countStep_exact_iff (countRun_backRun hd₁).settled.fmmacEg
        (ih d₁ ((List.prefix_append _ _).trans hpre) hd₁) hstep).mpr (h ys x d₁ hpre hd₁)

/-- An ARP request of a client for `10.0.0.9`, to all hosts. -/
def sampleArpAll : Buf := fun i =>
  ([255, 255, 255, 255, 255, 255, 2, 0, 0, 0, 0, 7, 8, 6, 0, 1, 8, 0, 6, 4, 0, 1,
    2, 0, 0, 0, 0, 7, 10, 0, 0, 7, 0, 0, 0, 0, 0, 0, 10, 0, 0, 9] : List Byte).getD i 0

def sampleArpOne : Buf := store sampleArpAll 0 ![2, 0, 0, 0, 0, 1]

/-- Reception on the ingress interface. -/
def sampleReceived (b : Buf) : Received := ⟨.ingress, 1520, sampleResolution0, 0, b, 60, by decide⟩

/-- A frame of the interface itself. -/
def sampleArpOwn : Buf := store sampleArpOne 6 ![2, 0, 0, 0, 0, 1]

theorem sampleArpOne_step {s : BackState} (hif : s.ifIngress = sampleBoot.start.ifIngress) :
    ∃ b' s' bytes, (sampleReceived sampleArpOne).step s = .ok (b', s') ∧
      s'.ifIngress = sampleBoot.start.ifIngress ∧
        s'.io.tx = s.io.tx ++ [⟨.arpReply, s.ifIngress.sockfd, bytes⟩] := by
  obtain ⟨b', s', hrun, bytes, htx⟩ := backIngress_arp 1520 sampleResolution0 0 (b := sampleArpOne)
    (s := s) (show 14 < 60 by decide) (by rw [hif]; decide +kernel) (by decide) (by decide)
      (by rw [hif]; decide +kernel) (by decide) (by rw [hif]; decide +kernel)
  have hk := (backIngress_rel backKept_rel 1520 sampleResolution0 0 sampleArpOne 60 s).of_ok hrun
  exact ⟨b', s', bytes, hrun, hk.ifIngress.trans hif, htx⟩

/-- Two unicast requests, with a frame that is not handled between them. -/
theorem counters_exact_sample : ∃ c, countRun sampleBoot [sampleReceived sampleArpOne,
    sampleReceived sampleArpOwn, sampleReceived sampleArpOne] = .ok c ∧ TxExact c ∧
      c.2 .arpReplyIn = 2 := by
  obtain ⟨b₁, s₁, bytes₁, hrun₁, hif₁, htx₁⟩ := sampleArpOne_step (s := sampleBoot.start) rfl
  have hrun₂ : (sampleReceived sampleArpOwn).step s₁ = .ok (sampleArpOwn, s₁) := by
    have hown : hSource sampleArpOwn = s₁.ifIngress.mac := by
      rw [hif₁]
      decide +kernel
    exact backIngress_own (by decide) hown
  obtain ⟨b₃, s₃, bytes₃, hrun₃, -, htx₃⟩ := sampleArpOne_step hif₁
  obtain ⟨c, hrun, hcount⟩ : ∃ c, countRun sampleBoot [sampleReceived sampleArpOne,
      sampleReceived sampleArpOwn, sampleReceived sampleArpOne] = .ok c ∧
        c.2 .arpReplyIn = 2 := by
    refine ⟨_, (foldlM_cons_ok (countStep_eq hrun₁)).trans ((foldlM_cons_ok
      (countStep_eq hrun₂)).trans ((foldlM_cons_ok (countStep_eq hrun₃)).trans rfl)), ?_⟩
    dsimp only
    rw [List.drop_length, htx₃, List.drop_left, htx₁, List.drop_left]
    rfl
  refine ⟨c, hrun, (counters_exact hrun).mpr (fun ys x d hpre _ => ?_) _ _ List.prefix_rfl hrun,
    hcount⟩
  · have hx : x ∈ [sampleReceived sampleArpOne, sampleReceived sampleArpOwn,
        sampleReceived sampleArpOne] := hpre.subset (by simp)
    simp only [List.mem_cons, List.not_mem_nil, or_false] at hx
    rcases hx with rfl | rfl | rfl
    all_goals exact fun h : BroadcastArp _ _ _ => absurd h.broadcast (by decide)

/-- The broadcast request is answered, and the counter stays at zero. -/
theorem counters_miss : ∃ c, countRun sampleBoot [sampleReceived sampleArpAll] = .ok c ∧
    c.1.io.sstat TxKind.arpReplyIn.stat ≠ BitVec.ofNat 64 (c.2 .arpReplyIn) := by
  have harp : BroadcastArp sampleBoot.start sampleArpAll 60 :=
    ⟨by decide, by decide +kernel, by decide, by decide, by decide +kernel, by decide,
      by decide +kernel⟩
  obtain ⟨b', s', hrun, bytes, hio⟩ := harp.answered 1520 sampleResolution0 0
  have hstep : (sampleReceived sampleArpAll).step sampleBoot.start = .ok (b', s') := hrun
  refine ⟨_, (foldlM_cons_ok (countStep_eq hstep)).trans rfl, ?_⟩
  dsimp only
  rw [hio, sampleBoot.start_io]
  simp [ofKind, txKind, TxKind.stat, Io.stat, Io.write]

end Sasat
