import Sasat.Common.Ledger
import Sasat.Translate.Relay

/-!
# The accounts of the front translator

Every frame raises the counter of its kind, and is then forwarded, answered, ignored or dropped with
one other counter.

* `RxKind`, `frameKind`: the kinds of frames, by the tests that all receive paths make.
* `FrontEntry`: what a frame of a kind may leave; **`frontIngress1_entry`**: it does.
* `KindsAgree`: kinds, counters and frames agree; `FrontEntry.agree`: those of one frame do.
* `Balanced`: counters, received frames and written frames agree; **`front_balanced`**: over all
  runs.
-/

namespace Sasat

open Outcome List

/-- The kinds of frames: too short, from this interface, multicast, an IPv4 packet, a unicast
neighbour solicitation, another IPv6 packet, ARP, another protocol. -/
inductive RxKind
  | runt | own | multicast | v4 | solicitation | v6 | arp | other
  deriving DecidableEq

/-- The kind of a frame that arrives at an interface. -/
def frameKind (ifd : Ifdata) (lim : ℕ) (b : Buf) (len : ℕ) : RxKind :=
  if len ≤ 14 then .runt
  else if hSource b = ifd.mac then .own
  else if isMulticast (hDest b) then .multicast
  else if hProto b = ethPIp then .v4
  else if hProto b = ethPIpv6 then
    if 54 < len then
      match isIcmp6Ns lim b len with
      | .ok true => .solicitation
      | _ => .v6
    else .v6
  else if hProto b = ethPArp then .arp
  else .other

/-- The kind of the frames of a class. -/
def FrameClass.kind : FrameClass → RxKind
  | own => .own
  | multicast => .multicast
  | v4 | short4 => .v4
  | ns => .solicitation
  | v6 | short6 => .v6
  | arp => .arp
  | noip => .other

theorem FrameClass.Says.kind {ifd : Ifdata} {whole4 : Bool} {lim : ℕ} {b : Buf} {len : ℕ}
    {c : FrameClass} (h : c.Says ifd.mac whole4 lim b len) (hlen : 14 < len) :
    frameKind ifd lim b len = c.kind := by
  rw [frameKind, if_neg (by omega)]
  have harr : ∀ {k : RxKind}, Arrives ifd.mac b → (if hSource b = ifd.mac then .own
      else if isMulticast (hDest b) then .multicast else k) = k := by
    intro k harr
    rw [if_neg harr.foreign, harr.unicast, if_neg Bool.false_ne_true]
  cases c with
  | own => exact if_pos h
  | multicast => rw [if_neg h.1, if_pos h.2, FrameClass.kind]
  | v4 | short4 => rw [harr h.1, if_pos h.2.1, FrameClass.kind]
  | v6 | ns =>
    obtain ⟨h0, h6, hlong, hns⟩ := h
    rw [harr h0, h6, if_neg (by decide), if_pos rfl, if_pos hlong, hns, FrameClass.kind]
  | short6 =>
    obtain ⟨h0, h6, hshort⟩ := h
    rw [harr h0, h6, if_neg (by decide), if_pos rfl, if_neg hshort, FrameClass.kind]
  | arp =>
    obtain ⟨h0, harp⟩ := h
    rw [harr h0, harp, if_neg (by decide), if_neg (by decide), if_pos rfl, FrameClass.kind]
  | noip =>
    obtain ⟨h0, h4, h6, harp⟩ := h
    rw [harr h0, if_neg h4, if_neg h6, if_neg harp, FrameClass.kind]

def rxKind (s : FrontState) (a : FrontArrival) : RxKind :=
  frameKind s.ifIngress a.lim a.buf a.len

/-- What a packet may leave behind its first counter: it is dropped with one of the counters
`drops`, or it is forwarded. -/
def PacketEntry {S : Type} (drops : List S) (tx : S) (sender : Sender) (ms : List S)
    (ws : List Sender) : Prop :=
  (∃ m ∈ drops, ms = [m] ∧ ws = []) ∨ (ms = [tx] ∧ ws = [sender])

/-- What a frame of a kind may leave. -/
def FrontEntry : RxKind → List FrontStat → List Sender → Prop
  | .runt, ms, ws => ms = [.rxDropShort] ∧ ws = []
  | .own, ms, ws => ms = [] ∧ ws = []
  | .multicast, ms, ws => ∃ ms', ms = .rxPacketMc :: ms' ∧ ArpEntry frontArpStats ms' ws
  | .v4, ms, ws => ∃ ms', ms = .rxPacketV4 :: ms' ∧
      PacketEntry [.rxDropShort, .rxDropAddrV4, .rxDropPolicy] .txPacketV4 .procV4 ms' ws
  | .solicitation, ms, ws => ∃ ms', ms = .rxPacketV6 :: ms' ∧ ArpEntry frontArpStats ms' ws
  | .v6, ms, ws => ∃ ms', ms = .rxPacketV6 :: ms' ∧
      PacketEntry [.rxDropShort, .rxDropAddrV6, .rxDropPolicy] .txPacketV6 .procV6 ms' ws
  | .arp, ms, ws => (ms = [] ∧ ws = []) ∨ (ms = [.txArpReply] ∧ ws = [.arpReply])
  | .other, ms, ws => ms = [.rxDropNoip] ∧ ws = []

/-! ## One frame -/

section

variable {b : Buf} {len : ℕ}

theorem procV4_entry (o : ℕ → MacOutcomes) (tsc : BitVec 64) (s : FrontState) :
    Post (fun r => ∃ ms ws,
      PacketEntry [.rxDropShort, .rxDropAddrV4, .rxDropPolicy] .txPacketV4 .procV4 ms ws ∧
        Posted ms ws s.io r.2.io) (fun _ => True) (procV4 o tsc b len s) := by
  refine .ite (fun _ => ⟨_, _, .inl ⟨_, .tail _ (.head _), rfl, rfl⟩,
    (Posted.refl _).stat _⟩) fun _ => ?_
  refine .bind (P := fun r : Option CachePtr × FrontState => r.2.io = s.io)
    (.bind .trivial fun _ _ => rfl) fun ⟨e, s'⟩ hr => ?_
  replace hr : s'.io = s.io := hr
  rw [← hr]
  cases e with
  | none => exact ⟨_, _, .inl ⟨_, .tail _ (.tail _ (.head _)), rfl, rfl⟩, (Posted.refl _).stat _⟩
  | some e =>
    exact ⟨_, _, .inr ⟨rfl, rfl⟩, ((Posted.refl _).stat _).write _ _ _⟩

theorem procV6_entry (o : ℕ → MacOutcomes) (tsc : BitVec 64) (s : FrontState) :
    Post (fun r => ∃ ms ws,
      PacketEntry [.rxDropShort, .rxDropAddrV6, .rxDropPolicy] .txPacketV6 .procV6 ms ws ∧
        Posted ms ws s.io r.2.io) (fun _ => True) (procV6 o tsc b len s) := by
  refine .ite (fun _ => ⟨_, _, .inl ⟨_, .tail _ (.head _), rfl, rfl⟩,
    (Posted.refl _).stat _⟩) fun _ => ?_
  refine .bind (P := fun r : Option CachePtr × FrontState => r.2.io = s.io)
    (.bind .trivial fun _ _ => rfl) fun ⟨e, s'⟩ hr => ?_
  replace hr : s'.io = s.io := hr
  rw [← hr]
  cases e with
  | none => exact ⟨_, _, .inl ⟨_, .tail _ (.tail _ (.head _)), rfl, rfl⟩, (Posted.refl _).stat _⟩
  | some e =>
    exact ⟨_, _, .inr ⟨rfl, rfl⟩, ((Posted.refl _).stat _).write _ _ _⟩

/-- **The entry of a frame.** -/
theorem frontIngress1_entry (s : FrontState) (a : FrontArrival) :
    Post (fun r => ∃ ms ws, FrontEntry (rxKind s a) ms ws ∧ Posted ms ws s.io r.2.io)
      (fun _ => True) (frontIngress1 a.lim a.o a.tsc a.buf a.len s) := by
  unfold rxKind
  refine frontIngress1_post (fun hlen => ?_) fun hlen c hc => ?_
  · rw [frameKind, if_pos (not_lt.mp hlen)]
    exact ⟨_, _, ⟨rfl, rfl⟩, (Posted.refl _).stat _⟩
  rw [hc.kind hlen]
  cases c with
  | own => exact ⟨_, _, ⟨rfl, rfl⟩, .refl _⟩
  | multicast =>
    refine .ite (fun _ => .bind (macResolve_posted frontArpStats _ _ _ _ _ _) ?_) fun _ => ?_
    · rintro r ⟨ms, ws, he, h⟩
      exact ⟨_, _, ⟨ms, rfl, he⟩, h.after_stat⟩
    · exact ⟨_, _, ⟨[], rfl, .inl ⟨rfl, rfl⟩⟩, (Posted.refl _).stat _⟩
  | v4 =>
    refine (procV4_entry a.o a.tsc _).mono ?_ fun _ h => h
    rintro r ⟨ms, ws, he, h⟩
    exact ⟨_, _, ⟨ms, rfl, he⟩, h.after_stat⟩
  | v6 =>
    refine (procV6_entry a.o a.tsc _).mono ?_ fun _ h => h
    rintro r ⟨ms, ws, he, h⟩
    exact ⟨_, _, ⟨ms, rfl, he⟩, h.after_stat⟩
  | short4 | short6 =>
    exact ⟨_, _, ⟨_, rfl, .inl ⟨_, .head _, rfl, rfl⟩⟩, ((Posted.refl _).stat _).stat _⟩
  | ns =>
    refine .ite (fun _ => .bind (macResolveUc6_posted frontArpStats _ _ _ _ _) ?_) fun _ => ?_
    · rintro r ⟨ms, ws, he, h⟩
      exact ⟨_, _, ⟨ms, rfl, he⟩, h.after_stat⟩
    · exact ⟨_, _, ⟨[], rfl, .inl ⟨rfl, rfl⟩⟩, (Posted.refl _).stat _⟩
  | arp =>
    refine .ite (fun _ => ?_) fun _ => ⟨_, _, .inl ⟨rfl, rfl⟩, .refl _⟩
    rcases arpReply_posted frontArpStats s.ifIngress a.buf s.io with ⟨-, h⟩ | ⟨-, h⟩
    · exact ⟨_, _, .inl ⟨rfl, rfl⟩, h⟩
    · exact ⟨_, _, .inr ⟨rfl, rfl⟩, h⟩
  | noip => exact ⟨_, _, ⟨rfl, rfl⟩, (Posted.refl _).stat _⟩

end

/-! ## Runs -/

theorem rxKind_congr {s s' : FrontState} (h : s'.ifIngress = s.ifIngress) :
    rxKind s' = rxKind s := by
  funext a
  rw [rxKind, rxKind, h]

theorem FrontState.recv_entry {t t' : FrontState} (ht : FrontInv t) {a : FrontArrival}
    (h : t.recv a = .ok t') : (FrontInv t' ∧ t'.ifIngress = t.ifIngress) ∧
      ∃ ms ws, FrontEntry (rxKind t a) ms ws ∧ Posted ms ws t.io t'.io := by
  obtain ⟨r, hframe, h⟩ := bind_eq_ok.mp h
  cases h
  have hh := (frontIngress1_handled ht a.lim a.o a.tsc a.buf a.len).of_ok hframe
  exact ⟨⟨hh.inv, hh.ifIngress⟩, (frontIngress1_entry t a).of_ok hframe⟩

/-- The kinds `ks` of frames, the counters `ms` that were raised for them and the functions `ws`
that wrote frames agree. -/
structure KindsAgree (ks : List RxKind) (ms : List FrontStat) (ws : List Sender) : Prop where
  mc : ms.count .rxPacketMc = ks.count .multicast
  v4 : ms.count .rxPacketV4 = ks.count .v4
  v6 : ms.count .rxPacketV6 = ks.count .v6 + ks.count .solicitation
  noip : ms.count .rxDropNoip = ks.count .other
  sent4 : ms.count .txPacketV4 = ws.count .procV4
  sent6 : ms.count .txPacketV6 = ws.count .procV6
  arp : ms.count .txArpReply = ws.count .arpReply
  na : ms.count .txNa = ws.count .sendIcmp6Na
  packets : ks.count .v4 + ks.count .v6 + ks.count .runt = ms.count .txPacketV4 +
    ms.count .txPacketV6 + ms.count .rxDropAddrV4 + ms.count .rxDropAddrV6 +
      ms.count .rxDropPolicy + ms.count .rxDropShort

theorem KindsAgree.nil : KindsAgree [] [] [] := by constructor <;> rfl

theorem KindsAgree.append {ks ks' : List RxKind} {ms ms' : List FrontStat} {ws ws' : List Sender}
    (h : KindsAgree ks ms ws) (h' : KindsAgree ks' ms' ws') :
    KindsAgree (ks ++ ks') (ms ++ ms') (ws ++ ws') := by
  obtain ⟨mc, v4, v6, noip, sent4, sent6, arp, na, packets⟩ := h
  obtain ⟨mc', v4', v6', noip', sent4', sent6', arp', na', packets'⟩ := h'
  constructor <;> simp only [count_append] <;> omega

theorem FrontEntry.agree {k : RxKind} {ms : List FrontStat} {ws : List Sender}
    (h : FrontEntry k ms ws) : KindsAgree [k] ms ws := by
  cases k with
  | runt | own | other =>
    obtain ⟨rfl, rfl⟩ := h
    constructor <;> decide
  | multicast | solicitation =>
    obtain ⟨ms, rfl, h⟩ := h
    rcases h with ⟨rfl, rfl⟩ | ⟨rfl, rfl⟩ | ⟨rfl, rfl⟩ | ⟨rfl, rfl⟩ <;> constructor <;> decide
  | v4 | v6 =>
    obtain ⟨ms, rfl, ⟨m, hm, rfl, rfl⟩ | ⟨rfl, rfl⟩⟩ := h
    · simp only [mem_cons, not_mem_nil, or_false] at hm
      rcases hm with rfl | rfl | rfl <;> constructor <;> decide
    · constructor <;> decide
  | arp => rcases h with ⟨rfl, rfl⟩ | ⟨rfl, rfl⟩ <;> constructor <;> decide

theorem entries_agree {ks : List RxKind} {es : List (List FrontStat × List Sender)}
    (h : Forall₂ (fun k e => FrontEntry k e.1 e.2) ks es) :
    KindsAgree ks (es.flatMap Prod.fst) (es.flatMap Prod.snd) := by
  induction h with
  | nil => exact .nil
  | cons he _ ih => exact he.agree.append ih

/-- The counters, the frames `as` that were received and the frames `xs` that were written agree. -/
structure Balanced (s s' : FrontState) (as : List FrontArrival) (xs : List Tx) : Prop where
  mc : gain s.io s'.io .rxPacketMc = BitVec.ofNat 64 ((as.map (rxKind s)).count .multicast)
  v4 : gain s.io s'.io .rxPacketV4 = BitVec.ofNat 64 ((as.map (rxKind s)).count .v4)
  v6 : gain s.io s'.io .rxPacketV6 = BitVec.ofNat 64 ((as.map (rxKind s)).count .v6 +
    (as.map (rxKind s)).count .solicitation)
  noip : gain s.io s'.io .rxDropNoip = BitVec.ofNat 64 ((as.map (rxKind s)).count .other)
  sent4 : gain s.io s'.io .txPacketV4 = BitVec.ofNat 64 ((xs.map Tx.sender).count .procV4)
  sent6 : gain s.io s'.io .txPacketV6 = BitVec.ofNat 64 ((xs.map Tx.sender).count .procV6)
  arp : gain s.io s'.io .txArpReply = BitVec.ofNat 64 ((xs.map Tx.sender).count .arpReply)
  na : gain s.io s'.io .txNa = BitVec.ofNat 64 ((xs.map Tx.sender).count .sendIcmp6Na)
  /-- every packet, and every frame that is too short, is forwarded or dropped with a counter -/
  packets : BitVec.ofNat 64 ((as.map (rxKind s)).count .v4 + (as.map (rxKind s)).count .v6 +
    (as.map (rxKind s)).count .runt) =
      gain s.io s'.io .txPacketV4 + gain s.io s'.io .txPacketV6 + gain s.io s'.io .rxDropAddrV4 +
        gain s.io s'.io .rxDropAddrV6 + gain s.io s'.io .rxDropPolicy + gain s.io s'.io .rxDropShort

/-- **The accounts of the front translator balance**, over all of its runs. -/
theorem front_balanced {s s' : FrontState} {as : List FrontArrival} (h : FrontReach s)
    (hrun : as.foldlM FrontState.recv s = .ok s') :
    ∃ xs, s'.io.tx = s.io.tx ++ xs ∧ Balanced s s' as xs := by
  obtain ⟨es, hes, hp⟩ := entries_run FrontState.io
    (I := fun t => FrontInv t ∧ t.ifIngress = s.ifIngress) (fun t a t' ht hstep => by
      obtain ⟨⟨hinv, hif⟩, he⟩ := FrontState.recv_entry ht.1 hstep
      rw [rxKind_congr ht.2] at he
      exact ⟨⟨hinv, hif.trans ht.2⟩, he⟩) ⟨h.inv.1, rfl⟩ hrun
  obtain ⟨mc, v4, v6, noip, sent4, sent6, arp, na, packets⟩ := entries_agree hes
  obtain ⟨xs, htx, hws⟩ := hp.tx
  refine ⟨xs, htx, ?_⟩
  rw [← hws] at sent4 sent6 arp na
  constructor
  · rw [hp.gain_eq, mc]
  · rw [hp.gain_eq, v4]
  · rw [hp.gain_eq, v6]
  · rw [hp.gain_eq, noip]
  · rw [hp.gain_eq, sent4]
  · rw [hp.gain_eq, sent6]
  · rw [hp.gain_eq, arp]
  · rw [hp.gain_eq, na]
  · simp only [hp.gain_eq, packets, BitVec.ofNat_add]

theorem front_balanced_relay : ∃ s s', FrontReach s ∧
    [relayArrival].foldlM FrontState.recv s = .ok s' ∧ gain s.io s'.io .txPacketV6 = 1 := by
  obtain ⟨s, s', b', hreach, -, hrun, htx, -⟩ := relay_front
  obtain ⟨xs, hxs, hb⟩ := front_balanced hreach hrun
  obtain rfl := append_cancel_left (htx.symm.trans hxs)
  exact ⟨s, s', hreach, hrun, hb.sent6⟩

end Sasat
