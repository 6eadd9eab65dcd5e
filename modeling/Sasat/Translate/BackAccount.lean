import Sasat.Translate.Account

/-!
# The accounts of the backend

The two threads have counters of their own, but for those of the addresses that they look for. A
frame of a client that cannot be answered is dropped with the counter of the packets for which the
server is not known.

* `BackEntry`: what a frame may leave, by its thread and its kind; **`BackState.recv_entry`**: it
  does.
* `BackAgree`: threads, kinds, counters and frames agree.
* `BackBalanced`: over a run; **`back_balanced`**: over all runs.
-/

namespace Sasat

open Outcome List

/-- What `mac_resolution.c` may leave for a frame of the server: nothing, a drop, an ARP reply, or
an advertisement, which is counted even when it is not written. -/
def EgressEntry (ms : List BackStat) (ws : List Sender) : Prop :=
  (ms = [] ∧ ws = []) ∨ (ms = [.rxDropEg] ∧ ws = []) ∨
    (∃ m ∈ [BackStat.txArpReplyEg, .txProxyArp], ms = [m] ∧ ws = [.arpProxyBody]) ∨
      ∃ m ∈ [BackStat.txNaEg, .txProxyNa], ms = [m] ∧ (ws = [] ∨ ws = [.sendNaBody])

/-- The thread that handles a frame, and the kind of the frame. -/
def backKind (s : BackState) (a : BackArrival) : BackThread × RxKind :=
  match a.thread with
  | .ingress => (.ingress, frameKind s.ifIngress a.lim a.buf a.len)
  | .egress => (.egress, frameKind s.ifEgress a.lim a.buf a.len)

/-- What a frame may leave. -/
def BackEntry : BackThread × RxKind → List BackStat → List Sender → Prop
  | (.ingress, .runt), ms, ws => ms = [.rxDropShortIn] ∧ ws = []
  | (.ingress, .multicast), ms, ws => ∃ ms', ms = .rxPacketMcIn :: ms' ∧
      ArpEntry backArpStats ms' ws
  | (.ingress, .v4), ms, ws => ∃ ms', ms = .rxPacketV4In :: ms' ∧
      PacketEntry [.rxDropShortIn, .rxDropAddrV4In, .rxDropIn] .txPacketV4In .procV4In ms' ws
  | (.ingress, .solicitation), ms, ws =>
      ∃ ms', ms = .rxPacketV6In :: ms' ∧ ArpEntry backArpStats ms' ws
  | (.ingress, .v6), ms, ws => ∃ ms', ms = .rxPacketV6In :: ms' ∧
      PacketEntry [.rxDropShortIn, .rxDropAddrV6In, .rxDropIn] .txPacketV6In .procV6In ms' ws
  | (.ingress, .arp), ms, ws => (ms = [] ∧ ws = []) ∨ (ms = [.txArpReplyIn] ∧ ws = [.arpReply])
  | (.ingress, .other), ms, ws => ms = [.rxDropNoipIn] ∧ ws = []
  | (.egress, .runt), ms, ws => ms = [.rxDropShortEg] ∧ ws = []
  | (.egress, .multicast), ms, ws => ∃ ms', ms = .rxPacketMcEg :: ms' ∧ EgressEntry ms' ws
  | (.egress, .v4), ms, ws => ∃ ms', ms = .rxPacketV4Eg :: ms' ∧
      PacketEntry [.rxDropShortEg, .txDropMac4] .txPacketV4Eg .procV4Eg ms' ws
  | (.egress, .solicitation), ms, ws => ∃ ms', ms = .rxPacketV6Eg :: ms' ∧ EgressEntry ms' ws
  | (.egress, .v6), ms, ws => ∃ ms', ms = .rxPacketV6Eg :: ms' ∧
      PacketEntry [.rxDropShortEg, .txDropMac6] .txPacketV6Eg .procV6Eg ms' ws
  | (.egress, .arp), ms, ws => EgressEntry ms ws
  | (.egress, .other), ms, ws => ms = [.rxDropNoipEg] ∧ ws = []
  | (_, .own), ms, ws => ms = [] ∧ ws = []

/-! ## Frames of clients -/

section

variable {b : Buf} {len : ℕ} (r : Resolution) (tsc : BitVec 64) (s : BackState)

theorem forwardV4In_entry {x : Bool × BackState} (hx : x.2.io = s.io) : ∃ ms ws,
    PacketEntry [.rxDropShortIn, .rxDropAddrV4In, .rxDropIn] .txPacketV4In .procV4In ms ws ∧
      Posted ms ws s.io (forwardV4In b len x).2.io := by
  unfold forwardV4In
  dsimp only
  rw [← hx]
  split_ifs
  · exact ⟨_, _, .inr ⟨rfl, rfl⟩, ((Posted.refl _).write _ _ _).stat _⟩
  · exact ⟨_, _, .inl ⟨_, .tail _ (.tail _ (.head _)), rfl, rfl⟩, (Posted.refl _).stat _⟩

theorem forwardV6In_entry {x : Bool × BackState} (hx : x.2.io = s.io) : ∃ ms ws,
    PacketEntry [.rxDropShortIn, .rxDropAddrV6In, .rxDropIn] .txPacketV6In .procV6In ms ws ∧
      Posted ms ws s.io (forwardV6In b len x).2.io := by
  unfold forwardV6In
  dsimp only
  rw [← hx]
  split_ifs
  · exact ⟨_, _, .inr ⟨rfl, rfl⟩, ((Posted.refl _).write _ _ _).stat _⟩
  · exact ⟨_, _, .inl ⟨_, .tail _ (.tail _ (.head _)), rfl, rfl⟩, (Posted.refl _).stat _⟩

theorem procV4In_entry : Post (fun x => ∃ ms ws,
    PacketEntry [.rxDropShortIn, .rxDropAddrV4In, .rxDropIn] .txPacketV4In .procV4In ms ws ∧
      Posted ms ws s.io x.2.io) (fun _ => True) (procV4In r tsc b len s) :=
  .ite (fun _ => ⟨_, _, .inl ⟨_, .tail _ (.head _), rfl, rfl⟩, (Posted.refl _).stat _⟩)
    fun _ => .bind .trivial fun _ _ => forwardV4In_entry s (BackKept.resolveSvr_io _ _)

theorem procV6In_entry : Post (fun x => ∃ ms ws,
    PacketEntry [.rxDropShortIn, .rxDropAddrV6In, .rxDropIn] .txPacketV6In .procV6In ms ws ∧
      Posted ms ws s.io x.2.io) (fun _ => True) (procV6In r tsc b len s) :=
  .ite (fun _ => ⟨_, _, .inl ⟨_, .tail _ (.head _), rfl, rfl⟩, (Posted.refl _).stat _⟩)
    fun _ => .bind .trivial fun _ _ => forwardV6In_entry s (BackKept.resolveSvr_io _ _)

/-- **The entry of a frame of a client.** -/
theorem backIngress_entry (lim : ℕ) : Post (fun x => ∃ ms ws,
    BackEntry (.ingress, frameKind s.ifIngress lim b len) ms ws ∧ Posted ms ws s.io x.2.io)
      (fun _ => True) (backIngress lim r tsc b len s) := by
  refine backIngress_post (fun hlen => ?_) fun hlen c hc => ?_
  · rw [frameKind, if_pos (not_lt.mp hlen)]
    exact ⟨_, _, ⟨rfl, rfl⟩, (Posted.refl _).stat _⟩
  rw [hc.kind hlen]
  cases c with
  | own => exact ⟨_, _, ⟨rfl, rfl⟩, .refl _⟩
  | multicast =>
    refine .bind (macResolve_posted backArpStats _ _ _ _ _ _) ?_
    rintro x ⟨ms, ws, he, h⟩
    exact ⟨_, _, ⟨ms, rfl, he⟩, h.after_stat⟩
  | v4 =>
    refine (procV4In_entry r tsc _).mono ?_ fun _ h => h
    rintro x ⟨ms, ws, he, h⟩
    exact ⟨_, _, ⟨ms, rfl, he⟩, h.after_stat⟩
  | v6 =>
    refine (procV6In_entry r tsc _).mono ?_ fun _ h => h
    rintro x ⟨ms, ws, he, h⟩
    exact ⟨_, _, ⟨ms, rfl, he⟩, h.after_stat⟩
  | short4 | short6 =>
    exact ⟨_, _, ⟨_, rfl, .inl ⟨_, .head _, rfl, rfl⟩⟩, ((Posted.refl _).stat _).stat _⟩
  | ns =>
    refine .ite (fun _ => .bind (macResolveUc6_posted backArpStats _ _ _ _ _) ?_) fun _ => ?_
    · rintro x ⟨ms, ws, he, h⟩
      exact ⟨_, _, ⟨ms, rfl, he⟩, h.after_stat⟩
    · exact ⟨_, _, ⟨[], rfl, .inl ⟨rfl, rfl⟩⟩, (Posted.refl _).stat _⟩
  | arp =>
    refine .ite (fun _ => ?_) fun _ => ⟨_, _, .inl ⟨rfl, rfl⟩, .refl _⟩
    rcases arpReply_posted backArpStats s.ifIngress b s.io with ⟨hno, h⟩ | ⟨hyes, h⟩
    · refine ⟨_, _, .inl ⟨rfl, rfl⟩, ?_⟩
      rw [hno, if_neg Bool.false_ne_true]
      exact h
    · refine ⟨_, _, .inr ⟨rfl, rfl⟩, ?_⟩
      rw [hyes, if_pos rfl]
      exact h.stat _
  | noip => exact ⟨_, _, ⟨rfl, rfl⟩, (Posted.refl _).stat _⟩

end

/-! ## Frames of the server -/

/-- What `mac_resolution.c` does for a frame of the server. -/
def Answered (s s' : BackState) : Prop :=
  s'.clientInfo = s.clientInfo ∧ ∃ ms ws, EgressEntry ms ws ∧ Posted ms ws s.io s'.io

section

variable {b : Buf} {len : ℕ} {mcast : Bool} (r : Resolution) (s : BackState)

theorem Answered.same (s : BackState) : Answered s s := ⟨rfl, _, _, .inl ⟨rfl, rfl⟩, .refl _⟩

theorem Answered.drop (s : BackState) : Answered s (s.stat .rxDropEg) :=
  ⟨rfl, _, _, .inr (.inl ⟨rfl, rfl⟩), (Posted.refl _).stat _⟩

theorem arpGwLoop_answered (k i : ℕ) (s : BackState) : Answered s (arpGwLoop r b k i s).2 := by
  induction k generalizing i s with
  | zero => exact .same s
  | succ k ih =>
    rw [arpGwLoop, arpProxyBody]
    split_ifs
    · exact .same s
    · exact ⟨rfl, _, _, .inr (.inr (.inl ⟨_, .head _, rfl, rfl⟩)),
        ((Posted.refl _).write _ _ _).stat _⟩
    · exact ih (i + 1) (s.getDefaultGw4 (r.gw4 i))

theorem arpEgressReply_answered : Answered s (arpEgressReply r b s).2 := by
  unfold arpEgressReply
  split_ifs
  · exact arpGwLoop_answered r 3 0 s
  · unfold arpProxyReply
    cases resolveMac (r.ip4 (arpTpa b)) 0 with
    | mk ok mac =>
      cases ok with
      | false => exact .same s
      | true =>
        dsimp only
        rw [arpProxyBody]
        split_ifs
        · exact .same s
        · exact ⟨rfl, _, _, .inr (.inr (.inl ⟨_, .tail _ (.head _), rfl, rfl⟩)),
            ((Posted.refl _).write _ _ _).stat _⟩
  · exact .same s

/-- An advertisement is counted, whether it is written or not. -/
theorem sendNaBody_answered {m : BackStat} (hm : m ∈ [BackStat.txNaEg, .txProxyNa]) (mac : Mac)
    (s : BackState) : Post (fun s' => Answered s s') (fun _ => True)
      (sendNaBody b mcast mac s >>= fun s' => .ok (s'.stat m)) := by
  refine .bind (P := fun s' => s'.clientInfo = s.clientInfo ∧
    ∃ ws, (ws = [] ∨ ws = [.sendNaBody]) ∧ Posted [] ws s.io s'.io)
    (.ite (fun _ => ⟨rfl, _, .inl rfl, .refl _⟩) fun _ => .bind .trivial fun _ _ =>
      ⟨rfl, _, .inr rfl, (Posted.refl _).write _ _ _⟩) ?_
  rintro s' ⟨hci, ws, hws, h⟩
  exact ⟨hci, _, _, .inr (.inr (.inr ⟨m, hm, rfl, hws⟩)), h.stat m⟩

theorem sendGwNaLoop_answered (k i : ℕ) (s : BackState) :
    Post (fun s' => Answered s s') (fun _ => True) (sendGwNaLoop r b mcast k i s) := by
  induction k generalizing i s with
  | zero => exact Answered.same s
  | succ k ih =>
    exact .ite (fun _ => sendNaBody_answered (.head _) s.gwMacV6 s) fun _ =>
      ih (i + 1) (s.getDefaultGw6 (r.gw6 i))

theorem sendNaFor_answered :
    Post (fun s' => Answered s s') (fun _ => True) (sendNaFor r b mcast s) := by
  refine .ite (fun _ => sendGwNaLoop_answered r 3 0 s) fun _ => ?_
  unfold sendProxyNa
  cases resolveMac (r.ip6 (nsTarget b)) 0 with
  | mk ok mac =>
    cases ok with
    | false => exact Answered.same s
    | true => exact sendNaBody_answered (.tail _ (.head _)) mac s

theorem macResolveEgress_answered (lim : ℕ) (prot : BitVec 16) :
    Post (fun x => Answered s x.2) (fun _ => True) (macResolveEgress lim r prot len b s) := by
  refine macResolveEgress_post ?arp ?gateway ?host ?drop
  case arp => exact arpEgressReply_answered r s
  case gateway => exact sendGwNaLoop_answered r 3 0 s
  case host => exact sendNaFor_answered r s
  case drop => exact Answered.drop s

theorem macResolveUc6Egress_answered (lim : ℕ) :
    Post (fun s' => Answered s s') (fun _ => True) (macResolveUc6Egress lim r len b s) := by
  refine macResolveUc6Egress_post ?gateway ?host ?drop ?same
  case gateway => exact fun _ => sendGwNaLoop_answered r 3 0 s
  case host => exact fun _ => sendNaFor_answered r s
  case drop => exact Answered.drop s
  case same => exact Answered.same s

end

section

variable {drop tx : BackStat} {sender : Sender} {s s' : BackState}

theorem sentEg_entry (h : s'.io = s.io) (bytes : List Byte) : ∃ ms ws,
    PacketEntry [.rxDropShortEg, drop] tx sender ms ws ∧
      Posted ms ws s.io ((s'.writeIn sender bytes).stat tx).io :=
  ⟨_, _, .inr ⟨rfl, rfl⟩, h ▸ ((Posted.refl _).write _ _ _).stat _⟩

theorem dropEg_entry (h : s'.io = s.io) : ∃ ms ws,
    PacketEntry [.rxDropShortEg, drop] tx sender ms ws ∧ Posted ms ws s.io (s'.stat drop).io :=
  ⟨_, _, .inl ⟨_, .tail _ (.head _), rfl, rfl⟩, h ▸ (Posted.refl _).stat _⟩

end

section

variable {b : Buf} {len : ℕ} (r : Resolution) (s : BackState)

theorem procV4Eg_entry (tsc : BitVec 64) : Post (fun x => ∃ ms ws,
    PacketEntry [.rxDropShortEg, .txDropMac4] .txPacketV4Eg .procV4Eg ms ws ∧
      Posted ms ws s.io x.2.io) (fun _ => True) (procV4Eg r tsc b len s) := by
  refine procV4Eg_post ?passed ?routed ?unrouted
  case passed => exact fun ci _ _ => sentEg_entry rfl _
  case routed =>
    rintro ci _ _ _ _ rfl _
    exact sentEg_entry gwKnown4_io _
  case unrouted =>
    rintro ci _ _ _ _ rfl _
    exact dropEg_entry gwKnown4_io

theorem procV6Eg_entry (tsc : BitVec 64) : Post (fun x => ∃ ms ws,
    PacketEntry [.rxDropShortEg, .txDropMac6] .txPacketV6Eg .procV6Eg ms ws ∧
      Posted ms ws s.io x.2.io) (fun _ => True) (procV6Eg r tsc b len s) := by
  refine procV6Eg_post ?passed ?routed ?unrouted
  case passed => exact fun ci _ _ => sentEg_entry rfl _
  case routed =>
    rintro ci _ _ _ _ rfl _
    exact sentEg_entry gwKnown6_io _
  case unrouted =>
    rintro ci _ _ _ _ rfl _
    exact dropEg_entry gwKnown6_io

/-- **The entry of a frame of the server.** -/
theorem backEgress_entry (lim : ℕ) (tsc : BitVec 64) : Post (fun x => ∃ ms ws,
    BackEntry (.egress, frameKind s.ifEgress lim b len) ms ws ∧ Posted ms ws s.io x.2.io)
      (fun _ => True) (backEgress lim r tsc b len s) := by
  refine backEgress_post (fun hlen => ?_) fun hlen c hc => ?_
  · rw [frameKind, if_pos (not_lt.mp hlen)]
    exact ⟨_, _, ⟨rfl, rfl⟩, (Posted.refl _).stat _⟩
  rw [hc.kind hlen]
  cases c with
  | own => exact ⟨_, _, ⟨rfl, rfl⟩, .refl _⟩
  | multicast =>
    refine (macResolveEgress_answered r _ lim _).mono ?_ fun _ h => h
    rintro x ⟨-, ms, ws, he, h⟩
    exact ⟨_, _, ⟨ms, rfl, he⟩, h.after_stat⟩
  | v4 =>
    refine (procV4Eg_entry r _ tsc).mono ?_ fun _ h => h
    rintro x ⟨ms, ws, he, h⟩
    exact ⟨_, _, ⟨ms, rfl, he⟩, h.after_stat⟩
  | v6 =>
    refine (procV6Eg_entry r _ tsc).mono ?_ fun _ h => h
    rintro x ⟨ms, ws, he, h⟩
    exact ⟨_, _, ⟨ms, rfl, he⟩, h.after_stat⟩
  | short4 | short6 =>
    exact ⟨_, _, ⟨_, rfl, .inl ⟨_, .head _, rfl, rfl⟩⟩, ((Posted.refl _).stat _).stat _⟩
  | ns =>
    change Post _ _ (macResolveUc6Egress lim r len b (s.stat .rxPacketV6Eg) >>= _)
    refine .bind (macResolveUc6Egress_answered r _ lim) ?_
    rintro x ⟨-, ms, ws, he, h⟩
    exact ⟨_, _, ⟨ms, rfl, he⟩, h.after_stat⟩
  | arp => exact .ite (fun _ => (arpEgressReply_answered r s).2) fun _ => (Answered.same s).2
  | noip => exact ⟨_, _, ⟨rfl, rfl⟩, (Posted.refl _).stat _⟩

end

/-! ## Runs -/

theorem backKind_congr {s s' : BackState} (h : BackKept s s') : backKind s' = backKind s := by
  funext a
  rw [backKind, backKind, h.ifIngress, h.ifEgress]

theorem BackState.recv_entry {s s' : BackState} {a : BackArrival} (h : s.recv a = .ok s') :
    BackKept s s' ∧ ∃ ms ws, BackEntry (backKind s a) ms ws ∧ Posted ms ws s.io s'.io := by
  unfold BackState.recv at h
  unfold backKind
  cases ha : a.thread with
  | ingress =>
    rw [ha] at h
    obtain ⟨x, hframe, h⟩ := bind_eq_ok.mp h
    cases h
    exact ⟨(backIngress_rel backKept_rel a.lim a.r a.tsc a.buf a.len s).of_ok hframe,
      (backIngress_entry a.r a.tsc s a.lim).of_ok hframe⟩
  | egress =>
    rw [ha] at h
    obtain ⟨x, hframe, h⟩ := bind_eq_ok.mp h
    cases h
    exact ⟨(backEgress_rel backKept_rel a.lim a.r a.tsc a.buf a.len s).of_ok hframe,
      (backEgress_entry a.r s a.lim a.tsc).of_ok hframe⟩

/-- The threads and kinds `ks` of frames, the counters `ms` that were raised for them and the
functions `ws` that wrote frames agree. -/
structure BackAgree (ks : List (BackThread × RxKind)) (ms : List BackStat) (ws : List Sender) :
    Prop where
  mcIn : ms.count .rxPacketMcIn = ks.count (.ingress, .multicast)
  v4In : ms.count .rxPacketV4In = ks.count (.ingress, .v4)
  v6In : ms.count .rxPacketV6In = ks.count (.ingress, .v6) + ks.count (.ingress, .solicitation)
  noipIn : ms.count .rxDropNoipIn = ks.count (.ingress, .other)
  mcEg : ms.count .rxPacketMcEg = ks.count (.egress, .multicast)
  v4Eg : ms.count .rxPacketV4Eg = ks.count (.egress, .v4)
  v6Eg : ms.count .rxPacketV6Eg = ks.count (.egress, .v6) + ks.count (.egress, .solicitation)
  noipEg : ms.count .rxDropNoipEg = ks.count (.egress, .other)
  sent4In : ms.count .txPacketV4In = ws.count .procV4In
  sent6In : ms.count .txPacketV6In = ws.count .procV6In
  sent4Eg : ms.count .txPacketV4Eg = ws.count .procV4Eg
  sent6Eg : ms.count .txPacketV6Eg = ws.count .procV6Eg
  packetsEg : ks.count (.egress, .v4) + ks.count (.egress, .v6) + ks.count (.egress, .runt) =
    ms.count .txPacketV4Eg + ms.count .txPacketV6Eg + ms.count .txDropMac4 +
      ms.count .txDropMac6 + ms.count .rxDropShortEg
  packetsIn : ks.count (.ingress, .v4) + ks.count (.ingress, .v6) + ks.count (.ingress, .runt) ≤
    ms.count .txPacketV4In + ms.count .txPacketV6In + ms.count .rxDropAddrV4In +
      ms.count .rxDropAddrV6In + ms.count .rxDropIn + ms.count .rxDropShortIn
  resolveIn : ms.count .txPacketV4In + ms.count .txPacketV6In + ms.count .rxDropAddrV4In +
      ms.count .rxDropAddrV6In + ms.count .rxDropIn + ms.count .rxDropShortIn ≤
    ks.count (.ingress, .v4) + ks.count (.ingress, .v6) + ks.count (.ingress, .runt) +
      (ks.count (.ingress, .multicast) + ks.count (.ingress, .solicitation))

theorem BackAgree.nil : BackAgree [] [] [] := by constructor <;> decide

theorem BackAgree.append {ks ks' : List (BackThread × RxKind)} {ms ms' : List BackStat}
    {ws ws' : List Sender} (h : BackAgree ks ms ws) (h' : BackAgree ks' ms' ws') :
    BackAgree (ks ++ ks') (ms ++ ms') (ws ++ ws') := by
  obtain ⟨a₁, a₂, a₃, a₄, a₅, a₆, a₇, a₈, a₉, a₁₀, a₁₁, a₁₂, a₁₃, a₁₄, a₁₅⟩ := h
  obtain ⟨c₁, c₂, c₃, c₄, c₅, c₆, c₇, c₈, c₉, c₁₀, c₁₁, c₁₂, c₁₃, c₁₄, c₁₅⟩ := h'
  constructor <;> simp only [count_append] <;> omega

theorem BackEntry.agree {k : BackThread × RxKind} {ms : List BackStat} {ws : List Sender}
    (h : BackEntry k ms ws) : BackAgree [k] ms ws := by
  obtain ⟨thread, k⟩ := k
  cases thread with
  | ingress =>
    cases k with
    | runt | own | other =>
      obtain ⟨rfl, rfl⟩ := h
      constructor <;> decide
    | multicast | solicitation =>
      obtain ⟨ms, rfl, h⟩ := h
      rcases h with ⟨rfl, rfl⟩ | ⟨rfl, rfl⟩ | ⟨rfl, rfl⟩ | ⟨rfl, rfl⟩ <;> constructor <;> decide
    | v4 | v6 =>
      obtain ⟨ms, rfl, ⟨m, hm, rfl, rfl⟩ | ⟨rfl, rfl⟩⟩ := h
      · simp only [mem_cons, not_mem_nil, or_false] at hm
        rcases hm with rfl | rfl | rfl <;> constructor <;> decide
      · constructor <;> decide
    | arp => rcases h with ⟨rfl, rfl⟩ | ⟨rfl, rfl⟩ <;> constructor <;> decide
  | egress =>
    cases k with
    | runt | own | other =>
      obtain ⟨rfl, rfl⟩ := h
      constructor <;> decide
    | multicast | solicitation =>
      obtain ⟨ms, rfl, h⟩ := h
      rcases h with ⟨rfl, rfl⟩ | ⟨rfl, rfl⟩ | ⟨m, hm, rfl, rfl⟩ | ⟨m, hm, rfl, rfl | rfl⟩
      · constructor <;> decide
      · constructor <;> decide
      all_goals
        simp only [mem_cons, not_mem_nil, or_false] at hm
        rcases hm with rfl | rfl <;> constructor <;> decide
    | v4 | v6 =>
      obtain ⟨ms, rfl, ⟨m, hm, rfl, rfl⟩ | ⟨rfl, rfl⟩⟩ := h
      · simp only [mem_cons, not_mem_nil, or_false] at hm
        rcases hm with rfl | rfl <;> constructor <;> decide
      · constructor <;> decide
    | arp =>
      rcases h with ⟨rfl, rfl⟩ | ⟨rfl, rfl⟩ | ⟨m, hm, rfl, rfl⟩ | ⟨m, hm, rfl, rfl | rfl⟩
      · constructor <;> decide
      · constructor <;> decide
      all_goals
        simp only [mem_cons, not_mem_nil, or_false] at hm
        rcases hm with rfl | rfl <;> constructor <;> decide

theorem back_entries_agree {ks : List (BackThread × RxKind)}
    {es : List (List BackStat × List Sender)}
    (h : Forall₂ (fun k e => BackEntry k e.1 e.2) ks es) :
    BackAgree ks (es.flatMap Prod.fst) (es.flatMap Prod.snd) := by
  induction h with
  | nil => exact .nil
  | cons he _ ih => exact he.agree.append ih

/-- The counters, the frames `as` that were received and the frames `xs` that were written agree. -/
structure BackBalanced (s s' : BackState) (as : List BackArrival) (xs : List Tx) : Prop where
  mcIn : gain s.io s'.io .rxPacketMcIn =
    BitVec.ofNat 64 ((as.map (backKind s)).count (.ingress, .multicast))
  v4In : gain s.io s'.io .rxPacketV4In =
    BitVec.ofNat 64 ((as.map (backKind s)).count (.ingress, .v4))
  v6In : gain s.io s'.io .rxPacketV6In =
    BitVec.ofNat 64 ((as.map (backKind s)).count (.ingress, .v6) +
      (as.map (backKind s)).count (.ingress, .solicitation))
  noipIn : gain s.io s'.io .rxDropNoipIn =
    BitVec.ofNat 64 ((as.map (backKind s)).count (.ingress, .other))
  mcEg : gain s.io s'.io .rxPacketMcEg =
    BitVec.ofNat 64 ((as.map (backKind s)).count (.egress, .multicast))
  v4Eg : gain s.io s'.io .rxPacketV4Eg =
    BitVec.ofNat 64 ((as.map (backKind s)).count (.egress, .v4))
  v6Eg : gain s.io s'.io .rxPacketV6Eg =
    BitVec.ofNat 64 ((as.map (backKind s)).count (.egress, .v6) +
      (as.map (backKind s)).count (.egress, .solicitation))
  noipEg : gain s.io s'.io .rxDropNoipEg =
    BitVec.ofNat 64 ((as.map (backKind s)).count (.egress, .other))
  sent4In : gain s.io s'.io .txPacketV4In = BitVec.ofNat 64 ((xs.map Tx.sender).count .procV4In)
  sent6In : gain s.io s'.io .txPacketV6In = BitVec.ofNat 64 ((xs.map Tx.sender).count .procV6In)
  sent4Eg : gain s.io s'.io .txPacketV4Eg = BitVec.ofNat 64 ((xs.map Tx.sender).count .procV4Eg)
  sent6Eg : gain s.io s'.io .txPacketV6Eg = BitVec.ofNat 64 ((xs.map Tx.sender).count .procV6Eg)
  /-- every packet of the server, and every frame that is too short, is forwarded or dropped with a
  counter -/
  packetsEg : BitVec.ofNat 64 ((as.map (backKind s)).count (.egress, .v4) +
    (as.map (backKind s)).count (.egress, .v6) + (as.map (backKind s)).count (.egress, .runt)) =
      gain s.io s'.io .txPacketV4Eg + gain s.io s'.io .txPacketV6Eg +
        gain s.io s'.io .txDropMac4 + gain s.io s'.io .txDropMac6 + gain s.io s'.io .rxDropShortEg
  /-- the same for the clients, where `dropped` requests for the MAC address are dropped too -/
  packetsIn : ∃ dropped ≤ (as.map (backKind s)).count (.ingress, .multicast) +
    (as.map (backKind s)).count (.ingress, .solicitation),
      BitVec.ofNat 64 ((as.map (backKind s)).count (.ingress, .v4) +
        (as.map (backKind s)).count (.ingress, .v6) +
          (as.map (backKind s)).count (.ingress, .runt) + dropped) =
      gain s.io s'.io .txPacketV4In + gain s.io s'.io .txPacketV6In +
        gain s.io s'.io .rxDropAddrV4In + gain s.io s'.io .rxDropAddrV6In +
          gain s.io s'.io .rxDropIn + gain s.io s'.io .rxDropShortIn

/-- **The accounts of the backend balance**, over all of its runs and however its two threads take
turns. -/
theorem back_balanced {s s' : BackState} {as : List BackArrival}
    (hrun : as.foldlM BackState.recv s = .ok s') :
    ∃ xs, s'.io.tx = s.io.tx ++ xs ∧ BackBalanced s s' as xs := by
  obtain ⟨es, hes, hp⟩ := entries_run BackState.io (I := BackKept s) (fun t a t' ht hstep => by
    obtain ⟨hk, he⟩ := BackState.recv_entry hstep
    rw [backKind_congr ht] at he
    exact ⟨ht.trans hk, he⟩) (.refl s) hrun
  obtain ⟨mcIn, v4In, v6In, noipIn, mcEg, v4Eg, v6Eg, noipEg, sent4In, sent6In, sent4Eg, sent6Eg,
    packetsEg, packetsIn, resolveIn⟩ := back_entries_agree hes
  obtain ⟨xs, htx, hws⟩ := hp.tx
  refine ⟨xs, htx, ?_⟩
  rw [← hws] at sent4In sent6In sent4Eg sent6Eg
  constructor
  · rw [hp.gain_eq, mcIn]
  · rw [hp.gain_eq, v4In]
  · rw [hp.gain_eq, v6In]
  · rw [hp.gain_eq, noipIn]
  · rw [hp.gain_eq, mcEg]
  · rw [hp.gain_eq, v4Eg]
  · rw [hp.gain_eq, v6Eg]
  · rw [hp.gain_eq, noipEg]
  · rw [hp.gain_eq, sent4In]
  · rw [hp.gain_eq, sent6In]
  · rw [hp.gain_eq, sent4Eg]
  · rw [hp.gain_eq, sent6Eg]
  · simp only [hp.gain_eq, packetsEg, BitVec.ofNat_add]
  · obtain ⟨dropped, hsum⟩ := Nat.exists_eq_add_of_le packetsIn
    refine ⟨dropped, by omega, ?_⟩
    simp only [hp.gain_eq, ← hsum, ← BitVec.ofNat_add]

theorem back_balanced_relay : ∃ (s s' : BackState) (a : BackArrival), BackReach (some 0) s ∧
    [a].foldlM BackState.recv s = .ok s' ∧ gain s.io s'.io .txPacketV6In = 1 := by
  obtain ⟨s, s', x, h, -, -, hrecv, htx, hx, -⟩ := relay_back (some 0) (b := relayTo) (by decide)
    (by decide) (by decide) (by decide) (by decide)
  have hrun : [⟨.ingress, 62, relayResolution, 0, relayTo, 62⟩].foldlM BackState.recv s =
      .ok s' := foldlM_cons_ok hrecv
  obtain ⟨xs, hxs, hb⟩ := back_balanced hrun
  obtain rfl := append_cancel_left (htx.symm.trans hxs)
  refine ⟨s, s', _, h, hrun, hb.sent6In.trans ?_⟩
  rw [map_singleton, hx]
  rfl

end Sasat
