import Sasat.Lib.Mealy
import Sasat.Front.Exchange
import Sasat.Translate.Relay

/-!
# The front translator without its tables

A dispatcher has an interface and an address family of each kind. It decides for every packet
whether it is forwarded, and where. The front translator decides as it does, over all of its runs.

* `FrontEvent`, `FrontState.event`: frames, ticks of the patrol and reloads.
* `ForVip4`, `ForVip6`: the packets that are looked up.
* `Dispatcher`, `Dispatcher.next`: the dispatcher, as a machine that puts out what is forwarded.
* `Represents`: it stands for a state; **`event_refines`**: for an event.
* **`front_refines`**: for a whole run.
* `Found`: a server is resolved; **`once_served`**: until the next reload nothing for it is dropped.
-/

namespace Sasat

open Outcome

/-! ## The dispatcher -/

/-- What happens to the front translator. -/
inductive FrontEvent
  | recv (a : FrontArrival)
  | patrol
  | reload (i : Ifdata) (vipMode : Bool) (lines4 : List (PolicyLine 4))
      (lines6 : List (PolicyLine 16))

def FrontState.event (s : FrontState) : FrontEvent → M FrontState
  | .recv a => s.recv a
  | .patrol => FrontOp.patrol.step s
  | .reload i m lines4 lines6 => (FrontOp.reload i m lines4 lines6).step s

/-- A packet that is forwarded: its source, and the server that it goes to. -/
inductive Forwarded
  | v4 (src server : InAddr)
  | v6 (src server : In6Addr)
  deriving DecidableEq

def Tx.forwarded (x : Tx) : Option Forwarded :=
  match x.sender with
  | .procV4 => some (.v4 (ipSrc (recvBuf x.bytes)) (ipDst (recvBuf x.bytes)))
  | .procV6 => some (.v6 (ip6Src (recvBuf x.bytes)) (ip6Dst (recvBuf x.bytes)))
  | _ => none

def FrontState.sent (s : FrontState) : List Forwarded := s.io.tx.filterMap Tx.forwarded

/-- A frame with an IPv4 packet for the virtual address. -/
def ForVip4 (ifd : Ifdata) (a : FrontArrival) : Prop :=
  34 < a.len ∧ hSource a.buf ≠ ifd.mac ∧ isMulticast (hDest a.buf) = false ∧
    hProto a.buf = ethPIp ∧ ipDst a.buf = ifd.vip4

/-- A frame with an IPv6 packet for the virtual address that is not a solicitation. -/
def ForVip6 (ifd : Ifdata) (a : FrontArrival) : Prop :=
  54 < a.len ∧ hSource a.buf ≠ ifd.mac ∧ isMulticast (hDest a.buf) = false ∧
    hProto a.buf = ethPIpv6 ∧ isIcmp6Ns a.lim a.buf a.len = .ok false ∧ ip6Dst a.buf = ifd.vip6

instance (ifd : Ifdata) (a : FrontArrival) : Decidable (ForVip4 ifd a) :=
  inferInstanceAs (Decidable (_ ∧ _))

instance (ifd : Ifdata) (a : FrontArrival) : Decidable (ForVip6 ifd a) :=
  inferInstanceAs (Decidable (_ ∧ _))

/-- A front translator without tables. -/
structure Dispatcher where
  ifd : Ifdata
  v4 : Exchange 4
  v6 : Exchange 16

namespace Dispatcher

def next (d : Dispatcher) : FrontEvent → List Forwarded × Dispatcher
  | .recv a =>
    if ForVip4 d.ifd a then
      let (server, v4) := d.v4.packet a.o (ipSrc a.buf)
      ((server.map (.v4 (ipSrc a.buf))).toList, { d with v4 := v4 })
    else if ForVip6 d.ifd a then
      let (server, v6) := d.v6.packet a.o (ip6Src a.buf)
      ((server.map (.v6 (ip6Src a.buf))).toList, { d with v6 := v6 })
    else ([], d)
  | .patrol => ([], d)
  | .reload i _ lines4 lines6 => ([], ⟨i, .load lines4, .load lines6⟩)

/-- The dispatcher stands for the state of the front translator. -/
structure Represents (d : Dispatcher) (s : FrontState) : Prop where
  inv : FrontInv s
  config : FrontConfig s
  ifd : s.ifIngress = d.ifd
  v4 : d.v4.Represents s.lb4
  v6 : d.v6.Represents s.lb6

end Dispatcher

/-! ## Packets -/

section

variable {s s' : FrontState} {o : ℕ → MacOutcomes} {tsc : BitVec 64} {b : Buf} {len : ℕ}

theorem sent_append {x : Tx} (h : s'.io.tx = s.io.tx ++ [x]) :
    s'.sent = s.sent ++ x.forwarded.toList := by
  rw [FrontState.sent, h, List.filterMap_append, FrontState.sent]
  cases hx : x.forwarded with
  | none => rw [List.filterMap_cons_none hx]; rfl
  | some y => rw [List.filterMap_cons_some hx]; rfl

/-- **`proc_v4` does with a packet what the family does.** -/
theorem procV4_decides {x : Exchange 4} (hx : x.Represents s.lb4) (hs : FrontInv s)
    (hlen : 34 < len) (hdst : ipDst b = s.vip4) : ∃ b' s', procV4 o tsc b len s = .ok (b', s') ∧
      (x.packet o (ipSrc b)).2.Represents s'.lb4 ∧ s'.lb6 = s.lb6 ∧
        s'.sent = s.sent ++ ((x.packet o (ipSrc b)).1.map (.v4 (ipSrc b))).toList := by
  obtain ⟨L, hL⟩ := hs.side4
  obtain ⟨r, lb, hget, hx', hto⟩ := hx.getPol hL o tsc (ipSrc b)
  have hget4 : getPolV4 o tsc (ipSrc b) s = .ok (r, { s with lb4 := lb }) := by
    rw [getPolV4, hget]
    rfl
  unfold procV4
  rw [if_neg (not_not.mpr hdst), hget4, hto]
  cases r with
  | none => exact ⟨_, _, rfl, hx', rfl, (List.append_nil _).symm⟩
  | some e =>
    refine ⟨_, _, rfl, hx', rfl, (sent_append rfl).trans ?_⟩
    rw [Tx.forwarded, ipSrc, ipDst, load_recvBuf_frame (by omega), load_recvBuf_frame (by omega),
      load_store_of_disjoint _ _ (by omega), load_store_of_disjoint _ _ (by omega),
      load_store_of_disjoint _ _ (by omega), load_store_of_disjoint _ _ (by omega),
      load_store_of_disjoint _ _ (by omega), load_store_self]
    rfl

/-- **`proc_v6` does with a packet what the family does.** -/
theorem procV6_decides {x : Exchange 16} (hx : x.Represents s.lb6) (hs : FrontInv s)
    (hlen : 54 < len) (hdst : ip6Dst b = s.vip6) : ∃ b' s', procV6 o tsc b len s = .ok (b', s') ∧
      (x.packet o (ip6Src b)).2.Represents s'.lb6 ∧ s'.lb4 = s.lb4 ∧
        s'.sent = s.sent ++ ((x.packet o (ip6Src b)).1.map (.v6 (ip6Src b))).toList := by
  obtain ⟨L, hL⟩ := hs.side6
  obtain ⟨r, lb, hget, hx', hto⟩ := hx.getPol hL o tsc (ip6Src b)
  have hget6 : getPolV6 o tsc (ip6Src b) s = .ok (r, { s with lb6 := lb }) := by
    rw [getPolV6, hget]
    rfl
  unfold procV6
  rw [if_neg (not_not.mpr hdst), hget6, hto]
  cases r with
  | none => exact ⟨_, _, rfl, hx', rfl, (List.append_nil _).symm⟩
  | some e =>
    refine ⟨_, _, rfl, hx', rfl, (sent_append rfl).trans ?_⟩
    rw [Tx.forwarded, ip6Src, ip6Dst, load_recvBuf_frame (by omega),
      load_recvBuf_frame (by omega), load_store_of_disjoint _ _ (by omega),
      load_store_of_disjoint _ _ (by omega), load_store_of_disjoint _ _ (by omega),
      load_store_self]
    rfl

theorem frontIngress1_other (hconf : FrontConfig s) {a : FrontArrival}
    (h4 : ¬ ForVip4 s.ifIngress a) (h6 : ¬ ForVip6 s.ifIngress a) :
    Post (fun r => r.2.lb4 = s.lb4 ∧ r.2.lb6 = s.lb6 ∧
        Wrote (fun x => x.forwarded = none) s.io r.2.io) (fun _ => True)
      (frontIngress1 a.lim a.o a.tsc a.buf a.len s) := by
  have harp : ∀ bytes, Tx.forwarded ⟨.arpReply, s.ifIngress.sockfd, bytes⟩ = none := fun _ => rfl
  have hna : ∀ bytes, Tx.forwarded ⟨.sendIcmp6Na, s.ifIngress.sockfd, bytes⟩ = none := fun _ => rfl
  refine frontIngress1_post (fun _ => ⟨rfl, rfl, .none rfl⟩) fun _ c hc => ?_
  cases c with
  | own | short4 | short6 | noip => exact ⟨rfl, rfl, .none rfl⟩
  | multicast =>
    refine .ite (fun _ => ?_) fun _ => ⟨rfl, rfl, .none rfl⟩
    exact .bind (macResolve_wrote frontArpStats s.ifIngress a.buf _ harp hna a.lim
      (hProto a.buf) a.len) fun _ hw => ⟨rfl, rfl, hw⟩
  | v4 =>
    obtain ⟨harr, hp, hlen⟩ := hc
    refine post_of_ok (if_pos fun h => h4 ?_) ⟨rfl, rfl, .none rfl⟩
    exact ⟨of_decide_eq_true hlen, harr.foreign, harr.unicast, hp, h.trans hconf.vip4⟩
  | v6 =>
    obtain ⟨harr, hp, hlen, hns⟩ := hc
    refine post_of_ok (if_pos fun h => h6 ?_) ⟨rfl, rfl, .none rfl⟩
    exact ⟨hlen, harr.foreign, harr.unicast, hp, hns, h.trans hconf.vip6⟩
  | ns =>
    refine .ite (fun _ => ?_) fun _ => ⟨rfl, rfl, .none rfl⟩
    exact .bind (macResolveUc6_wrote frontArpStats s.ifIngress a.buf _ hna a.lim a.len)
      fun _ hw => ⟨rfl, rfl, hw⟩
  | arp =>
    refine .ite (fun _ => ?_) fun _ => ⟨rfl, rfl, .none rfl⟩
    exact ⟨rfl, rfl, arpReply_wrote frontArpStats s.ifIngress a.buf s.io harp⟩

/-! ## Runs -/

namespace Dispatcher

variable {d : Dispatcher}

/-- **A frame is handled as the dispatcher does.** -/
theorem recv_refines (hd : d.Represents s) {a : FrontArrival} (hrun : s.recv a = .ok s') :
    (d.next (.recv a)).2.Represents s' ∧ s'.sent = s.sent ++ (d.next (.recv a)).1 := by
  obtain ⟨⟨b', s'⟩, hfwd, h⟩ := bind_eq_ok.mp hrun
  cases h
  clear hrun
  dsimp only
  have hh := (frontIngress1_handled hd.inv a.lim a.o a.tsc a.buf a.len).of_ok hfwd
  have hifd : s'.ifIngress = d.ifd := hh.ifIngress.trans hd.ifd
  have hconf := hd.config.handled hh
  unfold next
  dsimp only
  split_ifs with h4 h6
  · obtain ⟨hlen, hsrc, huc, hp, hdst⟩ := h4
    rw [← hd.ifd] at hsrc hdst
    rw [frontIngress1, if_pos (by omega), procRecvData, if_neg hsrc, huc,
      if_neg Bool.false_ne_true, if_pos hp, if_pos hlen] at hfwd
    obtain ⟨b₁, s₁, hproc, hx, hlb, hsent⟩ := @procV4_decides (s.stat .rxPacketV4) a.o a.tsc a.buf
      a.len d.v4 hd.v4 ⟨hd.inv.side4, hd.inv.side6⟩ hlen (hdst.trans hd.config.vip4.symm)
    cases hfwd.symm.trans hproc
    exact ⟨⟨hh.inv, hconf, hifd, hx, hlb ▸ hd.v6⟩, hsent⟩
  · obtain ⟨hlen, hsrc, huc, hp, hns, hdst⟩ := h6
    rw [← hd.ifd] at hsrc hdst
    rw [frontIngress1, if_pos (by omega), procRecvData, if_neg hsrc, huc,
      if_neg Bool.false_ne_true, hp, if_neg (by decide), if_pos rfl, if_pos hlen, hns] at hfwd
    obtain ⟨b₁, s₁, hproc, hx, hlb, hsent⟩ := @procV6_decides (s.stat .rxPacketV6) a.o a.tsc a.buf
      a.len d.v6 hd.v6 ⟨hd.inv.side4, hd.inv.side6⟩ hlen (hdst.trans hd.config.vip6.symm)
    cases hfwd.symm.trans hproc
    exact ⟨⟨hh.inv, hconf, hifd, hlb ▸ hd.v4, hx⟩, hsent⟩
  · rw [← hd.ifd] at h4 h6
    obtain ⟨hlb4, hlb6, hw⟩ := (frontIngress1_other hd.config h4 h6).of_ok hfwd
    refine ⟨⟨hh.inv, hconf, hifd, hlb4 ▸ hd.v4, hlb6 ▸ hd.v6⟩, ?_⟩
    rcases hw with htx | ⟨x, htx, hx⟩
    · rw [FrontState.sent, htx, List.append_nil]
      rfl
    · rw [sent_append htx, hx]
      rfl

theorem patrol_refines (hd : d.Represents s) (hrun : FrontOp.patrol.step s = .ok s') :
    d.Represents s' ∧ s'.sent = s.sent := by
  have hconf := hd.config.step hd.inv .patrol hrun
  obtain ⟨⟨tv, s'⟩, htick, h⟩ := bind_eq_ok.mp hrun
  cases h
  clear hrun
  obtain ⟨tv₁, s₁, hrun₁, hinv, hifd, -⟩ := procPatrol_spec hd.inv
  cases htick.symm.trans hrun₁
  obtain ⟨h4, h6, -⟩ := procPatrol_sides htick
  obtain ⟨L4, hL4⟩ := hd.inv.side4
  obtain ⟨L6, hL6⟩ := hd.inv.side6
  obtain ⟨c4, q4, p4, d4, heq4⟩ := patrolSide_eq hL4 h4
  obtain ⟨c6, q6, p6, d6, heq6⟩ := patrolSide_eq hL6 h6
  refine ⟨⟨hinv, hconf, hifd.trans hd.ifd, ?_, ?_⟩, ?_⟩
  · rw [heq4]
    exact hd.v4.congr rfl rfl rfl rfl
  · rw [heq6]
    exact hd.v6.congr rfl rfl rfl rfl
  · have htx : Post (fun r : ℕ × FrontState => r.2.io.tx = s.io.tx) (fun _ => True)
        (procPatrol s) :=
      .ite (fun _ => .bind .trivial fun _ _ => .bind .trivial fun _ _ => rfl) fun _ => rfl
    rw [FrontState.sent, htx.of_ok htick, FrontState.sent]

/-- **A reload begins anew.** -/
theorem reload_refines (hd : d.Represents s) {i : Ifdata} {m : Bool}
    {lines4 : List (PolicyLine 4)} {lines6 : List (PolicyLine 16)}
    (hrun : (FrontOp.reload i m lines4 lines6).step s = .ok s') :
    Represents ⟨i, .load lines4, .load lines6⟩ s' ∧ s'.sent = s.sent := by
  have hconf := hd.config.step hd.inv _ hrun
  obtain ⟨lb4, h4, hrun⟩ := bind_eq_ok.mp hrun
  obtain ⟨lb6, h6, hrun⟩ := bind_eq_ok.mp hrun
  cases hrun
  obtain ⟨lb4', L4, hload4, hs4, -⟩ := initLoad_spec (family4 i.vip4) none lines4
    (destroySvrTbl (destroyPolicyTable s.lb4))
  obtain ⟨lb6', L6, hload6, hs6, -⟩ := initLoad_spec family6 none lines6
    (destroySvrTbl (destroyPolicyTable s.lb6))
  obtain rfl := Except.ok.inj (hload4.symm.trans h4)
  obtain rfl := Except.ok.inj (hload6.symm.trans h6)
  exact ⟨⟨⟨⟨L4, hs4⟩, ⟨L6, hs6⟩⟩, hconf, rfl, Exchange.represents_load (family4 i.vip4) h4,
    Exchange.represents_load family6 h6⟩, rfl⟩

/-- **Every event is handled as the dispatcher does.** -/
theorem event_refines : Mealy.Refines Represents FrontState.sent FrontState.event next := by
  intro d s e s' hd hrun
  cases e with
  | recv a => exact recv_refines hd hrun
  | patrol =>
    obtain ⟨hd', hsent⟩ := patrol_refines hd hrun
    exact ⟨hd', hsent.trans (List.append_nil _).symm⟩
  | reload i m lines4 lines6 =>
    obtain ⟨hd', hsent⟩ := reload_refines hd hrun
    exact ⟨hd', hsent.trans (List.append_nil _).symm⟩

theorem represents_init {pool4 : Fin lbMaxCache → LbPolCache 4 (BitVec 16)}
    {pool6 : Fin lbMaxCache → LbPolCache 16 Unit} {i : Ifdata} {m : Bool}
    {lines4 : List (PolicyLine 4)} {lines6 : List (PolicyLine 16)} {mem : FrontState}
    (hinit : frontInit pool4 pool6 i m lines4 lines6 mem = .ok s) :
    Represents ⟨i, .load lines4, .load lines6⟩ s ∧ s.sent = mem.sent := by
  obtain ⟨hinv, hconf, -⟩ := (FrontReach.init _ _ _ _ _ _ _ _ hinit).inv
  obtain ⟨lb4, h4, hinit⟩ := bind_eq_ok.mp hinit
  obtain ⟨lb6, h6, hinit⟩ := bind_eq_ok.mp hinit
  cases hinit
  exact ⟨⟨hinv, hconf, rfl, Exchange.represents_load (family4 i.vip4) h4,
    Exchange.represents_load family6 h6⟩, rfl⟩

end Dispatcher

/-- **The front translator forwards exactly what the dispatcher does**, in order: over every run of
frames, ticks and reloads from the start on, and with every outcome of the MAC resolution. -/
theorem front_refines {pool4 : Fin lbMaxCache → LbPolCache 4 (BitVec 16)}
    {pool6 : Fin lbMaxCache → LbPolCache 16 Unit} {i : Ifdata} {m : Bool}
    {lines4 : List (PolicyLine 4)} {lines6 : List (PolicyLine 16)} {mem : FrontState}
    (hinit : frontInit pool4 pool6 i m lines4 lines6 mem = .ok s) {es : List FrontEvent}
    (hrun : es.foldlM FrontState.event s = .ok s') : s'.sent =
      mem.sent ++ Mealy.outputs Dispatcher.next ⟨i, .load lines4, .load lines6⟩ es := by
  obtain ⟨hd, hsent⟩ := Dispatcher.represents_init hinit
  rw [← hsent]
  exact (Dispatcher.event_refines.run es hd hrun).2

end

/-! ## Servers that have been found -/

/-- The server of a packet that is forwarded. -/
def Dispatcher.Found (d : Dispatcher) : Forwarded → Prop
  | .v4 _ server => d.v4.status server = .ok
  | .v6 _ server => d.v6.status server = .ok

def FrontEvent.Reloads : FrontEvent → Prop
  | .reload .. => True
  | _ => False

namespace Dispatcher

variable {d : Dispatcher} {e : FrontEvent} {y : Forwarded}

/-- **What is forwarded has a server that is found.** -/
theorem next_found (h : y ∈ (d.next e).1) : (d.next e).2.Found y := by
  cases e with
  | recv a =>
    unfold next at h ⊢
    dsimp only at h ⊢
    split_ifs at h ⊢ with h4 h6
    · obtain ⟨ip, hip, rfl⟩ := Option.map_eq_some_iff.mp (Option.mem_toList.mp h)
      exact Exchange.packet_found hip
    · obtain ⟨ip, hip, rfl⟩ := Option.map_eq_some_iff.mp (Option.mem_toList.mp h)
      exact Exchange.packet_found hip
    · exact absurd h List.not_mem_nil
  | patrol => exact absurd h List.not_mem_nil
  | reload => exact absurd h List.not_mem_nil

/-- **It stays found until the next reload.** -/
theorem Found.next (h : d.Found y) (he : ¬ e.Reloads) : (d.next e).2.Found y := by
  cases e with
  | recv a =>
    unfold Dispatcher.next
    dsimp only
    split_ifs
    · cases y with
      | v4 src server => exact Exchange.packet_keeps h
      | v6 src server => exact h
    · cases y with
      | v4 src server => exact h
      | v6 src server => exact Exchange.packet_keeps h
    · exact h
  | patrol => exact h
  | reload => exact absurd True.intro he

theorem Found.final : ∀ {es : List FrontEvent} {d : Dispatcher}, d.Found y →
    (∀ e ∈ es, ¬ e.Reloads) → (Mealy.final Dispatcher.next d es).Found y := by
  intro es
  induction es with
  | nil => exact fun h _ => h
  | cons e es ih =>
    intro d h he
    rw [List.forall_mem_cons] at he
    exact ih (h.next he.1) he.2

theorem Found.recv4 {src ip : InAddr} {a : FrontArrival} (h : d.Found (.v4 src ip))
    (hfor : ForVip4 d.ifd a) (hto : dispatch d.v4.lines (ipSrc a.buf) = some ip) :
    (d.next (.recv a)).1 = [.v4 (ipSrc a.buf) ip] := by
  rw [Dispatcher.next, if_pos hfor, Exchange.packet_ok hto h]
  rfl

theorem Found.recv6 {src ip : In6Addr} {a : FrontArrival} (h : d.Found (.v6 src ip))
    (hfor : ForVip6 d.ifd a) (hto : dispatch d.v6.lines (ip6Src a.buf) = some ip) :
    (d.next (.recv a)).1 = [.v6 (ip6Src a.buf) ip] := by
  have hnot : ¬ ForVip4 d.ifd a := fun h4 =>
    absurd (h4.2.2.2.1.symm.trans hfor.2.2.2.1) (by decide)
  rw [Dispatcher.next, if_neg hnot, if_pos hfor, Exchange.packet_ok hto h]
  rfl

end Dispatcher

/-- **Once a server has been served, nothing for it is dropped.** When a packet has been forwarded,
then until the next reload every packet of every client for which the policy file names the same
server is forwarded to it, whatever becomes of the caches and of the MAC resolution. -/
theorem once_served {pool4 : Fin lbMaxCache → LbPolCache 4 (BitVec 16)}
    {pool6 : Fin lbMaxCache → LbPolCache 16 Unit} {i : Ifdata} {m : Bool}
    {lines4 : List (PolicyLine 4)} {lines6 : List (PolicyLine 16)}
    {mem s s₁ s₂ s₃ s₄ : FrontState} {es es' : List FrontEvent} {e : FrontEvent} {y : Forwarded}
    {a : FrontArrival} {d : Dispatcher}
    (hinit : frontInit pool4 pool6 i m lines4 lines6 mem = .ok s)
    (hbefore : es.foldlM FrontState.event s = .ok s₁) (hfirst : s₁.event e = .ok s₂)
    (hsent : s₂.sent = s₁.sent ++ [y]) (hbetween : es'.foldlM FrontState.event s₂ = .ok s₃)
    (hno : ∀ e ∈ es', ¬ e.Reloads) (hlast : s₃.event (.recv a) = .ok s₄)
    (hd : d = Mealy.final Dispatcher.next ⟨i, .load lines4, .load lines6⟩ (es ++ e :: es')) :
    (∀ src ip, y = .v4 src ip → ForVip4 d.ifd a → dispatch d.v4.lines (ipSrc a.buf) = some ip →
      s₄.sent = s₃.sent ++ [.v4 (ipSrc a.buf) ip]) ∧
    (∀ src ip, y = .v6 src ip → ForVip6 d.ifd a → dispatch d.v6.lines (ip6Src a.buf) = some ip →
      s₄.sent = s₃.sent ++ [.v6 (ip6Src a.buf) ip]) := by
  obtain ⟨h₀, -⟩ := Dispatcher.represents_init hinit
  obtain ⟨h₁, -⟩ := Dispatcher.event_refines.run es h₀ hbefore
  obtain ⟨h₂, hout⟩ := Dispatcher.event_refines h₁ hfirst
  obtain ⟨h₃, -⟩ := Dispatcher.event_refines.run es' h₂ hbetween
  have hy : y ∈ ((Mealy.final Dispatcher.next ⟨i, .load lines4, .load lines6⟩ es).next e).1 := by
    rw [← List.append_cancel_left (hsent.symm.trans hout)]
    exact List.mem_singleton_self y
  have hfound := (Dispatcher.next_found hy).final hno
  have hfinal : d = Mealy.final Dispatcher.next ((Mealy.final Dispatcher.next
      ⟨i, .load lines4, .load lines6⟩ es).next e).2 es' := by
    rw [hd, Mealy.final, List.foldl_append, List.foldl_cons]
    rfl
  rw [← hfinal] at hfound h₃
  obtain ⟨-, hsent₄⟩ := Dispatcher.event_refines h₃ hlast
  refine ⟨fun src ip hsrc hfor hto => ?_, fun src ip hsrc hfor hto => ?_⟩
  · subst hsrc
    rw [hsent₄, hfound.recv4 hfor hto]
  · subst hsrc
    rw [hsent₄, hfound.recv6 hfor hto]

def sampleArrival : FrontArrival := ⟨60, fun _ => sampleMac, 0, sampleFrame, 60⟩

theorem front_refines_sample : ∃ s s', [.recv sampleArrival].foldlM FrontState.event s = .ok s' ∧
    s'.sent = sampleFront.sent ++ Mealy.outputs Dispatcher.next
      ⟨sampleIf ![10, 0, 0, 1], .load [sampleLine], .load []⟩ [.recv sampleArrival] ∧
    s'.sent = [.v4 (ipSrc sampleFrame) ![10, 0, 0, 2]] := by
  obtain ⟨s, mac, hinit, hvip, hmac, hc⟩ := sample_init
  obtain ⟨b', s', x, hrun, -, -⟩ := sample_forwards (.init _ _ _ _ _ _ _ _ hinit) hvip hmac hc
  have hrun : [FrontEvent.recv sampleArrival].foldlM FrontState.event s = .ok s' := by
    rw [List.foldlM_cons, FrontState.event, FrontState.recv, sampleArrival, hrun]
    rfl
  have h := front_refines hinit hrun
  refine ⟨s, s', hrun, h, h.trans ?_⟩
  decide +kernel

end Sasat
