import Sasat.Translate.BackAccount
import Sasat.Log.Clients
import Sasat.Cmd.LogDump
import Sasat.Back.Forward

/-!
# The clients in the log of the backend

Every packet that the backend takes for its server, or gets from it, is counted for its client. What
`sasat -l` writes of the clients is what the packets tell.

* `upCall`, `dwnCall`: the call for a frame of a client, and of the server; `clientCall`.
* `CountedAs`: a frame makes this call on the client tables, and no other.
* **`BackState.recv_counted`**, `recv_run_counted`: one frame, and a run.
* **`client_log_tells`**: the text of the log after a run.
-/

namespace Sasat

open Outcome List

def upCall (ifd : Ifdata) (lim : ℕ) (tsc : BitVec 64) (b : Buf) (len : ℕ) : Option CiCall :=
  match frameKind ifd lim b len with
  | .v4 => if 34 ≤ len ∧ ipDst b = ifd.vip4 then some (.up4 tsc (ipSrc b)) else none
  | .v6 => if 54 < len ∧ ip6Dst b = ifd.vip6 then some (.up6 tsc (ip6Src b)) else none
  | _ => none

def dwnCall (ifd : Ifdata) (lim : ℕ) (tsc : BitVec 64) (b : Buf) (len : ℕ) : Option CiCall :=
  match frameKind ifd lim b len with
  | .v4 => if 34 ≤ len then some (.dwn4 tsc (ipDst b)) else none
  | .v6 => if 54 < len then some (.dwn6 tsc (ip6Dst b)) else none
  | _ => none

def clientCall (s : BackState) (a : BackArrival) : Option CiCall :=
  match a.thread with
  | .ingress => upCall s.ifIngress a.lim a.tsc a.buf a.len
  | .egress => dwnCall s.ifEgress a.lim a.tsc a.buf a.len

/-- From `s` to `s'` the client tables have been called as `c` says. -/
def CountedAs (c : Option CiCall) (s s' : BackState) : Prop :=
  runCi s.clientInfo c.toList = .ok s'.clientInfo

section

variable {s s' : BackState} {b : Buf} {len : ℕ} {tsc : BitVec 64}

theorem CountedAs.none (h : s'.clientInfo = s.clientInfo) : CountedAs none s s' := by
  rw [CountedAs, h]
  rfl

theorem CountedAs.some {c : CiCall} (h : c.step s.clientInfo = .ok s'.clientInfo) :
    CountedAs (some c) s s' := by
  rw [CountedAs, Option.toList_some, runCi, foldlM_cons, h]
  rfl

/-! ## One frame -/

theorem forwardV4In_clients (x : Bool × BackState) :
    (forwardV4In b len x).2.clientInfo = x.2.clientInfo := by
  unfold forwardV4In
  dsimp only
  split_ifs <;> rfl

theorem forwardV6In_clients (x : Bool × BackState) :
    (forwardV6In b len x).2.clientInfo = x.2.clientInfo := by
  unfold forwardV6In
  dsimp only
  split_ifs <;> rfl

theorem resolveSvr_clients (o : MacOutcomes) (s : BackState) :
    (s.resolveSvr o).2.clientInfo = s.clientInfo := by
  unfold BackState.resolveSvr
  split_ifs <;> rfl

theorem procV4In_counted (r : Resolution) (s : BackState) : Post (fun x => CountedAs
    (if ipDst b = s.ifIngress.vip4 then some (.up4 tsc (ipSrc b)) else none) s x.2)
    (fun _ => True) (procV4In r tsc b len s) := by
  refine .ite (fun hdst => ?_) fun hdst => ?_
  · rw [if_neg hdst]
    exact .none rfl
  · rw [if_pos (not_not.mp hdst)]
    cases hci : getCiUp4 tsc (ipSrc b) s.clientInfo with
    | error e => trivial
    | ok ci =>
      have hsvr := resolveSvr_clients (r.ip4 s.svrInfo.svrIp4) { s with clientInfo := ci }
      exact .some (hci.trans (congrArg Except.ok ((forwardV4In_clients _).trans hsvr).symm))

theorem procV6In_counted (r : Resolution) (s : BackState) : Post (fun x => CountedAs
    (if ip6Dst b = s.ifIngress.vip6 then some (.up6 tsc (ip6Src b)) else none) s x.2)
    (fun _ => True) (procV6In r tsc b len s) := by
  refine .ite (fun hdst => ?_) fun hdst => ?_
  · rw [if_neg hdst]
    exact .none rfl
  · rw [if_pos (not_not.mp hdst)]
    cases hci : getCiUp6 tsc (ip6Src b) s.clientInfo with
    | error e => trivial
    | ok ci =>
      have hsvr := resolveSvr_clients (r.ip6 s.svrInfo.svrIp6) { s with clientInfo := ci }
      exact .some (hci.trans (congrArg Except.ok ((forwardV6In_clients _).trans hsvr).symm))

theorem procV4Eg_counted (r : Resolution) (s : BackState) :
    Post (fun x => CountedAs (some (.dwn4 tsc (ipDst b))) s x.2) (fun _ => True)
      (procV4Eg r tsc b len s) := by
  refine procV4Eg_post ?passed ?routed ?unrouted
  case passed => exact fun ci hci _ => .some hci
  case routed =>
    rintro ci _ hci _ _ rfl _
    exact .some (hci.trans (congrArg Except.ok gwKnown4_clients.symm))
  case unrouted =>
    rintro ci _ hci _ _ rfl _
    exact .some (hci.trans (congrArg Except.ok gwKnown4_clients.symm))

theorem procV6Eg_counted (r : Resolution) (s : BackState) :
    Post (fun x => CountedAs (some (.dwn6 tsc (ip6Dst b))) s x.2) (fun _ => True)
      (procV6Eg r tsc b len s) := by
  refine procV6Eg_post ?passed ?routed ?unrouted
  case passed => exact fun ci hci _ => .some hci
  case routed =>
    rintro ci _ hci _ _ rfl _
    exact .some (hci.trans (congrArg Except.ok gwKnown6_clients.symm))
  case unrouted =>
    rintro ci _ hci _ _ rfl _
    exact .some (hci.trans (congrArg Except.ok gwKnown6_clients.symm))

theorem backIngress_counted (lim : ℕ) (r : Resolution) (s : BackState) :
    Post (fun x => CountedAs (upCall s.ifIngress lim tsc b len) s x.2) (fun _ => True)
      (backIngress lim r tsc b len s) := by
  unfold upCall
  refine backIngress_post (fun hlen => ?_) fun hlen c hc => ?_
  · rw [frameKind, if_pos (not_lt.mp hlen)]
    exact .none rfl
  rw [hc.kind hlen]
  cases c with
  | own | noip => exact .none rfl
  | multicast => exact .bind .trivial fun _ _ => .none rfl
  | v4 =>
    simp only [FrameClass.kind, of_decide_eq_true hc.2.2, true_and]
    exact procV4In_counted r (s.stat .rxPacketV4In)
  | short4 =>
    simp only [FrameClass.kind, of_decide_eq_false hc.2.2, false_and, if_false]
    exact .none rfl
  | v6 =>
    simp only [FrameClass.kind, hc.2.2.1, true_and]
    exact procV6In_counted r (s.stat .rxPacketV6In)
  | short6 =>
    simp only [FrameClass.kind, hc.2.2, false_and, if_false]
    exact .none rfl
  | ns => exact .ite (fun _ => .bind .trivial fun _ _ => .none rfl) fun _ => .none rfl
  | arp => exact .ite (fun _ => .none rfl) fun _ => .none rfl

theorem backEgress_counted (lim : ℕ) (r : Resolution) (s : BackState) :
    Post (fun x => CountedAs (dwnCall s.ifEgress lim tsc b len) s x.2) (fun _ => True)
      (backEgress lim r tsc b len s) := by
  unfold dwnCall
  refine backEgress_post (fun hlen => ?_) fun hlen c hc => ?_
  · rw [frameKind, if_pos (not_lt.mp hlen)]
    exact .none rfl
  rw [hc.kind hlen]
  cases c with
  | own | noip => exact .none rfl
  | multicast =>
    exact (macResolveEgress_answered r _ lim _).mono (fun _ h => .none h.1) fun _ h => h
  | v4 =>
    simp only [FrameClass.kind, of_decide_eq_true hc.2.2, if_true]
    exact procV4Eg_counted r (s.stat .rxPacketV4Eg)
  | short4 =>
    simp only [FrameClass.kind, of_decide_eq_false hc.2.2, if_false]
    exact .none rfl
  | v6 =>
    simp only [FrameClass.kind, hc.2.2.1, if_true]
    exact procV6Eg_counted r (s.stat .rxPacketV6Eg)
  | short6 =>
    simp only [FrameClass.kind, hc.2.2, if_false]
    exact .none rfl
  | ns =>
    change Post _ _ (macResolveUc6Egress lim r len b (s.stat .rxPacketV6Eg) >>= _)
    exact .bind (macResolveUc6Egress_answered r _ lim) fun _ h => .none h.1
  | arp => exact .ite (fun _ => .none (arpEgressReply_answered r s).1) fun _ => .none rfl

/-- **A frame is counted for its client**, or not at all. -/
theorem BackState.recv_counted {a : BackArrival} (h : s.recv a = .ok s') :
    CountedAs (clientCall s a) s s' := by
  unfold BackState.recv at h
  unfold clientCall
  cases ha : a.thread with
  | ingress =>
    rw [ha] at h
    obtain ⟨x, hframe, h⟩ := bind_eq_ok.mp h
    cases h
    exact (backIngress_counted a.lim a.r s).of_ok hframe
  | egress =>
    rw [ha] at h
    obtain ⟨x, hframe, h⟩ := bind_eq_ok.mp h
    cases h
    exact (backEgress_counted a.lim a.r s).of_ok hframe

end

/-! ## Runs -/

theorem clientCall_congr {s s' : BackState} (h : BackKept s s') : clientCall s' = clientCall s := by
  funext a
  rw [clientCall, clientCall, h.ifIngress, h.ifEgress]

theorem clientCall_tsc {s : BackState} {a : BackArrival} {c : CiCall}
    (h : clientCall s a = some c) : c.tsc = a.tsc := by
  unfold clientCall upCall dwnCall at h
  split at h <;> split at h
  all_goals first | cases h | skip
  all_goals
    split_ifs at h
    cases h
    rfl

/-- **The calls of a run** are those of its frames, one after the other. -/
theorem recv_run_counted {as : List BackArrival} : ∀ {s s' : BackState},
    as.foldlM BackState.recv s = .ok s' →
      runCi s.clientInfo (as.filterMap (clientCall s)) = .ok s'.clientInfo := by
  induction as with
  | nil =>
    intro s s' h
    cases h
    rfl
  | cons a as ih =>
    intro s s' h
    obtain ⟨t, ht, h⟩ := bind_eq_ok.mp h
    have hcall := BackState.recv_counted ht
    have hrest := ih h
    rw [clientCall_congr (BackState.recv_entry ht).1] at hrest
    have happend : (a :: as).filterMap (clientCall s) =
        (clientCall s a).toList ++ as.filterMap (clientCall s) := by
      rw [filterMap_cons]
      cases clientCall s a <;> rfl
    rw [happend, runCi, foldlM_append]
    exact (congrArg (· >>= _) hcall).trans hrest

/-- **The log of the clients is what the packets tell.** After any run of the backend from its start
on, however its two threads take turns: for each table, the log has the clients of the packets that
are counted in it, each once and those first seen latest in front, with the number of their packets
and the time of the last one. At most as many clients as a pool has entries are in each table. -/
theorem client_log_tells {st ts : BitVec 64} {s s' : BackState} {as : List BackArrival}
    (hs : s.clientInfo = initClientTable st ts) (hrun : as.foldlM BackState.recv s = .ok s')
    (htsc : ∀ a ∈ as, a.tsc ≠ 0)
    (hfit : ∀ k, (addrs k (as.filterMap (clientCall s))).toFinset.card ≤ cliCache) (c : Clock) :
    (Dump.cliBack s'.clientInfo).text c = title "CLIENT INFO:" ++
      (clientsText c st ts (as.filterMap (clientCall s)) .up6 ++
        clientsText c st ts (as.filterMap (clientCall s)) .dwn6 ++
          clientsText c st ts (as.filterMap (clientCall s)) .up4 ++
            clientsText c st ts (as.filterMap (clientCall s)) .dwn4) := by
  obtain ⟨ci, hci, hlisted⟩ := listed_run st ts hfit
  have hcounted := recv_run_counted hrun
  rw [hs, hci] at hcounted
  obtain rfl := Except.ok.inj hcounted
  refine texts_writeLogCliBack c hlisted fun x hx => ?_
  obtain ⟨a, ha, hax⟩ := mem_filterMap.mp hx
  rw [clientCall_tsc hax]
  exact htsc a ha

theorem client_log_tells_sample : ∃ s', [⟨.ingress, 1520, sampleResolution0, 1,
    samplePacket4, 60⟩].foldlM BackState.recv sampleBoot.start = .ok s' ∧
      (Dump.cliBack s'.clientInfo).text epoch = title "CLIENT INFO:" ++
        (clientsText epoch 0 0 [.up4 1 ![10, 0, 0, 7]] .up6 ++
          clientsText epoch 0 0 [.up4 1 ![10, 0, 0, 7]] .dwn6 ++
            clientsText epoch 0 0 [.up4 1 ![10, 0, 0, 7]] .up4 ++
              clientsText epoch 0 0 [.up4 1 ![10, 0, 0, 7]] .dwn4) := by
  have hcl : sampleBoot.start.clientInfo = initClientTable 0 0 := rfl
  have hto : ToV4In sampleBoot.start samplePacket4 60 :=
    ⟨by decide +kernel, by decide, by decide, by decide⟩
  obtain ⟨t, hget, -⟩ := CiTable.getCi_initial cliHash4 1 (ipSrc samplePacket4)
  have hup : getCiUp4 1 (ipSrc samplePacket4) sampleBoot.start.clientInfo =
      .ok { initClientTable 0 0 with up4 := t } := by
    rw [hcl, getCiUp4]
    change CiTable.getCi cliHash4 1 _ .initial >>= _ = _
    rw [hget]
    rfl
  obtain ⟨b', s', hrun⟩ := procV4In_ok sampleResolution0 60
    (s := sampleBoot.start.stat .rxPacketV4In) hup
  have hrecv : [⟨.ingress, 1520, sampleResolution0, 1, samplePacket4, 60⟩].foldlM BackState.recv
      sampleBoot.start = .ok s' := by
    rw [foldlM_cons, BackState.recv]
    change (backIngress 1520 sampleResolution0 1 samplePacket4 60 sampleBoot.start >>= _) >>= _ = _
    rw [backIngress_v4 hto, hrun]
    rfl
  have hcall : [(⟨.ingress, 1520, sampleResolution0, 1, samplePacket4, 60⟩ : BackArrival)].filterMap
      (clientCall sampleBoot.start) = [.up4 1 ![10, 0, 0, 7]] := by
    have hkind : frameKind sampleBoot.start.ifIngress 1520 samplePacket4 60 = .v4 := by
      rw [frameKind, if_neg (by decide), if_neg hto.foreign, if_neg (by rw [hto.unicast]; decide),
        if_pos hto.proto]
    have hcall : clientCall sampleBoot.start ⟨.ingress, 1520, sampleResolution0, 1, samplePacket4,
        60⟩ = some (.up4 1 (ipSrc samplePacket4)) := by
      rw [clientCall, upCall, hkind]
      exact if_pos ⟨by decide, by decide +kernel⟩
    rw [filterMap_cons, hcall]
    exact congrArg (fun a => [CiCall.up4 1 a]) (by decide)
  refine ⟨s', hrecv, ?_⟩
  rw [← hcall]
  refine client_log_tells hcl hrecv (by decide) (fun k => ?_) epoch
  rw [hcall]
  cases k <;> decide

end Sasat
