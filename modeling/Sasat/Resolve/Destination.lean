import Sasat.Back.Forward
import Sasat.Front.Resolved
import Sasat.Translate.Stages

/-!
# The destinations of packets

A MAC address is written in place while it is being resolved, and is copied into caches that nothing
checks again.

* `FrontResolved`, `BackResolved`: in a state of a translator the MAC addresses in use are not zero,
  and whatever frame comes next, its packet does not go to the zero MAC address.
* **`frames_resolved`**: this holds of all reachable states.
-/

namespace Sasat

open Outcome

/-! ## The packets of the backend -/

section

variable {lim : ℕ} {r : Resolution} {tsc : BitVec 64} {b : Buf} {len : ℕ} {s : BackState}

/-- **The packets for the server go to a MAC address.** -/
theorem backIngress_destined (hm : BackMacs s) :
    Post (fun x => Wrote (Destined .procV4In .procV6In) s.io x.2.io) (fun _ => True)
      (backIngress lim r tsc b len s) :=
  backIngress_forwards hm (fun _ => .other Sender.noConfusion Sender.noConfusion)
    (fun _ => .other Sender.noConfusion Sender.noConfusion) (fun _ _ _ _ hx _ => hx.dest)
      fun _ _ _ _ hx _ => hx.dest

theorem hDest_frame_store (h : 6 ≤ len) (mac : Mac) :
    hDest (recvBuf (frame (store b 0 mac) len)) = mac := by
  rw [hDest, load_recvBuf_frame (by omega), load_store_self]

theorem procV4Eg_destined (hm : BackMacs s) (hlen : 34 ≤ len)
    (hown : s.vipMode = false ∧ hDest b = s.ifEgress.mac) :
    Post (fun x => Wrote (Destined .procV4Eg .procV6Eg) s.io x.2.io) (fun _ => True)
      (procV4Eg r tsc b len s) := by
  refine procV4Eg_post ?passed ?routed ?unrouted
  case passed => exact fun ci _ hn => absurd hown.2 (hn hown.1)
  case routed =>
    rintro ci _ _ _ _ rfl hgw
    refine Or.inr ⟨_, congrArg (· ++ _) gwKnown4_tx, fun _ => ?_⟩
    rw [hDest_frame_store (by omega)]
    have hci : BackMacs { s with clientInfo := ci } := ⟨hm.svr, hm.gw4, hm.gw6⟩
    exact (gwKnown4_rel backMacs_rel _ _ hci).gw4 hgw
  case unrouted =>
    rintro ci _ _ _ _ rfl _
    exact .none gwKnown4_tx

theorem procV6Eg_destined (hm : BackMacs s) (hlen : 54 < len)
    (hown : s.vipMode = false ∧ hDest b = s.ifEgress.mac) :
    Post (fun x => Wrote (Destined .procV4Eg .procV6Eg) s.io x.2.io) (fun _ => True)
      (procV6Eg r tsc b len s) := by
  refine procV6Eg_post ?passed ?routed ?unrouted
  case passed => exact fun ci _ hn => absurd hown.2 (hn hown.1)
  case routed =>
    rintro ci _ _ _ _ rfl hgw
    refine Or.inr ⟨_, congrArg (· ++ _) gwKnown6_tx, fun _ => ?_⟩
    rw [hDest_frame_store (by omega)]
    have hci : BackMacs { s with clientInfo := ci } := ⟨hm.svr, hm.gw4, hm.gw6⟩
    exact (gwKnown6_rel backMacs_rel _ _ hci).gw6 hgw
  case unrouted =>
    rintro ci _ _ _ _ rfl _
    exact .none gwKnown6_tx

/-- **The packets of the server that are rewritten go to a MAC address.** -/
theorem backEgress_destined (hm : BackMacs s)
    (hown : s.vipMode = false ∧ hDest b = s.ifEgress.mac) :
    Post (fun x => Wrote (Destined .procV4Eg .procV6Eg) s.io x.2.io) (fun _ => True)
      (backEgress lim r tsc b len s) :=
  backEgress_wrote (fun _ _ => .other Sender.noConfusion Sender.noConfusion)
    (fun _ _ => .other Sender.noConfusion Sender.noConfusion)
    (fun hlen => procV4Eg_destined (s := s.stat .rxPacketV4Eg) ⟨hm.svr, hm.gw4, hm.gw6⟩ hlen hown)
    fun hlen => procV6Eg_destined (s := s.stat .rxPacketV6Eg) ⟨hm.svr, hm.gw4, hm.gw6⟩ hlen hown

end

/-! ## Both translators -/

/-- In the state `s` of the front translator the servers with the status `SVR_OK` have a MAC
address, and so have the entries that lookups return and the packets that are forwarded. -/
structure FrontResolved (s : FrontState) : Prop where
  svr4 : ∀ q ∈ s.lb4.svrHead, ∀ v, s.lb4.svrs q = some v → v.status = .ok → v.dstMac ≠ 0
  svr6 : ∀ q ∈ s.lb6.svrHead, ∀ v, s.lb6.svrs q = some v → v.status = .ok → v.dstMac ≠ 0
  pol4 : ∀ o tsc a e s', getPolV4 o tsc a s = .ok (some e, s') → (s'.lb4.cache e).lbDstMac ≠ 0
  pol6 : ∀ o tsc a e s', getPolV6 o tsc a s = .ok (some e, s') → (s'.lb6.cache e).lbDstMac ≠ 0
  sent : ∀ lim o tsc b len b' s', frontIngress1 lim o tsc b len s = .ok (b', s') →
    ∀ x ∈ s'.io.tx.drop s.io.tx.length, Destined .procV4 .procV6 x

/-- In the state `s` of the backend the server with the status `SVR_OK` and the gateways that are
valid have a MAC address, and so have the packets that are rewritten. -/
structure BackResolved (s : BackState) : Prop where
  svr : s.svrInfo.stat = true → s.svrInfo.svrMac ≠ 0
  gw4 : s.gwMacV4Valid = true → s.gwMacV4 ≠ 0
  gw6 : s.gwMacV6Valid = true → s.gwMacV6 ≠ 0
  ingress : ∀ lim r tsc b len b' s', backIngress lim r tsc b len s = .ok (b', s') →
    ∀ x ∈ s'.io.tx.drop s.io.tx.length, Destined .procV4In .procV6In x
  egress : ∀ lim r tsc b len b' s', s.vipMode = false → hDest b = s.ifEgress.mac →
    backEgress lim r tsc b len s = .ok (b', s') →
      ∀ x ∈ s'.io.tx.drop s.io.tx.length, Destined .procV4Eg .procV6Eg x

/-- **No packet is rewritten to go to the zero MAC address.** -/
theorem frames_resolved : (∀ s, FrontReach s → FrontResolved s) ∧
    ∀ boot s, BackRun boot s → BackResolved s := by
  refine ⟨fun s h => ?_, fun boot s h => ?_⟩
  · have hs := h.inv.1
    have hr := h.resolved
    refine ⟨hr.svrs4, hr.svrs6, fun o tsc a e s' hget => ?_, fun o tsc a e s' hget => ?_,
      fun lim o tsc b len b' s' hrun => ((frontIngress1_resolved hs hr lim).of_ok hrun).wrote.drop⟩
    · obtain ⟨r, lb, hget', -, hmac⟩ := getPolV4_resolved hs hr o tsc a
      cases hget'.symm.trans hget
      exact hmac e rfl
    · obtain ⟨r, lb, hget', -, hmac⟩ := getPolV6_resolved hs hr o tsc a
      cases hget'.symm.trans hget
      exact hmac e rfl
  · have hm := h.macs
    exact ⟨hm.svr, hm.gw4, hm.gw6,
      fun lim r tsc b len b' s' hrun => ((backIngress_destined hm).of_ok hrun).drop,
      fun lim r tsc b len b' s' hvip hmac hrun =>
        ((backEgress_destined hm ⟨hvip, hmac⟩).of_ok hrun).drop⟩

theorem frames_resolved_sample :
    (∃ x : Tx, x.sender = .procV4 ∧ hDest (recvBuf x.bytes) ≠ 0) ∧
      sampleBoot.start.svrInfo.svrMac ≠ 0 := by
  obtain ⟨s, s', b', x, hreach, -, hrun, htx, hx, -⟩ := sample_front
  have hmem : x ∈ s'.io.tx.drop s.io.tx.length := mem_drop_of_append htx
  refine ⟨⟨x, hx, (frames_resolved.1 s hreach).sent _ _ _ _ _ _ _ hrun x hmem (Or.inl hx)⟩, ?_⟩
  exact (frames_resolved.2 sampleBoot _ .init).svr (by decide +kernel)

end Sasat
