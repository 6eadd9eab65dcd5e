import Sasat.Back.Forward
import Sasat.Resolve.Accept

/-!
# Proxy answers to the server

The backend answers requests of its server for the addresses on the other side. For IPv4 it compares
whole addresses, for IPv6 the low 24 bits, which are in the multicast address of the request.

* `GwBy`: the default gateway is known in time. **`arpGwLoop_sent`**, **`sendGwNaLoop_sent`**: the
  rounds of `arp_gw_reply` and `send_gw_na`; what the last round finds is not used.
* `ArpRequest`, `NsRequest`: the requests; **`egress_arp`**, **`egress_ns`**: which are answered.
* `Missed4`, `Missed6`, `Exposed6`: the requests that are answered wrongly.
* **`proxy_answers_iff`**: all others are answered exactly when the target is neither the address of
  the translator nor that of the server.
-/

namespace Sasat

open Outcome

/-! ## The default gateway -/

/-- The gateway is known, or one of the first `n` attempts to resolve it succeeds. -/
def GwBy (valid : Bool) (o : ℕ → MacOutcomes) (n : ℕ) : Prop :=
  valid = true ∨ ∃ i < n, (o i).Resolves

theorem gwBy_zero {valid : Bool} {o : ℕ → MacOutcomes} : GwBy valid o 0 ↔ valid = true := by
  simp [GwBy]

theorem gwBy_succ {o : ℕ → MacOutcomes} (mac : Mac) (n : ℕ) :
    GwBy false o (n + 1) ↔ GwBy (resolveMac (o 0) mac).1 (fun i => o (i + 1)) n := by
  unfold GwBy
  rw [resolveMac_iff, Nat.exists_lt_succ_left]
  simp

theorem GwBy.mono {valid : Bool} {o : ℕ → MacOutcomes} {m n : ℕ} (h : GwBy valid o m)
    (hmn : m ≤ n) : GwBy valid o n := by
  rcases h with h | ⟨i, hi, h⟩
  · exact Or.inl h
  · exact Or.inr ⟨i, hi.trans_le hmn, h⟩

section

variable {r : Resolution} {b : Buf}

/-- **The rounds of `arp_gw_reply`**: what the last one finds is not used. -/
theorem arpGwLoop_sent (hb : load b 14 8 = arphdrTmpl) (k i : ℕ) (s : BackState) :
    Sent .arpProxyBody s.io (arpGwLoop r b (k + 1) i s).2.io ↔
      GwBy s.gwMacV4Valid (fun j => r.gw4 (i + j)) k := by
  induction k generalizing i s with
  | zero =>
    rw [gwBy_zero, arpGwLoop, arpProxyBody, if_neg (not_not.mpr hb)]
    split_ifs with hv
    · exact ⟨fun _ => hv, fun _ => ⟨_, rfl, rfl⟩⟩
    · exact ⟨fun h => absurd h (not_sent_self rfl), fun h => absurd h hv⟩
  | succ k ih =>
    rw [arpGwLoop, arpProxyBody, if_neg (not_not.mpr hb)]
    split_ifs with hv
    · exact ⟨fun _ => Or.inl hv, fun _ => ⟨_, rfl, rfl⟩⟩
    · rw [Bool.not_eq_true] at hv
      rw [hv, gwBy_succ s.gwMacV4]
      refine (ih (i + 1) (s.getDefaultGw4 (r.gw4 i))).trans ?_
      simp only [Nat.add_assoc, Nat.add_comm 1]
      rfl

theorem sendGwNaLoop_valid {mcast : Bool} (hb : ¬ (mcast = true ∧ OtherMulticast b)) (k i : ℕ)
    {s : BackState} (hv : s.gwMacV6Valid = true) :
    ∃ s', sendGwNaLoop r b mcast (k + 1) i s = .ok s' ∧ Sent .sendNaBody s.io s'.io := by
  obtain ⟨bytes, hbody, -⟩ := sendNaBody_write hb s.gwMacV6 s
  refine ⟨(s.writeEg .sendNaBody bytes).stat .txNaEg, ?_, _, rfl, rfl⟩
  rw [sendGwNaLoop, if_pos hv, hbody]
  rfl

/-- **The rounds of `send_gw_na`**: what the last one finds is not used. -/
theorem sendGwNaLoop_sent {mcast : Bool} (hb : ¬ (mcast = true ∧ OtherMulticast b)) (k i : ℕ)
    (s : BackState) : ∃ s', sendGwNaLoop r b mcast (k + 1) i s = .ok s' ∧
      (Sent .sendNaBody s.io s'.io ↔ GwBy s.gwMacV6Valid (fun j => r.gw6 (i + j)) k) := by
  induction k generalizing i s with
  | zero =>
    by_cases hv : s.gwMacV6Valid = true
    · obtain ⟨s', hrun, hsent⟩ := sendGwNaLoop_valid (r := r) hb 0 i hv
      exact ⟨s', hrun, fun _ => Or.inl hv, fun _ => hsent⟩
    · refine ⟨s.getDefaultGw6 (r.gw6 i), ?_, fun h => absurd h (not_sent_self rfl), fun h => ?_⟩
      · rw [sendGwNaLoop, if_neg hv]
        rfl
      · exact absurd (gwBy_zero.mp h) hv
  | succ k ih =>
    by_cases hv : s.gwMacV6Valid = true
    · obtain ⟨s', hrun, hsent⟩ := sendGwNaLoop_valid (r := r) hb (k + 1) i hv
      exact ⟨s', hrun, fun _ => Or.inl hv, fun _ => hsent⟩
    · obtain ⟨s', hrun, hsent⟩ := ih (i + 1) (s.getDefaultGw6 (r.gw6 i))
      refine ⟨s', ?_, hsent.trans ?_⟩
      · rw [sendGwNaLoop, if_neg hv, hrun]
      · rw [Bool.not_eq_true] at hv
        rw [hv, gwBy_succ s.gwMacV6]
        simp only [Nat.add_assoc, Nat.add_comm 1]
        rfl

/-! ## ARP -/

/-- A valid ARP request on the egress interface, while IPv4 is enabled. -/
structure ArpRequest (s : BackState) (b : Buf) (len : ℕ) : Prop where
  v4Enable : s.ifEgress.v4Enable = true
  foreign : hSource b ≠ s.ifEgress.mac
  proto : hProto b = ethPArp
  header : load b 14 8 = arphdrTmpl
  long : 42 ≤ len

/-- The address is neither that of the translator nor that of the server. -/
def Proxied4 (s : BackState) (a : InAddr) : Prop := a ≠ s.ifEgress.sip4 ∧ a ≠ s.svrInfo.svrIp4

instance (s : BackState) (a : InAddr) : Decidable (Proxied4 s a) :=
  inferInstanceAs (Decidable (_ ∧ _))

/-- What an answer for the address needs: the gateway after `n` attempts, or the address itself. -/
def Resolvable4 (s : BackState) (r : Resolution) (n : ℕ) (a : InAddr) : Prop :=
  (s.lMode = .l3 → GwBy s.gwMacV4Valid r.gw4 n) ∧ (s.lMode ≠ .l3 → (r.ip4 a).Resolves)

/-- **The ARP requests that are answered.** -/
theorem arpEgressReply_sent (hb : load b 14 8 = arphdrTmpl) (s : BackState) :
    Sent .arpProxyBody s.io (arpEgressReply r b s).2.io ↔
      Proxied4 s (arpTpa b) ∧ Resolvable4 s r 2 (arpTpa b) := by
  unfold arpEgressReply Proxied4 Resolvable4
  split_ifs with hp hl
  · have h := arpGwLoop_sent (r := r) hb 2 0 s
    simp only [Nat.zero_add] at h
    exact h.trans ⟨fun hgw => ⟨hp, fun _ => hgw, fun hn => absurd hl hn⟩, fun hc => hc.2.1 hl⟩
  · have hiff := resolveMac_iff (r.ip4 (arpTpa b)) 0
    unfold arpProxyReply
    cases hres : resolveMac (r.ip4 (arpTpa b)) 0 with
    | mk ok mac =>
      rw [hres] at hiff
      cases ok with
      | false =>
        refine ⟨fun h => absurd h (not_sent_self rfl), fun hc => ?_⟩
        exact absurd (hiff.mpr (hc.2.2 hl)) Bool.false_ne_true
      | true =>
        dsimp only
        rw [arpProxyBody, if_neg (not_not.mpr hb)]
        exact ⟨fun _ => ⟨hp, fun hc => absurd hc hl, fun _ => hiff.mp rfl⟩, fun _ => ⟨_, rfl, rfl⟩⟩
  · exact ⟨fun h => absurd h (not_sent_self rfl), fun hc => absurd hc.1 hp⟩

/-- A request to another group of hosts than all. -/
def ToGroup (b : Buf) : Prop := isMulticast (hDest b) = true ∧ isBroadcast (hDest b) = false

instance (b : Buf) : Decidable (ToGroup b) := inferInstanceAs (Decidable (_ ∧ _))

/-- **Broadcast and unicast requests come to `arp_egress_reply`**, others are dropped. -/
theorem egress_arp {s : BackState} {len : ℕ} (h : ArpRequest s b len) (lim : ℕ)
    (tsc : BitVec 64) : ∃ b' s', backEgress lim r tsc b len s = .ok (b', s') ∧
      (Sent .arpProxyBody s.io s'.io ↔
        ¬ ToGroup b ∧ Proxied4 s (arpTpa b) ∧ Resolvable4 s r 2 (arpTpa b)) := by
  have hlen := h.long
  rw [backEgress, if_pos (by omega), procEgressData, if_neg h.foreign]
  cases hmc : isMulticast (hDest b) with
  | true =>
    rw [if_pos rfl, macResolveEgress]
    cases hbc : isBroadcast (hDest b) with
    | true =>
      refine ⟨(arpEgressReply r b (s.stat .rxPacketMcEg)).1, _,
        (if_pos rfl).trans (if_pos ⟨h.proto, h.v4Enable⟩), ?_⟩
      refine (arpEgressReply_sent (r := r) h.header (s.stat .rxPacketMcEg)).trans ?_
      exact (and_iff_right fun hg : ToGroup b => Bool.noConfusion (hg.2.symm.trans hbc)).symm
    | false =>
      refine ⟨b, (s.stat .rxPacketMcEg).stat .rxDropEg,
        (if_neg Bool.false_ne_true).trans (if_neg fun hc => ?_), fun hs =>
          absurd hs (not_sent_self rfl), fun hc => absurd ⟨hmc, hbc⟩ hc.1⟩
      rw [h.proto] at hc
      exact absurd hc.1 (by decide)
  | false =>
    rw [if_neg Bool.false_ne_true, h.proto, if_neg (by decide), if_neg (by decide), if_pos rfl,
      if_pos h.v4Enable]
    refine ⟨(arpEgressReply r b s).1, _, rfl, (arpEgressReply_sent (r := r) h.header s).trans ?_⟩
    exact (and_iff_right fun hg : ToGroup b => Bool.noConfusion (hg.1.symm.trans hmc)).symm

/-! ## Neighbour solicitations -/

def SameLow (a c : In6Addr) : Prop := a 13 = c 13 ∧ a 14 = c 14 ∧ a 15 = c 15

instance (a c : In6Addr) : Decidable (SameLow a c) := inferInstanceAs (Decidable (_ ∧ _))

theorem solicitedMac_eq_iff {a c : In6Addr} : solicitedMac a = solicitedMac c ↔ SameLow a c := by
  constructor
  · intro h
    exact ⟨congrFun h 3, congrFun h 4, congrFun h 5⟩
  · rintro ⟨h3, h4, h5⟩
    rw [solicitedMac, solicitedMac, h3, h4, h5]

theorem not_other_of_solicited (h : hDest b = solicitedMac (nsTarget b)) : ¬ OtherMulticast b := by
  rw [OtherMulticast, h]
  rintro (h | h | h)
  · exact h rfl
  · exact h rfl
  · exact h rfl

/-- A valid solicitation on the solicited-node MAC address of its target, received on the egress
interface while IPv6 is enabled. -/
structure NsRequest (s : BackState) (b : Buf) (len : ℕ) : Prop where
  v6Enable : s.ifEgress.v6Enable = true
  foreign : hSource b ≠ s.ifEgress.mac
  dest : hDest b = solicitedMac (nsTarget b)
  proto : hProto b = ethPIpv6
  len : len = 54 + ip6Plen b
  valid : ValidNs (nsTarget b) b

/-- The address is neither that of the translator nor that of the server. -/
def Proxied6 (s : BackState) (a : In6Addr) : Prop := a ≠ s.ifEgress.sip6 ∧ a ≠ s.svrInfo.svrIp6

instance (s : BackState) (a : In6Addr) : Decidable (Proxied6 s a) :=
  inferInstanceAs (Decidable (_ ∧ _))

/-- A solicitation for the address comes to the branch for the virtual address. -/
def ForVip (s : BackState) (a : In6Addr) : Prop :=
  s.vipMode = true ∧ SameLow a s.ifEgress.vip6

instance (s : BackState) (a : In6Addr) : Decidable (ForVip s a) :=
  inferInstanceAs (Decidable (_ ∧ _))

/-- What an answer for the address needs: the gateway after `n` attempts, or the address itself. -/
def Resolvable6 (s : BackState) (r : Resolution) (n : ℕ) (a : In6Addr) : Prop :=
  (ForVip s a ∨ s.lMode = .l3 → GwBy s.gwMacV6Valid r.gw6 n) ∧
    (¬ (ForVip s a ∨ s.lMode = .l3) → (r.ip6 a).Resolves)

section

variable {lim len : ℕ}

theorem checkValidNs_own (hv : ValidNs (nsTarget b) b) (hlen : len = 54 + ip6Plen b)
    (hlim : len ≤ lim) (hl : LooksNs b len) (a : In6Addr) :
    ∃ v, checkValidNs lim b a false (len - nsBaseSize) = .ok v ∧ (v = true ↔ nsTarget b = a) := by
  obtain ⟨v, hrun, hiff⟩ := checkValidNs_iff a hlen hlim hv.nxt hl
  refine ⟨v, hrun, hiff.trans ⟨ValidNs.target, ?_⟩⟩
  rintro rfl
  exact hv

theorem checkValidNs_proxy (hv : ValidNs (nsTarget b) b) (hlen : len = 54 + ip6Plen b)
    (hlim : len ≤ lim) (a : In6Addr) : checkValidNs lim b a true (len - nsBaseSize) = .ok true := by
  have h78 : nsBaseSize = 78 := rfl
  have hplen := hv.plen
  obtain ⟨v, hrun, hiff⟩ := checkValidNs_ok a true ⟨hv.src, hv.hlim, hv.code⟩
    (show nsBaseSize + (len - nsBaseSize) ≤ lim by omega) (show 54 + ip6Plen b ≤ lim by omega)
  rw [hrun, hiff.mpr ⟨hv.checksum, hv.notMulticast, fun h => Bool.noConfusion h, ?_⟩]
  rw [show len - nsBaseSize = ip6Plen b - 24 by omega]
  exact hv.options

theorem sendNaFor_sent {mcast : Bool} (hb : ¬ (mcast = true ∧ OtherMulticast b)) (s : BackState) :
    ∃ s', sendNaFor r b mcast s = .ok s' ∧ (Sent .sendNaBody s.io s'.io ↔
      (s.lMode = .l3 → GwBy s.gwMacV6Valid r.gw6 2) ∧
        (s.lMode ≠ .l3 → (r.ip6 (nsTarget b)).Resolves)) := by
  unfold sendNaFor
  split_ifs with hl
  · obtain ⟨s', hrun, hsent⟩ := sendGwNaLoop_sent (r := r) hb 2 0 s
    simp only [Nat.zero_add] at hsent
    exact ⟨s', hrun, hsent.trans ⟨fun h => ⟨fun _ => h, fun hn => absurd hl hn⟩, fun h => h.1 hl⟩⟩
  · have hiff := resolveMac_iff (r.ip6 (nsTarget b)) 0
    unfold sendProxyNa
    cases hres : resolveMac (r.ip6 (nsTarget b)) 0 with
    | mk ok mac =>
      rw [hres] at hiff
      cases ok with
      | false =>
        refine ⟨s, rfl, fun h => absurd h (not_sent_self rfl), fun h => ?_⟩
        exact absurd (hiff.mpr (h.2 hl)) Bool.false_ne_true
      | true =>
        obtain ⟨bytes, hbody, -⟩ := sendNaBody_write hb mac s
        refine ⟨(s.writeEg .sendNaBody bytes).stat .txProxyNa, ?_, fun _ =>
          ⟨fun hc => absurd hc hl, fun _ => hiff.mp rfl⟩, fun _ => ⟨_, rfl, rfl⟩⟩
        dsimp only
        rw [hbody]
        rfl

theorem NsRequest.vip_iff {s : BackState} (h : NsRequest s b len) (hf : FmmacOk s.ifEgress) :
    (s.vipMode = true ∧ hDest b = s.ifEgress.fmmac) ↔ ForVip s (nsTarget b) := by
  rw [h.dest, hf h.v6Enable, solicitedMac_eq_iff]
  rfl

theorem NsRequest.low_iff {s : BackState} (h : NsRequest s b len) :
    (hDest b 2 = 0xff ∧ (hDest b 3 ≠ s.ifEgress.sip6 13 ∨ hDest b 4 ≠ s.ifEgress.sip6 14 ∨
      hDest b 5 ≠ s.ifEgress.sip6 15)) ↔ ¬ SameLow (nsTarget b) s.ifEgress.sip6 := by
  rw [h.dest, SameLow, not_and_or, not_and_or]
  exact and_iff_right rfl

/-- **The solicitations that are answered.** -/
theorem macResolveEgress_ns {s : BackState} (hf : FmmacOk s.ifEgress) (h : NsRequest s b len)
    (hlim : len ≤ lim) :
    ∃ s', macResolveEgress lim r (hProto b) len b s = .ok (b, s') ∧ (Sent .sendNaBody s.io s'.io ↔
      LooksNs b len ∧ (ForVip s (nsTarget b) → nsTarget b = s.ifEgress.vip6) ∧
        (¬ ForVip s (nsTarget b) → ¬ SameLow (nsTarget b) s.ifEgress.sip6) ∧
          Resolvable6 s r 2 (nsTarget b)) := by
  have hplen := h.valid.plen
  have hlen := h.len
  have hbc : isBroadcast (hDest b) = false := h.dest ▸ isBroadcast_solicitedMac _
  have hv6 : isMulticastV6 (hDest b) = true := by
    rw [h.dest]
    rfl
  have hvip := h.vip_iff hf
  have hlow := h.low_iff
  have hother : ¬ (true = true ∧ OtherMulticast b) := fun ho => not_other_of_solicited h.dest ho.2
  obtain ⟨ns, hns, hnsiff⟩ := isIcmp6Ns_ok (b := b) (show 20 ≤ lim by omega) hlim
  rw [macResolveEgress, hbc, if_neg Bool.false_ne_true, if_pos ⟨h.proto, h.v6Enable, hv6⟩, hns]
  cases ns with
  | false =>
    refine ⟨_, rfl, fun hs => absurd hs (not_sent_self rfl), fun hc => ?_⟩
    exact Bool.noConfusion (hnsiff.mpr ⟨h.valid.nxt, hc.1⟩)
  | true =>
    have hl := (hnsiff.mp rfl).2
    change ∃ s', (if s.vipMode = true ∧ hDest b = s.ifEgress.fmmac then _ else _) = _ ∧ _
    by_cases hv : ForVip s (nsTarget b)
    · obtain ⟨v, hchk, hviff⟩ := checkValidNs_own h.valid h.len hlim hl s.ifEgress.vip6
      rw [if_pos (hvip.mpr hv)]
      rw [hchk]
      cases v with
      | false =>
        refine ⟨_, rfl, fun hs => absurd hs (not_sent_self rfl), fun hc => ?_⟩
        exact Bool.noConfusion (hviff.mpr (hc.2.1 hv))
      | true =>
        obtain ⟨s', hrun, hsent⟩ := sendGwNaLoop_sent (r := r) hother 2 0 s
        simp only [Nat.zero_add] at hsent
        refine ⟨s', ?_, hsent.trans ⟨fun hgw => ?_, fun hc => hc.2.2.2.1 (Or.inl hv)⟩⟩
        · change (sendGwNa r b true s >>= _) = _
          rw [sendGwNa, hrun]
          rfl
        · exact ⟨hl, fun _ => hviff.mp rfl, fun hn => absurd hv hn, fun _ => hgw,
            fun hn => absurd (Or.inl hv) hn⟩
    · rw [if_neg (fun hc => hv (hvip.mp hc))]
      by_cases hs : SameLow (nsTarget b) s.ifEgress.sip6
      · refine ⟨s.stat .rxDropEg, if_neg fun hc => hlow.mp hc hs,
          fun hs => absurd hs (not_sent_self rfl), fun hc => absurd hs (hc.2.2.1 hv)⟩
      · rw [if_pos (hlow.mpr hs), checkValidNs_proxy h.valid h.len hlim]
        obtain ⟨s', hrun, hsent⟩ := sendNaFor_sent (r := r) hother s
        refine ⟨s', ?_, hsent.trans ⟨fun hc => ?_, fun hc => ?_⟩⟩
        · change (sendNaFor r b true s >>= _) = _
          rw [hrun]
          rfl
        · exact ⟨hl, fun hn => absurd hn hv, fun _ => hs, fun hn => hc.1 (hn.resolve_left hv),
            fun hn => hc.2 fun h3 => hn (Or.inr h3)⟩
        · exact ⟨fun h3 => hc.2.2.2.1 (Or.inr h3),
            fun h3 => hc.2.2.2.2 fun hn => hn.elim hv h3⟩

theorem egress_ns {s : BackState} (hf : FmmacOk s.ifEgress) (h : NsRequest s b len)
    (hlim : len ≤ lim) (tsc : BitVec 64) :
    ∃ s', backEgress lim r tsc b len s = .ok (b, s') ∧ (Sent .sendNaBody s.io s'.io ↔
      LooksNs b len ∧ (ForVip s (nsTarget b) → nsTarget b = s.ifEgress.vip6) ∧
        (¬ ForVip s (nsTarget b) → ¬ SameLow (nsTarget b) s.ifEgress.sip6) ∧
          Resolvable6 s r 2 (nsTarget b)) := by
  have hlen := h.len
  have hmc : isMulticast (hDest b) = true := h.dest ▸ isMulticast_solicitedMac _
  obtain ⟨s', hrun, hsent⟩ := macResolveEgress_ns (r := r) (s := s.stat .rxPacketMcEg) hf
    ⟨h.1, h.2, h.3, h.4, h.5, h.6⟩ hlim
  refine ⟨s', ?_, hsent⟩
  rw [backEgress, if_pos (by omega), procEgressData, if_neg h.foreign, if_pos hmc, hrun]

end

/-! ## The requests that are answered wrongly -/

/-- A request for another host to a group of hosts, or of which the gateway is found in the last
round only. -/
def Missed4 (s : BackState) (r : Resolution) (b : Buf) : Prop :=
  Proxied4 s (arpTpa b) ∧ (ToGroup b ∨ (s.lMode = .l3 ∧ ¬ GwBy s.gwMacV4Valid r.gw4 2))

/-- The gateway is needed, and found in the last round only. -/
def Late6 (s : BackState) (r : Resolution) (b : Buf) : Prop :=
  (ForVip s (nsTarget b) ∨ s.lMode = .l3) ∧ ¬ GwBy s.gwMacV6Valid r.gw6 2

/-- A solicitation for another host whose payload length is a small multiple of `256`, whose target
is not the virtual address but has its low 24 bits, whose target has the low 24 bits of the
translator, or of which the gateway is found late. -/
def Missed6 (s : BackState) (r : Resolution) (b : Buf) : Prop :=
  Proxied6 s (nsTarget b) ∧
    ((ip6Plen b % 256 = 0 ∧ ip6Plen b < 6144) ∨
      (ForVip s (nsTarget b) ∧ nsTarget b ≠ s.ifEgress.vip6) ∨
      (¬ ForVip s (nsTarget b) ∧ SameLow (nsTarget b) s.ifEgress.sip6) ∨ Late6 s r b)

/-- A solicitation for the server or for the translator itself that no comparison stops. -/
def Exposed6 (s : BackState) (r : Resolution) (b : Buf) : Prop :=
  ¬ (ip6Plen b % 256 = 0 ∧ ip6Plen b < 6144) ∧ ¬ Late6 s r b ∧
    ((ForVip s (nsTarget b) ∧ nsTarget b = s.ifEgress.vip6 ∧
        (nsTarget b = s.ifEgress.sip6 ∨ nsTarget b = s.svrInfo.svrIp6)) ∨
      (¬ ForVip s (nsTarget b) ∧ nsTarget b = s.svrInfo.svrIp6 ∧
        ¬ SameLow (nsTarget b) s.ifEgress.sip6))

variable {s : BackState} {len : ℕ}

theorem not_proxied6_iff {a : In6Addr} :
    ¬ Proxied6 s a ↔ a = s.ifEgress.sip6 ∨ a = s.svrInfo.svrIp6 := by
  rw [Proxied6, not_and_or, not_not, not_not]

theorem answered4_iff (h : Resolvable4 s r 3 (arpTpa b)) :
    ((¬ ToGroup b ∧ Proxied4 s (arpTpa b) ∧ Resolvable4 s r 2 (arpTpa b)) ↔
      Proxied4 s (arpTpa b)) ↔ ¬ Missed4 s r b := by
  unfold Missed4
  constructor
  · rintro hiff ⟨hp, hg | ⟨hl, hgw⟩⟩
    · exact (hiff.mpr hp).1 hg
    · exact hgw ((hiff.mpr hp).2.2.1 hl)
  · intro hmiss
    refine ⟨fun h => h.2.1, fun hp => ⟨fun hg => hmiss ⟨hp, Or.inl hg⟩, hp, fun hl => ?_, h.2⟩⟩
    by_contra hgw
    exact hmiss ⟨hp, Or.inr ⟨hl, hgw⟩⟩

theorem answered6_iff (h : Resolvable6 s r 3 (nsTarget b)) :
    ((¬ (ip6Plen b % 256 = 0 ∧ ip6Plen b < 6144) ∧
        (ForVip s (nsTarget b) → nsTarget b = s.ifEgress.vip6) ∧
        (¬ ForVip s (nsTarget b) → ¬ SameLow (nsTarget b) s.ifEgress.sip6) ∧
          Resolvable6 s r 2 (nsTarget b)) ↔ Proxied6 s (nsTarget b)) ↔
      ¬ Missed6 s r b ∧ ¬ Exposed6 s r b := by
  have hnp : ¬ Proxied6 s (nsTarget b) ↔ _ := not_proxied6_iff
  have hres : Resolvable6 s r 2 (nsTarget b) ↔ ¬ Late6 s r b := by
    unfold Resolvable6 Late6
    rw [not_and, not_not]
    exact and_iff_left h.2
  have hlow : nsTarget b = s.ifEgress.sip6 → SameLow (nsTarget b) s.ifEgress.sip6 := by
    intro heq
    rw [heq]
    exact ⟨rfl, rfl, rfl⟩
  rw [hres, Missed6, Exposed6]
  by_cases hshort : ip6Plen b % 256 = 0 ∧ ip6Plen b < 6144
  · simp [hshort]
  by_cases hlate : Late6 s r b
  · simp [hlate]
  -- the answer now depends on the branch alone
  by_cases hv : ForVip s (nsTarget b)
  · simp only [hshort, hlate, hv, not_true_eq_false, not_false_eq_true, false_implies, true_implies,
      true_and, and_true, false_and, false_or, or_false, ← hnp]
    exact iff_def'.trans (and_congr not_and_not_right.symm not_and_not_right.symm)
  · simp only [hshort, hlate, hv, not_false_eq_true, false_implies, true_implies, true_and,
      and_true, false_and, false_or, or_false]
    refine iff_def'.trans (and_congr not_and.symm ?_)
    rw [← not_and_not_right, hnp]
    exact not_congr ⟨fun h => ⟨h.2.resolve_left fun he => h.1 (hlow he), h.1⟩,
      fun h => ⟨h.2, Or.inr h.1⟩⟩

/-- **The proxy answers decide on the whole target, but for the requests that are missed and those
that are exposed.** -/
theorem proxy_answers_iff {boot : BackBoot} {lim : ℕ} (h : BackRun boot s) (hlim : len ≤ lim)
    (r : Resolution) (tsc : BitVec 64) (b : Buf) :
    (ArpRequest s b len → Resolvable4 s r 3 (arpTpa b) →
      ∃ b' s', backEgress lim r tsc b len s = .ok (b', s') ∧
        ((Sent .arpProxyBody s.io s'.io ↔ Proxied4 s (arpTpa b)) ↔ ¬ Missed4 s r b)) ∧
    (NsRequest s b len → Resolvable6 s r 3 (nsTarget b) →
      ∃ b' s', backEgress lim r tsc b len s = .ok (b', s') ∧
        ((Sent .sendNaBody s.io s'.io ↔ Proxied6 s (nsTarget b)) ↔
          ¬ Missed6 s r b ∧ ¬ Exposed6 s r b)) := by
  constructor
  · intro hreq hres
    obtain ⟨b', s', hrun, hsent⟩ := egress_arp (r := r) hreq lim tsc
    refine ⟨b', s', hrun, ?_⟩
    rw [hsent]
    exact answered4_iff hres
  · intro hreq hres
    obtain ⟨s', hrun, hsent⟩ := egress_ns (r := r) h.settled.fmmacEg hreq hlim tsc
    refine ⟨b, s', hrun, ?_⟩
    rw [hsent, hreq.valid.looksNs_iff hreq.len]
    exact answered6_iff hres

end

/-! ## A server with both families -/

/-- `inet_pton`, with two IPv6 addresses. -/
def ptonBoth : InetPton where
  v4 := dottedQuad
  v6 s :=
    if s = bytesOf "fd00::1" then some sampleVip6
    else if s = bytesOf "fd00::2" then some ![0xfd, 0, 0, 0, 0, 0, 0, 0, 0, 0, 0, 0, 0, 0, 0, 2]
    else none
  dotted := dottedQuad_dotted
  colons s a h := by
    split_ifs at h with h1 h2
    · exact ⟨by rw [h1]; decide, by rw [h1]; decide⟩
    · exact ⟨by rw [h2]; decide, by rw [h2]; decide⟩

/-- The sample, with an IPv6 address of the server as well. -/
def sampleBoot6 (svrIp6 : String) : BackBoot :=
  { sampleBoot with
    host := { sampleHost with pton := ptonBoth }
    props := [(keySvrIp4, bytesOf "10.1.0.2"), (keySvrIp6, bytesOf svrIp6)] }

/-- An ARP request of the server for `10.1.0.5`. -/
def sampleArpEg : Buf := fun i =>
  ([255, 255, 255, 255, 255, 255, 2, 0, 0, 0, 1, 2, 8, 6, 0, 1, 8, 0, 6, 4, 0, 1,
    2, 0, 0, 0, 1, 2, 10, 1, 0, 2, 0, 0, 0, 0, 0, 0, 10, 1, 0, 5] : List Byte).getD i 0

theorem sampleArpEg_request : ArpRequest (sampleBoot6 "fd00::2").start sampleArpEg 60 :=
  ⟨by decide +kernel, by decide +kernel, by decide, by decide, by decide⟩

theorem sampleNsShort_request {svrIp6 : String}
    (hen : (sampleBoot6 svrIp6).start.ifEgress.v6Enable = true)
    (hmac : hSource sampleNsShort ≠ (sampleBoot6 svrIp6).start.ifEgress.mac) :
    NsRequest (sampleBoot6 svrIp6).start sampleNsShort 86 :=
  ⟨hen, hmac, by decide, by decide, by decide,
    by rw [show nsTarget sampleNsShort = sampleVip6 by decide]; exact sampleNsShort_valid⟩

/-- A request for another host is answered, with the gateway that is known from the start. -/
theorem proxy_answers_iff_sample :
    (∃ b' s', backEgress 1520 sampleResolution0 0 sampleArpEg 60 (sampleBoot6 "fd00::2").start =
      .ok (b', s') ∧ Sent .arpProxyBody (sampleBoot6 "fd00::2").start.io s'.io) ∧
    ∃ b' s', backEgress 1520 sampleResolution0 0 sampleNsShort 86 (sampleBoot6 "fd00::2").start =
      .ok (b', s') ∧ Sent .sendNaBody (sampleBoot6 "fd00::2").start.io s'.io := by
  have h4 : GwBy (sampleBoot6 "fd00::2").start.gwMacV4Valid sampleResolution0.gw4 2 :=
    Or.inl (by decide +kernel)
  have h6 : GwBy (sampleBoot6 "fd00::2").start.gwMacV6Valid sampleResolution0.gw6 2 :=
    Or.inl (by decide +kernel)
  have hl : (sampleBoot6 "fd00::2").start.lMode = .l3 := by decide +kernel
  constructor
  · obtain ⟨b', s', hrun, hiff⟩ := (proxy_answers_iff .init (show _ ≤ 1520 by decide)
      sampleResolution0 0 sampleArpEg).1 sampleArpEg_request
        ⟨fun _ => h4.mono (by decide), fun hn => absurd hl hn⟩
    refine ⟨b', s', hrun, (hiff.mpr ?_).mpr (by decide +kernel)⟩
    rintro ⟨-, hg | ⟨-, hgw⟩⟩
    · exact absurd hg (by decide)
    · exact hgw h4
  · have hv : ¬ ForVip (sampleBoot6 "fd00::2").start (nsTarget sampleNsShort) := by
      decide +kernel
    obtain ⟨b', s', hrun, hiff⟩ := (proxy_answers_iff .init (show _ ≤ 1520 by decide)
      sampleResolution0 0 sampleNsShort).2
        (sampleNsShort_request (by decide +kernel) (by decide +kernel))
        ⟨fun _ => h6.mono (by decide), fun hn => absurd (Or.inr hl) hn⟩
    refine ⟨b', s', hrun, (hiff.mpr ⟨?_, ?_⟩).mpr (by decide +kernel)⟩
    · rintro ⟨-, hshort | hvip | hlow | hlate⟩
      · exact absurd hshort (by decide)
      · exact hv hvip.1
      · exact absurd hlow.2 (by decide +kernel)
      · exact hlate.2 h6
    · rintro ⟨-, -, hvip | hsvr⟩
      · exact hv hvip.1
      · exact absurd hsvr.2.1 (by decide +kernel)

/-- A solicitation for the server itself is answered, with the MAC address of the gateway. -/
theorem proxy_answers_exposed :
    BackRun (sampleBoot6 "fd00::1") (sampleBoot6 "fd00::1").start ∧
    NsRequest (sampleBoot6 "fd00::1").start sampleNsShort 86 ∧
    Resolvable6 (sampleBoot6 "fd00::1").start sampleResolution0 2 (nsTarget sampleNsShort) ∧
    nsTarget sampleNsShort = (sampleBoot6 "fd00::1").start.svrInfo.svrIp6 ∧
    ∃ b' s', backEgress 1520 sampleResolution0 0 sampleNsShort 86 (sampleBoot6 "fd00::1").start =
      .ok (b', s') ∧ Sent .sendNaBody (sampleBoot6 "fd00::1").start.io s'.io := by
  have hreq : NsRequest (sampleBoot6 "fd00::1").start sampleNsShort 86 :=
    sampleNsShort_request (by decide +kernel) (by decide +kernel)
  have hl : (sampleBoot6 "fd00::1").start.lMode = .l3 := by decide +kernel
  have hv : ¬ ForVip (sampleBoot6 "fd00::1").start (nsTarget sampleNsShort) := by decide +kernel
  have hres : Resolvable6 (sampleBoot6 "fd00::1").start sampleResolution0 2
      (nsTarget sampleNsShort) :=
    ⟨fun _ => Or.inl (by decide +kernel), fun hn => absurd (Or.inr hl) hn⟩
  obtain ⟨s', hrun, hsent⟩ := egress_ns (r := sampleResolution0)
    (show BackRun (sampleBoot6 "fd00::1") _ from .init).settled.fmmacEg hreq
      (show 86 ≤ 1520 by decide) 0
  refine ⟨.init, hreq, hres, by decide +kernel, _, s', hrun, hsent.mpr ⟨?_, ?_, ?_, hres⟩⟩
  · exact (hreq.valid.looksNs_iff hreq.len).mpr (by decide)
  · exact fun h => absurd h hv
  · exact fun _ => by decide +kernel

end Sasat
