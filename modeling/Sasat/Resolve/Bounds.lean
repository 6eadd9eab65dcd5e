import Sasat.Resolve.Accept

/-!
# Which frames are read beyond their end

A frame of `len` bytes is handled with `len` readable bytes. What `get_icmp6_ns`, `check_valid_ns`
and `icmpv6_sum` read beyond them is a fault.

* `InFrame`: a call that makes no such access.
* `Asks`, `Checks`: the frames that come to `get_icmp6_ns`, and from there to `check_valid_ns`.
* `Within`: the ones whose payload length, and whose payload if it is summed, lie in the frame.
* **`inFrame_dispatch`**: what the three dispatchers have in common.
* **`ns_reads_inside_iff`**: they read inside the frame exactly when it is `Within`.
-/

namespace Sasat

open Outcome

/-- No access beyond the readable bytes of a frame is made. -/
def InFrame {α : Type} : M α → Prop := Avoids fun e => ∃ o, e = .read o

section

variable {α β : Type} {x y : M α}

theorem inFrame_ok (a : α) : InFrame (.ok a) := avoids_ok a

theorem not_inFrame_read (o : ℕ) : ¬ InFrame (.error (.read o) : M α) := by
  intro h
  exact avoids_error.mp h ⟨o, rfl⟩

theorem inFrame_dangling : InFrame (.error .dangling : M α) := avoids_error.mpr (by simp)

theorem inFrame_endless : InFrame (.error .endless : M α) := avoids_error.mpr (by simp)

theorem not_inFrame_bind {f : α → M β} {o : ℕ} (h : x = .error (.read o)) :
    ¬ InFrame (x >>= f) := by
  subst h
  exact not_inFrame_read o

end

/-! ## The conditions -/

/-- The frame comes to `get_icmp6_ns`: multicasts under `mc`, unicasts that are longer than the
IPv6 header. -/
def Asks (own : Mac) (mc : Prop) (b : Buf) (len : ℕ) : Prop :=
  hSource b ≠ own ∧ hProto b = ethPIpv6 ∧ ip6Nxt b = 58 ∧
    ((isMulticast (hDest b) = true ∧ isBroadcast (hDest b) = false ∧ mc) ∨
      (isMulticast (hDest b) = false ∧ 54 < len))

/-- What looks like a solicitation comes to `check_valid_ns`: multicasts under `mc`, unicasts
under `uc`. -/
def Checks (mc uc : Prop) (b : Buf) : Prop :=
  (isMulticast (hDest b) = true ∧ mc) ∨ (isMulticast (hDest b) = false ∧ uc)

/-- What is read of the frame lies inside it: the payload length where it is asked for, and the
payload where it is summed. -/
structure Within (asks checks : Prop) (b : Buf) (len : ℕ) : Prop where
  header : asks → 20 ≤ len
  payload : asks → LooksNs b len → checks → ReachesSum b → 54 + ip6Plen b ≤ len

theorem within_iff {asks checks : Prop} {b : Buf} {len : ℕ} : Within asks checks b len ↔
    (asks → 20 ≤ len ∧ (LooksNs b len → checks → ReachesSum b → 54 + ip6Plen b ≤ len)) :=
  ⟨fun h ha => ⟨h.header ha, h.payload ha⟩, fun h => ⟨fun ha => (h ha).1, fun ha => (h ha).2⟩⟩

variable {len : ℕ} {b : Buf}

/-! ## The reads of a solicitation -/

theorem isIcmp6Ns_inFrame : InFrame (isIcmp6Ns len b len) ↔ (ip6Nxt b = 58 → 20 ≤ len) := by
  unfold isIcmp6Ns
  by_cases hn : ip6Nxt b = 58
  · rw [if_pos hn]
    by_cases h20 : 20 ≤ len
    · obtain ⟨r, hr, -⟩ := getIcmp6Ns_ok (b := b) h20 le_rfl
      rw [hr]
      exact ⟨fun _ _ => h20, fun _ => inFrame_ok r⟩
    · rw [getIcmp6Ns_fault (by omega)]
      exact ⟨fun h => absurd h (not_inFrame_read _), fun h => absurd (h hn) h20⟩
  · rw [if_neg hn]
    exact ⟨fun _ h => absurd h hn, fun _ => inFrame_ok _⟩

theorem isIcmp6Ns_bind {α : Type} {f : Bool → M α} (hf : InFrame (f false)) :
    InFrame (isIcmp6Ns len b len >>= f) ↔
      (ip6Nxt b = 58 → 20 ≤ len ∧ (LooksNs b len → InFrame (f true))) := by
  refine avoids_bind.trans ?_
  rw [show Avoids _ (isIcmp6Ns len b len) ↔ _ from isIcmp6Ns_inFrame]
  constructor
  · rintro ⟨h20, hrest⟩ hn
    obtain ⟨r, hr, hiff⟩ := isIcmp6Ns_ok (b := b) (h20 hn) le_rfl
    refine ⟨h20 hn, fun hl => ?_⟩
    obtain rfl := hiff.mpr ⟨hn, hl⟩
    exact hrest true hr
  · intro hyp
    refine ⟨fun hn => (hyp hn).1, fun r hr => ?_⟩
    cases r with
    | false => exact hf
    | true =>
      by_cases hn : ip6Nxt b = 58
      · obtain ⟨r, hr', hiff⟩ := isIcmp6Ns_ok (b := b) (hyp hn).1 le_rfl
        rw [hr] at hr'
        cases hr'
        exact (hyp hn).2 (hiff.mp rfl).2
      · rw [isIcmp6Ns, if_neg hn] at hr
        cases hr

theorem checkValidNs_bind {α : Type} {f : Bool → M α} (ipaddr : In6Addr) (proxyMode : Bool)
    (hl : LooksNs b len) (hf : ∀ v, InFrame (f v)) :
    InFrame (checkValidNs len b ipaddr proxyMode (len - nsBaseSize) >>= f) ↔
      (ReachesSum b → 54 + ip6Plen b ≤ len) := by
  have hbase := hl.2.1
  by_cases hr : ReachesSum b
  · by_cases hp : 54 + ip6Plen b ≤ len
    · obtain ⟨r, hrun, -⟩ := checkValidNs_ok ipaddr proxyMode hr
        (show nsBaseSize + (len - nsBaseSize) ≤ len by omega) hp
      rw [hrun]
      exact ⟨fun _ _ => hp, fun _ => hf r⟩
    · obtain ⟨o, ho⟩ := checkValidNs_fault ipaddr proxyMode (len - nsBaseSize) hr
        hbase (show len < 54 + ip6Plen b by omega)
      exact ⟨fun h => absurd h (not_inFrame_bind ho), fun h => absurd (h hr) hp⟩
  · rw [checkValidNs_drop hbase hr]
    exact ⟨fun _ h => absurd h hr, fun _ => hf false⟩

/-! ## The handlers of `arp_proc.c` -/

section

variable {S : Type} [DecidableEq S] (st : ArpStats S) (ifd : Ifdata) (io : Io S)

theorem sendIcmp6Na_inFrame (mcast : Bool) : InFrame (sendIcmp6Na st ifd b mcast io) := by
  obtain ⟨io', h, -⟩ := sendIcmp6Na_ok st ifd b mcast io
  rw [h]
  exact inFrame_ok io'

variable (b len) in
theorem macResolve_inFrame (prot : BitVec 16) : InFrame (macResolve st len ifd prot len b io) ↔
    (isBroadcast (hDest b) = false → prot = ethPIpv6 ∧ ifd.v6Enable = true ∧ ifd.fmmac = hDest b →
      ip6Nxt b = 58 → 20 ≤ len ∧ (LooksNs b len → ReachesSum b → 54 + ip6Plen b ≤ len)) := by
  unfold macResolve
  by_cases hb : isBroadcast (hDest b) = true
  · rw [if_pos hb, hb]
    exact ⟨fun _ h => Bool.noConfusion h, fun _ => .ite (inFrame_ok _) (inFrame_ok _)⟩
  · rw [if_neg hb, Bool.not_eq_true] at *
    rw [hb]
    by_cases hc : prot = ethPIpv6 ∧ ifd.v6Enable = true ∧ ifd.fmmac = hDest b
    · rw [if_pos hc]
      refine (isIcmp6Ns_bind (by exact inFrame_ok _)).trans ?_
      have hvalid := fun hl : LooksNs b len => checkValidNs_bind ifd.vip6 false
        (f := fun valid => if valid then sendIcmp6Na st ifd b true io >>=
          fun io => .ok (b, io) else .ok (b, io.stat st.rxDrop)) hl fun v =>
            .ite (.bind (sendIcmp6Na_inFrame st ifd io true) fun _ => inFrame_ok _) (inFrame_ok _)
      constructor
      · intro h _ _ hn
        exact ⟨(h hn).1, fun hl => (hvalid hl).mp ((h hn).2 hl)⟩
      · intro h hn
        exact ⟨(h rfl hc hn).1, fun hl => (hvalid hl).mpr ((h rfl hc hn).2 hl)⟩
    · rw [if_neg hc]
      exact ⟨fun _ _ h => absurd h hc, fun _ => inFrame_ok _⟩

theorem macResolveUc6_inFrame (hl : LooksNs b len) : InFrame (macResolveUc6 st len ifd len b io) ↔
    (ifd.v6Enable = true ∧ ip6Dst b = ifd.vip6 → ReachesSum b → 54 + ip6Plen b ≤ len) := by
  unfold macResolveUc6
  by_cases hc : ifd.v6Enable = false ∨ ip6Dst b ≠ ifd.vip6
  · rw [if_pos hc]
    refine ⟨fun _ h => ?_, fun _ => inFrame_ok _⟩
    rcases hc with hc | hc
    · rw [hc] at h
      exact absurd h.1 Bool.false_ne_true
    · exact absurd h.2 hc
  · rw [if_neg hc, checkValidNs_bind _ _ hl fun v =>
      .ite (sendIcmp6Na_inFrame st ifd io false) (inFrame_ok _)]
    rw [not_or, Bool.not_eq_false, not_not] at hc
    exact ⟨fun h _ => h, fun h => h hc⟩

end

/-! ## The three dispatchers -/

/-- **What the dispatchers have in common**: `mcast` handles multicasts, `uc` what looks like a
unicast solicitation, `other` other IPv6 packets. -/
theorem inFrame_dispatch {α : Type} {own : Mac} {mcA mcC ucC : Prop}
    {start mcast v4 uc other short rest : M α} (hstart : InFrame start) (hv4 : InFrame v4)
    (hother : InFrame other) (hshort : InFrame short) (hrest : InFrame rest)
    (hmc : InFrame mcast ↔ (isBroadcast (hDest b) = false → hProto b = ethPIpv6 ∧ mcA →
      ip6Nxt b = 58 → 20 ≤ len ∧ (LooksNs b len → mcC → ReachesSum b → 54 + ip6Plen b ≤ len)))
    (huc : LooksNs b len → (InFrame uc ↔ (ucC → ReachesSum b → 54 + ip6Plen b ≤ len))) :
    InFrame (if hSource b = own then start
      else if isMulticast (hDest b) then mcast
      else if hProto b = ethPIp then v4
      else if hProto b = ethPIpv6 then
        if 54 < len then isIcmp6Ns len b len >>= fun ns => if ns then uc else other else short
      else rest) ↔ Within (Asks own mcA b len) (Checks mcC ucC b) b len := by
  rw [within_iff]
  by_cases hown : hSource b = own
  · rw [if_pos hown]
    exact ⟨fun _ h => absurd hown h.1, fun _ => hstart⟩
  rw [if_neg hown]
  by_cases hm : isMulticast (hDest b) = true
  · have hasks : Asks own mcA b len ↔
        hProto b = ethPIpv6 ∧ ip6Nxt b = 58 ∧ isBroadcast (hDest b) = false ∧ mcA := by
      simp [Asks, hown, hm]
    have hchecks : Checks mcC ucC b ↔ mcC := by simp [Checks, hm]
    rw [if_pos hm, hmc, hasks, hchecks]
    constructor
    · rintro h ⟨hp, hn, hb, ha⟩
      exact h hb ⟨hp, ha⟩ hn
    · rintro h hb ⟨hp, ha⟩ hn
      exact h ⟨hp, hn, hb, ha⟩
  · have hasks : Asks own mcA b len ↔ hProto b = ethPIpv6 ∧ ip6Nxt b = 58 ∧ 54 < len := by
      simp [Asks, hown, hm]
    have hchecks : Checks mcC ucC b ↔ ucC := by simp [Checks, hm]
    rw [if_neg hm, hasks, hchecks]
    by_cases h4 : hProto b = ethPIp
    · rw [if_pos h4]
      exact ⟨fun _ h => absurd (h.1.symm.trans h4) (by decide), fun _ => hv4⟩
    rw [if_neg h4]
    by_cases h6 : hProto b = ethPIpv6
    · rw [if_pos h6]
      by_cases h54 : 54 < len
      · rw [if_pos h54]
        refine (isIcmp6Ns_bind (by exact hother)).trans ?_
        constructor
        · rintro h ⟨-, hn, -⟩
          exact ⟨(h hn).1, fun hl => (huc hl).mp ((h hn).2 hl)⟩
        · intro h hn
          have hall := h ⟨h6, hn, h54⟩
          exact ⟨hall.1, fun hl => (huc hl).mpr (hall.2 hl)⟩
      · rw [if_neg h54]
        exact ⟨fun _ h => absurd h.2.2 h54, fun _ => hshort⟩
    · rw [if_neg h6]
      exact ⟨fun _ h => absurd h.1 h6, fun _ => hrest⟩

/-! ## The front translator -/

theorem deref_inFrame {α : Type} (heap : Ptr → Option α) (p : Ptr) : InFrame (deref heap p) := by
  unfold deref
  cases heap p with
  | none => exact inFrame_dangling
  | some a => exact inFrame_ok a

section

variable {n : ℕ} {D : Type} (o : ℕ → MacOutcomes) (tsc : BitVec 64) (saddr : Fin n → Byte)

theorem policyLookup_inFrame (s : PolSide n D) (ps : List Ptr) :
    InFrame (policyLookup o saddr s ps) := by
  induction ps with
  | nil => exact inFrame_ok _
  | cons p ps ih =>
    refine .bind (deref_inFrame _ _) fun pol => .ite ?_ ih
    exact .bind (deref_inFrame _ _) fun svr => inFrame_ok _

theorem getPol_inFrame (F : Family n D) (s : PolSide n D) : InFrame (getPol F o tsc saddr s) := by
  unfold getPol
  split
  · exact inFrame_endless
  · refine .bind (policyLookup_inFrame o saddr s _) fun ⟨f, s⟩ => ?_
    cases f with
    | none => exact inFrame_ok _
    | some p =>
      exact .bind (deref_inFrame _ _) fun _ => .bind (deref_inFrame _ _) fun _ => inFrame_ok _
  · exact .bind (deref_inFrame _ _) fun _ => .bind (deref_inFrame _ _) fun _ => inFrame_ok _

end

theorem procV4_inFrame (o : ℕ → MacOutcomes) (tsc : BitVec 64) (len' : ℕ) (s : FrontState) :
    InFrame (procV4 o tsc b len' s) := by
  refine .ite (inFrame_ok _)
    (.bind (.bind (getPol_inFrame o tsc _ _ _) fun _ => inFrame_ok _) fun ⟨e, s⟩ => ?_)
  cases e with
  | none => exact inFrame_ok _
  | some e => exact inFrame_ok _

theorem procV6_inFrame (o : ℕ → MacOutcomes) (tsc : BitVec 64) (len' : ℕ) (s : FrontState) :
    InFrame (procV6 o tsc b len' s) := by
  refine .ite (inFrame_ok _)
    (.bind (.bind (getPol_inFrame o tsc _ _ _) fun _ => inFrame_ok _) fun ⟨e, s⟩ => ?_)
  cases e with
  | none => exact inFrame_ok _
  | some e => exact inFrame_ok _

/-! ## The backend -/

theorem getCi_inFrame {A : Type} [Zero A] [DecidableEq A] (hash : A → CiBucket) (tsc : BitVec 64)
    (a : A) (t : CiTable A) : InFrame (t.getCi hash tsc a) := by
  unfold CiTable.getCi
  split
  · exact inFrame_endless
  · exact inFrame_ok _
  · refine .bind ?_ fun _ => inFrame_ok _
    unfold CiTable.creCi
    split
    · exact inFrame_ok _
    · split
      · exact inFrame_ok _
      · exact inFrame_dangling

section

variable (r : Resolution) (tsc : BitVec 64) (b : Buf) (len' : ℕ) (mcast : Bool) (s : BackState)

theorem procV4In_inFrame : InFrame (procV4In r tsc b len' s) :=
  .ite (inFrame_ok _)
    (.bind (.bind (getCi_inFrame _ _ _ _) fun _ => inFrame_ok _) fun _ => inFrame_ok _)

theorem procV6In_inFrame : InFrame (procV6In r tsc b len' s) :=
  .ite (inFrame_ok _)
    (.bind (.bind (getCi_inFrame _ _ _ _) fun _ => inFrame_ok _) fun _ => inFrame_ok _)

theorem procV4Eg_inFrame : InFrame (procV4Eg r tsc b len' s) := by
  have hci : ∀ a, InFrame (getCiDwn4 tsc a s.clientInfo) := fun _ =>
    .bind (getCi_inFrame _ _ _ _) fun _ => inFrame_ok _
  refine .ite (.bind (hci _) fun _ => inFrame_ok _) (.bind (hci _) fun _ => ?_)
  exact .ite (.ite (inFrame_ok _) (inFrame_ok _)) (inFrame_ok _)

theorem procV6Eg_inFrame : InFrame (procV6Eg r tsc b len' s) := by
  have hci : ∀ a, InFrame (getCiDwn6 tsc a s.clientInfo) := fun _ =>
    .bind (getCi_inFrame _ _ _ _) fun _ => inFrame_ok _
  refine .ite (.bind (hci _) fun _ => inFrame_ok _) (.bind (hci _) fun _ => ?_)
  exact .ite (.ite (inFrame_ok _) (inFrame_ok _)) (inFrame_ok _)

theorem sendNaBody_inFrame (mac : Mac) : InFrame (sendNaBody b mcast mac s) := by
  obtain ⟨bytes, h⟩ := naFrame_ok (hSource b) mac (nsTarget b) (ip6Src b) mcast
  unfold sendNaBody
  rw [h]
  exact .ite (inFrame_ok _) (inFrame_ok _)

theorem sendGwNaLoop_inFrame (k i : ℕ) : InFrame (sendGwNaLoop r b mcast k i s) := by
  induction k generalizing i s with
  | zero => exact inFrame_ok _
  | succ k ih => exact .ite (.bind (sendNaBody_inFrame b mcast s _) fun _ => inFrame_ok _) (ih _ _)

theorem sendGwNa_inFrame : InFrame (sendGwNa r b mcast s) := sendGwNaLoop_inFrame r b mcast s 3 0

theorem sendNaFor_inFrame : InFrame (sendNaFor r b mcast s) := by
  refine .ite (sendGwNa_inFrame r b mcast s) ?_
  unfold sendProxyNa
  split
  · exact inFrame_ok _
  · exact .bind (sendNaBody_inFrame b mcast s _) fun _ => inFrame_ok _

/-- The multicast solicitations that `mac_resolve_egress` checks: for the virtual address, or for an
address with other last bytes than its own. -/
def EgressMc (b : Buf) (s : BackState) : Prop :=
  (s.vipMode = true ∧ hDest b = s.ifEgress.fmmac) ∨
    (hDest b 2 = 0xff ∧ (hDest b 3 ≠ s.ifEgress.sip6 13 ∨ hDest b 4 ≠ s.ifEgress.sip6 14 ∨
      hDest b 5 ≠ s.ifEgress.sip6 15))

theorem gated_inFrame {α : Type} {c d P : Prop} [Decidable c] [Decidable d] {x y z : M α}
    (hx : InFrame x ↔ P) (hy : InFrame y ↔ P) (hz : InFrame z) :
    InFrame (if c then x else if d then y else z) ↔ (c ∨ d → P) := by
  split_ifs with hc hd
  · exact hx.trans ⟨fun h _ => h, fun h => h (Or.inl hc)⟩
  · exact hy.trans ⟨fun h _ => h, fun h => h (Or.inr hd)⟩
  · exact ⟨fun _ h => absurd h (not_or.mpr ⟨hc, hd⟩), fun _ => hz⟩

theorem macResolveEgress_inFrame (prot : BitVec 16) :
    InFrame (macResolveEgress len r prot len b s) ↔ (isBroadcast (hDest b) = false →
      prot = ethPIpv6 ∧ s.ifEgress.v6Enable = true ∧ isMulticastV6 (hDest b) = true →
        ip6Nxt b = 58 → 20 ≤ len ∧
          (LooksNs b len → EgressMc b s → ReachesSum b → 54 + ip6Plen b ≤ len)) := by
  unfold macResolveEgress
  by_cases hb : isBroadcast (hDest b) = true
  · rw [if_pos hb, hb]
    exact ⟨fun _ h => Bool.noConfusion h, fun _ => .ite (inFrame_ok _) (inFrame_ok _)⟩
  rw [if_neg hb]
  rw [Bool.not_eq_true] at hb
  by_cases hc : prot = ethPIpv6 ∧ s.ifEgress.v6Enable = true ∧ isMulticastV6 (hDest b) = true
  · rw [if_pos hc]
    refine (isIcmp6Ns_bind (by exact inFrame_ok _)).trans ?_
    have hend : ∀ {x : M BackState} (v : Bool), InFrame x →
        InFrame (if v then x >>= fun s => .ok (b, s) else .ok (b, s.stat .rxDropEg)) :=
      fun v hx => .ite (.bind hx fun _ => inFrame_ok _) (inFrame_ok _)
    have hchecks := fun hl : LooksNs b len => gated_inFrame
      (c := s.vipMode ∧ hDest b = s.ifEgress.fmmac)
      (d := hDest b 2 = 0xff ∧ (hDest b 3 ≠ s.ifEgress.sip6 13 ∨ hDest b 4 ≠ s.ifEgress.sip6 14 ∨
        hDest b 5 ≠ s.ifEgress.sip6 15))
      (checkValidNs_bind s.ifEgress.vip6 false hl
        fun v => hend v (sendGwNa_inFrame r b true s))
      (checkValidNs_bind 0 true hl fun v => hend v (sendNaFor_inFrame r b true s))
      (inFrame_ok (b, s.stat .rxDropEg))
    constructor
    · intro h _ _ hn
      exact ⟨(h hn).1, fun hl => (hchecks hl).mp ((h hn).2 hl)⟩
    · intro h hn
      exact ⟨(h hb hc hn).1, fun hl => (hchecks hl).mpr ((h hb hc hn).2 hl)⟩
  · rw [if_neg hc]
    exact ⟨fun _ _ h => absurd h hc, fun _ => inFrame_ok _⟩

theorem macResolveUc6Egress_inFrame (hl : LooksNs b len) :
    InFrame (macResolveUc6Egress len r len b s) ↔
      (s.ifEgress.v6Enable = true ∧ (hDest b = s.ifEgress.mac → s.vipMode = true) →
        ReachesSum b → 54 + ip6Plen b ≤ len) := by
  have hvip := checkValidNs_bind s.ifEgress.vip6 false hl
    (f := fun valid => if valid then sendGwNa r b false s else .ok s)
    fun v => .ite (sendGwNa_inFrame r b false s) (inFrame_ok s)
  have hproxy := checkValidNs_bind 0 true hl
    (f := fun valid => if valid then sendNaFor r b false s else .ok s)
    fun v => .ite (sendNaFor_inFrame r b false s) (inFrame_ok s)
  unfold macResolveUc6Egress
  split_ifs with h6 hmac hv
  · exact ⟨fun _ h => absurd (h6.symm.trans h.1) Bool.false_ne_true, fun _ => inFrame_ok _⟩
  · exact hvip.trans ⟨fun h _ => h, fun h => h ⟨eq_true_of_ne_false h6, fun _ => hv⟩⟩
  · exact ⟨fun _ h => absurd (h.2 hmac) hv, fun _ => inFrame_ok _⟩
  · exact hproxy.trans ⟨fun h _ => h, fun h => h ⟨eq_true_of_ne_false h6, fun h => absurd h hmac⟩⟩

end

/-! ## The frames that are read inside -/

/-- The frames that the front translator reads inside. -/
def FrontWithin (s : FrontState) (b : Buf) (len : ℕ) : Prop :=
  Within
    (Asks s.ifIngress.mac
      (s.vipMode = true ∧ s.ifIngress.v6Enable = true ∧ s.ifIngress.fmmac = hDest b) b len)
    (Checks True (s.vipMode = true ∧ s.ifIngress.v6Enable = true ∧ ip6Dst b = s.ifIngress.vip6) b)
    b len

/-- The frames that the backend reads inside on its ingress side. -/
def IngressWithin (s : BackState) (b : Buf) (len : ℕ) : Prop :=
  Within (Asks s.ifIngress.mac (s.ifIngress.v6Enable = true ∧ s.ifIngress.fmmac = hDest b) b len)
    (Checks True (s.vipMode = true ∧ s.ifIngress.v6Enable = true ∧ ip6Dst b = s.ifIngress.vip6) b)
    b len

/-- The frames that the backend reads inside on its egress side. -/
def EgressWithin (s : BackState) (b : Buf) (len : ℕ) : Prop :=
  Within (Asks s.ifEgress.mac (s.ifEgress.v6Enable = true ∧ isMulticastV6 (hDest b) = true) b len)
    (Checks (EgressMc b s)
      (s.ifEgress.v6Enable = true ∧ (hDest b = s.ifEgress.mac → s.vipMode = true)) b) b len

theorem procRecvData_inFrame (o : ℕ → MacOutcomes) (tsc : BitVec 64) (b : Buf) (len : ℕ)
    (s : FrontState) : InFrame (procRecvData len o tsc b len s) ↔ FrontWithin s b len := by
  have hmac := macResolve_inFrame len b frontArpStats s.ifIngress (s.io.stat .rxPacketMc) (hProto b)
  refine inFrame_dispatch (inFrame_ok _) (.ite (procV4_inFrame o tsc len _) (inFrame_ok _))
    (procV6_inFrame o tsc len _) (inFrame_ok _)
    (.ite (.ite (inFrame_ok _) (inFrame_ok _)) (inFrame_ok _)) ?_ fun hl => ?_
  · split_ifs with hv
    · refine (avoids_bind_iff fun _ => inFrame_ok _).trans (hmac.trans ?_)
      constructor
      · rintro h hb ⟨hp, -, ha⟩ hn
        exact ⟨(h hb ⟨hp, ha⟩ hn).1, fun hl _ => (h hb ⟨hp, ha⟩ hn).2 hl⟩
      · rintro h hb ⟨hp, ha⟩ hn
        exact ⟨(h hb ⟨hp, hv, ha⟩ hn).1, fun hl => (h hb ⟨hp, hv, ha⟩ hn).2 hl trivial⟩
    · exact ⟨fun _ _ h => absurd h.2.1 hv, fun _ => inFrame_ok _⟩
  · split_ifs with hv
    · refine (avoids_bind_iff fun _ => inFrame_ok _).trans ?_
      refine (macResolveUc6_inFrame _ _ _ hl).trans ?_
      exact ⟨fun h ha => h ha.2, fun h ha => h ⟨hv, ha⟩⟩
    · exact ⟨fun _ h => absurd h.1 hv, fun _ => inFrame_ok _⟩

theorem procIngressData_inFrame (r : Resolution) (tsc : BitVec 64) (b : Buf) (len : ℕ)
    (s : BackState) : InFrame (procIngressData len r tsc b len s) ↔ IngressWithin s b len := by
  have hmac := macResolve_inFrame len b backArpStats s.ifIngress (s.io.stat .rxPacketMcIn)
    (hProto b)
  refine inFrame_dispatch (inFrame_ok _) (.ite (procV4In_inFrame r tsc b len _) (inFrame_ok _))
    (procV6In_inFrame r tsc b len _) (inFrame_ok _)
    (.ite (.ite (inFrame_ok _) (inFrame_ok _)) (inFrame_ok _)) ?_ fun hl => ?_
  · refine (avoids_bind_iff fun _ => inFrame_ok _).trans (hmac.trans ?_)
    constructor
    · rintro h hb ha hn
      exact ⟨(h hb ha hn).1, fun hl _ => (h hb ha hn).2 hl⟩
    · rintro h hb ha hn
      exact ⟨(h hb ha hn).1, fun hl => (h hb ha hn).2 hl trivial⟩
  · split_ifs with hv
    · refine (avoids_bind_iff fun _ => inFrame_ok _).trans ?_
      refine (macResolveUc6_inFrame _ _ _ hl).trans ?_
      exact ⟨fun h ha => h ha.2, fun h ha => h ⟨hv, ha⟩⟩
    · exact ⟨fun _ h => absurd h.1 hv, fun _ => inFrame_ok _⟩

theorem procEgressData_inFrame (r : Resolution) (tsc : BitVec 64) (b : Buf) (len : ℕ)
    (s : BackState) : InFrame (procEgressData len r tsc b len s) ↔ EgressWithin s b len := by
  refine inFrame_dispatch (inFrame_ok _) (.ite (procV4Eg_inFrame r tsc b len _) (inFrame_ok _))
    (procV6Eg_inFrame r tsc b len _) (inFrame_ok _)
    (.ite (.ite (inFrame_ok _) (inFrame_ok _)) (inFrame_ok _)) ?_ fun hl => ?_
  · exact macResolveEgress_inFrame r b (s.stat .rxPacketMcEg) (hProto b)
  · exact (avoids_bind_iff fun _ => inFrame_ok _).trans (macResolveUc6Egress_inFrame r b _ hl)

/-- **The frames that are read inside.** -/
theorem ns_reads_inside_iff (b : Buf) (len : ℕ) :
    (∀ (s : FrontState) (o : ℕ → MacOutcomes) (tsc : BitVec 64),
      InFrame (procRecvData len o tsc b len s) ↔ FrontWithin s b len) ∧
    (∀ (s : BackState) (r : Resolution) (tsc : BitVec 64),
      InFrame (procIngressData len r tsc b len s) ↔ IngressWithin s b len) ∧
    ∀ (s : BackState) (r : Resolution) (tsc : BitVec 64),
      InFrame (procEgressData len r tsc b len s) ↔ EgressWithin s b len :=
  ⟨fun s o tsc => procRecvData_inFrame o tsc b len s,
    fun s r tsc => procIngressData_inFrame r tsc b len s,
    fun s r tsc => procEgressData_inFrame r tsc b len s⟩

theorem sampleNs_asks {plen sum : BitVec 16} {n : Byte} {len : ℕ} {s : FrontState}
    (hif : s.ifIngress = sampleIf6) (hvip : s.vipMode = true) :
    Asks s.ifIngress.mac (s.vipMode = true ∧ s.ifIngress.v6Enable = true ∧
      s.ifIngress.fmmac = hDest (sampleNs plen sum n)) (sampleNs plen sum n) len := by
  have hsol := sampleNs_solicited plen sum n trivial rfl false
  obtain ⟨hdst, -⟩ := hsol.way.resolve_right fun h => Bool.false_ne_true h.2.2
  rw [hif]
  refine ⟨hsol.foreign, hsol.proto, rfl, Or.inl ⟨?_, ?_, hvip, rfl, hdst.symm⟩⟩
  · rw [hdst]
    exact isMulticast_solicitedMac _
  · rw [hdst]
    exact isBroadcast_solicitedMac _

/-- A solicitation of `78` bytes that declares a payload of `64` bytes is summed beyond its end, and
`get_icmp6_ns` reads a payload length beyond the end of a frame of `15` bytes. -/
theorem ns_reads_outside_sample : ∃ s, FrontReach s ∧
    ¬ InFrame (procRecvData 78 (fun _ _ => ⟨true, 0⟩) 0 (sampleNs 64 0 0) 78 s) ∧
    ¬ InFrame (procRecvData 15 (fun _ _ => ⟨true, 0⟩) 0 (sampleNs 64 0 0) 15 s) := by
  obtain ⟨s, hs, hif, hvip⟩ := sample_front6
  refine ⟨s, hs, ?_, ?_⟩
  · intro h
    have hw := (procRecvData_inFrame _ _ _ _ _).mp h
    have hlooks : LooksNs (sampleNs 64 0 0) 78 := ⟨by decide, by decide, rfl⟩
    have hsum : ReachesSum (sampleNs 64 0 0) := ⟨by decide, rfl, rfl⟩
    have hlen := hw.payload (sampleNs_asks hif hvip) hlooks (Or.inl ⟨rfl, trivial⟩) hsum
    exact absurd hlen (by decide)
  · intro h
    have hw := (procRecvData_inFrame _ _ _ _ _).mp h
    exact absurd (hw.header (sampleNs_asks hif hvip)) (by decide)

end Sasat
