import Sasat.Translate.Stages

/-!
# The classification of a frame

`proc_recv_data`, `proc_ingress_data` and `proc_egress_data` sort the frames that they receive in
the same way, but for the comparison with the length of a header.

* `Sorted`: the class is that of the type and of the headers that the frame holds.
* `Dispatched`: a function does with the frame what it does with such a class.
* **`procRecvData_sorted_iff`**, **`procIngressData_sorted_iff`**, **`procEgressData_sorted_iff`**:
  each function does, unless the frame ends with a header that it compares strictly.
* **`dispatch_sorted_iff`**: all three of them do.
-/

namespace Sasat

open Outcome

section

variable {lim len : ℕ} {b : Buf} {mac : Mac} {whole4 : Bool}

/-! ## Complete headers -/

/-- The frame is handed to the handler of its type if it holds the header, and counted as short if
it does not. -/
structure Sorted (b : Buf) (len : ℕ) (c : FrameClass) : Prop where
  v4 : c = .v4 ↔ hProto b = ethPIp ∧ 34 ≤ len
  v6 : c = .v6 ↔ hProto b = ethPIpv6 ∧ 54 ≤ len
  short : c = .short4 ∨ c = .short6 ↔
    (hProto b = ethPIp ∧ len < 34) ∨ (hProto b = ethPIpv6 ∧ len < 54)

/-- The result of a function is that of `handle` for the class that the frame belongs to. -/
def Dispatched {α : Type} (b : Buf) (len : ℕ) (out : M α) (handle : FrameClass → M α) : Prop :=
  ∃ c, Sorted b len c ∧ out = handle c

/-- A unicast frame from another host that is not a neighbour solicitation. -/
structure Plain (mac : Mac) (b : Buf) (len : ℕ) : Prop where
  src : hSource b ≠ mac
  unicast : isMulticast (hDest b) = false
  notNs : ¬ (hProto b = ethPIpv6 ∧ ip6Nxt b = 58 ∧ LooksNs b len)

theorem ethPIp_ne_ethPIpv6 : ethPIp ≠ ethPIpv6 := by decide

theorem sorted_v4_iff (h4 : hProto b = ethPIp) :
    Sorted b len (if whole4 then .v4 else .short4) ↔ (whole4 = true ↔ 34 ≤ len) := by
  have h6 : hProto b ≠ ethPIpv6 := h4 ▸ ethPIp_ne_ethPIpv6
  constructor
  · intro h
    have hv4 := h.v4
    cases whole4 with
    | true => exact ⟨fun _ => (hv4.mp rfl).2, fun _ => rfl⟩
    | false => exact ⟨fun hf => Bool.noConfusion hf, fun hle => by simpa using hv4.mpr ⟨h4, hle⟩⟩
  · intro h
    cases whole4 with
    | true =>
      have hle := h.mp rfl
      refine ⟨⟨fun _ => ⟨h4, hle⟩, fun _ => rfl⟩, ⟨by simp, fun hc => absurd hc.1 h6⟩, by simp, ?_⟩
      rintro (hc | hc)
      · exact absurd hc.2 (not_lt.mpr hle)
      · exact absurd hc.1 h6
    | false =>
      have hlt : len < 34 := by
        by_contra hle
        exact Bool.noConfusion (h.mpr (not_lt.mp hle))
      exact ⟨⟨by simp, fun hc => absurd hc.2 (not_le.mpr hlt)⟩,
        ⟨by simp, fun hc => absurd hc.1 h6⟩, fun _ => Or.inl ⟨h4, hlt⟩, fun _ => Or.inl rfl⟩

theorem sorted_v6 (h6 : hProto b = ethPIpv6) (hlen : 54 < len) : Sorted b len .v6 := by
  have h4 : hProto b ≠ ethPIp := h6 ▸ ethPIp_ne_ethPIpv6.symm
  refine ⟨⟨by simp, fun hc => absurd hc.1 h4⟩, ⟨fun _ => ⟨h6, hlen.le⟩, fun _ => rfl⟩, by simp, ?_⟩
  rintro (hc | hc)
  · exact absurd hc.1 h4
  · exact absurd hc.2 (not_lt.mpr hlen.le)

theorem sorted_short6_iff (h6 : hProto b = ethPIpv6) : Sorted b len .short6 ↔ len < 54 := by
  have h4 : hProto b ≠ ethPIp := h6 ▸ ethPIp_ne_ethPIpv6.symm
  constructor
  · intro h
    rcases h.short.mp (Or.inr rfl) with hc | hc
    · exact absurd hc.1 h4
    · exact hc.2
  · intro hlt
    exact ⟨⟨by simp, fun hc => absurd hc.1 h4⟩, ⟨by simp, fun hc => absurd hc.2 (not_le.mpr hlt)⟩,
      fun _ => Or.inr ⟨h6, hlt⟩, fun _ => Or.inr rfl⟩

theorem sorted_other {c : FrameClass} (h4 : hProto b ≠ ethPIp) (h6 : hProto b ≠ ethPIpv6)
    (hc : c = .arp ∨ c = .noip) : Sorted b len c := by
  refine ⟨⟨?_, fun h => absurd h.1 h4⟩, ⟨?_, fun h => absurd h.1 h6⟩, ?_, ?_⟩
  · rcases hc with rfl | rfl <;> simp
  · rcases hc with rfl | rfl <;> simp
  · rcases hc with rfl | rfl <;> simp
  · rintro (h | h)
    · exact absurd h.1 h4
    · exact absurd h.1 h6

theorem frameClass_v4 (hp : Plain mac b len) (h4 : hProto b = ethPIp) :
    frameClass mac whole4 lim b len = .ok (if whole4 then .v4 else .short4) := by
  rw [frameClass, if_neg hp.src, hp.unicast, if_neg Bool.false_ne_true, if_pos h4]

theorem frameClass_short6 (hp : Plain mac b len) (h6 : hProto b = ethPIpv6) (hlen : ¬ 54 < len) :
    frameClass mac whole4 lim b len = .ok .short6 := by
  have h4 : hProto b ≠ ethPIp := h6 ▸ ethPIp_ne_ethPIpv6.symm
  rw [frameClass, if_neg hp.src, hp.unicast, if_neg Bool.false_ne_true, if_neg h4, if_pos h6,
    if_neg hlen]

/-- **One classification**: the comparison for IPv4 is right, and the frame does not end with its
IPv6 header. -/
theorem frameClass_sorted_iff (hp : Plain mac b len) (hlim : len ≤ lim) :
    (∃ c, frameClass mac whole4 lim b len = .ok c ∧ Sorted b len c) ↔
      (hProto b = ethPIp → (whole4 = true ↔ 34 ≤ len)) ∧ (hProto b = ethPIpv6 → len ≠ 54) := by
  unfold frameClass
  rw [if_neg hp.src, if_neg (by rw [hp.unicast]; decide)]
  by_cases h4 : hProto b = ethPIp
  · have h6 : hProto b ≠ ethPIpv6 := h4 ▸ ethPIp_ne_ethPIpv6
    rw [if_pos h4, exists_ok_iff rfl, sorted_v4_iff h4, forall_prop_of_true h4,
      and_iff_left fun h => absurd h h6]
  rw [if_neg h4, and_iff_right fun h => absurd h h4]
  by_cases h6 : hProto b = ethPIpv6
  · rw [if_pos h6, forall_prop_of_true h6]
    by_cases hlen : 54 < len
    · obtain ⟨ns, hns, hiff⟩ := isIcmp6Ns_ok (b := b) (show 20 ≤ lim by omega) hlim
      have hno : ns = false := Bool.eq_false_iff.mpr fun h => hp.notNs ⟨h6, hiff.mp h⟩
      rw [if_pos hlen, hns, hno]
      exact ⟨fun _ => by omega, fun _ => ⟨.v6, rfl, sorted_v6 h6 hlen⟩⟩
    · rw [if_neg hlen, exists_ok_iff rfl, sorted_short6_iff h6]
      omega
  · rw [if_neg h6]
    refine ⟨fun _ h => absurd h h6, fun _ => ?_⟩
    split_ifs
    · exact ⟨_, rfl, sorted_other h4 h6 (Or.inl rfl)⟩
    · exact ⟨_, rfl, sorted_other h4 h6 (Or.inr rfl)⟩

/-- When a function that goes by the class of a frame does what it should, if its handlers can be
told from counting the frame as short. -/
theorem dispatched_iff {α : Type} {out : M α} {handle : FrameClass → M α}
    (hp : Plain mac b len) (hlim : len ≤ lim)
    (hout : out = frameClass mac whole4 lim b len >>= handle)
    (h4 : whole4 = false → 34 ≤ len → handle .v4 ≠ handle .short4)
    (h6 : handle .v6 ≠ handle .short6)
    (hwhole : whole4 = true → 34 ≤ len) : Dispatched b len out handle ↔
      (hProto b = ethPIp → (whole4 = true ↔ 34 ≤ len)) ∧ (hProto b = ethPIpv6 → len ≠ 54) := by
  constructor
  · rintro ⟨c, hsorted, hc⟩
    rw [hout] at hc
    refine ⟨fun hip => ⟨hwhole, fun hlen => ?_⟩, fun hip6 hlen => ?_⟩
    · by_contra hw
      rw [Bool.not_eq_true] at hw
      obtain rfl := hsorted.v4.mpr ⟨hip, hlen⟩
      refine h4 hw hlen (hc.symm.trans ?_)
      rw [frameClass_v4 hp hip, hw]
      rfl
    · obtain rfl := hsorted.v6.mpr ⟨hip6, hlen.ge⟩
      refine h6 (hc.symm.trans ?_)
      rw [frameClass_short6 hp hip6 (by omega)]
      rfl
  · intro h
    obtain ⟨c, hc, hsorted⟩ := (frameClass_sorted_iff hp hlim).mpr h
    exact ⟨c, hsorted, by rw [hout, hc]; rfl⟩

/-! ## Handlers and the short counter -/

theorem stat_ne {S : Type} [DecidableEq S] {io io' : Io S} {m : S} (h : io'.sstat m = io.sstat m) :
    io' ≠ io.stat m := by
  rintro rfl
  rw [Io.stat_self] at h
  exact absurd (BitVec.self_eq_add_right.mp h.symm) (by decide)

theorem ne_short {S : Type} [DecidableEq S] {σ : Type} {g : σ → Io S} {m : S} {s t : σ}
    {x : M (Buf × σ)} (hx : Post (fun r => (g r.2).sstat m = (g s).sstat m) (fun _ => True) x)
    (ht : g t = (g s).stat m) : x ≠ .ok (b, t) := by
  intro h
  exact stat_ne (hx.of_ok h) ht

theorem procV4_short (o : ℕ → MacOutcomes) (tsc : BitVec 64) (s : FrontState) :
    Post (fun r => r.2.io.sstat .rxDropShort = s.io.sstat .rxDropShort) (fun _ => True)
      (procV4 o tsc b len s) := by
  refine .ite (fun _ => ?_) fun _ => ?_
  · exact s.io.stat_other (show FrontStat.rxDropShort ≠ .rxDropAddrV4 by decide)
  refine .bind (P := fun r : Option CachePtr × FrontState => r.2.io = s.io)
    (.bind .trivial fun _ _ => rfl) fun ⟨e, s'⟩ hr => ?_
  rw [← show s'.io = s.io from hr]
  cases e with
  | none => exact s'.io.stat_other (show FrontStat.rxDropShort ≠ .rxDropPolicy by decide)
  | some e => exact s'.io.stat_other (show FrontStat.rxDropShort ≠ .txPacketV4 by decide)

theorem procV6_short (o : ℕ → MacOutcomes) (tsc : BitVec 64) (s : FrontState) :
    Post (fun r => r.2.io.sstat .rxDropShort = s.io.sstat .rxDropShort) (fun _ => True)
      (procV6 o tsc b len s) := by
  refine .ite (fun _ => ?_) fun _ => ?_
  · exact s.io.stat_other (show FrontStat.rxDropShort ≠ .rxDropAddrV6 by decide)
  refine .bind (P := fun r : Option CachePtr × FrontState => r.2.io = s.io)
    (.bind .trivial fun _ _ => rfl) fun ⟨e, s'⟩ hr => ?_
  rw [← show s'.io = s.io from hr]
  cases e with
  | none => exact s'.io.stat_other (show FrontStat.rxDropShort ≠ .rxDropPolicy by decide)
  | some e => exact s'.io.stat_other (show FrontStat.rxDropShort ≠ .txPacketV6 by decide)

theorem procV6In_short (r : Resolution) (tsc : BitVec 64) (s : BackState) :
    Post (fun x => x.2.io.sstat .rxDropShortIn = s.io.sstat .rxDropShortIn) (fun _ => True)
      (procV6In r tsc b len s) := by
  refine .ite (fun _ => ?_) fun _ => .bind .trivial fun ci _ => ?_
  · exact s.io.stat_other (show BackStat.rxDropShortIn ≠ .rxDropAddrV6In by decide)
  have hio := BackKept.resolveSvr_io (r.ip6 s.svrInfo.svrIp6) { s with clientInfo := ci }
  change (forwardV6In b len _).2.io.sstat _ = s.io.sstat _
  generalize BackState.resolveSvr _ _ = y at hio ⊢
  rw [← show y.2.io = s.io from hio, forwardV6In]
  dsimp only
  split_ifs
  · exact y.2.io.stat_other (show BackStat.rxDropShortIn ≠ .txPacketV6In by decide)
  · exact y.2.io.stat_other (show BackStat.rxDropShortIn ≠ .rxDropIn by decide)

theorem procV6Eg_short (r : Resolution) (tsc : BitVec 64) (s : BackState) :
    Post (fun x => x.2.io.sstat .rxDropShortEg = s.io.sstat .rxDropShortEg) (fun _ => True)
      (procV6Eg r tsc b len s) := by
  have hsent : BackStat.rxDropShortEg ≠ .txPacketV6Eg := by decide
  have hdrop : BackStat.rxDropShortEg ≠ .txDropMac6 := by decide
  refine procV6Eg_post ?passed ?routed ?unrouted
  case passed => exact fun ci _ _ => s.io.stat_other hsent
  case routed =>
    rintro ci _ _ _ _ rfl _
    exact (Io.stat_other _ hsent).trans (congrArg (·.sstat .rxDropShortEg) gwKnown6_io)
  case unrouted =>
    rintro ci _ _ _ _ rfl _
    exact (Io.stat_other _ hdrop).trans (congrArg (·.sstat .rxDropShortEg) gwKnown6_io)

/-! ## The three functions -/

/-- **`proc_recv_data` takes both headers for incomplete when the frame ends with them.** -/
theorem procRecvData_sorted_iff (o : ℕ → MacOutcomes) (tsc : BitVec 64) (s : FrontState)
    (hp : Plain s.ifIngress.mac b len) (hlim : len ≤ lim) :
    Dispatched b len (procRecvData lim o tsc b len s) (recvClassDo lim o tsc b len s) ↔
      ¬ (hProto b = ethPIp ∧ len = 34) ∧ ¬ (hProto b = ethPIpv6 ∧ len = 54) := by
  rw [dispatched_iff hp hlim (procRecvData_class o tsc s)
    (fun _ _ => ne_short (g := FrontState.io) (procV4_short o tsc (s.stat .rxPacketV4)) rfl)
    (ne_short (g := FrontState.io) (procV6_short o tsc (s.stat .rxPacketV6)) rfl)
    fun h => (of_decide_eq_true h).le]
  rw [decide_eq_true_eq, not_and, not_and]
  exact and_congr_left fun _ => imp_congr_right fun _ => by omega

/-- **`proc_ingress_data` takes the IPv6 header for incomplete when the frame ends with it.** -/
theorem procIngressData_sorted_iff (r : Resolution) (tsc : BitVec 64) (s : BackState)
    (hp : Plain s.ifIngress.mac b len) (hlim : len ≤ lim) :
    Dispatched b len (procIngressData lim r tsc b len s) (ingressClassDo lim r tsc b len s) ↔
      ¬ (hProto b = ethPIpv6 ∧ len = 54) := by
  rw [dispatched_iff hp hlim (procIngressData_class r tsc s)
    (fun h hlen => absurd hlen (of_decide_eq_false h))
    (ne_short (g := BackState.io) (procV6In_short r tsc (s.stat .rxPacketV6In)) rfl)
    of_decide_eq_true]
  rw [decide_eq_true_eq, not_and]
  exact and_iff_right fun _ => Iff.rfl

/-- **`proc_egress_data` takes the IPv6 header for incomplete when the frame ends with it.** -/
theorem procEgressData_sorted_iff (r : Resolution) (tsc : BitVec 64) (s : BackState)
    (hp : Plain s.ifEgress.mac b len) (hlim : len ≤ lim) :
    Dispatched b len (procEgressData lim r tsc b len s) (egressClassDo lim r tsc b len s) ↔
      ¬ (hProto b = ethPIpv6 ∧ len = 54) := by
  rw [dispatched_iff hp hlim (procEgressData_class r tsc s)
    (fun h hlen => absurd hlen (of_decide_eq_false h))
    (ne_short (g := BackState.io) (procV6Eg_short r tsc (s.stat .rxPacketV6Eg)) rfl)
    of_decide_eq_true]
  rw [decide_eq_true_eq, not_and]
  exact and_iff_right fun _ => Iff.rfl

/-- **All three functions treat a frame as its type and its headers say** exactly if it does not end
with its IPv4 header or with its IPv6 header. -/
theorem dispatch_sorted_iff (o : ℕ → MacOutcomes) (r : Resolution) (tsc : BitVec 64)
    (s : FrontState) (t : BackState) (hrecv : Plain s.ifIngress.mac b len)
    (hin : Plain t.ifIngress.mac b len) (heg : Plain t.ifEgress.mac b len) (hlim : len ≤ lim) :
    (Dispatched b len (procRecvData lim o tsc b len s) (recvClassDo lim o tsc b len s) ∧
      Dispatched b len (procIngressData lim r tsc b len t) (ingressClassDo lim r tsc b len t) ∧
        Dispatched b len (procEgressData lim r tsc b len t) (egressClassDo lim r tsc b len t)) ↔
      ¬ (hProto b = ethPIp ∧ len = 34) ∧ ¬ (hProto b = ethPIpv6 ∧ len = 54) := by
  rw [procRecvData_sorted_iff o tsc s hrecv hlim, procIngressData_sorted_iff r tsc t hin hlim,
    procEgressData_sorted_iff r tsc t heg hlim]
  exact ⟨And.left, fun h => ⟨h, h.2, h.2⟩⟩

end

/-! ## A frame that ends with its header -/

theorem sample_plain (len : ℕ) (vip4 : InAddr) : Plain (sampleIf vip4).mac sampleFrame len :=
  ⟨show hSource sampleFrame ≠ ![2, 0, 0, 0, 0, 1] by decide, by decide,
    fun h => absurd h.1 (by decide)⟩

/-- Every resolution finds the host of the sample. -/
def sampleFound : Resolution :=
  ⟨fun _ => sampleMac, fun _ => sampleMac, fun _ => sampleMac, fun _ => sampleMac⟩

theorem dispatch_sorted_sample :
    Dispatched sampleFrame 60 (procRecvData 1520 (fun _ => sampleMac) 0 sampleFrame 60 sampleFront)
        (recvClassDo 1520 (fun _ => sampleMac) 0 sampleFrame 60 sampleFront) ∧
      Dispatched sampleFrame 60 (procIngressData 1520 sampleFound 0 sampleFrame 60 sampleBack)
          (ingressClassDo 1520 sampleFound 0 sampleFrame 60 sampleBack) ∧
        Dispatched sampleFrame 60 (procEgressData 1520 sampleFound 0 sampleFrame 60 sampleBack)
          (egressClassDo 1520 sampleFound 0 sampleFrame 60 sampleBack) :=
  (dispatch_sorted_iff (fun _ => sampleMac) sampleFound 0 sampleFront sampleBack (sample_plain 60 _)
    (sample_plain 60 _) (sample_plain 60 _) (by decide)).mpr (by decide)

/-- **The IPv4 header alone**: the front translator counts it as short, the backend handles it. -/
theorem dispatch_differs :
    procRecvData 1520 (fun _ => sampleMac) 0 sampleFrame 34 sampleFront =
        .ok (sampleFrame, (sampleFront.stat .rxPacketV4).stat .rxDropShort) ∧
      procIngressData 1520 sampleFound 0 sampleFrame 34 sampleBack =
        procV4In sampleFound 0 sampleFrame 34 (sampleBack.stat .rxPacketV4In) ∧
      ¬ ∀ (s : FrontState) (lim : ℕ) (o : ℕ → MacOutcomes) (tsc : BitVec 64) (b : Buf) (len : ℕ),
        Plain s.ifIngress.mac b len → 14 < len → len ≤ lim →
          Dispatched b len (procRecvData lim o tsc b len s) (recvClassDo lim o tsc b len s) := by
  refine ⟨?_, ?_, fun h => ?_⟩
  · have hp : Plain sampleFront.ifIngress.mac sampleFrame 34 := sample_plain 34 _
    rw [procRecvData_class, recvClass, frameClass_v4 hp (by decide)]
    rfl
  · have hp : Plain sampleBack.ifIngress.mac sampleFrame 34 := sample_plain 34 _
    rw [procIngressData_class, ingressClass, frameClass_v4 hp (by decide)]
    rfl
  · have hd := h sampleFront 1520 (fun _ => sampleMac) 0 sampleFrame 34 (sample_plain 34 _)
      (by decide) (by decide)
    rw [procRecvData_sorted_iff _ _ _ (sample_plain 34 _) (by decide)] at hd
    exact hd.1 ⟨by decide, rfl⟩

end Sasat
