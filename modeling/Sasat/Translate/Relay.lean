import Sasat.Lib.Relay
import Sasat.Front.Flow
import Sasat.Translate.Stages6

/-!
# The translators as relays

A translator handles the frames that arrive one after the other. It writes at most one frame for
each of them, so packets neither come out twice nor overtake each other.

* `FrontArrival`, `BackArrival`: a frame that arrives, with what its handling depends on.
* `FrontState.recv`, `BackState.recv`: one frame.
* `FrontSent`, `BackSent`: what a translator makes of a frame.
* **`front_relays`**, **`back_relays`**: over all runs; **`frames_in_order`**.
* **`delivered6`**: from the client to the server through both translators.
-/

namespace Sasat

open Outcome List

/-- A frame of `len` bytes in the buffer of the front translator. -/
structure FrontArrival where
  lim : ℕ
  o : ℕ → MacOutcomes
  tsc : BitVec 64
  buf : Buf
  len : ℕ

/-- The two threads of the backend, each with its interface. -/
inductive BackThread
  | ingress | egress
  deriving DecidableEq

/-- A frame of `len` bytes in the buffer of a thread of the backend. -/
structure BackArrival where
  thread : BackThread
  lim : ℕ
  r : Resolution
  tsc : BitVec 64
  buf : Buf
  len : ℕ

/-- `front_ingress1` on a frame. -/
def FrontState.recv (s : FrontState) (a : FrontArrival) : M FrontState := do
  let r ← frontIngress1 a.lim a.o a.tsc a.buf a.len s
  .ok r.2

/-- `back_ingress` or `back_egress` on a frame. -/
def BackState.recv (s : BackState) (a : BackArrival) : M BackState :=
  match a.thread with
  | .ingress => do
    let r ← backIngress a.lim a.r a.tsc a.buf a.len s
    .ok r.2
  | .egress => do
    let r ← backEgress a.lim a.r a.tsc a.buf a.len s
    .ok r.2

/-! ## One translator -/

/-- What the front translator with the virtual addresses `vip4` and `vip6` makes of a frame. -/
structure FrontSent (vip4 : InAddr) (vip6 : In6Addr) (x : Tx) (a : FrontArrival) : Prop where
  v4 : x.sender = .procV4 → ∃ new, Stage vip4 new a.buf a.len x
  v6 : x.sender = .procV6 → ∃ new, Stage6 vip6 new a.buf a.len x

section

variable {s s' : FrontState} {as : List FrontArrival}

theorem FrontState.recv_sent (hs : FrontInv s) (hc : FrontConfig s) {a : FrontArrival}
    (h : s.recv a = .ok s') : (FrontInv s' ∧ FrontConfig s' ∧ s'.vip4 = s.vip4 ∧
      s'.vip6 = s.vip6) ∧ Wrote (fun x => FrontSent s.vip4 s.vip6 x a) s.io s'.io := by
  obtain ⟨r, hrun, h⟩ := bind_eq_ok.mp h
  cases h
  have hh := (frontIngress1_handled hs a.lim a.o a.tsc a.buf a.len).of_ok hrun
  refine ⟨⟨hh.inv, hc.handled hh, hh.vip4, hh.vip6⟩, ?_⟩
  have h6 := (frontIngress1_stage6 a.lim a.o a.tsc).of_ok hrun
  have h4 : Wrote (fun x => x.sender = .procV4 → ∃ new, Stage s.vip4 new a.buf a.len x) s.io
      r.2.io := (frontIngress1_stage hs hc a.lim a.o a.tsc).of_ok hrun
  rcases h4 with h4 | ⟨x, htx, hx⟩
  · exact .none h4
  · exact Or.inr ⟨x, htx, hx, h6.of_eq htx⟩

/-- **The front translator is a relay.** Over all of its runs, the frames that it writes are made of
different frames that it has received, in their order. -/
theorem front_relays (h : FrontReach s) (hrun : as.foldlM FrontState.recv s = .ok s') :
    ∃ xs, s'.io.tx = s.io.tx ++ xs ∧ SublistForall₂ (FrontSent s.vip4 s.vip6) xs as := by
  obtain ⟨hs, hc, -⟩ := h.inv
  refine (Relay.run (fun t : FrontState => t.io.tx)
    (I := fun t => FrontInv t ∧ FrontConfig t ∧ t.vip4 = s.vip4 ∧ t.vip6 = s.vip6)
    (fun t a t' ht hstep => ?_) as ⟨hs, hc, rfl, rfl⟩ hrun).2
  obtain ⟨hinv, hconf, h4, h6⟩ := ht
  obtain ⟨⟨hinv', hconf', h4', h6'⟩, hw⟩ := t.recv_sent hinv hconf hstep
  rw [h4] at h4' hw
  rw [h6] at h6' hw
  exact ⟨⟨hinv', hconf', h4', h6'⟩, hw⟩

end

/-- What the backend `s` makes of a frame. -/
structure BackSent (s : BackState) (x : Tx) (a : BackArrival) : Prop where
  v4In : x.sender = .procV4In → (a.thread = .ingress ∧ hProto a.buf = ethPIp) ∧
    Rewritten s.ifIngress.vip4 s.svrInfo.svrIp4 s.svrInfo.checksumDelta a.buf a.len x
  v6In : x.sender = .procV6In → (a.thread = .ingress ∧ hProto a.buf = ethPIpv6) ∧
    Stage6 s.ifIngress.vip6 s.svrInfo.svrIp6 a.buf a.len x
  eg : x.sender = .procV4Eg ∨ x.sender = .procV6Eg → a.thread = .egress ∧
    SentBack s a.buf a.len x

theorem BackSent.of_kept {s s' : BackState} {x : Tx} {a : BackArrival} (h : BackSent s' x a)
    (hk : BackKept s s') : BackSent s x a := by
  refine ⟨fun hx => ?_, fun hx => ?_, fun hx => ?_⟩
  · rw [← hk.ifIngress, ← hk.svrIp4, ← hk.delta]
    exact h.v4In hx
  · rw [← hk.ifIngress, ← hk.svrIp6]
    exact h.v6In hx
  · obtain ⟨hthread, hsent⟩ := h.eg hx
    exact ⟨hthread, by rw [hsent.fd, hk.ifIngress], hsent.length, hsent.bytes⟩

section

variable {s s' : BackState} {as : List BackArrival}

theorem backIngress_sent {a : BackArrival} {b' : Buf} (ha : a.thread = .ingress)
    (h : backIngress a.lim a.r a.tsc a.buf a.len s = .ok (b', s')) :
    Wrote (fun x => BackSent s x a) s.io s'.io := by
  have h4 : Wrote (fun x => x.sender = .procV4In →
      Rewritten s.ifIngress.vip4 s.svrInfo.svrIp4 s.svrInfo.checksumDelta a.buf a.len x)
        s.io s'.io := (backIngress_rewrites a.lim a.r a.tsc).of_ok h
  rcases h4 with h4 | ⟨x, htx, hx⟩
  · exact .none h4
  have h6 := Wrote.of_eq ((backIngress_stage6 a.lim a.r a.tsc).of_ok h) htx
  refine Or.inr ⟨x, htx, fun hs => ⟨⟨ha, ?_⟩, hx hs⟩, fun hs => ?_, fun hs => ?_⟩
  · simpa [hs] using h6
  · rcases h6 with ⟨-, hp, hst⟩ | h6
    · exact ⟨⟨ha, hp⟩, hst⟩
    · simp [hs] at h6
  · rcases hs with hs | hs <;> simp [hs] at h6

theorem backEgress_sent {a : BackArrival} {b' : Buf} (ha : a.thread = .egress)
    (h : backEgress a.lim a.r a.tsc a.buf a.len s = .ok (b', s')) :
    Wrote (fun x => BackSent s x a) s.io s'.io := by
  refine ((backEgress_sentBack a.lim a.r a.tsc).of_ok h).mono fun x hx => ?_
  refine ⟨fun hs => ?_, fun hs => ?_, fun hs => ?_⟩
  · simp [hs] at hx
  · simp [hs] at hx
  · rcases hx with ⟨-, hx⟩ | hx
    · exact ⟨ha, hx⟩
    · rcases hs with hs | hs <;> simp [hs] at hx

theorem BackState.recv_sent {a : BackArrival} (h : s.recv a = .ok s') :
    BackKept s s' ∧ Wrote (fun x => BackSent s x a) s.io s'.io := by
  cases ha : a.thread with
  | ingress =>
    rw [BackState.recv, ha] at h
    obtain ⟨r, hrun, h⟩ := bind_eq_ok.mp h
    cases h
    exact ⟨(backIngress_rel backKept_rel a.lim a.r a.tsc a.buf a.len s).of_ok hrun,
      backIngress_sent ha hrun⟩
  | egress =>
    rw [BackState.recv, ha] at h
    obtain ⟨r, hrun, h⟩ := bind_eq_ok.mp h
    cases h
    exact ⟨(backEgress_rel backKept_rel a.lim a.r a.tsc a.buf a.len s).of_ok hrun,
      backEgress_sent ha hrun⟩

/-- **The backend is a relay**, however its two threads take turns. -/
theorem back_relays (hrun : as.foldlM BackState.recv s = .ok s') :
    ∃ xs, s'.io.tx = s.io.tx ++ xs ∧ SublistForall₂ (BackSent s) xs as := by
  refine (Relay.run (fun t : BackState => t.io.tx) (I := BackKept s)
    (fun t a t' ht hstep => ?_) as (.refl s) hrun).2
  obtain ⟨hk, hw⟩ := t.recv_sent hstep
  exact ⟨ht.trans hk, hw.mono fun x hx => hx.of_kept ht⟩

end

/-- **Frames neither come out twice nor overtake each other**: over all runs of received frames of
either translator, the packets that come out are those that went in, with another address or under
another Ethernet header, less those that are dropped. The checksum delta of a backend of an IPv4
server is that of the two addresses. -/
theorem frames_in_order :
    (∀ {s s' : FrontState} {as : List FrontArrival}, FrontReach s →
      as.foldlM FrontState.recv s = .ok s' →
        ∃ xs, s'.io.tx = s.io.tx ++ xs ∧ SublistForall₂ (FrontSent s.vip4 s.vip6) xs as) ∧
    (∀ {s s' : BackState} {as : List BackArrival}, as.foldlM BackState.recv s = .ok s' →
      ∃ xs, s'.io.tx = s.io.tx ++ xs ∧ SublistForall₂ (BackSent s) xs as) ∧
    ∀ {ip4 : InAddr} {s : BackState}, BackReach (some ip4) s → s.svrInfo.svrIp4 = ip4 ∧
      s.svrInfo.checksumDelta = calcChksumDelta s.ifIngress.vip4 ip4 :=
  ⟨fun h hrun => front_relays h hrun, fun hrun => back_relays hrun, fun h => h.delta⟩

/-! ## Both translators -/

/-- The backend takes the frame for an IPv6 packet to its server. -/
def ForServer6 (s : BackState) (a : BackArrival) : Prop :=
  (a.thread = .ingress ∧ hProto a.buf = ethPIpv6) ∧ ip6Dst a.buf = s.ifIngress.vip6

instance (s : BackState) : DecidablePred (ForServer6 s) :=
  fun _ => inferInstanceAs (Decidable (_ ∧ _))

/-- **The server gets the packets of the clients.** Where the network between the translators loses
packets and changes hop limits, and the server has the virtual address of the front translator, the
packets that come to the server are those that came to the front translator, each at most once and
in their order. -/
theorem delivered6 {s₁ s₁' : FrontState} {s₂ s₂' : BackState} {as₁ : List FrontArrival}
    {as₂ : List BackArrival} {xs₁ xs₂ : List Tx} (h₁ : FrontReach s₁)
    (hsvr : s₂.svrInfo.svrIp6 = s₁.vip6)
    (hrun₁ : as₁.foldlM FrontState.recv s₁ = .ok s₁') (htx₁ : s₁'.io.tx = s₁.io.tx ++ xs₁)
    (hnet : SublistForall₂ (fun (a : BackArrival) (x : Tx) => Carried6 a.buf a.len x.bytes)
      (as₂.filter (ForServer6 s₂)) (xs₁.filter fun x => x.sender = .procV6))
    (hrun₂ : as₂.foldlM BackState.recv s₂ = .ok s₂') (htx₂ : s₂'.io.tx = s₂.io.tx ++ xs₂) :
    SublistForall₂ (fun (y : Tx) (a : FrontArrival) =>
        Carried6 (recvBuf y.bytes) y.bytes.length (frame a.buf a.len))
      (xs₂.filter fun x => x.sender = .procV6In) as₁ := by
  obtain ⟨ys₁, hys₁, hrel₁⟩ := front_relays h₁ hrun₁
  obtain ⟨ys₂, hys₂, hrel₂⟩ := back_relays hrun₂
  obtain rfl := append_cancel_left (htx₁.symm.trans hys₁)
  obtain rfl := append_cancel_left (htx₂.symm.trans hys₂)
  refine Relay.network hrel₂ hrel₁ (fun y a hy hya => ⟨(hya.v6In hy).1, (hya.v6In hy).2.dst⟩)
    hnet fun y a₂ x a₁ hy hya hcarry hx hxa => ?_
  obtain ⟨new, hst₁⟩ := hxa.v6 hx
  have hst₂ := (hya.v6In hy).2
  rw [hsvr] at hst₂
  exact hst₁.undo hcarry hst₂

/-! ## A sample -/

/-- `fd00::1`. -/
def relayVip : In6Addr := fun i => if i.val = 0 then 0xfd else if i.val = 15 then 1 else 0

/-- `fd00::2`. -/
def relayBack : In6Addr := fun i => if i.val = 0 then 0xfd else if i.val = 15 then 2 else 0

/-- An interface with the virtual address `vip6`. -/
def relayIf (vip6 : In6Addr) : Ifdata := { sampleIf 0 with v6Enable := true, vip6 := vip6 }

/-- A UDP packet of 48 bytes from `fd01::5` to `fd00::1`. -/
def relayFrame : Buf := fun i =>
  ([2, 0, 0, 0, 0, 1, 2, 0, 0, 0, 0, 7, 0x86, 0xdd, 0x60, 0, 0, 0, 0, 8, 17, 64,
    0xfd, 1, 0, 0, 0, 0, 0, 0, 0, 0, 0, 0, 0, 0, 0, 5,
    0xfd, 0, 0, 0, 0, 0, 0, 0, 0, 0, 0, 0, 0, 0, 0, 1] : List Byte).getD i 0

def relayArrival : FrontArrival := ⟨62, fun _ => sampleMac, 0, relayFrame, 62⟩

theorem relay_load (c : CachePtr → LbPolCache 16 Unit)
    (q : Intrusive.TailqHeap CacheList CachePtr) : ∃ lb mac,
      getPolicy [⟨0, 0, relayBack, sampleMac⟩] { emptySide 16 Unit () with cache := c, tq := q } =
        .ok lb ∧ ∀ a, Chosen lb a relayBack mac := by
  refine ⟨_, ![2, 0, 0, 0, 0, 2], rfl, fun a => ⟨1, _, _, ?_, rfl, rfl, rfl, rfl, rfl⟩⟩
  have hm : ∀ x : In6Addr, maskIp x (0 : In6Addr) = 0 := fun x => by simp [maskIp, funext_iff]
  refine List.find?_cons_of_pos ?_
  exact (matchPol_eq rfl).trans (decide_eq_true ((hm a).trans (hm 0).symm))

theorem relay_init : ∃ s mac, FrontReach s ∧ s.vip6 = relayVip ∧
    s.ifIngress.mac = ![2, 0, 0, 0, 0, 1] ∧ ∀ a, Chosen s.lb6 a relayBack mac := by
  obtain ⟨s, hinit, -⟩ := frontInit_spec (fun _ => ⟨0, 0, 0, 0, .init, 0, 0, 0, 0, none, 0⟩)
    (fun _ => ⟨0, 0, 0, 0, .init, (), 0, 0, 0, none, 0⟩) (relayIf relayVip) false
    [] [⟨0, 0, relayBack, sampleMac⟩] sampleFront
  have hreach : FrontReach s := .init _ _ _ _ _ _ _ _ hinit
  obtain ⟨c, q, hq⟩ := initPolicyTable_eq
    (some fun _ => (⟨0, 0, 0, 0, .init, (), 0, 0, 0, none, 0⟩ : LbPolCache 16 Unit))
    (initSvrMngTable (emptySide 16 Unit ()))
  obtain ⟨lb, mac, hload, hc⟩ := relay_load c q
  obtain ⟨lb4, -, hinit⟩ := bind_eq_ok.mp hinit
  obtain ⟨lb6, h6, hinit⟩ := bind_eq_ok.mp hinit
  obtain rfl := Except.ok.inj (h6.symm.trans
    ((congrArg (getPolicy [⟨0, 0, relayBack, sampleMac⟩]) hq).trans hload))
  have hsi := Except.ok.inj hinit
  have hlb : s.lb6 = lb6 := congrArg FrontState.lb6 hsi.symm
  exact ⟨s, mac, hreach, congrArg FrontState.vip6 hsi.symm,
    congrArg (fun s => s.ifIngress.mac) hsi.symm, fun a => hlb ▸ hc a⟩

theorem FrontState.recv_forwards6 {s : FrontState} {a : FrontArrival} {ip : In6Addr} {mac : Mac}
    (h : FrontReach s) (hlen : 54 < a.len) (hsrc : hSource a.buf ≠ s.ifIngress.mac)
    (huc : isMulticast (hDest a.buf) = false) (hproto : hProto a.buf = ethPIpv6)
    (hnxt : ip6Nxt a.buf ≠ 58) (hdst : ip6Dst a.buf = s.vip6)
    (hc : Chosen s.lb6 (ip6Src a.buf) ip mac) :
    ∃ s' b', s.recv a = .ok s' ∧ FrontReach s' ∧ Handled s s' ∧
      s'.io.tx = s.io.tx ++ [⟨.procV6, s.ifIngress.sockfd, frame b' a.len⟩] ∧
        ip6Dst b' = ip ∧ ∀ i, 14 ≤ i → i < 38 ∨ 54 ≤ i → b' i = a.buf i := by
  obtain ⟨b', s', hrun, htx, hip, hb'⟩ :=
    frontIngress1_forwards6 h a.lim a.o a.tsc hlen hsrc huc hproto hnxt hdst hc
  obtain ⟨hs, -⟩ := h.inv
  refine ⟨s', b', ?_, .recv _ _ _ _ h hrun,
    (frontIngress1_handled hs a.lim a.o a.tsc a.buf a.len).of_ok hrun, htx, hip, hb'⟩
  rw [FrontState.recv, hrun]
  rfl

theorem relay_front : ∃ s s' b', FrontReach s ∧ s.vip6 = relayVip ∧
    [relayArrival].foldlM FrontState.recv s = .ok s' ∧
      s'.io.tx = s.io.tx ++ [⟨.procV6, s.ifIngress.sockfd, frame b' 62⟩] ∧
        ip6Dst b' = relayBack ∧ ∀ i, 14 ≤ i → i < 38 ∨ 54 ≤ i → b' i = relayFrame i := by
  obtain ⟨s, mac, h, hvip, hmac, hc⟩ := relay_init
  obtain ⟨s', b', hrun, -, -, htx, hdst, hb'⟩ := FrontState.recv_forwards6 (a := relayArrival) h
    (by decide) (show hSource relayFrame ≠ _ by rw [hmac]; decide) (by decide) (by decide)
    (by decide) (show ip6Dst relayFrame = _ by rw [hvip]; decide) (hc _)
  refine ⟨s, s', b', h, hvip, ?_, htx, hdst, hb'⟩
  rw [foldlM_cons, hrun]
  rfl

def relayResolution : Resolution :=
  ⟨fun _ => sampleMac, fun _ => sampleMac, fun _ => sampleMac, fun _ => sampleMac⟩

theorem relay_backInit (ip4 : Option InAddr) : ∃ s, BackReach ip4 s ∧
    s.clientInfo = initClientTable 0 0 ∧ s.svrInfo.svrIp6 = relayVip ∧ s.svrInfo.stat = true ∧
      s.ifIngress.vip6 = relayBack ∧ s.ifIngress.mac = ![2, 0, 0, 0, 0, 1] ∧
        s.ifEgress.mac = ![2, 0, 0, 0, 0, 1] ∧ s.vipMode = false := by
  refine ⟨backInit ip4 (some relayVip) sampleMac sampleMac sampleMac sampleMac .l2 0 0
    { sampleBack with ifIngress := relayIf relayBack }, .init _ _ _ _ _ _ _ _ _, ?_⟩
  cases ip4 with
  | none => exact ⟨rfl, rfl, rfl, rfl, rfl, rfl, rfl⟩
  | some ip4 => exact ⟨rfl, rfl, rfl, rfl, rfl, rfl, rfl⟩

theorem relay_back (ip4 : Option InAddr) {b : Buf} (hsrc : hSource b = ![2, 0, 0, 0, 0, 3])
    (hdest : isMulticast (hDest b) = false) (hproto : hProto b = ethPIpv6) (hnxt : ip6Nxt b ≠ 58)
    (hdst : ip6Dst b = relayBack) : ∃ s s' x, BackReach ip4 s ∧
      s.svrInfo.svrIp6 = relayVip ∧ s.ifIngress.vip6 = relayBack ∧
        s.recv ⟨.ingress, 62, relayResolution, 0, b, 62⟩ = .ok s' ∧
          s'.io.tx = s.io.tx ++ [x] ∧ x.sender = .procV6In ∧
            s'.clientInfo.dwn6 = .initial ∧ s'.vipMode = false ∧
              s'.ifIngress.mac = ![2, 0, 0, 0, 0, 1] ∧ s'.ifEgress.mac = ![2, 0, 0, 0, 0, 1] := by
  obtain ⟨s, h, hcl, hsvr, hok, hvip, hmac, heg, hmode⟩ := relay_backInit ip4
  obtain ⟨t, hci, -⟩ := CiTable.getCi_initial cliHash6 0 (ip6Src b)
  have hup : getCiUp6 0 (ip6Src b) s.clientInfo = .ok { initClientTable 0 0 with up6 := t } := by
    rw [hcl, getCiUp6]
    change CiTable.getCi cliHash6 0 (ip6Src b) .initial >>= _ = _
    rw [hci]
    rfl
  have hto : ToV6In 62 s b 62 :=
    ⟨by rw [hsrc, hmac]; decide, hdest, hproto, by decide, if_neg hnxt⟩
  have hto' : ip6Dst b = (s.stat .rxPacketV6In).ifIngress.vip6 := hdst.trans hvip.symm
  have hrun : backIngress 62 relayResolution 0 b 62 s = .ok (forwardV6In b 62 (true,
      { s.stat .rxPacketV6In with clientInfo := { initClientTable 0 0 with up6 := t } })) := by
    rw [backIngress_v6 hto, procV6In, if_neg (not_not.mpr hto')]
    change (getCiUp6 0 (ip6Src b) s.clientInfo >>= _) = _
    rw [hup]
    change Except.ok (forwardV6In b 62 _) = _
    rw [BackState.resolveSvr, if_pos (by exact hok)]
  refine ⟨s, (forwardV6In b 62 (true, { s.stat .rxPacketV6In with
    clientInfo := { initClientTable 0 0 with up6 := t } })).2, _, h, hsvr, hvip, ?_, rfl, rfl,
    rfl, hmode, hmac, heg⟩
  change backIngress 62 relayResolution 0 b 62 s >>= _ = _
  rw [hrun]
  rfl

theorem relay_answer {s : BackState} {b : Buf} (hdwn : s.clientInfo.dwn6 = .initial)
    (hmode : s.vipMode = false) (hsrc : hSource b ≠ s.ifEgress.mac)
    (hdest : hDest b ≠ s.ifEgress.mac) (huc : isMulticast (hDest b) = false)
    (hproto : hProto b = ethPIpv6) (hnxt : ip6Nxt b ≠ 58) :
    ∃ s', s.recv ⟨.egress, 62, relayResolution, 0, b, 62⟩ = .ok s' ∧
      s'.io.tx = s.io.tx ++ [⟨.procV6Eg, s.ifIngress.sockfd, frame b 62⟩] := by
  obtain ⟨t, hci, -⟩ := CiTable.getCi_initial cliHash6 0 (ip6Dst b)
  have hup : getCiDwn6 0 (ip6Dst b) s.clientInfo = .ok { s.clientInfo with dwn6 := t } := by
    rw [getCiDwn6, hdwn, hci]
    rfl
  have hns : isIcmp6Ns 62 b 62 = .ok false := if_neg hnxt
  have hrun : backEgress 62 relayResolution 0 b 62 s =
      procV6Eg relayResolution 0 b 62 (s.stat .rxPacketV6Eg) := by
    rw [backEgress, if_pos (by decide), procEgressData, if_neg hsrc, huc,
      if_neg Bool.false_ne_true, hproto, if_neg (by decide), if_pos rfl, if_pos (by decide), hns]
    rfl
  refine ⟨({ s.stat .rxPacketV6Eg with clientInfo := { s.clientInfo with dwn6 := t } }.writeIn
    .procV6Eg (frame b 62)).stat .txPacketV6Eg, ?_, rfl⟩
  change backEgress 62 relayResolution 0 b 62 s >>= _ = _
  rw [hrun, procV6Eg, if_neg (by rw [show (s.stat .rxPacketV6Eg).vipMode = false from hmode]; simp),
    procV6EgNovip]
  change (getCiDwn6 0 (ip6Dst b) s.clientInfo >>= _) >>= _ = _
  rw [hup]
  change (if hDest b = s.ifEgress.mac then _ else _) >>= _ = _
  rw [if_neg hdest]
  rfl

/-- The sample with another payload. -/
def relayNext : Buf := store relayFrame 61 ![7]

/-- A frame of the interface itself, which is not handled. -/
def relayOwn : Buf := store relayFrame 6 ![2, 0, 0, 0, 0, 1]

/-- A packet for the backend, and the answer of its server. -/
def relayTo : Buf := store (store relayFrame 6 ![2, 0, 0, 0, 0, 3]) 38 relayBack

def relayFrom : Buf := store (store relayFrame 0 ![2, 0, 0, 0, 0, 7]) 6 ![2, 0, 0, 0, 0, 8]

/-- A packet, a frame that is not handled, and another packet. -/
def relayArrivals : List FrontArrival :=
  [relayArrival, ⟨62, fun _ => sampleMac, 0, relayOwn, 62⟩,
    ⟨62, fun _ => sampleMac, 0, relayNext, 62⟩]

/-- A packet to the server, a frame that is not handled, and the answer. -/
def relayTurns : List BackArrival :=
  [⟨.ingress, 62, relayResolution, 0, relayTo, 62⟩,
    ⟨.ingress, 62, relayResolution, 0, relayOwn, 62⟩,
    ⟨.egress, 62, relayResolution, 0, relayFrom, 62⟩]

/-- Of three frames two are forwarded, by the front translator and by a backend that has no IPv4
server. -/
theorem frames_in_order_sample :
    (∃ s s' x y, FrontReach s ∧
      relayArrivals.foldlM FrontState.recv s = .ok s' ∧
      s'.io.tx = s.io.tx ++ [x, y] ∧ x.bytes[61]? = some 0 ∧ y.bytes[61]? = some 7 ∧
      SublistForall₂ (FrontSent s.vip4 s.vip6) [x, y] relayArrivals) ∧
    (∃ s s' x y, BackReach none s ∧
      relayTurns.foldlM BackState.recv s = .ok s' ∧
      s'.io.tx = s.io.tx ++ [x, y] ∧ x.sender = .procV6In ∧ y.sender = .procV6Eg ∧
      SublistForall₂ (BackSent s) [x, y] relayTurns) ∧
    ∃ s, BackReach (some ![10, 0, 0, 1]) s ∧ s.svrInfo.svrIp4 = ![10, 0, 0, 1] ∧
      s.svrInfo.checksumDelta = calcChksumDelta s.ifIngress.vip4 ![10, 0, 0, 1] := by
  refine ⟨?_, ?_, ?_⟩
  · obtain ⟨s, mac, h, hvip, hmac, hc⟩ := relay_init
    obtain ⟨s₁, b₁, hrun₁, h₁, hh₁, htx₁, -, hb₁⟩ := FrontState.recv_forwards6
      (a := relayArrival) h (by decide) (show hSource relayFrame ≠ _ by rw [hmac]; decide)
      (by decide) (by decide) (by decide) (show ip6Dst relayFrame = _ by rw [hvip]; decide) (hc _)
    have hown : s₁.recv ⟨62, fun _ => sampleMac, 0, relayOwn, 62⟩ = .ok s₁ := by
      have hif : hSource relayOwn = s₁.ifIngress.mac := by
        rw [hh₁.ifIngress, hmac]
        decide
      rw [FrontState.recv, frontIngress1_own (by decide) hif]
      rfl
    obtain ⟨s₂, b₂, hrun₂, -, -, htx₂, -, hb₂⟩ := FrontState.recv_forwards6
      (a := ⟨62, fun _ => sampleMac, 0, relayNext, 62⟩) h₁ (by decide)
      (show hSource relayNext ≠ _ by rw [hh₁.ifIngress, hmac]; decide) (by decide) (by decide)
      (by decide) (show ip6Dst relayNext = _ by rw [hh₁.vip6, hvip]; decide) ((hc _).mono hh₁.ext6)
    have hrun : relayArrivals.foldlM FrontState.recv s = .ok s₂ := by
      rw [relayArrivals, foldlM_cons_ok hrun₁, foldlM_cons_ok hown, foldlM_cons_ok hrun₂]
      rfl
    rw [htx₁, append_assoc] at htx₂
    obtain ⟨xs, hxs, hrel⟩ := frames_in_order.1 h hrun
    obtain rfl := append_cancel_left (htx₂.symm.trans hxs)
    refine ⟨s, s₂, _, _, h, hrun, htx₂, ?_, ?_, hrel⟩
    · exact (getElem?_frame (by decide)).trans (congrArg some (hb₁ 61 (by decide) (by decide)))
    · exact (getElem?_frame (by decide)).trans (congrArg some (hb₂ 61 (by decide) (by decide)))
  · obtain ⟨s, s₁, x, h, -, -, hrun₁, htx₁, hx, hdwn, hmode, hmac, heg⟩ := relay_back none
      (b := relayTo) (by decide) (by decide) (by decide) (by decide) (by decide)
    have hown : s₁.recv ⟨.ingress, 62, relayResolution, 0, relayOwn, 62⟩ = .ok s₁ := by
      have hsrc : hSource relayOwn = s₁.ifIngress.mac := by
        rw [hmac]
        decide
      change backIngress 62 relayResolution 0 relayOwn 62 s₁ >>= _ = _
      rw [backIngress_own (by decide) hsrc]
      rfl
    obtain ⟨s₂, hrun₂, htx₂⟩ := relay_answer (b := relayFrom) hdwn hmode
      (by rw [heg]; decide) (by rw [heg]; decide) (by decide) (by decide) (by decide)
    have hrun : relayTurns.foldlM BackState.recv s = .ok s₂ := by
      rw [relayTurns, foldlM_cons_ok hrun₁, foldlM_cons_ok hown, foldlM_cons_ok hrun₂]
      rfl
    rw [htx₁, append_assoc] at htx₂
    obtain ⟨xs, hxs, hrel⟩ := frames_in_order.2.1 hrun
    obtain rfl := append_cancel_left (htx₂.symm.trans hxs)
    exact ⟨s, s₂, x, _, h, hrun, htx₂, hx, rfl, hrel⟩
  · have h : BackReach (some ![10, 0, 0, 1]) (backInit (some ![10, 0, 0, 1]) none sampleMac
      sampleMac sampleMac sampleMac .l2 0 0 sampleBack) := .init _ _ _ _ _ _ _ _ _
    exact ⟨_, h, frames_in_order.2.2 h⟩

/-- The sample comes to the server, with another hop limit. -/
theorem delivered6_sample : ∃ y : Tx, y.sender = .procV6In ∧
    Carried6 (recvBuf y.bytes) y.bytes.length (frame relayFrame 62) := by
  obtain ⟨s₁, s₁', b, h₁, hvip, hrun₁, htx₁, hdst, hb⟩ := relay_front
  -- the last router
  obtain ⟨b₂, hb₂⟩ : ∃ b₂ : Buf, b₂ = store (store (store (store b hlimOffset ![63])
    0 ![2, 0, 0, 0, 0, 1]) 6 ![2, 0, 0, 0, 0, 3]) 12 ![0x86, 0xdd] := ⟨_, rfl⟩
  have hsame : ∀ i, 14 ≤ i → i ≠ hlimOffset → b₂ i = b i := fun i hi hne => by
    rw [hlimOffset] at hne
    rw [hb₂, hlimOffset, store_apply_of_not _ _ (by omega), store_apply_of_not _ _ (by omega),
      store_apply_of_not _ _ (by omega), store_apply_of_not _ _ (by omega)]
  have hsrc₂ : hSource b₂ = ![2, 0, 0, 0, 0, 3] := by
    rw [hb₂, hSource, load_store_of_disjoint _ _ (by omega), load_store_self]
  have hdest₂ : hDest b₂ = ![2, 0, 0, 0, 0, 1] := by
    rw [hb₂, hDest, load_store_of_disjoint _ _ (by omega), load_store_of_disjoint _ _ (by omega),
      load_store_self]
  have hproto₂ : hProto b₂ = ethPIpv6 := by
    rw [hb₂, hProto, load_store_self]
    rfl
  have hdst₂ : ip6Dst b₂ = relayBack := by
    rw [← hdst]
    exact funext fun k => hsame _ (by omega) (by rw [hlimOffset]; omega)
  obtain ⟨s₂, s₂', x, -, hsvr, hvip₂, hrecv₂, htx₂, hx, -⟩ := relay_back none hsrc₂
    (by rw [hdest₂]; decide) hproto₂ (by
      rw [ip6Nxt, hsame 20 (by omega) (by decide), hb 20 (by omega) (by omega)]
      decide) hdst₂
  have hrun₂ : [⟨.ingress, 62, relayResolution, 0, b₂, 62⟩].foldlM BackState.recv s₂ =
      .ok s₂' := by
    rw [foldlM_cons, hrecv₂]
    rfl
  have hrel := delivered6 h₁ (hsvr.trans hvip.symm) hrun₁ htx₁ (by
    rw [List.filter_cons_of_pos (by exact decide_eq_true ⟨⟨rfl, hproto₂⟩, hdst₂.trans hvip₂.symm⟩),
      List.filter_cons_of_pos (by rfl)]
    refine .cons ⟨(length_frame _ _).le, fun i hi hil hne => ?_⟩ .nil
    rw [length_frame] at hil
    exact (getElem?_frame hil).trans (congrArg some (hsame i hi hne).symm)) hrun₂ htx₂
  rw [List.filter_cons_of_pos (by simpa using hx)] at hrel
  cases hrel with
  | cons h _ => exact ⟨x, hx, h⟩
  | cons_right h => cases h

end Sasat
