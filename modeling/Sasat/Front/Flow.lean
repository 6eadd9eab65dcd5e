import Sasat.Front.Resolved
import Sasat.Translate.Stages

/-!
# Where packets go

The abstract dispatcher is a function of the policy file that has been loaded last and of the source
address. The translator that runs agrees with it on every packet that it forwards, whatever its
caches hold.

* `dispatch`: the abstract dispatcher.
* `FrontLife`: the states of the running translator, with the policy file that was loaded last.
* `Chosen`: the server and its MAC address that the tables choose; **`Chosen.unique`**,
  **`Chosen.mono`**: there is one, and it stays while the rules stay.
* **`frontIngress1_chosen`**: a packet is forwarded to the server that is chosen.
* **`dispatch_refined`**: that is the server of the abstract dispatcher.
* `PacketThread`: what happens between two reloads; **`flow_sticks`**: packets of one source go to
  one server.
-/

namespace Sasat

open Outcome

/-- The server for a source address: that of the first line that matches. -/
def dispatch {n : ℕ} (lines : List (PolicyLine n)) (a : Fin n → Byte) : Option (Fin n → Byte) :=
  (firstRule lines a).map fun r => r.2.2

/-- The states of the running translator, with the lines of the policy file that it has loaded. -/
inductive FrontLife : List (PolicyLine 4) × List (PolicyLine 16) → FrontState → Prop
  | init (pool4 : Fin lbMaxCache → LbPolCache 4 (BitVec 16))
      (pool6 : Fin lbMaxCache → LbPolCache 16 Unit) (i : Ifdata) (m : Bool)
      (lines4 : List (PolicyLine 4)) (lines6 : List (PolicyLine 16)) (mem s : FrontState) :
      frontInit pool4 pool6 i m lines4 lines6 mem = .ok s → FrontLife (lines4, lines6) s
  | op {files : List (PolicyLine 4) × List (PolicyLine 16)} {s s' : FrontState} (op : FrontOp) :
      FrontLife files s → op.step s = .ok s' → FrontLife (op.files files) s'
  | recv {files : List (PolicyLine 4) × List (PolicyLine 16)} {s s' : FrontState} {b b' : Buf}
      (lim : ℕ) (o : ℕ → MacOutcomes) (tsc : BitVec 64) (len : ℕ) : FrontLife files s →
      frontIngress1 lim o tsc b len s = .ok (b', s') → FrontLife files s'

theorem FrontLife.reach {files : List (PolicyLine 4) × List (PolicyLine 16)} {s : FrontState}
    (h : FrontLife files s) : FrontReach s := by
  induction h with
  | init pool4 pool6 i m lines4 lines6 mem s hinit => exact .init _ _ _ _ _ _ _ _ hinit
  | op op _ hstep ih => exact .op op ih hstep
  | recv lim o tsc len _ hrun ih => exact .recv lim o tsc len ih hrun

/-- **The rules are the lines that were loaded last.** -/
theorem FrontLife.loaded {files : List (PolicyLine 4) × List (PolicyLine 16)} {s : FrontState}
    (h : FrontLife files s) : Loaded files.1 files.2 s := by
  induction h with
  | init pool4 pool6 i m lines4 lines6 mem s hinit =>
    obtain ⟨s₁, hrun, -, hl⟩ := frontInit_spec pool4 pool6 i m lines4 lines6 mem
    rw [hrun] at hinit
    cases hinit
    exact hl
  | op op hprev hstep ih =>
    obtain ⟨s₁, hrun, -, hl⟩ := op.step_spec hprev.reach.inv.1 _ ih
    rw [hrun] at hstep
    cases hstep
    exact hl
  | @recv files s s' b b' lim o tsc len hprev hrun ih =>
    have hs := hprev.reach.inv.1
    have hh := (frontIngress1_handled hs lim o tsc b len).of_ok hrun
    obtain ⟨L4, h4⟩ := hs.side4
    obtain ⟨L6, h6⟩ := hs.side6
    exact ⟨(hh.ext4.rules h4.live).trans ih.rules4, (hh.ext6.rules h6.live).trans ih.rules6⟩

/-! ## The server that the tables choose -/

section

variable {n : ℕ} {D : Type} {s s' : PolSide n D} {a ip ip' : Fin n → Byte} {mac mac' : Mac}

/-- The first policy that matches the address `a` has a resolved server `ip` with the MAC address
`mac`. -/
def Chosen (s : PolSide n D) (a ip : Fin n → Byte) (mac : Mac) : Prop :=
  ∃ p f v, firstMatch s a = some p ∧ s.pols p = some f ∧ s.svrs f.svr = some v ∧
    v.status = .ok ∧ v.svrIp = ip ∧ v.dstMac = mac

/-- **One server is chosen.** -/
theorem Chosen.unique (h : Chosen s a ip mac) (h' : Chosen s a ip' mac') :
    ip' = ip ∧ mac' = mac := by
  obtain ⟨p, f, v, hp, hf, hv, -, rfl, rfl⟩ := h
  obtain ⟨p', f', v', hp', hf', hv', -, rfl, rfl⟩ := h'
  obtain rfl := Option.some.inj (hp'.symm.trans hp)
  obtain rfl := Option.some.inj (hf'.symm.trans hf)
  obtain rfl := Option.some.inj (hv'.symm.trans hv)
  exact ⟨rfl, rfl⟩

/-- **The choice stays** while the rules stay. -/
theorem Chosen.mono (h : Chosen s a ip mac) (hext : Extends s s') : Chosen s' a ip mac := by
  obtain ⟨p, f, v, hp, hf, hv, hok, hip, hmac⟩ := h
  obtain ⟨f', hf', -, -, hsvr⟩ := hext.pol hf
  obtain ⟨v', hv', hip', hkept⟩ := hext.svr _ _ hv
  obtain ⟨hst, hmac'⟩ := hkept (by rw [hok]; decide)
  exact ⟨p, f', v', (hext.firstMatch a).trans hp, hf', hsvr ▸ hv', hst.trans hok, hip'.trans hip,
    hmac'.trans hmac⟩

theorem Answer.chosen {F : Family n D} {e : CachePtr} (h : Answer F s a (some e) s')
    (hext : Extends s s') : Chosen s' a (s'.cache e).lbDstIp (s'.cache e).lbDstMac := by
  unfold Answer at h
  cases hp : firstMatch s a with
  | none =>
    rw [hp] at h
    cases h
  | some p =>
    rw [hp] at h
    obtain ⟨f, v, v', hf, hv, hv', hip, h⟩ := h
    obtain ⟨f', hf', -, -, hsvr⟩ := hext.pol hf
    have hp' := (hext.firstMatch a).trans hp
    cases hst : v.status with
    | drop =>
      rw [hst] at h
      cases h
    | ok =>
      rw [hst] at h
      obtain ⟨e', he, hserves⟩ := h
      cases he
      obtain ⟨w, hw, hwip, hkept⟩ := hext.svr _ _ hv
      obtain ⟨hwst, hwmac⟩ := hkept (by rw [hst]; decide)
      exact ⟨p, f', w, hp', hf', hsvr ▸ hw, hwst.trans hst, hwip.trans hserves.1.symm,
        hwmac.trans hserves.2.1.symm⟩
    | init =>
      rw [hst] at h
      rcases h with h | ⟨e', he, hok, hserves⟩
      · cases h
      · cases he
        exact ⟨p, f', v', hp', hf', hsvr ▸ hv', hok, hserves.1.symm, hserves.2.1.symm⟩

/-- **The tables choose as the abstract dispatcher.** -/
theorem Chosen.dispatch (h : Chosen s a ip mac) (hlive : Live s) {lines : List (PolicyLine n)}
    (hl : rules s = lines.map fun l => some l.rule) : dispatch lines a = some ip := by
  obtain ⟨p, f, v, hp, hf, hv, -, rfl, -⟩ := h
  rw [Sasat.dispatch, ← firstMatch_rule hlive hl, hp, Option.bind_some, ruleAt_eq hf hv]
  rfl

end

/-! ## The packets that are forwarded -/

/-- What the translator in the state `s` forwards goes to the servers that are chosen. -/
structure SentChosen (b : Buf) (s : FrontState) (x : Tx) : Prop where
  v4 : x.sender = .procV4 →
    Chosen s.lb4 (ipSrc b) (ipDst (recvBuf x.bytes)) (hDest (recvBuf x.bytes))
  v6 : x.sender = .procV6 →
    Chosen s.lb6 (ip6Src b) (ip6Dst (recvBuf x.bytes)) (hDest (recvBuf x.bytes))

section

variable {s : FrontState} {o : ℕ → MacOutcomes} {tsc : BitVec 64} {b : Buf} {len : ℕ}

theorem SentChosen.other {s : FrontState} {x : Tx} (h4 : x.sender ≠ .procV4)
    (h6 : x.sender ≠ .procV6) : SentChosen b s x :=
  ⟨fun h => absurd h h4, fun h => absurd h h6⟩

theorem procV4_chosen (hs : FrontInv s) (hlen : 34 < len) :
    Post (fun r => Wrote (SentChosen b r.2) s.io r.2.io) (fun _ => True)
      (procV4 o tsc b len s) := by
  refine .ite (fun _ => .none rfl) fun _ => ?_
  obtain ⟨r, lb, hget, -, hext, hans⟩ := getPolV4_spec hs o tsc (ipSrc b)
  rw [hget]
  cases r with
  | none => exact .none rfl
  | some e =>
    refine Or.inr ⟨_, rfl, fun _ => ?_, (fun h => by cases h)⟩
    have h := hans.chosen hext
    rw [ipDst, hDest, load_recvBuf_frame (by omega), load_recvBuf_frame (by omega),
      load_store_of_disjoint _ _ (by omega), load_store_self, load_store_of_disjoint _ _ (by omega),
      load_store_of_disjoint _ _ (by omega), load_store_of_disjoint _ _ (by omega), load_store_self]
    exact h

theorem procV6_chosen (hs : FrontInv s) (hlen : 54 < len) :
    Post (fun r => Wrote (SentChosen b r.2) s.io r.2.io) (fun _ => True)
      (procV6 o tsc b len s) := by
  refine .ite (fun _ => .none rfl) fun _ => ?_
  obtain ⟨r, lb, hget, -, hext, hans⟩ := getPolV6_spec hs o tsc (ip6Src b)
  rw [hget]
  cases r with
  | none => exact .none rfl
  | some e =>
    refine Or.inr ⟨_, rfl, (fun h => by cases h), fun _ => ?_⟩
    have h := hans.chosen hext
    rw [ip6Dst, hDest, load_recvBuf_frame (by omega), load_recvBuf_frame (by omega),
      load_store_self, load_store_of_disjoint _ _ (by omega), load_store_of_disjoint _ _ (by omega),
      load_store_self]
    exact h

/-- **A packet is forwarded to the server that is chosen.** -/
theorem frontIngress1_chosen (hs : FrontInv s) (lim : ℕ) :
    Post (fun r => Wrote (SentChosen b r.2) s.io r.2.io) (fun _ => True)
      (frontIngress1 lim o tsc b len s) := by
  have harp : ∀ s' bytes, SentChosen b s' ⟨.arpReply, s.ifIngress.sockfd, bytes⟩ :=
    fun _ _ => .other Sender.noConfusion Sender.noConfusion
  have hna : ∀ s' bytes, SentChosen b s' ⟨.sendIcmp6Na, s.ifIngress.sockfd, bytes⟩ :=
    fun _ _ => .other Sender.noConfusion Sender.noConfusion
  have hsides : ∀ {s' : FrontState} {x : Tx}, SentChosen b s x → s'.lb4 = s.lb4 →
      s'.lb6 = s.lb6 → SentChosen b s' x :=
    fun hx h4 h6 => ⟨by rw [h4]; exact hx.v4, by rw [h6]; exact hx.v6⟩
  refine frontIngress1_post (fun _ => .none rfl) fun _ c hc => ?_
  cases c with
  | own | short4 | short6 | noip => exact .none rfl
  | multicast =>
    refine .ite (fun _ => ?_) fun _ => .none rfl
    exact .bind (macResolve_wrote frontArpStats s.ifIngress b _ (harp s) (hna s) lim (hProto b) len)
      fun _ hw => hw.mono fun _ hx => hsides hx rfl rfl
  | v4 =>
    exact (procV4_chosen (s := s.stat .rxPacketV4) ⟨hs.side4, hs.side6⟩
      (of_decide_eq_true hc.2.2)).mono (fun _ hx => hx) fun _ h => h
  | v6 =>
    exact (procV6_chosen (s := s.stat .rxPacketV6) ⟨hs.side4, hs.side6⟩ hc.2.2.1).mono
      (fun _ hx => hx) fun _ h => h
  | ns =>
    refine .ite (fun _ => ?_) fun _ => .none rfl
    exact .bind (macResolveUc6_wrote frontArpStats s.ifIngress b _ (hna s) lim len)
      fun _ hw => hw.mono fun _ hx => hsides hx rfl rfl
  | arp =>
    refine .ite (fun _ => ?_) fun _ => .none rfl
    exact (arpReply_wrote frontArpStats s.ifIngress b s.io (harp s)).mono
      fun _ hx => hsides hx rfl rfl

end

/-- **A packet for the virtual address is forwarded** when a server is chosen for its source. -/
theorem frontIngress1_forwards {s : FrontState} {b : Buf} {len : ℕ} {ip : InAddr} {mac : Mac}
    (h : FrontReach s) (lim : ℕ) (o : ℕ → MacOutcomes) (tsc : BitVec 64) (hlen : 34 < len)
    (hsrc : hSource b ≠ s.ifIngress.mac) (huc : isMulticast (hDest b) = false)
    (hproto : hProto b = ethPIp) (hdst : ipDst b = s.vip4)
    (hc : Chosen s.lb4 (ipSrc b) ip mac) : ∃ b' s' x,
      frontIngress1 lim o tsc b len s = .ok (b', s') ∧ s'.io.tx = s.io.tx ++ [x] ∧
        x.sender = .procV4 := by
  obtain ⟨hs, hconf, -⟩ := h.inv
  obtain ⟨p, f, v, hp, hf, hv, hok, -, -⟩ := hc
  obtain ⟨b', s', x, hrun, htx, hx, -⟩ := procV4_forwards (s := s.stat .rxPacketV4)
    ⟨hs.side4, hs.side6⟩ ⟨hconf.vip4, hconf.vip6⟩ o tsc hlen.le hdst hp hf hv hok
  refine ⟨b', s', x, ?_, htx, hx⟩
  rw [frontIngress1, if_pos (by omega), procRecvData, if_neg hsrc, huc, if_neg Bool.false_ne_true,
    if_pos hproto, if_pos hlen, hrun]

theorem frontIngress1_forwards6 {s : FrontState} {b : Buf} {len : ℕ} {ip : In6Addr} {mac : Mac}
    (h : FrontReach s) (lim : ℕ) (o : ℕ → MacOutcomes) (tsc : BitVec 64) (hlen : 54 < len)
    (hsrc : hSource b ≠ s.ifIngress.mac) (huc : isMulticast (hDest b) = false)
    (hproto : hProto b = ethPIpv6) (hnxt : ip6Nxt b ≠ 58) (hdst : ip6Dst b = s.vip6)
    (hc : Chosen s.lb6 (ip6Src b) ip mac) : ∃ b' s',
      frontIngress1 lim o tsc b len s = .ok (b', s') ∧
        s'.io.tx = s.io.tx ++ [⟨.procV6, s.ifIngress.sockfd, frame b' len⟩] ∧ ip6Dst b' = ip ∧
          ∀ i, 14 ≤ i → i < 38 ∨ 54 ≤ i → b' i = b i := by
  obtain ⟨hs, hconf, -⟩ := h.inv
  obtain ⟨r, lb, hget, -, hext, hans⟩ := getPolV6_spec (s := s.stat .rxPacketV6)
    ⟨hs.side4, hs.side6⟩ o tsc (ip6Src b)
  have hns : isIcmp6Ns lim b len = .ok false := if_neg hnxt
  have hrun : frontIngress1 lim o tsc b len s = procV6 o tsc b len (s.stat .rxPacketV6) := by
    rw [frontIngress1, if_pos (by omega), procRecvData, if_neg hsrc, huc,
      if_neg Bool.false_ne_true, hproto, if_neg (by decide), if_pos rfl, if_pos hlen, hns]
    rfl
  cases r with
  | none =>
    obtain ⟨p, f, v, hp, hf, hv, hok, -, -⟩ := hc
    unfold Answer at hans
    rw [show firstMatch (s.stat .rxPacketV6).lb6 (ip6Src b) = some p from hp] at hans
    obtain ⟨f', v', w, hf', hv', -, -, hserved⟩ := hans
    obtain rfl := Option.some.inj (hf.symm.trans hf')
    obtain rfl := Option.some.inj (hv.symm.trans hv')
    rw [hok] at hserved
    obtain ⟨e, he, -⟩ := hserved
    cases he
  | some e =>
    obtain ⟨hip, -⟩ := (hc.mono hext).unique (hans.chosen hext)
    obtain ⟨b', hb'⟩ : ∃ b', b' = store (store (store b 0 (lb.cache e).lbDstMac) 6
      s.ifIngress.mac) 38 (lb.cache e).lbDstIp := ⟨_, rfl⟩
    have hfwd : procV6 o tsc b len (s.stat .rxPacketV6) =
        .ok (b', ({ s.stat .rxPacketV6 with lb6 := lb }.stat .txPacketV6).write .procV6
          (frame b' len)) := by
      rw [procV6, if_neg (not_not.mpr (show _ = (s.stat .rxPacketV6).vip6 from hdst)), hget, hb']
      rfl
    refine ⟨b', _, hrun.trans hfwd, rfl, ?_, fun i hi hi' => ?_⟩ <;> rw [hb']
    · rw [ip6Dst, load_store_self, hip]
    · rw [store_apply_of_not _ _ (by omega), store_apply_of_not _ _ (by omega),
        store_apply_of_not _ _ (by omega)]

/-- **The translator refines the abstract dispatcher**: whatever has happened since it was started,
a packet that it forwards goes to the server for its source, by the policy file that was loaded
last. -/
theorem dispatch_refined {files : List (PolicyLine 4) × List (PolicyLine 16)}
    {s s' : FrontState} {b b' : Buf} {lim len : ℕ} {o : ℕ → MacOutcomes} {tsc : BitVec 64} {x : Tx}
    (h : FrontLife files s) (hrun : frontIngress1 lim o tsc b len s = .ok (b', s'))
    (htx : s'.io.tx = s.io.tx ++ [x]) :
    (x.sender = .procV4 → dispatch files.1 (ipSrc b) = some (ipDst (recvBuf x.bytes))) ∧
      (x.sender = .procV6 → dispatch files.2 (ip6Src b) = some (ip6Dst (recvBuf x.bytes))) := by
  have hsent := ((frontIngress1_chosen h.reach.inv.1 lim).of_ok hrun).of_eq htx
  have hlife := FrontLife.recv lim o tsc len h hrun
  have hl := hlife.loaded
  obtain ⟨hs', -⟩ := hlife.reach.inv
  obtain ⟨L4, h4⟩ := hs'.side4
  obtain ⟨L6, h6⟩ := hs'.side6
  exact ⟨fun hx => (hsent.v4 hx).dispatch h4.live hl.rules4,
    fun hx => (hsent.v6 hx).dispatch h6.live hl.rules6⟩

theorem sample_init : ∃ s mac, frontInit (fun _ => ⟨0, 0, 0, 0, .init, 0, 0, 0, 0, none, 0⟩)
    (fun _ => ⟨0, 0, 0, 0, .init, (), 0, 0, 0, none, 0⟩) (sampleIf ![10, 0, 0, 1]) false
    [sampleLine] [] sampleFront = .ok s ∧ s.vip4 = ![10, 0, 0, 1] ∧
      s.ifIngress.mac = ![2, 0, 0, 0, 0, 1] ∧
        Chosen s.lb4 (ipSrc sampleFrame) ![10, 0, 0, 2] mac := by
  obtain ⟨s, hinit, -⟩ := frontInit_spec (fun _ => ⟨0, 0, 0, 0, .init, 0, 0, 0, 0, none, 0⟩)
    (fun _ => ⟨0, 0, 0, 0, .init, (), 0, 0, 0, none, 0⟩) (sampleIf ![10, 0, 0, 1]) false
    [sampleLine] [] sampleFront
  have hrun := hinit
  obtain ⟨c, q, hq⟩ := initPolicyTable_eq (some fun _ => ⟨0, 0, 0, 0, .init, 0, 0, 0, 0, none, 0⟩)
    (initSvrMngTable (emptySide 4 (BitVec 16) 0))
  obtain ⟨lb, f, v, hload, hp, hf, hv, hok, hip⟩ := sample_load c q (ipSrc sampleFrame)
  obtain ⟨lb4, h4, hinit⟩ := bind_eq_ok.mp hinit
  obtain ⟨lb6, -, hinit⟩ := bind_eq_ok.mp hinit
  obtain rfl := Except.ok.inj (h4.symm.trans ((congrArg (getPolicy [sampleLine]) hq).trans hload))
  have hsi := Except.ok.inj hinit
  subst hsi
  exact ⟨_, v.dstMac, hrun, rfl, rfl, 1, f, v, hp, hf, hv, hok, hip, rfl⟩

theorem sample_forwards {s : FrontState} {mac : Mac} (h : FrontReach s)
    (hvip : s.vip4 = ![10, 0, 0, 1]) (hmac : s.ifIngress.mac = ![2, 0, 0, 0, 0, 1])
    (hc : Chosen s.lb4 (ipSrc sampleFrame) ![10, 0, 0, 2] mac) : ∃ b' s' x,
      frontIngress1 60 (fun _ => sampleMac) 0 sampleFrame 60 s = .ok (b', s') ∧
        s'.io.tx = s.io.tx ++ [x] ∧ x.sender = .procV4 :=
  frontIngress1_forwards h 60 _ 0 (by decide) (by rw [hmac]; decide) (by decide) (by decide)
    (by rw [hvip]; decide) hc

/-! ## Flows -/

/-- The packet thread goes from one state to another: it handles frames, and its patrol ticks. -/
inductive PacketThread (s : FrontState) : FrontState → Prop
  | refl : PacketThread s s
  | recv {s' s'' : FrontState} {b b' : Buf} (lim : ℕ) (o : ℕ → MacOutcomes) (tsc : BitVec 64)
      (len : ℕ) : PacketThread s s' → frontIngress1 lim o tsc b len s' = .ok (b', s'') →
      PacketThread s s''
  | patrol {s' s'' : FrontState} {tv : ℕ} : PacketThread s s' → procPatrol s' = .ok (tv, s'') →
      PacketThread s s''

/-- **The packet thread keeps the rules and the servers** that are resolved. -/
theorem PacketThread.extends {s s' : FrontState} (h : PacketThread s s') (hs : FrontInv s) :
    FrontInv s' ∧ Extends s.lb4 s'.lb4 ∧ Extends s.lb6 s'.lb6 := by
  induction h with
  | refl => exact ⟨hs, .refl _, .refl _⟩
  | recv lim o tsc len _ hrun ih =>
    obtain ⟨hs', h4, h6⟩ := ih
    have hh := (frontIngress1_handled hs' lim o tsc _ len).of_ok hrun
    exact ⟨hh.inv, h4.trans hh.ext4, h6.trans hh.ext6⟩
  | patrol _ hrun ih =>
    obtain ⟨hs', h4, h6⟩ := ih
    obtain ⟨tv, s₁, hrun₁, hs₁, -, hext4, hext6⟩ := procPatrol_spec hs'
    cases hrun.symm.trans hrun₁
    exact ⟨hs₁, h4.trans hext4, h6.trans hext6⟩

/-- **A flow sticks to its server.** Between two reloads all packets of one source that are
forwarded, whatever happens between them, go to the same address and to the same MAC address. -/
theorem flow_sticks {s₁ s₁' s₂ s₂' : FrontState} {b₁ b₁' b₂ b₂' : Buf} {lim₁ lim₂ len₁ len₂ : ℕ}
    {o₁ o₂ : ℕ → MacOutcomes} {tsc₁ tsc₂ : BitVec 64} {x₁ x₂ : Tx} (h : FrontReach s₁)
    (hrun₁ : frontIngress1 lim₁ o₁ tsc₁ b₁ len₁ s₁ = .ok (b₁', s₁'))
    (htx₁ : s₁'.io.tx = s₁.io.tx ++ [x₁]) (hbetween : PacketThread s₁' s₂)
    (hrun₂ : frontIngress1 lim₂ o₂ tsc₂ b₂ len₂ s₂ = .ok (b₂', s₂'))
    (htx₂ : s₂'.io.tx = s₂.io.tx ++ [x₂]) (hsender : x₂.sender = x₁.sender) :
    (x₁.sender = .procV4 → ipSrc b₂ = ipSrc b₁ →
      ipDst (recvBuf x₂.bytes) = ipDst (recvBuf x₁.bytes) ∧
        hDest (recvBuf x₂.bytes) = hDest (recvBuf x₁.bytes)) ∧
    (x₁.sender = .procV6 → ip6Src b₂ = ip6Src b₁ →
      ip6Dst (recvBuf x₂.bytes) = ip6Dst (recvBuf x₁.bytes) ∧
        hDest (recvBuf x₂.bytes) = hDest (recvBuf x₁.bytes)) := by
  have hsent₁ := ((frontIngress1_chosen h.inv.1 lim₁).of_ok hrun₁).of_eq htx₁
  have hs₁' := (FrontReach.recv lim₁ o₁ tsc₁ len₁ h hrun₁).inv.1
  obtain ⟨hs₂, h4, h6⟩ := hbetween.extends hs₁'
  have hh := (frontIngress1_handled hs₂ lim₂ o₂ tsc₂ b₂ len₂).of_ok hrun₂
  have hsent₂ := ((frontIngress1_chosen hs₂ lim₂).of_ok hrun₂).of_eq htx₂
  refine ⟨fun hx hsrc => ?_, fun hx hsrc => ?_⟩
  · have hc₂ := hsent₂.v4 (hsender.trans hx)
    rw [hsrc] at hc₂
    exact ((hsent₁.v4 hx).mono (h4.trans hh.ext4)).unique hc₂
  · have hc₂ := hsent₂.v6 (hsender.trans hx)
    rw [hsrc] at hc₂
    exact ((hsent₁.v6 hx).mono (h6.trans hh.ext6)).unique hc₂

theorem flow_sticks_sample : ∃ x₁ x₂ : Tx, x₁.sender = .procV4 ∧ x₂.sender = .procV4 ∧
    ipDst (recvBuf x₂.bytes) = ipDst (recvBuf x₁.bytes) ∧
      hDest (recvBuf x₂.bytes) = hDest (recvBuf x₁.bytes) := by
  obtain ⟨s, mac, hinit, hvip, hmac, hc⟩ := sample_init
  have hreach : FrontReach s := .init _ _ _ _ _ _ _ _ hinit
  obtain ⟨b₁, s₁, x₁, hrun₁, htx₁, hx₁⟩ := sample_forwards hreach hvip hmac hc
  have hh := (frontIngress1_handled hreach.inv.1 _ _ _ _ _).of_ok hrun₁
  obtain ⟨b₂, s₂, x₂, hrun₂, htx₂, hx₂⟩ := sample_forwards
    (.recv 60 _ 0 60 hreach hrun₁) (hh.vip4.trans hvip) (by rw [hh.ifIngress, hmac])
    (hc.mono hh.ext4)
  exact ⟨x₁, x₂, hx₁, hx₂,
    (flow_sticks hreach hrun₁ htx₁ .refl hrun₂ htx₂ (hx₂.trans hx₁.symm)).1 hx₁ rfl⟩

end Sasat
