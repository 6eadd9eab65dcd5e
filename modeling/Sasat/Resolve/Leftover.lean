import Sasat.Resolve.Accept

/-!
# Which ARP frames are answered from leftover bytes

The ARP handlers are not given the length of the frame. A frame that is shorter than an ARP packet
is completed by what earlier frames have left in the buffer.

* `SameFrame`: two buffers with the same frame.
* `Open`: the frame is short and may be completed to a request that is answered.
* `ArpHandler`: what the handlers have in common; **`ArpHandler.sameFrame_iff`**: what they write
  depends on the frame alone exactly when it is not `Open`.
* `arpReply_handler`, `arpEgressReply_handler`: the two handlers; **`arp_dispatch`**: what the
  dispatchers have in common.
* **`arp_leftover_iff`**: the three dispatchers.
-/

namespace Sasat

/-- The buffers have the same first `len` bytes. -/
def SameFrame (len : ℕ) (b b' : Buf) : Prop := ∀ i < len, b' i = b i

/-- The frame is shorter than an ARP packet, and what has come of it may start a request for some
address in `A`. -/
structure Open (A : InAddr → Prop) (b : Buf) (len : ℕ) : Prop where
  short : len < 42
  head : ∀ k : Fin 8, 14 + (k : ℕ) < len → b (14 + k) = arphdrTmpl k
  target : ∃ a, A a ∧ ∀ k : Fin 4, 38 + (k : ℕ) < len → b (38 + k) = a k

/-- A handler that answers the requests for the addresses in `A`, with the MAC address `m a`. -/
structure ArpHandler (f : Buf → List Tx) (A : InAddr → Prop) (m : InAddr → Mac) (tx : List Tx)
    (sender : Sender) (fd : ℕ) : Prop where
  answered : ∀ b, load b 14 8 = arphdrTmpl → A (arpTpa b) →
    f b = tx ++ [⟨sender, fd, frame (arpAnswer (m (arpTpa b)) b) 42⟩]
  ignored : ∀ b, ¬ (load b 14 8 = arphdrTmpl ∧ A (arpTpa b)) → f b = tx

section

variable {len : ℕ} {b b' : Buf}

theorem SameFrame.load_eq (h : SameFrame len b b') {off n : ℕ} (hn : off + n ≤ len) :
    load b' off n = load b off n := by
  funext k
  exact h (off + k) (by omega)

theorem SameFrame.store (h : SameFrame len b b') {n : ℕ} (off : ℕ) {v v' : Fin n → Byte}
    (hv : v' = v) : SameFrame len (store b off v) (store b' off v') := by
  subst hv
  intro i hi
  by_cases hm : off ≤ i ∧ i < off + n
  · rw [store_apply_of_mem b' _ hm.1 hm.2, store_apply_of_mem b _ hm.1 hm.2]
  · rw [store_apply_of_not b' _ (by omega), store_apply_of_not b _ (by omega), h i hi]

theorem SameFrame.arpAnswer (h : SameFrame len b b') (hlen : 42 ≤ len) (mac : Mac) :
    frame (arpAnswer mac b') 42 = frame (arpAnswer mac b) 42 := by
  have h1 := h.store 0 (h.load_eq (show 22 + 6 ≤ len by omega))
  have h2 := h1.store 6 (rfl : mac = mac)
  have h3 := h2.store 20 (rfl : (![0, 2] : Fin 2 → Byte) = ![0, 2])
  have h4 := h3.store 32 (h3.load_eq (show 22 + 6 ≤ len by omega))
  have h5 := h4.store 38 (h4.load_eq (show 28 + 4 ≤ len by omega))
  have h6 := h5.store 22 (rfl : mac = mac)
  have h7 := h6.store 28 (h.load_eq (show 38 + 4 ≤ len by omega))
  exact frame_congr.mpr fun i hi => h7 i (by omega)

theorem arpAnswer_spa (mac : Mac) (b : Buf) (k : Fin 4) :
    (frame (Sasat.arpAnswer mac b) 42)[28 + (k : ℕ)]? = some (arpTpa b k) := by
  rw [getElem?_frame (by omega)]
  exact congrArg some (congrFun (load_store_self _ 28 (load b 38 4)) k)

end

/-! ## Completions of a frame -/

/-- The frame, completed to a request for `a`. -/
def complete (b : Buf) (len : ℕ) (a : InAddr) : Buf := fun i =>
  if i < len then b i else store (store b 14 arphdrTmpl) 38 a i

variable {len : ℕ} {b : Buf} {a : InAddr}

theorem complete_same : SameFrame len b (complete b len a) := fun _ hi => if_pos hi

theorem load_complete {n off : ℕ} {v : Fin n → Byte}
    (hstore : load (store (store b 14 arphdrTmpl) 38 a) off n = v)
    (h : ∀ k : Fin n, off + (k : ℕ) < len → b (off + k) = v k) :
    load (complete b len a) off n = v := by
  funext k
  by_cases hk : off + (k : ℕ) < len
  · exact (if_pos hk).trans (h k hk)
  · exact (if_neg hk).trans (congrFun hstore k)

theorem head_complete (h : ∀ k : Fin 8, 14 + (k : ℕ) < len → b (14 + k) = arphdrTmpl k) :
    load (complete b len a) 14 8 = arphdrTmpl := by
  refine load_complete ?_ h
  rw [load_store_of_disjoint _ _ (by omega), load_store_self]

theorem arpTpa_complete (h : ∀ k : Fin 4, 38 + (k : ℕ) < len → b (38 + k) = a k) :
    arpTpa (complete b len a) = a := load_complete (load_store_self _ 38 a) h

namespace ArpHandler

variable {f : Buf → List Tx} {A : InAddr → Prop} {m : InAddr → Mac} {tx : List Tx} {sender : Sender}
  {fd : ℕ}

theorem unique (h : ArpHandler f A m tx sender fd) {f' : Buf → List Tx}
    (h' : ArpHandler f' A m tx sender fd) (b : Buf) : f b = f' b := by
  by_cases hA : load b 14 8 = arphdrTmpl ∧ A (arpTpa b)
  · exact (h.answered b hA.1 hA.2).trans (h'.answered b hA.1 hA.2).symm
  · exact (h.ignored b hA).trans (h'.ignored b hA).symm

theorem same_of_long (h : ArpHandler f A m tx sender fd) {b' : Buf} (hs : SameFrame len b b')
    (hlen : 42 ≤ len) : f b' = f b := by
  have hhead : load b' 14 8 = load b 14 8 := hs.load_eq (by omega)
  have htpa : arpTpa b' = arpTpa b := hs.load_eq (by omega)
  by_cases hA : load b 14 8 = arphdrTmpl ∧ A (arpTpa b)
  · rw [h.answered b hA.1 hA.2, h.answered b' (hhead.trans hA.1) (htpa ▸ hA.2), htpa,
      hs.arpAnswer hlen]
  · rw [h.ignored b hA, h.ignored b' (by rw [hhead, htpa]; exact hA)]

theorem ignored_of_not_open (h : ArpHandler f A m tx sender fd) (hlen : len < 42)
    (ho : ¬ Open A b len) {b' : Buf} (hs : SameFrame len b b') : f b' = tx := by
  refine h.ignored b' fun hA => ho ⟨hlen, fun k hk => ?_, arpTpa b', hA.2, fun k hk => ?_⟩
  · rw [← hs _ hk]
    exact congrFun hA.1 k
  · exact (hs _ hk).symm

theorem differs_of_open (h : ArpHandler f A m tx sender fd) (ho : Open A b len) :
    ∃ b' b'', SameFrame len b b' ∧ SameFrame len b b'' ∧ f b' ≠ f b'' := by
  obtain ⟨hlen, hhead, a, ha, htarget⟩ := ho
  -- the last byte of the target address is never received
  have htarget' : ∀ k : Fin 4, 38 + (k : ℕ) < len →
      b (38 + k) = Function.update a 3 (a 3 + 1) k := by
    intro k hk
    rw [Function.update_of_ne (by rintro rfl; omega)]
    exact htarget k hk
  refine ⟨complete b len a, complete b len (Function.update a 3 (a 3 + 1)), complete_same,
    complete_same, ?_⟩
  have htpa := arpTpa_complete htarget
  have htpa' := arpTpa_complete htarget'
  rw [h.answered _ (head_complete hhead) (htpa.symm ▸ ha)]
  by_cases hA : A (Function.update a 3 (a 3 + 1))
  · rw [h.answered _ (head_complete hhead) (htpa'.symm ▸ hA)]
    intro heq
    have hbytes := congrArg Tx.bytes (List.singleton_injective (List.append_cancel_left heq))
    have hspa := arpAnswer_spa (m (arpTpa (complete b len a))) (complete b len a) 3
    dsimp only at hbytes
    rw [hbytes, arpAnswer_spa, htpa, htpa', Function.update_self, Option.some.injEq] at hspa
    exact absurd hspa (by simp)
  · rw [h.ignored _ fun hi => hA (htpa' ▸ hi.2)]
    simp

/-- **What is written depends on the frame alone exactly when it is not open.** -/
theorem sameFrame_iff (h : ArpHandler f A m tx sender fd) :
    (∀ b', SameFrame len b b' → f b' = f b) ↔ ¬ Open A b len := by
  constructor
  · intro hsame ho
    obtain ⟨b', b'', hs', hs'', hne⟩ := h.differs_of_open ho
    exact hne ((hsame b' hs').trans (hsame b'' hs'').symm)
  · intro ho b' hs
    by_cases hlen : 42 ≤ len
    · exact h.same_of_long hs hlen
    · have hshort : len < 42 := by omega
      rw [h.ignored_of_not_open hshort ho hs, h.ignored_of_not_open hshort ho fun _ _ => rfl]

end ArpHandler

/-! ## The handlers -/

theorem arpReply_handler {S : Type} [DecidableEq S] (st : ArpStats S) (ifd : Ifdata) (io : Io S) :
    ArpHandler (fun b => (arpReply st ifd b io).2.2.tx) (fun a => a = ifd.vip4) (fun _ => ifd.mac)
      io.tx .arpReply ifd.sockfd where
  answered b hhead htpa := by
    unfold arpReply
    rw [if_neg (not_not.mpr hhead), if_neg (not_not.mpr htpa)]
    dsimp only
    split <;> rfl
  ignored b hn := by
    unfold arpReply
    by_cases hhead : load b 14 8 = arphdrTmpl
    · rw [if_neg (not_not.mpr hhead), if_pos fun h => hn ⟨hhead, h⟩]
    · rw [if_pos hhead]

/-- The MAC address of the default gateway after at most two attempts to resolve it. -/
def gwMac (r : Resolution) (s : BackState) : Option Mac :=
  let s₁ := s.getDefaultGw4 (r.gw4 0)
  let s₂ := s₁.getDefaultGw4 (r.gw4 1)
  if s.gwMacV4Valid then some s.gwMacV4
  else if s₁.gwMacV4Valid then some s₁.gwMacV4
  else if s₂.gwMacV4Valid then some s₂.gwMacV4
  else none

/-- The MAC address that the egress side has for `a`: that of the default gateway, or its own. -/
def egressMac (r : Resolution) (s : BackState) (a : InAddr) : Option Mac :=
  if s.lMode = .l3 then gwMac r s
  else if (resolveMac (r.ip4 a) 0).1 then some (resolveMac (r.ip4 a) 0).2 else none

/-- The addresses that the egress side answers for. -/
def EgressAnswers (r : Resolution) (s : BackState) (a : InAddr) : Prop :=
  a ≠ s.ifEgress.sip4 ∧ a ≠ s.svrInfo.svrIp4 ∧ (egressMac r s a).isSome

section

variable (r : Resolution) (s : BackState) (b : Buf)

/-- The frames that have been written after `arp_proxy_body` with a MAC address, if there is one. -/
def proxyTx (mac : Option Mac) : List Tx :=
  match mac with
  | some mac => (arpProxyBody mac b s).2.2.io.tx
  | none => s.io.tx

theorem arpProxyBody_tx (mac : Mac) : (arpProxyBody mac b s).2.2.io.tx =
    if load b 14 8 = arphdrTmpl then
      s.io.tx ++ [⟨.arpProxyBody, s.ifEgress.sockfd, frame (arpAnswer mac b) 42⟩]
    else s.io.tx := by
  unfold arpProxyBody
  by_cases hhead : load b 14 8 = arphdrTmpl
  · rw [if_neg (not_not.mpr hhead), if_pos hhead]
    rfl
  · rw [if_pos hhead, if_neg hhead]

theorem counted_tx (x : Bool × Buf × BackState) (m : BackStat) :
    (match x with
      | (true, b, s) => (b, s.stat m)
      | (false, b, s) => (b, s)).2.io.tx = x.2.2.io.tx := by
  obtain ⟨_ | _, b, s⟩ := x <;> rfl

theorem arpGwReply_tx : (arpGwReply r b s).2.io.tx = proxyTx s b (gwMac r s) := by
  unfold arpGwReply gwMac
  dsimp only
  rw [arpGwLoop]
  split_ifs with h0 h1 h2
  · exact counted_tx _ _
  · rw [arpGwLoop, if_pos h1]
    exact (counted_tx _ _).trans ((arpProxyBody_tx _ _ _).trans (arpProxyBody_tx s b _).symm)
  · rw [arpGwLoop, if_neg h1, arpGwLoop, if_pos h2]
    exact (counted_tx _ _).trans ((arpProxyBody_tx _ _ _).trans (arpProxyBody_tx s b _).symm)
  · rw [arpGwLoop, if_neg h1, arpGwLoop, if_neg h2]
    rfl

theorem arpProxyReply_tx : (arpProxyReply r b s).2.io.tx = proxyTx s b
    (if (resolveMac (r.ip4 (arpTpa b)) 0).1 then some (resolveMac (r.ip4 (arpTpa b)) 0).2
      else none) := by
  unfold arpProxyReply
  generalize resolveMac (r.ip4 (arpTpa b)) 0 = x
  obtain ⟨_ | _, mac⟩ := x
  · rfl
  · exact counted_tx _ _

/-- **What `arp_egress_reply` writes.** -/
theorem arpEgressReply_handler : ArpHandler (fun b => (arpEgressReply r b s).2.io.tx)
    (EgressAnswers r s) (fun a => (egressMac r s a).getD 0) s.io.tx .arpProxyBody
      s.ifEgress.sockfd := by
  have htx : ∀ b, arpTpa b ≠ s.ifEgress.sip4 ∧ arpTpa b ≠ s.svrInfo.svrIp4 →
      (arpEgressReply r b s).2.io.tx = proxyTx s b (egressMac r s (arpTpa b)) := by
    intro b hc
    unfold arpEgressReply egressMac
    rw [if_pos hc]
    split_ifs with h3
    · exact arpGwReply_tx r s b
    · rw [arpProxyReply_tx, if_pos ‹_›]
    · rw [arpProxyReply_tx, if_neg ‹_›]
  constructor
  · rintro b hhead ⟨h1, h2, hmac⟩
    obtain ⟨mac, hmac⟩ := Option.isSome_iff_exists.mp hmac
    rw [htx b ⟨h1, h2⟩, hmac]
    exact (arpProxyBody_tx s b mac).trans (if_pos hhead)
  · intro b hn
    by_cases hc : arpTpa b ≠ s.ifEgress.sip4 ∧ arpTpa b ≠ s.svrInfo.svrIp4
    · rw [htx b hc]
      cases hmac : egressMac r s (arpTpa b) with
      | none => rfl
      | some mac =>
        refine (arpProxyBody_tx s b mac).trans (if_neg fun hhead => hn ⟨hhead, hc.1, hc.2, ?_⟩)
        rw [hmac]
        rfl
    · unfold arpEgressReply
      rw [if_neg hc]

end

/-! ## The dispatchers -/

/-- The ARP frames that come to the handler: of the multicasts the broadcasts, under `mc`. -/
def ArpHandled (own : Mac) (v4Enable : Bool) (mc : Prop) (b : Buf) : Prop :=
  hSource b ≠ own ∧ v4Enable = true ∧
    (isMulticast (hDest b) = true → isBroadcast (hDest b) = true ∧ mc)

def frontTx (x : M (Buf × FrontState)) : M (List Tx) := x.map fun r => r.2.io.tx

def backTx (x : M (Buf × BackState)) : M (List Tx) := x.map fun r => r.2.io.tx

theorem dispatch_iff {f : Buf → List Tx} {A : InAddr → Prop} {m : InAddr → Mac} {tx : List Tx}
    {sender : Sender} {fd : ℕ} (h : ArpHandler f A m tx sender fd) {g : Buf → M (List Tx)}
    {own : Mac} {v4Enable : Bool} {mc : Prop} (hlen : 14 < len) (hp : hProto b = ethPArp)
    (hg : ∀ b, hProto b = ethPArp → (ArpHandled own v4Enable mc b → g b = .ok (f b)) ∧
      (¬ ArpHandled own v4Enable mc b → g b = .ok tx)) :
    (∀ b', SameFrame len b b' → g b' = g b) ↔ ¬ (ArpHandled own v4Enable mc b ∧ Open A b len) := by
  have heth : ∀ b', SameFrame len b b' → hProto b' = ethPArp ∧
      (ArpHandled own v4Enable mc b' ↔ ArpHandled own v4Enable mc b) := by
    intro b' hs
    unfold ArpHandled hProto hSource hDest
    rw [hs.load_eq (show 12 + 2 ≤ len by omega), hs.load_eq (show 6 + 6 ≤ len by omega),
      hs.load_eq (show 0 + 6 ≤ len by omega)]
    exact ⟨hp, Iff.rfl⟩
  by_cases hh : ArpHandled own v4Enable mc b
  · rw [not_and, ← h.sameFrame_iff]
    constructor
    · intro hsame _ b' hs
      have heq := hsame b' hs
      rw [(hg b hp).1 hh, (hg b' (heth b' hs).1).1 ((heth b' hs).2.mpr hh)] at heq
      exact Except.ok.inj heq
    · intro hsame b' hs
      rw [(hg b hp).1 hh, (hg b' (heth b' hs).1).1 ((heth b' hs).2.mpr hh), hsame hh b' hs]
  · refine ⟨fun _ hn => hh hn.1, fun _ b' hs => ?_⟩
    rw [(hg b hp).2 hh, (hg b' (heth b' hs).1).2 fun hn => hh ((heth b' hs).2.mp hn)]

theorem arpReply_tx_stat {S : Type} [DecidableEq S] (st : ArpStats S) (ifd : Ifdata) (b : Buf)
    (io : Io S) (m : S) : (arpReply st ifd b (io.stat m)).2.2.tx = (arpReply st ifd b io).2.2.tx :=
  (arpReply_handler st ifd (io.stat m)).unique (arpReply_handler st ifd io) b

theorem arpEgressReply_tx_stat (r : Resolution) (s : BackState) (b : Buf) (m : BackStat) :
    (arpEgressReply r b (s.stat m)).2.io.tx = (arpEgressReply r b s).2.io.tx :=
  (show ArpHandler _ (EgressAnswers r s) (fun a => (egressMac r s a).getD 0) s.io.tx .arpProxyBody
    s.ifEgress.sockfd from arpEgressReply_handler r (s.stat m)).unique
      (arpEgressReply_handler r s) b

theorem arp_ne : ethPArp ≠ ethPIp ∧ ethPArp ≠ ethPIpv6 := by decide

section

variable {b : Buf} (lim : ℕ) (o : ℕ → MacOutcomes) (r : Resolution) (tsc : BitVec 64) (len : ℕ)

theorem macResolve_arp {S : Type} [DecidableEq S] (st : ArpStats S) {ifd : Ifdata} (io : Io S)
    (h : isBroadcast (hDest b) = true ∧ ifd.v4Enable = true) :
    macResolve st lim ifd ethPArp len b io = .ok (arpReply st ifd b io).2 := by
  rw [macResolve, if_pos h.1, if_pos ⟨rfl, h.2⟩]

theorem macResolve_arp_not {S : Type} [DecidableEq S] (st : ArpStats S) {ifd : Ifdata} (io : Io S)
    (h : ¬ (isBroadcast (hDest b) = true ∧ ifd.v4Enable = true)) :
    macResolve st lim ifd ethPArp len b io = .ok (b, io.stat st.rxDrop) := by
  unfold macResolve
  split_ifs with hb h4 h6
  · exact absurd ⟨hb, h4.2⟩ h
  · rfl
  · exact absurd h6.1 arp_ne.2
  · rfl

/-- **What the dispatchers have in common** on an ARP frame: `mcast` handles multicasts, `arp`
unicasts where IPv4 is enabled. What is written, `w`, is `tx` without and `t` with an answer. -/
theorem arp_dispatch {α : Type} {w : M α → M (List Tx)} {tx t : List Tx} {own : Mac}
    {v4Enable : Bool} {mc : Prop} {start mcast v4 v6 arp idle rest : M α} (hp : hProto b = ethPArp)
    (hstart : w start = .ok tx) (hidle : w idle = .ok tx) (harp : v4Enable = true → w arp = .ok t)
    (hmc : (isBroadcast (hDest b) = true ∧ v4Enable = true) ∧ mc → w mcast = .ok t)
    (hmc_not : ¬ ((isBroadcast (hDest b) = true ∧ v4Enable = true) ∧ mc) → w mcast = .ok tx) :
    (ArpHandled own v4Enable mc b → w (if hSource b = own then start
      else if isMulticast (hDest b) then mcast
      else if hProto b = ethPIp then v4
      else if hProto b = ethPIpv6 then v6
      else if hProto b = ethPArp then (if v4Enable then arp else idle) else rest) = .ok t) ∧
    (¬ ArpHandled own v4Enable mc b → w (if hSource b = own then start
      else if isMulticast (hDest b) then mcast
      else if hProto b = ethPIp then v4
      else if hProto b = ethPIpv6 then v6
      else if hProto b = ethPArp then (if v4Enable then arp else idle) else rest) = .ok tx) := by
  rw [hp]
  by_cases hown : hSource b = own
  · rw [if_pos hown]
    exact ⟨fun hh => absurd hown hh.1, fun _ => hstart⟩
  rw [if_neg hown]
  by_cases hm : isMulticast (hDest b) = true
  · rw [if_pos hm]
    refine ⟨fun ⟨_, h4, hb⟩ => hmc ⟨⟨(hb hm).1, h4⟩, (hb hm).2⟩, fun hh => hmc_not fun h => ?_⟩
    exact hh ⟨hown, h.1.2, fun _ => ⟨h.1.1, h.2⟩⟩
  · rw [if_neg hm, if_neg arp_ne.1, if_neg arp_ne.2, if_pos rfl]
    by_cases h4 : v4Enable = true
    · rw [if_pos h4]
      exact ⟨fun _ => harp h4, fun hh => absurd ⟨hown, h4, fun h => absurd h hm⟩ hh⟩
    · rw [if_neg h4]
      exact ⟨fun hh => absurd hh.2.1 h4, fun _ => hidle⟩

theorem procRecvData_arp (s : FrontState) (hp : hProto b = ethPArp) :
    (ArpHandled s.ifIngress.mac s.ifIngress.v4Enable (s.vipMode = true) b →
      frontTx (procRecvData lim o tsc b len s) =
        .ok (arpReply frontArpStats s.ifIngress b s.io).2.2.tx) ∧
    (¬ ArpHandled s.ifIngress.mac s.ifIngress.v4Enable (s.vipMode = true) b →
      frontTx (procRecvData lim o tsc b len s) = .ok s.io.tx) := by
  refine arp_dispatch hp rfl rfl (fun _ => rfl) (fun ⟨h, hv⟩ => ?_) fun h => ?_
  · rw [if_pos hv, hp, macResolve_arp lim len _ _ h]
    exact congrArg Except.ok (arpReply_tx_stat _ _ _ _ _)
  · by_cases hv : s.vipMode = true
    · rw [if_pos hv, hp, macResolve_arp_not lim len _ _ fun hb => h ⟨hb, hv⟩]
      rfl
    · rw [if_neg hv]
      rfl

theorem procIngressData_arp (s : BackState) (hp : hProto b = ethPArp) :
    (ArpHandled s.ifIngress.mac s.ifIngress.v4Enable True b →
      backTx (procIngressData lim r tsc b len s) =
        .ok (arpReply backArpStats s.ifIngress b s.io).2.2.tx) ∧
    (¬ ArpHandled s.ifIngress.mac s.ifIngress.v4Enable True b →
      backTx (procIngressData lim r tsc b len s) = .ok s.io.tx) := by
  refine arp_dispatch hp rfl rfl (fun _ => congrArg Except.ok ?_) (fun ⟨h, _⟩ => ?_) fun h => ?_
  · dsimp only
    split_ifs <;> rfl
  · rw [hp, macResolve_arp lim len _ _ h]
    exact congrArg Except.ok (arpReply_tx_stat _ _ _ _ _)
  · rw [hp, macResolve_arp_not lim len _ _ fun hb => h ⟨hb, trivial⟩]
    rfl

theorem procEgressData_arp (s : BackState) (hp : hProto b = ethPArp) :
    (ArpHandled s.ifEgress.mac s.ifEgress.v4Enable True b →
      backTx (procEgressData lim r tsc b len s) = .ok (arpEgressReply r b s).2.io.tx) ∧
    (¬ ArpHandled s.ifEgress.mac s.ifEgress.v4Enable True b →
      backTx (procEgressData lim r tsc b len s) = .ok s.io.tx) := by
  refine arp_dispatch hp rfl rfl (fun _ => rfl) (fun ⟨h, _⟩ => ?_) fun h => ?_
  · rw [hp, macResolveEgress, if_pos h.1, if_pos ⟨rfl, h.2⟩]
    exact congrArg Except.ok (arpEgressReply_tx_stat r s b _)
  · rw [hp, macResolveEgress]
    by_cases hb : isBroadcast (hDest b) = true
    · rw [if_pos hb, if_neg fun h4 => h ⟨⟨hb, h4.2⟩, trivial⟩]
      rfl
    · rw [if_neg hb, if_neg fun h6 => arp_ne.2 h6.1]
      rfl

end

/-- **The ARP frames that are handled by their own bytes.** -/
theorem arp_leftover_iff (lim len : ℕ) (b : Buf) (hlen : 14 < len) (hp : hProto b = ethPArp) :
    (∀ (s : FrontState) (o : ℕ → MacOutcomes) (tsc : BitVec 64),
      (∀ b', SameFrame len b b' → frontTx (procRecvData lim o tsc b' len s) =
          frontTx (procRecvData lim o tsc b len s)) ↔
        ¬ (ArpHandled s.ifIngress.mac s.ifIngress.v4Enable (s.vipMode = true) b ∧
          Open (fun a => a = s.ifIngress.vip4) b len)) ∧
    (∀ (s : BackState) (r : Resolution) (tsc : BitVec 64),
      (∀ b', SameFrame len b b' → backTx (procIngressData lim r tsc b' len s) =
          backTx (procIngressData lim r tsc b len s)) ↔
        ¬ (ArpHandled s.ifIngress.mac s.ifIngress.v4Enable True b ∧
          Open (fun a => a = s.ifIngress.vip4) b len)) ∧
    ∀ (s : BackState) (r : Resolution) (tsc : BitVec 64),
      (∀ b', SameFrame len b b' → backTx (procEgressData lim r tsc b' len s) =
          backTx (procEgressData lim r tsc b len s)) ↔
        ¬ (ArpHandled s.ifEgress.mac s.ifEgress.v4Enable True b ∧
          Open (EgressAnswers r s) b len) := by
  refine ⟨fun s o tsc => ?_, fun s r tsc => ?_, fun s r tsc => ?_⟩
  · exact dispatch_iff (arpReply_handler frontArpStats s.ifIngress s.io) hlen hp
      fun b hp => procRecvData_arp lim o tsc len s hp
  · exact dispatch_iff (arpReply_handler backArpStats s.ifIngress s.io) hlen hp
      fun b hp => procIngressData_arp lim r tsc len s hp
  · exact dispatch_iff (arpEgressReply_handler r s) hlen hp
      fun b hp => procEgressData_arp lim r tsc len s hp

/-- A request for `10.0.0.1` from `10.0.0.7`. -/
def sampleArp : Buf := fun i =>
  ([0xff, 0xff, 0xff, 0xff, 0xff, 0xff, 2, 0, 0, 0, 0, 7, 8, 6, 0, 1, 8, 0, 6, 4, 0, 1,
    2, 0, 0, 0, 0, 7, 10, 0, 0, 7, 0, 0, 0, 0, 0, 0, 10, 0, 0, 1] : List Byte).getD i 0

/-- Its first `15` bytes. -/
def sampleArpShort : Buf := fun i => if i < 15 then sampleArp i else 0

theorem arp_leftover_sample : ∃ s, FrontReach s ∧ ∀ b', SameFrame 42 sampleArp b' →
    frontTx (procRecvData 1520 (fun _ _ => ⟨true, 0⟩) 0 b' 42 s) =
      frontTx (procRecvData 1520 (fun _ _ => ⟨true, 0⟩) 0 sampleArp 42 s) := by
  obtain ⟨s, hs, -⟩ := sample_front6
  obtain ⟨hfront, -⟩ := arp_leftover_iff 1520 42 sampleArp (by decide) (by decide)
  exact ⟨s, hs, (hfront s _ 0).mpr fun h => absurd h.2.short (by decide)⟩

/-- Its first `15` bytes are answered when the rest is left over, and ignored when zeros are. -/
theorem arp_leftover_sample_ne : ∃ s, FrontReach s ∧ hProto sampleArpShort = ethPArp ∧
    SameFrame 15 sampleArpShort sampleArp ∧
      frontTx (procRecvData 1520 (fun _ _ => ⟨true, 0⟩) 0 sampleArp 15 s) ≠
        frontTx (procRecvData 1520 (fun _ _ => ⟨true, 0⟩) 0 sampleArpShort 15 s) := by
  obtain ⟨s, hs, hif, hvip⟩ := sample_front6
  have hproto : hProto sampleArp = ethPArp := by decide
  have hproto' : hProto sampleArpShort = ethPArp := by decide
  have hh : ArpHandled s.ifIngress.mac s.ifIngress.v4Enable (s.vipMode = true) sampleArp := by
    rw [hif]
    exact ⟨by decide, rfl, fun _ => ⟨by decide, hvip⟩⟩
  have hh' : ArpHandled s.ifIngress.mac s.ifIngress.v4Enable (s.vipMode = true) sampleArpShort := by
    rw [hif]
    exact ⟨by decide, rfl, fun _ => ⟨by decide, hvip⟩⟩
  have hreply := arpReply_handler frontArpStats s.ifIngress s.io
  refine ⟨s, hs, hproto', fun i hi => (if_pos hi).symm, ?_⟩
  rw [(procRecvData_arp _ _ _ _ s hproto).1 hh, (procRecvData_arp _ _ _ _ s hproto').1 hh']
  intro heq
  have htx := Except.ok.inj heq
  rw [hreply.answered sampleArp (by decide) (by rw [hif]; decide),
    hreply.ignored sampleArpShort fun h => absurd h.1 (by decide)] at htx
  exact absurd htx (by simp)

end Sasat
