import Sasat.Front.Front
import Sasat.Back.Backend
import Sasat.Translate.Header
import Sasat.Back.ClientWalk

/-!
# The two translation stages

* `rewriteFrame`: the frame with the destination and the checksum that a translator writes.
* `translateFrame`: with the delta of the two addresses; **`headerWords_translateFrame`**: on the
  header words this is `translate`.
* `Rewritten`, `Stage`: a frame that a translator has forwarded.
* **`frontIngress1_stage`**, **`backIngress_rewrites`**: what `proc_v4` and `proc_v4_in` forward.
* **`stages_compose`**: the second stage undoes the first.
-/

namespace Sasat

open Outcome OnesComplement Intrusive

/-- The stores of `proc_v4` and `proc_v4_in` behind the Ethernet header, with the delta that the
translator holds. -/
def rewriteFrame (b : Buf) (new : InAddr) (delta : BitVec 16) : Buf :=
  store (store b 30 new) 24 (bytes16 (ntohs (add16forCheckSum (ntohs (ipSumField b)) delta)))

/-- With the delta of the two addresses. -/
def translateFrame (b : Buf) (old new : InAddr) : Buf :=
  rewriteFrame b new (calcChksumDelta old new)

section

variable {b b' : Buf} {old new : InAddr} {i n : ℕ}

theorem translateFrame_of_not (h : ¬ (24 ≤ i ∧ i < 26)) (h' : ¬ (30 ≤ i ∧ i < 34)) :
    translateFrame b old new i = b i := by
  rw [translateFrame, rewriteFrame, store_apply_of_not _ _ (by omega),
    store_apply_of_not _ _ (by omega)]

theorem translateFrame_apply_dst (h : 30 ≤ i ∧ i < 34) :
    translateFrame b old new i = new ⟨i - 30, by omega⟩ := by
  rw [translateFrame, rewriteFrame, store_apply_of_not _ _ (by omega),
    store_apply_of_mem _ _ h.1 h.2]

theorem load_translateFrame_of_not {off : ℕ} (h : off + n ≤ 24 ∨ 26 ≤ off)
    (h' : off + n ≤ 30 ∨ 34 ≤ off) : load (translateFrame b old new) off n = load b off n := by
  rw [translateFrame, rewriteFrame, load_store_of_disjoint _ _ (by omega),
    load_store_of_disjoint _ _ (by omega)]

theorem ipSumField_translateFrame : ntohs (ipSumField (translateFrame b old new)) =
    add16forCheckSum (ntohs (ipSumField b)) (calcChksumDelta old new) := by
  rw [ipSumField, translateFrame, rewriteFrame, load_store_self, le16_bytes16, ntohs_ntohs]

theorem ipDst_translateFrame : ipDst (translateFrame b old new) = new := by
  rw [ipDst, translateFrame, rewriteFrame, load_store_of_disjoint _ _ (by omega), load_store_self]

/-! ## The header words -/

/-- The first `n` words of the IPv4 header, in host order. -/
def headerWords (b : Buf) (n : ℕ) : List (BitVec 16) :=
  (List.range n).map fun k => ntohs (le16 (load b (14 + 2 * k) 2))

theorem getElem?_headerWords (h : i < n) :
    (headerWords b n)[i]? = some (ntohs (le16 (load b (14 + 2 * i) 2))) := by
  simp [headerWords, h]

theorem hasDst_headerWords (h : 10 ≤ n) : HasDst (headerWords b n) (ipDst b) := by
  refine ⟨?_, ?_⟩
  · rw [getElem?_headerWords (by omega), hiWord]
    refine congrArg (fun v => some (ntohs (le16 v))) (funext fun k => ?_)
    match k with
    | 0 => rfl
    | 1 => rfl
  · rw [getElem?_headerWords (by omega), loWord]
    refine congrArg (fun v => some (ntohs (le16 v))) (funext fun k => ?_)
    match k with
    | 0 => rfl
    | 1 => rfl

theorem ipSum_headerWords (h : 10 ≤ n) : ipSum (headerWords b n) = ntohs (ipSumField b) := by
  rw [ipSum, List.getD_eq_getElem?_getD, getElem?_headerWords (by omega)]
  rfl

/-- **The header of the forwarded frame is the translated header.** -/
theorem headerWords_translateFrame (h : 10 ≤ n) (b : Buf) (old new : InAddr) :
    headerWords (translateFrame b old new) n = translate (headerWords b n) old new := by
  have hlen : (headerWords b n).length = n := by simp [headerWords]
  have hdst := hasDst_headerWords (b := translateFrame b old new) h
  have hsum := ipSum_headerWords (b := translateFrame b old new) h
  rw [ipDst_translateFrame] at hdst
  rw [ipSumField_translateFrame] at hsum
  rw [translate, rewriteDst, ipSum_headerWords h, ← hsum]
  apply List.ext_getElem?
  intro i
  simp only [List.getElem?_set, List.length_set, hlen]
  split_ifs with h5 h5' h9 h9' h8 h8'
  · subst h5
    rw [ipSum, List.getD_eq_getElem?_getD, getElem?_headerWords (by omega)]
    rfl
  · omega
  · subst h9
    exact hdst.2
  · omega
  · subst h8
    exact hdst.1
  · omega
  · by_cases hi : i < n
    · rw [getElem?_headerWords hi, getElem?_headerWords hi,
        load_translateFrame_of_not (by omega) (by omega)]
    · rw [List.getElem?_eq_none (by simp [headerWords]; omega), List.getElem?_eq_none (by omega)]

/-! ## Two stages -/

/-- The deltas of the two stages add up to zero. -/
theorem toNat_calcChksumDelta_add (old new : InAddr) :
    ((calcChksumDelta old new).toNat + (calcChksumDelta new old).toNat) % 65535 = 0 := by
  have ho := addrSum_le old
  have hn := addrSum_le new
  have m1 := fold16_mod (131070 - addrSum old + addrSum new)
  have m2 := fold16_mod (131070 - addrSum new + addrSum old)
  have l1 := fold16_le (131070 - addrSum old + addrSum new)
  have l2 := fold16_le (131070 - addrSum new + addrSum old)
  rw [toNat_calcChksumDelta, toNat_calcChksumDelta]
  omega

/-- **The two updates of a checksum restore it**, up to the encoding of zero. -/
theorem add16_add16 (x : BitVec 16) (old new : InAddr) :
    (x ≠ 0 → add16forCheckSum (add16forCheckSum x (calcChksumDelta old new))
      (calcChksumDelta new old) = x) ∧
    (x = 0 → add16forCheckSum (add16forCheckSum x (calcChksumDelta old new))
      (calcChksumDelta new old) = 0 ∨
        add16forCheckSum (add16forCheckSum x (calcChksumDelta old new))
          (calcChksumDelta new old) = 0xffff) := by
  have h := fold16_undo (Nat.le_of_lt_succ x.isLt) (toNat_calcChksumDelta_add old new)
  rw [← toNat_add16forCheckSum, ← toNat_add16forCheckSum] at h
  constructor
  · intro hx
    exact BitVec.eq_of_toNat_eq (h.1 fun h0 => hx (BitVec.eq_of_toNat_eq h0))
  · intro hx
    exact (h.2 (by rw [hx]; rfl)).imp (fun h0 => BitVec.eq_of_toNat_eq h0)
      fun h0 => BitVec.eq_of_toNat_eq h0

end

/-- A frame that a translator has forwarded: `x` is the received frame `b` of `len` bytes with the
destination `old` replaced by `new` and `delta` added to the checksum, under another Ethernet
header. -/
structure Rewritten (old new : InAddr) (delta : BitVec 16) (b : Buf) (len : ℕ) (x : Tx) :
    Prop where
  long : 34 ≤ len
  dst : ipDst b = old
  length : x.bytes.length = len
  bytes : ∀ i, 14 ≤ i → i < len → x.bytes[i]? = some (rewriteFrame b new delta i)

/-- The delta is that of the two addresses. -/
structure Stage (old new : InAddr) (b : Buf) (len : ℕ) (x : Tx) : Prop where
  long : 34 ≤ len
  dst : ipDst b = old
  length : x.bytes.length = len
  bytes : ∀ i, 14 ≤ i → i < len → x.bytes[i]? = some (translateFrame b old new i)

section

variable {b : Buf} {len : ℕ}

theorem Rewritten.stage {old new : InAddr} {delta : BitVec 16} {x : Tx}
    (h : Rewritten old new delta b len x) (hd : delta = calcChksumDelta old new) :
    Stage old new b len x := by
  subst hd
  exact ⟨h.long, h.dst, h.length, h.bytes⟩

theorem Rewritten.of_stores {old new : InAddr} {delta : BitVec 16} (b' : Buf) {x : Tx}
    (hlen : 34 ≤ len) (hdst : ipDst b = old) (hb : ∀ i, 14 ≤ i → b' i = b i)
    (hx : x.bytes = frame (store (store b' 30 new) 24 (bytes16 (ntohs
      (add16forCheckSum (ntohs (ipSumField (store b' 30 new))) delta)))) len) :
    Rewritten old new delta b len x := by
  have hsum : ipSumField (store b' 30 new) = ipSumField b := by
    rw [ipSumField, load_store_of_disjoint _ _ (by omega)]
    refine congrArg le16 (funext fun k => ?_)
    rw [load_apply, load_apply, hb _ (by omega)]
  refine ⟨hlen, hdst, by rw [hx, length_frame], fun i hi hil => ?_⟩
  rw [hx, getElem?_frame hil, rewriteFrame, hsum, store, store, store, store]
  split_ifs
  · rfl
  · rfl
  · rw [hb i hi]

theorem Answer.delta {n : ℕ} {D : Type} {F : Family n D} {s s' : PolSide n D} {a : Fin n → Byte}
    {e : CachePtr} (h : Answer F s a (some e) s') :
    (s'.cache e).chksumDelta = F.delta (s'.cache e).lbDstIp := by
  unfold Answer at h
  split at h
  · cases h
  · obtain ⟨f, v, v', -, -, -, -, h⟩ := h
    have hserve : ∀ w : ServerTbl n, Serves F (s'.cache e) w →
        (s'.cache e).chksumDelta = F.delta (s'.cache e).lbDstIp := by
      intro w hw
      rw [hw.2.2, hw.1]
    split at h
    · cases h
    · obtain ⟨e', he, hv⟩ := h
      cases he
      exact hserve v hv
    · rcases h with h | ⟨e', he, -, hv⟩
      · cases h
      · cases he
        exact hserve v' hv

theorem procV4_some {s : FrontState} (hc : FrontConfig s) {o : ℕ → MacOutcomes} {tsc : BitVec 64}
    {e : CachePtr} {lb : PolSide 4 (BitVec 16)} (hlen : 34 ≤ len) (hdst : ipDst b = s.vip4)
    (hget : getPolV4 o tsc (ipSrc b) s = .ok (some e, { s with lb4 := lb }))
    (hd : (lb.cache e).chksumDelta = (family4 s.ifIngress.vip4).delta (lb.cache e).lbDstIp) :
    ∃ b' s' x, procV4 o tsc b len s = .ok (b', s') ∧ s'.io.tx = s.io.tx ++ [x] ∧
      x.sender = .procV4 ∧ Stage s.vip4 (lb.cache e).lbDstIp b len x := by
  unfold procV4
  rw [if_neg (not_not.mpr hdst), hget]
  refine ⟨_, _, _, rfl, rfl, rfl, Rewritten.stage (.of_stores
    (store (store b 0 (lb.cache e).lbDstMac) 6 s.ifIngress.mac) hlen hdst (fun i hi => ?_) rfl) ?_⟩
  · rw [store_apply_of_not _ _ (by omega), store_apply_of_not _ _ (by omega)]
  · rw [hc.vip4]
    exact hd

theorem procV4_stage {s : FrontState} (hs : FrontInv s) (hc : FrontConfig s) (o : ℕ → MacOutcomes)
    (tsc : BitVec 64) (hlen : 34 ≤ len) :
    Post (fun r => Wrote (fun x => ∃ new, Stage s.vip4 new b len x) s.io r.2.io) (fun _ => True)
      (procV4 o tsc b len s) := by
  by_cases hdst : ipDst b = s.vip4
  · obtain ⟨r, lb, hget, -, -, hans⟩ := getPolV4_spec hs o tsc (ipSrc b)
    cases r with
    | none =>
      unfold procV4
      rw [if_neg (not_not.mpr hdst), hget]
      exact .none rfl
    | some e =>
      obtain ⟨b', s', x, hrun, htx, -, hx⟩ := procV4_some hc hlen hdst hget hans.delta
      exact post_of_ok hrun (Or.inr ⟨x, htx, _, hx⟩)
  · unfold procV4
    rw [if_pos hdst]
    exact .none rfl

/-- **A packet for the virtual address is forwarded** when the first policy that matches its source
has a server whose MAC address is known. -/
theorem procV4_forwards {s : FrontState} (hs : FrontInv s) (hc : FrontConfig s)
    (o : ℕ → MacOutcomes) (tsc : BitVec 64) (hlen : 34 ≤ len) (hdst : ipDst b = s.vip4) {p : Ptr}
    {f : LbPol 4} {v : ServerTbl 4} (hp : firstMatch s.lb4 (ipSrc b) = some p)
    (hf : s.lb4.pols p = some f) (hv : s.lb4.svrs f.svr = some v) (hok : v.status = .ok) :
    ∃ b' s' x, procV4 o tsc b len s = .ok (b', s') ∧ s'.io.tx = s.io.tx ++ [x] ∧
      x.sender = .procV4 ∧ Stage s.vip4 v.svrIp b len x := by
  obtain ⟨r, lb, hget, -, -, hans⟩ := getPolV4_spec hs o tsc (ipSrc b)
  have hans' := hans
  unfold Answer at hans'
  rw [hp] at hans'
  obtain ⟨f', v', w, hf', hv', -, -, hserved⟩ := hans'
  obtain rfl := Option.some.inj (hf.symm.trans hf')
  obtain rfl := Option.some.inj (hv.symm.trans hv')
  rw [hok] at hserved
  obtain ⟨e, rfl, hserve⟩ := hserved
  have h := procV4_some hc hlen hdst hget hans.delta
  rw [show lb.cache e = ({ s with lb4 := lb } : FrontState).lb4.cache e from rfl, hserve.1] at h
  exact h

theorem procV4In_rewrites {s : BackState} (r : Resolution) (tsc : BitVec 64) (hlen : 34 ≤ len) :
    Post (fun x => Wrote (Rewritten s.ifIngress.vip4 s.svrInfo.svrIp4 s.svrInfo.checksumDelta b len)
      s.io x.2.io) (fun _ => True) (procV4In r tsc b len s) := by
  refine .ite (fun _ => .none rfl) fun hdst => .bind .trivial fun ci _ => ?_
  have hk := (BackKept.clientInfo s ci).trans (.resolveSvr (r.ip4 s.svrInfo.svrIp4) _)
  have hio := BackKept.resolveSvr_io (r.ip4 s.svrInfo.svrIp4) { s with clientInfo := ci }
  change Wrote _ s.io (forwardV4In b len _).2.io
  generalize BackState.resolveSvr _ _ = y at hk hio ⊢
  unfold forwardV4In
  dsimp only
  split_ifs
  · refine Or.inr ⟨_, congrArg (fun io : Io BackStat => io.tx ++ _) hio, ?_⟩
    refine .of_stores (store b 0 y.2.svrInfo.svrMac) hlen (not_not.mp hdst)
      (fun i hi => store_apply_of_not _ _ (by omega)) ?_
    rw [← hk.svrIp4, ← hk.delta]
  · exact .none (show y.2.io.tx = s.io.tx from congrArg Io.tx hio)

theorem procV4In_forwards {s : BackState} (r : Resolution) (tsc : BitVec 64) (len : ℕ)
    (hdst : ipDst b = s.ifIngress.vip4) {ci : ClientInfo}
    (hci : getCiUp4 tsc (ipSrc b) s.clientInfo = .ok ci) (hok : s.svrInfo.stat = true) :
    ∃ b' s' x, procV4In r tsc b len s = .ok (b', s') ∧ s'.io.tx = s.io.tx ++ [x] ∧
      x.sender = .procV4In := by
  have hsvr : ∀ o, { s with clientInfo := ci }.resolveSvr o = (true, { s with clientInfo := ci }) :=
    fun o => if_pos hok
  have hrun : procV4In r tsc b len s =
      .ok (forwardV4In b len (true, { s with clientInfo := ci })) := by
    unfold procV4In
    rw [if_neg (not_not.mpr hdst), hci]
    change Except.ok (forwardV4In b len _) = _
    rw [hsvr]
  exact ⟨_, _, _, hrun, rfl, rfl⟩

/-- **What the front translator forwards as an IPv4 packet.** -/
theorem frontIngress1_stage {s : FrontState} (hs : FrontInv s) (hc : FrontConfig s) (lim : ℕ)
    (o : ℕ → MacOutcomes) (tsc : BitVec 64) : Post (fun r => Wrote (fun x => x.sender = .procV4 →
      ∃ new, Stage s.vip4 new b len x) s.io r.2.io) (fun _ => True)
        (frontIngress1 lim o tsc b len s) := by
  refine frontIngress1_wrote (fun _ h => by cases h) (fun _ h => by cases h) (fun hlen => ?_)
    fun _ => ?_
  · exact (procV4_stage (s := s.stat .rxPacketV4) ⟨hs.side4, hs.side6⟩ ⟨hc.vip4, hc.vip6⟩ o tsc
      (by omega)).mono (fun _ h => h.mono fun x hx _ => hx) fun _ h => h
  · refine (procV6_wrote o tsc b len _).mono (fun _ h => h.mono fun x hx h4 => ?_) fun _ h => h
    rw [h4] at hx
    cases hx

/-- **What the backend forwards as an IPv4 packet.** -/
theorem backIngress_rewrites {s : BackState} (lim : ℕ) (r : Resolution) (tsc : BitVec 64) :
    Post (fun x => Wrote (fun x => x.sender = .procV4In →
      Rewritten s.ifIngress.vip4 s.svrInfo.svrIp4 s.svrInfo.checksumDelta b len x) s.io x.2.io)
        (fun _ => True) (backIngress lim r tsc b len s) := by
  refine backIngress_wrote (fun _ h => by cases h) (fun _ h => by cases h) (fun hto => ?_)
    fun _ => procV6In_wrote fun _ _ h => by cases h
  exact (procV4In_rewrites (s := s.stat .rxPacketV4In) r tsc hto.long).mono
    (fun _ h => h.mono fun x hx _ => hx) fun _ h => h

end

/-- **The backend restores the packet that the front translator has forwarded.** Of the IP packet,
from byte 14 of the frame on, the first stage changes the checksum and the destination only, and
the second stage leaves every byte but the checksum as it was sent. The checksum is restored if it
was not zero, and zero in one of its encodings if it was. -/
theorem stages_compose {s₁ s₁' : FrontState} {s₂ s₂' : BackState} {b₁ b₁' b₂ b₂' : Buf}
    {x₁ x₂ : Tx} {lim₁ lim₂ len len₂ : ℕ} {o : ℕ → MacOutcomes} {r : Resolution}
    {tsc₁ tsc₂ : BitVec 64} (h₁ : FrontReach s₁) (h₂ : BackReach (some s₁.vip4) s₂)
    (hrun₁ : frontIngress1 lim₁ o tsc₁ b₁ len s₁ = .ok (b₁', s₁'))
    (htx₁ : s₁'.io.tx = s₁.io.tx ++ [x₁]) (hx₁ : x₁.sender = .procV4)
    (hlen : len ≤ len₂) (hpkt : ∀ i, 14 ≤ i → i < len → x₁.bytes[i]? = some (b₂ i))
    (hrun₂ : backIngress lim₂ r tsc₂ b₂ len₂ s₂ = .ok (b₂', s₂'))
    (htx₂ : s₂'.io.tx = s₂.io.tx ++ [x₂]) (hx₂ : x₂.sender = .procV4In) :
    (∀ i, 14 ≤ i → i < len → ¬ (24 ≤ i ∧ i < 26) → x₂.bytes[i]? = some (b₁ i)) ∧
      (∃ sum : BitVec 16, (∀ k : Fin 2, x₂.bytes[24 + (k : ℕ)]? = some (bytes16 sum k)) ∧
        (ipSumField b₁ ≠ 0 → sum = ipSumField b₁) ∧
          (ipSumField b₁ = 0 → sum = 0 ∨ sum = 0xffff)) ∧
      ∀ i, 14 ≤ i → i < len → ¬ (24 ≤ i ∧ i < 26) → ¬ (30 ≤ i ∧ i < 34) →
        x₁.bytes[i]? = some (b₁ i) := by
  obtain ⟨hs₁, hc₁, -⟩ := h₁.inv
  obtain ⟨hsvr, hdelta⟩ := h₂.delta
  -- what each of the stages has done
  obtain ⟨new, hst₁⟩ : ∃ new, Stage s₁.vip4 new b₁ len x₁ := by
    exact ((frontIngress1_stage hs₁ hc₁ lim₁ o tsc₁).of_ok hrun₁).of_eq htx₁ hx₁
  have hst₂ : Stage s₂.ifIngress.vip4 s₁.vip4 b₂ len₂ x₂ := by
    have hrew := ((backIngress_rewrites lim₂ r tsc₂).of_ok hrun₂).of_eq htx₂ hx₂
    rw [hsvr] at hrew
    exact hrew.stage hdelta
  have hlong := hst₁.long
  -- the packet that arrives is the packet that has been forwarded
  have hb₂ : ∀ i, 14 ≤ i → i < len → b₂ i = translateFrame b₁ s₁.vip4 new i := fun i hi hil =>
    Option.some.inj ((hpkt i hi hil).symm.trans (hst₁.bytes i hi hil))
  have hold : s₂.ifIngress.vip4 = new := by
    rw [← hst₂.dst, ← show ipDst (translateFrame b₁ s₁.vip4 new) = new from ipDst_translateFrame]
    funext k
    exact hb₂ _ (by omega) (by omega)
  have hsum : ipSumField b₂ = ipSumField (translateFrame b₁ s₁.vip4 new) := by
    refine congrArg le16 (funext fun k => ?_)
    exact hb₂ _ (by omega) (by omega)
  rw [hold] at hst₂
  refine ⟨fun i hi hil hne => ?_, ?_, fun i hi hil hne hne' => ?_⟩
  · rw [hst₂.bytes i hi (by omega)]
    by_cases hd : 30 ≤ i ∧ i < 34
    · rw [translateFrame_apply_dst hd, ← hst₁.dst]
      refine congrArg (fun j => some (b₁ j)) ?_
      change 30 + (i - 30) = i
      omega
    · rw [translateFrame_of_not hne hd, hb₂ i hi hil, translateFrame_of_not hne hd]
  · refine ⟨ipSumField (translateFrame b₂ new s₁.vip4), fun k => ?_, ?_⟩
    · rw [ipSumField, bytes16_le16]
      exact hst₂.bytes _ (by omega) (by omega)
    · have hundo := add16_add16 (ntohs (ipSumField b₁)) s₁.vip4 new
      have hv : ntohs (ipSumField (translateFrame b₂ new s₁.vip4)) = _ := ipSumField_translateFrame
      rw [hsum, ipSumField_translateFrame (b := b₁)] at hv
      rw [← hv] at hundo
      refine ⟨fun h0 => ntohs_injective (hundo.1 fun h => h0 (ntohs_injective h)), fun h0 => ?_⟩
      exact (hundo.2 (by rw [h0]; rfl)).imp (fun h => ntohs_injective h) fun h => ntohs_injective h
  · rw [hst₁.bytes i hi hil, translateFrame_of_not hne hne']

/-! ## A sample -/

/-- An interface with the virtual address `vip4`. -/
def sampleIf (vip4 : InAddr) : Ifdata :=
  ⟨3, ![2, 0, 0, 0, 0, 1], true, false, 0, ![10, 0, 0, 9], vip4, 0, 0⟩

def sampleMac : MacOutcomes := fun _ => ⟨true, ![2, 0, 0, 0, 0, 2]⟩

/-- The line that sends every client to the backend `10.0.0.2`. -/
def sampleLine : PolicyLine 4 := ⟨0, 0, ![10, 0, 0, 2], sampleMac⟩

def sampleFront : FrontState :=
  ⟨emptySide 4 (BitVec 16) 0, emptySide 16 Unit (), sampleIf 0, false, 0, 0, ⟨fun _ => 0, []⟩⟩

def sampleBack : BackState :=
  ⟨initClientTable 0 0, ⟨false, false, false, 0, 0, 0, 0⟩, sampleIf ![10, 0, 0, 2], sampleIf 0,
    false, .l2, false, false, 0, 0, ⟨fun _ => 0, []⟩⟩

/-- A UDP packet of 46 bytes from `192.168.0.5` to `10.0.0.1`. -/
def sampleFrame : Buf := fun i =>
  ([2, 0, 0, 0, 0, 1, 2, 0, 0, 0, 0, 7, 8, 0, 0x45, 0, 0, 46, 0, 0, 0, 0, 64, 17, 0xaf, 0x1a,
    192, 168, 0, 5, 10, 0, 0, 1] : List Byte).getD i 0

theorem sample_load (c : CachePtr → LbPolCache 4 (BitVec 16)) (q : TailqHeap CacheList CachePtr)
    (a : InAddr) : ∃ lb f v,
      getPolicy [sampleLine] { emptySide 4 (BitVec 16) 0 with cache := c, tq := q } = .ok lb ∧
        firstMatch lb a = some 1 ∧ lb.pols 1 = some f ∧ lb.svrs f.svr = some v ∧ v.status = .ok ∧
          v.svrIp = ![10, 0, 0, 2] := by
  refine ⟨_, _, _, rfl, ?_, rfl, rfl, ?_, rfl⟩
  · have hm : ∀ x : InAddr, maskIp x (0 : InAddr) = 0 := fun x => by simp [maskIp, funext_iff]
    refine List.find?_cons_of_pos ?_
    rw [matchPol_eq rfl]
    exact decide_eq_true ((hm a).trans (hm 0).symm)
  · rfl

theorem sample_front : ∃ s s' b' x, FrontReach s ∧ s.vip4 = ![10, 0, 0, 1] ∧
    frontIngress1 60 (fun _ => sampleMac) 0 sampleFrame 60 s = .ok (b', s') ∧
      s'.io.tx = s.io.tx ++ [x] ∧ x.sender = .procV4 ∧
        Stage ![10, 0, 0, 1] ![10, 0, 0, 2] sampleFrame 60 x := by
  obtain ⟨s, hinit, hs, -⟩ := frontInit_spec (fun _ => ⟨0, 0, 0, 0, .init, 0, 0, 0, 0, none, 0⟩)
    (fun _ => ⟨0, 0, 0, 0, .init, (), 0, 0, 0, none, 0⟩) (sampleIf ![10, 0, 0, 1]) false
    [sampleLine] [] sampleFront
  have hreach : FrontReach s := .init _ _ _ _ _ _ _ _ hinit
  obtain ⟨-, hc, -⟩ := hreach.inv
  obtain ⟨c, q, hq⟩ := initPolicyTable_eq (some fun _ => ⟨0, 0, 0, 0, .init, 0, 0, 0, 0, none, 0⟩)
    (initSvrMngTable (emptySide 4 (BitVec 16) 0))
  obtain ⟨lb, f, v, hload, hp, hf, hv, hok, hip⟩ := sample_load c q (ipSrc sampleFrame)
  obtain ⟨lb4, h4, hinit⟩ := bind_eq_ok.mp hinit
  obtain ⟨lb6, -, hinit⟩ := bind_eq_ok.mp hinit
  obtain rfl := Except.ok.inj (h4.symm.trans ((congrArg (getPolicy [sampleLine]) hq).trans hload))
  have hsi := Except.ok.inj hinit
  have hvip : s.vip4 = ![10, 0, 0, 1] := congrArg FrontState.vip4 hsi.symm
  have hlb : s.lb4 = lb4 := congrArg FrontState.lb4 hsi.symm
  have hif : s.ifIngress = sampleIf ![10, 0, 0, 1] := congrArg FrontState.ifIngress hsi.symm
  have hrun := procV4_forwards (b := sampleFrame) (s := s.stat .rxPacketV4)
    ⟨hs.side4, hs.side6⟩ ⟨hc.vip4, hc.vip6⟩ (fun _ => sampleMac) 0 (show 34 ≤ 60 by decide)
    (show _ = s.vip4 by rw [hvip]; decide) (show firstMatch s.lb4 _ = _ by rw [hlb]; exact hp)
    (show s.lb4.pols 1 = _ by rw [hlb]; exact hf) (show s.lb4.svrs _ = _ by rw [hlb]; exact hv) hok
  obtain ⟨b', s', x, hrun, htx, hx, hst⟩ := hrun
  refine ⟨s, s', b', x, hreach, hvip, ?_, htx, hx, ?_⟩
  · rw [frontIngress1, if_pos (by decide), procRecvData, hif, if_neg (by decide),
      if_neg (by decide), if_pos (by decide), if_pos (by decide), hrun]
  · rw [← hip, ← hvip]
    exact hst

theorem sample_back : ∃ s s' b' x, BackReach (some ![10, 0, 0, 1]) s ∧
    backIngress 60
      ⟨fun _ => sampleMac, fun _ => sampleMac, fun _ => sampleMac, fun _ => sampleMac⟩ 0
      (translateFrame sampleFrame ![10, 0, 0, 1] ![10, 0, 0, 2]) 60 s = .ok (b', s') ∧
      s'.io.tx = s.io.tx ++ [x] ∧ x.sender = .procV4In := by
  obtain ⟨t, hci, -⟩ := CiTable.getCi_initial cliHash4 0 ![192, 168, 0, 5]
  obtain ⟨s, hs⟩ : ∃ s, s = backInit (some ![10, 0, 0, 1]) none sampleMac sampleMac sampleMac
    sampleMac .l2 0 0 sampleBack := ⟨_, rfl⟩
  have hcl : s.clientInfo = initClientTable 0 0 := by rw [hs]; rfl
  have hif : s.ifIngress = sampleIf ![10, 0, 0, 2] := by rw [hs]; rfl
  have hok : s.svrInfo.stat = true := by rw [hs]; rfl
  have hsrc : ipSrc (translateFrame sampleFrame ![10, 0, 0, 1] ![10, 0, 0, 2]) =
      ![192, 168, 0, 5] := by
    rw [ipSrc, load_translateFrame_of_not (by omega) (by omega)]
    decide
  have hup : getCiUp4 0 ![192, 168, 0, 5] s.clientInfo =
      .ok { initClientTable 0 0 with up4 := t } := by
    rw [hcl, getCiUp4]
    change CiTable.getCi cliHash4 0 ![192, 168, 0, 5] .initial >>= _ = _
    rw [hci]
    rfl
  obtain ⟨b', s', x, hrun, htx, hx⟩ := procV4In_forwards (s := s.stat .rxPacketV4In)
    ⟨fun _ => sampleMac, fun _ => sampleMac, fun _ => sampleMac, fun _ => sampleMac⟩ 0 60
    (show ipDst (translateFrame sampleFrame ![10, 0, 0, 1] ![10, 0, 0, 2]) = s.ifIngress.vip4 by
      rw [hif]; exact ipDst_translateFrame) (by rw [hsrc]; exact hup) hok
  refine ⟨s, s', b', x, hs ▸ .init none _ _ _ _ _ _ _ _, ?_, htx, hx⟩
  have heth : ∀ {off n : ℕ}, off + n ≤ 24 → load (translateFrame sampleFrame ![10, 0, 0, 1]
      ![10, 0, 0, 2]) off n = load sampleFrame off n :=
    fun h => load_translateFrame_of_not (Or.inl h) (by omega)
  rw [backIngress, if_pos (by decide), procIngressData, hif, hSource, hDest, hProto,
    heth (by decide), heth (by decide), heth (by decide), if_neg (by decide), if_neg (by decide),
    if_pos (by decide), if_pos (by decide), hrun]

theorem stages_compose_sample : ∃ x₁ x₂ : Tx, x₁.sender = .procV4 ∧ x₂.sender = .procV4In ∧
    (∀ i, 14 ≤ i → i < 60 → ¬ (24 ≤ i ∧ i < 26) → x₂.bytes[i]? = some (sampleFrame i)) ∧
      (∃ sum : BitVec 16, (∀ k : Fin 2, x₂.bytes[24 + (k : ℕ)]? = some (bytes16 sum k)) ∧
        (ipSumField sampleFrame ≠ 0 → sum = ipSumField sampleFrame) ∧
          (ipSumField sampleFrame = 0 → sum = 0 ∨ sum = 0xffff)) ∧
      ∀ i, 14 ≤ i → i < 60 → ¬ (24 ≤ i ∧ i < 26) → ¬ (30 ≤ i ∧ i < 34) →
        x₁.bytes[i]? = some (sampleFrame i) := by
  obtain ⟨s₁, s₁', b₁', x₁, hr₁, hvip, hrun₁, htx₁, hx₁, hst⟩ := sample_front
  obtain ⟨s₂, s₂', b₂', x₂, hr₂, hrun₂, htx₂, hx₂⟩ := sample_back
  exact ⟨x₁, x₂, hx₁, hx₂, stages_compose hr₁ (hvip ▸ hr₂) hrun₁ htx₁ hx₁ le_rfl hst.bytes hrun₂
    htx₂ hx₂⟩

end Sasat
