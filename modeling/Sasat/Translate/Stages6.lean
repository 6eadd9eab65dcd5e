import Sasat.Translate.Stages

/-!
# IPv6 through the two translators, and the way back

An IPv6 header has no checksum: a translator writes the destination only. Between the translators
the routers of the network change the hop limit. The answers of the server do not come by the front
translator, and the backend leaves them as they are behind the destination of the Ethernet header.

* `Stage6`: an IPv6 packet that a translator has forwarded.
* **`frontIngress1_stage6`**, **`backIngress_stage6`**: what `proc_v6` and `proc_v6_in` forward.
* `SentBack`: an answer that has been forwarded; **`backEgress_sentBack`**: what `proc_v4_eg` and
  `proc_v6_eg` forward.
* **`Stage6.undo`**: the second stage undoes the first.
-/

namespace Sasat

open Outcome

/-- `ip6_hlim` in a frame. -/
def hlimOffset : ℕ := 21

/-- The frame in `b` brings the IPv6 packet of the frame `bytes`, but for its hop limit. Padding may
come behind it. -/
structure Carried6 (b : Buf) (len : ℕ) (bytes : List Byte) : Prop where
  length : bytes.length ≤ len
  bytes : ∀ i, 14 ≤ i → i < bytes.length → i ≠ hlimOffset → bytes[i]? = some (b i)

/-- A frame that a translator has forwarded: `x` is the received frame `b` of `len` bytes with the
destination `old` replaced by `new`, under another Ethernet header. -/
structure Stage6 (old new : In6Addr) (b : Buf) (len : ℕ) (x : Tx) : Prop where
  long : 54 < len
  dst : ip6Dst b = old
  length : x.bytes.length = len
  bytes : ∀ i, 14 ≤ i → i < len → x.bytes[i]? = some (store b 38 new i)

/-- An answer that the backend has forwarded: `x` is the frame `b` of `len` bytes, up to the
destination MAC address. -/
structure SentBack (s : BackState) (b : Buf) (len : ℕ) (x : Tx) : Prop where
  fd : x.fd = s.ifIngress.sockfd
  length : x.bytes.length = len
  bytes : ∀ i, 6 ≤ i → i < len → x.bytes[i]? = some (b i)

section

variable {b : Buf} {len : ℕ}

theorem Stage6.of_stores {old new : In6Addr} (b' : Buf) {x : Tx}
    (hlen : 54 < len) (hdst : ip6Dst b = old) (hb : ∀ i, 14 ≤ i → b' i = b i)
    (hx : x.bytes = frame (store b' 38 new) len) : Stage6 old new b len x := by
  refine ⟨hlen, hdst, by rw [hx, length_frame], fun i hi hil => ?_⟩
  rw [hx, getElem?_frame hil, store, store]
  split_ifs
  · rfl
  · rw [hb i hi]

/-! ## From the client to the server -/

theorem procV6_stage {s : FrontState} (o : ℕ → MacOutcomes) (tsc : BitVec 64) (hlen : 54 < len) :
    Post (fun r => Wrote (fun x => ∃ new, Stage6 s.vip6 new b len x) s.io r.2.io) (fun _ => True)
      (procV6 o tsc b len s) := by
  refine .ite (fun _ => .none rfl) fun hdst => ?_
  refine .bind (P := fun r : Option CachePtr × FrontState => r.2.io = s.io)
    (.bind .trivial fun _ _ => rfl) fun ⟨e, s'⟩ hr => ?_
  replace hr : s'.io = s.io := hr
  rw [← hr]
  cases e with
  | none => exact .none rfl
  | some e =>
    refine Or.inr ⟨_, rfl, (s'.lb6.cache e).lbDstIp, ?_⟩
    refine .of_stores (store (store b 0 (s'.lb6.cache e).lbDstMac) 6
      s'.ifIngress.mac) hlen (not_not.mp hdst) (fun i hi => ?_) rfl
    rw [store_apply_of_not _ _ (by omega), store_apply_of_not _ _ (by omega)]

theorem procV4_wrote (o : ℕ → MacOutcomes) (tsc : BitVec 64) (s : FrontState) :
    Post (fun r => Wrote (fun x => x.sender = .procV4) s.io r.2.io) (fun _ => True)
      (procV4 o tsc b len s) := by
  refine .ite (fun _ => .none rfl) fun _ => ?_
  refine .bind (P := fun r : Option CachePtr × FrontState => r.2.io = s.io)
    (.bind .trivial fun _ _ => rfl) fun ⟨e, s'⟩ hr => ?_
  replace hr : s'.io = s.io := hr
  rw [← hr]
  cases e with
  | none => exact .none rfl
  | some e => exact Or.inr ⟨_, rfl, rfl⟩

/-- **What the front translator forwards as an IPv6 packet.** -/
theorem frontIngress1_stage6 {s : FrontState} (lim : ℕ) (o : ℕ → MacOutcomes) (tsc : BitVec 64) :
    Post (fun r => Wrote (fun x => x.sender = .procV6 → ∃ new, Stage6 s.vip6 new b len x)
      s.io r.2.io) (fun _ => True) (frontIngress1 lim o tsc b len s) := by
  refine frontIngress1_wrote (fun _ h => by cases h) (fun _ h => by cases h) (fun _ => ?_)
    fun hlen => ?_
  · refine (procV4_wrote o tsc _).mono (fun _ h => h.mono fun x hx h6 => ?_) fun _ h => h
    rw [h6] at hx
    cases hx
  · exact (procV6_stage (s := s.stat .rxPacketV6) o tsc hlen).mono
      (fun _ h => h.mono fun x hx _ => hx) fun _ h => h

theorem procV6In_stage {s : BackState} (r : Resolution) (tsc : BitVec 64) (hlen : 54 < len) :
    Post (fun x => Wrote (fun x => x.sender = .procV6In ∧
      Stage6 s.ifIngress.vip6 s.svrInfo.svrIp6 b len x) s.io x.2.io) (fun _ => True)
        (procV6In r tsc b len s) := by
  refine .ite (fun _ => .none rfl) fun hdst => .bind .trivial fun ci _ => ?_
  have hk := (BackKept.clientInfo s ci).trans (.resolveSvr (r.ip6 s.svrInfo.svrIp6) _)
  have hio := BackKept.resolveSvr_io (r.ip6 s.svrInfo.svrIp6) { s with clientInfo := ci }
  change Wrote _ s.io (forwardV6In b len _).2.io
  generalize BackState.resolveSvr _ _ = y at hk hio ⊢
  unfold forwardV6In
  dsimp only
  split_ifs
  · refine Or.inr ⟨_, congrArg (fun io : Io BackStat => io.tx ++ _) hio, rfl, ?_⟩
    rw [← hk.svrIp6]
    exact .of_stores (store b 0 y.2.svrInfo.svrMac) hlen (not_not.mp hdst)
      (fun i hi => store_apply_of_not _ _ (by omega)) rfl
  · exact .none (show y.2.io.tx = s.io.tx from congrArg Io.tx hio)

theorem procV4In_wrote {s : BackState} (r : Resolution) (tsc : BitVec 64) :
    Post (fun x => Wrote (fun x => x.sender = .procV4In) s.io x.2.io) (fun _ => True)
      (procV4In r tsc b len s) := by
  refine .ite (fun _ => .none rfl) fun _ => .bind .trivial fun ci _ => ?_
  have hio := BackKept.resolveSvr_io (r.ip4 s.svrInfo.svrIp4) { s with clientInfo := ci }
  change Wrote _ s.io (forwardV4In b len _).2.io
  generalize BackState.resolveSvr _ _ = y at hio ⊢
  unfold forwardV4In
  dsimp only
  split_ifs
  · exact Or.inr ⟨_, congrArg (fun io : Io BackStat => io.tx ++ _) hio, rfl⟩
  · exact .none (show y.2.io.tx = s.io.tx from congrArg Io.tx hio)

/-- **What the backend forwards as an IPv6 packet.** -/
theorem backIngress_stage6 {s : BackState} (lim : ℕ) (r : Resolution) (tsc : BitVec 64) :
    Post (fun x => Wrote (fun x => x.sender = .procV6In ∧ hProto b = ethPIpv6 ∧
      Stage6 s.ifIngress.vip6 s.svrInfo.svrIp6 b len x ∨ x.sender = .procV4In ∧
        hProto b = ethPIp ∨ x.sender = .arpReply ∨ x.sender = .sendIcmp6Na) s.io x.2.io)
          (fun _ => True) (backIngress lim r tsc b len s) := by
  refine backIngress_wrote (fun _ => .inr (.inr (.inl rfl))) (fun _ => .inr (.inr (.inr rfl)))
    (fun hto => ?_) fun hto => ?_
  · exact (procV4In_wrote (s := s.stat .rxPacketV4In) r tsc).mono
      (fun _ h => h.mono fun x hx => .inr (.inl ⟨hx, hto.proto⟩)) fun _ h => h
  · exact (procV6In_stage (s := s.stat .rxPacketV6In) r tsc hto.long).mono
      (fun _ h => h.mono fun x hx => .inl ⟨hx.1, hto.proto, hx.2⟩) fun _ h => h

/-- **The second stage undoes the first**, when the server has the virtual address of the front
translator: it gets the packet that the client has sent. -/
theorem Stage6.undo {b₁ b₂ : Buf} {len₁ len₂ : ℕ} {vip new old : In6Addr} {x y : Tx}
    (hx : Stage6 vip new b₁ len₁ x) (hcarry : Carried6 b₂ len₂ x.bytes)
    (hy : Stage6 old vip b₂ len₂ y) :
    Carried6 (recvBuf y.bytes) y.bytes.length (frame b₁ len₁) := by
  have hlen := hcarry.length
  rw [hx.length] at hlen
  refine ⟨by rw [length_frame, hy.length]; exact hlen, fun i hi hil hne => ?_⟩
  rw [length_frame] at hil
  rw [getElem?_frame hil, recvBuf, List.getD_eq_getElem?_getD, hy.bytes i hi (by omega),
    Option.getD_some]
  by_cases hdst : 38 ≤ i ∧ i < 54
  · rw [store_apply_of_mem _ _ hdst.1 (by omega), ← hx.dst, ip6Dst, load_apply]
    exact congrArg (fun j => some (b₁ j)) (by dsimp only; omega)
  · have hcar := hcarry.bytes i hi (by rw [hx.length]; exact hil) hne
    rw [hx.bytes i hi hil, store_apply_of_not _ _ (by omega)] at hcar
    rw [store_apply_of_not _ _ (by omega)]
    exact hcar

/-! ## From the server to the client -/

theorem SentBack.of_frame {s : BackState} {b' : Buf} (sender : Sender)
    (hb : ∀ i, 6 ≤ i → b' i = b i) : SentBack s b len ⟨sender, s.ifIngress.sockfd, frame b' len⟩ :=
  ⟨rfl, length_frame _ _, fun i hi hil => by rw [getElem?_frame hil, hb i hi]⟩

theorem procV4Eg_sentBack {s : BackState} (r : Resolution) (tsc : BitVec 64) :
    Post (fun x => Wrote (fun x => x.sender = .procV4Eg ∧ SentBack s b len x) s.io x.2.io)
      (fun _ => True) (procV4Eg r tsc b len s) := by
  refine procV4Eg_post ?passed ?routed ?unrouted
  case passed => exact fun ci _ _ => Or.inr ⟨_, rfl, rfl, .of_frame _ fun _ _ => rfl⟩
  case routed =>
    rintro ci s' _ _ _ rfl _
    refine Or.inr ⟨_, congrArg (· ++ _) gwKnown4_tx, rfl, ?_⟩
    rw [gwKnown4_ifIngress]
    exact .of_frame _ fun i hi => store_apply_of_not _ _ (by omega)
  case unrouted =>
    rintro ci _ _ _ _ rfl _
    exact .none gwKnown4_tx

theorem procV6Eg_sentBack {s : BackState} (r : Resolution) (tsc : BitVec 64) :
    Post (fun x => Wrote (fun x => x.sender = .procV6Eg ∧ SentBack s b len x) s.io x.2.io)
      (fun _ => True) (procV6Eg r tsc b len s) := by
  refine procV6Eg_post ?passed ?routed ?unrouted
  case passed => exact fun ci _ _ => Or.inr ⟨_, rfl, rfl, .of_frame _ fun _ _ => rfl⟩
  case routed =>
    rintro ci s' _ _ _ rfl _
    refine Or.inr ⟨_, congrArg (· ++ _) gwKnown6_tx, rfl, ?_⟩
    rw [gwKnown6_ifIngress]
    exact .of_frame _ fun i hi => store_apply_of_not _ _ (by omega)
  case unrouted =>
    rintro ci _ _ _ _ rfl _
    exact .none gwKnown6_tx

/-- **What the backend forwards to the clients.** -/
theorem backEgress_sentBack {s : BackState} (lim : ℕ) (r : Resolution) (tsc : BitVec 64) :
    Post (fun x => Wrote (fun x => (x.sender = .procV4Eg ∨ x.sender = .procV6Eg) ∧
      SentBack s b len x ∨ x.sender = .arpProxyBody ∨ x.sender = .sendNaBody) s.io x.2.io)
        (fun _ => True) (backEgress lim r tsc b len s) := by
  refine backEgress_wrote (fun _ _ => .inr (.inl rfl)) (fun _ _ => .inr (.inr rfl)) (fun _ => ?_)
    fun _ => ?_
  · exact (procV4Eg_sentBack (s := s.stat .rxPacketV4Eg) r tsc).mono
      (fun _ h => h.mono fun x hx => .inl ⟨.inl hx.1, hx.2.fd, hx.2.length, hx.2.bytes⟩)
        fun _ h => h
  · exact (procV6Eg_sentBack (s := s.stat .rxPacketV6Eg) r tsc).mono
      (fun _ h => h.mono fun x hx => .inl ⟨.inr hx.1, hx.2.fd, hx.2.length, hx.2.bytes⟩)
        fun _ h => h

end

end Sasat
