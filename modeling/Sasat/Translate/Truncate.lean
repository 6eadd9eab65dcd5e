import Sasat.Translate.Classify
import Sasat.Back.Forward
import Sasat.Front.Refusal

/-!
# Frames that do not fit the buffer

`recv` cuts a frame that is longer than the buffer and does not say so. The handlers forward what is
left of it.

* `recvInto`, `recvLen`: `recv` on a frame of the wire.
* `Whole`: a forwarded frame is the frame of the wire, but for the fields that are rewritten.
* `Answerable`: the lookup for a source has an answer; **`getPol_isSome_iff`**.
* `FrontForwards`, `IngressForwards`, `EgressForwards`: the frames that are forwarded.
* **`whole_frames_iff`**: no frame is forwarded cut exactly if it fits or is not forwarded.
-/

namespace Sasat

open Outcome

/-! ## Receiving a frame -/

/-- `DATABUF_SIZE`. -/
def databufSize : ℕ := 1520

/-- What `recv` returns for the frame `w`. -/
def recvLen (w : List Byte) : ℕ := min w.length databufSize

/-- The buffer after `recv`: behind the bytes of the frame it is as before. -/
def recvInto (old : Buf) (w : List Byte) : Buf :=
  fun i => if i < recvLen w then w.getD i 0 else old i

/-- The functions that forward a frame; the others send answers of their own. -/
def Sender.forwards : Sender → Bool
  | .procV4 | .procV6 | .procV4In | .procV6In | .procV4Eg | .procV6Eg => true
  | .arpReply | .sendIcmp6Na | .arpProxyBody | .sendNaBody => false

/-- The bytes that a function may rewrite: the MAC addresses, the destination, and the IPv4 header
checksum. -/
def Sender.rewrites (i : ℕ) : Sender → Prop
  | .procV4 | .procV4In | .procV4Eg => i < 12 ∨ (24 ≤ i ∧ i < 26) ∨ (30 ≤ i ∧ i < 34)
  | .procV6 | .procV6In | .procV6Eg => i < 12 ∨ (38 ≤ i ∧ i < 54)
  | .arpReply | .sendIcmp6Na | .arpProxyBody | .sendNaBody => False

/-- The frame `x` is the frame `w` of the wire, but for the fields that are rewritten. -/
structure Whole (w : List Byte) (x : Tx) : Prop where
  length : x.bytes.length = w.length
  bytes : ∀ i, ¬ x.sender.rewrites i → x.bytes[i]? = w[i]?

/-- The frame `x` consists of the first `len` bytes of the buffer, but for these fields. -/
structure Copies (b : Buf) (len : ℕ) (x : Tx) : Prop where
  forwards : x.sender.forwards = true
  length : x.bytes.length = len
  bytes : ∀ i < len, ¬ x.sender.rewrites i → x.bytes[i]? = some (b i)

theorem getElem?_recvInto {w : List Byte} {i : ℕ} (old : Buf) (h : i < recvLen w) :
    w[i]? = some (recvInto old w i) := by
  have hlt : i < w.length := lt_of_lt_of_le h (min_le_left _ _)
  rw [recvInto, if_pos h, List.getD_eq_getElem?_getD, List.getElem?_eq_getElem hlt]
  rfl

theorem Copies.whole_iff {w : List Byte} {old : Buf} {x : Tx}
    (h : Copies (recvInto old w) (recvLen w) x) : Whole w x ↔ w.length ≤ databufSize := by
  constructor
  · intro hw
    have hlen := h.length.symm.trans hw.length
    exact min_eq_left_iff.mp hlen
  · intro hfit
    have hlen : recvLen w = w.length := min_eq_left hfit
    refine ⟨h.length.trans hlen, fun i hi => ?_⟩
    by_cases hil : i < recvLen w
    · rw [h.bytes i hil hi, getElem?_recvInto old hil]
    · rw [List.getElem?_eq_none (by rw [h.length]; omega), List.getElem?_eq_none (by omega)]

theorem Copies.of_frame {b b' : Buf} {len : ℕ} {x : Tx} (hx : x.bytes = frame b' len)
    (hf : x.sender.forwards = true) (hb : ∀ i, ¬ x.sender.rewrites i → b' i = b i) :
    Copies b len x := by
  refine ⟨hf, ?_, fun i hi hre => ?_⟩
  · rw [hx, length_frame]
  · rw [hx, getElem?_frame hi, hb i hre]

section

variable {S : Type} {c c' : Prop} {b : Buf} {len : ℕ} {io io' : Io S}

/-- Of the received frame a copy is forwarded if `c`, and nothing else is forwarded. -/
structure ForwardsIf (c : Prop) (b : Buf) (len : ℕ) (io io' : Io S) : Prop where
  sent : c → ∃ x, io'.tx = io.tx ++ [x] ∧ Copies b len x
  kept : ¬ c → Wrote (fun x => x.sender.forwards = false) io io'

theorem ForwardsIf.none (hc : ¬ c) (h : Wrote (fun x => x.sender.forwards = false) io io') :
    ForwardsIf c b len io io' :=
  ⟨fun h => absurd h hc, fun _ => h⟩

theorem ForwardsIf.congr (h : ForwardsIf c b len io io') (hc : c ↔ c') :
    ForwardsIf c' b len io io' :=
  ⟨fun h' => h.sent (hc.mpr h'), fun h' => h.kept (mt hc.mp h')⟩

/-- The frames that a step forwards are whole. -/
def WholeFrames (w : List Byte) (io io' : Io S) : Prop :=
  ∀ x ∈ io'.tx.drop io.tx.length, x.sender.forwards = true → Whole w x

theorem ForwardsIf.whole_iff {w : List Byte} {old : Buf}
    (h : ForwardsIf c (recvInto old w) (recvLen w) io io') :
    WholeFrames w io io' ↔ w.length ≤ databufSize ∨ ¬ c := by
  by_cases hc : c
  · obtain ⟨x, htx, hx⟩ := h.sent hc
    rw [or_iff_left (not_not.mpr hc), ← hx.whole_iff, WholeFrames, htx, List.drop_left]
    constructor
    · exact fun hall => hall x (List.mem_singleton_self x) hx.forwards
    · intro hw y hy _
      rw [List.mem_singleton.mp hy]
      exact hw
  · refine ⟨fun _ => Or.inr hc, fun _ x hx hf => ?_⟩
    have hno := (h.kept hc).drop x hx
    rw [hf] at hno
    cases hno

end

/-! ## Lookups that have an answer -/

section

variable {n : ℕ} {D : Type} {F : Family n D} {o : ℕ → MacOutcomes} {s s' : PolSide n D}
  {a : Fin n → Byte} {L L' : CacheList → List CachePtr} {r : Option CachePtr}

/-- The first policy that matches has a server that is no drop, and whose MAC address is known or
found before the last attempt, which is `o 0`. -/
def Answerable (o : ℕ → MacOutcomes) (s : PolSide n D) (a : Fin n → Byte) : Prop :=
  ∃ p f v, firstMatch s a = some p ∧ s.pols p = some f ∧ s.svrs f.svr = some v ∧
    v.status ≠ .drop ∧ (v.status = .init → ∃ j, 0 < j ∧ j < 4 ∧ (o j).Resolves)

theorem answerable_iff {p : Ptr} {f : LbPol n} {v : ServerTbl n} (hfm : firstMatch s a = some p)
    (hf : s.pols p = some f) (hv : s.svrs f.svr = some v) : Answerable o s a ↔
      v.status ≠ .drop ∧ (v.status = .init → ∃ j, 0 < j ∧ j < 4 ∧ (o j).Resolves) := by
  constructor
  · rintro ⟨p', f', v', hfirst, hf', hv', h⟩
    obtain rfl := Option.some.inj (hfm.symm.trans hfirst)
    obtain rfl := Option.some.inj (hf.symm.trans hf')
    obtain rfl := Option.some.inj (hv.symm.trans hv')
    exact h
  · intro h
    exact ⟨p, f, v, hfm, hf, hv, h⟩

theorem trySvr_true_iff {v : ServerTbl n} :
    ((trySvr o 4 v).1 = true ∧ (trySvr o 4 v).2.status ≠ .drop) ↔
      v.status ≠ .drop ∧ (v.status = .init → ∃ j, 0 < j ∧ j < 4 ∧ (o j).Resolves) := by
  by_cases hi : v.status = .init
  · have hok := (trySvr_spec o 4 v).2.2 hi
    rw [← trySvr_found o 4 hi, hi]
    constructor
    · exact fun h => ⟨by decide, fun _ => h.1⟩
    · intro h
      refine ⟨h.2 rfl, ?_⟩
      rw [hok (h.2 rfl)]
      decide
  · rw [trySvr_resolved o (by decide) hi]
    exact ⟨fun h => ⟨h.2, fun hc => absurd hc hi⟩, fun h => ⟨rfl, h.1⟩⟩

theorem Looked.isSome_iff (hs : SideInv F s L) (h : Looked F o a s L r s' L') :
    r.isSome = true ↔ Answerable o s a := by
  cases h with
  | @hit e he ha =>
    obtain ⟨f, v, hc⟩ := hs.cached he
    have hfirst := hc.first
    rw [ha] at hfirst
    rw [answerable_iff hfirst hc.pol hc.svr]
    rcases hc.op with ⟨hst, hop⟩ | ⟨hst, hop, -⟩
    · simp [hop, hst]
    · simp [hop, hst]
  | none hmiss hfirst =>
    refine ⟨nofun, ?_⟩
    rintro ⟨p, f, v, hp, -⟩
    rw [hfirst] at hp
    cases hp
  | unresolved hmiss hfirst hpol hsvr htry =>
    rw [answerable_iff hfirst hpol hsvr, ← trySvr_true_iff, htry]
    exact ⟨nofun, fun hc => absurd hc.1 Bool.false_ne_true⟩
  | fill hmiss h =>
    rw [answerable_iff h.first h.pol h.svr, ← trySvr_true_iff, h.resolved, h.result]
    split_ifs with hdrop
    · exact ⟨nofun, fun hc => absurd hdrop hc.2⟩
    · exact ⟨fun _ => ⟨rfl, hdrop⟩, fun _ => rfl⟩

/-- **A lookup has an answer** exactly if the server of the first policy that matches gives one. -/
theorem getPol_isSome_iff (hs : SideInv F s L) (o : ℕ → MacOutcomes) (tsc : BitVec 64)
    (a : Fin n → Byte) : ∃ r s', getPol F o tsc a s = .ok (r, s') ∧
      (r.isSome = true ↔ Answerable o s a) := by
  obtain ⟨r, s', L', hget, -, -, hlook⟩ := hs.looked o tsc a
  exact ⟨r, s', hget, hlook.isSome_iff hs⟩

end

/-! ## The handlers -/

/-- A frame of the server is not for the gateway, or the MAC address of the gateway is valid or is
found. -/
def Routed (s : BackState) (b : Buf) (gwMacValid : Bool) (o : MacOutcomes) : Prop :=
  ¬ (s.vipMode = false ∧ hDest b = s.ifEgress.mac) ∨ gwMacValid = true ∨ o.Resolves

section

variable {lim : ℕ} {o : ℕ → MacOutcomes} {r : Resolution} {tsc : BitVec 64} {b : Buf} {len : ℕ}

theorem procV4_forwardsIf {s : FrontState} (hs : FrontInv s) :
    Post (fun y => ForwardsIf (ipDst b = s.vip4 ∧ Answerable o s.lb4 (ipSrc b)) b len s.io y.2.io)
      (fun _ => True) (procV4 o tsc b len s) := by
  refine .ite (fun hdst => .none (fun h => hdst h.1) (.none rfl)) fun hdst => ?_
  obtain ⟨L, hside⟩ := hs.side4
  obtain ⟨e, lb, hget, hsome⟩ := getPol_isSome_iff hside o tsc (ipSrc b)
  have hcond := and_iff_right (b := Answerable o s.lb4 (ipSrc b)) (not_not.mp hdst)
  rw [getPolV4, hget]
  cases e with
  | none =>
    exact .none (fun h => absurd (hsome.mpr h.2) Bool.false_ne_true) (.none rfl)
  | some e =>
    refine ⟨fun _ => ⟨_, rfl, .of_frame rfl rfl fun i hi => ?_⟩, fun h => ?_⟩
    · replace hi : ¬ (i < 12 ∨ (24 ≤ i ∧ i < 26) ∨ (30 ≤ i ∧ i < 34)) := hi
      rw [store_apply_of_not _ _ (by omega), store_apply_of_not _ _ (by omega),
        store_apply_of_not _ _ (by omega), store_apply_of_not _ _ (by omega)]
    · exact absurd (hcond.mpr (hsome.mp rfl)) h

theorem procV6_forwardsIf {s : FrontState} (hs : FrontInv s) :
    Post (fun y => ForwardsIf (ip6Dst b = s.vip6 ∧ Answerable o s.lb6 (ip6Src b)) b len s.io y.2.io)
      (fun _ => True) (procV6 o tsc b len s) := by
  refine .ite (fun hdst => .none (fun h => hdst h.1) (.none rfl)) fun hdst => ?_
  obtain ⟨L, hside⟩ := hs.side6
  obtain ⟨e, lb, hget, hsome⟩ := getPol_isSome_iff hside o tsc (ip6Src b)
  have hcond := and_iff_right (b := Answerable o s.lb6 (ip6Src b)) (not_not.mp hdst)
  rw [getPolV6, hget]
  cases e with
  | none =>
    exact .none (fun h => absurd (hsome.mpr h.2) Bool.false_ne_true) (.none rfl)
  | some e =>
    refine ⟨fun _ => ⟨_, rfl, .of_frame rfl rfl fun i hi => ?_⟩, fun h => ?_⟩
    · replace hi : ¬ (i < 12 ∨ (38 ≤ i ∧ i < 54)) := hi
      rw [store_apply_of_not _ _ (by omega), store_apply_of_not _ _ (by omega),
        store_apply_of_not _ _ (by omega)]
    · exact absurd (hcond.mpr (hsome.mp rfl)) h

theorem procV4In_forwardsIf {s : BackState} :
    Post (fun y => ForwardsIf (ipDst b = s.ifIngress.vip4 ∧ SvrKnown s (r.ip4 s.svrInfo.svrIp4)) b
      len s.io y.2.io) (fun _ => True) (procV4In r tsc b len s) := by
  refine .ite (fun hdst => .none (fun h => hdst h.1) (.none rfl)) fun hdst =>
    .bind .trivial fun ci _ => ?_
  have hio := BackKept.resolveSvr_io (r.ip4 s.svrInfo.svrIp4) { s with clientInfo := ci }
  have hfound := resolveSvr_found s ci (r.ip4 s.svrInfo.svrIp4)
  change ForwardsIf _ b len s.io (forwardV4In b len _).2.io
  generalize BackState.resolveSvr _ _ = y at hio hfound ⊢
  rw [← hfound, ← hio, and_iff_right (not_not.mp hdst)]
  unfold forwardV4In
  dsimp only
  split_ifs with hy
  · refine ⟨fun _ => ⟨_, rfl, .of_frame rfl rfl fun i hi => ?_⟩, fun h => absurd hy h⟩
    replace hi : ¬ (i < 12 ∨ (24 ≤ i ∧ i < 26) ∨ (30 ≤ i ∧ i < 34)) := hi
    rw [store_apply_of_not _ _ (by omega), store_apply_of_not _ _ (by omega),
      store_apply_of_not _ _ (by omega)]
  · exact .none hy (.none rfl)

theorem procV6In_forwardsIf {s : BackState} :
    Post (fun y => ForwardsIf (ip6Dst b = s.ifIngress.vip6 ∧ SvrKnown s (r.ip6 s.svrInfo.svrIp6)) b
      len s.io y.2.io) (fun _ => True) (procV6In r tsc b len s) := by
  refine .ite (fun hdst => .none (fun h => hdst h.1) (.none rfl)) fun hdst =>
    .bind .trivial fun ci _ => ?_
  have hio := BackKept.resolveSvr_io (r.ip6 s.svrInfo.svrIp6) { s with clientInfo := ci }
  have hfound := resolveSvr_found s ci (r.ip6 s.svrInfo.svrIp6)
  change ForwardsIf _ b len s.io (forwardV6In b len _).2.io
  generalize BackState.resolveSvr _ _ = y at hio hfound ⊢
  rw [← hfound, ← hio, and_iff_right (not_not.mp hdst)]
  unfold forwardV6In
  dsimp only
  split_ifs with hy
  · refine ⟨fun _ => ⟨_, rfl, .of_frame rfl rfl fun i hi => ?_⟩, fun h => absurd hy h⟩
    replace hi : ¬ (i < 12 ∨ (38 ≤ i ∧ i < 54)) := hi
    rw [store_apply_of_not _ _ (by omega), store_apply_of_not _ _ (by omega)]
  · exact .none hy (.none rfl)

theorem gwMacV4Valid_iff (s : BackState) (o : MacOutcomes) :
    (s.gwKnown4 o).gwMacV4Valid = true ↔ s.gwMacV4Valid = true ∨ o.Resolves := by
  unfold BackState.gwKnown4
  split_ifs with h
  · exact ⟨Or.inl, fun _ => h⟩
  · rw [or_iff_right h]
    exact resolveMac_iff o s.gwMacV4

theorem gwMacV6Valid_iff (s : BackState) (o : MacOutcomes) :
    (s.gwKnown6 o).gwMacV6Valid = true ↔ s.gwMacV6Valid = true ∨ o.Resolves := by
  unfold BackState.gwKnown6
  split_ifs with h
  · exact ⟨Or.inl, fun _ => h⟩
  · rw [or_iff_right h]
    exact resolveMac_iff o s.gwMacV6

theorem procV4Eg_forwardsIf {s : BackState} :
    Post (fun y => ForwardsIf (Routed s b s.gwMacV4Valid (r.gw4 0)) b len s.io y.2.io)
      (fun _ => True) (procV4Eg r tsc b len s) := by
  refine procV4Eg_post ?passed ?routed ?unrouted
  case passed =>
    intro ci _ hn
    refine ⟨fun _ => ⟨_, rfl, .of_frame rfl rfl fun i _ => rfl⟩, fun h => absurd (Or.inl ?_) h⟩
    exact fun hown => hn hown.1 hown.2
  case routed =>
    rintro ci _ _ _ _ rfl hv
    have hvalid := (gwMacV4Valid_iff _ _).mp hv
    refine ⟨fun _ => ⟨_, congrArg (· ++ _) gwKnown4_tx,
      .of_frame rfl rfl fun i hi => ?_⟩, fun h => absurd (Or.inr hvalid) h⟩
    replace hi : ¬ (i < 12 ∨ (24 ≤ i ∧ i < 26) ∨ (30 ≤ i ∧ i < 34)) := hi
    exact store_apply_of_not _ _ (by omega)
  case unrouted =>
    rintro ci _ _ hvip hown rfl hv
    refine .none (fun h => ?_) (.none gwKnown4_tx)
    have hvalid := h.resolve_left (not_not.mpr ⟨hvip, hown⟩)
    rw [(gwMacV4Valid_iff { s with clientInfo := ci } _).mpr hvalid] at hv
    cases hv

theorem procV6Eg_forwardsIf {s : BackState} :
    Post (fun y => ForwardsIf (Routed s b s.gwMacV6Valid (r.gw6 0)) b len s.io y.2.io)
      (fun _ => True) (procV6Eg r tsc b len s) := by
  refine procV6Eg_post ?passed ?routed ?unrouted
  case passed =>
    intro ci _ hn
    refine ⟨fun _ => ⟨_, rfl, .of_frame rfl rfl fun i _ => rfl⟩, fun h => absurd (Or.inl ?_) h⟩
    exact fun hown => hn hown.1 hown.2
  case routed =>
    rintro ci _ _ _ _ rfl hv
    have hvalid := (gwMacV6Valid_iff _ _).mp hv
    refine ⟨fun _ => ⟨_, congrArg (· ++ _) gwKnown6_tx,
      .of_frame rfl rfl fun i hi => ?_⟩, fun h => absurd (Or.inr hvalid) h⟩
    replace hi : ¬ (i < 12 ∨ (38 ≤ i ∧ i < 54)) := hi
    exact store_apply_of_not _ _ (by omega)
  case unrouted =>
    rintro ci _ _ hvip hown rfl hv
    refine .none (fun h => ?_) (.none gwKnown6_tx)
    have hvalid := h.resolve_left (not_not.mpr ⟨hvip, hown⟩)
    rw [(gwMacV6Valid_iff { s with clientInfo := ci } _).mpr hvalid] at hv
    cases hv

/-! ## The receive paths -/

/-- A class that is handed to a handler. -/
def FrameClass.Handled (c : FrameClass) : Prop := c = .v4 ∨ c = .v6

theorem frameClass_long {mac : Mac} {whole4 : Bool} {c : FrameClass}
    (h4 : whole4 = true → 34 ≤ len) (h : frameClass mac whole4 lim b len = .ok c)
    (hc : c.Handled) : 14 < len := by
  by_contra hlen
  have hw : whole4 = false := Bool.eq_false_iff.mpr fun hw => by
    have := h4 hw
    omega
  unfold frameClass at h
  rw [if_neg (show ¬ 54 < len by omega)] at h
  simp only [hw, Bool.false_eq_true, if_false] at h
  split_ifs at h <;> cases h <;> rcases hc with hc | hc <;> cases hc

theorem recvClassDo_answers {s : FrontState} {c : FrameClass} (hc : ¬ c.Handled) :
    Post (fun y => Wrote (fun x => x.sender.forwards = false) s.io y.2.io) (fun _ => True)
      (recvClassDo lim o tsc b len s c) := by
  cases c with
  | v4 => exact absurd (Or.inl rfl) hc
  | v6 => exact absurd (Or.inr rfl) hc
  | multicast =>
    refine .ite (fun _ => ?_) fun _ => .none rfl
    exact .bind (macResolve_wrote _ _ _ _ (fun _ => rfl) (fun _ => rfl) lim _ len) fun _ h => h
  | ns =>
    refine .ite (fun _ => ?_) fun _ => .none rfl
    exact .bind (macResolveUc6_wrote _ _ _ _ (fun _ => rfl) lim len) fun _ h => h
  | arp => exact .ite (fun _ => arpReply_wrote _ _ _ _ fun _ => rfl) fun _ => .none rfl
  | own | short4 | short6 | noip => exact .none rfl

theorem ingressClassDo_answers {s : BackState} {c : FrameClass} (hc : ¬ c.Handled) :
    Post (fun y => Wrote (fun x => x.sender.forwards = false) s.io y.2.io) (fun _ => True)
      (ingressClassDo lim r tsc b len s c) := by
  cases c with
  | v4 => exact absurd (Or.inl rfl) hc
  | v6 => exact absurd (Or.inr rfl) hc
  | multicast =>
    exact .bind (macResolve_wrote _ _ _ _ (fun _ => rfl) (fun _ => rfl) lim _ len) fun _ h => h
  | ns =>
    refine .ite (fun _ => ?_) fun _ => .none rfl
    exact .bind (macResolveUc6_wrote _ _ _ _ (fun _ => rfl) lim len) fun _ h => h
  | arp =>
    refine .ite (fun _ => ?_) fun _ => .none rfl
    have harp : Wrote (fun x => x.sender.forwards = false) s.io
      (arpReply backArpStats s.ifIngress b s.io).2.2 := arpReply_wrote _ _ _ _ fun _ => rfl
    change Wrote _ s.io (if (arpReply backArpStats s.ifIngress b s.io).1 then _ else _)
    split_ifs
    · exact harp
    · exact harp
  | own | short4 | short6 | noip => exact .none rfl

theorem egressClassDo_answers {s : BackState} {c : FrameClass} (hc : ¬ c.Handled) :
    Post (fun y => Wrote (fun x => x.sender.forwards = false) s.io y.2.io) (fun _ => True)
      (egressClassDo lim r tsc b len s c) := by
  cases c with
  | v4 => exact absurd (Or.inl rfl) hc
  | v6 => exact absurd (Or.inr rfl) hc
  | multicast =>
    exact macResolveEgress_wrote (s := s.stat .rxPacketMcEg) (fun _ _ => rfl) fun _ _ => rfl
  | ns =>
    exact .bind (macResolveUc6Egress_wrote (s := s.stat .rxPacketV6Eg) fun _ _ => rfl) fun _ h => h
  | arp =>
    exact .ite (fun _ => arpEgressReply_wrote (fun _ _ => rfl) s) fun _ => .none rfl
  | own | short4 | short6 | noip => exact .none rfl

end

/-- The front translator forwards the frame: its destination is the virtual address, and the lookup
for its source has an answer. -/
def FrontForwards (lim : ℕ) (o : ℕ → MacOutcomes) (b : Buf) (len : ℕ) (s : FrontState) : Prop :=
  (recvClass lim b len s = .ok .v4 ∧ ipDst b = s.vip4 ∧ Answerable o s.lb4 (ipSrc b)) ∨
    (recvClass lim b len s = .ok .v6 ∧ ip6Dst b = s.vip6 ∧ Answerable o s.lb6 (ip6Src b))

/-- The backend forwards the frame of a client: its destination is the virtual address, and the MAC
address of the server is known. -/
def IngressForwards (lim : ℕ) (r : Resolution) (b : Buf) (len : ℕ) (s : BackState) : Prop :=
  (ingressClass lim b len s = .ok .v4 ∧ ipDst b = s.ifIngress.vip4 ∧
      SvrKnown s (r.ip4 s.svrInfo.svrIp4)) ∨
    (ingressClass lim b len s = .ok .v6 ∧ ip6Dst b = s.ifIngress.vip6 ∧
      SvrKnown s (r.ip6 s.svrInfo.svrIp6))

/-- The backend forwards the frame of the server. -/
def EgressForwards (lim : ℕ) (r : Resolution) (b : Buf) (len : ℕ) (s : BackState) : Prop :=
  (egressClass lim b len s = .ok .v4 ∧ Routed s b s.gwMacV4Valid (r.gw4 0)) ∨
    (egressClass lim b len s = .ok .v6 ∧ Routed s b s.gwMacV6Valid (r.gw6 0))

section

variable {lim : ℕ} {o : ℕ → MacOutcomes} {r : Resolution} {tsc : BitVec 64} {b : Buf} {len : ℕ}

theorem forwardsIf_class {α S : Type} {cls : M FrameClass} {act : FrameClass → M α} {io : Io S}
    {out : α → Io S} {c4 c6 : Prop}
    (h4 : Post (fun y => ForwardsIf c4 b len io (out y)) (fun _ => True) (act .v4))
    (h6 : Post (fun y => ForwardsIf c6 b len io (out y)) (fun _ => True) (act .v6))
    (hno : ∀ c, ¬ FrameClass.Handled c → Post (fun y =>
      Wrote (fun x => x.sender.forwards = false) io (out y)) (fun _ => True) (act c)) :
    Post (fun y => ForwardsIf ((cls = .ok .v4 ∧ c4) ∨ (cls = .ok .v6 ∧ c6)) b len io (out y))
      (fun _ => True) (cls >>= act) := by
  cases cls with
  | error e => trivial
  | ok c =>
    change Post _ _ (act c)
    by_cases hh : c.Handled
    · rcases hh with rfl | rfl
      · exact h4.mono (fun y hy => hy.congr (by simp)) fun _ h => h
      · exact h6.mono (fun y hy => hy.congr (by simp)) fun _ h => h
    · refine (hno c hh).mono (fun y hy => .none ?_ hy) fun _ h => h
      rintro (h | h)
      · exact hh (Except.ok.inj h.1 ▸ Or.inl rfl)
      · exact hh (Except.ok.inj h.1 ▸ Or.inr rfl)

theorem not_forwards_short {mac : Mac} {whole4 : Bool} {c4 c6 : Prop}
    (h4 : whole4 = true → 34 ≤ len) (hlen : ¬ 14 < len) :
    ¬ ((frameClass mac whole4 lim b len = .ok .v4 ∧ c4) ∨
      (frameClass mac whole4 lim b len = .ok .v6 ∧ c6)) := by
  rintro (h | h)
  · exact hlen (frameClass_long h4 h.1 (Or.inl rfl))
  · exact hlen (frameClass_long h4 h.1 (Or.inr rfl))

/-- **What the front translator forwards.** -/
theorem frontIngress1_forwardsIf {s : FrontState} (hs : FrontInv s) :
    Post (fun y => ForwardsIf (FrontForwards lim o b len s) b len s.io y.2.io) (fun _ => True)
      (frontIngress1 lim o tsc b len s) := by
  refine .ite (fun _ => ?_) fun hlen => .none (not_forwards_short (fun hw => ?_) hlen) (.none rfl)
  · rw [procRecvData_class]
    refine forwardsIf_class ?_ ?_ fun c hc => recvClassDo_answers hc
    · exact (procV4_forwardsIf (s := s.stat .rxPacketV4) ⟨hs.side4, hs.side6⟩).mono
        (fun y hy => ⟨hy.sent, hy.kept⟩) fun _ h => h
    · exact (procV6_forwardsIf (s := s.stat .rxPacketV6) ⟨hs.side4, hs.side6⟩).mono
        (fun y hy => ⟨hy.sent, hy.kept⟩) fun _ h => h
  · exact (of_decide_eq_true hw).le

/-- **What the backend forwards of a client's frames.** -/
theorem backIngress_forwardsIf (s : BackState) :
    Post (fun y => ForwardsIf (IngressForwards lim r b len s) b len s.io y.2.io) (fun _ => True)
      (backIngress lim r tsc b len s) := by
  refine .ite (fun _ => ?_) fun hlen =>
    .none (not_forwards_short of_decide_eq_true hlen) (.none rfl)
  rw [procIngressData_class]
  refine forwardsIf_class ?_ ?_ fun c hc => ingressClassDo_answers hc
  · exact (procV4In_forwardsIf (s := s.stat .rxPacketV4In)).mono
      (fun y hy => ⟨hy.sent, hy.kept⟩) fun _ h => h
  · exact (procV6In_forwardsIf (s := s.stat .rxPacketV6In)).mono
      (fun y hy => ⟨hy.sent, hy.kept⟩) fun _ h => h

/-- **What the backend forwards of its server's frames.** -/
theorem backEgress_forwardsIf (s : BackState) :
    Post (fun y => ForwardsIf (EgressForwards lim r b len s) b len s.io y.2.io) (fun _ => True)
      (backEgress lim r tsc b len s) := by
  refine .ite (fun _ => ?_) fun hlen =>
    .none (not_forwards_short of_decide_eq_true hlen) (.none rfl)
  rw [procEgressData_class]
  refine forwardsIf_class ?_ ?_ fun c hc => egressClassDo_answers hc
  · exact (procV4Eg_forwardsIf (s := s.stat .rxPacketV4Eg)).mono
      (fun y hy => ⟨hy.sent, hy.kept⟩) fun _ h => h
  · exact (procV6Eg_forwardsIf (s := s.stat .rxPacketV6Eg)).mono
      (fun y hy => ⟨hy.sent, hy.kept⟩) fun _ h => h

end

/-- **No truncated frame is forwarded** exactly if the frame fits the buffer or is not forwarded, in
each of the three receive paths. -/
theorem whole_frames_iff (w : List Byte) (old : Buf) (tsc : BitVec 64) :
    (∀ {s s' : FrontState} {b' : Buf} (o : ℕ → MacOutcomes), FrontReach s →
      frontIngress1 databufSize o tsc (recvInto old w) (recvLen w) s = .ok (b', s') →
        (WholeFrames w s.io s'.io ↔ w.length ≤ databufSize ∨
          ¬ FrontForwards databufSize o (recvInto old w) (recvLen w) s)) ∧
    (∀ {s s' : BackState} {b' : Buf} (r : Resolution),
      backIngress databufSize r tsc (recvInto old w) (recvLen w) s = .ok (b', s') →
        (WholeFrames w s.io s'.io ↔ w.length ≤ databufSize ∨
          ¬ IngressForwards databufSize r (recvInto old w) (recvLen w) s)) ∧
    ∀ {s s' : BackState} {b' : Buf} (r : Resolution),
      backEgress databufSize r tsc (recvInto old w) (recvLen w) s = .ok (b', s') →
        (WholeFrames w s.io s'.io ↔ w.length ≤ databufSize ∨
          ¬ EgressForwards databufSize r (recvInto old w) (recvLen w) s) := by
  refine ⟨fun o hs hrun => ?_, fun r hrun => ?_, fun r hrun => ?_⟩
  · exact ((frontIngress1_forwardsIf hs.inv.1).of_ok hrun).whole_iff
  · exact ((backIngress_forwardsIf _).of_ok hrun).whole_iff
  · exact ((backEgress_forwardsIf _).of_ok hrun).whole_iff

/-! ## A sample -/

/-- The sample packet in a frame of `n` bytes more. -/
def sampleWire (n : ℕ) : List Byte := frame samplePacket4 34 ++ List.replicate n 0

theorem length_sampleWire (n : ℕ) : (sampleWire n).length = 34 + n := by simp [sampleWire]

theorem samplePacket4_of_le {i : ℕ} (h : 34 ≤ i) : samplePacket4 i = 0 := by
  rw [samplePacket4, List.getD_eq_getElem?_getD, List.getElem?_eq_none h]
  rfl

theorem recvInto_sampleWire (n : ℕ) : recvInto (fun _ => 0) (sampleWire n) = samplePacket4 := by
  have hlen := length_sampleWire n
  funext i
  unfold recvInto recvLen databufSize
  split_ifs with hi
  · rw [sampleWire, List.getD_eq_getElem?_getD]
    by_cases hi : i < 34
    · rw [List.getElem?_append_left (by simpa using hi), getElem?_frame hi]
      rfl
    · rw [List.getElem?_append_right (by simpa using hi), List.getElem?_replicate,
        samplePacket4_of_le (not_lt.mp hi)]
      split_ifs <;> rfl
  · exact (samplePacket4_of_le (by omega)).symm

theorem sampleWire_run (n : ℕ) : ∃ b' s', backIngress databufSize sampleResolution0 0
    (recvInto (fun _ => 0) (sampleWire n)) (recvLen (sampleWire n)) sampleBoot.start =
      .ok (b', s') := by
  obtain ⟨ci, hci⟩ := sampleBoot_clients.1
  have hto : ToV4In sampleBoot.start samplePacket4 (recvLen (sampleWire n)) :=
    ⟨by decide +kernel, by decide, by decide, by simp [recvLen, sampleWire, databufSize]⟩
  rw [recvInto_sampleWire, backIngress_v4 hto]
  exact procV4In_ok sampleResolution0 _ (s := sampleBoot.start.stat .rxPacketV4In) hci

theorem whole_frames_iff_sample : ∃ b' s', backIngress databufSize sampleResolution0 0
    (recvInto (fun _ => 0) (sampleWire 26)) (recvLen (sampleWire 26)) sampleBoot.start =
      .ok (b', s') ∧ WholeFrames (sampleWire 26) sampleBoot.start.io s'.io := by
  obtain ⟨b', s', hrun⟩ := sampleWire_run 26
  refine ⟨b', s', hrun, ?_⟩
  exact ((whole_frames_iff (sampleWire 26) (fun _ => 0) 0).2.1 sampleResolution0 hrun).mpr
    (Or.inl (by decide))

/-- Of a frame of 1521 bytes the backend forwards the first 1520. -/
theorem truncated_forwarded : BackRun sampleBoot sampleBoot.start ∧ ∃ b' s',
    backIngress databufSize sampleResolution0 0 (recvInto (fun _ => 0) (sampleWire 1487))
      (recvLen (sampleWire 1487)) sampleBoot.start = .ok (b', s') ∧
      ¬ WholeFrames (sampleWire 1487) sampleBoot.start.io s'.io := by
  obtain ⟨b', s', hrun⟩ := sampleWire_run 1487
  refine ⟨.init, b', s', hrun, fun hwhole => ?_⟩
  have hlen : (sampleWire 1487).length = 1521 := length_sampleWire 1487
  rcases ((backIngress_forwardsIf _).of_ok hrun).whole_iff.mp hwhole with hfit | hnot
  · rw [hlen] at hfit
    exact absurd hfit (by decide)
  · refine hnot (Or.inl ?_)
    rw [recvInto_sampleWire, recvLen, hlen]
    refine ⟨?_, by decide +kernel, Or.inl (by decide +kernel)⟩
    rw [ingressClass, frameClass, if_neg (by decide +kernel), if_neg (by decide),
      if_pos (by decide)]
    rfl

end Sasat
