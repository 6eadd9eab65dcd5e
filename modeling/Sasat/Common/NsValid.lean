import Sasat.Common.ArpProc

/-!
# Valid neighbour solicitations

* `NdOptions`, `ValidNs`: what a node has to check before it answers a solicitation.
* `ip6Plen`, `LooksNs`, `ReachesSum`: the payload length, what `get_icmp6_ns` looks at, and what
  `check_valid_ns` looks at before it sums the payload.
* **`checkOptions_spec`**, **`optionWalk_exact`**: the option loop accepts the sequences of options.
* **`checkValidNs_ok`**, **`checkValidNs_fault`**: the verdict when the payload can be read, and the
  fault when it can not.
* **`macResolve_ns`**, **`macResolveUc6_ns`**: the solicitations that are answered.
-/

namespace Sasat

open OnesComplement Outcome

/-- A sequence of options of non-zero length, given in units of 8 bytes. -/
inductive NdOptions : List Byte → Prop
  | nil : NdOptions []
  | cons {type len : Byte} {body rest : List Byte} (hlen : len ≠ 0)
      (hbody : body.length + 2 = 8 * len.toNat) (hrest : NdOptions rest) :
      NdOptions (type :: len :: (body ++ rest))

/-- The payload length, in host order. -/
def ip6Plen (b : Buf) : ℕ := (ntohs (le16 (load b 18 2))).toNat

/-- The ICMPv6 checksum of the frame is valid. -/
def ChecksumOk (b : Buf) : Prop :=
  onesSum (beWords (pseudoHeader (ip6Src b) (ip6Dst b) (ip6Plen b) ++ slice b 54 (ip6Plen b))) =
    0xffff

/-- The frame is a valid solicitation for `vip6`. -/
structure ValidNs (vip6 : In6Addr) (b : Buf) : Prop where
  nxt : ip6Nxt b = 58
  type : b 54 = 135
  code : b 55 = 0
  hlim : b 21 = 255
  plen : 24 ≤ ip6Plen b
  checksum : ChecksumOk b
  src : ip6Src b ≠ 0
  target : nsTarget b = vip6
  notMulticast : nsTarget b 0 ≠ 0xff
  options : NdOptions (slice b nsBaseSize (ip6Plen b - 24))

/-- What `get_icmp6_ns` tests. -/
def LooksNs (b : Buf) (len : ℕ) : Prop :=
  24 ≤ (le16 (load b 18 2)).toNat ∧ nsBaseSize ≤ len ∧ b 54 = 135

/-- What `check_valid_ns` tests before it sums the payload. -/
def ReachesSum (b : Buf) : Prop := ip6Src b ≠ 0 ∧ b 21 = 255 ∧ b 55 = 0

variable {lim opt optlen len : ℕ} {b : Buf} {ipaddr : In6Addr} {proxyMode : Bool}

/-! ## The option loop -/

theorem ndOptions_nil : NdOptions (slice b opt 0) := .nil

theorem ndOptions_slice (h : optlen ≠ 0) : NdOptions (slice b opt optlen) ↔
    (b (opt + 1)).toNat ≠ 0 ∧ 8 * (b (opt + 1)).toNat ≤ optlen ∧
      NdOptions (slice b (opt + 8 * (b (opt + 1)).toNat) (optlen - 8 * (b (opt + 1)).toNat)) := by
  have hsplit : ∀ n, 2 ≤ n → n ≤ optlen → slice b opt optlen =
      b opt :: b (opt + 1) :: (slice b (opt + 2) (n - 2) ++ slice b (opt + n) (optlen - n)) := by
    intro n h2 hn
    rw [show optlen = (n - 2) + (optlen - n) + 2 by omega, slice_succ_succ, slice_add,
      show opt + 2 + (n - 2) = opt + n by omega,
      show n - 2 + (optlen - n) + 2 - n = optlen - n by omega]
  constructor
  · intro ho
    have hlen := length_slice b opt optlen
    generalize hl : slice b opt optlen = l at ho hlen
    cases ho with
    | nil => exact absurd hlen.symm h
    | @cons type n body rest hn hbody hrest =>
      simp only [List.length_cons, List.length_append] at hlen
      have hn0 : n.toNat ≠ 0 := fun h0 => hn (BitVec.eq_of_toNat_eq h0)
      have hhead := hl
      rw [hsplit optlen (by omega) le_rfl, List.cons.injEq, List.cons.injEq] at hhead
      obtain ⟨-, rfl, -⟩ := hhead
      have hfit : 8 * (b (opt + 1)).toNat ≤ optlen := by omega
      rw [hsplit _ (by omega) hfit, List.cons.injEq, List.cons.injEq] at hl
      obtain ⟨-, hrest'⟩ := List.append_inj hl.2.2 (by rw [length_slice]; omega)
      exact ⟨hn0, hfit, hrest' ▸ hrest⟩
  · rintro ⟨hn0, hfit, hrest⟩
    rw [hsplit _ (by omega) hfit]
    refine .cons (fun h0 => hn0 (by rw [h0]; rfl)) ?_ hrest
    rw [length_slice]
    omega

/-- **The option loop accepts exactly the sequences of options.** -/
theorem checkOptions_spec (h : opt + optlen ≤ lim) :
    ∃ r, checkOptions lim b opt optlen = .ok r ∧ (r = true ↔ NdOptions (slice b opt optlen)) := by
  induction optlen using Nat.strong_induction_on generalizing opt with
  | _ optlen ih =>
    rw [checkOptions]
    split_ifs with h0 h8
    · subst h0
      exact ⟨true, rfl, fun _ => .nil, fun _ => rfl⟩
    · refine ⟨false, rfl, fun hf => Bool.noConfusion hf, fun ho => ?_⟩
      have := (ndOptions_slice h0).mp ho
      omega
    · rw [fld_ok b (by omega), ndOptions_slice h0]
      change ∃ r, (if h : (b (opt + 1)).toNat = 0 then (.ok false : M Bool) else _) = _ ∧ _
      split_ifs with hz hfit
      · exact ⟨false, rfl, fun hf => Bool.noConfusion hf, fun ho => absurd hz ho.1⟩
      · refine ⟨false, rfl, fun hf => Bool.noConfusion hf, fun ho => ?_⟩
        have : optlen < 8 * (b (opt + 1)).toNat := hfit
        omega
      · have hfit' : ¬ optlen < 8 * (b (opt + 1)).toNat := hfit
        obtain ⟨r, hr, hiff⟩ := ih (optlen - 8 * (b (opt + 1)).toNat) (by omega)
          (show opt + 8 * (b (opt + 1)).toNat + (optlen - 8 * (b (opt + 1)).toNat) ≤ lim by omega)
        exact ⟨r, hr, fun hrt => ⟨hz, by omega, hiff.mp hrt⟩, fun ho => hiff.mpr ho.2.2⟩

/-- One option: the second byte is its length, in units of 8 bytes, and not zero. -/
def NdOption (o : List Byte) : Prop :=
  ∃ type len body, o = type :: len :: body ∧ len ≠ 0 ∧ o.length = 8 * len.toNat

theorem ndOptions_iff_flatten {l : List Byte} :
    NdOptions l ↔ ∃ os : List (List Byte), l = os.flatten ∧ ∀ o ∈ os, NdOption o := by
  constructor
  · intro h
    induction h with
    | nil => exact ⟨[], rfl, by simp⟩
    | @cons type len body rest hlen hbody _ ih =>
      obtain ⟨os, rfl, hos⟩ := ih
      refine ⟨(type :: len :: body) :: os, rfl, ?_⟩
      rw [List.forall_mem_cons]
      exact ⟨⟨type, len, body, rfl, hlen, hbody⟩, hos⟩
  · rintro ⟨os, rfl, hos⟩
    induction os with
    | nil => exact .nil
    | cons o os ih =>
      rw [List.forall_mem_cons] at hos
      obtain ⟨⟨type, len, body, rfl, hlen, hbody⟩, hos⟩ := hos
      exact .cons hlen hbody (ih hos)

/-- **The option walk is exact**: it ends inside the string, and what lies outside of it changes
nothing. -/
theorem optionWalk_exact (b : Buf) (opt optlen : ℕ) :
    (∃ r, checkOptions (opt + optlen) b opt optlen = .ok r ∧ (r = true ↔
      ∃ os : List (List Byte), slice b opt optlen = os.flatten ∧ ∀ o ∈ os, NdOption o)) ∧
    ∀ lim b', opt + optlen ≤ lim → slice b' opt optlen = slice b opt optlen →
      checkOptions lim b' opt optlen = checkOptions (opt + optlen) b opt optlen := by
  obtain ⟨r, hr, hiff⟩ := checkOptions_spec (b := b) (le_refl (opt + optlen))
  refine ⟨⟨r, hr, hiff.trans ndOptions_iff_flatten⟩, ?_⟩
  intro lim b' hlim hb
  obtain ⟨r', hr', hiff'⟩ := checkOptions_spec (b := b') hlim
  rw [hr, hr', Bool.eq_iff_iff.mpr (hiff'.trans (hb ▸ hiff.symm))]

/-! ## The verdict -/

theorem getIcmp6Ns_ok (h : 20 ≤ lim) (hlen : len ≤ lim) : ∃ r, getIcmp6Ns lim b len = .ok r ∧
    (r = true ↔ LooksNs b len) := by
  rw [getIcmp6Ns, fld_ok b (by omega)]
  change ∃ r, (if (le16 (load b 18 2)).toNat < 24 ∨ len < nsBaseSize then (.ok false : M Bool)
    else _) = _ ∧ _
  unfold LooksNs
  split_ifs with hc
  · exact ⟨false, rfl, fun hf => Bool.noConfusion hf, fun hl => by omega⟩
  · have : nsBaseSize = 78 := rfl
    rw [fld_ok b (by omega)]
    refine ⟨_, rfl, fun ht => ⟨by omega, by omega, ?_⟩, fun hl => ?_⟩
    · exact of_decide_eq_true ht
    · exact decide_eq_true hl.2.2

theorem getIcmp6Ns_fault (h : lim < 20) : getIcmp6Ns lim b len = .error (.read 18) := by
  rw [getIcmp6Ns, fld_fault b (by omega)]
  rfl

theorem checkValidNs_eq (h : nsBaseSize ≤ lim) : checkValidNs lim b ipaddr proxyMode optlen =
    if ip6Src b = 0 then .ok false
    else if b 21 ≠ 255 then .ok false
    else if b 55 ≠ 0 then .ok false
    else icmpv6Sum lim b 54 (ip6Plen b) (pseudoSumV6 (ip6Src b) (ip6Dst b) (load b 18 2)) >>=
      fun sum => if sum ≠ 0xffff then .ok false
        else if nsTarget b 0 = 0xff ∨ (proxyMode = false ∧ nsTarget b ≠ ipaddr) then .ok false
        else checkOptions lim b nsBaseSize optlen := by
  have h78 : nsBaseSize = 78 := rfl
  unfold checkValidNs
  rw [fld_ok b (by omega), fld_ok b (by omega), fld_ok b (by omega), fld_ok b (by omega),
    fld_ok b (by omega), fld_ok b (by omega)]
  rfl

theorem checkValidNs_drop (h : nsBaseSize ≤ lim) (hr : ¬ ReachesSum b) :
    checkValidNs lim b ipaddr proxyMode optlen = .ok false := by
  rw [checkValidNs_eq h]
  by_cases h1 : ip6Src b = 0
  · rw [if_pos h1]
  by_cases h2 : b 21 = 255
  · by_cases h3 : b 55 = 0
    · exact absurd ⟨h1, h2, h3⟩ hr
    · rw [if_neg h1, if_neg (not_not.mpr h2), if_pos h3]
  · rw [if_neg h1, if_pos h2]

/-- **The verdict on a frame whose payload can be read.** -/
theorem checkValidNs_ok (ipaddr : In6Addr) (proxyMode : Bool) (hr : ReachesSum b)
    (hopt : nsBaseSize + optlen ≤ lim) (hplen : 54 + ip6Plen b ≤ lim) :
    ∃ r, checkValidNs lim b ipaddr proxyMode optlen = .ok r ∧ (r = true ↔ ChecksumOk b ∧
      nsTarget b 0 ≠ 0xff ∧ (proxyMode = false → nsTarget b = ipaddr) ∧
        NdOptions (slice b nsBaseSize optlen)) := by
  obtain ⟨v, hv, hsum⟩ := icmpv6Sum_valid lim b (ip6Src b) (ip6Dst b) rfl hplen
  obtain ⟨r, hopts, hiff⟩ := checkOptions_spec (b := b) hopt
  rw [checkValidNs_eq (by omega), if_neg hr.1, if_neg (not_not.mpr hr.2.1),
    if_neg (not_not.mpr hr.2.2)]
  unfold ip6Plen at *
  rw [hv]
  change ∃ r, (if v ≠ 0xffff then (.ok false : M Bool) else _) = _ ∧ _
  rw [hopts]
  split_ifs with h1 h2
  · exact ⟨false, rfl, fun hf => Bool.noConfusion hf, fun hc => absurd (hsum.mpr hc.1) h1⟩
  · refine ⟨false, rfl, fun hf => Bool.noConfusion hf, fun hc => ?_⟩
    rcases h2 with h2 | ⟨h2, h3⟩
    · exact absurd h2 hc.2.1
    · exact absurd (hc.2.2.1 h2) h3
  · rw [not_or, not_and, not_not] at h2
    exact ⟨r, rfl, fun hrt => ⟨hsum.mp (not_not.mp h1), h2.1, h2.2, hiff.mp hrt⟩,
      fun hc => hiff.mpr hc.2.2.2⟩

/-- **The fault of a frame whose declared payload reaches beyond what may be read.** -/
theorem checkValidNs_fault (ipaddr : In6Addr) (proxyMode : Bool) (optlen : ℕ) (hr : ReachesSum b)
    (h : nsBaseSize ≤ lim) (hplen : lim < 54 + ip6Plen b) :
    ∃ o, checkValidNs lim b ipaddr proxyMode optlen = .error (.read o) := by
  have h78 : nsBaseSize = 78 := rfl
  obtain ⟨o, ho⟩ := softChecksum_fault lim b (show 54 ≤ lim by omega) hplen
    (Nat.le_of_lt_succ (BitVec.isLt _))
  refine ⟨o, ?_⟩
  rw [checkValidNs_eq h, if_neg hr.1, if_neg (not_not.mpr hr.2.1), if_neg (not_not.mpr hr.2.2),
    icmpv6Sum, ho]
  rfl

theorem checkValidNs_target : Post (fun v => v = true → nsTarget b = ipaddr) (fun _ => True)
    (checkValidNs lim b ipaddr false optlen) := by
  have htarget : Post (fun v => v = nsTarget b) (fun _ => True) (fld lim b 62 16) :=
    .ite (fun _ => rfl) fun _ => .intro
  refine .bind .trivial fun _ _ => .ite (fun _ h => Bool.noConfusion h) fun _ => ?_
  refine .bind .trivial fun _ _ => .ite (fun _ h => Bool.noConfusion h) fun _ => ?_
  refine .bind .trivial fun _ _ => .ite (fun _ h => Bool.noConfusion h) fun _ => ?_
  refine .bind .trivial fun _ _ => .bind .trivial fun _ _ => .bind .trivial fun _ _ => ?_
  refine .ite (fun _ h => Bool.noConfusion h) fun _ => .bind htarget ?_
  rintro _ rfl
  refine .ite (fun _ h => Bool.noConfusion h) fun hn => Post.trivial.mono (fun _ _ _ => ?_)
    fun _ h => h
  by_contra hne
  exact hn (Or.inr ⟨rfl, hne⟩)

theorem checkValidNs_iff (ipaddr : In6Addr) (hlen : len = 54 + ip6Plen b) (hlim : len ≤ lim)
    (hnxt : ip6Nxt b = 58) (hl : LooksNs b len) :
    ∃ r, checkValidNs lim b ipaddr false (len - nsBaseSize) = .ok r ∧
      (r = true ↔ ValidNs ipaddr b) := by
  have h78 : nsBaseSize = 78 := rfl
  obtain ⟨-, hbase, htype⟩ := hl
  by_cases hr : ReachesSum b
  · obtain ⟨r, hrun, hiff⟩ := checkValidNs_ok ipaddr false hr
      (show nsBaseSize + (len - nsBaseSize) ≤ lim by omega)
      (show 54 + ip6Plen b ≤ lim by omega)
    rw [show len - nsBaseSize = ip6Plen b - 24 by omega] at hrun hiff ⊢
    refine ⟨r, hrun, fun h => ?_, fun h => hiff.mpr ?_⟩
    swap
    · exact ⟨h.checksum, h.notMulticast, fun _ => h.target, h.options⟩
    obtain ⟨hsum, hmc, htgt, hopt⟩ := hiff.mp h
    exact ⟨hnxt, htype, hr.2.2, hr.2.1, by omega, hsum, hr.1, htgt rfl, hmc, hopt⟩
  · exact ⟨false, checkValidNs_drop (by omega) hr, fun hf => Bool.noConfusion hf,
      fun h => absurd ⟨h.src, h.hlim, h.code⟩ hr⟩

theorem isIcmp6Ns_ok (h : 20 ≤ lim) (hlen : len ≤ lim) : ∃ r, isIcmp6Ns lim b len = .ok r ∧
    (r = true ↔ ip6Nxt b = 58 ∧ LooksNs b len) := by
  unfold isIcmp6Ns
  split_ifs with hn
  · obtain ⟨r, hrun, hiff⟩ := getIcmp6Ns_ok (b := b) h hlen
    exact ⟨r, hrun, hiff.trans ⟨fun hl => ⟨hn, hl⟩, And.right⟩⟩
  · exact ⟨false, rfl, fun hf => Bool.noConfusion hf, fun hl => absurd hl.1 hn⟩

/-- A valid solicitation passes `get_icmp6_ns` unless its payload length is a small multiple of
`256`. -/
theorem ValidNs.looksNs_iff (h : ValidNs ipaddr b) (hlen : len = 54 + ip6Plen b) :
    LooksNs b len ↔ ¬ (ip6Plen b % 256 = 0 ∧ ip6Plen b < 6144) := by
  have h78 : nsBaseSize = 78 := rfl
  have hp : ip6Plen b = _ := toNat_ntohs_le16 (load b 18 2)
  have hr := toNat_le16 (load b 18 2)
  have h0 := (load b 18 2 0).isLt
  have h1 := (load b 18 2 1).isLt
  have hplen := h.plen
  unfold LooksNs
  constructor
  · intro hl
    omega
  · intro hn
    have hmod : ip6Plen b % 256 = (load b 18 2 1).toNat := by omega
    exact ⟨by omega, by omega, h.type⟩

/-! ## The advertisement -/

section

variable {S : Type} [DecidableEq S]

/-- One frame has been written, by `sender`. -/
def Sent (sender : Sender) (io io' : Io S) : Prop := ∃ x, io'.tx = io.tx ++ [x] ∧ x.sender = sender

omit [DecidableEq S] in
theorem not_sent_self {sender : Sender} {io io' : Io S} (h : io'.tx = io.tx) :
    ¬ Sent sender io io' := by
  rintro ⟨x, hx, -⟩
  rw [h] at hx
  exact absurd hx (by simp)

omit [DecidableEq S] in
theorem Sent.unique {sender sender' : Sender} {io io' : Io S} (h : Sent sender io io')
    (h' : Sent sender' io io') : sender = sender' := by
  obtain ⟨x, hx, rfl⟩ := h
  obtain ⟨y, hy, rfl⟩ := h'
  rw [hx] at hy
  exact congrArg Tx.sender (List.singleton_injective (List.append_cancel_left hy))

/-- The advertisement is always built: its own bytes can be read. -/
theorem naFrame_ok (hdest mac : Mac) (src dst : In6Addr) (mcast : Bool) :
    ∃ bytes, naFrame hdest mac src dst mcast = .ok bytes := by
  have hp : naPlen mcast ≤ 32 := by cases mcast <;> decide
  obtain ⟨s, hs, -⟩ := softChecksum_ok (nsBaseSize + 8) (naBuff hdest mac src dst mcast)
    (show 54 + naPlen mcast ≤ nsBaseSize + 8 by rw [nsBaseSize]; omega) (by omega)
  rw [naFrame, icmpv6Sum, hs]
  exact ⟨_, rfl⟩

theorem sendIcmp6Na_ok (st : ArpStats S) (ifd : Ifdata) (b : Buf) (mcast : Bool) (io : Io S) :
    ∃ io', sendIcmp6Na st ifd b mcast io = .ok io' ∧ Sent .sendIcmp6Na io io' := by
  obtain ⟨bytes, h⟩ := naFrame_ok (hSource b) ifd.mac ifd.vip6 (ip6Src b) mcast
  rw [sendIcmp6Na, h]
  exact ⟨_, rfl, ⟨_, _, _⟩, rfl, rfl⟩

variable (st : ArpStats S) {ifd : Ifdata} (io : Io S)

/-- **`mac_resolve` on the solicited-node address.** -/
theorem macResolve_ns (hlen : len = 54 + ip6Plen b) (hlim : len ≤ lim) (h6 : ifd.v6Enable = true)
    (hmac : ifd.fmmac = hDest b) (hb : isBroadcast (hDest b) = false) :
    ∃ io', macResolve st lim ifd ethPIpv6 len b io = .ok (b, io') ∧
      (Sent .sendIcmp6Na io io' ↔ ValidNs ifd.vip6 b ∧ LooksNs b len) := by
  have h20 : 20 ≤ lim := by omega
  obtain ⟨ns, hns, hnsiff⟩ := isIcmp6Ns_ok (b := b) h20 hlim
  rw [macResolve, hb, if_neg Bool.false_ne_true, if_pos ⟨rfl, h6, hmac⟩, hns]
  cases ns with
  | false =>
    refine ⟨_, rfl, fun h => absurd h (not_sent_self rfl), fun h => ?_⟩
    exact Bool.noConfusion (hnsiff.mpr ⟨h.1.nxt, h.2⟩)
  | true =>
    obtain ⟨hnxt, hl⟩ := hnsiff.mp rfl
    obtain ⟨r, hr, hriff⟩ := checkValidNs_iff ifd.vip6 hlen hlim hnxt hl
    change ∃ io', (checkValidNs lim b ifd.vip6 false (len - nsBaseSize) >>= _) = _ ∧ _
    rw [hr]
    cases r with
    | false =>
      refine ⟨_, rfl, fun h => absurd h (not_sent_self rfl), fun h => ?_⟩
      exact Bool.noConfusion (hriff.mpr h.1)
    | true =>
      obtain ⟨io', hsend, hsent⟩ := sendIcmp6Na_ok st ifd b true io
      refine ⟨io', ?_, fun _ => ⟨hriff.mp rfl, hl⟩, fun _ => hsent⟩
      change (sendIcmp6Na st ifd b true io >>= fun io => .ok (b, io)) = _
      rw [hsend]
      rfl

/-- **`mac_resolve_uc6` on what looks like a solicitation, to the virtual address.** -/
theorem macResolveUc6_ns (hlen : len = 54 + ip6Plen b) (hlim : len ≤ lim) (h6 : ifd.v6Enable = true)
    (hdst : ip6Dst b = ifd.vip6) (hnxt : ip6Nxt b = 58) (hl : LooksNs b len) :
    ∃ io', macResolveUc6 st lim ifd len b io = .ok io' ∧
      (Sent .sendIcmp6Na io io' ↔ ValidNs ifd.vip6 b) := by
  obtain ⟨r, hr, hriff⟩ := checkValidNs_iff ifd.vip6 hlen hlim hnxt hl
  rw [macResolveUc6, h6, hdst, if_neg (by simp), hr]
  cases r with
  | false =>
    exact ⟨_, rfl, fun h => absurd h (not_sent_self rfl), fun h => Bool.noConfusion (hriff.mpr h)⟩
  | true =>
    obtain ⟨io', hsend, hsent⟩ := sendIcmp6Na_ok st ifd b false io
    exact ⟨io', hsend, fun _ => hriff.mp rfl, fun _ => hsent⟩

end

end Sasat
