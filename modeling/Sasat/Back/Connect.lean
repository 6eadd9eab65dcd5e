import Sasat.Back.Backend
import Sasat.Conf.PolicyText
import Sasat.Lib.NetBits

/-!
# The connection mode

`get_connect_mode` of `back_init.c` and `get_mask` of `rt_body.c`: whether the two interfaces of the
backend are on one network.

* `isSameNet`: the comparison of two addresses under a mask, with the shift amounts that it uses.
* **`isSameNet_iff`**: it compares the leading bits, by shifts between 1 and 31.
* `IfAddr`, `SockAddr`, `getMask`: the prefix length of an address of an interface.
* `getConnectMode`, `ConnectOk`: the mode, and what it should be.
* **`getConnectMode_iff`**: when it is that.
-/

namespace Sasat

open NetBits

/-! ## Words and bits -/

theorem getLsbD_le32 (v : Fin 4 → Byte) {j : ℕ} (hj : j < 32) :
    (le32 v).getLsbD j = (v ⟨j / 8, by omega⟩).getLsbD (j % 8) := by
  have h0 := (v 0).isLt
  have h1 := (v 1).isLt
  have h2 := (v 2).isLt
  rw [← BitVec.testBit_toNat, toNat_le32, testBit_four h0 h1 h2]
  split_ifs with h8 h16 h24
  · rw [show (⟨j / 8, by omega⟩ : Fin 4) = 0 from Fin.ext (by simp; omega),
      show j % 8 = j by omega]
    rfl
  · rw [show (⟨j / 8, by omega⟩ : Fin 4) = 1 from Fin.ext (by simp; omega),
      show j % 8 = j - 8 by omega]
    rfl
  · rw [show (⟨j / 8, by omega⟩ : Fin 4) = 2 from Fin.ext (by simp; omega),
      show j % 8 = j - 16 by omega]
    rfl
  · rw [show (⟨j / 8, by omega⟩ : Fin 4) = 3 from Fin.ext (by simp; omega),
      show j % 8 = j - 24 by omega]
    rfl

theorem getLsbD_ntohl (x : BitVec 32) {j : ℕ} (hj : j < 32) :
    (ntohl x).getLsbD j = x.getLsbD (8 * (3 - j / 8) + j % 8) := by
  have hx := x.isLt
  have e : (ntohl x).toNat = x.toNat / 16777216 + 256 * (x.toNat / 65536 % 256) +
      65536 * (x.toNat / 256 % 256) + 16777216 * (x.toNat % 256) := by
    rw [ntohl, BitVec.toNat_ofNat]
    omega
  have hdiv : ∀ n i k, (x.toNat / 2 ^ n % 2 ^ k).testBit i =
      (decide (i < k) && x.getLsbD (i + n)) := by
    intro n i k
    rw [Nat.testBit_mod_two_pow, Nat.testBit_div_two_pow, BitVec.testBit_toNat]
  rw [← BitVec.testBit_toNat, e, testBit_four (by omega) (by omega) (by omega)]
  split_ifs with h8 h16 h24
  · have h := hdiv 24 j 8
    rw [show (2 : ℕ) ^ 24 = 16777216 by norm_num, Nat.mod_eq_of_lt (by omega)] at h
    rw [h, show 8 * (3 - j / 8) + j % 8 = j + 24 by omega]
    simp [h8]
  · rw [show 8 * (3 - j / 8) + j % 8 = j - 8 + 16 by omega]
    have h := hdiv 16 (j - 8) 8
    rw [decide_eq_true (by omega)] at h
    exact h
  · rw [show 8 * (3 - j / 8) + j % 8 = j - 16 + 8 by omega]
    have h := hdiv 8 (j - 16) 8
    rw [decide_eq_true (by omega)] at h
    exact h
  · rw [show 8 * (3 - j / 8) + j % 8 = j - 24 + 0 by omega]
    have h := hdiv 0 (j - 24) 8
    rw [decide_eq_true (by omega), Nat.pow_zero, Nat.div_one] at h
    exact h

/-! ## The comparison -/

/-- The loop of `is_same_net` from word `i` on, with `k` words ahead. -/
def isSameNetLoop (s1 s2 : ℕ → BitVec 32) : ℕ → ℕ → ℤ → Bool × List ℤ
  | 0, _, _ => (true, [])
  | k + 1, i, mlen =>
    if 32 ≤ mlen then
      if s1 i ≠ s2 i then (false, [])
      else if mlen - 32 = 0 then (true, [])
      else isSameNetLoop s1 s2 k (i + 1) (mlen - 32)
    else
      let mask := ntohl (0xffffffff#32 <<< (32 - mlen).toNat)
      (s1 i &&& mask = s2 i &&& mask, [32 - mlen])

/-- `is_same_net`: whether it returns 1, and the shift amounts that it uses. -/
def isSameNet (s1 s2 : ℕ → BitVec 32) (mlen : ℤ) (len : ℕ) : Bool × List ℤ :=
  isSameNetLoop s1 s2 (len / 4) 0 mlen

def addrWords (a : Buf) (i : ℕ) : BitVec 32 := le32 (load a (4 * i) 4)

theorem addrWords_eq {a b : Buf} {i : ℕ} : addrWords a i = addrWords b i ↔
    Agree (fun k => a (4 * i + k)) (fun k => b (4 * i + k)) 32 := by
  refine Iff.trans ?_ (agree_bytes (k := 4)).symm
  constructor
  · intro h k hk
    apply BitVec.eq_of_getLsbD_eq
    intro j hj
    have := congrArg (fun x => x.getLsbD (8 * k + j)) h
    simp only [addrWords] at this
    rw [getLsbD_le32 _ (by omega), getLsbD_le32 _ (by omega)] at this
    simp only [load_apply] at this
    rwa [show (8 * k + j) / 8 = k by omega, show (8 * k + j) % 8 = j by omega] at this
  · intro h
    refine congrArg le32 (funext fun k => h k k.isLt)

theorem getLsbD_mask {m j : ℕ} (hm : m < 32) (hj : j < 32) :
    (ntohl (0xffffffff#32 <<< (32 - m))).getLsbD j = decide (8 * (j / 8) + (7 - j % 8) < m) := by
  rw [getLsbD_ntohl _ hj, BitVec.getLsbD_shiftLeft,
    show (0xffffffff#32 : BitVec 32) = BitVec.allOnes 32 by decide, BitVec.getLsbD_allOnes]
  simp only [← Bool.decide_and, ← decide_not]
  congr 1
  apply propext
  omega

theorem and_mask_eq {a b : Buf} {i m : ℕ} (hm : m < 32) :
    addrWords a i &&& ntohl (0xffffffff#32 <<< (32 - m)) =
        addrWords b i &&& ntohl (0xffffffff#32 <<< (32 - m)) ↔
      Agree (fun k => a (4 * i + k)) (fun k => b (4 * i + k)) m := by
  have hbit : ∀ (c : Buf) {p : ℕ}, p < 32 → bit (fun k => c (4 * i + k)) p =
      (addrWords c i).getLsbD (8 * (p / 8) + (7 - p % 8)) := by
    intro c p hp
    rw [addrWords, getLsbD_le32 _ (by omega)]
    simp only [load_apply, bit]
    rw [show (8 * (p / 8) + (7 - p % 8)) / 8 = p / 8 by omega,
      show (8 * (p / 8) + (7 - p % 8)) % 8 = 7 - p % 8 by omega]
  constructor
  · intro h p hp
    have := congrArg (fun x => x.getLsbD (8 * (p / 8) + (7 - p % 8))) h
    simp only [BitVec.getLsbD_and] at this
    rw [getLsbD_mask hm (by omega), decide_eq_true (by omega), Bool.and_true, Bool.and_true] at this
    rw [hbit a (by omega), hbit b (by omega), this]
  · intro h
    apply BitVec.eq_of_getLsbD_eq
    intro j hj
    rw [BitVec.getLsbD_and, BitVec.getLsbD_and, getLsbD_mask hm hj]
    by_cases hp : 8 * (j / 8) + (7 - j % 8) < m
    · have := h _ hp
      rw [hbit a (by omega), hbit b (by omega),
        show 8 * ((8 * (j / 8) + (7 - j % 8)) / 8) + (7 - (8 * (j / 8) + (7 - j % 8)) % 8) = j by
          omega] at this
      rw [this]
    · rw [decide_eq_false hp, Bool.and_false, Bool.and_false]

theorem isSameNetLoop_spec (a b : Buf) : ∀ (k i m : ℕ), 1 ≤ m → m ≤ 32 * k →
    ((isSameNetLoop (addrWords a) (addrWords b) k i m).1 = true ↔
      Agree (fun j => a (4 * i + j)) (fun j => b (4 * i + j)) m) ∧
    ∀ d ∈ (isSameNetLoop (addrWords a) (addrWords b) k i m).2, 1 ≤ d ∧ d ≤ 31
  | 0, _, m, h1, hm => absurd hm (by omega)
  | k + 1, i, m, h1, hm => by
    have hnil : ∀ d ∈ ([] : List ℤ), 1 ≤ d ∧ d ≤ 31 := fun d hd => absurd hd List.not_mem_nil
    rw [isSameNetLoop]
    by_cases h32 : 32 ≤ m
    · have hsplit :=
        agree_add (a := fun j => a (4 * i + j)) (b := fun j => b (4 * i + j)) 4 (m - 32)
      rw [show 8 * 4 + (m - 32) = m by omega, ← addrWords_eq] at hsplit
      rw [if_pos (by omega), hsplit]
      split_ifs with hne hz
      · exact ⟨⟨fun h => h.elim, fun h => absurd h.1 hne⟩, hnil⟩
      · rw [show m - 32 = 0 by omega]
        exact ⟨⟨fun _ => ⟨not_not.mp hne, agree_zero _ _⟩, fun _ => rfl⟩, hnil⟩
      · obtain ⟨ih, hshift⟩ := isSameNetLoop_spec a b k (i + 1) (m - 32) (by omega) (by omega)
        rw [show (m : ℤ) - 32 = ((m - 32 : ℕ) : ℤ) by omega]
        refine ⟨ih.trans ?_, hshift⟩
        simp only [show ∀ j, 4 * (i + 1) + j = 4 * i + (4 + j) by omega]
        exact ⟨fun h => ⟨not_not.mp hne, h⟩, And.right⟩
    · rw [if_neg (by omega), show (32 - (m : ℤ)).toNat = 32 - m by omega]
      refine ⟨?_, fun d hd => ?_⟩
      · rw [← and_mask_eq (by omega)]
        exact decide_eq_true_iff
      · rw [List.mem_singleton] at hd
        omega

/-- **`is_same_net` compares the first `m` bits**, and it shifts by 1 to 31 places. -/
theorem isSameNet_iff (a b : Buf) (len m : ℕ) (hlen : len % 4 = 0) (h1 : 1 ≤ m)
    (hm : m ≤ 8 * len) :
    ((isSameNet (addrWords a) (addrWords b) m len).1 = true ↔ Agree a b m) ∧
      ∀ d ∈ (isSameNet (addrWords a) (addrWords b) m len).2, 1 ≤ d ∧ d ≤ 31 := by
  have h := isSameNetLoop_spec a b (len / 4) 0 m h1 (by omega)
  simp only [Nat.mul_zero, Nat.zero_add] at h
  exact h

/-- The IPv6 address `fd00::` with the bytes `x` and `y` in the middle. -/
def sampleNet6 (x y : Byte) : In6Addr := ![0xfd, 0, 0, 0, 0, 0, x, y, 0, 0, 0, 0, 0, 0, 0, 1]

def addrBuf {n : ℕ} (a : Fin n → Byte) : Buf := fun i => if h : i < n then a ⟨i, h⟩ else 0

theorem isSameNet_iff_sample :
    isSameNet (addrWords (addrBuf (sampleNet6 1 0))) (addrWords (addrBuf (sampleNet6 1 0x7f))) 57
        16 = (true, [7]) ∧ Agree (addrBuf (sampleNet6 1 0)) (addrBuf (sampleNet6 1 0x7f)) 57 :=
  ⟨by decide, (isSameNet_iff (addrBuf (sampleNet6 1 0)) (addrBuf (sampleNet6 1 0x7f)) 16 57
    (by decide) (by decide) (by decide)).1.mp (by decide)⟩

/-! ## The mode -/

/-- An address of an interface, as the kernel reports it. -/
inductive IfAddr
  | inet (addr : InAddr) (prefixlen : Fin 33)
  | inet6 (addr : In6Addr) (prefixlen : Fin 129)

/-- `struct sockaddr_in` and `struct sockaddr_in6` in one memory: `sin_addr` and `sin6_flowinfo` are
the same bytes. -/
structure SockAddr where
  family : Af
  sinAddr : InAddr
  sin6Addr : In6Addr

/-- `get_masklen`, for one address: the mask length afterwards. -/
def getMasklen (sa : SockAddr) (mask : ℤ) : IfAddr → ℤ
  | .inet addr len => if sa.family = .inet ∧ addr = sa.sinAddr then len else mask
  | .inet6 addr len => if sa.family = .inet6 ∧ addr = sa.sin6Addr then len else mask

/-- `get_mask`, when the routing socket answers. -/
def getMask (kernel : List IfAddr) (sa : SockAddr) : ℤ :=
  if sa.family = .unspec then -1 else kernel.foldl (getMasklen sa) 0

/-- The comparison of `get_connect_mode` in either branch: `none` where it goes on. -/
def compareNets {n : ℕ} (maskIn maskEg : ℤ) (a b : Fin n → Byte) : Option LMode :=
  if 0 < maskIn ∧ 0 < maskEg then
    if maskIn = maskEg then
      if (isSameNet (addrWords (addrBuf a)) (addrWords (addrBuf b)) maskIn n).1 then some .l2
      else some .l3
    else some .l3
  else none

/-- `get_connect_mode`. The four address structures are filled by hand on the stack, over what
`stack` holds; the last one gets the IPv6 address of `if_egress` and the family of IPv4. -/
def getConnectMode (kernel : List IfAddr) (stack : Fin 4 → SockAddr)
    (ifIngress ifEgress : Ifdata) : LMode :=
  let v4 := if ifIngress.v4Enable then
      compareNets (getMask kernel { stack 0 with sinAddr := ifIngress.sip4, family := .inet })
        (getMask kernel { stack 1 with sinAddr := ifEgress.sip4, family := .inet })
        ifIngress.sip4 ifEgress.sip4
    else none
  let v6 := if ifIngress.v6Enable then
      compareNets (getMask kernel { stack 2 with sin6Addr := ifIngress.sip6, family := .inet6 })
        (getMask kernel { stack 3 with sin6Addr := ifEgress.sip6, family := .inet })
        ifIngress.sip6 ifEgress.sip6
    else none
  (v4.or v6).getD .l2

/-- The prefix length of the IPv4 address `a` of an interface, 0 if there is none. -/
def prefixLen4 (kernel : List IfAddr) (a : InAddr) : ℤ := getMask kernel ⟨.inet, a, 0⟩

/-- The prefix length of the IPv6 address `a` of an interface, 0 if there is none. -/
def prefixLen6 (kernel : List IfAddr) (a : In6Addr) : ℤ := getMask kernel ⟨.inet6, 0, a⟩

/-- Two addresses with the prefix lengths `m` and `m'` are on one network. -/
def SameNet {n : ℕ} (m m' : ℤ) (a b : Fin n → Byte) : Prop :=
  m = m' ∧ Agree (addrBuf a) (addrBuf b) m.toNat

instance {n : ℕ} (m m' : ℤ) (a b : Fin n → Byte) : Decidable (SameNet m m' a b) :=
  inferInstanceAs (Decidable (_ ∧ _))

/-- The addresses of the enabled families are addresses of interfaces, with a prefix. -/
structure NetsKnown (kernel : List IfAddr) (ifIngress ifEgress : Ifdata) : Prop where
  v4 : ifIngress.v4Enable = true →
    1 ≤ prefixLen4 kernel ifIngress.sip4 ∧ 1 ≤ prefixLen4 kernel ifEgress.sip4
  v6 : ifIngress.v6Enable = true →
    1 ≤ prefixLen6 kernel ifIngress.sip6 ∧ 1 ≤ prefixLen6 kernel ifEgress.sip6

/-- The mode says whether the interfaces are on one network: the IPv4 network when IPv4 is enabled,
the IPv6 network when only IPv6 is. -/
structure ConnectOk (kernel : List IfAddr) (ifIngress ifEgress : Ifdata) (mode : LMode) : Prop where
  v4 : ifIngress.v4Enable = true → (mode = .l2 ↔
    SameNet (prefixLen4 kernel ifIngress.sip4) (prefixLen4 kernel ifEgress.sip4)
      ifIngress.sip4 ifEgress.sip4)
  v6 : ifIngress.v4Enable = false → ifIngress.v6Enable = true → (mode = .l2 ↔
    SameNet (prefixLen6 kernel ifIngress.sip6) (prefixLen6 kernel ifEgress.sip6)
      ifIngress.sip6 ifEgress.sip6)

/-- Only IPv6 is enabled, and the answer is right by chance: `flow`, which is looked up as an IPv4
address in place of the address of `if_egress`, is the address of no interface and the networks are
the same, or it is one, and the addresses differ in the prefix of `if_ingress`, or the prefix
lengths of `flow` and of `if_egress` are both that of `if_ingress`, or neither is. -/
def Lucky6 (kernel : List IfAddr) (flow : InAddr) (ifIngress ifEgress : Ifdata) : Prop :=
  if 0 < prefixLen4 kernel flow then
    Agree (addrBuf ifIngress.sip6) (addrBuf ifEgress.sip6)
        (prefixLen6 kernel ifIngress.sip6).toNat →
      (prefixLen4 kernel flow = prefixLen6 kernel ifIngress.sip6 ↔
        prefixLen6 kernel ifEgress.sip6 = prefixLen6 kernel ifIngress.sip6)
  else
    SameNet (prefixLen6 kernel ifIngress.sip6) (prefixLen6 kernel ifEgress.sip6)
      ifIngress.sip6 ifEgress.sip6

theorem sameNet_iff_sameNet {n : ℕ} {m m' m'' : ℤ} {a b : Fin n → Byte} :
    (SameNet m m' a b ↔ SameNet m m'' a b) ↔
      (Agree (addrBuf a) (addrBuf b) m.toNat → (m' = m ↔ m'' = m)) := by
  unfold SameNet
  rw [and_congr_left_iff, eq_comm (b := m'), eq_comm (b := m'')]

theorem getMask_inet (kernel : List IfAddr) (a : InAddr) (x : In6Addr) :
    getMask kernel ⟨.inet, a, x⟩ = prefixLen4 kernel a := by
  refine congrArg (fun f => kernel.foldl f (0 : ℤ)) ?_
  funext mask ifa
  cases ifa with
  | inet addr len => rfl
  | inet6 addr len => simp [getMasklen]

theorem getMask_inet6 (kernel : List IfAddr) (a : In6Addr) (x : InAddr) :
    getMask kernel ⟨.inet6, x, a⟩ = prefixLen6 kernel a := by
  refine congrArg (fun f => kernel.foldl f (0 : ℤ)) ?_
  funext mask ifa
  cases ifa with
  | inet addr len => simp [getMasklen]
  | inet6 addr len => rfl

theorem foldl_getMasklen {P : ℤ → Prop} {sa : SockAddr}
    (hstep : ∀ mask ifa, P mask → P (getMasklen sa mask ifa)) (kernel : List IfAddr) {mask : ℤ}
    (h : P mask) : P (kernel.foldl (getMasklen sa) mask) := by
  induction kernel generalizing mask with
  | nil => exact h
  | cons ifa kernel ih => exact ih (hstep mask ifa h)

theorem prefixLen4_le (kernel : List IfAddr) (a : InAddr) :
    0 ≤ prefixLen4 kernel a ∧ prefixLen4 kernel a ≤ 32 := by
  refine foldl_getMasklen (P := fun m => 0 ≤ m ∧ m ≤ 32) ?_ kernel ⟨le_rfl, by decide⟩
  rintro mask (⟨addr, len⟩ | ⟨addr, len⟩) h
  · have := len.isLt
    rw [getMasklen]
    split_ifs
    · exact ⟨by omega, by omega⟩
    · exact h
  · exact h

theorem prefixLen6_le (kernel : List IfAddr) (a : In6Addr) :
    0 ≤ prefixLen6 kernel a ∧ prefixLen6 kernel a ≤ 128 := by
  refine foldl_getMasklen (P := fun m => 0 ≤ m ∧ m ≤ 128) ?_ kernel ⟨le_rfl, by decide⟩
  rintro mask (⟨addr, len⟩ | ⟨addr, len⟩) h
  · exact h
  · have := len.isLt
    rw [getMasklen]
    split_ifs
    · exact ⟨by omega, by omega⟩
    · exact h

theorem compareNets_eq {n : ℕ} {m m' : ℤ} (a b : Fin n → Byte) (hn : n % 4 = 0) (h : 1 ≤ m)
    (h' : 1 ≤ m') (hm : m ≤ 8 * n) :
    compareNets m m' a b = some (if SameNet m m' a b then .l2 else .l3) := by
  have hsame := (isSameNet_iff (addrBuf a) (addrBuf b) n m.toNat hn (by omega) (by omega)).1
  rw [Int.toNat_of_nonneg (by omega)] at hsame
  rw [compareNets, if_pos ⟨by omega, by omega⟩]
  by_cases hmm : m = m'
  · rw [if_pos hmm]
    by_cases hb : Agree (addrBuf a) (addrBuf b) m.toNat
    · rw [if_pos (hsame.mpr hb), if_pos ⟨hmm, hb⟩]
    · rw [if_neg (mt hsame.mp hb), if_neg fun hc => hb hc.2]
  · rw [if_neg hmm, if_neg fun hc => hmm hc.1]

theorem ite_l2 {P : Prop} [Decidable P] : (if P then LMode.l2 else .l3) = .l2 ↔ P := by
  split_ifs with h
  · exact ⟨fun _ => h, fun _ => rfl⟩
  · exact ⟨fun hc => hc.elim, fun hc => absurd hc h⟩

/-- **The mode is right with IPv4; with IPv6 alone only by chance.** -/
theorem getConnectMode_iff (kernel : List IfAddr) (stack : Fin 4 → SockAddr)
    (ifIngress ifEgress : Ifdata) (h : NetsKnown kernel ifIngress ifEgress) :
    ConnectOk kernel ifIngress ifEgress (getConnectMode kernel stack ifIngress ifEgress) ↔
      (ifIngress.v4Enable = true ∨ ifIngress.v6Enable = false ∨
        Lucky6 kernel (stack 3).sinAddr ifIngress ifEgress) := by
  obtain ⟨h4, h6⟩ := h
  have hle4 := prefixLen4_le kernel
  have hle6 := prefixLen6_le kernel
  unfold getConnectMode
  rw [getMask_inet, getMask_inet, getMask_inet6, getMask_inet]
  cases hv4 : ifIngress.v4Enable with
  | true =>
    obtain ⟨hin, heg⟩ := h4 hv4
    have hcmp := compareNets_eq ifIngress.sip4 ifEgress.sip4 rfl hin heg (hle4 _).2
    rw [if_pos rfl, hcmp]
    refine ⟨fun _ => Or.inl rfl, fun _ => ⟨fun _ => ite_l2, fun hf => ?_⟩⟩
    rw [hv4] at hf
    cases hf
  | false =>
    rw [if_neg Bool.false_ne_true]
    cases hv6 : ifIngress.v6Enable with
    | false =>
      refine ⟨fun _ => Or.inr (Or.inl rfl), fun _ => ⟨fun hf => ?_, fun _ hf => ?_⟩⟩
      · rw [hv4] at hf
        cases hf
      · rw [hv6] at hf
        cases hf
    | true =>
      obtain ⟨hin, heg⟩ := h6 hv6
      have hok : ∀ mode, ConnectOk kernel ifIngress ifEgress mode ↔ (mode = .l2 ↔
          SameNet (prefixLen6 kernel ifIngress.sip6) (prefixLen6 kernel ifEgress.sip6)
            ifIngress.sip6 ifEgress.sip6) := by
        intro mode
        refine ⟨fun hc => hc.v6 hv4 hv6, fun hc => ⟨fun hf => ?_, fun _ _ => hc⟩⟩
        rw [hv4] at hf
        cases hf
      rw [if_pos rfl, hok]
      simp only [Option.none_or, Bool.false_eq_true, Bool.true_eq_false, false_or]
      unfold Lucky6
      by_cases hflow : 0 < prefixLen4 kernel (stack 3).sinAddr
      · rw [if_pos hflow, compareNets_eq _ _ rfl hin (by omega) (hle6 _).2, Option.getD_some,
          ite_l2, sameNet_iff_sameNet]
      · rw [if_neg hflow, compareNets, if_neg fun hc => hflow hc.2, Option.getD_none]
        exact ⟨fun hc => hc.mp rfl, fun hc => ⟨fun _ => hc, fun _ => rfl⟩⟩

def sampleNetIf (sip6 : In6Addr) : Ifdata := ⟨0, 0, false, true, 0, 0, 0, sip6, sip6⟩

/-- Interfaces with the networks `fd00:0:0:1::/64` and `fd00:0:0:y::/64`. -/
def sampleKernel (y : Byte) : List IfAddr :=
  [.inet6 (sampleNet6 0 1) 64, .inet6 (sampleNet6 0 y) 64]

theorem sampleKernel_known (y : Byte) (hy : y = 1 ∨ y = 2) :
    NetsKnown (sampleKernel y) (sampleNetIf (sampleNet6 0 1)) (sampleNetIf (sampleNet6 0 y)) := by
  rcases hy with rfl | rfl
  · exact ⟨fun h => absurd h (by decide), fun _ => by decide⟩
  · exact ⟨fun h => absurd h (by decide), fun _ => by decide⟩

theorem getConnectMode_iff_sample : ConnectOk (sampleKernel 1) (sampleNetIf (sampleNet6 0 1))
    (sampleNetIf (sampleNet6 0 1)) (getConnectMode (sampleKernel 1) (fun _ => ⟨.unspec, 0, 0⟩)
      (sampleNetIf (sampleNet6 0 1)) (sampleNetIf (sampleNet6 0 1))) := by
  refine (getConnectMode_iff _ _ _ _ (sampleKernel_known 1 (Or.inl rfl))).mpr (Or.inr (Or.inr ?_))
  rw [Lucky6, if_neg (by decide)]
  decide

/-- Two IPv6 networks are taken for one. -/
theorem getConnectMode_wrong :
    NetsKnown (sampleKernel 2) (sampleNetIf (sampleNet6 0 1)) (sampleNetIf (sampleNet6 0 2)) ∧
      ¬ ConnectOk (sampleKernel 2) (sampleNetIf (sampleNet6 0 1)) (sampleNetIf (sampleNet6 0 2))
        (getConnectMode (sampleKernel 2) (fun _ => ⟨.unspec, 0, 0⟩) (sampleNetIf (sampleNet6 0 1))
          (sampleNetIf (sampleNet6 0 2))) := by
  refine ⟨sampleKernel_known 2 (Or.inr rfl), fun h => ?_⟩
  have := (h.v6 rfl rfl).mp (by decide)
  exact absurd this (by decide)

end Sasat
