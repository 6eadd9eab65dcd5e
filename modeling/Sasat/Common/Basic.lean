import Mathlib.Tactic
import Mathlib.Data.BitVec
import Mathlib.Data.Fintype.Pi

/-!
# Bytes, addresses, buffers

The translators run on a little-endian machine and take addresses and header fields as the bytes
of a frame. An address is the array of its bytes in memory order, which is network order.

* `InAddr`, `In6Addr`, `Mac`; `le16`, `le32` (a load), `ntohs`, `ntohl` (the byte swaps).
* `ipHashCode4`, `ipHashCode6`: the two hash functions of `util_inline.h`.
* `Buf`, `load`, `store`, `frame`: a receive buffer and the accesses to it; `recvBuf`: a frame in
  the buffer of its receiver.
* `Fault`, `M`: what a C function can run into besides returning; `fld`: a checked access.
* `Ifdata`, `Tx`, `Io`: interface data, a frame given to `write`, counters and frames written.
* `MacOutcome`: what an attempt to resolve a MAC address can end with.
-/

namespace Sasat

abbrev Byte : Type := BitVec 8

-- the lengths of the arrays whose bytes are named one by one
instance neZeroByte : NeZero 1 := ⟨Nat.one_ne_zero⟩

instance neZeroAddr : NeZero 4 := ⟨Nat.succ_ne_zero 3⟩

instance neZeroMac : NeZero 6 := ⟨Nat.succ_ne_zero 5⟩

instance neZeroAddr6 : NeZero 16 := ⟨Nat.succ_ne_zero 15⟩

/-- `struct in_addr`. -/
abbrev InAddr : Type := Fin 4 → Byte

/-- `struct in6_addr`. -/
abbrev In6Addr : Type := Fin 16 → Byte

abbrev Mac : Type := Fin 6 → Byte

/-! ## Byte order -/

def le16 (v : Fin 2 → Byte) : BitVec 16 := BitVec.ofNat 16 ((v 0).toNat + 256 * (v 1).toNat)

def le32 (v : Fin 4 → Byte) : BitVec 32 :=
  BitVec.ofNat 32 ((v 0).toNat + 256 * (v 1).toNat + 65536 * (v 2).toNat +
    16777216 * (v 3).toNat)

/-- `ntohs` and `htons`: swap the bytes of a 16-bit word. -/
def ntohs (x : BitVec 16) : BitVec 16 :=
  BitVec.ofNat 16 (256 * (x.toNat % 256) + x.toNat / 256)

/-- `ntohl`: reverse the bytes of a 32-bit word. -/
def ntohl (x : BitVec 32) : BitVec 32 :=
  BitVec.ofNat 32 (16777216 * (x.toNat % 256) + 65536 * (x.toNat / 256 % 256) +
    256 * (x.toNat / 65536 % 256) + x.toNat / 16777216)

def bytes16 (x : BitVec 16) : Fin 2 → Byte :=
  ![BitVec.ofNat 8 (x.toNat % 256), BitVec.ofNat 8 (x.toNat / 256)]

theorem toNat_le16 (v : Fin 2 → Byte) : (le16 v).toNat = (v 0).toNat + 256 * (v 1).toNat := by
  have h0 := (v 0).isLt
  have h1 := (v 1).isLt
  rw [le16, BitVec.toNat_ofNat]
  omega

theorem toNat_le32 (v : Fin 4 → Byte) : (le32 v).toNat =
    (v 0).toNat + 256 * (v 1).toNat + 65536 * (v 2).toNat + 16777216 * (v 3).toNat := by
  have h0 := (v 0).isLt
  have h1 := (v 1).isLt
  have h2 := (v 2).isLt
  have h3 := (v 3).isLt
  rw [le32, BitVec.toNat_ofNat]
  omega

theorem toNat_ntohs (x : BitVec 16) : (ntohs x).toNat = 256 * (x.toNat % 256) + x.toNat / 256 := by
  have := x.isLt
  rw [ntohs, BitVec.toNat_ofNat]
  omega

theorem ntohs_ntohs (x : BitVec 16) : ntohs (ntohs x) = x := by
  have := x.isLt
  apply BitVec.eq_of_toNat_eq
  rw [toNat_ntohs, toNat_ntohs]
  omega

theorem toNat_ntohs_le16 (v : Fin 2 → Byte) :
    (ntohs (le16 v)).toNat = 256 * (v 0).toNat + (v 1).toNat := by
  have h0 := (v 0).isLt
  have h1 := (v 1).isLt
  rw [toNat_ntohs, toNat_le16]
  omega

theorem toNat_ntohl_le32 (v : Fin 4 → Byte) : (ntohl (le32 v)).toNat =
    16777216 * (v 0).toNat + 65536 * (v 1).toNat + 256 * (v 2).toNat + (v 3).toNat := by
  rw [ntohl, BitVec.toNat_ofNat]
  have h0 := (v 0).isLt
  have h1 := (v 1).isLt
  have h2 := (v 2).isLt
  have h3 := (v 3).isLt
  have hx := toNat_le32 v
  generalize (le32 v).toNat = x at hx
  have e0 : x % 256 = (v 0).toNat := by omega
  have e1 : x / 256 % 256 = (v 1).toNat := by omega
  have e2 : x / 65536 % 256 = (v 2).toNat := by omega
  have e3 : x / 16777216 = (v 3).toNat := by omega
  rw [e0, e1, e2, e3]
  omega

theorem le16_bytes16 (x : BitVec 16) : le16 (bytes16 x) = x := by
  have := x.isLt
  apply BitVec.eq_of_toNat_eq
  rw [toNat_le16]
  simp only [bytes16, Matrix.cons_val_zero, Matrix.cons_val_one, BitVec.toNat_ofNat]
  omega

theorem le16_injective {v w : Fin 2 → Byte} (h : le16 v = le16 w) : v = w := by
  have h' := congrArg BitVec.toNat h
  rw [toNat_le16, toNat_le16] at h'
  have hv := (v 0).isLt
  have hw := (w 0).isLt
  have e0 : v 0 = w 0 := BitVec.eq_of_toNat_eq (by omega)
  have e1 : v 1 = w 1 := BitVec.eq_of_toNat_eq (by rw [e0] at h'; omega)
  funext i
  match i with
  | 0 => exact e0
  | 1 => exact e1

theorem bytes16_le16 (v : Fin 2 → Byte) : bytes16 (le16 v) = v :=
  le16_injective (le16_bytes16 _)

theorem ntohs_injective {x y : BitVec 16} (h : ntohs x = ntohs y) : x = y := by
  rw [← ntohs_ntohs x, h, ntohs_ntohs]

/-! ## Hash codes -/

/-- `ip_hash_code4`. -/
def ipHashCode4 (addr : InAddr) (mask : ℕ) : ℕ :=
  let tmp1 := (addr 0).toNat + (addr 3).toNat
  let tmp2 := (addr 1).toNat + (addr 2).toNat
  ((tmp2 <<< 8) + tmp1) &&& mask

/-- Word `k` of an IPv6 address, `s6_addr32[k]`. -/
def s6Addr32 (addr : In6Addr) (k : Fin 4) : BitVec 32 :=
  le32 fun i => addr ⟨4 * k + i, by omega⟩

/-- `ip_hash_code6`. -/
def ipHashCode6 (addr : In6Addr) (mask : ℕ) : ℕ :=
  let hash := s6Addr32 addr 0 + s6Addr32 addr 1 + s6Addr32 addr 2 + s6Addr32 addr 3
  (hash + hash >>> 16 + hash >>> 24).toNat &&& mask

theorem and_mask_lt (n : ℕ) {k : ℕ} (hk : 0 < k) : n &&& (k - 1) < k :=
  lt_of_le_of_lt Nat.and_le_right (by omega)

/-! ## Buffers -/

abbrev Buf : Type := ℕ → Byte

/-- Read `n` bytes at `off`. -/
def load (b : Buf) (off n : ℕ) : Fin n → Byte := fun k => b (off + k)

/-- Write the bytes `v` at `off`. -/
def store {n : ℕ} (b : Buf) (off : ℕ) (v : Fin n → Byte) : Buf := fun i =>
  if h : off ≤ i ∧ i < off + n then v ⟨i - off, by omega⟩ else b i

/-- The first `len` bytes of a buffer. -/
def frame (b : Buf) (len : ℕ) : List Byte := (List.range len).map b

/-- The `len` bytes at `off`. -/
def slice (b : Buf) (off len : ℕ) : List Byte := frame (fun i => b (off + i)) len

@[simp] theorem load_apply (b : Buf) (off n : ℕ) (k : Fin n) : load b off n k = b (off + k) := rfl

theorem store_apply_of_mem {n : ℕ} (b : Buf) {off i : ℕ} (v : Fin n → Byte) (h1 : off ≤ i)
    (h2 : i < off + n) : store b off v i = v ⟨i - off, by omega⟩ := dif_pos ⟨h1, h2⟩

theorem store_apply_of_not {n : ℕ} (b : Buf) {off i : ℕ} (v : Fin n → Byte)
    (h : i < off ∨ off + n ≤ i) : store b off v i = b i := dif_neg (by omega)

@[simp] theorem load_store_self {n : ℕ} (b : Buf) (off : ℕ) (v : Fin n → Byte) :
    load (store b off v) off n = v := by
  funext k
  rw [load_apply, store_apply_of_mem b v (by omega) (by omega)]
  congr 1
  exact Fin.ext (by simp)

theorem load_store_of_disjoint {n m : ℕ} (b : Buf) {off off' : ℕ} (v : Fin n → Byte)
    (h : off' + m ≤ off ∨ off + n ≤ off') : load (store b off v) off' m = load b off' m := by
  funext k
  rw [load_apply, load_apply, store_apply_of_not b v (by omega)]

@[simp] theorem length_frame (b : Buf) (len : ℕ) : (frame b len).length = len := by
  simp [frame]

theorem frame_congr {b b' : Buf} {len : ℕ} :
    frame b len = frame b' len ↔ ∀ i < len, b i = b' i := by
  simp [frame]

theorem getElem?_frame {b : Buf} {len i : ℕ} (h : i < len) : (frame b len)[i]? = some (b i) := by
  simp [frame, h]

/-- A received frame in a buffer. -/
def recvBuf (bytes : List Byte) : Buf := fun i => bytes.getD i 0

theorem recvBuf_frame {b : Buf} {len i : ℕ} (h : i < len) : recvBuf (frame b len) i = b i := by
  rw [recvBuf, List.getD_eq_getElem?_getD, getElem?_frame h, Option.getD_some]

theorem load_recvBuf_frame {b : Buf} {len off n : ℕ} (h : off + n ≤ len) :
    load (recvBuf (frame b len)) off n = load b off n := by
  funext k
  exact recvBuf_frame (by omega)

@[simp] theorem length_slice (b : Buf) (off len : ℕ) : (slice b off len).length = len :=
  length_frame _ _

theorem slice_succ_succ (b : Buf) (off len : ℕ) :
    slice b off (len + 2) = b off :: b (off + 1) :: slice b (off + 2) len := by
  rw [slice, frame, List.range_succ_eq_map, List.range_succ_eq_map]
  simp only [List.map_cons, List.map_map, slice, frame, Nat.add_zero]
  refine congrArg _ (congrArg _ (List.map_congr_left fun i _ => ?_))
  simp only [Function.comp_apply]
  congr 1
  omega

theorem slice_add (b : Buf) (off m n : ℕ) :
    slice b off (m + n) = slice b off m ++ slice b (off + m) n := by
  simp only [slice, frame, List.range_add, List.map_append, List.map_map]
  refine congrArg _ (List.map_congr_left fun i _ => ?_)
  simp only [Function.comp_apply, Nat.add_assoc]

theorem slice_store_of_disjoint {n : ℕ} (b : Buf) {off off' len : ℕ} (v : Fin n → Byte)
    (h : off' + len ≤ off ∨ off + n ≤ off') :
    slice (store b off v) off' len = slice b off' len :=
  frame_congr.mpr fun i hi => store_apply_of_not b v (by omega)

theorem slice_store_self (b : Buf) (off : ℕ) (l : List Byte) :
    slice (store b off l.get) off l.length = l := by
  refine List.ext_getElem (length_slice _ _ _) fun j h1 h2 => ?_
  have h3 : off + j < off + l.length := by omega
  simp [slice, frame, store_apply_of_mem b l.get (Nat.le_add_right off j) h3]

/-! ## Faults -/

/-- What a call can run into instead of returning. -/
inductive Fault
  | read (off : ℕ)
  | dangling
  | endless
  deriving DecidableEq, Repr

/-- The result of a call. -/
abbrev M : Type → Type := Except Fault

theorem bind_eq_ok {α β : Type} {x : M α} {f : α → M β} {r : β} :
    x >>= f = .ok r ↔ ∃ a, x = .ok a ∧ f a = .ok r := by
  cases x with
  | error e =>
    refine ⟨fun h => (by cases h), ?_⟩
    rintro ⟨a, h, -⟩
    cases h
  | ok a =>
    refine ⟨fun h => ⟨a, rfl, h⟩, ?_⟩
    rintro ⟨a', ha, h⟩
    cases ha
    exact h

theorem exists_ok_iff {α : Type} {P : α → Prop} {x : M α} {a : α} (h : x = .ok a) :
    (∃ r, x = .ok r ∧ P r) ↔ P a := by
  subst h
  constructor
  · rintro ⟨r, hr, hP⟩
    cases hr
    exact hP
  · intro hP
    exact ⟨a, rfl, hP⟩

/-- Read the `n` bytes of a field at `off` of which the first `lim` bytes may be read. -/
def fld (lim : ℕ) (b : Buf) (off n : ℕ) : M (Fin n → Byte) :=
  if off + n ≤ lim then .ok (load b off n) else .error (.read off)

theorem fld_ok {lim off n : ℕ} (b : Buf) (h : off + n ≤ lim) :
    fld lim b off n = .ok (load b off n) := if_pos h

theorem fld_fault {lim off n : ℕ} (b : Buf) (h : lim < off + n) :
    fld lim b off n = .error (.read off) := if_neg (by omega)

/-! ## Interfaces, counters, transmitted frames -/

/-- `struct ifdata`. -/
structure Ifdata where
  sockfd : ℕ
  mac : Mac
  v4Enable : Bool
  v6Enable : Bool
  /-- The solicited-node multicast MAC. -/
  fmmac : Mac
  sip4 : InAddr
  vip4 : InAddr
  sip6 : In6Addr
  vip6 : In6Addr

/-- The functions that call `write` on a packet socket. -/
inductive Sender
  | arpReply | sendIcmp6Na | procV4 | procV6
  | procV4In | procV6In | procV4Eg | procV6Eg
  | arpProxyBody | sendNaBody
  deriving DecidableEq, Repr

/-- A frame given to `write`, with the calling function and the socket. -/
structure Tx where
  sender : Sender
  fd : ℕ
  bytes : List Byte
  deriving DecidableEq

/-- The counters of a translator and the frames that it has written, the latest last. -/
structure Io (S : Type) where
  /-- `ssz_t` is an `unsigned long`; the host is taken to be LP64. -/
  sstat : S → BitVec 64
  tx : List Tx

namespace Io

variable {S : Type} [DecidableEq S] (io : Io S)

/-- `SASAT_STAT`. -/
def stat (m : S) : Io S := { io with sstat := Function.update io.sstat m (io.sstat m + 1) }

/-- `write`. -/
def write (sender : Sender) (fd : ℕ) (bytes : List Byte) : Io S :=
  { io with tx := io.tx ++ [⟨sender, fd, bytes⟩] }

@[simp] theorem tx_stat (m : S) : (io.stat m).tx = io.tx := rfl

@[simp] theorem stat_self (m : S) : (io.stat m).sstat m = io.sstat m + 1 :=
  Function.update_self _ _ _

theorem stat_other {m k : S} (h : k ≠ m) : (io.stat m).sstat k = io.sstat k :=
  Function.update_of_ne h _ _

end Io

/-- What `get_target_mac` returns and leaves in the MAC address that it is given. -/
structure MacOutcome where
  ok : Bool
  mac : Mac

/-- The outcomes of the attempts of one MAC resolution. -/
abbrev MacOutcomes : Type := Fin 3 → MacOutcome

/-- One of the three attempts ends with a MAC address. -/
def MacOutcomes.Resolves (o : MacOutcomes) : Prop := ∃ i, (o i).ok = true ∧ (o i).mac ≠ 0

instance (o : MacOutcomes) : Decidable o.Resolves := inferInstanceAs (Decidable (∃ _, _))

/-- `is_multicast`. -/
def isMulticast (mac : Mac) : Bool := (mac 0 &&& 1) != 0

/-- `is_broadcast`. -/
def isBroadcast (mac : Mac) : Bool := mac == fun _ => 0xff

/-- `is_multicast_v6`. -/
def isMulticastV6 (mac : Mac) : Bool := mac 0 == 0x33 && mac 1 == 0x33

end Sasat
