import Sasat.Lib.LastMatch
import Sasat.Route.Talk

/-!
# `rt_body.c`: attributes

An attribute starts with its length and its type, two bytes each. The length does not count the
padding behind the payload, the length of the message does.

* `rtaLen`, `rtaType`, `rtattr`: the attribute at an offset.
* `getattr`, `AttrsAppended`: one attribute at the end of a message, and a list of them.
* `parseRtattr`: the table of the attributes.
* `Attrs`: so many bytes are a sequence of attributes, where the writer and the reader meet.
* **`parseRtattr_attrs`**: the table of a sequence of attributes.
* **`parse_getattr`**: what is appended is read back, and the table of arbitrary bytes.
-/

namespace Sasat

open LastMatch

/-- An attribute: `rta_type` and the payload. -/
structure Attr where
  type : BitVec 16
  data : List Byte
  deriving DecidableEq

/-- `sizeof(struct rtattr)`. -/
def rtattrSize : ℕ := 4

/-- `RTA_LENGTH`. -/
def rtaLength (len : ℕ) : ℕ := rtattrSize + len

/-- `RTA_ALIGN`. -/
def rtaAlign (len : ℕ) : ℕ := (len + 3) / 4 * 4

/-- `NLMSG_ALIGN` and `RTA_ALIGN` of an `unsigned int`. -/
def align32 (len : BitVec 32) : BitVec 32 := (len + 3) &&& ~~~3

section Rtattr

variable (b : Buf) (rta : ℕ)

def rtaLen : BitVec 16 := le16 (load b rta 2)

def rtaType : BitVec 16 := le16 (load b (rta + 2) 2)

/-- `RTA_PAYLOAD`. -/
def rtaPayload : ℕ := (rtaLen b rta).toNat - rtaLength 0

/-- The attribute at `rta`. -/
def rtattr : Attr := ⟨rtaType b rta, slice b (rta + rtaLength 0) (rtaPayload b rta)⟩

end Rtattr

/-! ## The writer -/

/-- `getattr`, on a message at offset 0. The aligned lengths are `unsigned int`, so that the `int`
`maxlen` is compared as one too. -/
def getattr (n : Buf) (maxlen : BitVec 32) (type : BitVec 16) (data : List Byte) : ℤ × Buf :=
  let len := BitVec.ofNat 32 (rtaLength data.length)
  if maxlen < align32 (nlmsgLen n 0) + align32 len then (-1, n)
  else
    let rta := (align32 (nlmsgLen n 0)).toNat
    let n := store n (rta + 2) (bytes16 type)
    let n := store n rta (bytes16 (len.setWidth 16))
    let n := store n (rta + rtaLength 0) data.get
    (0, store n 0 (bytes32 (align32 (nlmsgLen n 0) + align32 len)))

/-- Successive successful calls of `getattr`. -/
inductive AttrsAppended (maxlen : BitVec 32) : Buf → List Attr → Buf → Prop
  | nil (n : Buf) : AttrsAppended maxlen n [] n
  | snoc {n n' n'' : Buf} {as : List Attr} {a : Attr} : AttrsAppended maxlen n as n' →
      getattr n' maxlen a.type a.data = (0, n'') → AttrsAppended maxlen n (as ++ [a]) n''

/-! ## The reader -/

/-- `RTA_OK`. -/
def RtaOk (b : Buf) (rta : ℕ) (len : ℤ) : Prop :=
  (rtattrSize : ℤ) ≤ len ∧ rtattrSize ≤ (rtaLen b rta).toNat ∧ ((rtaLen b rta).toNat : ℤ) ≤ len

instance (b : Buf) (rta : ℕ) (len : ℤ) : Decidable (RtaOk b rta len) :=
  inferInstanceAs (Decidable (_ ∧ _ ∧ _))

/-- `struct rtattr *tb[]`. -/
abbrev RtaTable : Type := ℕ → Option ℕ

/-- The loop of `parse_rtattr`, for at most so many turns, with the length that it leaves. -/
def rtattrLoop (b : Buf) (max : ℕ) : ℕ → RtaTable → ℕ → ℤ → M (RtaTable × ℤ)
  | 0, _, _, _ => .error .endless
  | k + 1, tb, rta, len =>
    if RtaOk b rta len then
      let tb := if (rtaType b rta).toNat ≤ max then
        Function.update tb (rtaType b rta).toNat (some rta) else tb
      let size := rtaAlign (rtaLen b rta).toNat
      rtattrLoop b max k tb (rta + size) (len - size)
    else .ok (tb, len)

/-- `parse_rtattr`; a loop that is still running after `len` turns is an endless one. -/
def parseRtattr (b : Buf) (max rta : ℕ) (len : ℤ) : M (RtaTable × ℤ) :=
  rtattrLoop b max (len.toNat + 1) (fun _ => none) rta len

/-! ## Sequences of attributes -/

/-- The `len` bytes at `rta` are attributes. The last one may have no padding. -/
inductive Attrs (b : Buf) : ℕ → ℕ → List Attr → Prop
  | nil (rta : ℕ) : Attrs b rta 0 []
  | cons {rta len : ℕ} {as : List Attr} : rtattrSize ≤ (rtaLen b rta).toNat →
      (rtaLen b rta).toNat ≤ len →
      Attrs b (rta + rtaAlign (rtaLen b rta).toNat) (len - rtaAlign (rtaLen b rta).toNat) as →
      Attrs b rta len (rtattr b rta :: as)

/-- The last attribute with the type `t`. -/
def lastAttr (t : ℕ) (as : List Attr) : Option Attr := lastMatch (fun a => a.type.toNat == t) as

section Reader

variable {b : Buf} {max rta len : ℕ} {as : List Attr}

theorem le_rtaAlign (n : ℕ) : n ≤ rtaAlign n := by
  unfold rtaAlign
  omega

theorem rtaAlign_dvd (n : ℕ) : 4 ∣ rtaAlign n := ⟨(n + 3) / 4, Nat.mul_comm _ _⟩

theorem map_rtattr_update (tb : RtaTable) {t : ℕ} (ht : t ≤ max) :
    ((if (rtaType b rta).toNat ≤ max then Function.update tb (rtaType b rta).toNat (some rta)
      else tb) t).map (rtattr b) =
        (lastAttr t [rtattr b rta]).or ((tb t).map (rtattr b)) := by
  rw [lastAttr, lastMatch_cons]
  change _ = (if ((rtaType b rta).toNat == t) = true then some (rtattr b rta) else none).or _
  by_cases hty : (rtaType b rta).toNat = t
  · rw [hty, if_pos ht, Function.update_self, beq_self_eq_true, if_pos rfl]
    rfl
  · rw [beq_eq_false_iff_ne.mpr hty, if_neg Bool.false_ne_true]
    split_ifs
    · rw [Function.update_of_ne (Ne.symm hty)]
      rfl
    · rfl

/-- **The loop on a sequence of attributes.** -/
theorem rtattrLoop_attrs (max : ℕ) (h : Attrs b rta len as) {k : ℕ} {z : ℤ} (hz : z.toNat = len)
    (hk : len < k) (tb : RtaTable) : ∃ tb' z', rtattrLoop b max k tb rta z = .ok (tb', z') ∧
      (4 ∣ z → 0 ≤ z → z' = 0) ∧
      ∀ t ≤ max, (tb' t).map (rtattr b) = (lastAttr t as).or ((tb t).map (rtattr b)) := by
  induction h generalizing k z tb with
  | nil rta =>
    cases k with
    | zero => omega
    | succ k =>
      have hno : ¬ RtaOk b rta z := fun hok => by
        have : (rtattrSize : ℤ) = 4 := rfl
        have := hok.1
        omega
      refine ⟨tb, z, if_neg hno, fun _ h0 => by omega, fun t _ => ?_⟩
      rw [lastAttr, lastMatch_nil]
      rfl
  | @cons rta len as hmin hfit _ ih =>
    have hsize : rtattrSize = 4 := rfl
    have hle := le_rtaAlign (rtaLen b rta).toNat
    cases k with
    | zero => omega
    | succ k =>
      have hok : RtaOk b rta z := ⟨by omega, hmin, by omega⟩
      generalize htb : (if (rtaType b rta).toNat ≤ max then
        Function.update tb (rtaType b rta).toNat (some rta) else tb) = tb1
      obtain ⟨tb', z', hloop, hrest, htab⟩ :=
        ih (k := k) (z := z - rtaAlign (rtaLen b rta).toNat) (by omega) (by omega) tb1
      refine ⟨tb', z', ?_, fun h4 h0 => ?_, fun t ht => ?_⟩
      · rw [rtattrLoop, if_pos hok]
        dsimp only
        rw [htb]
        exact hloop
      · have h4' := Int.natCast_dvd_natCast.mpr (rtaAlign_dvd (rtaLen b rta).toNat)
        refine hrest (dvd_sub h4 h4') ?_
        unfold rtaAlign
        omega
      · rw [htab t ht, ← htb, map_rtattr_update tb ht, ← Option.or_assoc, lastAttr, lastAttr,
          lastAttr, ← lastMatch_append]
        rfl

/-- **The table of a sequence of attributes**: for each type the last one with it. -/
theorem parseRtattr_attrs (max : ℕ) (h : Attrs b rta len as) {z : ℤ} (hz : z.toNat = len) :
    ∃ tb z', parseRtattr b max rta z = .ok (tb, z') ∧ (4 ∣ z → 0 ≤ z → z' = 0) ∧
      ∀ t ≤ max, (tb t).map (rtattr b) = lastAttr t as := by
  obtain ⟨tb, z', hloop, hrest, htab⟩ :=
    rtattrLoop_attrs max h hz (Nat.lt_succ_self len) fun _ => none
  refine ⟨tb, z', ?_, hrest, fun t ht => ?_⟩
  · rw [parseRtattr, hz]
    exact hloop
  · rw [htab t ht]
    exact Option.or_none

/-- An attribute of the table lies inside the `len` bytes at `start`. -/
structure Entered (b : Buf) (max start : ℕ) (len : ℤ) (t rta : ℕ) : Prop where
  le : t ≤ max
  type : (rtaType b rta).toNat = t
  ge : start ≤ rta
  size : rtattrSize ≤ (rtaLen b rta).toNat
  inside : (rta + (rtaLen b rta).toNat : ℤ) ≤ start + len

/-- **The loop on arbitrary bytes** ends, and what it enters lies inside. -/
theorem rtattrLoop_entered {start : ℕ} {n z : ℤ} {k : ℕ} (hk : z.toNat < k) (hs : start ≤ rta)
    (hz : (rta + z : ℤ) ≤ start + n) {tb : RtaTable}
    (htb : ∀ t o, tb t = some o → Entered b max start n t o) :
    ∃ tb' z', rtattrLoop b max k tb rta z = .ok (tb', z') ∧
      ∀ t o, tb' t = some o → Entered b max start n t o := by
  induction k generalizing z rta tb with
  | zero => omega
  | succ k ih =>
    rw [rtattrLoop]
    by_cases hok : RtaOk b rta z
    · have hle := le_rtaAlign (rtaLen b rta).toNat
      have hsize : rtattrSize = 4 := rfl
      have hmin := hok.2.1
      have hfit := hok.2.2
      rw [if_pos hok]
      refine ih (by omega) (by omega) (by omega) fun t o ho => ?_
      split_ifs at ho with hmax
      · rcases Decidable.em (t = (rtaType b rta).toNat) with rfl | hne
        · rw [Function.update_self] at ho
          cases ho
          exact ⟨hmax, rfl, hs, hmin, by omega⟩
        · rw [Function.update_of_ne hne] at ho
          exact htb t o ho
      · exact htb t o ho
    · exact ⟨tb, z, if_neg hok, htb⟩

theorem parseRtattr_entered (b : Buf) (max rta : ℕ) (len : ℤ) :
    ∃ tb z, parseRtattr b max rta len = .ok (tb, z) ∧
      ∀ t o, tb t = some o → Entered b max rta len t o := by
  apply rtattrLoop_entered (Nat.lt_succ_self _) le_rfl le_rfl
  rintro t o ⟨⟩

end Reader

/-! ## What is appended -/

section Writer

variable {b b' : Buf} {rta len : ℕ} {as : List Attr}

theorem rtattr_congr {rta : ℕ} {n : ℕ} (h : ∀ i, rta ≤ i → i < rta + n → b' i = b i)
    (h4 : rtattrSize ≤ n) (hn : (rtaLen b rta).toNat ≤ n) :
    rtaLen b' rta = rtaLen b rta ∧ rtattr b' rta = rtattr b rta := by
  have hsize : rtattrSize = 4 := rfl
  have hlen : rtaLen b' rta = rtaLen b rta := by
    unfold rtaLen
    congr 1
    funext i
    exact h _ (by omega) (by omega)
  have htype : rtaType b' rta = rtaType b rta := by
    unfold rtaType
    congr 1
    funext i
    exact h _ (by omega) (by omega)
  refine ⟨hlen, ?_⟩
  unfold rtattr rtaPayload
  rw [hlen, htype, slice, slice, frame_congr.mpr]
  intro i hi
  rw [show rtaLength 0 = 4 from rfl] at hi ⊢
  exact h _ (by omega) (by omega)

theorem Attrs.congr (h : Attrs b rta len as) (hb : ∀ i, rta ≤ i → i < rta + len → b' i = b i) :
    Attrs b' rta len as := by
  induction h with
  | nil rta => exact .nil rta
  | @cons rta len as hmin hfit _ ih =>
    obtain ⟨hlen, hattr⟩ := rtattr_congr hb (hmin.trans hfit) hfit
    rw [← hattr]
    refine .cons (by rwa [hlen]) (by rwa [hlen]) ?_
    rw [hlen]
    exact ih fun i h1 h2 => hb i (by omega) (by omega)

theorem Attrs.append (h : Attrs b rta len as) (h4 : 4 ∣ len) {len' : ℕ} {as' : List Attr}
    (h' : Attrs b (rta + len) len' as') : Attrs b rta (len + len') (as ++ as') := by
  induction h with
  | nil rta => rwa [Nat.zero_add]
  | @cons rta len as hmin hfit _ ih =>
    have hdvd := rtaAlign_dvd (rtaLen b rta).toNat
    have hle : rtaAlign (rtaLen b rta).toNat ≤ len := by
      unfold rtaAlign
      omega
    refine .cons hmin (by omega) ?_
    rw [Nat.sub_add_comm hle]
    refine ih (Nat.dvd_sub h4 hdvd) ?_
    rwa [Nat.add_assoc, Nat.add_sub_cancel' hle]

theorem getLsbD_not_three : ∀ i < 32, (~~~(3 : BitVec 32)).getLsbD i = decide (2 ≤ i) := by decide

theorem toNat_align32 {x : BitVec 32} (h : x.toNat + 3 < 2 ^ 32) :
    (align32 x).toNat = (x.toNat + 3) / 4 * 4 := by
  have hmask : align32 x = ((x + 3) >>> 2) <<< 2 := by
    apply BitVec.eq_of_getLsbD_eq
    intro i hi
    rw [align32, BitVec.getLsbD_and, getLsbD_not_three i hi, BitVec.getLsbD_shiftLeft,
      BitVec.getLsbD_ushiftRight]
    by_cases h2 : i < 2
    · simp [h2]
    · simp [h2, hi, show 2 + (i - 2) = i by omega, not_lt.mp h2]
  rw [hmask, BitVec.toNat_shiftLeft, BitVec.toNat_ushiftRight,
    BitVec.toNat_add_of_lt (by simpa using h), Nat.shiftLeft_eq, Nat.shiftRight_eq_div_pow]
  change (x.toNat + 3) / 4 * 4 % 4294967296 = _
  omega

/-- The length of the message behind one more attribute. -/
def nextLen (n : Buf) (data : List Byte) : ℕ :=
  nlmsgAlign (nlmsgLen n 0).toNat + rtaAlign (rtaLength data.length)

variable {n n' : Buf} {maxlen : BitVec 32} {type : BitVec 16} {data : List Byte}

theorem nextLen_eq (hd : rtaLength data.length < 2 ^ 16) (hnext : nextLen n data < 2 ^ 32) :
    (align32 (nlmsgLen n 0)).toNat = nlmsgAlign (nlmsgLen n 0).toNat ∧
      (align32 (nlmsgLen n 0) + align32 (BitVec.ofNat 32 (rtaLength data.length))).toNat =
        nextLen n data := by
  have hlen : (BitVec.ofNat 32 (rtaLength data.length)).toNat = rtaLength data.length := by
    rw [BitVec.toNat_ofNat]
    omega
  have hrta : 4 ≤ rtaAlign (rtaLength data.length) :=
    (Nat.le_add_right 4 _).trans (le_rtaAlign _)
  have hwhole : (nlmsgLen n 0).toNat + 3 < 2 ^ 32 := by
    unfold nextLen nlmsgAlign at hnext
    omega
  have h1 := toNat_align32 hwhole
  have h2 := toNat_align32 (show (BitVec.ofNat 32 (rtaLength data.length)).toNat + 3 < 2 ^ 32 by
    omega)
  rw [hlen] at h2
  refine ⟨h1, ?_⟩
  rw [BitVec.toNat_add_of_lt, h1, h2]
  · rfl
  · rw [h1, h2]
    exact hnext

theorem getattr_full (h : maxlen < align32 (nlmsgLen n 0) +
    align32 (BitVec.ofNat 32 (rtaLength data.length))) : getattr n maxlen type data = (-1, n) :=
  if_pos h

/-- **A successful call** appends the attribute and keeps what is before it. -/
theorem getattr_ok (type : BitVec 16) (hn : 0 < (nlmsgLen n 0).toNat)
    (hd : rtaLength data.length < 2 ^ 16) (hnext : nextLen n data < 2 ^ 32)
    (h : nextLen n data ≤ maxlen.toNat) : ∃ n', getattr n maxlen type data = (0, n') ∧
      (nlmsgLen n' 0).toNat = nextLen n data ∧
      (∀ i, 4 ≤ i → i < nlmsgAlign (nlmsgLen n 0).toNat → n' i = n i) ∧
      Attrs n' (nlmsgAlign (nlmsgLen n 0).toNat) (rtaAlign (rtaLength data.length))
        [⟨type, data⟩] := by
  obtain ⟨halign, htotal⟩ := nextLen_eq hd hnext
  have hrta : 4 ≤ nlmsgAlign (nlmsgLen n 0).toNat := by
    unfold nlmsgAlign
    omega
  have hfits : ¬ maxlen < align32 (nlmsgLen n 0) +
      align32 (BitVec.ofNat 32 (rtaLength data.length)) := by
    rw [BitVec.lt_def, htotal]
    exact not_lt.mpr h
  unfold getattr
  dsimp only
  rw [if_neg hfits, halign]
  generalize nlmsgAlign (nlmsgLen n 0).toNat = rta at hrta
  generalize hn1 : store n (rta + 2) (bytes16 type) = n1
  generalize hn2 : store n1 rta (bytes16
    ((BitVec.ofNat 32 (rtaLength data.length)).setWidth 16)) = n2
  generalize hn3 : store n2 (rta + rtaLength 0) data.get = n3
  have h4 : rtaLength 0 = 4 := rfl
  -- the attribute is behind `nlmsg_len`, which is read once more
  have hlen : nlmsgLen n3 0 = nlmsgLen n 0 := by
    unfold nlmsgLen
    rw [← hn3, load_store_of_disjoint _ _ (by omega), ← hn2, load_store_of_disjoint _ _ (by omega),
      ← hn1, load_store_of_disjoint _ _ (by omega)]
  rw [hlen]
  generalize align32 (nlmsgLen n 0) + align32 (BitVec.ofNat 32 (rtaLength data.length)) = total
    at htotal
  refine ⟨_, rfl, ?_, fun i h1 h2 => ?_, ?_⟩
  · rw [nlmsgLen, load_store_self, le32_bytes32, htotal]
  · rw [store_apply_of_not _ _ (by omega), ← hn3, store_apply_of_not _ _ (by omega), ← hn2,
      store_apply_of_not _ _ (by omega), ← hn1, store_apply_of_not _ _ (by omega)]
  have hrlen : rtaLen (store n3 0 (bytes32 total)) rta =
      (BitVec.ofNat 32 (rtaLength data.length)).setWidth 16 := by
    unfold rtaLen
    rw [load_store_of_disjoint _ _ (by omega), ← hn3, load_store_of_disjoint _ _ (by omega), ← hn2,
      load_store_self, le16_bytes16]
  have hnat : (rtaLen (store n3 0 (bytes32 total)) rta).toNat = rtaLength data.length := by
    rw [hrlen, BitVec.toNat_setWidth, BitVec.toNat_ofNat]
    omega
  have htype : rtaType (store n3 0 (bytes32 total)) rta = type := by
    unfold rtaType
    rw [load_store_of_disjoint _ _ (by omega), ← hn3, load_store_of_disjoint _ _ (by omega), ← hn2,
      load_store_of_disjoint _ _ (by omega), ← hn1, load_store_self, le16_bytes16]
  have hattr : rtattr (store n3 0 (bytes32 total)) rta = ⟨type, data⟩ := by
    have hpay : rtaPayload (store n3 0 (bytes32 total)) rta = data.length := by
      rw [rtaPayload, hnat, rtaLength, rtaLength]
      omega
    rw [rtattr, htype, hpay]
    congr 1
    rw [slice_store_of_disjoint _ _ (by omega), ← hn3, slice_store_self]
  rw [← hattr, ← hnat]
  refine .cons (by rw [hnat]; exact Nat.le_add_right _ _) (le_rtaAlign _) ?_
  rw [Nat.sub_self]
  exact .nil _

theorem getattr_eq_iff (type : BitVec 16) (hd : rtaLength data.length < 2 ^ 16)
    (hnext : nextLen n data < 2 ^ 32) :
    (getattr n maxlen type data).1 = -1 ↔ maxlen.toNat < nextLen n data := by
  rw [← (nextLen_eq hd hnext).2, ← BitVec.lt_def]
  by_cases h : maxlen < align32 (nlmsgLen n 0) + align32 (BitVec.ofNat 32 (rtaLength data.length))
  · rw [getattr_full h]
    exact iff_of_true rfl h
  · unfold getattr
    dsimp only
    rw [if_neg h]
    exact iff_of_false (show (0 : ℤ) ≠ -1 by decide) h

theorem getattr_unchanged (h : (getattr n maxlen type data).1 = -1) :
    (getattr n maxlen type data).2 = n := by
  unfold getattr at h ⊢
  dsimp only at h ⊢
  by_cases hfull : maxlen < align32 (nlmsgLen n 0) +
      align32 (BitVec.ofNat 32 (rtaLength data.length))
  · rw [if_pos hfull]
  · rw [if_neg hfull] at h
    exact absurd h (show (0 : ℤ) ≠ -1 by decide)

/-- **What successive calls append**, behind the aligned header. From the first of them on the
message fits in `maxlen`, so that no later sum wraps. -/
theorem appended_attrs {as : List Attr} (hn : 0 < (nlmsgLen n 0).toNat)
    (hmax : maxlen.toNat < 2 ^ 31)
    (has : ∀ a ∈ as, rtaLength a.data.length < 2 ^ 16 ∧ nextLen n a.data < 2 ^ 32)
    (h : AttrsAppended maxlen n as n') :
    ∃ len, 4 ∣ len ∧ 0 < (nlmsgLen n' 0).toNat ∧ (n' = n ∨ (nlmsgLen n' 0).toNat < 2 ^ 31) ∧
      nlmsgAlign (nlmsgLen n 0).toNat + len = nlmsgAlign (nlmsgLen n' 0).toNat ∧
      (nlmsgLen n' 0).toNat - nlmsgAlign (nlmsgLen n 0).toNat = len ∧
      Attrs n' (nlmsgAlign (nlmsgLen n 0).toNat) len as := by
  induction h with
  | nil =>
    refine ⟨0, dvd_zero 4, hn, Or.inl rfl, rfl, ?_, .nil _⟩
    unfold nlmsgAlign
    omega
  | @snoc n' n'' as a hprev hlast ih =>
    simp only [List.mem_append, List.mem_singleton] at has
    obtain ⟨len, h4, hn', hbound, halign, -, hattrs⟩ := ih fun a ha => has a (Or.inl ha)
    obtain ⟨hfit, hfirst⟩ := has a (Or.inr rfl)
    have hnext : nextLen n' a.data < 2 ^ 32 := by
      rcases hbound with rfl | hlt
      · exact hfirst
      · unfold nextLen nlmsgAlign rtaAlign
        omega
    have hroom : nextLen n' a.data ≤ maxlen.toNat := by
      refine not_lt.mp fun hfull => ?_
      have hret := (getattr_eq_iff a.type hfit hnext).mpr hfull
      rw [hlast] at hret
      exact absurd hret (show (0 : ℤ) ≠ -1 by decide)
    obtain ⟨m, hm, hlen, hkeep, hnew⟩ := getattr_ok _ hn' hfit hnext hroom
    rw [hm, Prod.mk.injEq] at hlast
    obtain ⟨-, rfl⟩ := hlast
    have hdvd := rtaAlign_dvd (rtaLength a.data.length)
    have hsum : nextLen n' a.data = nlmsgAlign (nlmsgLen n 0).toNat +
        (len + rtaAlign (rtaLength a.data.length)) := by
      rw [nextLen, ← halign, Nat.add_assoc]
    have hhead : 4 ≤ nlmsgAlign (nlmsgLen n 0).toNat := by
      unfold nlmsgAlign
      omega
    refine ⟨len + rtaAlign (rtaLength a.data.length), Nat.dvd_add h4 hdvd, by omega,
      Or.inr (by omega), ?_, ?_, ?_⟩
    · rw [hlen, hsum]
      unfold nlmsgAlign
      omega
    · rw [hlen, hsum, Nat.add_sub_cancel_left]
    · rw [← halign] at hnew
      exact Attrs.append (hattrs.congr fun i h1 h2 => hkeep i (by omega) (by omega)) h4 hnew

theorem appended_of_le (hn : 0 < (nlmsgLen n 0).toNat) (as : List Attr)
    (has : ∀ a ∈ as, rtaLength a.data.length < 2 ^ 16)
    (hfit : nlmsgAlign (nlmsgLen n 0).toNat +
      (as.map fun a => rtaAlign (rtaLength a.data.length)).sum ≤ maxlen.toNat) :
    ∃ n', AttrsAppended maxlen n as n' ∧ 0 < (nlmsgLen n' 0).toNat ∧
      nlmsgAlign (nlmsgLen n' 0).toNat = nlmsgAlign (nlmsgLen n 0).toNat +
        (as.map fun a => rtaAlign (rtaLength a.data.length)).sum := by
  induction as using List.reverseRecOn with
  | nil => exact ⟨n, .nil n, hn, rfl⟩
  | append_singleton as a ih =>
    simp only [List.mem_append, List.mem_singleton] at has
    rw [List.map_append, List.sum_append, List.map_singleton, List.sum_singleton] at hfit ⊢
    obtain ⟨n', happ, hn', hlen⟩ := ih (fun a ha => has a (Or.inl ha)) (by omega)
    have hroom : nextLen n' a.data ≤ maxlen.toNat := by
      rw [nextLen, hlen, Nat.add_assoc]
      exact hfit
    obtain ⟨n'', hok, hlen', -⟩ := getattr_ok a.type hn' (has a (Or.inr rfl))
      (hroom.trans_lt maxlen.isLt) hroom
    have hdvd := rtaAlign_dvd (rtaLength a.data.length)
    have hle := le_rtaAlign (rtaLength a.data.length)
    have h4 : 4 ≤ rtaLength a.data.length := Nat.le_add_right 4 _
    have hsum : nextLen n' a.data = nlmsgAlign (nlmsgLen n' 0).toNat +
        rtaAlign (rtaLength a.data.length) := rfl
    refine ⟨n'', .snoc happ hok, by omega, ?_⟩
    rw [hlen', ← Nat.add_assoc, ← hlen, hsum]
    unfold nlmsgAlign
    omega

/-- **Appended attributes are read back**, if the header has a length and no sum wraps: nothing is
left over, each type has its last attribute. A call of `getattr` fails exactly when the message
becomes too long, and then changes nothing. On arbitrary bytes `parse_rtattr` ends, and what it
enters lies inside. -/
theorem parse_getattr :
    (∀ (n n' : Buf) (maxlen : BitVec 32) (max : ℕ) (as : List Attr),
      0 < (nlmsgLen n 0).toNat → 0 ≤ maxlen.toInt →
      (∀ a ∈ as, rtaLength a.data.length < 2 ^ 16 ∧ a.type.toNat ≤ max ∧
        nextLen n a.data < 2 ^ 32) →
      AttrsAppended maxlen n as n' →
      ∃ tb, parseRtattr n' max (nlmsgAlign (nlmsgLen n 0).toNat)
          ((nlmsgLen n' 0).toNat - nlmsgAlign (nlmsgLen n 0).toNat : ℕ) = .ok (tb, 0) ∧
        ∀ t, (tb t).map (rtattr n') = lastAttr t as) ∧
    (∀ (n : Buf) (maxlen : BitVec 32) (type : BitVec 16) (data : List Byte),
      rtaLength data.length < 2 ^ 16 → 0 ≤ maxlen.toInt → nextLen n data < 2 ^ 32 →
      ((getattr n maxlen type data).1 = -1 ↔ maxlen.toInt < nextLen n data)) ∧
    (∀ (n : Buf) (maxlen : BitVec 32) (type : BitVec 16) (data : List Byte),
      (getattr n maxlen type data).1 = -1 → (getattr n maxlen type data).2 = n) ∧
    ∀ (b : Buf) (max rta : ℕ) (len : ℤ), ∃ tb z, parseRtattr b max rta len = .ok (tb, z) ∧
      ∀ t o, tb t = some o → Entered b max rta len t o := by
  refine ⟨?_, ?_, fun _ _ _ _ => getattr_unchanged, parseRtattr_entered⟩
  · intro n n' maxlen max as hn hmax has h
    have hmax' : maxlen.toNat < 2 ^ 31 := by
      have := BitVec.toInt_pos_iff.mp hmax
      omega
    obtain ⟨len, h4, -, -, -, hlen, hattrs⟩ :=
      appended_attrs hn hmax' (fun a ha => ⟨(has a ha).1, (has a ha).2.2⟩) h
    obtain ⟨tb, z, hparse, hrest, htab⟩ :=
      parseRtattr_attrs max hattrs (Int.toNat_natCast len)
    obtain rfl := hrest (Int.natCast_dvd_natCast.mpr h4) (Int.natCast_nonneg len)
    rw [hlen]
    refine ⟨tb, hparse, fun t => ?_⟩
    by_cases ht : t ≤ max
    · exact htab t ht
    · obtain ⟨tb', z', hparse', hent⟩ := parseRtattr_entered n' max
        (nlmsgAlign (nlmsgLen n 0).toNat) len
      rw [hparse, Except.ok.injEq, Prod.mk.injEq] at hparse'
      obtain ⟨rfl, -⟩ := hparse'
      rw [lastAttr, lastMatch_of_forall_not fun a ha => ?_, Option.map_eq_none_iff,
        Option.eq_none_iff_forall_ne_some]
      · exact fun o ho => ht (hent t o ho).le
      · exact beq_eq_false_iff_ne.mpr fun e => ht (e ▸ (has a ha).2.1)
  · intro n maxlen type data hd hmax hnext
    rw [getattr_eq_iff type hd hnext, BitVec.toInt_eq_toNat_of_lt]
    · exact Int.ofNat_lt.symm
    · exact BitVec.toInt_pos_iff.mp hmax

def emptyMsg (len : BitVec 32) : Buf := store (fun _ => 0) 0 (bytes32 len)

/-- Attributes with and without padding, two of one type, and one without a payload. -/
def sampleAttrs : List Attr := [⟨1, [10, 0, 0, 1]⟩, ⟨3, [5]⟩, ⟨1, [10, 0, 0]⟩, ⟨4, []⟩]

/-- The attributes behind the header of a request for a route, with a `struct rtmsg`. -/
theorem parse_getattr_sample :
    (∃ n', AttrsAppended 1052 (emptyMsg 28) sampleAttrs n' ∧
      ∃ tb, parseRtattr n' 5 28 ((nlmsgLen n' 0).toNat - 28 : ℕ) = .ok (tb, 0) ∧
        ∀ t, (tb t).map (rtattr n') = lastAttr t sampleAttrs) ∧
      ((getattr (emptyMsg 28) 33 1 [10, 0]).1 = -1 ↔ (33 : BitVec 32).toInt < 36) ∧
      (getattr (emptyMsg 28) 33 1 [10, 0]).2 = emptyMsg 28 := by
  refine ⟨?_, parse_getattr.2.1 _ _ _ _ (by decide) (by decide) (by decide),
    parse_getattr.2.2.1 _ _ _ _ (by decide)⟩
  obtain ⟨n', happ, -⟩ := appended_of_le (n := emptyMsg 28) (by decide) sampleAttrs (by decide)
    (show _ ≤ (1052 : BitVec 32).toNat by decide)
  exact ⟨n', happ, parse_getattr.1 (emptyMsg 28) n' 1052 5 sampleAttrs (by decide) (by decide)
    (by decide) happ⟩

/-- **Where the calls go wrong**: on a header whose length is at the end of the range the sum wraps
and the call succeeds, a negative `maxlen` is a huge one, and on a header without a length the
attribute is on the length, which ruins both. -/
theorem getattr_overwrites :
    ((getattr (emptyMsg 0xFFFFFFFE) 1052 1 [10, 0, 0, 1]).1 = 0 ∧
      (1052 : BitVec 32).toInt < nextLen (emptyMsg 0xFFFFFFFE) [10, 0, 0, 1] ∧
      nlmsgLen (getattr (emptyMsg 0xFFFFFFFE) 1052 1 [10, 0, 0, 1]).2 0 = 0x10010) ∧
    ((getattr (emptyMsg 28) (-1) 1 [10, 0, 0, 1]).1 = 0 ∧
      (-1 : BitVec 32).toInt < nextLen (emptyMsg 28) [10, 0, 0, 1]) ∧
    ∃ n' tb, AttrsAppended 1052 (emptyMsg 0) [⟨0, [10, 0, 0, 1]⟩] n' ∧
      parseRtattr n' 5 0 (nlmsgLen n' 0).toNat = .ok (tb, 0) ∧
      (tb 0).map (rtattr n') ≠ lastAttr 0 [⟨0, [10, 0, 0, 1]⟩] := by
  refine ⟨by decide, by decide, (getattr (emptyMsg 0) 1052 0 [10, 0, 0, 1]).2,
    Function.update (fun _ => none) 0 (some 0), .snoc (.nil _) (Prod.ext (by decide) rfl), ?_, ?_⟩
  · rfl
  · decide

end Writer

end Sasat
