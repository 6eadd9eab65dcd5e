import Mathlib.Data.List.GetD
import Sasat.Common.Basic

/-!
# The texts of the log

What `sprintf`, `inet_ntop` and the time functions of the C library put into the log, and how long
it can get.

* `lit`, `pad`, `fmtU`, `fmtX`, `fmtD`: the conversions `%4d`, `%02x`, `%u`, `%lx`, `%d`.
* `Tm`, `Clock`, `getTime`: `localtime_r` and `ctime_r`, parameters; `get_time` of `log_body.c`.
* `inetNtop4`, `inetNtop6`: `inet_ntop`.
* `getTime_year`: a time has 19 characters behind the year.
* **`length_getTime`**, **`length_inetNtop4`**, **`length_inetNtop6`**: the longest texts.
-/

namespace Sasat

abbrev Text : Type := List Char

def lit (s : String) : Text := s.toList

theorem length_lit (s : String) : (lit s).length = s.length := String.length_toList

/-! ## Conversions -/

/-- The minimum field width `w`. -/
def pad (w : ℕ) (c : Char) (t : Text) : Text := List.replicate (w - t.length) c ++ t

/-- `%u` and `%lu`. -/
def fmtU (n : ℕ) : Text := Nat.toDigits 10 n

/-- `%x` and `%lx`. -/
def fmtX (n : ℕ) : Text := Nat.toDigits 16 n

/-- `%d`. -/
def fmtD (x : BitVec 32) : Text :=
  if x.toInt < 0 then '-' :: fmtU x.toInt.natAbs else fmtU x.toNat

theorem length_pad (w : ℕ) (c : Char) (t : Text) : (pad w c t).length = max w t.length := by
  rw [pad, List.length_append, List.length_replicate]
  omega

theorem length_fmtU {n k : ℕ} (hk : 0 < k) (h : n < 10 ^ k) : (fmtU n).length ≤ k :=
  (Nat.length_toDigits_le_iff (by decide) hk).mpr h

theorem length_fmtX {n k : ℕ} (hk : 0 < k) (h : n < 16 ^ k) : (fmtX n).length ≤ k :=
  (Nat.length_toDigits_le_iff (by decide) hk).mpr h

theorem length_fmtU32 (x : BitVec 32) : (fmtU x.toNat).length ≤ 10 :=
  length_fmtU (by decide) (x.isLt.trans (by decide))

theorem length_fmtD (x : BitVec 32) : (fmtD x).length ≤ 11 := by
  rw [fmtD]
  split_ifs with h
  · have habs : x.toInt.natAbs < 10 ^ 10 := by
      have hlow : -2 ^ 32 ≤ 2 * x.toInt := BitVec.le_two_mul_toInt
      omega
    exact Nat.succ_le_succ (length_fmtU (by decide) habs)
  · exact (length_fmtU32 x).trans (by decide)

/-! ## Times -/

/-- `struct tm`. -/
structure Tm where
  year : BitVec 32
  mon : Fin 12
  mday : Fin 32
  hour : Fin 24
  min : Fin 60
  sec : Fin 62

/-- `get_ms`, `localtime_r` and `ctime_r`, whose text has 25 characters. -/
structure Clock where
  getMs : BitVec 64 → BitVec 64
  localtime : BitVec 64 → Tm
  ctime : BitVec 64 → Text
  ctime_le : ∀ t, (ctime t).length ≤ 25

/-- `get_time`. -/
def getTime (c : Clock) (start curr ssec : BitVec 64) : Text :=
  let diff := (c.getMs (curr - start)).toNat
  let tm := c.localtime (BitVec.ofNat 64 (diff / 1000) + ssec)
  fmtD (tm.year + 1900) ++ '-' :: (pad 2 '0' (fmtU (tm.mon + 1)) ++
    '-' :: (pad 2 '0' (fmtU tm.mday) ++
    ' ' :: (pad 2 '0' (fmtU tm.hour) ++
    ':' :: (pad 2 '0' (fmtU tm.min) ++
    ':' :: (pad 2 '0' (fmtU tm.sec) ++
    '.' :: pad 3 '0' (fmtU (diff % 1000)))))))

theorem length_pad_fmtU {w n : ℕ} (hw : 0 < w) (h : n < 10 ^ w) (c : Char) :
    (pad w c (fmtU n)).length = w := by
  rw [length_pad]
  exact max_eq_left (length_fmtU hw h)

theorem getTime_year (c : Clock) (start curr ssec : BitVec 64) :
    ∃ year, (getTime c start curr ssec).length = (fmtD year).length + 19 := by
  unfold getTime
  dsimp only
  set diff := (c.getMs (curr - start)).toNat
  set tm := c.localtime (BitVec.ofNat 64 (diff / 1000) + ssec)
  refine ⟨tm.year + 1900, ?_⟩
  have hmon := tm.mon.isLt
  have hmday := tm.mday.isLt
  have hhour := tm.hour.isLt
  have hmin := tm.min.isLt
  have hsec := tm.sec.isLt
  simp only [List.length_append, List.length_cons]
  rw [length_pad_fmtU (by decide) (by omega), length_pad_fmtU (by decide) (by omega),
    length_pad_fmtU (by decide) (by omega), length_pad_fmtU (by decide) (by omega),
    length_pad_fmtU (by decide) (by omega), length_pad_fmtU (by decide) (by omega)]

/-- **A time has at most 30 characters.** -/
theorem length_getTime (c : Clock) (start curr ssec : BitVec 64) :
    (getTime c start curr ssec).length ≤ 30 := by
  obtain ⟨year, heq⟩ := getTime_year c start curr ssec
  have hyear := length_fmtD year
  omega

/-! ## Addresses -/

/-- `inet_ntop` for `AF_INET`. -/
def inetNtop4 (a : InAddr) : Text :=
  fmtU (a 0).toNat ++ '.' :: (fmtU (a 1).toNat ++ '.' :: (fmtU (a 2).toNat ++
    '.' :: fmtU (a 3).toNat))

/-- The longer of two runs of zeros, the first one if they are of the same length. -/
def longerRun (best cur : Option (ℕ × ℕ)) : Option (ℕ × ℕ) :=
  match best, cur with
  | some b, some c => if b.2 < c.2 then some c else some b
  | none, c => c
  | b, none => b

/-- The longest run of zeros, as its start and length: `i` words have been read, `cur` is the run
that they end with. -/
def zeroRun : ℕ → Option (ℕ × ℕ) → Option (ℕ × ℕ) → List ℕ → Option (ℕ × ℕ)
  | _, best, cur, [] => longerRun best cur
  | i, best, cur, w :: ws =>
    if w = 0 then zeroRun (i + 1) best (some (cur.elim (i, 1) fun r => (r.1, r.2 + 1))) ws
    else zeroRun (i + 1) (longerRun best cur) none ws

def words6 (a : In6Addr) : List ℕ :=
  List.ofFn fun i : Fin 8 => 256 * (a ⟨2 * i, by omega⟩).toNat + (a ⟨2 * i + 1, by omega⟩).toNat

/-- The run of at least two zero words that is printed as two colons. -/
def bestRun (a : In6Addr) : Option (ℕ × ℕ) :=
  (zeroRun 0 none none (words6 a)).filter fun r => 2 ≤ r.2

/-- Word `i` is in the run. -/
def inRun (best : Option (ℕ × ℕ)) (i : ℕ) : Bool :=
  best.any fun r => r.1 ≤ i && i < r.1 + r.2

/-- What is printed for word `i`, with the colon before it. -/
def group (best : Option (ℕ × ℕ)) (ws : List ℕ) (i : ℕ) : Text :=
  if inRun best i then (if best.map Prod.fst = some i then [':'] else [])
  else (if i = 0 then [] else [':']) ++ fmtX (ws.getD i 0)

/-- An IPv4 address in the last two words. -/
def embeds4 (best : Option (ℕ × ℕ)) (ws : List ℕ) : Bool :=
  best = some (0, 6) || (best = some (0, 5) && ws.getD 5 0 = 0xffff)

/-- `inet_ntop` for `AF_INET6`. -/
def inetNtop6 (a : In6Addr) : Text :=
  let best := bestRun a
  let ws := words6 a
  if embeds4 best ws then
    (List.range 6).flatMap (group best ws) ++ ':' :: inetNtop4 ![a 12, a 13, a 14, a 15]
  else (List.range 8).flatMap (group best ws) ++
    (if best.map (fun r => r.1 + r.2) = some 8 then [':'] else [])

theorem length_inetNtop4 (a : InAddr) : (inetNtop4 a).length ≤ 15 := by
  have h : ∀ i, (fmtU (a i).toNat).length ≤ 3 := fun i =>
    length_fmtU (by decide) ((a i).isLt.trans (by decide))
  have h0 := h 0
  have h1 := h 1
  have h2 := h 2
  have h3 := h 3
  simp only [inetNtop4, List.length_append, List.length_cons]
  omega

theorem words6_lt (a : In6Addr) (i : ℕ) : (words6 a).getD i 0 < 16 ^ 4 := by
  by_cases h : i < (words6 a).length
  · rw [List.getD_eq_getElem _ _ h]
    simp only [words6, List.getElem_ofFn]
    have h1 := (a ⟨2 * i, by simp [words6] at h; omega⟩).isLt
    have h2 := (a ⟨2 * i + 1, by simp [words6] at h; omega⟩).isLt
    omega
  · rw [List.getD_eq_default _ _ (Nat.le_of_not_lt h)]
    decide

/-- A word takes five characters, its colon included, and one in the run of zeros. -/
theorem length_group (best : Option (ℕ × ℕ)) (a : In6Addr) (i : ℕ) :
    (group best (words6 a) i).length ≤ 5 ∧ (i = 0 → (group best (words6 a) i).length ≤ 4) ∧
      (inRun best i = true → (group best (words6 a) i).length ≤ 1) := by
  have hx := length_fmtX (by decide) (words6_lt a i)
  unfold group
  split_ifs <;> simp_all <;> omega

theorem length_flatMap_range (f : ℕ → Text) (k : ℕ) :
    ((List.range k).flatMap f).length = ∑ i ∈ Finset.range k, (f i).length := by
  induction k with
  | zero => rfl
  | succ k ih =>
    rw [List.range_succ, List.flatMap_append, List.length_append, ih, Finset.sum_range_succ,
      List.flatMap_singleton]

theorem bestRun_spec {a : In6Addr} {r : ℕ × ℕ} (h : bestRun a = some r) : 2 ≤ r.2 := by
  rw [bestRun, Option.filter_eq_some_iff] at h
  exact of_decide_eq_true h.2

/-- **An IPv6 address has at most 39 characters.** -/
theorem length_inetNtop6 (a : In6Addr) : (inetNtop6 a).length ≤ 39 := by
  have hg := length_group (bestRun a) a
  have h0 := hg 0
  have h1 := hg 1
  have h2 := hg 2
  have h3 := hg 3
  have h4 := hg 4
  have h5 := hg 5
  have h6 := hg 6
  have h7 := hg 7
  have hrun : ∀ r, bestRun a = some r → 2 ≤ r.2 := fun r => bestRun_spec
  have hv4 := length_inetNtop4 ![a 12, a 13, a 14, a 15]
  rw [inetNtop6]
  generalize bestRun a = best at *
  simp only [apply_ite List.length, List.length_append, List.length_cons, List.length_nil,
    length_flatMap_range, Finset.sum_range_succ, Finset.sum_range_zero]
  split_ifs with hemb hlast
  · have hzero : ∀ i < 5, inRun best i = true := by
      intro i hi
      simp only [embeds4, Bool.or_eq_true, Bool.and_eq_true, decide_eq_true_eq] at hemb
      rcases hemb with rfl | ⟨rfl, -⟩ <;> simp [inRun] <;> omega
    have hrun1 := h1.2.2 (hzero 1 (by decide))
    have hrun2 := h2.2.2 (hzero 2 (by decide))
    omega
  · obtain ⟨r, rfl, hr⟩ := Option.map_eq_some_iff.mp hlast
    have h2r := hrun r rfl
    simp only [inRun, Option.any_some, Bool.and_eq_true, decide_eq_true_eq] at *
    omega
  · omega

end Sasat
