import Mathlib.Tactic

/-!
# The Internet checksum

One's-complement sums of 16-bit words, as RFC 1071 defines them, and their value as a natural
number.

* `fold16 n`: what is left of a sum `n` once every carry has been added back in; `0` only for `0`.
* `addc`, `onesSum`, `checksum`: addition with end-around carry, the sum, its complement.
* **`toNat_onesSum`**: the one's-complement sum is `fold16` of the plain sum.
* `beWords`, `leSum`: a byte string as big-endian words, and its sum as little-endian words.
* **`fold16_leSum`**: either byte order finds the same sums valid.
-/

namespace OnesComplement

/-- The sum `n` with its carries folded back into 16 bits. -/
def fold16 (n : ℕ) : ℕ := if n = 0 then 0 else (n - 1) % 65535 + 1

theorem fold16_le (n : ℕ) : fold16 n ≤ 65535 := by
  unfold fold16
  split_ifs <;> omega

theorem fold16_of_le {n : ℕ} (h : n ≤ 65535) : fold16 n = n := by
  unfold fold16
  split_ifs <;> omega

theorem fold16_eq_zero {n : ℕ} : fold16 n = 0 ↔ n = 0 := by
  unfold fold16
  split_ifs with h <;> simp [h]

theorem fold16_mod (n : ℕ) : fold16 n % 65535 = n % 65535 := by
  unfold fold16
  split_ifs <;> omega

/-- Sums with the same residue fold to the same word, the two zeros apart. -/
theorem fold16_congr {a b : ℕ} (h : a % 65535 = b % 65535) (h0 : a = 0 ↔ b = 0) :
    fold16 a = fold16 b := by
  unfold fold16
  split_ifs <;> omega

theorem fold16_fold16_add (a b : ℕ) : fold16 (fold16 a + b) = fold16 (a + b) := by
  refine fold16_congr ?_ ?_
  · have := fold16_mod a
    omega
  · have := fold16_eq_zero (n := a)
    omega

/-- **A folded sum is all ones exactly when the sum is a positive multiple of `65535`.** -/
theorem fold16_eq_full {n : ℕ} : fold16 n = 65535 ↔ n ≠ 0 ∧ n % 65535 = 0 := by
  unfold fold16
  split_ifs with h
  · simp [h]
  · omega

theorem fold16_undo {x d e : ℕ} (hx : x ≤ 65535) (h : (d + e) % 65535 = 0) :
    (x ≠ 0 → fold16 (fold16 (x + d) + e) = x) ∧
      (x = 0 → fold16 (fold16 (x + d) + e) = 0 ∨ fold16 (fold16 (x + d) + e) = 65535) := by
  rw [fold16_fold16_add, Nat.add_assoc]
  constructor
  · intro h0
    rw [fold16_congr (b := x) (by omega) (by omega), fold16_of_le hx]
  · intro h0
    have hm := fold16_mod (x + (d + e))
    have hl := fold16_le (x + (d + e))
    omega

theorem fold16_add_compl {n : ℕ} (h : n ≠ 0) : fold16 (n + (65535 - fold16 n)) = 65535 := by
  have hm := fold16_mod n
  have hl := fold16_le n
  rw [fold16_eq_full]
  omega

/-! ## Sums of words -/

/-- Addition with end-around carry. -/
def addc (a b : BitVec 16) : BitVec 16 := if a.toNat + b.toNat ≤ 65535 then a + b else a + b + 1

def onesSum (ws : List (BitVec 16)) : BitVec 16 := ws.foldl addc 0

/-- The Internet checksum of a list of words. -/
def checksum (ws : List (BitVec 16)) : BitVec 16 := ~~~ onesSum ws

def wordSum (ws : List (BitVec 16)) : ℕ := (ws.map BitVec.toNat).sum

@[simp] theorem wordSum_nil : wordSum [] = 0 := rfl

@[simp] theorem wordSum_cons (w : BitVec 16) (ws : List (BitVec 16)) :
    wordSum (w :: ws) = w.toNat + wordSum ws := by
  simp [wordSum]

theorem toNat_addc (a b : BitVec 16) : (addc a b).toNat = fold16 (a.toNat + b.toNat) := by
  have ha := a.isLt
  have hb := b.isLt
  have h1 : (1 : BitVec 16).toNat = 1 := rfl
  unfold addc fold16
  split_ifs <;> simp only [BitVec.toNat_add, h1] <;> omega

theorem toNat_foldl_addc (ws : List (BitVec 16)) (a : BitVec 16) :
    (ws.foldl addc a).toNat = fold16 (a.toNat + wordSum ws) := by
  induction ws generalizing a with
  | nil => exact (fold16_of_le (Nat.le_of_lt_succ a.isLt)).symm
  | cons w ws ih =>
    rw [List.foldl_cons, ih, toNat_addc, fold16_fold16_add, wordSum_cons, Nat.add_assoc]

/-- **The one's-complement sum is the plain sum with its carries folded in.** -/
theorem toNat_onesSum (ws : List (BitVec 16)) : (onesSum ws).toNat = fold16 (wordSum ws) := by
  rw [onesSum, toNat_foldl_addc]
  simp

theorem onesSum_eq_full {ws : List (BitVec 16)} :
    onesSum ws = 0xffff ↔ wordSum ws ≠ 0 ∧ wordSum ws % 65535 = 0 := by
  rw [← fold16_eq_full, ← toNat_onesSum]
  constructor
  · intro h
    rw [h]
    rfl
  · intro h
    exact BitVec.eq_of_toNat_eq h

theorem toNat_checksum (ws : List (BitVec 16)) :
    (checksum ws).toNat = 65535 - fold16 (wordSum ws) := by
  rw [checksum, BitVec.toNat_not, toNat_onesSum]

theorem wordSum_eq_zero {ws : List (BitVec 16)} : wordSum ws = 0 ↔ ∀ w ∈ ws, w = 0 := by
  induction ws with
  | nil => simp
  | cons w ws ih =>
    rw [wordSum_cons, Nat.add_eq_zero_iff, ih, List.forall_mem_cons]
    refine and_congr_left fun _ => ⟨fun h => BitVec.eq_of_toNat_eq h, fun h => by rw [h]; rfl⟩

/-! ## Byte strings -/

/-- A byte string as big-endian words, padded with a zero byte. -/
def beWords : List (BitVec 8) → List (BitVec 16)
  | [] => []
  | [a] => [BitVec.ofNat 16 (256 * a.toNat)]
  | a :: b :: l => BitVec.ofNat 16 (256 * a.toNat + b.toNat) :: beWords l

/-- The plain sum of a byte string taken as little-endian words, padded with a zero byte. -/
def leSum : List (BitVec 8) → ℕ
  | [] => 0
  | [a] => a.toNat
  | a :: b :: l => a.toNat + 256 * b.toNat + leSum l

theorem toNat_beWord (a b : BitVec 8) :
    (BitVec.ofNat 16 (256 * a.toNat + b.toNat)).toNat = 256 * a.toNat + b.toNat := by
  have ha := a.isLt
  have hb := b.isLt
  rw [BitVec.toNat_ofNat]
  omega

theorem leSum_le : ∀ l : List (BitVec 8), leSum l ≤ 65535 * ((l.length + 1) / 2)
  | [] => Nat.zero_le _
  | [a] => by
    have ha := a.isLt
    simp only [leSum, List.length_singleton]
    omega
  | a :: b :: l => by
    have ha := a.isLt
    have hb := b.isLt
    have ih := leSum_le l
    simp only [leSum, List.length_cons]
    omega

theorem leSum_append : ∀ (l l' : List (BitVec 8)), l.length % 2 = 0 →
    leSum (l ++ l') = leSum l + leSum l'
  | [], _, _ => by simp [leSum]
  | [_], _, h => by simp at h
  | a :: b :: l, l', h => by
    have hl : l.length % 2 = 0 := by
      simp only [List.length_cons] at h
      omega
    simp only [List.cons_append, leSum, leSum_append l l' hl]
    omega

theorem leSum_mod : ∀ l : List (BitVec 8),
    leSum l % 65535 = 256 * wordSum (beWords l) % 65535 ∧ (leSum l = 0 ↔ wordSum (beWords l) = 0)
  | [] => by simp [leSum, beWords]
  | [a] => by
    have h : (BitVec.ofNat 16 (256 * a.toNat)).toNat = 256 * a.toNat := toNat_beWord a 0
    simp only [leSum, beWords, wordSum_cons, wordSum_nil, h]
    omega
  | a :: b :: l => by
    have ih := leSum_mod l
    simp only [leSum, beWords, wordSum_cons, toNat_beWord]
    omega

theorem fold16_swap {a b : ℕ} (h : a % 65535 = 256 * b % 65535) (h0 : a = 0 ↔ b = 0) :
    fold16 a = 256 * (fold16 b % 256) + fold16 b / 256 := by
  have ha := fold16_mod a
  have hb := fold16_mod b
  have ha0 := fold16_eq_zero (n := a)
  have hb0 := fold16_eq_zero (n := b)
  have hal := fold16_le a
  have hbl := fold16_le b
  omega

/-- **A sum is all ones in one byte order exactly when it is in the other.** -/
theorem fold16_leSum (l : List (BitVec 8)) :
    fold16 (leSum l) = 65535 ↔ onesSum (beWords l) = 0xffff := by
  have h := leSum_mod l
  rw [fold16_eq_full, onesSum_eq_full]
  omega

end OnesComplement
