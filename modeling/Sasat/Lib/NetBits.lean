import Mathlib.Tactic

/-!
# Bits in network order

The bits of a string of bytes, the most significant bit of the first byte first.

* `bit a j`: bit `j` of the bytes `a`.
* `Agree a b m`: the first `m` bits are the same.
* **`agree_add`**, **`agree_bytes`**: a prefix in two parts, a prefix of whole bytes.
* `testBit_four`: the bits of four bytes put together.
-/

namespace NetBits

/-- Bit `j` of the bytes `a`, in network order. -/
def bit (a : ℕ → BitVec 8) (j : ℕ) : Bool := (a (j / 8)).getLsbD (7 - j % 8)

/-- The first `m` bits of `a` and of `b` are the same. -/
def Agree (a b : ℕ → BitVec 8) (m : ℕ) : Prop := ∀ j < m, bit a j = bit b j

variable {a b : ℕ → BitVec 8} {m k : ℕ}

instance (a b : ℕ → BitVec 8) (m : ℕ) : Decidable (Agree a b m) :=
  inferInstanceAs (Decidable (∀ j < m, _))

theorem agree_zero (a b : ℕ → BitVec 8) : Agree a b 0 := fun j hj => absurd hj (Nat.not_lt_zero j)

theorem bit_add (a : ℕ → BitVec 8) (i j : ℕ) : bit a (8 * i + j) = bit (fun k => a (i + k)) j := by
  unfold bit
  rw [show (8 * i + j) / 8 = i + j / 8 by omega, show (8 * i + j) % 8 = j % 8 by omega]

/-- **A prefix of `i` bytes and some bits.** -/
theorem agree_add (i m : ℕ) : Agree a b (8 * i + m) ↔
    Agree a b (8 * i) ∧ Agree (fun k => a (i + k)) (fun k => b (i + k)) m := by
  constructor
  · intro h
    refine ⟨fun j hj => h j (by omega), fun j hj => ?_⟩
    rw [← bit_add a i j, ← bit_add b i j]
    exact h _ (by omega)
  · rintro ⟨h1, h2⟩ j hj
    by_cases hji : j < 8 * i
    · exact h1 j hji
    · have := h2 (j - 8 * i) (by omega)
      rw [← bit_add, ← bit_add] at this
      rwa [show 8 * i + (j - 8 * i) = j by omega] at this

/-- **A prefix of whole bytes.** -/
theorem agree_bytes : Agree a b (8 * k) ↔ ∀ i < k, a i = b i := by
  constructor
  · intro h i hi
    apply BitVec.eq_of_getLsbD_eq
    intro j hj
    have := h (8 * i + (7 - j)) (by omega)
    rw [bit_add, bit_add] at this
    unfold bit at this
    rwa [show (7 - j) / 8 = 0 by omega, show 7 - (7 - j) % 8 = j by omega] at this
  · intro h j hj
    unfold bit
    rw [h (j / 8) (by omega)]

theorem testBit_four {x y z w : ℕ} (hx : x < 256) (hy : y < 256) (hz : z < 256) (j : ℕ) :
    (x + 256 * y + 65536 * z + 16777216 * w).testBit j =
      if j < 8 then x.testBit j
      else if j < 16 then y.testBit (j - 8)
      else if j < 24 then z.testBit (j - 16)
      else w.testBit (j - 24) := by
  have e : x + 256 * y + 65536 * z + 16777216 * w =
      2 ^ 8 * (2 ^ 8 * (2 ^ 8 * w + z) + y) + x := by ring
  rw [e, Nat.testBit_two_pow_mul_add _ hx, Nat.testBit_two_pow_mul_add _ hy,
    Nat.testBit_two_pow_mul_add _ hz]
  simp only [show j - 8 < 8 ↔ j < 16 by omega, show j - 16 < 8 ↔ j < 24 by omega,
    Nat.sub_sub, Nat.reduceAdd]

end NetBits
