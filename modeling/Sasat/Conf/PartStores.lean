import Sasat.Conf.PolicyText

/-!
# The copies to the parts of a policy line

The loop of `parse_policy_line` copies as many bytes as a field has. The parts of the array `ip`
have room for `PART_SIZE` bytes each.

* `splitLog`, `splitLog_fst`: the loop with a record of its copies.
* `ShortFields`: every field that the loop comes to is shorter than `PART_SIZE`.
* **`partStores_le_iff`**: exactly then all copies stay inside their parts.
* **`partStores_overrun`**: a field of 64 characters.
-/

namespace Sasat

/-- The loop of `parse_policy_line`, and for each copy the number of the part and how many bytes it
stores there. -/
def splitLog : List ℕ → Option (List Byte) → Af → Buf → Split × List (ℕ × ℕ)
  | [], _, family, ip => (.parts family ip, [])
  | _ :: _, none, family, ip => (.parts family ip, [])
  | i :: is, some buff, family, ip =>
    let (dp, rest) := cut buff
    let part := trim dp
    let copy := (i, part.length + 1)
    if maxPart * partSize < partSize * i + part.length + 1 then (.overrun, [copy])
    else
      let ip := store ip (partSize * i) (part ++ [0]).get
      let fam := getFamily (cstr ip (partSize * i))
      if fam = .unspec then (.ignored, [copy])
      else if i = 0 then
        let (r, copies) := splitLog is rest fam ip
        (r, copy :: copies)
      else if family ≠ fam then (.ignored, [copy])
      else
        let (r, copies) := splitLog is rest family ip
        (r, copy :: copies)

/-- The copies of `parse_policy_line`. -/
def partStores (buff : List Byte) : List (ℕ × ℕ) :=
  (splitLog (List.range maxPart) (some (text buff)) .unspec fun _ => 0).2

/-- The field is not of the family `f`, by its characters. -/
def Stops (f : Af) (p : List Byte) : Prop := getFamily p = .unspec ∨ f ≠ getFamily p

instance (f : Af) (p : List Byte) : Decidable (Stops f p) := inferInstanceAs (Decidable (_ ∨ _))

/-- Every field is shorter than `PART_SIZE`, if those before it do not stop the loop. -/
def ShortFields (f : Af) (ps : List (List Byte)) : Prop :=
  ∀ (k : ℕ) (p : List Byte), ps[k]? = some p →
    (∀ (j : ℕ) (q : List Byte), j < k → ps[j]? = some q → ¬ Stops f q) → p.length < partSize

section

variable {p l buff : List Byte} {ps : List (List Byte)} {i k : ℕ} {f family : Af} {ip : Buf}

theorem splitLog_fst : ∀ (is : List ℕ) (buff : Option (List Byte)) (family : Af) (ip : Buf),
    (splitLog is buff family ip).1 = splitLoop is buff family ip
  | [], _, _, _ => rfl
  | _ :: _, none, _, _ => rfl
  | i :: is, some buff, family, ip => by
    rw [splitLog, splitLoop]
    dsimp only
    split_ifs
    · rfl
    · rfl
    · exact splitLog_fst is _ _ _
    · rfl
    · exact splitLog_fst is _ _ _

theorem shortFields_nil : ShortFields f [] := by
  intro k p h
  simp at h

theorem shortFields_cons : ShortFields f (p :: ps) ↔
    p.length < partSize ∧ (¬ Stops f p → ShortFields f ps) := by
  constructor
  · intro h
    refine ⟨h 0 p rfl fun j q hj => absurd hj (Nat.not_lt_zero j), fun hp k q hq hbefore => ?_⟩
    refine h (k + 1) q hq ?_
    rintro (_ | j) r hj hr
    · cases hr
      exact hp
    · exact hbefore j r (Nat.lt_of_succ_lt_succ hj) hr
  · rintro ⟨hp, hps⟩ (_ | k) q hq hbefore
    · cases hq
      exact hp
    · refine hps (hbefore 0 p (Nat.succ_pos k) rfl) k q hq fun j r hj hr => ?_
      exact hbefore (j + 1) r (Nat.succ_lt_succ hj) hr

theorem splitLog_none (is : List ℕ) : (splitLog is none family ip).2 = [] := by
  cases is <;> rfl

theorem splitLog_cons {is : List ℕ} {rest : Option (List Byte)} (hcut : cut buff = (l, rest))
    (h0 : 0 ∉ trim l) (hroom : Fits i (trim l)) (hi : 0 < i → family = f)
    (hfirst : i = 0 → getFamily (trim l) = f) :
    (splitLog (i :: is) (some buff) family ip).2 = (i, (trim l).length + 1) ::
      if Stops f (trim l) then []
      else (splitLog is rest f (store ip (partSize * i) (trim l ++ [0]).get)).2 := by
  have hroom' : ¬ maxPart * partSize < partSize * i + (trim l).length + 1 := by
    unfold Fits at hroom
    omega
  rw [splitLog, hcut]
  dsimp only
  rw [if_neg hroom', cstr_eq (slice_strcpy ip (partSize * i) (trim l)) h0 hroom]
  by_cases hun : getFamily (trim l) = .unspec
  · have hstop : Stops f (trim l) := Or.inl hun
    rw [if_pos hun, if_pos hstop]
  rw [if_neg hun]
  by_cases hzero : i = 0
  · have hgo : ¬ Stops f (trim l) := not_or.mpr ⟨hun, not_not.mpr (hfirst hzero).symm⟩
    rw [if_pos hzero, if_neg hgo, hfirst hzero]
  · rw [if_neg hzero, hi (Nat.pos_of_ne_zero hzero)]
    by_cases hf : f ≠ getFamily (trim l)
    · have hstop : Stops f (trim l) := Or.inr hf
      rw [if_pos hf, if_pos hstop]
    · have hgo : ¬ Stops f (trim l) := not_or.mpr ⟨hun, hf⟩
      rw [if_neg hf, if_neg hgo]

/-- The first copy is recorded also when it runs over the array. -/
theorem mem_splitLog {is : List ℕ} {rest : Option (List Byte)} (hcut : cut buff = (l, rest)) :
    (i, (trim l).length + 1) ∈ (splitLog (i :: is) (some buff) family ip).2 := by
  rw [splitLog, hcut]
  dsimp only
  split_ifs <;> exact List.mem_cons_self

/-- **The copies stay inside their parts** exactly if the fields are short. -/
theorem splitLog_le_iff : ∀ {k i : ℕ} {buff : List Byte} {family : Af} {ip : Buf},
    i + k ≤ maxPart → (0 < i → family = f) → (∀ p ∈ takeParts k buff, 0 ∉ p) →
      (i = 0 → ∀ p, (takeParts k buff).head? = some p → getFamily p = f) →
        ((∀ x ∈ (splitLog (List.range' i k) (some buff) family ip).2, x.2 ≤ partSize) ↔
          ShortFields f (takeParts k buff))
  | 0, _, _, _, _, _, _, _, _ =>
    ⟨fun _ => shortFields_nil, fun _ _ h => absurd h List.not_mem_nil⟩
  | k + 1, i, buff, family, ip, hik, hi, h0, hhead => by
    obtain ⟨l, rest, hcut, hparts⟩ : ∃ l rest, cut buff = (l, rest) ∧
        takeParts (k + 1) buff = trim l :: rest.elim [] (takeParts k) := by
      rcases cut_cases buff with ⟨hcut, hsplit⟩ | ⟨l, s, hcut, hsplit⟩
      · exact ⟨buff, none, hcut, by simp [takeParts, hsplit]⟩
      · exact ⟨l, some s, hcut, by simp [takeParts, hsplit]⟩
    rw [hparts] at h0 hhead ⊢
    rw [List.range'_succ, shortFields_cons]
    by_cases hshort : (trim l).length < partSize
    · have hroom : Fits i (trim l) := by
        have : partSize * (i + 1) ≤ maxPart * partSize := by
          rw [Nat.mul_comm maxPart]
          exact Nat.mul_le_mul_left _ (by omega)
        rw [Nat.mul_succ] at this
        unfold Fits
        omega
      rw [splitLog_cons hcut (h0 _ List.mem_cons_self) hroom hi fun hzero => hhead hzero _ rfl,
        List.forall_mem_cons, and_iff_right hshort, and_iff_right (Nat.succ_le_of_lt hshort)]
      by_cases hstop : Stops f (trim l)
      · rw [if_pos hstop]
        exact ⟨fun _ h => absurd hstop h, fun _ _ h => absurd h List.not_mem_nil⟩
      · rw [if_neg hstop, forall_prop_of_true hstop]
        cases rest with
        | none =>
          rw [splitLog_none]
          exact ⟨fun _ => shortFields_nil, fun _ _ h => absurd h List.not_mem_nil⟩
        | some s =>
          exact splitLog_le_iff (by omega) (fun _ => rfl)
            (fun p hp => h0 p (List.mem_cons_of_mem _ hp)) fun h => absurd h (Nat.succ_ne_zero i)
    · exact ⟨fun h => absurd (Nat.lt_of_succ_le (h _ (mem_splitLog hcut))) hshort,
        fun h => absurd h.1 hshort⟩

/-- **Every copy of `parse_policy_line` stays inside its part** exactly if no field that the loop
comes to has `PART_SIZE` characters or more. -/
theorem partStores_le_iff (buff : List Byte) : (∀ x ∈ partStores buff, x.2 ≤ partSize) ↔
    ∀ p, (fields buff).head? = some p → ShortFields (getFamily p) (fields buff) := by
  obtain ⟨p, ps, hp⟩ := fields_eq_cons buff
  have hhead : ∀ q, (fields buff).head? = some q → getFamily q = getFamily p := fun q hq => by
    rw [hp] at hq
    cases hq
    rfl
  have hiff := @splitLog_le_iff (getFamily p) maxPart 0 (text buff) .unspec (fun _ => 0) (by decide)
    (fun h => absurd h (Nat.lt_irrefl 0)) (fun q hq => zero_notMem_fields hq) fun _ => hhead
  rw [partStores, List.range_eq_range', hiff]
  constructor
  · intro h q hq
    rw [hhead q hq]
    exact h
  · exact fun h => h p (by rw [hp]; rfl)

end

/-- A field of 64 digits: its NUL is stored behind the part. -/
theorem partStores_overrun : ¬ ∀ buff : List Byte, buff.length ≤ 255 →
    ∀ x ∈ partStores buff, x.2 ≤ partSize := by
  intro h
  have hrun := h (List.replicate 64 48) (by decide)
  revert hrun
  decide

end Sasat
