import Sasat.Lib.LastMatch
import Sasat.Common.Init

/-!
# `prop_body.c`: the property store

A line of the property file is cut in place into a key and a value. They are stored in one block,
one string behind the other, at the head of a list that is searched from its head.

* `stringAt`, `strchr`, `skipSpace`: strings in a buffer, by offset.
* `addProperties`, `parseLine`, `getProperties`: the functions of the source.
* `lineKey`, `lineValue`, `Assigns`: what a line says.
* `parseLine_assign`, `parseLine_drop`: the two kinds of lines.
* `getProperties_eq`: the blocks are the pairs that `anycastGetProperties` searches.
* **`properties_lastWins`**: the value of a key is that of the last line that assigns to it.
-/

namespace Sasat

open LastMatch Lines

def equalSign : Byte := 61

/-- The string at `p` in a buffer. -/
def stringAt (buff : List Byte) (p : ℕ) : List Byte := (buff.drop p).takeWhile (· ≠ 0)

/-- `strchr`. -/
def strchr (buff : List Byte) (p : ℕ) (c : Byte) : Option ℕ :=
  ((stringAt buff p).findIdx? (· == c)).map (p + ·)

/-- `skip_space`. -/
def skipSpace (buff : List Byte) (p : ℕ) : ℕ := p + ((buff.drop p).takeWhile isBlank).length

/-- `data` of a `struct propertie_data`: a key and a value, each with its NUL. -/
abbrev PropData : Type := List Byte

/-- `add_properties`. -/
def addProperties (props : List PropData) (key value : List Byte) : List PropData :=
  (key ++ [0] ++ (value ++ [0])) :: props

/-- `parse_line`. -/
def parseLine (props : List PropData) (line : List Byte) : List PropData :=
  match strchr line 0 equalSign with
  | none => props
  | some p2 =>
    let line := line.set p2 0
    if (stringAt line 0).length = 0 ∨ p2 = 0 then props
    else
      let p2 := skipSpace line (p2 + 1)
      let slen := (stringAt line p2).length
      let line := line.set (p2 + slen - 1) 0
      addProperties props (stringAt line 0) (stringAt line p2)

/-- `anycast_get_properties`. -/
def getProperties (props : List PropData) (key : List Byte) : Option (List Byte) :=
  (props.find? fun data => stringAt data 0 = key).map fun data =>
    stringAt data ((stringAt data 0).length + 1)

/-! ## What a line says -/

/-- The text before the first `=`. -/
def lineKey (l : List Byte) : List Byte := l.takeWhile (· ≠ equalSign)

/-- The text behind it, without the blanks at its start and the newline at its end. -/
def lineValue (l : List Byte) : List Byte :=
  ((l.dropWhile (· ≠ equalSign)).tail.dropWhile isBlank).dropLast

/-- The line assigns to `key`. -/
def Assigns (key l : List Byte) : Prop := equalSign ∈ l ∧ lineKey l ≠ [] ∧ lineKey l = key

instance (key l : List Byte) : Decidable (Assigns key l) := inferInstanceAs (Decidable (_ ∧ _ ∧ _))

/-- A line with its newline. -/
def PropLine (l : List Byte) : Prop := ∃ body, l = body ++ [newline] ∧ newline ∉ body ∧ 0 ∉ body

section

variable {l key rest value : List Byte} {props : List PropData}

/-! ## Strings -/

theorem stringAt_append {p : ℕ} (h : 0 ∉ l) (pre s : List Byte) (hp : p = pre.length) :
    stringAt (pre ++ (l ++ 0 :: s)) p = l := by
  rw [stringAt, hp, List.drop_left, takeWhile_terminated h]

theorem stringAt_end {p : ℕ} (h : 0 ∉ l) (pre : List Byte) (hp : p = pre.length) :
    stringAt (pre ++ l) p = l := by
  rw [stringAt, hp, List.drop_left, takeWhile_self h]

theorem stringAt_zero (h : 0 ∉ l) : stringAt l 0 = l := stringAt_end h [] rfl

theorem zero_notMem_of_propLine (h : PropLine l) : 0 ∉ l := by
  obtain ⟨body, rfl, -, h0⟩ := h
  rw [List.mem_append, not_or]
  exact ⟨h0, by decide⟩

theorem strchr_none (h : PropLine l) (he : equalSign ∉ l) : strchr l 0 equalSign = none := by
  rw [strchr, stringAt_zero (zero_notMem_of_propLine h), findIdx_none he, Option.map_none]

theorem strchr_some (h : PropLine (key ++ equalSign :: rest)) (he : equalSign ∉ key) :
    strchr (key ++ equalSign :: rest) 0 equalSign = some key.length := by
  rw [strchr, stringAt_zero (zero_notMem_of_propLine h), findIdx_terminated he, Option.map_some,
    Nat.zero_add]

/-! ## Lines -/

theorem lineKey_append (he : equalSign ∉ key) : lineKey (key ++ equalSign :: rest) = key :=
  takeWhile_terminated he rest

theorem lineValue_append (he : equalSign ∉ key) :
    lineValue (key ++ equalSign :: rest) = (rest.dropWhile isBlank).dropLast := by
  rw [lineValue, dropWhile_terminated he, List.tail_cons]

theorem dropWhile_isBlank_ends (h : PropLine (key ++ equalSign :: rest)) :
    ∃ v, rest.dropWhile isBlank = v ++ [newline] ∧ 0 ∉ v := by
  obtain ⟨body, hbody, -, h0⟩ := h
  rcases List.eq_nil_or_concat rest with rfl | ⟨r, c, rfl⟩
  · have := (List.append_inj' hbody rfl).2
    exact absurd this (by decide)
  · rw [List.concat_eq_append] at hbody ⊢
    have hsplit : (key ++ equalSign :: r) ++ [c] = body ++ [newline] := by
      rw [← hbody, List.append_assoc, List.cons_append]
    obtain ⟨rfl, hc⟩ := List.append_inj' hsplit rfl
    obtain rfl := List.singleton_injective hc
    refine ⟨r.dropWhile isBlank, ?_, fun hm => h0 ?_⟩
    · rw [List.dropWhile_append]
      split_ifs with he
      · rw [List.isEmpty_iff.mp he]
        rfl
      · rfl
    · exact List.mem_append_right _ (List.mem_cons_of_mem _ ((List.dropWhile_suffix _).subset hm))

theorem notMem_key (h : PropLine (key ++ equalSign :: rest)) : 0 ∉ key := fun hm =>
  zero_notMem_of_propLine h (List.mem_append_left _ hm)

/-- **A line that assigns** to its key. -/
theorem parseLine_assign (h : PropLine (key ++ equalSign :: rest)) (he : equalSign ∉ key)
    (hne : key ≠ []) : parseLine props (key ++ equalSign :: rest) =
      addProperties props key (rest.dropWhile isBlank).dropLast := by
  obtain ⟨v, hv, h0⟩ := dropWhile_isBlank_ends h
  have hkey := notMem_key h
  have hpos : key.length ≠ 0 := fun hl => hne (List.length_eq_zero_iff.mp hl)
  have hset : (key ++ equalSign :: rest).set key.length 0 = key ++ 0 :: rest := by
    rw [List.set_append_right _ _ le_rfl, Nat.sub_self, List.set_cons_zero]
  -- the buffer up to the value
  generalize hpre : key ++ 0 :: rest.takeWhile isBlank = pre
  have hline : key ++ 0 :: rest = pre ++ (v ++ [newline]) := by
    rw [← hpre, List.append_assoc, List.cons_append, ← hv, List.takeWhile_append_dropWhile]
  have hskip : skipSpace (key ++ 0 :: rest) (key.length + 1) = pre.length := by
    rw [skipSpace, List.drop_length_add_append, List.drop_succ_cons, List.drop_zero, ← hpre,
      List.length_append, List.length_cons]
    omega
  have hval : stringAt (key ++ 0 :: rest) pre.length = v ++ [newline] := by
    rw [hline]
    refine stringAt_end ?_ pre rfl
    rw [List.mem_append, not_or]
    exact ⟨h0, by decide⟩
  have hcut : (key ++ 0 :: rest).set (pre.length + (v ++ [newline]).length - 1) 0 =
      pre ++ (v ++ [0]) := by
    rw [hline, List.length_append, List.length_singleton,
      show pre.length + (v.length + 1) - 1 = pre.length + v.length by omega,
      List.set_append_right _ _ (Nat.le_add_right _ _), Nat.add_sub_cancel_left,
      List.set_append_right _ _ le_rfl, Nat.sub_self]
    rfl
  have hkey0 (s : List Byte) : stringAt (key ++ 0 :: s) 0 = key := stringAt_append hkey [] s rfl
  have hend : stringAt (pre ++ (v ++ [0])) 0 = key := by
    rw [← hpre, List.append_assoc, List.cons_append]
    exact hkey0 _
  rw [parseLine, strchr_some h he]
  dsimp only
  rw [hset, hkey0, if_neg (by simp [hne]), hskip, hval, hcut, hend, stringAt_append h0 pre [] rfl,
    hv, List.dropLast_concat]

theorem parseLine_drop (h : PropLine l) (hl : ∀ key, ¬ Assigns key l) :
    parseLine props l = props := by
  by_cases he : equalSign ∈ l
  · obtain ⟨key, rest, rfl, hne⟩ := List.eq_append_cons_of_mem he
    have hempty : key = [] := by
      by_contra hk
      exact hl key ⟨he, (lineKey_append hne).symm ▸ hk, lineKey_append hne⟩
    subst hempty
    rw [parseLine, strchr_some h hne]
    exact if_pos (Or.inr rfl)
  · rw [parseLine, strchr_none h he]

/-! ## The store -/

theorem getProperties_addProperties (hkey : 0 ∉ key) (hvalue : 0 ∉ value) (k : List Byte) :
    getProperties (addProperties props key value) k =
      if key = k then some value else getProperties props k := by
  have h0 : stringAt (key ++ [0] ++ (value ++ [0])) 0 = key := by
    rw [List.append_assoc]
    exact stringAt_append hkey [] _ rfl
  rw [getProperties, addProperties, List.find?_cons, h0]
  by_cases hk : key = k
  · rw [if_pos hk, decide_eq_true hk]
    dsimp only
    rw [Option.map_some, h0, stringAt_append hvalue (key ++ [0]) [] (by simp)]
  · rw [if_neg hk, decide_eq_false hk]
    rfl

/-- **One line**, seen through the store. -/
theorem getProperties_parseLine (h : PropLine l) (k : List Byte) :
    getProperties (parseLine props l) k =
      if Assigns k l then some (lineValue l) else getProperties props k := by
  by_cases ha : equalSign ∈ l ∧ lineKey l ≠ []
  · obtain ⟨key, rest, rfl, hne⟩ := List.eq_append_cons_of_mem ha.1
    have hkey : lineKey (key ++ equalSign :: rest) = key := lineKey_append hne
    obtain ⟨v, hv, h0⟩ := dropWhile_isBlank_ends h
    have hvalue : 0 ∉ (rest.dropWhile isBlank).dropLast := by
      rw [hv, List.dropLast_concat]
      exact h0
    have hassigns : key = k ↔ Assigns k (key ++ equalSign :: rest) :=
      ⟨fun hk => ⟨ha.1, ha.2, hkey.trans hk⟩, fun hk => hkey.symm.trans hk.2.2⟩
    rw [parseLine_assign h hne (hkey ▸ ha.2), getProperties_addProperties (notMem_key h) hvalue,
      lineValue_append hne]
    exact if_congr hassigns rfl rfl
  · rw [parseLine_drop h fun key hk => ha ⟨hk.1, hk.2.1⟩, if_neg fun hk => ha ⟨hk.1, hk.2.1⟩]

/-- **All lines**, over a store that holds something already. -/
theorem getProperties_foldl {ls : List (List Byte)} (h : ∀ l ∈ ls, PropLine l) (k : List Byte) :
    getProperties (ls.foldl parseLine props) k =
      ((lastMatch (fun l => decide (Assigns k l)) ls).map lineValue).or
        (getProperties props k) := by
  induction ls generalizing props with
  | nil => rfl
  | cons l ls ih =>
    rw [List.forall_mem_cons] at h
    rw [List.foldl_cons, ih h.2, getProperties_parseLine h.1, lastMatch_cons]
    cases lastMatch (fun l => decide (Assigns k l)) ls with
    | some l' => rfl
    | none =>
      by_cases ha : Assigns k l
      · rw [if_pos ha, decide_eq_true ha]
        rfl
      · rw [if_neg ha, decide_eq_false ha]
        rfl

theorem getProperties_eq (props : List PropData) (k : List Byte) : getProperties props k =
    anycastGetProperties (props.map fun data =>
      (stringAt data 0, stringAt data ((stringAt data 0).length + 1))) k := by
  rw [getProperties, anycastGetProperties, List.find?_map, Option.map_map]
  rfl

theorem skip_of_mem_readLoop {size : ℕ} {skip : List Byte → Bool} {stale : ℕ → List Byte} {n : ℕ}
    {file : File} {ls : List (List Byte)} (h : readLoop size skip stale n file = .ok ls) :
    ∀ l ∈ ls, skip l = false := by
  induction n generalizing file ls with
  | zero => cases h
  | succ n ih =>
    rw [readLoop] at h
    dsimp only at h
    split_ifs at h with h1 h2 h3
    · cases h
      exact fun l hl => absurd hl List.not_mem_nil
    · exact ih h
    · exact ih h
    · obtain ⟨ls', hls', h⟩ := bind_eq_ok.mp h
      cases h
      exact List.forall_mem_cons.mpr ⟨Bool.eq_false_iff.mpr h3, ih hls'⟩

/-- **The property store is a last-assignment-wins map** over the lines that are given to
`parse_line`, and no comment is. -/
theorem properties_lastWins :
    (∀ ls : List (List Byte), (∀ l ∈ ls, PropLine l) →
      ∀ k, getProperties (ls.foldl parseLine []) k =
        (lastMatch (fun l => decide (Assigns k l)) ls).map lineValue) ∧
    ∀ (stale : ℕ → List Byte) (n : ℕ) (file : File) (ls : List (List Byte)),
      parseFile stale n file = .ok ls → ∀ l ∈ ls, l.head? ≠ some 35 := by
  refine ⟨fun ls h k => ?_, fun stale n file ls h l hl => ?_⟩
  · rw [getProperties_foldl h]
    exact Option.or_none
  · exact of_decide_eq_false (skip_of_mem_readLoop h l hl)

/-- `a=1`, `ab=2`, `a= 3=4` and `=5`. -/
theorem properties_lastWins_prefix :
    getProperties ([[97, 61, 49, 10], [97, 98, 61, 50, 10], [97, 61, 32, 51, 61, 52, 10],
      [61, 53, 10]].foldl parseLine []) [97] = some [51, 61, 52] := by
  refine (properties_lastWins.1 _ ?_ [97]).trans (by decide)
  simp only [List.forall_mem_cons]
  refine ⟨⟨[97, 61, 49], rfl, by decide, by decide⟩, ⟨[97, 98, 61, 50], rfl, by decide, by decide⟩,
    ⟨[97, 61, 32, 51, 61, 52], rfl, by decide, by decide⟩,
    ⟨[61, 53], rfl, by decide, by decide⟩, ?_⟩
  exact fun l hl => absurd hl List.not_mem_nil

end

end Sasat
