import Sasat.Lib.Decimal
import Sasat.Common.Init

/-!
# `tsc_cycle_init`

The clock rate of the processor is read from `/proc/cpuinfo`: the first line that begins with
`cpu MHz` has it behind its colon. The array of 512 bytes that the lines are read to keeps what
earlier lines have left behind the end of a shorter one.

* `ClockFault`: what the clock functions can run into.
* `stringIn`, `strncmp`, `strstr`, `strtod`, `toUint64`: the C library and the conversion from
  `double`. The number that `strtod` returns is the decimal number of the text.
* `cpuinfoLoop`, `tscCycleInit`: the source.
* `cpuinfoLines`: the lines as `fgets` returns them; `cpuinfoLines_eq`: the lines of the file.
* `GivesClock`, `GoodInfo`: the first line for the key has a colon, and a number from 1 to below
  2^64 behind it.
* **`tscCycleInit_iff`**: exactly then a clock rate of at least 1 is returned.
* **`tscCycleInit_line`**: what is returned for a file of short lines.
-/

namespace Sasat

open Decimal Lines

/-- What a clock function can run into instead of returning: a null pointer, a string that does not
end in its array, a number that does not fit its type, a division by zero. -/
inductive ClockFault
  | null | overrun | range | divide
  deriving DecidableEq, Repr

abbrev ClockM : Type → Type := Except ClockFault

/-! ## The C library -/

/-- The string at `p` in an array of `size` bytes. -/
def stringIn (size : ℕ) (b : Buf) (p : ℕ) : ClockM (List Byte) :=
  if (slice b p (size - p)).any (· = 0) then .ok ((slice b p (size - p)).takeWhile (· ≠ 0))
  else .error .overrun

/-- `strncmp` returns 0. -/
def strncmp (s t : List Byte) (n : ℕ) : Bool := s.take n == t.take n

/-- `strstr`, by offset. -/
def strstr (s needle : List Byte) : Option ℕ := s.tails.findIdx? (needle.isPrefixOf ·)

/-- What a character means in a decimal number. -/
def tok (c : Byte) : Tok :=
  if h : 48 ≤ c.toNat ∧ c.toNat < 58 then .digit ⟨c.toNat - 48, by omega⟩
  else if c = 43 then .plus
  else if c = 45 then .minus
  else if c = 46 then .point
  else if c = 101 ∨ c = 69 then .exp
  else .other

/-- The text behind the white space at its start, for its decimal number. -/
def numberToks (t : List Byte) : List Tok := (t.dropWhile isSpace).map tok

def decimal (t : List Byte) : ℚ :=
  match read (numberToks t) with
  | some (n, _) => n.value
  | none => 0

/-- `strtod` for the string at `p` in an array of `size` bytes. -/
def strtod (size : ℕ) (b : Buf) (p : ℕ) : ClockM ℚ := do
  let t ← stringIn size b p
  .ok (decimal t)

/-- `(uint64_t)clk`, which is undefined for a number that does not fit. -/
def toUint64 (clk : ℚ) : ClockM (BitVec 64) :=
  if -1 < clk ∧ clk < 2 ^ 64 then .ok (BitVec.ofNat 64 clk.floor.toNat) else .error .range

/-! ## The function -/

/-- `cpu MHz`. -/
def cpuKey : List Byte := [99, 112, 117, 32, 77, 72, 122]

/-- The size of `buf`. -/
def cpuinfoSize : ℕ := 512

/-- The array after `fgets` has returned the line `l`. -/
def fill (buf : Buf) (l : List Byte) : Buf := store buf 0 (l ++ [0]).get

theorem fgets_decreases {fp fp' : File} {l : List Byte}
    (h : fgets cpuinfoSize fp = (some l, fp')) : fp'.rest.length < fp.rest.length := by
  obtain ⟨hrest, hne, -⟩ := fgets_some (by decide) h
  have hpos := List.length_pos_of_ne_nil hne
  rw [← hrest, List.length_append]
  omega

/-- The loop of `tsc_cycle_init`: the value of `clk` behind it. -/
def cpuinfoLoop (buf : Buf) (fp : File) : ClockM ℚ :=
  match h : fgets cpuinfoSize fp with
  | (none, _) => .ok (3325 / 2)
  | (some l, fp') => do
    let buf := fill buf l
    let s ← stringIn cpuinfoSize buf 0
    if strncmp cpuKey s cpuKey.length then
      match strstr s [colon] with
      | none => .error .null
      | some p => strtod cpuinfoSize buf (p + 2)
    else cpuinfoLoop buf fp'
termination_by fp.rest.length
decreasing_by exact fgets_decreases h

/-- `tsc_cycle_init`, with what `fopen` returns and with what `buf` holds before. -/
def tscCycleInit (fp : Option File) (buf : Buf) : ClockM (BitVec 64) := do
  let clk ← match fp with
    | some fp => cpuinfoLoop buf fp
    | none => .ok (3325 / 2)
  toUint64 clk

/-! ## What a file says -/

/-- The lines that `fgets` returns one after the other. -/
def cpuinfoLines (fp : File) : List (List Byte) :=
  match _h : fgets cpuinfoSize fp with
  | (none, _) => []
  | (some l, fp') => l :: cpuinfoLines fp'
termination_by fp.rest.length
decreasing_by exact fgets_decreases _h

/-- The text starts with a decimal number from 1 to below 2^64. -/
def ClockText (t : List Byte) : Prop :=
  ∃ (n : Numeral) (r : List Tok), numberToks t = n.toks ++ r ∧ n.Ends r ∧
    1 ≤ n.value ∧ n.value < 2 ^ 64

/-- The line has a colon before its first NUL, and the string in the array that starts with the
second byte behind it gives a clock rate. -/
def GivesClock (b : Buf) (l : List Byte) : Prop :=
  ∃ pre post t, l.takeWhile (· ≠ 0) = pre ++ colon :: post ∧ colon ∉ pre ∧
    stringIn cpuinfoSize b (pre.length + 2) = .ok t ∧ ClockText t

/-- If there is a line for the key, the first one gives a clock rate. -/
def GoodInfo (buf : Buf) (ls : List (List Byte)) : Prop :=
  ∀ before l behind, ls = before ++ l :: behind → (∀ x ∈ before, ¬ cpuKey <+: x) →
    cpuKey <+: l → GivesClock ((before ++ [l]).foldl fill buf) l

section

variable {buf b : Buf} {fp fp' : File} {l t : List Byte} {ls : List (List Byte)} {q : ℚ}

/-! ## Strings -/

theorem takeWhile_append_zero (l s : List Byte) :
    (l ++ 0 :: s).takeWhile (· ≠ 0) = l.takeWhile (· ≠ 0) := by
  induction l with
  | nil => simp
  | cons c l ih =>
    rw [List.cons_append, List.takeWhile_cons, List.takeWhile_cons, ih]

theorem slice_fill {size p : ℕ} (hlen : l.length < size) (hp : p ≤ l.length) :
    ∃ s, slice (fill buf l) p (size - p) = l.drop p ++ 0 :: s := by
  have hsize : size - p = (l.length + 1 - p) + (size - (l.length + 1)) := by omega
  have hall : slice (fill buf l) 0 (p + (l.length + 1 - p)) = l ++ [0] := by
    rw [Nat.add_sub_cancel' (by omega : p ≤ l.length + 1)]
    exact slice_strcpy buf 0 l
  have hdrop : slice (fill buf l) p (l.length + 1 - p) = l.drop p ++ [0] := by
    rw [slice_add, Nat.zero_add] at hall
    have := congrArg (List.drop p) hall
    rwa [List.drop_left' (length_slice _ _ _), List.drop_append_of_le_length hp] at this
  rw [hsize, slice_add, hdrop, List.append_assoc]
  exact ⟨_, rfl⟩

theorem stringIn_fill {size p : ℕ} (hlen : l.length < size) (hp : p ≤ l.length) :
    stringIn size (fill buf l) p = .ok ((l.drop p).takeWhile (· ≠ 0)) := by
  obtain ⟨s, hs⟩ := @slice_fill buf l size p hlen hp
  rw [stringIn, hs, if_pos (by simp), takeWhile_append_zero]

theorem strstr_singleton (s : List Byte) (c : Byte) : strstr s [c] = s.findIdx? (· == c) := by
  induction s with
  | nil => rfl
  | cons d s ih =>
    rw [strstr, List.tails_cons, List.findIdx?_cons, List.findIdx?_cons]
    rw [strstr] at ih
    rw [ih]
    simp [Bool.beq_comm]

theorem strstr_none {s : List Byte} {c : Byte} (h : c ∉ s) : strstr s [c] = none := by
  rw [strstr_singleton, findIdx_none h]

theorem strstr_some {pre : List Byte} {c : Byte} (h : c ∉ pre) (post : List Byte) :
    strstr (pre ++ c :: post) [c] = some pre.length := by
  rw [strstr_singleton, findIdx_terminated h]

theorem strncmp_iff {key : List Byte} (h : 0 ∉ key) :
    strncmp key (l.takeWhile (· ≠ 0)) key.length = true ↔ key <+: l := by
  rw [strncmp, List.take_length, beq_iff_eq, ← List.prefix_iff_eq_take]
  constructor
  · exact fun hp => hp.trans (List.takeWhile_prefix _)
  · rintro ⟨r, rfl⟩
    rw [takeWhile_append h]
    exact List.prefix_append _ _

/-! ## The number -/

theorem strtod_eq_ok {size p : ℕ} :
    strtod size b p = .ok q ↔ ∃ t, stringIn size b p = .ok t ∧ q = decimal t := by
  unfold strtod
  cases stringIn size b p with
  | error e =>
    refine ⟨fun h => (by cases h), ?_⟩
    rintro ⟨t, h, -⟩
    cases h
  | ok t =>
    constructor
    · intro h
      cases h
      exact ⟨t, rfl, rfl⟩
    · rintro ⟨t', h, rfl⟩
      cases h
      rfl

theorem clockText_iff : ClockText t ↔ 1 ≤ decimal t ∧ decimal t < 2 ^ 64 := by
  unfold decimal
  constructor
  · rintro ⟨n, r, htoks, hends, hn⟩
    rw [read_eq_some_iff.mpr ⟨htoks, hends⟩]
    exact hn
  · intro h
    split at h
    · next n r hread =>
      obtain ⟨htoks, hends⟩ := read_eq_some_iff.mp hread
      exact ⟨n, r, htoks, hends, h⟩
    · exact absurd h.1 (by norm_num)

/-- The number in ` 1.5e2 MHz`. -/
example : decimal [32, 49, 46, 53, 101, 50, 32, 77, 72, 122] = 150 := by decide +kernel

theorem toUint64_iff : (∃ clk, toUint64 q = .ok clk ∧ 1 ≤ clk.toNat) ↔ 1 ≤ q ∧ q < 2 ^ 64 := by
  unfold toUint64
  constructor
  · rintro ⟨clk, h, hclk⟩
    split_ifs at h with hq
    cases h
    refine ⟨?_, hq.2⟩
    have hpos : 0 < q.floor.toNat := by
      refine Nat.pos_of_ne_zero fun hzero => ?_
      rw [hzero] at hclk
      exact absurd hclk (by decide)
    have hfloor : (1 : ℤ) ≤ ⌊q⌋ := Int.lt_toNat.mp hpos
    exact_mod_cast Int.le_floor.mp hfloor
  · rintro ⟨h1, h2⟩
    rw [if_pos ⟨by linarith, h2⟩]
    refine ⟨_, rfl, ?_⟩
    have hlow : (1 : ℤ) ≤ ⌊q⌋ := Int.le_floor.mpr (by exact_mod_cast h1)
    have hhigh : ⌊q⌋ < (2 ^ 64 : ℤ) := Int.floor_lt.mpr (by exact_mod_cast h2)
    change (1 : ℤ) ≤ q.floor at hlow
    change q.floor < (2 ^ 64 : ℤ) at hhigh
    rw [BitVec.toNat_ofNat, Nat.mod_eq_of_lt (by omega)]
    omega

/-! ## The loop -/

/-- What the loop does with a line for the key. -/
def lineClk (b : Buf) (l : List Byte) : ClockM ℚ :=
  match strstr (l.takeWhile (· ≠ 0)) [colon] with
  | none => .error .null
  | some p => strtod cpuinfoSize b (p + 2)

theorem lineClk_iff : (∃ q, lineClk b l = .ok q ∧ 1 ≤ q ∧ q < 2 ^ 64) ↔ GivesClock b l := by
  unfold lineClk
  constructor
  · rintro ⟨q, h, hq⟩
    by_cases hcolon : colon ∈ l.takeWhile (· ≠ 0)
    · obtain ⟨pre, post, heq, hpre⟩ := List.eq_append_cons_of_mem hcolon
      rw [heq, strstr_some hpre] at h
      obtain ⟨t, ht, rfl⟩ := strtod_eq_ok.mp h
      exact ⟨pre, post, t, heq, hpre, ht, clockText_iff.mpr hq⟩
    · rw [strstr_none hcolon] at h
      cases h
  · rintro ⟨pre, post, t, heq, hpre, ht, hclk⟩
    refine ⟨decimal t, ?_, clockText_iff.mp hclk⟩
    rw [heq, strstr_some hpre]
    exact strtod_eq_ok.mpr ⟨t, ht, rfl⟩

theorem cpuinfoLoop_none (h : fgets cpuinfoSize fp = (none, fp')) :
    cpuinfoLoop buf fp = .ok (3325 / 2) := by
  rw [cpuinfoLoop]
  split
  · rfl
  · next h' =>
    rw [h] at h'
    cases h'

theorem cpuinfoLoop_some (h : fgets cpuinfoSize fp = (some l, fp')) :
    cpuinfoLoop buf fp =
      if cpuKey <+: l then lineClk (fill buf l) l else cpuinfoLoop (fill buf l) fp' := by
  have hlen := (fgets_some (by decide) h).2.2
  rw [cpuinfoLoop]
  split
  · next h' =>
    rw [h] at h'
    cases h'
  · next l' fp'' h' =>
    rw [h] at h'
    cases h'
    dsimp only
    rw [stringIn_fill hlen (Nat.zero_le _), List.drop_zero]
    by_cases hkey : cpuKey <+: l
    · rw [if_pos hkey]
      exact if_pos ((strncmp_iff (by decide)).mpr hkey)
    · rw [if_neg hkey]
      exact if_neg fun h => hkey ((strncmp_iff (by decide)).mp h)

theorem cpuinfoLines_none (h : fgets cpuinfoSize fp = (none, fp')) : cpuinfoLines fp = [] := by
  rw [cpuinfoLines]
  split
  · rfl
  · next h' =>
    rw [h] at h'
    cases h'

theorem cpuinfoLines_some (h : fgets cpuinfoSize fp = (some l, fp')) :
    cpuinfoLines fp = l :: cpuinfoLines fp' := by
  rw [cpuinfoLines]
  split
  · next h' =>
    rw [h] at h'
    cases h'
  · next h' =>
    rw [h] at h'
    cases h'
    rfl

theorem goodInfo_nil : GoodInfo buf [] := by
  intro before l behind h
  simp at h

theorem goodInfo_cons : GoodInfo buf (l :: ls) ↔
    if cpuKey <+: l then GivesClock (fill buf l) l else GoodInfo (fill buf l) ls := by
  by_cases hkey : cpuKey <+: l
  · rw [if_pos hkey]
    constructor
    · exact fun h => h [] l ls rfl (by simp) hkey
    · rintro h (_ | ⟨x, before⟩) l' behind heq hbefore -
      · cases heq
        exact h
      · cases heq
        exact absurd hkey (hbefore _ List.mem_cons_self)
  · rw [if_neg hkey]
    constructor
    · intro h before l' behind heq hbefore
      exact h (l :: before) l' behind (congrArg _ heq) (List.forall_mem_cons.mpr ⟨hkey, hbefore⟩)
    · rintro h (_ | ⟨x, before⟩) l' behind heq hbefore hkey'
      · cases heq
        exact absurd hkey' hkey
      · cases heq
        exact h before l' behind rfl (List.forall_mem_cons.mp hbefore).2 hkey'

theorem cpuinfoLoop_iff (buf : Buf) (fp : File) :
    (∃ q, cpuinfoLoop buf fp = .ok q ∧ 1 ≤ q ∧ q < 2 ^ 64) ↔ GoodInfo buf (cpuinfoLines fp) := by
  fun_induction cpuinfoLines fp generalizing buf with
  | case1 fp fp' h =>
    rw [cpuinfoLoop_none h]
    exact iff_of_true ⟨_, rfl, by norm_num, by norm_num⟩ goodInfo_nil
  | case2 fp l fp' h ih =>
    rw [cpuinfoLoop_some h, goodInfo_cons]
    by_cases hkey : cpuKey <+: l
    · rw [if_pos hkey, if_pos hkey]
      exact lineClk_iff
    · rw [if_neg hkey, if_neg hkey]
      exact ih _

theorem bind_toUint64_iff (x : ClockM ℚ) :
    (∃ clk, x >>= toUint64 = .ok clk ∧ 1 ≤ clk.toNat) ↔ ∃ q, x = .ok q ∧ 1 ≤ q ∧ q < 2 ^ 64 := by
  cases x with
  | error e =>
    constructor
    · rintro ⟨clk, h, -⟩
      cases h
    · rintro ⟨q, h, -⟩
      cases h
  | ok q =>
    constructor
    · exact fun h => ⟨q, rfl, toUint64_iff.mp h⟩
    · rintro ⟨q', h, hq⟩
      cases h
      exact toUint64_iff.mpr hq

/-- **A clock rate of at least 1 is returned** exactly if the first line for the key, if there is
one, has a colon and such a number behind it. -/
theorem tscCycleInit_iff (fp : Option File) (buf : Buf) :
    (∃ clk, tscCycleInit fp buf = .ok clk ∧ 1 ≤ clk.toNat) ↔
      ∀ f, fp = some f → GoodInfo buf (cpuinfoLines f) := by
  cases fp with
  | none =>
    refine iff_of_true ((bind_toUint64_iff _).mpr ⟨_, rfl, by norm_num, by norm_num⟩) ?_
    rintro f ⟨⟩
  | some f =>
    simp only [Option.some.injEq, forall_eq', ← cpuinfoLoop_iff]
    exact bind_toUint64_iff (cpuinfoLoop buf f)

theorem fgets_unterminated {size : ℕ} (hb : fp.broken = false) (hl : newline ∉ fp.rest)
    (hne : fp.rest ≠ []) (hlen : fp.rest.length < size) :
    ∃ fp', fgets size fp = (some fp.rest, fp') ∧ fp'.rest = [] ∧ fp'.broken = false := by
  rw [fgets_last hl hlen, if_neg hne, hb, if_neg Bool.false_ne_true]
  split_ifs
  · exact ⟨_, rfl, rfl, rfl⟩
  · exact ⟨_, rfl, rfl, rfl⟩

theorem cpuinfoLines_eq (fp : File) (hb : fp.broken = false)
    (hlen : ∀ l ∈ lines newline fp.rest, l.length < cpuinfoSize) :
    cpuinfoLines fp = lines newline fp.rest := by
  induction hn : fp.rest.length using Nat.strong_induction_on generalizing fp with
  | _ n ih =>
    subst hn
    rcases lines_cases newline fp.rest with hs | ⟨l, s, hrest, hl⟩
    · by_cases hnil : fp.rest = []
      · have hget := fgets_last hs (hnil ▸ by decide : fp.rest.length < cpuinfoSize)
        rw [hnil] at hget ⊢
        rw [if_neg (by decide), hb] at hget
        exact cpuinfoLines_none hget
      · rw [lines_of_not_mem hs hnil] at hlen ⊢
        obtain ⟨fp', hget, hrest, hb'⟩ :=
          fgets_unterminated hb hs hnil (hlen _ (List.mem_singleton_self _))
        have hlt : fp'.rest.length < fp.rest.length := by
          rw [hrest]
          exact List.length_pos_of_ne_nil hnil
        rw [cpuinfoLines_some hget, ih _ hlt fp' hb' (by simp [hrest, lines]) rfl, hrest]
        rfl
    · rw [hrest, lines_append hl] at hlen ⊢
      rw [cpuinfoLines_some (fgets_append hl (hlen _ List.mem_cons_self) hrest)]
      refine congrArg _ (ih s.length ?_ _ hb (fun l hl => hlen l (List.mem_cons_of_mem _ hl)) rfl)
      rw [hrest, List.length_append, List.length_cons]
      omega

theorem cpuinfoLines_cons (h : cpuinfoLines fp = l :: ls) :
    ∃ fp', fgets cpuinfoSize fp = (some l, fp') ∧ cpuinfoLines fp' = ls := by
  obtain ⟨o, fp', hget⟩ : ∃ o fp', fgets cpuinfoSize fp = (o, fp') := ⟨_, _, Prod.mk.eta.symm⟩
  cases o with
  | none =>
    rw [cpuinfoLines_none hget] at h
    cases h
  | some l' =>
    rw [cpuinfoLines_some hget] at h
    cases h
    exact ⟨fp', hget, rfl⟩

theorem cpuinfoLoop_key {before behind : List (List Byte)}
    (h : cpuinfoLines fp = before ++ l :: behind) (hbefore : ∀ x ∈ before, ¬ cpuKey <+: x)
    (hkey : cpuKey <+: l) :
    cpuinfoLoop buf fp = lineClk ((before ++ [l]).foldl fill buf) l := by
  induction before generalizing buf fp with
  | nil =>
    obtain ⟨fp', hget, -⟩ := cpuinfoLines_cons h
    rw [cpuinfoLoop_some hget, if_pos hkey]
    rfl
  | cons x before ih =>
    obtain ⟨fp', hget, hrest⟩ := cpuinfoLines_cons h
    obtain ⟨hx, hbefore⟩ := List.forall_mem_cons.mp hbefore
    rw [cpuinfoLoop_some hget, if_neg hx]
    exact ih hrest hbefore

/-- A line with a byte behind its colon: what the array held before has no influence. -/
theorem lineClk_fill {pre : List Byte} {c : Byte}
    (hlen : (pre ++ colon :: c :: t).length < cpuinfoSize) (hpre : colon ∉ pre)
    (h0 : 0 ∉ pre ++ colon :: c :: t) :
    lineClk (fill b (pre ++ colon :: c :: t)) (pre ++ colon :: c :: t) = .ok (decimal t) := by
  have ht : 0 ∉ t := fun h =>
    h0 (List.mem_append_right _ (List.mem_cons_of_mem _ (List.mem_cons_of_mem _ h)))
  have hdrop : (pre ++ colon :: c :: t).drop (pre.length + 2) = t := by simp
  rw [lineClk, takeWhile_self h0, strstr_some hpre]
  refine strtod_eq_ok.mpr ⟨t, ?_, rfl⟩
  rw [stringIn_fill hlen (by simp), hdrop, takeWhile_self ht]

/-- **What a file of short lines gives**: the number in its first line for the key. -/
theorem tscCycleInit_line {bytes pre : List Byte} {c : Byte} {before behind : List (List Byte)}
    (hshort : ∀ l ∈ lines newline bytes, l.length < cpuinfoSize)
    (h : lines newline bytes = before ++ (pre ++ colon :: c :: t) :: behind)
    (hbefore : ∀ x ∈ before, ¬ cpuKey <+: x) (hkey : cpuKey <+: pre) (hpre : colon ∉ pre)
    (h0 : 0 ∉ pre ++ colon :: c :: t) (buf : Buf) :
    tscCycleInit (some (fopen bytes false)) buf = toUint64 (decimal t) := by
  have hlen : (pre ++ colon :: c :: t).length < cpuinfoSize := hshort _ (by rw [h]; simp)
  have hlines := (cpuinfoLines_eq (fopen bytes false) rfl hshort).trans h
  have hloop := @cpuinfoLoop_key buf _ _ _ _ hlines hbefore
    (hkey.trans (List.prefix_append _ _))
  rw [List.foldl_append] at hloop
  change cpuinfoLoop buf (fopen bytes false) >>= toUint64 = _
  rw [hloop]
  exact congrArg (· >>= toUint64) (lineClk_fill hlen hpre h0)

end

end Sasat
