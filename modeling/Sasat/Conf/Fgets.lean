import Sasat.Common.Basic
import Sasat.Lib.Lines

/-!
# Reading the configuration files

The policy file and the property file are read line by line with `fgets`. A stream ends in
end-of-file, or what follows its bytes cannot be read.

* `File`, `fgets`: a stream, and what `fgets` and `feof` of the C standard do.
* `readLoop`, `parsePolicy`, `parseFile`: the loops of `pol_tbl.c` and `prop_body.c`, with the lines
  that they give to the line parser.
* `textLines`: the lines of a file that hold something.
* `turn_cases`: what a turn of the loop does.
* **`readLoop_iff`**: which lines the loop gives to the parser, and when it ends.
* **`reads_all_iff`**: when these are all the lines of the file.
-/

namespace Sasat

open Lines

def newline : Byte := 10

/-- A stream: the bytes ahead, whether a read error comes behind them, and what `feof` tells. -/
structure File where
  rest : List Byte
  broken : Bool
  eof : Bool

def fopen (bytes : List Byte) (broken : Bool) : File := ⟨bytes, broken, false⟩

/-- At most `k` bytes, up to a newline; the bytes left, and whether there were too few. -/
def takeLine : ℕ → List Byte → List Byte × List Byte × Bool
  | 0, s => ([], s, false)
  | _ + 1, [] => ([], [], true)
  | k + 1, c :: s =>
    if c = newline then ([c], s, false)
    else
      let (l, s', ended) := takeLine k s
      (c :: l, s', ended)

/-- `fgets` with a buffer of `size` bytes: what it puts there, if it returns no null pointer. -/
def fgets (size : ℕ) (f : File) : Option (List Byte) × File :=
  let (l, s, ended) := takeLine (size - 1) f.rest
  if ended then
    if f.broken then (none, { f with rest := [] })
    else (if l = [] then none else some l, { f with rest := [], eof := true })
  else (some l, { f with rest := s })

/-- `strlen`. -/
def strlen (s : List Byte) : ℕ := (s.takeWhile (· ≠ 0)).length

/-- The loops of `parse_policy` and `parse_file`, for at most so many turns: the lines that they
give to the parser. At turn `k` the buffer holds `stale k` before `fgets`. -/
def readLoop (size : ℕ) (skip : List Byte → Bool) (stale : ℕ → List Byte) :
    ℕ → File → M (List (List Byte))
  | 0, _ => .error .endless
  | k + 1, file =>
    let (line, file) := fgets size file
    let buff := line.getD (stale k)
    if file.eof then .ok []
    else if strlen buff = 1 ∧ buff.head? = some newline then readLoop size skip stale k file
    else if skip buff then readLoop size skip stale k file
    else do
      let lines ← readLoop size skip stale k file
      .ok (buff :: lines)

/-- A line that starts with `#` or `[`. -/
def skipPolicy (buff : List Byte) : Bool := buff.head? = some 35 || buff.head? = some 91

/-- A line that starts with `#`. -/
def skipProperty (buff : List Byte) : Bool := buff.head? = some 35

/-- `parse_policy`. -/
def parsePolicy (stale : ℕ → List Byte) : ℕ → File → M (List (List Byte)) :=
  readLoop 256 skipPolicy stale

/-- `parse_file`. -/
def parseFile (stale : ℕ → List Byte) : ℕ → File → M (List (List Byte)) :=
  readLoop 128 skipProperty stale

/-! ## What they are for -/

/-- The lines of a file that are neither empty nor to be skipped. -/
def textLines (skip : List Byte → Bool) (bytes : List Byte) : List (List Byte) :=
  (lines newline bytes).filter fun l => l ≠ [newline] ∧ skip l = false

/-- `fgets` does not come to the end of the stream behind the line. -/
def Closed (size : ℕ) (l : List Byte) : Prop := newline ∈ l ∨ l.length + 1 = size

instance (size : ℕ) (l : List Byte) : Decidable (Closed size l) :=
  inferInstanceAs (Decidable (_ ∨ _))

section

variable {l s : List Byte} {k size : ℕ} {skip : List Byte → Bool} {stale : ℕ → List Byte}
  {f : File} {r : List (List Byte)}

theorem takeLine_append (hl : newline ∉ l) (hlen : l.length < k) (s : List Byte) :
    takeLine k (l ++ newline :: s) = (l ++ [newline], s, false) := by
  induction l generalizing k with
  | nil =>
    obtain ⟨k, rfl⟩ := Nat.exists_eq_succ_of_ne_zero hlen.ne'
    rw [List.nil_append, takeLine, if_pos rfl, List.nil_append]
  | cons c l ih =>
    obtain ⟨k, rfl⟩ := Nat.exists_eq_succ_of_ne_zero (Nat.ne_zero_of_lt hlen)
    rw [List.mem_cons, not_or] at hl
    rw [List.cons_append, takeLine, if_neg (Ne.symm hl.1),
      ih hl.2 (Nat.lt_of_succ_lt_succ hlen)]
    rfl

/-- The last line, when it has no newline: the end is noticed unless the buffer is full before. -/
theorem takeLine_of_not_mem (hl : newline ∉ l) (hlen : l.length ≤ k) :
    takeLine k l = (l, [], decide (l.length < k)) := by
  induction l generalizing k with
  | nil => cases k <;> rfl
  | cons c l ih =>
    obtain ⟨k, rfl⟩ := Nat.exists_eq_succ_of_ne_zero (Nat.ne_zero_of_lt hlen)
    rw [List.mem_cons, not_or] at hl
    rw [takeLine, if_neg (Ne.symm hl.1), ih hl.2 (Nat.le_of_succ_le_succ hlen)]
    simp only [List.length_cons, Nat.succ_lt_succ_iff]

theorem takeLine_concat (k : ℕ) (s : List Byte) :
    (takeLine k s).1 ++ (takeLine k s).2.1 = s := by
  fun_induction takeLine k s with
  | case1 s => rfl
  | case2 k => rfl
  | case3 k s => rfl
  | case4 k c s hc l s' ended hline ih =>
    rw [hline] at ih
    exact congrArg _ ih

theorem length_takeLine (k : ℕ) (s : List Byte) : (takeLine k s).1.length ≤ k := by
  fun_induction takeLine k s with
  | case1 s => exact Nat.zero_le _
  | case2 k => exact Nat.zero_le _
  | case3 k s => exact Nat.succ_le_succ (Nat.zero_le k)
  | case4 k c s hc l s' ended hline ih =>
    rw [hline] at ih
    exact Nat.succ_le_succ ih

theorem takeLine_ne_nil (h : (takeLine (k + 1) s).2.2 = false) : (takeLine (k + 1) s).1 ≠ [] := by
  cases s with
  | nil => cases h
  | cons c s =>
    rw [takeLine]
    split_ifs <;> exact List.cons_ne_nil _ _

theorem takeLine_ended (k : ℕ) (s : List Byte) (h : (takeLine k s).2.2 = true) :
    (takeLine k s).2.1 = [] := by
  fun_induction takeLine k s with
  | case1 s => cases h
  | case2 k => rfl
  | case3 k s => cases h
  | case4 k c s hc l s' ended hline ih =>
    rw [hline] at ih
    exact ih h

theorem fgets_some {f' : File} (hsize : 1 < size) (h : fgets size f = (some l, f')) :
    l ++ f'.rest = f.rest ∧ l ≠ [] ∧ l.length < size := by
  obtain ⟨k, rfl⟩ : ∃ k, size = k + 2 := ⟨size - 2, by omega⟩
  have hconcat := takeLine_concat (k + 1) f.rest
  have hlen := length_takeLine (k + 1) f.rest
  have hne := @takeLine_ne_nil f.rest k
  have hended := takeLine_ended (k + 1) f.rest
  unfold fgets at h
  rw [Nat.add_sub_cancel (k + 1) 1] at h
  obtain ⟨l', s', ended, hline⟩ : ∃ l' s' ended, takeLine (k + 1) f.rest = (l', s', ended) :=
    ⟨_, _, _, rfl⟩
  rw [hline] at h hconcat hlen hne hended
  dsimp only at h hconcat hlen hne hended
  split_ifs at h with hend hb hnil
  · cases h
  · cases h
  · cases h
    rw [← hconcat, hended hend, List.append_nil]
    exact ⟨rfl, hnil, Nat.lt_succ_of_le hlen⟩
  · cases h
    exact ⟨hconcat, hne (Bool.eq_false_iff.mpr hend), Nat.lt_succ_of_le hlen⟩

theorem strlen_eq_one_iff (hl : l ∈ lines newline s) :
    (strlen l = 1 ∧ l.head? = some newline) ↔ l = [newline] := by
  constructor
  · rintro ⟨-, hhead⟩
    obtain ⟨l', hl', ⟨rfl, -⟩ | rfl⟩ := mem_lines hl
    · exact absurd (List.mem_of_mem_head? hhead) hl'
    · cases l' with
      | nil => rfl
      | cons c l' =>
        rw [List.cons_append, List.head?_cons, Option.some.injEq] at hhead
        exact absurd (hhead ▸ List.mem_cons_self) hl'
  · rintro rfl
    exact ⟨rfl, rfl⟩

theorem fgets_append (hl : newline ∉ l) (hlen : (l ++ [newline]).length < size)
    (hrest : f.rest = l ++ newline :: s) :
    fgets size f = (some (l ++ [newline]), { f with rest := s }) := by
  rw [List.length_append, List.length_singleton] at hlen
  unfold fgets
  rw [hrest, takeLine_append hl (by omega)]
  rfl

theorem fgets_last (hl : newline ∉ f.rest) (hlen : f.rest.length < size) :
    fgets size f =
      if f.rest.length + 1 = size then (some f.rest, { f with rest := [] })
      else if f.broken then (none, { f with rest := [] })
      else (if f.rest = [] then none else some f.rest, { f with rest := [], eof := true }) := by
  unfold fgets
  rw [takeLine_of_not_mem hl (by omega)]
  by_cases h : f.rest.length + 1 = size
  · rw [if_pos h, decide_eq_false (by omega)]
    rfl
  · rw [if_neg h, decide_eq_true (by omega)]
    rfl

/-- What the parser gets of a line. -/
def kept (skip : List Byte → Bool) (l : List Byte) : List (List Byte) :=
  if l ≠ [newline] ∧ skip l = false then [l] else []

/-- The lines that the loop gives to the parser: those behind which the stream goes on. -/
def givenLines (size : ℕ) (skip : List Byte → Bool) (bytes : List Byte) : List (List Byte) :=
  (textLines skip bytes).filter fun l => Closed size l

theorem givenLines_append (hl : newline ∉ l) (s : List Byte) :
    givenLines size skip (l ++ newline :: s) =
      kept skip (l ++ [newline]) ++ givenLines size skip s := by
  have hclosed : Closed size (l ++ [newline]) := Or.inl (by simp)
  unfold givenLines textLines kept
  rw [lines_append hl, List.filter_cons]
  by_cases h : l ++ [newline] ≠ [newline] ∧ skip (l ++ [newline]) = false
  · rw [if_pos h, if_pos (decide_eq_true h), List.filter_cons, if_pos (decide_eq_true hclosed)]
    rfl
  · rw [if_neg h, if_neg (by rwa [decide_eq_true_eq])]
    rfl

theorem givenLines_last (hl : newline ∉ s) (hne : s ≠ []) :
    givenLines size skip s = if s.length + 1 = size then kept skip s else [] := by
  have hclosed : Closed size s ↔ s.length + 1 = size := or_iff_right hl
  unfold givenLines textLines kept
  rw [lines_of_not_mem hl hne, List.filter_cons, List.filter_nil]
  by_cases h1 : s ≠ [newline] ∧ skip s = false
  · rw [if_pos (decide_eq_true h1), if_pos h1, List.filter_cons, List.filter_nil]
    simp only [decide_eq_true_eq, hclosed]
  · rw [if_neg (by rwa [decide_eq_true_eq]), if_neg h1, ite_self]
    rfl

theorem readLoop_line (hs : l ∈ lines newline s) {f' : File} (hget : fgets size f = (some l, f'))
    (heof : f'.eof = false) (k : ℕ) : readLoop size skip stale (k + 1) f =
      (readLoop size skip stale k f').map (kept skip l ++ ·) := by
  have hid : ∀ x : M (List (List Byte)), x = x.map ([] ++ ·) := fun x => by cases x <;> rfl
  rw [readLoop, hget]
  unfold kept
  simp only [heof, Option.getD_some, strlen_eq_one_iff hs, Bool.false_eq_true, if_false]
  by_cases h1 : l = [newline]
  · rw [if_pos h1, if_neg fun h => h.1 h1]
    exact hid _
  · rw [if_neg h1]
    cases h2 : skip l with
    | true =>
      rw [if_pos rfl, if_neg (by simp)]
      exact hid _
    | false =>
      rw [if_neg (by simp), if_pos ⟨h1, rfl⟩]
      cases readLoop size skip stale k f' <;> rfl

theorem readLoop_error {f' : File} (hget : fgets size f = (none, f')) (heof : f'.eof = false)
    (k : ℕ) {r : List (List Byte)} (h : readLoop size skip stale (k + 1) f = .ok r) :
    ∃ r', readLoop size skip stale k f' = .ok r' := by
  rw [readLoop, hget] at h
  simp only [heof, Bool.false_eq_true, if_false] at h
  split_ifs at h
  · exact ⟨r, h⟩
  · exact ⟨r, h⟩
  · obtain ⟨r', hr', -⟩ := bind_eq_ok.mp h
    exact ⟨r', hr'⟩

theorem readLoop_eof {o : Option (List Byte)} {f' : File} (hget : fgets size f = (o, f'))
    (heof : f'.eof = true) (k : ℕ) : readLoop size skip stale (k + 1) f = .ok [] := by
  rw [readLoop, hget]
  exact if_pos heof

/-- **What a turn does**: it reads a line, or there is nothing but a part of a line and the end. -/
theorem turn_cases (skip : List Byte → Bool) (hsize : 1 < size)
    (hlen : ∀ l ∈ lines newline f.rest, l.length < size) :
    (∃ l s, fgets size f = (some l, { f with rest := s }) ∧ l ∈ lines newline f.rest ∧
      s.length < f.rest.length ∧ (∀ l ∈ lines newline s, l.length < size) ∧
        givenLines size skip f.rest = kept skip l ++ givenLines size skip s) ∨
    (givenLines size skip f.rest = [] ∧
      if f.broken then fgets size f = (none, { f with rest := [] })
      else ∃ o, fgets size f = (o, { f with rest := [], eof := true })) := by
  rcases lines_cases newline f.rest with hs | ⟨l, s, hrest, hl⟩
  · by_cases hnil : f.rest = []
    · have hget := fgets_last hs (hnil ▸ Nat.zero_lt_of_lt hsize : f.rest.length < size)
      rw [if_neg (by rw [hnil]; exact hsize.ne)] at hget
      refine Or.inr ⟨by rw [hnil]; rfl, ?_⟩
      split_ifs at hget ⊢ with hb
      · exact hget
      · exact ⟨_, hget⟩
    · have hmem : f.rest ∈ lines newline f.rest := by
        rw [lines_of_not_mem hs hnil]
        exact List.mem_singleton_self _
      have hget := fgets_last hs (hlen _ hmem)
      rw [givenLines_last hs hnil]
      by_cases hfull : f.rest.length + 1 = size
      · -- the buffer is full before the end is noticed
        rw [if_pos hfull] at hget ⊢
        refine Or.inl ⟨_, [], hget, hmem, List.length_pos_of_ne_nil hnil,
          fun l hl => absurd hl List.not_mem_nil, ?_⟩
        exact (List.append_nil _).symm
      · rw [if_neg hfull] at hget ⊢
        refine Or.inr ⟨rfl, ?_⟩
        split_ifs at hget ⊢ with hb
        · exact hget
        · exact ⟨_, hget⟩
  · rw [hrest, lines_append hl] at hlen
    have hget := fgets_append hl (hlen _ List.mem_cons_self) hrest
    refine Or.inl ⟨_, s, hget, ?_, ?_, fun l hl => hlen l (List.mem_cons_of_mem _ hl), ?_⟩
    · rw [hrest, lines_append hl]
      exact List.mem_cons_self
    · rw [hrest, List.length_append, List.length_cons]
      omega
    · rw [hrest, givenLines_append hl]

theorem readLoop_ok (hsize : 1 < size) : ∀ {k : ℕ} {f : File} {r : List (List Byte)},
    (∀ l ∈ lines newline f.rest, l.length < size) → f.eof = false →
      readLoop size skip stale k f = .ok r → f.broken = false ∧ r = givenLines size skip f.rest
  | 0, _, _, _, _, h => by cases h
  | k + 1, f, r, hlen, heof, h => by
    rcases turn_cases skip hsize hlen with ⟨l, s, hget, hmem, -, hlen', hgiven⟩ |
      ⟨hgiven, hend⟩
    · rw [readLoop_line hmem hget heof k] at h
      cases hrun : readLoop size skip stale k { f with rest := s } with
      | error e =>
        rw [hrun] at h
        cases h
      | ok r' =>
        obtain ⟨hb, hr'⟩ := readLoop_ok hsize (by exact hlen') (by exact heof) hrun
        rw [hrun] at h
        cases h
        exact ⟨hb, by rw [hgiven, hr']⟩
    · cases hb : f.broken with
      | true =>
        rw [hb, if_pos rfl] at hend
        obtain ⟨r', hrun⟩ := readLoop_error hend heof k h
        have hbad := (readLoop_ok hsize (by simp [lines]) (by exact heof) hrun).1
        cases hbad
      | false =>
        rw [hb, if_neg (by decide)] at hend
        obtain ⟨o, hget⟩ := hend
        rw [readLoop_eof hget rfl] at h
        cases h
        exact ⟨rfl, hgiven.symm⟩

theorem readLoop_ends (skip : List Byte → Bool) (stale : ℕ → List Byte) (hsize : 1 < size)
    (hb : f.broken = false) (heof : f.eof = false)
    (hlen : ∀ l ∈ lines newline f.rest, l.length < size) :
    ∃ k r, readLoop size skip stale k f = .ok r := by
  induction hn : f.rest.length using Nat.strong_induction_on generalizing f with
  | _ n ih =>
    subst hn
    rcases turn_cases skip hsize hlen with ⟨l, s, hget, hmem, hlt, hlen', -⟩ | ⟨-, hend⟩
    · obtain ⟨k, r, hrun⟩ := @ih s.length hlt { f with rest := s } hb heof hlen' rfl
      refine ⟨k + 1, kept skip l ++ r, ?_⟩
      rw [readLoop_line hmem hget heof k, hrun]
      rfl
    · rw [hb, if_neg (by decide)] at hend
      obtain ⟨o, hget⟩ := hend
      exact ⟨1, [], readLoop_eof hget rfl 0⟩

/-- **The loop ends exactly at end-of-file**, and it gives to the parser the lines behind which the
stream goes on. -/
theorem readLoop_iff (hsize : 1 < size) (heof : f.eof = false)
    (hlen : ∀ l ∈ lines newline f.rest, l.length < size) (r : List (List Byte)) :
    (∃ k, readLoop size skip stale k f = .ok r) ↔
      f.broken = false ∧ r = givenLines size skip f.rest := by
  constructor
  · rintro ⟨k, hk⟩
    exact readLoop_ok hsize hlen heof hk
  · rintro ⟨hb, rfl⟩
    obtain ⟨k, r, hk⟩ := readLoop_ends skip stale hsize hb heof hlen
    exact ⟨k, by rw [hk, (readLoop_ok hsize hlen heof hk).2]⟩

/-- **Every line is given to the parser** exactly if end-of-file ends the stream and comes behind a
newline or a full buffer. -/
theorem readLoop_all_iff (hsize : 1 < size) (heof : f.eof = false)
    (hlen : ∀ l ∈ lines newline f.rest, l.length < size) :
    (∃ k, readLoop size skip stale k f = .ok (textLines skip f.rest)) ↔
      f.broken = false ∧ ∀ l ∈ textLines skip f.rest, Closed size l := by
  rw [readLoop_iff hsize heof hlen]
  refine and_congr_right fun _ => ?_
  unfold givenLines
  rw [eq_comm, List.filter_eq_self]
  simp only [decide_eq_true_eq]

theorem parsePolicy_all_iff (bytes : List Byte) (broken : Bool) (stale : ℕ → List Byte)
    (hlen : ∀ l ∈ lines newline bytes, l.length < 256) :
    (∃ k, parsePolicy stale k (fopen bytes broken) = .ok (textLines skipPolicy bytes)) ↔
      broken = false ∧ ∀ l ∈ textLines skipPolicy bytes, Closed 256 l :=
  readLoop_all_iff (by decide) rfl hlen

theorem parseFile_all_iff (bytes : List Byte) (broken : Bool) (stale : ℕ → List Byte)
    (hlen : ∀ l ∈ lines newline bytes, l.length < 128) :
    (∃ k, parseFile stale k (fopen bytes broken) = .ok (textLines skipProperty bytes)) ↔
      broken = false ∧ ∀ l ∈ textLines skipProperty bytes, Closed 128 l :=
  readLoop_all_iff (by decide) rfl hlen

/-- **Every line of a configuration file is given to its parser**, and the reading ends, exactly if
end-of-file ends the stream and comes behind a newline, a line to be skipped or a full buffer. -/
theorem reads_all_iff (bytes : List Byte) (broken : Bool) (stale : ℕ → List Byte) :
    ((∀ l ∈ lines newline bytes, l.length < 256) →
      ((∃ k, parsePolicy stale k (fopen bytes broken) = .ok (textLines skipPolicy bytes)) ↔
        broken = false ∧ ∀ l ∈ textLines skipPolicy bytes, Closed 256 l)) ∧
    ((∀ l ∈ lines newline bytes, l.length < 128) →
      ((∃ k, parseFile stale k (fopen bytes broken) = .ok (textLines skipProperty bytes)) ↔
        broken = false ∧ ∀ l ∈ textLines skipProperty bytes, Closed 128 l)) :=
  ⟨parsePolicy_all_iff bytes broken stale, parseFile_all_iff bytes broken stale⟩

/-- A comment, an empty line and a line `k=1` that ends with a newline. -/
theorem reads_all_closed :
    ((∃ k, parsePolicy (fun _ => []) k (fopen [35, 10, 10, 107, 61, 49, 10] false) =
        .ok (textLines skipPolicy [35, 10, 10, 107, 61, 49, 10])) ↔
      false = false ∧ ∀ l ∈ textLines skipPolicy [35, 10, 10, 107, 61, 49, 10], Closed 256 l) ∧
    ((∃ k, parseFile (fun _ => []) k (fopen [35, 10, 10, 107, 61, 49, 10] false) =
        .ok (textLines skipProperty [35, 10, 10, 107, 61, 49, 10])) ↔
      false = false ∧ ∀ l ∈ textLines skipProperty [35, 10, 10, 107, 61, 49, 10], Closed 128 l) :=
  ⟨(reads_all_iff _ false _).1 (by decide), (reads_all_iff _ false _).2 (by decide)⟩

/-- **A last line without a newline is lost**: the parsers get nothing of the file `k=1`. A stream
that breaks is read for ever. -/
theorem reads_lose_last :
    textLines skipPolicy [107, 61, 49] = [[107, 61, 49]] ∧
    textLines skipProperty [107, 61, 49] = [[107, 61, 49]] ∧
    (∀ stale, parsePolicy stale 1 (fopen [107, 61, 49] false) = .ok [] ∧
      parseFile stale 1 (fopen [107, 61, 49] false) = .ok []) ∧
    ¬ (∃ k, parsePolicy (fun _ => []) k (fopen [107, 61, 49] false) =
      .ok (textLines skipPolicy [107, 61, 49])) ∧
    ¬ (∃ k, parseFile (fun _ => []) k (fopen [107, 61, 49] false) =
      .ok (textLines skipProperty [107, 61, 49])) ∧
    ¬ ∃ k r, parsePolicy (fun _ => []) k (fopen [] true) = .ok r := by
  refine ⟨by decide, by decide, fun _ => ⟨rfl, rfl⟩, ?_, ?_, ?_⟩
  · rw [parsePolicy_all_iff _ _ _ (by decide)]
    decide
  · rw [parseFile_all_iff _ _ _ (by decide)]
    decide
  · rintro ⟨k, r, hk⟩
    have := (readLoop_ok (by decide) (by decide) rfl hk).1
    cases this

end

end Sasat
