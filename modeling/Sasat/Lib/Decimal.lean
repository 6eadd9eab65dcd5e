import Mathlib.Tactic

/-!
# Decimal numbers at the start of a text

A text consists of digits, signs, points, exponent marks and other characters.

* `Numeral`: an optional sign, digits with an optional point, an optional exponent. `Numeral.toks`
  is its text, `Numeral.value` the number.
* `Numeral.Ends`: the text behind a numeral does not continue it.
* `read`: takes a numeral from the start of a text.
* `readSign_iff`, `readDigits_iff`, `readFrac_iff`, `readExp_iff`: its parts.
* **`read_eq_some_iff`**: it takes the numeral that the text starts with.
-/

namespace Decimal

inductive Tok
  | digit (d : Fin 10)
  | plus | minus | point | exp | other
  deriving DecidableEq

structure Exponent where
  sign : Option Bool
  digits : List (Fin 10)
  digits_ne : digits ≠ []

/-- A decimal numeral. The sign is `true` for a minus. -/
structure Numeral where
  sign : Option Bool
  int : List (Fin 10)
  frac : Option (List (Fin 10))
  exp : Option Exponent
  digits_ne : int ++ frac.getD [] ≠ []

/-! ## Texts and values -/

def signToks : Option Bool → List Tok
  | none => []
  | some false => [.plus]
  | some true => [.minus]

def digitToks (ds : List (Fin 10)) : List Tok := ds.map .digit

def fracToks : Option (List (Fin 10)) → List Tok
  | none => []
  | some ds => .point :: digitToks ds

def expToks : Option Exponent → List Tok
  | none => []
  | some e => .exp :: (signToks e.sign ++ digitToks e.digits)

def Numeral.toks (n : Numeral) : List Tok :=
  signToks n.sign ++ (digitToks n.int ++ (fracToks n.frac ++ expToks n.exp))

def ofDigits (ds : List (Fin 10)) : ℕ := ds.foldl (fun v d => 10 * v + d) 0

def signVal (sign : Option Bool) : ℤ := if sign = some true then -1 else 1

def Exponent.value (e : Exponent) : ℤ := signVal e.sign * ofDigits e.digits

def Numeral.value (n : Numeral) : ℚ :=
  signVal n.sign * ofDigits (n.int ++ n.frac.getD []) *
    (10 : ℚ) ^ ((n.exp.map Exponent.value).getD 0 - (n.frac.getD []).length)

/-! ## Reading -/

def readSign : List Tok → Option Bool × List Tok
  | .plus :: s => (some false, s)
  | .minus :: s => (some true, s)
  | s => (none, s)

def readDigits : List Tok → List (Fin 10) × List Tok
  | .digit d :: s => (d :: (readDigits s).1, (readDigits s).2)
  | s => ([], s)

def readFrac : List Tok → Option (List (Fin 10)) × List Tok
  | .point :: s => (some (readDigits s).1, (readDigits s).2)
  | s => (none, s)

def readExp : List Tok → Option Exponent × List Tok
  | .exp :: s =>
    let (sign, s') := readSign s
    let (ds, s') := readDigits s'
    if h : ds ≠ [] then (some ⟨sign, ds, h⟩, s') else (none, .exp :: s)
  | s => (none, s)

/-- The numeral at the start of a text, and the text behind it. -/
def read (s : List Tok) : Option (Numeral × List Tok) :=
  let (sign, s) := readSign s
  let (int, s) := readDigits s
  let (frac, s) := readFrac s
  let (exp, s) := readExp s
  if h : int ++ frac.getD [] ≠ [] then some (⟨sign, int, frac, exp, h⟩, s) else none

/-! ## Where a numeral ends -/

def NoSign (s : List Tok) : Prop := s.head? ≠ some .plus ∧ s.head? ≠ some .minus

def NoDigit (s : List Tok) : Prop := ∀ d, s.head? ≠ some (.digit d)

def NoPoint (s : List Tok) : Prop := s.head? ≠ some .point

/-- No exponent stands at the start of the text. -/
def NoExp (s : List Tok) : Prop := ∀ e r, s ≠ expToks (some e) ++ r

/-- The text `r` behind a numeral does not continue it. -/
structure Numeral.Ends (n : Numeral) (r : List Tok) : Prop where
  digit : NoDigit r
  point : n.frac = none → n.exp = none → NoPoint r
  exp : n.exp = none → NoExp r

variable {s r : List Tok} {ds : List (Fin 10)} {g : Option Bool} {f : Option (List (Fin 10))}
  {e : Option Exponent}

theorem readSign_iff : readSign s = (g, r) ↔ s = signToks g ++ r ∧ (g = none → NoSign r) := by
  constructor
  · intro h
    unfold readSign at h
    split at h
    · cases h
      exact ⟨rfl, fun h => by cases h⟩
    · cases h
      exact ⟨rfl, fun h => by cases h⟩
    · next hplus hminus =>
      cases h
      refine ⟨rfl, fun _ => ⟨fun hs => ?_, fun hs => ?_⟩⟩
      · obtain ⟨s', rfl⟩ := List.head?_eq_some_iff.mp hs
        exact hplus s' rfl
      · obtain ⟨s', rfl⟩ := List.head?_eq_some_iff.mp hs
        exact hminus s' rfl
  · rintro ⟨rfl, h⟩
    cases g with
    | none =>
      obtain ⟨hplus, hminus⟩ := h rfl
      cases r with
      | nil => rfl
      | cons t r => cases t <;> first | rfl | exact absurd rfl hplus | exact absurd rfl hminus
    | some b => cases b <;> rfl

theorem readDigits_of_noDigit (h : NoDigit r) : readDigits r = ([], r) := by
  cases r with
  | nil => rfl
  | cons t r =>
    cases t with
    | digit d => exact absurd rfl (h d)
    | _ => rfl

theorem readDigits_iff : readDigits s = (ds, r) ↔ s = digitToks ds ++ r ∧ NoDigit r := by
  constructor
  · intro h
    induction s generalizing ds with
    | nil =>
      cases h
      exact ⟨rfl, fun d => by simp⟩
    | cons t s ih =>
      cases t with
      | digit d =>
        cases h
        obtain ⟨hs, hr⟩ := ih rfl
        refine ⟨?_, hr⟩
        rw [digitToks, List.map_cons, List.cons_append]
        exact congrArg _ hs
      | _ =>
        cases h
        exact ⟨rfl, fun d => by simp⟩
  · rintro ⟨rfl, hr⟩
    induction ds with
    | nil => exact readDigits_of_noDigit hr
    | cons d ds ih =>
      rw [digitToks, List.map_cons, List.cons_append, readDigits]
      rw [digitToks] at ih
      rw [ih]

theorem noSign_digits (h : ds ≠ []) : NoSign (digitToks ds ++ r) := by
  obtain ⟨d, ds, rfl⟩ := List.exists_cons_of_ne_nil h
  exact ⟨by simp [digitToks], by simp [digitToks]⟩

theorem readFrac_iff : readFrac s = (f, r) ↔
    s = fracToks f ++ r ∧ (f = none → NoPoint r) ∧ (f ≠ none → NoDigit r) := by
  constructor
  · intro h
    unfold readFrac at h
    split at h
    · next s =>
      cases h
      obtain ⟨hs, hr⟩ := readDigits_iff.mp (rfl : readDigits s = _)
      exact ⟨congrArg _ hs, ⟨nofun, fun _ => hr⟩⟩
    · next hpoint =>
      cases h
      refine ⟨rfl, fun _ hs => ?_, fun h => absurd rfl h⟩
      obtain ⟨s', rfl⟩ := List.head?_eq_some_iff.mp hs
      exact hpoint s' rfl
  · rintro ⟨rfl, hpoint, hdigit⟩
    cases f with
    | none =>
      cases r with
      | nil => rfl
      | cons t r => cases t <;> first | rfl | exact absurd rfl (hpoint rfl)
    | some ds =>
      have hread : readDigits (digitToks ds ++ r) = (ds, r) :=
        readDigits_iff.mpr ⟨rfl, hdigit (by simp)⟩
      rw [fracToks, List.cons_append, readFrac, hread]

theorem readDigits_exp (e : Exponent) (r : List Tok) :
    readSign (signToks e.sign ++ (digitToks e.digits ++ r)) =
      (e.sign, digitToks e.digits ++ r) ∧ (readDigits (digitToks e.digits ++ r)).1 ≠ [] := by
  refine ⟨readSign_iff.mpr ⟨rfl, fun _ => noSign_digits e.digits_ne⟩, ?_⟩
  obtain ⟨d, ds, hds⟩ := List.exists_cons_of_ne_nil e.digits_ne
  rw [hds, digitToks, List.map_cons, List.cons_append, readDigits]
  exact List.cons_ne_nil _ _

theorem exp_eq (h : (readDigits (readSign s).2).1 ≠ []) :
    .exp :: s = expToks (some ⟨(readSign s).1, (readDigits (readSign s).2).1, h⟩) ++
      (readDigits (readSign s).2).2 := by
  have hsign : s = signToks (readSign s).1 ++ (readSign s).2 :=
    (readSign_iff.mp Prod.mk.eta.symm).1
  have hdigits : (readSign s).2 = digitToks (readDigits (readSign s).2).1 ++
      (readDigits (readSign s).2).2 := (readDigits_iff.mp Prod.mk.eta.symm).1
  rw [expToks, List.cons_append, List.append_assoc, ← hdigits, ← hsign]

theorem readExp_iff : readExp s = (e, r) ↔
    s = expToks e ++ r ∧ (e = none → NoExp r) ∧ (e ≠ none → NoDigit r) := by
  constructor
  · intro h
    unfold readExp at h
    split at h
    · next s =>
      dsimp only at h
      split_ifs at h with hds
      · cases h
        exact ⟨exp_eq hds, nofun, fun _ => (readDigits_iff.mp Prod.mk.eta.symm).2⟩
      · cases h
        refine ⟨rfl, fun _ e' r' he => ?_, fun h => absurd rfl h⟩
        rw [expToks, List.cons_append, List.append_assoc] at he
        obtain ⟨hsign, hne⟩ := readDigits_exp e' r'
        rw [(List.cons.inj he).2, hsign] at hds
        exact hds hne
    · next hexp =>
      cases h
      exact ⟨rfl, fun _ e' r' he => hexp _ he, fun h => absurd rfl h⟩
  · rintro ⟨rfl, hexp, hdigit⟩
    cases e with
    | none =>
      rw [expToks, List.nil_append]
      unfold readExp
      split
      · next s =>
        exact dif_neg fun hds => hexp rfl _ _ (exp_eq hds)
      · rfl
    | some e =>
      have hread : readDigits (digitToks e.digits ++ r) = (e.digits, r) :=
        readDigits_iff.mpr ⟨rfl, hdigit (by simp)⟩
      rw [expToks, List.cons_append, List.append_assoc, readExp, (readDigits_exp e r).1]
      dsimp only
      rw [hread, dif_pos e.digits_ne]

theorem NoDigit.frac (h : NoDigit r) : NoDigit (fracToks f ++ r) := by
  cases f with
  | none => exact h
  | some ds => exact fun d => by simp [fracToks]

theorem NoDigit.exp (h : NoDigit r) : NoDigit (expToks e ++ r) := by
  cases e with
  | none => exact h
  | some e => exact fun d => by simp [expToks]

theorem read_sound {n : Numeral} (h : read s = some (n, r)) : s = n.toks ++ r ∧ n.Ends r := by
  unfold read at h
  obtain ⟨g, s1, hsign⟩ : ∃ g s1, readSign s = (g, s1) := ⟨_, _, Prod.mk.eta.symm⟩
  obtain ⟨int, s2, hint⟩ : ∃ int s2, readDigits s1 = (int, s2) := ⟨_, _, Prod.mk.eta.symm⟩
  obtain ⟨f, s3, hfrac⟩ : ∃ f s3, readFrac s2 = (f, s3) := ⟨_, _, Prod.mk.eta.symm⟩
  obtain ⟨e, s4, hexp⟩ : ∃ e s4, readExp s3 = (e, s4) := ⟨_, _, Prod.mk.eta.symm⟩
  simp only [hsign, hint, hfrac, hexp] at h
  split_ifs at h
  cases h
  obtain ⟨rfl, -⟩ := readSign_iff.mp hsign
  obtain ⟨rfl, hbehind⟩ := readDigits_iff.mp hint
  obtain ⟨rfl, hpoint, hbehind'⟩ := readFrac_iff.mp hfrac
  obtain ⟨rfl, hnone, hend⟩ := readExp_iff.mp hexp
  refine ⟨by simp only [Numeral.toks, List.append_assoc], ?_, ?_, hnone⟩
  · cases e with
    | some e => exact hend (by simp)
    | none =>
      cases f with
      | some ds => exact hbehind' (by simp)
      | none => exact hbehind
  · rintro rfl rfl
    exact hpoint rfl

theorem Numeral.noSign (n : Numeral) :
    NoSign (digitToks n.int ++ (fracToks n.frac ++ r)) := by
  by_cases hint : n.int = []
  · have hne := n.digits_ne
    rw [hint] at hne ⊢
    cases hfrac : n.frac with
    | none => exact absurd (by rw [hfrac]; rfl) hne
    | some ds => exact ⟨by simp [digitToks, fracToks], by simp [digitToks, fracToks]⟩
  · exact noSign_digits hint

theorem Numeral.Ends.read_toks {n : Numeral} (h : n.Ends r) : read (n.toks ++ r) = some (n, r) := by
  have hsign : readSign (n.toks ++ r) =
      (n.sign, digitToks n.int ++ (fracToks n.frac ++ (expToks n.exp ++ r))) :=
    readSign_iff.mpr ⟨by simp only [Numeral.toks, List.append_assoc], fun _ => n.noSign⟩
  have hint : readDigits (digitToks n.int ++ (fracToks n.frac ++ (expToks n.exp ++ r))) =
      (n.int, fracToks n.frac ++ (expToks n.exp ++ r)) :=
    readDigits_iff.mpr ⟨rfl, h.digit.exp.frac⟩
  have hfrac : readFrac (fracToks n.frac ++ (expToks n.exp ++ r)) =
      (n.frac, expToks n.exp ++ r) := by
    refine readFrac_iff.mpr ⟨rfl, fun hnone => ?_, fun _ => h.digit.exp⟩
    cases hexp : n.exp with
    | none => exact h.point hnone hexp
    | some e => simp [NoPoint, expToks]
  have hexp : readExp (expToks n.exp ++ r) = (n.exp, r) :=
    readExp_iff.mpr ⟨rfl, h.exp, fun _ => h.digit⟩
  unfold read
  simp only [hsign, hint, hfrac, hexp]
  exact dif_pos n.digits_ne

/-- **A text is read as the numeral that it starts with.** -/
theorem read_eq_some_iff {n : Numeral} : read s = some (n, r) ↔ s = n.toks ++ r ∧ n.Ends r := by
  constructor
  · exact read_sound
  · rintro ⟨rfl, h⟩
    exact h.read_toks

end Decimal
