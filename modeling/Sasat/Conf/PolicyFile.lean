import Sasat.Conf.PolicyLine

/-!
# The policy file

`get_policy` on the bytes of a file: the lines that `fgets` gives to `parse_policy`, one after the
other. Where every line is handled as its text demands, the tables are those of the lines that the
texts stand for.

* `Call`: what a call of `parse_policy_line` depends on besides its line.
* `parseLines`, `readPolicy`: `parse_policy` with its line parser.
* `policyLine`, `policyLines`: the policies that texts stand for.
* `parseLine_load`, **`parseLines_load`**, **`readPolicy_load`**: they are loaded.
-/

namespace Sasat

/-- What a call of `parse_policy_line` finds in the variables that are not filled, and what the
resolution of MAC addresses ends with. -/
structure Call where
  junk4 : Fin 3 → InAddr
  junk6 : Fin 3 → In6Addr
  outcomes : MacOutcomes

/-- The calls that `parse_policy` makes of `parse_policy_line`. -/
def parseLines (pton : InetPton) : (ℕ → Call) → List (List Byte) → FrontState →
    Option (M FrontState)
  | _, [], s => some (.ok s)
  | c, l :: ls, s =>
    match parsePolicyLine pton (c 0).junk4 (c 0).junk6 (c 0).outcomes l s with
    | some (.ok s) => parseLines pton (fun k => c (k + 1)) ls s
    | r => r

/-- `parse_policy`, for at most `k` turns. -/
def readPolicy (pton : InetPton) (stale : ℕ → List Byte) (c : ℕ → Call) (k : ℕ) (file : File)
    (s : FrontState) : Option (M FrontState) :=
  match parsePolicy stale k file with
  | .ok ls => parseLines pton c ls s
  | .error e => some (.error e)

/-! ## The policies of a file -/

section

variable {n : ℕ}

def policyLine (accept : List Byte → Option (Fin n → Byte)) (enable : Bool) (o : MacOutcomes)
    (buff : List Byte) : Option (PolicyLine n) :=
  match (fields buff).map accept with
  | [some a, some m, some v] => if enable then some ⟨a, m, v, o⟩ else none
  | _ => none

def policyLines (accept : List Byte → Option (Fin n → Byte)) (enable : Bool) :
    (ℕ → Call) → List (List Byte) → List (PolicyLine n)
  | _, [] => []
  | c, l :: ls => (policyLine accept enable (c 0).outcomes l).toList ++
      policyLines accept enable (fun k => c (k + 1)) ls

variable {accept : List Byte → Option (Fin n → Byte)} {enable : Bool} {buff : List Byte}

theorem Good.policyLine {a m v : Fin n → Byte} (h : Good accept enable buff a m v)
    (o : MacOutcomes) : policyLine accept enable o buff = some ⟨a, m, v, o⟩ := by
  rw [Sasat.policyLine, h.addrs, h.enabled]
  rfl

theorem policyLine_none (h : ∀ a m v, ¬ Good accept enable buff a m v) (o : MacOutcomes) :
    policyLine accept enable o buff = none := by
  unfold policyLine
  split
  · rename_i a m v heq
    exact if_neg fun hen => h a m v ⟨hen, heq⟩
  · rfl

end

/-- The parser does with the line what its text demands. -/
def Proper (pton : InetPton) (i : Ifdata) (buff : List Byte) : Prop :=
  (∃ a m v, Good pton.v4 i.v4Enable buff a m v) ∨ (∃ a m v, Good pton.v6 i.v6Enable buff a m v) ∨
    Ignored i (fields buff)

section

variable {pton : InetPton} {s : FrontState} {buff : List Byte} {i : Ifdata}

theorem Good.not_both {a m v : InAddr} {a' m' v' : In6Addr} {e e' : Bool}
    (h : Good pton.v4 e buff a m v) : ¬ Good pton.v6 e' buff a' m' v' := by
  intro h'
  obtain ⟨p, ps, hp⟩ := fields_eq_cons buff
  have hmem : p ∈ fields buff := hp ▸ List.mem_cons_self
  have h4 := (h.parts fun _ _ => getFamily_v4).2 p hmem
  have h6 := (h'.parts fun _ _ => getFamily_v6).2 p hmem
  exact absurd (h4.1.symm.trans h6.1) (by decide)

theorem parseLine_load (h4 : Live s.lb4) (h6 : Live s.lb6)
    (h : Proper pton s.ifIngress buff) (c : Call) : ∃ lb4 lb6,
      parsePolicyLine pton c.junk4 c.junk6 c.outcomes buff s =
        some (.ok { s with lb4 := lb4, lb6 := lb6 }) ∧ Live lb4 ∧ Live lb6 ∧
      getPolicy (policyLine pton.v4 s.ifIngress.v4Enable c.outcomes buff).toList s.lb4 = .ok lb4 ∧
      getPolicy (policyLine pton.v6 s.ifIngress.v6Enable c.outcomes buff).toList s.lb6 =
        .ok lb6 := by
  have hone : ∀ {n : ℕ} {D : Type} {t t' : PolSide n D} {l : PolicyLine n},
      loadLine t l = .ok t' → getPolicy (some l).toList t = .ok t' := by
    intro n D t t' l hload
    rw [Option.toList_some, getPolicy, List.foldlM_cons, hload]
    rfl
  rcases h with ⟨a, m, v, hg⟩ | ⟨a, m, v, hg⟩ | hign
  · obtain ⟨lb4, hload, hrun, hlive, -⟩ := hg.load4 h4 c.junk4 c.junk6 c.outcomes
    refine ⟨lb4, s.lb6, hrun, hlive, h6, ?_, ?_⟩
    · rw [hg.policyLine]
      exact hone hload
    · rw [policyLine_none fun _ _ _ => hg.not_both]
      rfl
  · obtain ⟨lb6, hload, hrun, hlive, -⟩ := hg.load6 h6 c.junk4 c.junk6 c.outcomes
    refine ⟨s.lb4, lb6, hrun, h4, hlive, ?_, ?_⟩
    · rw [policyLine_none fun _ _ _ hg' => hg'.not_both hg]
      rfl
    · rw [hg.policyLine]
      exact hone hload
  · refine ⟨s.lb4, s.lb6, parsePolicyLine_ignored hign, h4, h6, ?_, ?_⟩
    · rw [policyLine_none fun a m v hg => hg.not_ignored (fun _ _ => getFamily_v4) (by decide)
        (not_disabled_inet hg.enabled) hign]
      rfl
    · rw [policyLine_none fun a m v hg => hg.not_ignored (fun _ _ => getFamily_v6) (by decide)
        (not_disabled_inet6 hg.enabled) hign]
      rfl

theorem getPolicy_append {n : ℕ} {D : Type} (ls ls' : List (PolicyLine n)) {t t' : PolSide n D}
    (h : getPolicy ls t = .ok t') : getPolicy (ls ++ ls') t = getPolicy ls' t' := by
  rw [getPolicy] at h
  rw [getPolicy, List.foldlM_append, h]
  rfl

/-- **The lines load the policies that they stand for.** -/
theorem parseLines_load : ∀ {ls : List (List Byte)} {c : ℕ → Call} {s : FrontState},
    Live s.lb4 → Live s.lb6 → (∀ l ∈ ls, Proper pton s.ifIngress l) → ∃ lb4 lb6,
      parseLines pton c ls s = some (.ok { s with lb4 := lb4, lb6 := lb6 }) ∧
      getPolicy (policyLines pton.v4 s.ifIngress.v4Enable c ls) s.lb4 = .ok lb4 ∧
      getPolicy (policyLines pton.v6 s.ifIngress.v6Enable c ls) s.lb6 = .ok lb6
  | [], _, s, _, _, _ => ⟨s.lb4, s.lb6, rfl, rfl, rfl⟩
  | l :: ls, c, s, h4, h6, h => by
    obtain ⟨lb4, lb6, hrun, hlive4, hlive6, hload4, hload6⟩ :=
      parseLine_load h4 h6 (h l List.mem_cons_self) (c 0)
    obtain ⟨lb4', lb6', hrun', hload4', hload6'⟩ :=
      @parseLines_load ls (fun k => c (k + 1)) { s with lb4 := lb4, lb6 := lb6 } hlive4 hlive6
        fun l hl => h l (List.mem_cons_of_mem _ hl)
    refine ⟨lb4', lb6', ?_, ?_, ?_⟩
    · rw [parseLines, hrun]
      exact hrun'
    · rw [policyLines, getPolicy_append _ _ hload4]
      exact hload4'
    · rw [policyLines, getPolicy_append _ _ hload6]
      exact hload6'

/-- **A file loads the policies that its lines stand for**: those that end with a newline and that
the parser handles properly. -/
theorem readPolicy_load (h4 : Live s.lb4) (h6 : Live s.lb6) (bytes : List Byte)
    (stale : ℕ → List Byte) (c : ℕ → Call)
    (hlen : ∀ l ∈ Lines.lines newline bytes, l.length < 256)
    (h : ∀ l ∈ givenLines 256 skipPolicy bytes, Proper pton s.ifIngress l) : ∃ k lb4 lb6,
      readPolicy pton stale c k (fopen bytes false) s =
        some (.ok { s with lb4 := lb4, lb6 := lb6 }) ∧
      rules lb4 = rules s.lb4 ++ (policyLines pton.v4 s.ifIngress.v4Enable c
        (givenLines 256 skipPolicy bytes)).map (fun l => some l.rule) ∧
      rules lb6 = rules s.lb6 ++ (policyLines pton.v6 s.ifIngress.v6Enable c
        (givenLines 256 skipPolicy bytes)).map (fun l => some l.rule) := by
  obtain ⟨k, hk⟩ := (@readLoop_iff 256 skipPolicy stale (fopen bytes false) (by decide) rfl hlen
    (givenLines 256 skipPolicy bytes)).mpr ⟨rfl, rfl⟩
  obtain ⟨lb4, lb6, hrun, hload4, hload6⟩ := @parseLines_load pton _ c s h4 h6 h
  refine ⟨k, lb4, lb6, ?_, ?_, ?_⟩
  · have hfile : parsePolicy stale k (fopen bytes false) = .ok (givenLines 256 skipPolicy bytes) :=
      hk
    rw [readPolicy, hfile]
    exact hrun
  · obtain ⟨lb, hlb, -, hrules, -⟩ := getPolicy_spec (policyLines pton.v4 s.ifIngress.v4Enable c
      (givenLines 256 skipPolicy bytes)) h4
    obtain rfl := Except.ok.inj (hlb.symm.trans hload4)
    exact hrules
  · obtain ⟨lb, hlb, -, hrules, -⟩ := getPolicy_spec (policyLines pton.v6 s.ifIngress.v6Enable c
      (givenLines 256 skipPolicy bytes)) h6
    obtain rfl := Except.ok.inj (hlb.symm.trans hload6)
    exact hrules

end

end Sasat
