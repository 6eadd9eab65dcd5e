import Mathlib.Data.List.TakeWhile
import Sasat.Conf.Fgets

/-!
# The fields of a policy line

`parse_policy_line` cuts a line at its commas and copies three parts to the array `ip`. It takes the
family of an address from the characters of its text, before `inet_pton` reads it.

* `InetPton`: `inet_pton`, a parameter, with what its manual says of the texts that it takes.
* `getFamily`, `splitLoop`: the quick test and the loop of `pol_tbl.c`.
* `fields`: the fields of a line. `AllFit`, `Dropped`: the loop can copy them, it refuses one.
* **`splitLoop_ends`**: the three ends of the loop, over the fields.
* `getFamily_v4`, `getFamily_v6`: the quick test is right about addresses.
* `dottedQuad`: `inet_pton` for IPv4.
-/

namespace Sasat

def comma : Byte := 44

def dot : Byte := 46

def colon : Byte := 58

def isDigit (c : Byte) : Bool := 48 ≤ c && c ≤ 57

/-- `isblank`: space and tab. -/
def isBlank (c : Byte) : Bool := c = 32 || c = 9

/-- `inet_pton`: the texts that are addresses. IPv4 addresses are four numbers of at most three
digits; IPv6 addresses are shorter than `INET6_ADDRSTRLEN`. -/
structure InetPton where
  v4 : List Byte → Option InAddr
  v6 : List Byte → Option In6Addr
  dotted : ∀ s a, v4 s = some a →
    s.length < 16 ∧ (∀ c ∈ s, isDigit c ∨ c = dot) ∧ s.count dot = 3
  colons : ∀ s a, v6 s = some a → s.length < 46 ∧ colon ∈ s

/-! ## The loop -/

/-- `sa_family_t`. -/
inductive Af
  | unspec | inet | inet6
  deriving DecidableEq

/-- The loop of `get_family`, with the number of dots so far. -/
def familyLoop : ℕ → List Byte → Af
  | _, [] => .inet
  | i, c :: s =>
    if isDigit c then familyLoop i s
    else if c = dot ∧ i + 1 ≤ 3 then familyLoop (i + 1) s
    else if c = newline then .inet
    else .unspec

/-- `get_family`. -/
def getFamily (p : List Byte) : Af := if colon ∈ p then .inet6 else familyLoop 0 p

def maxPart : ℕ := 3

def partSize : ℕ := 64

/-- The string at `off` in the array `ip`. -/
def cstr (ip : Buf) (off : ℕ) : List Byte :=
  (slice ip off (maxPart * partSize - off)).takeWhile (· ≠ 0)

/-- What the loop of `parse_policy_line` ends with. -/
inductive Split
  | overrun
  | ignored
  | parts (family : Af) (ip : Buf)

/-- A part without the blanks before it and what comes behind the next blank. -/
def trim (p : List Byte) : List Byte := (p.dropWhile isBlank).takeWhile fun c => !isBlank c

/-- `strchr` for a comma that is overwritten with NUL: the text before it, and the one behind it. -/
def cut (buff : List Byte) : List Byte × Option (List Byte) :=
  (buff.takeWhile (· ≠ comma), match buff.dropWhile (· ≠ comma) with
    | [] => none
    | _ :: s => some s)

/-- The loop of `parse_policy_line` for the parts of the given numbers. The array `ip` has no room
behind its last part. -/
def splitLoop : List ℕ → Option (List Byte) → Af → Buf → Split
  | [], _, family, ip => .parts family ip
  | _ :: _, none, family, ip => .parts family ip
  | i :: is, some buff, family, ip =>
    let (dp, rest) := cut buff
    let part := trim dp
    if maxPart * partSize < partSize * i + part.length + 1 then .overrun
    else
      let ip := store ip (partSize * i) (part ++ [0]).get
      let fam := getFamily (cstr ip (partSize * i))
      if fam = .unspec then .ignored
      else if i = 0 then splitLoop is rest fam ip
      else if family ≠ fam then .ignored
      else splitLoop is rest family ip

/-- The string in `buff`, up to the newline. -/
def text (buff : List Byte) : List Byte := (buff.takeWhile (· ≠ 0)).takeWhile (· ≠ newline)

/-- Part `i` of the array `ip`. -/
def ipPart (ip : Buf) (i : ℕ) : List Byte := cstr ip (partSize * i)

def fields (buff : List Byte) : List (List Byte) :=
  (((text buff).splitOn comma).take maxPart).map trim

/-- Part `i` fits in the array `ip`, its NUL included. -/
def Fits (i : ℕ) (p : List Byte) : Prop := partSize * i + p.length < maxPart * partSize

instance (i : ℕ) (p : List Byte) : Decidable (Fits i p) := inferInstanceAs (Decidable (_ < _))

/-- The parts from number `i` on fit. -/
def AllFit (i : ℕ) (ps : List (List Byte)) : Prop := ∀ j p, ps[j]? = some p → Fits (i + j) p

/-- One of the parts from number `i` on is not of family `f`, by its characters, and it fits as all
parts before it do. -/
def Dropped (f : Af) (i : ℕ) (ps : List (List Byte)) : Prop :=
  ∃ k p, ps[k]? = some p ∧ (∀ j q, j ≤ k → ps[j]? = some q → Fits (i + j) q) ∧
    (getFamily p = .unspec ∨ f ≠ getFamily p)

section

variable {p l s buff : List Byte} {ps : List (List Byte)} {i k : ℕ} {f family : Af} {ip : Buf}

/-! ## Texts -/

theorem cut_cases (buff : List Byte) :
    (cut buff = (buff, none) ∧ buff.splitOn comma = [buff]) ∨
      ∃ l s, cut buff = (l, some s) ∧ buff.splitOn comma = l :: s.splitOn comma := by
  rcases Lines.lines_cases comma buff with h | ⟨l, s, rfl, h⟩
  · refine Or.inl ⟨?_, List.splitOn_eq_singleton h⟩
    rw [cut, Lines.takeWhile_self h, Lines.dropWhile_self h]
  · refine Or.inr ⟨l, s, ?_, List.splitOn_append_cons_self_of_not_mem h s⟩
    rw [cut, Lines.takeWhile_terminated h, Lines.dropWhile_terminated h]

theorem mem_of_mem_trim {c : Byte} (h : c ∈ trim p) : c ∈ p :=
  (List.dropWhile_suffix _).subset ((List.takeWhile_prefix _).subset h)

theorem mem_of_mem_splitOn {c : Byte} (hp : p ∈ buff.splitOn comma) (h : c ∈ p) : c ∈ buff := by
  have hjoin := @List.intercalate_splitOn _ buff _ _ comma
  obtain ⟨i, hi⟩ := List.mem_iff_getElem?.mp hp
  rw [← hjoin, List.intercalate]
  exact List.mem_flatten.mpr ⟨p, List.mem_of_getElem? (i := 2 * i) (by simpa using hi), h⟩

theorem zero_notMem_fields (hp : p ∈ fields buff) : 0 ∉ p := by
  obtain ⟨q, hq, rfl⟩ := List.mem_map.mp hp
  intro h0
  have htext := mem_of_mem_splitOn ((List.take_prefix _ _).subset hq) (mem_of_mem_trim h0)
  have h := List.mem_takeWhile_imp ((List.takeWhile_prefix _).subset htext)
  exact absurd rfl (of_decide_eq_true h)

/-! ## The array -/

theorem slice_strcpy (ip : Buf) (off : ℕ) (p : List Byte) :
    slice (store ip off (p ++ [0]).get) off (p.length + 1) = p ++ [0] := by
  have hlen : p.length + 1 = (p ++ [0]).length := by rw [List.length_append, List.length_singleton]
  exact (congrArg (slice _ _) hlen).trans (slice_store_self ip off _)

theorem cstr_eq {off : ℕ} (h : slice ip off (p.length + 1) = p ++ [0]) (h0 : 0 ∉ p)
    (hfit : off + p.length < maxPart * partSize) : cstr ip off = p := by
  have hlen : maxPart * partSize - off =
      (p.length + 1) + (maxPart * partSize - off - (p.length + 1)) := by omega
  rw [cstr, hlen, slice_add, h, List.append_assoc]
  exact Lines.takeWhile_terminated h0 _

/-- The array after the parts from number `i` on have been copied. -/
def copyParts : ℕ → List (List Byte) → Buf → Buf
  | _, [], ip => ip
  | i, p :: ps, ip => copyParts (i + 1) ps (store ip (partSize * i) (p ++ [0]).get)

theorem copyParts_apply : ∀ {ps : List (List Byte)} {i : ℕ} {ip : Buf} {x : ℕ},
    x < partSize * i → copyParts i ps ip x = ip x
  | [], _, _, _, _ => rfl
  | p :: ps, i, ip, x, hx => by
    have hx' : x < partSize * (i + 1) := hx.trans_le (Nat.mul_le_mul_left _ (Nat.le_succ i))
    rw [copyParts, copyParts_apply hx', store_apply_of_not ip _ (Or.inl hx)]

theorem ipPart_copyParts : ∀ {ps : List (List Byte)} {i : ℕ} {ip : Buf},
    (∀ p ∈ ps, p.length < partSize ∧ 0 ∉ p) → i + ps.length ≤ maxPart →
      ∀ k p, ps[k]? = some p → ipPart (copyParts i ps ip) (i + k) = p
  | [], _, _, _, _, _, _, h => by simp at h
  | p :: ps, i, ip, hps, hlen, 0, q, h => by
    obtain rfl : p = q := by simpa using h
    obtain ⟨hlt, h0⟩ := hps p List.mem_cons_self
    rw [List.length_cons] at hlen
    have hroom : partSize * i + p.length < partSize * (i + 1) := by
      rw [Nat.mul_succ]
      omega
    have hend : partSize * (i + 1) ≤ maxPart * partSize := by
      rw [Nat.mul_comm maxPart]
      exact Nat.mul_le_mul_left _ (by omega)
    refine cstr_eq ?_ h0 (hroom.trans_le hend)
    have hbelow : ∀ j < p.length + 1, partSize * i + j < partSize * (i + 1) := fun j hj => by omega
    refine (frame_congr.mpr fun j hj => ?_).trans (slice_strcpy ip (partSize * i) p)
    exact copyParts_apply (hbelow j hj)
  | p :: ps, i, ip, hps, hlen, k + 1, q, h => by
    rw [List.length_cons] at hlen
    rw [copyParts, ← Nat.add_assoc, Nat.add_right_comm]
    exact ipPart_copyParts (fun q hq => hps q (List.mem_cons_of_mem _ hq)) (by omega) k q
      (by simpa using h)

/-! ## The ends of the loop -/

theorem allFit_cons : AllFit i (p :: ps) ↔ Fits i p ∧ AllFit (i + 1) ps := by
  constructor
  · intro h
    refine ⟨h 0 p rfl, fun j q hq => ?_⟩
    rw [Nat.succ_add_eq_add_succ]
    exact h (j + 1) q hq
  · rintro ⟨hp, hps⟩ (_ | j) q hq
    · cases hq
      exact hp
    · rw [← Nat.succ_add_eq_add_succ]
      exact hps j q hq

theorem dropped_cons : Dropped f i (p :: ps) ↔
    Fits i p ∧ ((getFamily p = .unspec ∨ f ≠ getFamily p) ∨ Dropped f (i + 1) ps) := by
  constructor
  · rintro ⟨k, q, hq, hfit, hbad⟩
    refine ⟨hfit 0 p (Nat.zero_le k) rfl, ?_⟩
    cases k with
    | zero =>
      cases hq
      exact Or.inl hbad
    | succ k =>
      refine Or.inr ⟨k, q, hq, fun j r hj hr => ?_, hbad⟩
      rw [Nat.succ_add_eq_add_succ]
      exact hfit (j + 1) r (Nat.succ_le_succ hj) hr
  · rintro ⟨hp, hbad | ⟨k, q, hq, hfit, hbad⟩⟩
    · refine ⟨0, p, rfl, fun j r hj hr => ?_, hbad⟩
      obtain rfl := Nat.le_zero.mp hj
      cases hr
      exact hp
    · refine ⟨k + 1, q, hq, ?_, hbad⟩
      rintro (_ | j) r hj hr
      · cases hr
        exact hp
      · rw [← Nat.succ_add_eq_add_succ]
        exact hfit j r (Nat.le_of_succ_le_succ hj) hr

theorem not_dropped_nil : ¬ Dropped f i [] := by
  rintro ⟨k, p, h, -⟩
  simp at h

theorem splitLoop_none (is : List ℕ) : splitLoop is none family ip = .parts family ip := by
  cases is <;> rfl

theorem splitLoop_cons {is : List ℕ} {rest : Option (List Byte)} (hcut : cut buff = (l, rest))
    (h0 : 0 ∉ trim l) (hi : 0 < i → family = f) (hfirst : i = 0 → getFamily (trim l) = f) :
    splitLoop (i :: is) (some buff) family ip =
      if maxPart * partSize < partSize * i + (trim l).length + 1 then .overrun
      else if getFamily (trim l) = .unspec ∨ f ≠ getFamily (trim l) then .ignored
      else splitLoop is rest f (store ip (partSize * i) (trim l ++ [0]).get) := by
  rw [splitLoop, hcut]
  dsimp only
  by_cases hroom : maxPart * partSize < partSize * i + (trim l).length + 1
  · rw [if_pos hroom, if_pos hroom]
  · rw [if_neg hroom, if_neg hroom,
      cstr_eq (slice_strcpy ip (partSize * i) (trim l)) h0 (by omega)]
    by_cases hzero : i = 0
    · rw [hfirst hzero, if_pos hzero]
      simp
    · rw [hi (Nat.pos_of_ne_zero hzero), if_neg hzero]
      split_ifs <;> simp_all

/-- The three ends of the loop, for the parts `ps` from number `i` on. -/
def Ends (f : Af) (i : ℕ) (ps : List (List Byte)) (ip : Buf) (r : Split) : Prop :=
  (r = .overrun ∧ ¬ AllFit i ps ∧ ¬ Dropped f i ps) ∨
  (r = .ignored ∧ Dropped f i ps) ∨
  (r = .parts f (copyParts i ps ip) ∧ AllFit i ps ∧ ¬ Dropped f i ps)

def takeParts (k : ℕ) (s : List Byte) : List (List Byte) := ((s.splitOn comma).take k).map trim

theorem Ends.nil (f : Af) (i : ℕ) (ip : Buf) : Ends f i [] ip (.parts f ip) :=
  Or.inr (Or.inr ⟨rfl, fun j p h => by simp at h, not_dropped_nil⟩)

theorem Ends.cons {r : Split} (hfit : Fits i p) (hp : ¬ (getFamily p = .unspec ∨ f ≠ getFamily p))
    (h : Ends f (i + 1) ps (store ip (partSize * i) (p ++ [0]).get) r) :
    Ends f i (p :: ps) ip r := by
  unfold Ends
  rw [allFit_cons, dropped_cons, and_iff_right hfit, and_iff_right hfit, or_iff_right hp]
  exact h

/-- **The loop copies the fields**, unless it comes to a field that is ignored or runs over. -/
theorem splitLoop_ends : ∀ {k i : ℕ} {buff : List Byte} {family : Af} {ip : Buf},
    0 < i + k → (0 < i → family = f) → (∀ p ∈ takeParts k buff, 0 ∉ p) →
      (i = 0 → ∀ p, (takeParts k buff).head? = some p → getFamily p = f) →
        Ends f i (takeParts k buff) ip (splitLoop (List.range' i k) (some buff) family ip)
  | 0, i, buff, family, ip, hik, hi, _, _ => by
    rw [hi hik]
    exact Ends.nil f i ip
  | k + 1, i, buff, family, ip, _, hi, h0, hhead => by
    obtain ⟨l, rest, hcut, hparts⟩ : ∃ l rest, cut buff = (l, rest) ∧
        takeParts (k + 1) buff = trim l :: rest.elim [] (takeParts k) := by
      rcases cut_cases buff with ⟨hcut, hsplit⟩ | ⟨l, s, hcut, hsplit⟩
      · exact ⟨buff, none, hcut, by simp [takeParts, hsplit]⟩
      · exact ⟨l, some s, hcut, by simp [takeParts, hsplit]⟩
    rw [hparts] at h0 hhead ⊢
    rw [List.range'_succ, splitLoop_cons hcut (h0 _ List.mem_cons_self) hi
      fun hzero => hhead hzero _ rfl]
    have hfits : ¬ maxPart * partSize < partSize * i + (trim l).length + 1 ↔ Fits i (trim l) := by
      unfold Fits
      omega
    split_ifs with hroom hbad
    · have hno : ¬ Fits i (trim l) := fun h => hfits.mpr h hroom
      exact Or.inl ⟨rfl, fun h => hno (allFit_cons.mp h).1, fun h => hno (dropped_cons.mp h).1⟩
    · exact Or.inr (Or.inl ⟨rfl, dropped_cons.mpr ⟨hfits.mp hroom, Or.inl hbad⟩⟩)
    · refine Ends.cons (hfits.mp hroom) hbad ?_
      cases rest with
      | none =>
        rw [splitLoop_none]
        exact Ends.nil f _ _
      | some s =>
        exact splitLoop_ends (by omega) (fun _ => rfl)
          (fun p hp => h0 p (List.mem_cons_of_mem _ hp)) fun h => absurd h (Nat.succ_ne_zero i)

theorem fields_eq_cons (buff : List Byte) : ∃ p ps, fields buff = p :: ps := by
  refine List.exists_cons_of_ne_nil fun h => ?_
  have hlen := congrArg List.length h
  have hpos := List.length_pos_of_ne_nil (List.splitOn_ne_nil comma (text buff))
  rw [fields, List.length_map, List.length_take, List.length_nil, maxPart] at hlen
  omega

/-! ## Families -/

theorem familyLoop_dotted : ∀ {p : List Byte} {i : ℕ}, (∀ c ∈ p, isDigit c ∨ c = dot) →
    i + p.count dot ≤ 3 → familyLoop i p = .inet
  | [], _, _, _ => rfl
  | c :: p, i, hp, hdots => by
    have hp' : ∀ d ∈ p, isDigit d ∨ d = dot := fun d hd => hp d (List.mem_cons_of_mem _ hd)
    rw [familyLoop]
    by_cases hc : isDigit c
    · rw [if_pos hc]
      exact familyLoop_dotted hp' ((Nat.add_le_add_left List.count_le_count_cons i).trans hdots)
    · obtain rfl := (hp c List.mem_cons_self).resolve_left hc
      rw [List.count_cons_self] at hdots
      rw [if_neg hc, if_pos ⟨rfl, by omega⟩]
      exact familyLoop_dotted hp' (by omega)

theorem getFamily_v4 {pton : InetPton} {a : InAddr} (h : pton.v4 p = some a) :
    getFamily p = .inet ∧ p.length < partSize := by
  obtain ⟨hlen, hchars, hdots⟩ := pton.dotted p a h
  refine ⟨?_, hlen.trans (by decide)⟩
  have hcolon : colon ∉ p := by
    intro hc
    have := hchars colon hc
    revert this
    decide
  rw [getFamily, if_neg hcolon]
  exact familyLoop_dotted hchars (by omega)

theorem getFamily_v6 {pton : InetPton} {a : In6Addr} (h : pton.v6 p = some a) :
    getFamily p = .inet6 ∧ p.length < partSize := by
  obtain ⟨hlen, hcolon⟩ := pton.colons p a h
  exact ⟨if_pos hcolon, hlen.trans (by decide)⟩

end

/-! ## Dotted decimal -/

/-- A decimal number below 256, of at most three digits and without leading zeros. -/
def octet (p : List Byte) : Option Byte :=
  let k := p.foldl (fun k c => 10 * k + (c.toNat - 48)) 0
  if p.all isDigit ∧ p ≠ [] ∧ p.length ≤ 3 ∧ (p.head? = some 48 → p.length = 1) ∧ k < 256 then
    some (BitVec.ofNat 8 k)
  else none

/-- `inet_pton` for `AF_INET`. -/
def dottedQuad (p : List Byte) : Option InAddr :=
  match (p.splitOn dot).map octet with
  | [some a, some b, some c, some d] => some ![a, b, c, d]
  | _ => none

theorem octet_some {p : List Byte} {b : Byte} (h : octet p = some b) :
    (∀ c ∈ p, isDigit c) ∧ p.length ≤ 3 := by
  rw [octet] at h
  split_ifs at h with hc
  exact ⟨List.all_eq_true.mp hc.1, hc.2.2.1⟩

theorem octet_count {p : List Byte} {b : Byte} (h : octet p = some b) : p.count dot = 0 := by
  refine List.count_eq_zero.mpr fun hdot => ?_
  have := (octet_some h).1 dot hdot
  revert this
  decide

theorem dottedQuad_dotted (p : List Byte) (a : InAddr) (h : dottedQuad p = some a) :
    p.length < 16 ∧ (∀ c ∈ p, isDigit c ∨ c = dot) ∧ p.count dot = 3 := by
  unfold dottedQuad at h
  split at h
  case h_2 => cases h
  case h_1 x a b c d hx =>
    obtain ⟨p₁, p₂, p₃, p₄, hsplit, h₁, h₂, h₃, h₄⟩ : ∃ p₁ p₂ p₃ p₄,
        p.splitOn dot = [p₁, p₂, p₃, p₄] ∧ octet p₁ = some a ∧ octet p₂ = some b ∧
          octet p₃ = some c ∧ octet p₄ = some d := by
      simpa [List.map_eq_cons_iff] using hx
    have hp : p = p₁ ++ dot :: (p₂ ++ dot :: (p₃ ++ dot :: p₄)) := by
      rw [← @List.intercalate_splitOn _ p _ _ dot, hsplit]
      simp [List.intercalate]
    have hdigit : ∀ q w, octet q = some w → ∀ c ∈ q, isDigit c ∨ c = dot :=
      fun q w hq c hc => Or.inl ((octet_some hq).1 c hc)
    rw [hp]
    refine ⟨?_, ?_, ?_⟩
    · have := (octet_some h₁).2
      have := (octet_some h₂).2
      have := (octet_some h₃).2
      have := (octet_some h₄).2
      simp only [List.length_append, List.length_cons]
      omega
    · simp only [List.forall_mem_append, List.forall_mem_cons, or_true, true_and]
      exact ⟨hdigit _ _ h₁, hdigit _ _ h₂, hdigit _ _ h₃, hdigit _ _ h₄⟩
    · simp [octet_count h₁, octet_count h₂, octet_count h₃, octet_count h₄]

/-- The C library for IPv4 texts; it takes no others. -/
def ptonV4 : InetPton where
  v4 := dottedQuad
  v6 _ := none
  dotted := dottedQuad_dotted
  colons _ _ h := by cases h

end Sasat
