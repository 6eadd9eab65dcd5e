import Sasat.Conf.PolicyText
import Sasat.Front.Front

/-!
# The lines of the policy file

Nobody asks `inet_pton` whether a part of the line is an address: the variables that it does not
fill are used as they are.

* `parsePolicyLine`: `parse_policy_line`, `Parsing`: the tables while a file is read.
* `Good`, `Appended`, `Contract`: what a line means and what it has to do.
* `loadLine_appended`: a policy comes behind the others.
* `parsePolicyLine_ends`: the three ends of `parse_policy_line`.
* `Good.load4`, `Good.load6`: a good line adds its policy.
* **`parsePolicyLine_iff`**: the lines that are handled as their text demands.
-/

namespace Sasat

/-- The line that `get_svr_table` and `create_policy_table` make of the parts. A variable that
`inet_pton` does not fill keeps its `junk`. -/
def lineOf {n : ℕ} (pton : List Byte → Option (Fin n → Byte)) (junk : Fin 3 → Fin n → Byte)
    (o : MacOutcomes) (ip : Buf) : PolicyLine n where
  saddr := (pton (ipPart ip 0)).getD (junk 0)
  netmask := (pton (ipPart ip 1)).getD (junk 1)
  svr := (pton (ipPart ip 2)).getD (junk 2)
  outcomes := o

/-- The end of `parse_policy_line`: `get_svr_table` and `create_policy_table`. -/
def loadParts (pton : InetPton) (junk4 : Fin 3 → InAddr) (junk6 : Fin 3 → In6Addr)
    (o : MacOutcomes) (family : Af) (ip : Buf) (s : FrontState) : M FrontState :=
  if family = .inet then do
    let lb4 ← loadLine s.lb4 (lineOf pton.v4 junk4 o ip)
    .ok { s with lb4 := lb4 }
  else do
    let lb6 ← loadLine s.lb6 (lineOf pton.v6 junk6 o ip)
    .ok { s with lb6 := lb6 }

/-- The interface has no addresses of the family. -/
def Disabled (i : Ifdata) (f : Af) : Prop :=
  (f = .inet ∧ i.v4Enable = false) ∨ (f = .inet6 ∧ i.v6Enable = false)

instance (i : Ifdata) (f : Af) : Decidable (Disabled i f) := inferInstanceAs (Decidable (_ ∨ _))

/-- `parse_policy_line`. It does not return when it has written behind the array `ip`. -/
def parsePolicyLine (pton : InetPton) (junk4 : Fin 3 → InAddr) (junk6 : Fin 3 → In6Addr)
    (o : MacOutcomes) (buff : List Byte) (s : FrontState) : Option (M FrontState) :=
  match splitLoop (List.range maxPart) (some (text buff)) .unspec (fun _ => 0) with
  | .overrun => none
  | .ignored => some (.ok s)
  | .parts family ip =>
    if Disabled s.ifIngress family then some (.ok s)
    else some (loadParts pton junk4 junk6 o family ip s)

/-- The tables as `parse_policy` finds them: initialised, then filled line by line. -/
inductive Parsing (pton : InetPton) : FrontState → Prop
  | init {s : FrontState} (malloc4 : Option (Fin lbMaxCache → LbPolCache 4 (BitVec 16)))
      (malloc6 : Option (Fin lbMaxCache → LbPolCache 16 Unit)) : Parsing pton { s with
        lb4 := initPolicyTable malloc4 (initSvrMngTable s.lb4)
        lb6 := initPolicyTable malloc6 (initSvrMngTable s.lb6) }
  | line {s s' : FrontState} (junk4 : Fin 3 → InAddr) (junk6 : Fin 3 → In6Addr) (o : MacOutcomes)
      (buff : List Byte) : Parsing pton s →
      parsePolicyLine pton junk4 junk6 o buff s = some (.ok s') → Parsing pton s'

/-! ## What a line means -/

section

variable {n : ℕ} {D : Type}

/-- The line holds three addresses of an enabled family. -/
structure Good (pton : List Byte → Option (Fin n → Byte)) (enable : Bool) (buff : List Byte)
    (addr mask svr : Fin n → Byte) : Prop where
  enabled : enable = true
  addrs : (fields buff).map pton = [some addr, some mask, some svr]

/-- One policy has come behind the others, with its server. -/
structure Appended (addr mask svr : Fin n → Byte) (s s' : PolSide n D) : Prop where
  policy : ∃ p q v, s'.polHead = s.polHead ++ [p] ∧
    s'.pols p = some ⟨maskIp addr mask, mask, q, 0, 0⟩ ∧
      q ∈ s'.svrHead ∧ s'.svrs q = some v ∧ v.svrIp = svr
  old : ∀ p ∈ s.polHead, s'.pols p = s.pols p
  servers : ∀ q ∈ s.svrHead, (s'.svrs q).map ServerTbl.svrIp = (s.svrs q).map ServerTbl.svrIp

end

/-- What `parse_policy_line` has to do in state `s` with a line: a good line adds one policy, and
every other line changes nothing. -/
structure Contract (pton : InetPton) (buff : List Byte) (s : FrontState)
    (r : Option (M FrontState)) : Prop where
  good4 : ∀ a m v, Good pton.v4 s.ifIngress.v4Enable buff a m v →
    ∃ lb4, r = some (.ok { s with lb4 := lb4 }) ∧ Appended a m v s.lb4 lb4
  good6 : ∀ a m v, Good pton.v6 s.ifIngress.v6Enable buff a m v →
    ∃ lb6, r = some (.ok { s with lb6 := lb6 }) ∧ Appended a m v s.lb6 lb6
  bad : (∀ a m v, ¬ Good pton.v4 s.ifIngress.v4Enable buff a m v) →
    (∀ a m v, ¬ Good pton.v6 s.ifIngress.v6Enable buff a m v) → r = some (.ok s)

/-- The quick tests of the parser refuse the line. -/
def Ignored (i : Ifdata) (ps : List (List Byte)) : Prop :=
  ∃ p, ps.head? = some p ∧
    (Dropped (getFamily p) 0 ps ∨ (AllFit 0 ps ∧ Disabled i (getFamily p)))

/-! ## The tables -/

section

variable {n : ℕ} {D : Type} {s s' : PolSide n D}

/-- **A policy comes behind the others**, with its server. -/
theorem loadLine_appended (hs : Live s) (line : PolicyLine n) : ∃ s', loadLine s line = .ok s' ∧
    Live s' ∧ Appended line.saddr line.netmask line.svr s s' := by
  obtain ⟨q, s₁, hget, h⟩ := getSvrTable_spec hs line.outcomes line.svr
  obtain ⟨s', hload, hlive, -⟩ := loadLine_spec hs line
  obtain ⟨v, hv, hip⟩ := h.svr
  refine ⟨s', hload, hlive, ?_⟩
  rw [loadLine, hget] at hload
  obtain rfl := Except.ok.inj hload
  refine ⟨⟨s₁.brk, q, v, ?_, Function.update_self _ _ _, h.mem, hv, hip⟩, fun p hp => ?_, h.other⟩
  · rw [← h.polHead]
    rfl
  · have hne : p ≠ s₁.brk := (h.live.pol p (h.polHead ▸ hp)).1.ne
    exact (Function.update_of_ne hne _ _).trans (congrFun h.pols p)

theorem Appended.ne {addr mask svr : Fin n → Byte} (h : Appended addr mask svr s s') : s' ≠ s := by
  rintro rfl
  obtain ⟨p, -, -, hhead, -⟩ := h.policy
  simpa using congrArg List.length hhead

theorem live_init (malloc : Option (Fin lbMaxCache → LbPolCache n D)) (s : PolSide n D) :
    Live (initPolicyTable malloc (initSvrMngTable s)) := by
  obtain ⟨c, q, heq⟩ := initPolicyTable_eq malloc (initSvrMngTable s)
  rw [heq]
  exact ⟨fun p hp => absurd hp List.not_mem_nil, fun p hp => absurd hp List.not_mem_nil⟩

end

/-! ## Good lines and others -/

section

variable {pton : InetPton} {junk4 : Fin 3 → InAddr} {junk6 : Fin 3 → In6Addr} {o : MacOutcomes}
  {buff : List Byte} {s s' : FrontState} {r : Option (M FrontState)} {f : Af} {i : ℕ}
  {p : List Byte}

theorem parsePolicyLine_ends (pton : InetPton) (junk4 : Fin 3 → InAddr) (junk6 : Fin 3 → In6Addr)
    (o : MacOutcomes) (buff : List Byte) (s : FrontState) :
    (parsePolicyLine pton junk4 junk6 o buff s = none ∧ ¬ AllFit 0 (fields buff) ∧
      ¬ Ignored s.ifIngress (fields buff)) ∨
    (parsePolicyLine pton junk4 junk6 o buff s = some (.ok s) ∧
      Ignored s.ifIngress (fields buff)) ∨
    (¬ Ignored s.ifIngress (fields buff) ∧ ∃ f,
      (∀ p, (fields buff).head? = some p → getFamily p = f) ∧
        parsePolicyLine pton junk4 junk6 o buff s =
          some (loadParts pton junk4 junk6 o f (copyParts 0 (fields buff) fun _ => 0) s)) := by
  obtain ⟨p, ps, hp⟩ := fields_eq_cons buff
  have hhead : ∀ q, (fields buff).head? = some q → getFamily q = getFamily p := fun q hq => by
    rw [hp] at hq
    cases hq
    rfl
  have hignored : Ignored s.ifIngress (fields buff) ↔ Dropped (getFamily p) 0 (fields buff) ∨
      (AllFit 0 (fields buff) ∧ Disabled s.ifIngress (getFamily p)) := by
    rw [Ignored, hp]
    simp
  have hends : Ends (getFamily p) 0 (fields buff) (fun _ => 0)
      (splitLoop (List.range maxPart) (some (text buff)) .unspec fun _ => 0) := by
    rw [List.range_eq_range']
    exact splitLoop_ends (by decide) (fun h => absurd h (Nat.lt_irrefl 0))
      (fun q hq => zero_notMem_fields hq) fun _ => hhead
  rw [hignored]
  unfold parsePolicyLine
  rcases hends with ⟨hrun, hfit, hdrop⟩ | ⟨hrun, hdrop⟩ | ⟨hrun, hfit, hdrop⟩
  · rw [hrun]
    exact Or.inl ⟨rfl, hfit, not_or.mpr ⟨hdrop, fun h => hfit h.1⟩⟩
  · rw [hrun]
    exact Or.inr (Or.inl ⟨rfl, Or.inl hdrop⟩)
  · rw [hrun]
    dsimp only
    by_cases hd : Disabled s.ifIngress (getFamily p)
    · rw [if_pos hd]
      exact Or.inr (Or.inl ⟨rfl, Or.inr ⟨hfit, hd⟩⟩)
    · rw [if_neg hd]
      exact Or.inr (Or.inr ⟨not_or.mpr ⟨hdrop, fun h => hd h.2⟩, getFamily p, hhead, rfl⟩)

theorem loadParts_v4 (hs : Live s.lb4) (ip : Buf) : ∃ lb4,
    loadLine s.lb4 (lineOf pton.v4 junk4 o ip) = .ok lb4 ∧
      loadParts pton junk4 junk6 o .inet ip s = .ok { s with lb4 := lb4 } ∧ Live lb4 ∧
        Appended (lineOf pton.v4 junk4 o ip).saddr (lineOf pton.v4 junk4 o ip).netmask
          (lineOf pton.v4 junk4 o ip).svr s.lb4 lb4 := by
  obtain ⟨lb4, hload, hlive, happ⟩ := loadLine_appended hs (lineOf pton.v4 junk4 o ip)
  refine ⟨lb4, hload, ?_, hlive, happ⟩
  rw [loadParts, if_pos rfl, hload]
  rfl

theorem loadParts_v6 (hs : Live s.lb6) (hf : f ≠ .inet) (ip : Buf) : ∃ lb6,
    loadLine s.lb6 (lineOf pton.v6 junk6 o ip) = .ok lb6 ∧
      loadParts pton junk4 junk6 o f ip s = .ok { s with lb6 := lb6 } ∧ Live lb6 ∧
        Appended (lineOf pton.v6 junk6 o ip).saddr (lineOf pton.v6 junk6 o ip).netmask
          (lineOf pton.v6 junk6 o ip).svr s.lb6 lb6 := by
  obtain ⟨lb6, hload, hlive, happ⟩ := loadLine_appended hs (lineOf pton.v6 junk6 o ip)
  refine ⟨lb6, hload, ?_, hlive, happ⟩
  rw [loadParts, if_neg hf, hload]
  rfl

theorem loadParts_ok (h4 : Live s.lb4) (h6 : Live s.lb6) (f : Af) (ip : Buf) :
    ∃ s', loadParts pton junk4 junk6 o f ip s = .ok s' ∧ Live s'.lb4 ∧ Live s'.lb6 ∧ s' ≠ s := by
  by_cases hf : f = .inet
  · obtain ⟨lb4, -, hload, hlive, happ⟩ := @loadParts_v4 pton junk4 junk6 o s h4 ip
    exact ⟨{ s with lb4 := lb4 }, hf ▸ hload, hlive, h6,
      fun e => happ.ne (congrArg FrontState.lb4 e)⟩
  · obtain ⟨lb6, -, hload, hlive, happ⟩ := @loadParts_v6 pton junk4 junk6 o s f h6 hf ip
    exact ⟨{ s with lb6 := lb6 }, hload, h4, hlive,
      fun e => happ.ne (congrArg FrontState.lb6 e)⟩

theorem Parsing.live (h : Parsing pton s) : Live s.lb4 ∧ Live s.lb6 := by
  induction h with
  | init malloc4 malloc6 => exact ⟨live_init malloc4 _, live_init malloc6 _⟩
  | @line s s' junk4 junk6 o buff _ hrun ih =>
    rcases parsePolicyLine_ends pton junk4 junk6 o buff s with ⟨hnone, -⟩ | ⟨hsame, -⟩ |
      ⟨-, f, -, hload⟩
    · rw [hnone] at hrun
      cases hrun
    · obtain rfl : s = s' := by simpa using hsame.symm.trans hrun
      exact ih
    · obtain ⟨s'', hok, h4, h6, -⟩ := @loadParts_ok pton junk4 junk6 o s ih.1 ih.2 f
        (copyParts 0 (fields buff) fun _ => 0)
      rw [hok] at hload
      obtain rfl : s'' = s' := by simpa using hload.symm.trans hrun
      exact ⟨h4, h6⟩

section Good

variable {n : ℕ} {accept : List Byte → Option (Fin n → Byte)} {enable : Bool}
  {a m v : Fin n → Byte}

theorem Good.parts (h : Good accept enable buff a m v)
    (hfam : ∀ p a, accept p = some a → getFamily p = f ∧ p.length < partSize) :
    (fields buff).length = maxPart ∧ ∀ p ∈ fields buff, getFamily p = f ∧ p.length < partSize := by
  refine ⟨by simpa [maxPart] using congrArg List.length h.addrs, fun p hp => ?_⟩
  have hmem : accept p ∈ (fields buff).map accept := List.mem_map_of_mem hp
  rw [h.addrs] at hmem
  simp only [List.mem_cons, List.not_mem_nil, or_false] at hmem
  rcases hmem with hp | hp | hp
  · exact hfam p a hp
  · exact hfam p m hp
  · exact hfam p v hp

theorem allFit_of_short {ps : List (List Byte)} (hlen : ps.length = maxPart)
    (hshort : ∀ p ∈ ps, p.length < partSize) : AllFit 0 ps := by
  intro j p hp
  have hj : j < maxPart := by
    rw [← hlen]
    exact (List.getElem?_eq_some_iff.mp hp).1
  have hp := hshort p (List.mem_of_getElem? hp)
  have hpart : partSize * j + partSize ≤ maxPart * partSize := by
    rw [← Nat.mul_succ, Nat.mul_comm maxPart]
    exact Nat.mul_le_mul_left _ hj
  rw [Nat.zero_add, Fits]
  omega

theorem Good.allFit (h : Good accept enable buff a m v)
    (hfam : ∀ p a, accept p = some a → getFamily p = f ∧ p.length < partSize) :
    AllFit 0 (fields buff) :=
  allFit_of_short (h.parts hfam).1 fun p hp => ((h.parts hfam).2 p hp).2

theorem Good.not_ignored {i : Ifdata} (h : Good accept enable buff a m v)
    (hfam : ∀ p a, accept p = some a → getFamily p = f ∧ p.length < partSize)
    (hf : f ≠ .unspec) (hd : ¬ Disabled i f) : ¬ Ignored i (fields buff) := by
  have hparts := (h.parts hfam).2
  rintro ⟨p, hp, hdrop | ⟨-, hdis⟩⟩
  · obtain ⟨k, q, hq, -, hbad⟩ := hdrop
    rw [(hparts p (List.mem_of_head? hp)).1, (hparts q (List.mem_of_getElem? hq)).1] at hbad
    exact hbad.elim hf fun hne => hne rfl
  · rw [(hparts p (List.mem_of_head? hp)).1] at hdis
    exact hd hdis

theorem Good.line (h : Good accept enable buff a m v)
    (hfam : ∀ p a, accept p = some a → getFamily p = f ∧ p.length < partSize)
    (junk : Fin 3 → Fin n → Byte) (o : MacOutcomes) (ip : Buf) :
    lineOf accept junk o (copyParts 0 (fields buff) ip) = ⟨a, m, v, o⟩ := by
  obtain ⟨hlen, hparts⟩ := h.parts hfam
  have hread : ∀ k w, ((fields buff).map accept)[k]? = some (some w) →
      accept (ipPart (copyParts 0 (fields buff) ip) k) = some w := by
    intro k w hk
    rw [List.getElem?_map, Option.map_eq_some_iff] at hk
    obtain ⟨p, hp, hw⟩ := hk
    have hpart := @ipPart_copyParts (fields buff) 0 ip
      (fun q hq => ⟨(hparts q hq).2, zero_notMem_fields hq⟩) (by rw [hlen, Nat.zero_add]) k p hp
    rw [Nat.zero_add] at hpart
    rw [hpart, hw]
  rw [h.addrs] at hread
  rw [lineOf, hread 0 a rfl, hread 1 m rfl, hread 2 v rfl]
  rfl

end Good

theorem not_disabled_inet {i : Ifdata} (h : i.v4Enable = true) : ¬ Disabled i .inet := by
  rintro (⟨-, hd⟩ | ⟨he, -⟩)
  · exact absurd (h.symm.trans hd) (by decide)
  · cases he

theorem not_disabled_inet6 {i : Ifdata} (h : i.v6Enable = true) : ¬ Disabled i .inet6 := by
  rintro (⟨he, -⟩ | ⟨-, hd⟩)
  · cases he
  · exact absurd (h.symm.trans hd) (by decide)

theorem getFamily_head (h : ∀ p ∈ fields buff, getFamily p = f ∧ p.length < partSize)
    {f' : Af} (hhead : ∀ p, (fields buff).head? = some p → getFamily p = f') : f' = f := by
  obtain ⟨p, ps, hp⟩ := fields_eq_cons buff
  exact (hhead p (by rw [hp]; rfl)).symm.trans (h p (by rw [hp]; exact List.mem_cons_self)).1

/-- **A good line adds its policy.** -/
theorem Good.load4 {a m v : InAddr} (h : Good pton.v4 s.ifIngress.v4Enable buff a m v)
    (hs : Live s.lb4) (junk4 : Fin 3 → InAddr) (junk6 : Fin 3 → In6Addr) (o : MacOutcomes) :
    ∃ lb4, loadLine s.lb4 ⟨a, m, v, o⟩ = .ok lb4 ∧
      parsePolicyLine pton junk4 junk6 o buff s = some (.ok { s with lb4 := lb4 }) ∧ Live lb4 ∧
        Appended a m v s.lb4 lb4 := by
  have hfam : ∀ p a, pton.v4 p = some a → getFamily p = .inet ∧ p.length < partSize :=
    fun _ _ => getFamily_v4
  have hno := h.not_ignored hfam (by decide) (not_disabled_inet h.enabled)
  rcases parsePolicyLine_ends pton junk4 junk6 o buff s with ⟨-, hfit, -⟩ | ⟨-, hign⟩ |
    ⟨-, f, hhead, hload⟩
  · exact absurd (h.allFit hfam) hfit
  · exact absurd hign hno
  · obtain rfl := getFamily_head (h.parts hfam).2 hhead
    have hparts := @loadParts_v4 pton junk4 junk6 o s hs (copyParts 0 (fields buff) fun _ => 0)
    rw [h.line hfam] at hparts
    obtain ⟨lb4, hline, hok, hlive, happ⟩ := hparts
    exact ⟨lb4, hline, by rw [hload, hok], hlive, happ⟩

theorem Good.load6 {a m v : In6Addr} (h : Good pton.v6 s.ifIngress.v6Enable buff a m v)
    (hs : Live s.lb6) (junk4 : Fin 3 → InAddr) (junk6 : Fin 3 → In6Addr) (o : MacOutcomes) :
    ∃ lb6, loadLine s.lb6 ⟨a, m, v, o⟩ = .ok lb6 ∧
      parsePolicyLine pton junk4 junk6 o buff s = some (.ok { s with lb6 := lb6 }) ∧ Live lb6 ∧
        Appended a m v s.lb6 lb6 := by
  have hfam : ∀ p a, pton.v6 p = some a → getFamily p = .inet6 ∧ p.length < partSize :=
    fun _ _ => getFamily_v6
  have hno := h.not_ignored hfam (by decide) (not_disabled_inet6 h.enabled)
  rcases parsePolicyLine_ends pton junk4 junk6 o buff s with ⟨-, hfit, -⟩ | ⟨-, hign⟩ |
    ⟨-, f, hhead, hload⟩
  · exact absurd (h.allFit hfam) hfit
  · exact absurd hign hno
  · obtain rfl := getFamily_head (h.parts hfam).2 hhead
    have hparts := @loadParts_v6 pton junk4 junk6 o s .inet6 hs (by decide)
      (copyParts 0 (fields buff) fun _ => 0)
    rw [h.line hfam] at hparts
    obtain ⟨lb6, hline, hok, hlive, happ⟩ := hparts
    exact ⟨lb6, hline, by rw [hload, hok], hlive, happ⟩

theorem parsePolicyLine_ignored (h : Ignored s.ifIngress (fields buff)) :
    parsePolicyLine pton junk4 junk6 o buff s = some (.ok s) := by
  rcases parsePolicyLine_ends pton junk4 junk6 o buff s with ⟨-, -, hno⟩ | ⟨hsame, -⟩ | ⟨hno, -⟩
  · exact absurd h hno
  · exact hsame
  · exact absurd h hno

theorem contract_iff (h4 : Live s.lb4) (h6 : Live s.lb6) (junk4 : Fin 3 → InAddr)
    (junk6 : Fin 3 → In6Addr) (o : MacOutcomes) (buff : List Byte) :
    Contract pton buff s (parsePolicyLine pton junk4 junk6 o buff s) ↔
      (∃ a m v, Good pton.v4 s.ifIngress.v4Enable buff a m v) ∨
      (∃ a m v, Good pton.v6 s.ifIngress.v6Enable buff a m v) ∨
      Ignored s.ifIngress (fields buff) := by
  constructor
  · intro hc
    by_contra hno
    obtain ⟨hno4, hno6, hign⟩ := not_or.mp hno |>.imp_right not_or.mp
    have hsame := hc.bad (fun a m v hg => hno4 ⟨a, m, v, hg⟩) fun a m v hg => hno6 ⟨a, m, v, hg⟩
    rcases parsePolicyLine_ends pton junk4 junk6 o buff s with ⟨hnone, -⟩ | ⟨-, hign'⟩ |
      ⟨-, f, -, hload⟩
    · rw [hnone] at hsame
      cases hsame
    · exact hign hign'
    · obtain ⟨s', hok, -, -, hne⟩ := @loadParts_ok pton junk4 junk6 o s h4 h6 f
        (copyParts 0 (fields buff) fun _ => 0)
      rw [hload, hok] at hsame
      exact hne (Except.ok.inj (Option.some.inj hsame))
  · intro hcond
    refine ⟨fun a m v hg => ?_, fun a m v hg => ?_, fun hno4 hno6 => ?_⟩
    · obtain ⟨lb4, -, hrun, -, happ⟩ := hg.load4 h4 junk4 junk6 o
      exact ⟨lb4, hrun, happ⟩
    · obtain ⟨lb6, -, hrun, -, happ⟩ := hg.load6 h6 junk4 junk6 o
      exact ⟨lb6, hrun, happ⟩
    · rcases hcond with ⟨a, m, v, hg⟩ | ⟨a, m, v, hg⟩ | hign
      · exact absurd hg (hno4 a m v)
      · exact absurd hg (hno6 a m v)
      · exact parsePolicyLine_ignored hign

end

/-! ## Every line of a file -/

/-- **A line is handled as its text demands** exactly if it is good or the quick tests refuse it. Of
every other line the parser makes a policy from what happens to be in its variables, or it writes
behind its array. -/
theorem parsePolicyLine_iff {pton : InetPton} {s : FrontState} (h : Parsing pton s)
    (junk4 : Fin 3 → InAddr) (junk6 : Fin 3 → In6Addr) (o : MacOutcomes) (buff : List Byte) :
    Contract pton buff s (parsePolicyLine pton junk4 junk6 o buff s) ↔
      (∃ a m v, Good pton.v4 s.ifIngress.v4Enable buff a m v) ∨
      (∃ a m v, Good pton.v6 s.ifIngress.v6Enable buff a m v) ∨
      Ignored s.ifIngress (fields buff) :=
  contract_iff h.live.1 h.live.2 junk4 junk6 o buff

def emptyTables : FrontState where
  lb4 := initPolicyTable none (initSvrMngTable (emptySide 4 (BitVec 16) 0))
  lb6 := initPolicyTable none (initSvrMngTable (emptySide 16 Unit ()))
  ifIngress := ⟨3, 0, true, false, 0, 0, 0, 0, 0⟩
  vipMode := false
  vip4 := 0
  vip6 := 0
  io := ⟨fun _ => 0, []⟩

theorem parsing_emptyTables : Parsing ptonV4 emptyTables :=
  @Parsing.init ptonV4 { emptyTables with
    lb4 := emptySide 4 (BitVec 16) 0, lb6 := emptySide 16 Unit () } none none

/-- The line `10.0.0.1, 255.0.0.3, 192.168.0.1`. -/
def policyText : List Byte :=
  [49, 48, 46, 48, 46, 48, 46, 49, 44, 32, 50, 53, 53, 46, 48, 46, 48, 46, 51, 44, 32,
    49, 57, 50, 46, 49, 54, 56, 46, 48, 46, 49, 10]

theorem parsePolicyLine_sample :
    Good ptonV4.v4 true policyText ![10, 0, 0, 1] ![255, 0, 0, 3] ![192, 168, 0, 1] ∧
      Contract ptonV4 policyText emptyTables
        (parsePolicyLine ptonV4 (fun _ => 0) (fun _ => 0) (fun _ => ⟨false, 0⟩) policyText
          emptyTables) := by
  have hgood : Good ptonV4.v4 true policyText ![10, 0, 0, 1] ![255, 0, 0, 3] ![192, 168, 0, 1] :=
    ⟨rfl, by decide⟩
  exact ⟨hgood, (parsePolicyLine_iff parsing_emptyTables _ _ _ _).mpr (Or.inl ⟨_, _, _, hgood⟩)⟩

/-- **The line `1` makes a policy**: it has one field, which is no address, but the characters of an
IPv4 address. -/
theorem parsePolicyLine_junk : Parsing ptonV4 emptyTables ∧ fields [49, 10] = [[49]] ∧
    dottedQuad [49] = none ∧
    (∃ lb4, parsePolicyLine ptonV4 (fun _ => 0) (fun _ => 0) (fun _ => ⟨false, 0⟩) [49, 10]
      emptyTables = some (.ok { emptyTables with lb4 := lb4 }) ∧
        Appended 0 0 0 emptyTables.lb4 lb4) ∧
    ¬ Contract ptonV4 [49, 10] emptyTables
      (parsePolicyLine ptonV4 (fun _ => 0) (fun _ => 0) (fun _ => ⟨false, 0⟩) [49, 10]
        emptyTables) := by
  have hfields : fields [49, 10] = [[49]] := by decide
  have hlive := parsing_emptyTables.live
  have hign : ¬ Ignored emptyTables.ifIngress (fields [49, 10]) := by
    rw [hfields]
    rintro ⟨p, hp, ⟨k, q, hq, -, hbad⟩ | ⟨-, hd⟩⟩
    · obtain rfl : [49] = p := by simpa using hp
      obtain ⟨rfl, rfl⟩ : k = 0 ∧ [49] = q := by simpa [List.getElem?_singleton] using hq
      exact absurd hbad (by decide)
    · obtain rfl : [49] = p := by simpa using hp
      exact absurd hd (by decide)
  have hfit : AllFit 0 (fields [49, 10]) := by
    rw [hfields]
    exact allFit_cons.mpr ⟨by decide, fun j p h => by simp at h⟩
  refine ⟨parsing_emptyTables, hfields, by decide, ?_, ?_⟩
  · rcases parsePolicyLine_ends ptonV4 (fun _ => 0) (fun _ => 0) (fun _ => ⟨false, 0⟩) [49, 10]
      emptyTables with ⟨-, hno, -⟩ | ⟨-, hyes⟩ | ⟨-, f, hhead, hload⟩
    · exact absurd hfit hno
    · exact absurd hyes hign
    · obtain rfl : Af.inet = f := (by decide : Af.inet = getFamily [49]).trans
        (hhead [49] (by rw [hfields]; rfl))
      obtain ⟨lb4, -, hok, -, happ⟩ := @loadParts_v4 ptonV4 (fun _ => 0) (fun _ => 0)
        (fun _ => ⟨false, 0⟩) emptyTables hlive.1 (copyParts 0 (fields [49, 10]) fun _ => 0)
      refine ⟨lb4, by rw [hload, hok], ?_⟩
      have hline : lineOf ptonV4.v4 (fun _ => 0) (fun _ => ⟨false, 0⟩)
          (copyParts 0 (fields [49, 10]) fun _ => 0) = ⟨0, 0, 0, fun _ => ⟨false, 0⟩⟩ := by
        rw [hfields, lineOf]
        have h0 : ptonV4.v4 (ipPart (copyParts 0 [[49]] fun _ => 0) 0) = none := by decide
        have h1 : ptonV4.v4 (ipPart (copyParts 0 [[49]] fun _ => 0) 1) = none := by decide
        have h2 : ptonV4.v4 (ipPart (copyParts 0 [[49]] fun _ => 0) 2) = none := by decide
        rw [h0, h1, h2]
        rfl
      rw [hline] at happ
      exact happ
  · rw [contract_iff hlive.1 hlive.2]
    rintro (⟨a, m, v, hg⟩ | ⟨a, m, v, hg⟩ | h)
    · have := congrArg List.length hg.addrs
      rw [hfields] at this
      cases this
    · have := congrArg List.length hg.addrs
      rw [hfields] at this
      cases this
    · exact hign h

end Sasat
