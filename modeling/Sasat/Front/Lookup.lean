import Sasat.Front.PolLookup

/-!
# Looking up a policy

The abstract dispatcher is the first policy of the list that matches the source address. Resolving
MAC addresses and counting hits change neither the policies nor a server that is resolved.

* `firstMatch`: the first policy that matches an address.
* `Extends`: what a lookup leaves alone; `Live`: every pointer to a policy or a server is good.
* **`policyLookup_spec`**: `policy_lookup4` finds the first match, unless its server is unresolved.
-/

namespace Sasat

section

variable {n : ℕ} {D : Type} {s s' s'' : PolSide n D} {a : Fin n → Byte} {p q : Ptr}

def LbPol.rule (f : LbPol n) : (Fin n → Byte) × (Fin n → Byte) × Ptr := (f.addr, f.mask, f.svr)

/-- Policy `p` matches the address `a`. -/
def matchPol (s : PolSide n D) (a : Fin n → Byte) (p : Ptr) : Bool :=
  ((s.pols p).map LbPol.rule).any fun r => maskIp a r.2.1 = r.1

/-- **The first policy in list order that matches the address `a`.** -/
def firstMatch (s : PolSide n D) (a : Fin n → Byte) : Option Ptr := s.polHead.find? (matchPol s a)

theorem matchPol_eq {f : LbPol n} (h : s.pols p = some f) :
    matchPol s a p = decide (maskIp a f.mask = f.addr) := by
  rw [matchPol, h]
  rfl

/-- Every policy of the list and its server exist, and the next allocation is a new one. -/
structure Live (s : PolSide n D) : Prop where
  pol : ∀ p ∈ s.polHead, p < s.brk ∧ ∃ f, s.pols p = some f ∧ f.svr ∈ s.svrHead
  svr : ∀ q ∈ s.svrHead, q < s.brk ∧ ∃ v, s.svrs q = some v

/-- The rules stay, the servers stay, and a resolved server keeps its status and MAC address. -/
structure Extends (s s' : PolSide n D) : Prop where
  polHead : s'.polHead = s.polHead
  svrHead : s'.svrHead = s.svrHead
  brk : s'.brk = s.brk
  rule : ∀ p, (s'.pols p).map LbPol.rule = (s.pols p).map LbPol.rule
  svr : ∀ q v, s.svrs q = some v → ∃ v', s'.svrs q = some v' ∧ v'.svrIp = v.svrIp ∧
    (v.status ≠ .init → v'.status = v.status ∧ v'.dstMac = v.dstMac)

namespace Extends

theorem refl (s : PolSide n D) : Extends s s :=
  ⟨rfl, rfl, rfl, fun _ => rfl, fun _ v h => ⟨v, h, rfl, fun _ => ⟨rfl, rfl⟩⟩⟩

theorem trans (h : Extends s s') (h' : Extends s' s'') : Extends s s'' where
  polHead := h'.polHead.trans h.polHead
  svrHead := h'.svrHead.trans h.svrHead
  brk := h'.brk.trans h.brk
  rule p := (h'.rule p).trans (h.rule p)
  svr q v hv := by
    obtain ⟨v', hv', hip, hres⟩ := h.svr q v hv
    obtain ⟨v'', hv'', hip', hres'⟩ := h'.svr q v' hv'
    refine ⟨v'', hv'', hip'.trans hip, fun hi => ?_⟩
    obtain ⟨hst, hmac⟩ := hres hi
    obtain ⟨hst', hmac'⟩ := hres' (hst ▸ hi)
    exact ⟨hst'.trans hst, hmac'.trans hmac⟩

theorem of_heaps (h : Extends s s') (h1 : s''.polHead = s'.polHead) (h2 : s''.svrHead = s'.svrHead)
    (h3 : s''.brk = s'.brk) (h4 : s''.pols = s'.pols) (h5 : s''.svrs = s'.svrs) :
    Extends s s'' where
  polHead := h1.trans h.polHead
  svrHead := h2.trans h.svrHead
  brk := h3.trans h.brk
  rule p := by
    rw [h4]
    exact h.rule p
  svr := by
    rw [h5]
    exact h.svr

theorem pol (h : Extends s s') {f : LbPol n} (hf : s.pols p = some f) :
    ∃ f', s'.pols p = some f' ∧ f'.addr = f.addr ∧ f'.mask = f.mask ∧ f'.svr = f.svr := by
  have := h.rule p
  rw [hf, Option.map_some, Option.map_eq_some_iff] at this
  obtain ⟨f', hf', hr⟩ := this
  rw [LbPol.rule, LbPol.rule, Prod.mk.injEq, Prod.mk.injEq] at hr
  exact ⟨f', hf', hr⟩

theorem firstMatch (h : Extends s s') (a : Fin n → Byte) : firstMatch s' a = firstMatch s a := by
  have hm : matchPol s' a = matchPol s a := by
    funext p
    rw [matchPol, matchPol, h.rule]
  rw [Sasat.firstMatch, Sasat.firstMatch, h.polHead, hm]

theorem live (h : Extends s s') (hs : Live s) : Live s' where
  pol p hp := by
    rw [h.polHead] at hp
    obtain ⟨hlt, f, hf, hsvr⟩ := hs.pol p hp
    obtain ⟨f', hf', -, -, hsvr'⟩ := h.pol hf
    exact ⟨h.brk ▸ hlt, f', hf', by rwa [h.svrHead, hsvr']⟩
  svr q hq := by
    rw [h.svrHead] at hq
    obtain ⟨hlt, v, hv⟩ := hs.svr q hq
    obtain ⟨v', hv', -⟩ := h.svr q v hv
    exact ⟨h.brk ▸ hlt, v', hv'⟩

theorem modPol (h : Extends s s') (p : Ptr) {f : LbPol n → LbPol n}
    (hf : ∀ x, (f x).rule = x.rule) : Extends s (s'.modPol p f) where
  polHead := h.polHead
  svrHead := h.svrHead
  brk := h.brk
  rule q := (map_poke LbPol.rule hf q).trans (h.rule q)
  svr := h.svr

theorem modSvr (h : Extends s s') (q : Ptr) {f : ServerTbl n → ServerTbl n}
    (hf : ∀ v, s'.svrs q = some v → (f v).svrIp = v.svrIp ∧
      (v.status ≠ .init → (f v).status = v.status ∧ (f v).dstMac = v.dstMac)) :
    Extends s (s'.modSvr q f) := by
  refine h.trans ⟨rfl, rfl, rfl, fun _ => rfl, fun r v hv => ?_⟩
  by_cases hr : r = q
  · subst hr
    exact ⟨f v, poke_self hv, hf v hv⟩
  · exact ⟨v, (poke_of_ne hr).trans hv, rfl, fun _ => ⟨rfl, rfl⟩⟩

theorem countHit (h : Extends s s') (p q : Ptr) : Extends s (Sasat.countHit p q s') :=
  (h.modPol p (f := fun f => { f with hitCount := f.hitCount + 1 }) fun _ => rfl).modSvr q
    (f := fun v => { v with hit := v.hit + 1 }) fun _ _ => ⟨rfl, fun _ => ⟨rfl, rfl⟩⟩

end Extends

/-! ## The lookup -/

/-- **The retry loop reports a resolved server**; a server that is resolved already stays as it
is, one that is not is either resolved or left unresolved. -/
theorem trySvr_spec (o : ℕ → MacOutcomes) : ∀ (k : ℕ) (v : ServerTbl n),
    (trySvr o k v).2.svrIp = v.svrIp ∧
      (v.status ≠ .init → 0 < k → trySvr o k v = (true, v)) ∧
      (v.status = .init → (trySvr o k v).1 = true → (trySvr o k v).2.status = .ok)
  | 0, v => ⟨rfl, fun _ h => absurd h (lt_irrefl 0), fun _ h => absurd h Bool.false_ne_true⟩
  | k + 1, v => by
    rw [trySvr]
    split_ifs with h
    · exact ⟨rfl, fun _ _ => rfl, fun hi => absurd hi h⟩
    · obtain ⟨hip, -, hst⟩ := resolveTargetMac_spec (o k) v
      obtain ⟨ih, ihres, ihinit⟩ := trySvr_spec o k (resolveTargetMac (o k) v)
      refine ⟨ih.trans hip, fun hi => absurd hi h, fun hi htrue => ?_⟩
      rcases hst with hst | hst
      · exact ihinit (hst.trans hi) htrue
      · cases k with
        | zero => exact absurd htrue Bool.false_ne_true
        | succ k =>
          rw [ihres (by rw [hst]; decide) k.succ_pos]
          exact hst

/-- What a lookup that stops at policy `p` finds. -/
structure Found (s s' : PolSide n D) (p : Ptr) (r : Option Ptr) (f : LbPol n)
    (v v' : ServerTbl n) : Prop where
  pol : s.pols p = some f
  svr : s.svrs f.svr = some v
  svr' : s'.svrs f.svr = some v'
  svrIp : v'.svrIp = v.svrIp
  result : (r = none ∧ v.status = .init) ∨
    (r = some p ∧ v'.status ≠ .init ∧ (v.status ≠ .init → v' = v) ∧
      (v.status = .init → v'.status = .ok))

/-- **The lookup stops at the first policy that matches.** -/
theorem policyLookup_spec (o : ℕ → MacOutcomes) (a : Fin n → Byte) :
    ∀ ps : List Ptr, (∀ p ∈ ps, ∃ f v, s.pols p = some f ∧ s.svrs f.svr = some v) →
      ∃ r svrs', policyLookup o a s ps = .ok (r, { s with svrs := svrs' }) ∧
        Extends s { s with svrs := svrs' } ∧
        match ps.find? (matchPol s a) with
        | none => r = none
        | some p => ∃ f v v', Found s { s with svrs := svrs' } p r f v v'
  | [], _ => ⟨none, s.svrs, rfl, Extends.refl s, rfl⟩
  | p :: ps, hps => by
    obtain ⟨f, v, hf, hv⟩ := hps p List.mem_cons_self
    rw [policyLookup, deref_eq hf, List.find?_cons, matchPol_eq hf]
    simp only [bind, Except.bind]
    by_cases hm : maskIp a f.mask = f.addr
    · rw [if_pos hm, deref_eq hv, decide_eq_true hm]
      obtain ⟨hip, hres, hinit⟩ := trySvr_spec o 4 v
      refine ⟨_, _, rfl, (Extends.refl s).modSvr f.svr fun w hw => ?_, f, v, (trySvr o 4 v).2, hf,
        hv, poke_self hv, hip, ?_⟩
      · obtain rfl := Option.some.inj (hw.symm.trans hv)
        refine ⟨hip, fun hi => ?_⟩
        rw [hres hi (by decide)]
        exact ⟨rfl, rfl⟩
      · by_cases hi : v.status = .init
        · cases hb : (trySvr o 4 v).1 with
          | false => exact Or.inl ⟨rfl, hi⟩
          | true =>
            have hok := hinit hi hb
            exact Or.inr ⟨rfl, by rw [hok]; decide, fun hne => absurd hi hne, fun _ => hok⟩
        · rw [hres hi (by decide)]
          exact Or.inr ⟨rfl, hi, fun _ => rfl, fun h => absurd h hi⟩
    · rw [if_neg hm, decide_eq_false hm]
      exact policyLookup_spec o a ps fun p' hp' => hps p' (List.mem_cons_of_mem _ hp')

theorem Live.pointers (h : Live s) : ∀ p ∈ s.polHead,
    ∃ f v, s.pols p = some f ∧ s.svrs f.svr = some v := by
  intro p hp
  obtain ⟨-, f, hf, hsvr⟩ := h.pol p hp
  obtain ⟨-, v, hv⟩ := h.svr _ hsvr
  exact ⟨f, v, hf, hv⟩

end

end Sasat
