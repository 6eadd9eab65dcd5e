import Sasat.Front.Effect
import Sasat.Front.Front

/-!
# Packets that are refused for their server

* `trySvr_found`, `trySvr_status`: the retry loop finds what was resolved before its last attempt;
  the server keeps what any attempt has found.
* `RefusalOk`: a packet is refused only if its server is unresolved.
* **`policyLookup_iff`**: it is not when the last attempt is the one that succeeds.
-/

namespace Sasat

section

variable {n : ℕ} {D : Type}

theorem resolveLoop_status : ∀ (os : List MacOutcome) (v : ServerTbl n),
    (resolveLoop os v).status =
      if ∃ x ∈ os, x.ok = true ∧ x.mac ≠ 0 then .ok else v.status
  | [], v => by simp [resolveLoop]
  | x :: os, v => by
    rw [resolveLoop]
    simp only [List.mem_cons, exists_eq_or_imp]
    by_cases hok : x.ok = true
    · by_cases hmac : x.mac = 0
      · rw [if_neg (by simp [hok]), if_pos hmac, resolveLoop_status os]
        simp [hmac]
      · rw [if_neg (by simp [hok]), if_neg hmac, if_pos (Or.inl ⟨hok, hmac⟩)]
    · rw [if_pos (by simpa using hok), resolveLoop_status os]
      simp [hok]

theorem resolveTargetMac_status (o : MacOutcomes) (v : ServerTbl n) :
    (resolveTargetMac o v).status = if o.Resolves then .ok else v.status := by
  have h : (∃ x ∈ List.ofFn o, x.ok = true ∧ x.mac ≠ 0) ↔ o.Resolves := by
    simp only [List.mem_ofFn, MacOutcomes.Resolves]
    constructor
    · rintro ⟨x, ⟨i, rfl⟩, hx⟩
      exact ⟨i, hx⟩
    · rintro ⟨i, hi⟩
      exact ⟨o i, ⟨i, rfl⟩, hi⟩
  rw [resolveTargetMac, resolveLoop_status]
  simp only [h]

theorem trySvr_resolved (o : ℕ → MacOutcomes) {k : ℕ} {v : ServerTbl n} (hk : 0 < k)
    (hv : v.status ≠ .init) : trySvr o k v = (true, v) := (trySvr_spec o k v).2.1 hv hk

/-- **The retry loop finds a server that was resolved before the last attempt**, which is `o 0`. -/
theorem trySvr_found (o : ℕ → MacOutcomes) : ∀ (k : ℕ) {v : ServerTbl n}, v.status = .init →
    ((trySvr o k v).1 = true ↔ ∃ j, 0 < j ∧ j < k ∧ (o j).Resolves)
  | 0, v, _ => by
    refine ⟨fun h => absurd h Bool.false_ne_true, ?_⟩
    rintro ⟨j, -, hj, -⟩
    exact absurd hj (Nat.not_lt_zero j)
  | k + 1, v, hv => by
    rw [trySvr, if_neg (not_not.mpr hv)]
    have hst := resolveTargetMac_status (o k) v
    by_cases hr : (o k).Resolves
    · rw [if_pos hr] at hst
      rcases Nat.eq_zero_or_pos k with rfl | hk
      · refine ⟨fun h => absurd h Bool.false_ne_true, ?_⟩
        rintro ⟨j, h0, hj, -⟩
        omega
      · rw [trySvr_resolved o hk (by rw [hst]; decide)]
        exact ⟨fun _ => ⟨k, hk, by omega, hr⟩, fun _ => rfl⟩
    · rw [if_neg hr, hv] at hst
      rw [trySvr_found o k hst]
      constructor
      · rintro ⟨j, h0, hj, hjr⟩
        exact ⟨j, h0, by omega, hjr⟩
      · rintro ⟨j, h0, hj, hjr⟩
        have hjk : j ≠ k := fun e => hr (e ▸ hjr)
        exact ⟨j, h0, by omega, hjr⟩

/-- **The server is resolved when any attempt has succeeded**, the last one included. -/
theorem trySvr_status (o : ℕ → MacOutcomes) : ∀ (k : ℕ) {v : ServerTbl n}, v.status = .init →
    ((trySvr o k v).2.status = .init ↔ ∀ j < k, ¬ (o j).Resolves)
  | 0, v, hv => ⟨fun _ j hj => absurd hj (by omega), fun _ => hv⟩
  | k + 1, v, hv => by
    rw [trySvr, if_neg (not_not.mpr hv)]
    have hst := resolveTargetMac_status (o k) v
    by_cases hr : (o k).Resolves
    · rw [if_pos hr] at hst
      have hok : (trySvr o k (resolveTargetMac (o k) v)).2.status = .ok := by
        rcases Nat.eq_zero_or_pos k with rfl | hk
        · exact hst
        · rw [trySvr_resolved o hk (by rw [hst]; decide)]
          exact hst
      rw [hok]
      exact ⟨fun h => absurd h (by decide), fun h => absurd hr (h k (by omega))⟩
    · rw [if_neg hr, hv] at hst
      rw [trySvr_status o k hst]
      constructor
      · intro h j hj
        by_cases hjk : j = k
        · exact hjk ▸ hr
        · exact h j (by omega)
      · intro h j hj
        exact h j (by omega)

variable {s : PolSide n D} {a : Fin n → Byte} {o : ℕ → MacOutcomes}

/-- The search for `a` has ended with `r` and the state `s'`: a packet is refused only if no policy
matches or the server of the first one that does is unresolved. -/
def RefusalOk (s : PolSide n D) (a : Fin n → Byte) (r : Option Ptr) (s' : PolSide n D) : Prop :=
  match r with
  | none => firstMatch s a = none ∨ ∃ p f v, firstMatch s a = some p ∧ s.pols p = some f ∧
      s'.svrs f.svr = some v ∧ v.status = .init
  | some p => firstMatch s a = some p

/-- The server of the first policy that matches is unresolved, and of the attempts made during the
call only the last one, `o 0`, ends with a MAC address. -/
def OnlyLastAttempt (o : ℕ → MacOutcomes) (s : PolSide n D) (a : Fin n → Byte) : Prop :=
  ∃ p f v, firstMatch s a = some p ∧ s.pols p = some f ∧ s.svrs f.svr = some v ∧
    v.status = .init ∧ (∀ j, 0 < j → j < 4 → ¬ (o j).Resolves) ∧ (o 0).Resolves

theorem onlyLastAttempt_iff {p : Ptr} {f : LbPol n} {v : ServerTbl n}
    (hfm : firstMatch s a = some p) (hf : s.pols p = some f) (hv : s.svrs f.svr = some v) :
    OnlyLastAttempt o s a ↔ v.status = .init ∧ (∀ j, 0 < j → j < 4 → ¬ (o j).Resolves) ∧
      (o 0).Resolves := by
  constructor
  · rintro ⟨p', f', v', hfirst, hf', hv', h⟩
    obtain rfl := Option.some.inj (hfm.symm.trans hfirst)
    obtain rfl := Option.some.inj (hf.symm.trans hf')
    obtain rfl := Option.some.inj (hv.symm.trans hv')
    exact h
  · intro h
    exact ⟨p, f, v, hfm, hf, hv, h⟩

theorem refusalOk_none_iff {s' : PolSide n D} {p : Ptr} {f : LbPol n} {v : ServerTbl n}
    (hfm : firstMatch s a = some p) (hf : s.pols p = some f) (hv : s'.svrs f.svr = some v) :
    RefusalOk s a none s' ↔ v.status = .init := by
  constructor
  · rintro (hnone | ⟨p', f', v', hfirst, hf', hv', hst⟩)
    · rw [hfm] at hnone
      cases hnone
    · obtain rfl := Option.some.inj (hfm.symm.trans hfirst)
      obtain rfl := Option.some.inj (hf.symm.trans hf')
      obtain rfl := Option.some.inj (hv.symm.trans hv')
      exact hst
  · intro hst
    exact Or.inr ⟨p, f, v, hfm, hf, hv, hst⟩

/-- **A packet is refused only for an unresolved server, unless the server has been resolved by the
last attempt.** -/
theorem policyLookup_iff (hs : Live s) (a : Fin n → Byte) (o : ℕ → MacOutcomes) :
    ∃ r s', policyLookup o a s s.polHead = .ok (r, s') ∧
      (RefusalOk s a r s' ↔ ¬ OnlyLastAttempt o s a) := by
  have hps : ∀ p ∈ s.polHead, ∃ f, s.pols p = some f := by
    intro p hp
    obtain ⟨f, v, hf, -⟩ := hs.pointers p hp
    exact ⟨f, hf⟩
  cases hfm : firstMatch s a with
  | none =>
    refine ⟨none, s, policyLookup_none hps hfm, fun _ => ?_, fun _ => Or.inl hfm⟩
    rintro ⟨p, f, v, hfirst, -⟩
    rw [hfm] at hfirst
    cases hfirst
  | some p =>
    obtain ⟨f, v, hf, hv⟩ := hs.pointers p (List.mem_of_find?_eq_some hfm)
    refine ⟨_, _, policyLookup_some hps hfm hf hv, ?_⟩
    have hsvr : (s.modSvr f.svr fun _ => (trySvr o 4 v).2).svrs f.svr = some (trySvr o 4 v).2 :=
      poke_self hv
    rw [onlyLastAttempt_iff hfm hf hv]
    by_cases hi : v.status = .init
    · have hfound := trySvr_found o 4 hi
      by_cases hb : (trySvr o 4 v).1 = true
      -- an attempt before the last one has succeeded
      · rw [if_pos hb]
        obtain ⟨j, h0, hj, hr⟩ := hfound.mp hb
        exact ⟨fun _ hc => hc.2.1 j h0 hj hr, fun _ => hfm⟩
      · rw [if_neg hb, refusalOk_none_iff hfm hf hsvr, trySvr_status o 4 hi]
        have hearly : ∀ j, 0 < j → j < 4 → ¬ (o j).Resolves :=
          fun j h0 hj hr => hb (hfound.mpr ⟨j, h0, hj, hr⟩)
        refine ⟨fun h hc => h 0 (by decide) hc.2.2, fun hc j hj hr => ?_⟩
        rcases Nat.eq_zero_or_pos j with rfl | h0
        · exact hc ⟨hi, hearly, hr⟩
        · exact hearly j h0 hj hr
    · rw [trySvr_resolved o (by decide) hi, if_pos rfl]
      exact ⟨fun _ hc => hi hc.1, fun _ => hfm⟩

end

/-- One policy, for every address, with an unresolved server. -/
def sampleSide : PolSide 4 (BitVec 16) :=
  { emptySide 4 (BitVec 16) 0 with
    polHead := [1]
    pols := Function.update (fun _ => none) 1 (some ⟨0, 0, 0, 0, 0⟩)
    svrHead := [0]
    svrs := Function.update (fun _ => none) 0 (some ⟨.init, ![10, 0, 0, 1], 0, 0⟩)
    serverNum := 1
    brk := 2 }

theorem sampleSide_live : Live sampleSide where
  pol p hp := by
    obtain rfl := List.mem_singleton.mp hp
    exact ⟨by decide, ⟨0, 0, 0, 0, 0⟩, rfl, List.mem_singleton_self _⟩
  svr q hq := by
    obtain rfl := List.mem_singleton.mp hq
    exact ⟨by decide, _, rfl⟩

/-- Only the attempt `k` ends with a MAC address. -/
def resolvesAt (k : ℕ) : ℕ → MacOutcomes := fun j _ => ⟨true, if j = k then 1 else 0⟩

theorem policyLookup_iff_sample : ∃ r s',
    policyLookup (resolvesAt 1) 0 sampleSide sampleSide.polHead = .ok (r, s') ∧
      RefusalOk sampleSide 0 r s' := by
  obtain ⟨r, s', hrun, hiff⟩ := policyLookup_iff sampleSide_live 0 (resolvesAt 1)
  refine ⟨r, s', hrun, hiff.mpr ?_⟩
  rintro ⟨p, f, v, -, -, -, -, -, h⟩
  exact absurd h (by decide)

/-- The server is resolved by the last attempt, and the packet is refused. -/
theorem refused_resolved : Live sampleSide ∧ ∃ s',
    policyLookup (resolvesAt 0) 0 sampleSide sampleSide.polHead = .ok (none, s') ∧
      ¬ RefusalOk sampleSide 0 none s' := by
  refine ⟨sampleSide_live, _, rfl, ?_⟩
  rintro (h | ⟨p, f, v, hfirst, hf, hv, hst⟩)
  · exact absurd h (by decide)
  · have hp : firstMatch sampleSide 0 = some 1 := by decide
    obtain rfl := Option.some.inj (hp.symm.trans hfirst)
    cases hf
    cases hv
    exact absurd hst (by decide)

end Sasat
