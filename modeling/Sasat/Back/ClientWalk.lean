import Sasat.Back.ClientMap

/-!
# Whether the bucket walks end

A call walks the chain of its bucket. The chains are finite as long as no entry enters the bucket
that it is on already, which a recycled pool does not rule out.

* `Ends`: the walk of a call ends; `Finite`: every list of a table is a finite chain.
* `Fresh`: what a call needs of the table; **`Finite.step`**: a fresh call keeps the table finite.
* **`walks_end`**: in a run of fresh calls every walk ends.
* **`not_finite_of_not_fresh`**: a call that is not fresh makes the chain of its bucket endless.
-/

namespace Sasat

open Intrusive

namespace CiTable

variable {A : Type} {hash : A → CiBucket} {t : CiTable A} {a : A} {e : CiPtr} {b : CiBucket}
  {tsc : BitVec 64}

/-- Every list of the table is a finite chain. -/
def Finite (t : CiTable A) : Prop := ∀ k, ∃ l, Links t.next (t.head k) l

theorem Finite.hit (h : Finite t) : Finite (t.hit tsc e) := by
  intro k
  rw [next_hit]
  obtain ⟨l, hl⟩ := h k
  exact ⟨l, by cases k <;> exact hl⟩

theorem head_enter (k : Option CiBucket) : (t.enter a b e).head k =
    if k = some b then some e else t.head k := by
  cases k with
  | none => rfl
  | some c =>
    simp only [Option.some_inj]
    exact Function.update_apply _ _ _ _

theorem Finite.enter {l : List CiPtr} (h : Finite t) (hl : Links t.next (t.ch b) l) (he : e ∉ l) :
    Finite (t.enter a b e) := by
  intro k
  rw [next_enter, head_enter]
  split_ifs with hk
  · exact ⟨_, hl.push he⟩
  · obtain ⟨m, hm⟩ := h k
    exact hl.exists_update he hm

theorem finite_of_refilled {u : CiTable A} (h : Links u.next u.cf (lastCi :: restCi)) :
    Finite ({ u with cf := u.next lastCi } : CiTable A) ∧
      ∀ b, u.ch b ≠ some lastCi → ∃ l, Links u.next (u.ch b) l ∧ lastCi ∉ l := by
  have key : ∀ b, ∃ l, Links u.next (u.ch b) l ∧ (u.ch b ≠ some lastCi → lastCi ∉ l) := by
    intro b
    cases hb : u.ch b with
    | none => exact ⟨[], rfl, fun _ => List.not_mem_nil⟩
    | some e =>
      by_cases he : e = lastCi
      · subst he
        exact ⟨lastCi :: restCi, ⟨rfl, h.2⟩, fun hne => absurd rfl hne⟩
      · obtain ⟨x, y, hxy⟩ := List.append_of_mem (mem_restCi he)
        refine ⟨e :: y, ⟨rfl, ?_⟩, fun _ hmem => ?_⟩
        · have h2 := h.2
          rw [hxy] at h2
          exact h2.of_append
        · refine (List.nodup_cons.mp h.nodup).1 ?_
          rw [hxy]
          exact List.mem_append_right _ hmem
  refine ⟨fun k => ?_, fun b hb => ?_⟩
  · cases k with
    | none => exact ⟨_, h.2⟩
    | some b =>
      obtain ⟨l, hl, -⟩ := key b
      exact ⟨l, hl⟩
  · obtain ⟨l, hl, hne⟩ := key b
    exact ⟨l, hl, hne hb⟩

variable [DecidableEq A]

/-- The bucket walk for address `a` ends. -/
def Ends (hash : A → CiBucket) (t : CiTable A) (a : A) : Prop :=
  ∃ n r, t.search hash a n = some r

/-- The chain of the bucket of `a` has an entry for `a` or is without the entry that a call would
take: the first free one or, of a recycled pool, the last one. -/
def Fresh (hash : A → CiBucket) (t : CiTable A) (a : A) : Prop :=
  ∀ l, Links t.next (t.ch (hash a)) l → (∃ e ∈ l, (t.init e).cliIp = a) ∨
    match t.cf with
    | some e => e ∉ l
    | none => l.head? ≠ some lastCi

omit [DecidableEq A] in
theorem fresh_of_ch_none (h : t.ch (hash a) = none) : Fresh hash t a := by
  intro l hl
  rw [h, links_none] at hl
  subst hl
  right
  cases t.cf <;> simp

omit [DecidableEq A] in
theorem fresh_of_head (h : t.ch (hash a) = some e) (ha : (t.init e).cliIp = a) :
    Fresh hash t a := by
  intro l hl
  rw [hl.eq_head?] at h
  exact Or.inl ⟨e, List.mem_of_mem_head? h, ha⟩

theorem Sound.fresh {log : List A} {P : Option CiBucket → List CiPtr} (h : Sound hash t log P)
    (hroom : (log ++ [a]).toFinset.card ≤ cliCache) : Fresh hash t a := by
  intro l hl
  obtain rfl := hl.unique (h.placed.links (some (hash a)))
  by_cases ha : a ∈ log
  · exact Or.inl (h.logged a ha)
  · have hcard := h.card_log
    have hone : (log ++ [a]).toFinset.card = log.toFinset.card + 1 := by
      have hset : (log ++ [a]).toFinset = insert a log.toFinset := by
        rw [List.toFinset_append, Finset.union_comm]
        rfl
      rw [hset, Finset.card_insert_of_notMem (mt List.mem_toFinset.mp ha)]
    have hcf : t.cf = (P none).head? := (h.placed.links none).eq_head?
    cases hP : P none with
    | nil =>
      rw [hP, List.length_nil] at hcard
      omega
    | cons e f =>
      rw [hP] at hcf
      rw [hcf]
      refine Or.inr fun he => Option.some_ne_none _ (h.placed.unique he ?_)
      exact hP ▸ List.mem_cons_self

/-- The fault of `getCi` is a walk that never ends. -/
theorem search_eq_none_iff : t.search hash a (cliCache + 1) = none ↔ ¬ Ends hash t a := by
  constructor
  · rintro h ⟨n, r, hr⟩
    have hcard : cliCache + 1 = Fintype.card CiPtr + 1 := by rw [Fintype.card_fin]
    unfold search at h hr
    rw [hcard] at h
    rw [walk_stuck h n] at hr
    exact Option.some_ne_none r hr.symm
  · intro h
    by_contra hn
    obtain ⟨r, hr⟩ := Option.ne_none_iff_exists'.mp hn
    exact h ⟨_, r, hr⟩

theorem Finite.search_eq (h : Finite t) (hash : A → CiBucket) (a : A) :
    ∃ l, Links t.next (t.ch (hash a)) l ∧
      t.search hash a (cliCache + 1) = some (l.find? fun e => (t.init e).cliIp == a) := by
  obtain ⟨l, hl⟩ := h (some (hash a))
  refine ⟨l, hl, walk_eq_find hl ?_⟩
  exact Nat.lt_succ_of_le (hl.length_le.trans_eq (Fintype.card_fin _))

theorem Finite.ends (h : Finite t) (hash : A → CiBucket) (a : A) : Ends hash t a := by
  obtain ⟨l, -, hs⟩ := h.search_eq hash a
  exact ⟨_, _, hs⟩

variable [Zero A]

/-- **A fresh call returns and keeps every list finite.** -/
theorem Finite.step (h : Finite t) (hfresh : Fresh hash t a) (tsc : BitVec 64) :
    ∃ t', getCi hash tsc a t = .ok t' ∧ Finite t' := by
  obtain ⟨l, hl, hs⟩ := h.search_eq hash a
  cases hr : l.find? fun e => (t.init e).cliIp == a with
  | some e =>
    rw [hr] at hs
    exact ⟨_, getCi_hit hs, h.hit⟩
  | none =>
    rw [hr] at hs
    have hnew := (hfresh l hl).resolve_left fun ⟨e, he, hea⟩ => by
      have := List.find?_eq_none.mp hr e he
      simp [hea] at this
    cases hcf : t.cf with
    | some e =>
      rw [hcf] at hnew
      refine ⟨_, getCi_insert hs hcf, Finite.hit (Finite.enter (fun k => ?_) hl hnew)⟩
      cases k with
      | some c => exact h (some c)
      | none =>
        obtain ⟨f, hf⟩ := h none
        change Links t.next t.cf f at hf
        rw [hcf] at hf
        cases f with
        | nil => exact absurd hf (by simp)
        | cons i f =>
          obtain rfl : e = i := Option.some.inj hf.1
          exact ⟨f, hf.2⟩
    | none =>
      rw [hcf] at hnew
      obtain ⟨u, hfill, hch, hget⟩ := getCi_recycle hs hcf
      obtain ⟨hfin, hlast⟩ := finite_of_refilled hfill
      obtain ⟨m, hm, hme⟩ := hlast (hash a) (by rw [hch, hl.eq_head?]; exact hnew)
      exact ⟨_, hget tsc, Finite.hit (Finite.enter hfin hm hme)⟩

/-- **A call that is not fresh makes the chain of its bucket endless.** -/
theorem not_finite_of_not_fresh (hfresh : ¬ Fresh hash t a) {t' : CiTable A}
    (hget : getCi hash tsc a t = .ok t') : ∀ l, ¬ Links t'.next (t'.ch (hash a)) l := by
  unfold Fresh at hfresh
  push Not at hfresh
  obtain ⟨l, hl, hmiss, htaken⟩ := hfresh
  have hs : t.search hash a (cliCache + 1) = some none := by
    refine (walk_eq_find hl ?_).trans (congrArg some (List.find?_eq_none.mpr fun e he => ?_))
    · exact Nat.lt_succ_of_le (hl.length_le.trans_eq (Fintype.card_fin _))
    · simpa using hmiss e he
  have hlinks : ∀ {s : CiTable A} {e : CiPtr} {m : List CiPtr},
      Links s.next (s.ch (hash a)) m → e ∈ m →
        ∀ l, ¬ Links ((s.enter a (hash a) e).hit tsc e).next
          (((s.enter a (hash a) e).hit tsc e).ch (hash a)) l := by
    intro s e m hm he l hl
    rw [next_hit, next_enter] at hl
    have hhead : ((s.enter a (hash a) e).hit tsc e).ch (hash a) = some e :=
      Function.update_self _ _ _
    rw [hhead] at hl
    exact hm.not_links_update he l hl
  cases hcf : t.cf with
  | some e =>
    rw [hcf] at htaken
    rw [getCi_insert hs hcf] at hget
    rw [← Except.ok.inj hget]
    exact hlinks (s := { t with cf := t.next e }) hl (not_not.mp htaken)
  | none =>
    rw [hcf] at htaken
    obtain ⟨u, hfill, hch, hget'⟩ := getCi_recycle hs hcf
    rw [hget'] at hget
    rw [← Except.ok.inj hget]
    have hhead : u.ch (hash a) = some lastCi := by
      rw [hch, hl.eq_head?]
      exact not_not.mp htaken
    refine hlinks (s := { u with cf := u.next lastCi }) (m := lastCi :: restCi) ?_ (by simp)
    exact ⟨hhead, hfill.2⟩

theorem finite_initial : Finite (initial : CiTable A) := by
  obtain ⟨P, hP⟩ := (sound_initial (fun _ => ⟨0, by decide⟩ : A → CiBucket))
  exact fun k => ⟨_, hP.placed.links k⟩

theorem getCi_initial (hash : A → CiBucket) (tsc : BitVec 64) (a : A) :
    ∃ t', getCi hash tsc a initial = .ok t' ∧ t'.ch (hash a) = some lastCi := by
  obtain ⟨hfill, hch, -⟩ :=
    fillFree_spec (⟨none, fun _ => none, fun _ => ⟨none, 0, 0, 0⟩⟩ : CiTable A)
  have hs : (initial : CiTable A).search hash a (cliCache + 1) = some none := by
    have hnil : (initial : CiTable A).ch (hash a) = none := congrFun hch _
    rw [search, hnil]
    rfl
  exact ⟨_, getCi_insert hs hfill.1, Function.update_self _ _ _⟩

theorem getCi_ch {t' : CiTable A} (hget : getCi hash tsc a t = .ok t') (hb : b ≠ hash a) :
    t'.ch b = t.ch b := by
  cases hs : t.search hash a (cliCache + 1) with
  | none =>
    unfold getCi at hget
    rw [hs] at hget
    exact absurd hget (by simp)
  | some r =>
    cases r with
    | some e =>
      rw [getCi_hit hs] at hget
      rw [← Except.ok.inj hget]
      rfl
    | none =>
      cases hcf : t.cf with
      | some e =>
        rw [getCi_insert hs hcf] at hget
        rw [← Except.ok.inj hget]
        exact Function.update_of_ne hb _ _
      | none =>
        obtain ⟨u, -, hch, hget'⟩ := getCi_recycle hs hcf
        rw [hget'] at hget
        rw [← Except.ok.inj hget, ← hch]
        exact Function.update_of_ne hb _ _

end CiTable

/-! ## Runs -/

theorem runCi_concat (ci : ClientInfo) (calls : List CiCall) (c : CiCall) :
    runCi ci (calls ++ [c]) = runCi ci calls >>= fun ci => c.step ci := by
  simp [runCi, List.foldlM_append]

theorem runCi_finite (st ts : BitVec 64) {calls : List CiCall}
    (h : ∀ pre c, pre ++ [c] <+: calls → ∀ ci, runCi (initClientTable st ts) pre = .ok ci →
      (ci.table c.kind).Fresh c.kind.hash c.addr) :
    ∃ ci, runCi (initClientTable st ts) calls = .ok ci ∧ ∀ k, (ci.table k).Finite := by
  induction calls using List.reverseRecOn with
  | nil =>
    refine ⟨_, rfl, fun k => ?_⟩
    rw [ClientInfo.table_initClientTable]
    exact CiTable.finite_initial
  | append_singleton calls c ih =>
    obtain ⟨ci, hrun, hfin⟩ := ih fun pre c' hp => h pre c' (hp.trans (List.prefix_append _ _))
    obtain ⟨t', hget, ht'⟩ := (hfin c.kind).step (h calls c List.prefix_rfl ci hrun) c.tsc
    refine ⟨ci.setTable c.kind t', ?_, fun k => ?_⟩
    · rw [runCi_concat, hrun]
      exact CiCall.step_ok hget
    · by_cases hk : k = c.kind
      · subst hk
        rwa [ClientInfo.table_setTable_self]
      · rw [ClientInfo.table_setTable_of_ne hk]
        exact hfin k

/-- **In a run of fresh calls the bucket walk of every call ends.** -/
theorem walks_end (st ts : BitVec 64) (calls : List CiCall)
    (h : ∀ pre c, pre ++ [c] <+: calls → ∀ ci, runCi (initClientTable st ts) pre = .ok ci →
      (ci.table c.kind).Fresh c.kind.hash c.addr) :
    ∀ pre c, pre ++ [c] <+: calls → ∃ ci, runCi (initClientTable st ts) pre = .ok ci ∧
      (ci.table c.kind).Ends c.kind.hash c.addr := by
  intro pre c hp
  obtain ⟨ci, hrun, hfin⟩ := runCi_finite st ts fun pre' c' (hp' : pre' ++ [c'] <+: pre) =>
    h pre' c' (hp'.trans ((List.prefix_append _ _).trans hp))
  exact ⟨ci, hrun, (hfin c.kind).ends _ _⟩

theorem fresh_of_fits {st ts : BitVec 64} {pre : List CiCall} {c : CiCall}
    (h : Traced.Fits (pre ++ [c])) {ci : ClientInfo}
    (hrun : runCi (initClientTable st ts) pre = .ok ci) :
    (ci.table c.kind).Fresh c.kind.hash c.addr := by
  obtain ⟨hfits, hroom⟩ := Traced.fits_concat.mp h
  obtain ⟨s, hs, hsound, hlog⟩ := Traced.run_of_fits st ts hfits
  obtain rfl := Except.ok.inj (hrun.symm.trans (Traced.run_info hs))
  obtain ⟨P, hP⟩ := hsound c.kind
  refine hP.fresh ?_
  rwa [hlog]

/-! ## Runs that use up the pool -/

theorem step_up4_ok {ci : ClientInfo} {tsc : BitVec 64} {a : InAddr} {t : CiTable InAddr}
    (h : ci.up4.getCi cliHash4 tsc a = .ok t) :
    CiCall.step ci (.up4 tsc a) = .ok { ci with up4 := t } := by
  rw [CiCall.step, getCiUp4, h]
  rfl

theorem runCi_up4_ch {b : CiBucket} {l : List InAddr} {ci ci' : ClientInfo}
    (hl : ∀ a ∈ l, b ≠ cliHash4 a) (h : runCi ci (up4Calls l) = .ok ci') :
    ci'.up4.ch b = ci.up4.ch b := by
  induction l generalizing ci with
  | nil =>
    obtain rfl := Except.ok.inj h
    rfl
  | cons a l ih =>
    rw [up4Calls, List.map_cons, runCi, List.foldlM_cons] at h
    change getCiUp4 0 a ci >>= _ = _ at h
    unfold getCiUp4 at h
    cases hget : ci.up4.getCi cliHash4 0 a with
    | error f =>
      rw [hget] at h
      exact absurd h (by simp [bind, Except.bind])
    | ok t =>
      rw [hget] at h
      refine (ih (fun a' ha' => hl a' (List.mem_cons_of_mem _ ha')) h).trans ?_
      exact CiTable.getCi_ch hget (hl a List.mem_cons_self)

theorem fits_up4Calls {l : List InAddr} (hl : l.toFinset.card ≤ cliCache) :
    Traced.Fits (up4Calls l) := by
  intro k
  cases k with
  | up4 => rwa [addrs_up4Calls]
  | dwn4 | up6 | dwn6 => simp [addrs, up4Calls, CiCall.kind]

/-- After as many clients as the pool has entries the free list is empty, and no other client is
found. -/
theorem run_exhausted {l : List InAddr} (hl : l.toFinset.card = cliCache) :
    ∃ ci, runCi (initClientTable 0 0) (up4Calls l) = .ok ci ∧ ci.up4.cf = none ∧
      ∀ a, a ∉ l → ci.up4.search cliHash4 a (cliCache + 1) = some none := by
  obtain ⟨s, hrun, hs, hlog⟩ := Traced.run_of_fits 0 0 (fits_up4Calls hl.le)
  obtain ⟨P, hP⟩ := hs .up4
  rw [hlog, addrs_up4Calls] at hP
  refine ⟨s.info, Traced.run_info hrun, ?_, fun a ha => hP.search_none ha⟩
  have hcard : l.toFinset.card + (P none).length = cliCache := hP.card_log
  have hnil : P none = [] := List.eq_nil_of_length_eq_zero (by omega)
  have hcf := (hP.placed.links none).eq_head?
  rwa [hnil] at hcf

/-- Clients with the hash codes from `266` on. -/
def otherClients (n : ℕ) : List InAddr := (List.range n).map fun i => ![10, 1, 0, BitVec.ofNat 8 i]

theorem card_otherClients {n : ℕ} (hn : n ≤ 256) : (otherClients n).toFinset.card = n := by
  have hnd : (otherClients n).Nodup := by
    refine List.Nodup.map_on (fun i hi j hj hij => ?_) List.nodup_range
    have h3 := congrArg BitVec.toNat (congrFun hij 3)
    simp only [Matrix.cons_val, BitVec.toNat_ofNat] at h3
    rw [List.mem_range] at hi hj
    omega
  rw [List.toFinset_card_of_nodup hnd, otherClients, List.length_map, List.length_range]

theorem notMem_otherClients {n : ℕ} {a : InAddr} (ha : a 1 ≠ 1) : a ∉ otherClients n := by
  intro h
  obtain ⟨i, -, rfl⟩ := List.mem_map.mp h
  exact ha rfl

theorem cliHash4_otherClients {n : ℕ} {a : InAddr} (ha : a ∈ otherClients n) :
    266 ≤ (cliHash4 a : ℕ) ∧ (cliHash4 a : ℕ) < 522 := by
  obtain ⟨i, -, rfl⟩ := List.mem_map.mp ha
  have hmask : ∀ n : ℕ, n &&& cliMask = n % 1024 := fun n => Nat.and_two_pow_sub_one_eq_mod n 10
  simp only [cliHash4, ipHashCode4, hmask, Matrix.cons_val, BitVec.ofNat_eq_ofNat,
    BitVec.toNat_ofNat, Nat.shiftLeft_eq]
  omega

/-! ## A run that goes through

Two clients share bucket `11`, and the first of them returns. When the pool is used up, a client of
an empty bucket has it recycled, and returns as well. -/

/-- The clients that use up the pool. -/
def servedClients : List InAddr :=
  ![10, 0, 0, 1] :: ![1, 0, 0, 10] :: ![10, 0, 0, 1] :: otherClients 254

def servedCalls : List CiCall := up4Calls (servedClients ++ [![10, 3, 0, 1], ![10, 3, 0, 1]])

theorem card_servedClients : servedClients.toFinset.card = cliCache := by
  have hset : servedClients.toFinset =
      insert ![10, 0, 0, 1] (insert ![1, 0, 0, 10] (otherClients 254).toFinset) := by
    simp only [servedClients, List.toFinset_cons]
    rw [Finset.insert_comm ![1, 0, 0, 10], Finset.insert_idem]
  rw [hset, Finset.card_insert_of_notMem, Finset.card_insert_of_notMem,
    card_otherClients (by omega)]
  · rfl
  · rw [List.mem_toFinset]
    exact notMem_otherClients (by decide)
  · rw [Finset.mem_insert, List.mem_toFinset, not_or]
    exact ⟨by decide, notMem_otherClients (by decide)⟩

/-- The two clients that share a bucket, and the one that has the pool recycled. -/
theorem run_servedClients : ∃ ci, runCi (initClientTable 0 0) (up4Calls servedClients) = .ok ci ∧
    ci.up4.ch (cliHash4 ![10, 3, 0, 1]) = none ∧
      ci.up4.recycles cliHash4 ![10, 3, 0, 1] = true := by
  obtain ⟨ci, hrun, hcf, hnone⟩ := run_exhausted card_servedClients
  have hne : ∀ a ∈ servedClients, cliHash4 ![10, 3, 0, 1] ≠ cliHash4 a := by
    intro a ha
    simp only [servedClients, List.mem_cons] at ha
    obtain rfl | rfl | rfl | ha := ha
    · decide
    · decide
    · decide
    · have hlt := (cliHash4_otherClients ha).2
      intro heq
      rw [← heq] at hlt
      exact absurd hlt (by decide)
  refine ⟨ci, hrun, ?_, ?_⟩
  · refine (runCi_up4_ch hne hrun).trans ?_
    exact congrFun (CiTable.fillFree_spec _).2.1 _
  · have hs := hnone ![10, 3, 0, 1] fun hmem => hne _ hmem rfl
    rw [CiTable.recycles, hs, hcf]
    rfl

theorem fresh_servedCalls (pre : List CiCall) (c : CiCall) (hp : pre ++ [c] <+: servedCalls)
    (ci : ClientInfo) (hrun : runCi (initClientTable 0 0) pre = .ok ci) :
    (ci.table c.kind).Fresh c.kind.hash c.addr := by
  have hcalls : servedCalls = up4Calls servedClients ++ [.up4 0 ![10, 3, 0, 1]] ++
      [.up4 0 ![10, 3, 0, 1]] := by
    simp [servedCalls, up4Calls]
  obtain ⟨ci₁, hrun₁, hch, hrec⟩ := run_servedClients
  rw [hcalls, List.prefix_concat_iff, List.prefix_concat_iff] at hp
  rcases hp with hp | hp | hp
  · -- the client that had the pool recycled returns
    obtain ⟨rfl, hc⟩ := List.append_inj' hp rfl
    obtain rfl := (List.cons.inj hc).1
    rw [CiTable.recycles, Bool.and_eq_true, beq_iff_eq, beq_iff_eq] at hrec
    obtain ⟨u, -, -, hget⟩ := CiTable.getCi_recycle hrec.1 hrec.2
    rw [runCi_concat, hrun₁] at hrun
    obtain rfl := Except.ok.inj ((step_up4_ok (hget 0)).symm.trans hrun)
    have hch' := Function.update_self (cliHash4 ![10, 3, 0, 1]) (some CiTable.lastCi) u.ch
    exact CiTable.fresh_of_head hch'
      (CiTable.hit_cliIp.trans (congrArg Ci.cliIp (CiTable.enter_init_self _)))
  · -- its bucket is empty before
    obtain ⟨rfl, hc⟩ := List.append_inj' hp rfl
    obtain rfl := (List.cons.inj hc).1
    obtain rfl := Except.ok.inj (hrun₁.symm.trans hrun)
    exact CiTable.fresh_of_ch_none hch
  · exact fresh_of_fits ((fits_up4Calls card_servedClients.le).of_front hp) hrun

theorem walks_end_servedCalls :
    (∃ ci, runCi (initClientTable 0 0) (up4Calls servedClients) = .ok ci ∧
      ci.up4.recycles cliHash4 ![10, 3, 0, 1] = true) ∧
    ∀ pre c, pre ++ [c] <+: servedCalls → ∃ ci, runCi (initClientTable 0 0) pre = .ok ci ∧
      (ci.table c.kind).Ends c.kind.hash c.addr := by
  obtain ⟨ci, hrun, -, hrec⟩ := run_servedClients
  exact ⟨⟨ci, hrun, hrec⟩, walks_end 0 0 servedCalls fresh_servedCalls⟩

/-! ## A run that hangs

A client of bucket `11` and 255 clients of other buckets use up the pool. The next client of
bucket `11` takes the entry that the bucket still points to, which now points to itself. -/

/-- An entry that enters the bucket that it heads points to itself, and the next search for another
address never ends. -/
theorem CiTable.not_ends_self {A : Type} [DecidableEq A] {hash : A → CiBucket} {u : CiTable A}
    {a a' : A} {e : CiPtr} (tsc : BitVec 64) (hch : u.ch (hash a) = some e)
    (hb : hash a' = hash a) (ha : a ≠ a') :
    ¬ Ends hash ((u.enter a (hash a) e).hit tsc e) a' := by
  rintro ⟨n, r, hr⟩
  have hnext : ((u.enter a (hash a) e).hit tsc e).next e = some e := by
    rw [next_hit, next_enter, Function.update_self, hch]
  have hhead : ((u.enter a (hash a) e).hit tsc e).ch (hash a') = some e := by
    rw [hb]
    exact Function.update_self _ _ _
  rw [search, hhead, walk_self_loop hnext] at hr
  · exact Option.some_ne_none r hr.symm
  · rw [hit_cliIp, enter_init_self]
    exact beq_false_of_ne ha

def poolClients : List InAddr := ![10, 0, 0, 1] :: otherClients 255

def hangCalls : List CiCall := up4Calls (poolClients ++ [![1, 0, 0, 10]])

theorem card_poolClients : poolClients.toFinset.card = cliCache := by
  rw [poolClients, List.toFinset_cons, Finset.card_insert_of_notMem,
    card_otherClients (by omega)]
  · rfl
  · rw [List.mem_toFinset]
    exact notMem_otherClients (by decide)

theorem run_poolClients : ∃ ci, runCi (initClientTable 0 0) (up4Calls poolClients) = .ok ci ∧
    ci.up4.cf = none ∧ ci.up4.ch (cliHash4 ![10, 0, 0, 1]) = some CiTable.lastCi ∧
      ∀ a, a ∉ poolClients → ci.up4.search cliHash4 a (cliCache + 1) = some none := by
  obtain ⟨ci, hrun, hcf, hnone⟩ := run_exhausted card_poolClients
  refine ⟨ci, hrun, hcf, ?_, hnone⟩
  obtain ⟨t, hget, ht⟩ := CiTable.getCi_initial cliHash4 0 ![10, 0, 0, 1]
  change runCi (initClientTable 0 0) (.up4 0 ![10, 0, 0, 1] :: up4Calls _) = _ at hrun
  rw [runCi, List.foldlM_cons, step_up4_ok hget] at hrun
  refine (runCi_up4_ch (fun a ha heq => ?_) hrun).trans ht
  have hle := (cliHash4_otherClients ha).1
  rw [← heq] at hle
  exact absurd hle (by decide)

/-- **A bucket walk that never ends.** -/
theorem not_walks_end_hangCalls : ¬ ∀ (st ts : BitVec 64) (pre : List CiCall) (c : CiCall),
    ∃ ci, runCi (initClientTable st ts) pre = .ok ci ∧
      (ci.table c.kind).Ends c.kind.hash c.addr := by
  intro h
  obtain ⟨ci', hrun', hends⟩ := h 0 0 hangCalls (.up4 0 ![10, 2, 2, 1])
  obtain ⟨ci, hrun, hcf, hch, hnone⟩ := run_poolClients
  have hsearch := hnone ![1, 0, 0, 10] (by
    intro hmem
    rcases List.mem_cons.mp hmem with heq | hmem
    · exact absurd (congrFun heq 0) (by simp)
    · exact notMem_otherClients (by decide) hmem)
  obtain ⟨u, -, huch, hget⟩ := CiTable.getCi_recycle hsearch hcf
  rw [hangCalls, up4Calls, List.map_append] at hrun'
  change runCi _ (up4Calls poolClients ++ [.up4 0 ![1, 0, 0, 10]]) = _ at hrun'
  rw [runCi_concat, hrun] at hrun'
  change CiCall.step ci (.up4 0 ![1, 0, 0, 10]) = _ at hrun'
  rw [step_up4_ok (hget 0)] at hrun'
  obtain rfl := Except.ok.inj hrun'
  -- the three clients share their bucket
  have hb : cliHash4 ![1, 0, 0, 10] = cliHash4 ![10, 0, 0, 1] := by decide
  have hb' : cliHash4 ![10, 2, 2, 1] = cliHash4 ![1, 0, 0, 10] := by decide
  rw [← hb, ← huch] at hch
  have hne : (![1, 0, 0, 10] : InAddr) ≠ ![10, 2, 2, 1] := by decide
  exact CiTable.not_ends_self 0 hch hb' hne hends

end Sasat
