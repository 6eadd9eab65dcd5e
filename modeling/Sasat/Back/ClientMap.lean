import Sasat.Back.ClientTbl

/-!
# The client tables as maps

A table stands for the number of calls with each address since the pool was last recycled. The
calls are kept in a log beside the table.

* `Placed`: every pool entry lies on exactly one of the free list and the buckets.
* `Refines`: the table agrees with the log; `Sound`: what a call preserves besides.
* **`Sound.step`**: a call keeps a table sound while the log has at most `cliCache` addresses, and
  the call that goes beyond breaks the table.
* **`refines_iff_fits`**: the runs in which every table agrees with its log after every call.
-/

namespace Sasat

open Intrusive

namespace CiTable

variable {A : Type}

def head (t : CiTable A) : Option CiBucket → Option CiPtr
  | none => t.cf
  | some b => t.ch b

/-- Every list of the table is a finite chain, and every entry lies on exactly one of them. -/
structure Placed (t : CiTable A) (P : Option CiBucket → List CiPtr) : Prop where
  links : ∀ k, Links t.next (t.head k) (P k)
  once : ∀ e, ∃! k, e ∈ P k

variable [DecidableEq A]

/-- The table agrees with the log of the calls since the last recycle. -/
structure Agrees (hash : A → CiBucket) (t : CiTable A) (log : List A)
    (P : Option CiBucket → List CiPtr) : Prop where
  placed : Placed t P
  hashed : ∀ {b e}, e ∈ P (some b) → hash (t.init e).cliIp = b
  inj : ∀ {b b' e e'}, e ∈ P (some b) → e' ∈ P (some b') →
    (t.init e).cliIp = (t.init e').cliIp → e = e'
  hits : ∀ {b e}, e ∈ P (some b) →
    (t.init e).hit = BitVec.ofNat 32 (log.count (t.init e).cliIp)
  logged : ∀ a ∈ log, ∃ e ∈ P (some (hash a)), (t.init e).cliIp = a

/-- **The table refines the map of its log.** -/
def Refines (hash : A → CiBucket) (t : CiTable A) (log : List A) : Prop := ∃ P, Agrees hash t log P

/-- What a call preserves as long as the pool lasts. -/
structure Sound (hash : A → CiBucket) (t : CiTable A) (log : List A)
    (P : Option CiBucket → List CiPtr) : Prop extends Agrees hash t log P where
  unused : ∀ {e}, e ∈ P none → (t.init e).hit = 0
  entered : ∀ {b e}, e ∈ P (some b) → (t.init e).cliIp ∈ log

/-- The call with address `a` finds neither an entry nor a free one. -/
def recycles (hash : A → CiBucket) (t : CiTable A) (a : A) : Bool :=
  t.search hash a (cliCache + 1) == some none && t.cf == none

variable {hash : A → CiBucket} {t : CiTable A} {log : List A} {P : Option CiBucket → List CiPtr}
  {a : A} {e : CiPtr} {tsc : BitVec 64} {f : List CiPtr}

/-! ## Lists -/

section Placed

omit [DecidableEq A]

theorem Placed.unique (h : Placed t P) {k k' : Option CiBucket} (hk : e ∈ P k) (hk' : e ∈ P k') :
    k = k' := (h.once e).unique hk hk'

theorem Placed.length_lt (h : Placed t P) (k : Option CiBucket) : (P k).length < cliCache + 1 :=
  Nat.lt_succ_of_le ((h.links k).length_le.trans_eq (Fintype.card_fin _))

/-- The lists once the first free entry has moved to bucket `b`. -/
def moved (P : Option CiBucket → List CiPtr) (f : List CiPtr) (b : CiBucket) (e : CiPtr) :
    Option CiBucket → List CiPtr
  | none => f
  | some c => if c = b then e :: P (some b) else P (some c)

theorem mem_moved (hP : P none = e :: f) (b : CiBucket) {i : CiPtr} (hi : i ≠ e)
    (k : Option CiBucket) : i ∈ moved P f b e k ↔ i ∈ P k := by
  cases k with
  | none =>
    rw [hP]
    simp [moved, hi]
  | some c =>
    rw [moved]
    split_ifs with hc
    · subst hc
      simp [hi]
    · rfl

theorem mem_moved_self (h : Placed t P) (hP : P none = e :: f) (b : CiBucket)
    (k : Option CiBucket) : e ∈ moved P f b e k ↔ k = some b := by
  have he : e ∈ P none := hP ▸ List.mem_cons_self
  have hnd := (h.links none).nodup
  rw [hP] at hnd
  cases k with
  | none => simpa [moved] using (List.nodup_cons.mp hnd).1
  | some c =>
    rw [moved]
    split_ifs with hc
    · simp [hc]
    · have hm : e ∉ P (some c) := fun hm => Option.some_ne_none c (h.unique hm he)
      simp [hc, hm]

theorem Placed.enter (h : Placed t P) (hP : P none = e :: f) (a : A) (b : CiBucket) :
    Placed (({ t with cf := t.next e } : CiTable A).enter a b e) (moved P f b e) := by
  have hfree := h.links none
  have hnd := hfree.nodup
  rw [hP] at hfree hnd
  have hb : ∀ c, e ∉ P (some c) := fun c hc =>
    Option.some_ne_none c (h.unique hc (hP ▸ List.mem_cons_self))
  have hnext : (({ t with cf := t.next e } : CiTable A).enter a b e).next =
      Function.update t.next e (t.ch b) := next_enter b
  refine ⟨fun k => ?_, fun i => ?_⟩
  · rw [hnext]
    cases k with
    | none => exact hfree.2.update_of_notMem (List.nodup_cons.mp hnd).1 _
    | some c =>
      change Links _ (Function.update t.ch b (some e) c) (if c = b then _ else _)
      split_ifs with hc
      · subst hc
        rw [Function.update_self]
        exact (h.links (some c)).push (hb c)
      · rw [Function.update_of_ne hc]
        exact (h.links (some c)).update_of_notMem (hb c) _
  · by_cases hi : i = e
    · subst hi
      simp only [mem_moved_self h hP]
      exact ⟨some b, rfl, fun _ hk => hk⟩
    · simp only [mem_moved hP b hi]
      exact h.once i

end Placed

namespace Agrees

theorem search_eq (h : Agrees hash t log P) (a : A) : t.search hash a (cliCache + 1) =
    some ((P (some (hash a))).find? fun e => (t.init e).cliIp == a) :=
  walk_eq_find (h.placed.links (some (hash a))) (h.placed.length_lt _)

theorem of_search_some (h : Agrees hash t log P)
    (hs : t.search hash a (cliCache + 1) = some (some e)) :
    e ∈ P (some (hash a)) ∧ (t.init e).cliIp = a := by
  rw [h.search_eq, Option.some_inj] at hs
  exact ⟨List.mem_of_find?_eq_some hs, by simpa using List.find?_some hs⟩

theorem of_search_none (h : Agrees hash t log P)
    (hs : t.search hash a (cliCache + 1) = some none) : a ∉ log := by
  rw [h.search_eq, Option.some_inj, List.find?_eq_none] at hs
  intro ha
  obtain ⟨e, he, hea⟩ := h.logged a ha
  exact hs e he (by simp [hea])

end Agrees

/-! ## One call -/

omit [DecidableEq A] in
theorem Placed.hit (h : Placed t P) : Placed (t.hit tsc e) P := by
  refine ⟨fun k => ?_, h.once⟩
  rw [next_hit]
  have := h.links k
  cases k <;> exact this

omit [DecidableEq A] in
theorem hit_hit_self : ((t.hit tsc e).init e).hit = (t.init e).hit + 1 :=
  congrArg Ci.hit modify_init_self

omit [DecidableEq A] in
theorem hit_hit_of_ne {i : CiPtr} (hi : i ≠ e) : ((t.hit tsc e).init i).hit = (t.init i).hit :=
  congrArg Ci.hit (modify_init_of_ne hi)

theorem count_concat_self (log : List A) (a : A) :
    BitVec.ofNat 32 ((log ++ [a]).count a) = BitVec.ofNat 32 (log.count a) + 1 := by
  rw [List.count_append, List.count_singleton_self, BitVec.ofNat_add]
  rfl

theorem count_concat_of_ne {a' : A} (h : a' ≠ a) : (log ++ [a]).count a' = log.count a' := by
  rw [List.count_append, List.count_singleton, if_neg (by simpa using h.symm), Nat.add_zero]

namespace Sound

theorem search_none (h : Sound hash t log P) (ha : a ∉ log) :
    t.search hash a (cliCache + 1) = some none := by
  rw [h.search_eq, Option.some_inj, List.find?_eq_none]
  intro e he hea
  exact ha (beq_iff_eq.mp hea ▸ h.entered he)

theorem hit (h : Sound hash t log P) (he : e ∈ P (some (hash a))) (hea : (t.init e).cliIp = a) :
    Sound hash (t.hit tsc e) (log ++ [a]) P where
  placed := h.placed.hit
  hashed hi := by
    rw [hit_cliIp]
    exact h.hashed hi
  inj hi hi' := by
    rw [hit_cliIp, hit_cliIp]
    exact h.inj hi hi'
  hits {b i} hi := by
    rw [hit_cliIp]
    by_cases hie : i = e
    · subst hie
      rw [hit_hit_self, h.hits hi, hea, count_concat_self]
    · rw [hit_hit_of_ne hie, h.hits hi, count_concat_of_ne]
      intro hia
      exact hie (h.inj hi he (hia.trans hea.symm))
  logged a' ha' := by
    simp only [hit_cliIp]
    rcases List.mem_append.mp ha' with ha' | ha'
    · exact h.logged a' ha'
    · obtain rfl := List.mem_singleton.mp ha'
      exact ⟨e, he, hea⟩
  unused {i} hi := by
    rw [hit_hit_of_ne, h.unused hi]
    rintro rfl
    exact Option.some_ne_none _ (h.placed.unique he hi)
  entered hi := by
    rw [hit_cliIp]
    exact List.mem_append_left _ (h.entered hi)

theorem enter (h : Sound hash t log P) (ha : a ∉ log) (hP : P none = e :: f) :
    Sound hash ((({ t with cf := t.next e } : CiTable A).enter a (hash a) e).hit tsc e)
      (log ++ [a]) (moved P f (hash a) e) := by
  have hplaced := h.placed.enter hP a (hash a)
  have hself := mem_moved_self h.placed hP (hash a)
  have hother : ∀ {i}, i ≠ e → ∀ k, i ∈ moved P f (hash a) e k ↔ i ∈ P k := mem_moved hP (hash a)
  have hfree : e ∈ P none := hP ▸ List.mem_cons_self
  set t₁ := ({ t with cf := t.next e } : CiTable A).enter a (hash a) e
  have hip : (t₁.init e).cliIp = a := congrArg Ci.cliIp (enter_init_self _)
  have hip' : ∀ {i}, i ≠ e → t₁.init i = t.init i := fun hi => enter_init_of_ne _ hi
  have hhit : (t₁.init e).hit = 0 :=
    (congrArg Ci.hit (enter_init_self _)).trans (h.unused hfree)
  -- an entry that was in a bucket before has an address of the log
  have hold : ∀ {b i}, i ≠ e → i ∈ moved P f (hash a) e (some b) →
      i ∈ P (some b) ∧ (t.init i).cliIp ≠ a := by
    intro b i hi him
    have hib := (hother hi _).mp him
    exact ⟨hib, fun hia => ha (hia ▸ h.entered hib)⟩
  refine ⟨⟨hplaced.hit, ?_, ?_, ?_, ?_⟩, ?_, ?_⟩
  · intro b i hi
    rw [hit_cliIp]
    by_cases hie : i = e
    · subst hie
      rw [hip]
      exact Option.some_inj.mp ((hself _).mp hi).symm
    · rw [hip' hie]
      exact h.hashed (hold hie hi).1
  · intro b b' i i' hi hi'
    rw [hit_cliIp, hit_cliIp]
    by_cases hie : i = e <;> by_cases hie' : i' = e
    · exact fun _ => hie.trans hie'.symm
    · subst hie
      rw [hip, hip' hie']
      exact fun heq => absurd heq.symm (hold hie' hi').2
    · subst hie'
      rw [hip, hip' hie]
      exact fun heq => absurd heq (hold hie hi).2
    · rw [hip' hie, hip' hie']
      exact h.inj (hold hie hi).1 (hold hie' hi').1
  · intro b i hi
    rw [hit_cliIp]
    by_cases hie : i = e
    · subst hie
      rw [hit_hit_self, hhit, hip, count_concat_self, List.count_eq_zero.mpr ha]
      rfl
    · rw [hit_hit_of_ne hie, hip' hie, h.hits (hold hie hi).1, count_concat_of_ne (hold hie hi).2]
  · intro a' ha'
    simp only [hit_cliIp]
    rcases List.mem_append.mp ha' with ha' | ha'
    · obtain ⟨i, hi, hia⟩ := h.logged a' ha'
      have hie : i ≠ e := by
        rintro rfl
        exact Option.some_ne_none _ (h.placed.unique hi hfree)
      exact ⟨i, (hother hie _).mpr hi, by rw [hip' hie, hia]⟩
    · obtain rfl := List.mem_singleton.mp ha'
      exact ⟨e, (hself _).mpr rfl, hip⟩
  · intro i hi
    have hie : i ≠ e := by
      rintro rfl
      exact Option.some_ne_none _ ((hself _).mp hi).symm
    rw [hit_hit_of_ne hie, hip' hie]
    exact h.unused ((hother hie _).mp hi)
  · intro b i hi
    rw [hit_cliIp]
    by_cases hie : i = e
    · subst hie
      simp [hip]
    · rw [hip' hie]
      exact List.mem_append_left _ (h.entered (hold hie hi).1)

/-- **The log has one address for each entry that is not free.** -/
theorem card_log (h : Sound hash t log P) :
    log.toFinset.card + (P none).length = cliCache := by
  classical
  have himg : log.toFinset = (Finset.univ.filter (· ∉ P none)).image fun e => (t.init e).cliIp := by
    ext a
    simp only [List.mem_toFinset, Finset.mem_image, Finset.mem_filter, Finset.mem_univ, true_and]
    constructor
    · intro ha
      obtain ⟨e, he, hea⟩ := h.logged a ha
      exact ⟨e, fun hn => Option.some_ne_none _ (h.placed.unique he hn), hea⟩
    · rintro ⟨e, he, rfl⟩
      obtain ⟨k, hk, -⟩ := h.placed.once e
      cases k with
      | none => exact absurd hk he
      | some b => exact h.entered hk
  rw [himg, Finset.card_image_of_injOn, Finset.filter_not, Finset.card_sdiff_of_subset
    (Finset.filter_subset _ _), Finset.card_univ, Fintype.card_fin]
  · have hcard : (Finset.univ.filter (· ∈ P none)).card = (P none).length := by
      rw [← List.toFinset_card_of_nodup (h.placed.links none).nodup]
      congr 1
      ext e
      simp
    have := h.placed.length_lt none
    rw [hcard]
    omega
  · intro e he e' he' heq
    simp only [Finset.coe_filter, Finset.mem_univ, true_and, Set.mem_ofPred_eq] at he he'
    obtain ⟨k, hk, -⟩ := h.placed.once e
    obtain ⟨k', hk', -⟩ := h.placed.once e'
    cases k with
    | none => exact absurd hk he
    | some b =>
      cases k' with
      | none => exact absurd hk' he'
      | some b' => exact h.inj hk hk' heq

end Sound

/-- **A recycled table is broken**: the refilled free list holds the entries that the buckets still
point to. -/
theorem not_refines_recycle (h : Placed t P) (hP : P none = []) {u : CiTable A} {log : List A}
    (hfill : Links u.next u.cf (lastCi :: restCi)) (hch : u.ch = t.ch) :
    ¬ Refines hash ((({ u with cf := u.next lastCi } : CiTable A).enter a (hash a) lastCi).hit tsc
      lastCi) log := by
  rintro ⟨P', h'⟩
  set t₁ : CiTable A := { u with cf := u.next lastCi } with ht₁
  set t' := (t₁.enter a (hash a) lastCi).hit tsc lastCi
  have hnext : t'.next = Function.update t₁.next lastCi (t.ch (hash a)) := by
    rw [next_hit, next_enter, ← hch]
  have hch' : t'.ch = Function.update t.ch (hash a) (some lastCi) := by
    rw [← hch]
    rfl
  -- the free list is the rest of the refilled one
  have hfree : P' none = restCi := by
    have hrest : Links t₁.next t₁.cf restCi := hfill.2
    have hrest' : Links t'.next t'.cf restCi := by
      rw [hnext]
      exact hrest.update_of_notMem (List.nodup_cons.mp hfill.nodup).1 _
    exact (h'.placed.links none).unique hrest'
  have hrest : ∀ {i c}, i ∈ P' (some c) → i = lastCi := by
    intro i c hi
    by_contra hne
    have hn : i ∈ P' none := hfree ▸ mem_restCi hne
    exact Option.some_ne_none _ (h'.placed.unique hi hn)
  -- the bucket that held the last entry of the pool still has a head
  obtain ⟨k, hk, -⟩ := h.once lastCi
  cases k with
  | none => exact absurd (hP ▸ hk) List.not_mem_nil
  | some c =>
    obtain ⟨i, l, hl⟩ := List.exists_cons_of_ne_nil (List.ne_nil_of_mem hk)
    have hhead : t.ch c = some i := by
      have := (h.links (some c)).eq_head?
      rw [hl] at this
      exact this
    have hlinks := h'.placed.links (some (hash a))
    have hlast : P' (some (hash a)) = lastCi :: (P' (some (hash a))).tail := by
      have hcons := hlinks.eq_head?
      change t'.ch (hash a) = _ at hcons
      rw [hch', Function.update_self] at hcons
      exact List.eq_cons_of_mem_head? hcons.symm
    by_cases hc : c = hash a
    · -- the entry behind the last one is free as well, or the last one again
      rw [hlast, links_cons, hnext, Function.update_self, ← hc, hhead] at hlinks
      have hi := List.mem_of_mem_head? hlinks.2.eq_head?.symm
      have hnd := (h'.placed.links (some (hash a))).nodup
      rw [hlast] at hnd
      rw [← hc] at hnd
      refine (List.nodup_cons.mp hnd).1 ?_
      rwa [← hrest (c := c) (List.mem_of_mem_tail hi)]
    · have hi : i ∈ P' (some c) := by
        have := (h'.placed.links (some c)).eq_head?
        change t'.ch c = _ at this
        rw [hch', Function.update_of_ne hc, hhead] at this
        exact List.mem_of_mem_head? this.symm
      have hi' : i ∈ P' (some (hash a)) := by
        rw [hrest hi, hlast]
        exact List.mem_cons_self
      exact hc (Option.some_inj.mp (h'.placed.unique hi hi'))

variable [Zero A]

/-- **What a call does to a sound table.** -/
theorem Sound.step (h : Sound hash t log P) (a : A) (tsc : BitVec 64) :
    ∃ t', getCi hash tsc a t = .ok t' ∧
      (((log ++ [a]).toFinset.card ≤ cliCache ∧ recycles hash t a = false ∧
          ∃ P', Sound hash t' (log ++ [a]) P') ∨
        (cliCache < (log ++ [a]).toFinset.card ∧ recycles hash t a = true ∧
          ∀ log', ¬ Refines hash t' log')) := by
  have hcard := h.card_log
  have hset : (log ++ [a]).toFinset = insert a log.toFinset := by
    rw [List.toFinset_append, Finset.union_comm]
    rfl
  cases hs : t.search hash a (cliCache + 1) with
  | none => simp [h.search_eq] at hs
  | some r =>
    cases r with
    | some e =>
      obtain ⟨he, hea⟩ := h.of_search_some hs
      refine ⟨_, getCi_hit hs, Or.inl ⟨?_, by simp [recycles, hs], P, h.hit he hea⟩⟩
      rw [hset, Finset.insert_eq_of_mem (List.mem_toFinset.mpr (hea ▸ h.entered he))]
      omega
    | none =>
      have ha := h.of_search_none hs
      have hset' : (log ++ [a]).toFinset.card = log.toFinset.card + 1 := by
        rw [hset, Finset.card_insert_of_notMem (by simpa using ha)]
      have hcf : t.cf = (P none).head? := (h.placed.links none).eq_head?
      cases hP : P none with
      | nil =>
        rw [hP] at hcf hcard
        obtain ⟨u, hfill, hch, hget⟩ := getCi_recycle hs hcf
        rw [List.length_nil] at hcard
        refine ⟨_, hget tsc, Or.inr ⟨by omega, by simp [recycles, hs, hcf], ?_⟩⟩
        exact fun log' => not_refines_recycle h.placed hP hfill hch
      | cons e f =>
        rw [hP] at hcf hcard
        rw [List.length_cons] at hcard
        refine ⟨_, getCi_insert hs hcf, Or.inl ⟨by omega, by simp [recycles, hcf], ?_⟩⟩
        exact ⟨_, h.enter ha hP⟩

theorem sound_initial (hash : A → CiBucket) :
    ∃ P, Sound hash (initial : CiTable A) [] P := by
  obtain ⟨hfill, hch, hhit⟩ :=
    fillFree_spec (⟨none, fun _ => none, fun _ => ⟨none, 0, 0, 0⟩⟩ : CiTable A)
  have hmem : ∀ e : CiPtr, e ∈ lastCi :: restCi := fun e => by
    rw [← reverse_finRange]
    simp
  refine ⟨fun k => k.elim (lastCi :: restCi) fun _ => [], ⟨⟨⟨?_, ?_⟩, ?_, ?_, ?_, ?_⟩, ?_, ?_⟩⟩
  · rintro (_ | b)
    · exact hfill
    · exact congrFun hch b
  · intro e
    refine ⟨none, hmem e, fun k hk => ?_⟩
    cases k with
    | none => rfl
    | some b => exact absurd hk List.not_mem_nil
  · exact fun he => absurd he List.not_mem_nil
  · exact fun he => absurd he List.not_mem_nil
  · exact fun he => absurd he List.not_mem_nil
  · exact fun _ ha => absurd ha List.not_mem_nil
  · exact fun _ => hhit _
  · exact fun he => absurd he List.not_mem_nil

end CiTable

/-! ## Runs -/

structure Traced where
  info : ClientInfo
  log : (k : CiKind) → List k.Addr

def CiCall.trace (s : Traced) (c : CiCall) : M Traced := do
  let ci ← c.step s.info
  let old := if (s.info.table c.kind).recycles c.kind.hash c.addr then [] else s.log c.kind
  .ok ⟨ci, Function.update s.log c.kind (old ++ [c.addr])⟩

/-- The state after `init_client_table`. -/
def Traced.initial (starttime tsc : BitVec 64) : Traced :=
  ⟨initClientTable starttime tsc, fun _ => []⟩

def Traced.run (s : Traced) (calls : List CiCall) : M Traced := calls.foldlM CiCall.trace s

/-- **Every table refines the map of its log.** -/
def Traced.Refines (s : Traced) : Prop := ∀ k, (s.info.table k).Refines k.hash (s.log k)

/-- The addresses that the calls on table `k` are made with. -/
def addrs (k : CiKind) (calls : List CiCall) : List k.Addr :=
  calls.filterMap fun c => if h : c.kind = k then some (h ▸ c.addr) else none

theorem addrs_concat_self (calls : List CiCall) (c : CiCall) :
    addrs c.kind (calls ++ [c]) = addrs c.kind calls ++ [c.addr] := by
  simp [addrs]

theorem addrs_concat_of_ne {k : CiKind} (calls : List CiCall) {c : CiCall} (h : c.kind ≠ k) :
    addrs k (calls ++ [c]) = addrs k calls := by
  simp [addrs, h]

namespace Traced

variable {s : Traced} {calls : List CiCall} {st ts : BitVec 64}

theorem run_concat (s : Traced) (calls : List CiCall) (c : CiCall) :
    s.run (calls ++ [c]) = s.run calls >>= fun s => c.trace s := by
  simp [run, List.foldlM_append]

def Sound (s : Traced) : Prop := ∀ k, ∃ P, CiTable.Sound k.hash (s.info.table k) (s.log k) P

theorem Sound.refines (h : s.Sound) : s.Refines := fun k => (h k).imp fun _ hP => hP.toAgrees

theorem sound_initial (st ts : BitVec 64) : (initial st ts).Sound := by
  intro k
  change ∃ P, CiTable.Sound k.hash ((initClientTable st ts).table k) [] P
  rw [ClientInfo.table_initClientTable]
  exact CiTable.sound_initial _

theorem Sound.step (h : s.Sound) (c : CiCall) : ∃ s', c.trace s = .ok s' ∧
    (((s.log c.kind ++ [c.addr]).toFinset.card ≤ cliCache ∧ s'.Sound ∧
        s'.log = Function.update s.log c.kind (s.log c.kind ++ [c.addr])) ∨
      (cliCache < (s.log c.kind ++ [c.addr]).toFinset.card ∧ ¬ s'.Refines)) := by
  obtain ⟨P, hP⟩ := h c.kind
  obtain ⟨t', hget, hcase⟩ := hP.step c.addr c.tsc
  refine ⟨_, by rw [CiCall.trace, CiCall.step_ok hget]; rfl, ?_⟩
  rcases hcase with ⟨hcard, hrec, P', hP'⟩ | ⟨hcard, -, hbroken⟩
  · refine Or.inl ⟨hcard, fun k => ?_, by rw [hrec]; rfl⟩
    by_cases hk : k = c.kind
    · subst hk
      refine ⟨P', ?_⟩
      dsimp only
      rw [ClientInfo.table_setTable_self, Function.update_self, hrec]
      exact hP'
    · dsimp only
      rw [ClientInfo.table_setTable_of_ne hk, Function.update_of_ne hk]
      exact h k
  · refine Or.inr ⟨hcard, fun hr => ?_⟩
    have := hr c.kind
    rw [ClientInfo.table_setTable_self] at this
    exact hbroken _ this

/-- In every table the calls have at most as many addresses as the pool has entries. -/
def Fits (calls : List CiCall) : Prop := ∀ k, (addrs k calls).toFinset.card ≤ cliCache

theorem Fits.of_front {pre : List CiCall} (h : Fits calls) (hp : pre <+: calls) : Fits pre := by
  intro k
  obtain ⟨post, rfl⟩ := hp
  refine le_trans (Finset.card_le_card ?_) (h k)
  rw [addrs, addrs, List.filterMap_append, List.toFinset_append]
  exact Finset.subset_union_left

theorem fits_concat {c : CiCall} : Fits (calls ++ [c]) ↔
    Fits calls ∧ (addrs c.kind calls ++ [c.addr]).toFinset.card ≤ cliCache := by
  constructor
  · intro h
    refine ⟨h.of_front (List.prefix_append _ _), ?_⟩
    rw [← addrs_concat_self]
    exact h _
  · rintro ⟨h, hc⟩ k
    by_cases hk : c.kind = k
    · subst hk
      rwa [addrs_concat_self]
    · rw [addrs_concat_of_ne _ hk]
      exact h k

theorem run_of_fits (st ts : BitVec 64) (h : Fits calls) : ∃ s, (initial st ts).run calls = .ok s ∧
    s.Sound ∧ ∀ k, s.log k = addrs k calls := by
  induction calls using List.reverseRecOn with
  | nil => exact ⟨_, rfl, sound_initial st ts, fun _ => rfl⟩
  | append_singleton calls c ih =>
    obtain ⟨hfits, hcard⟩ := fits_concat.mp h
    obtain ⟨s, hrun, hs, hlog⟩ := ih hfits
    obtain ⟨s', htrace, ⟨-, hs', hlog'⟩ | ⟨hover, -⟩⟩ := hs.step c
    · refine ⟨s', by rw [run_concat, hrun]; exact htrace, hs', fun k => ?_⟩
      rw [hlog']
      by_cases hk : c.kind = k
      · subst hk
        rw [Function.update_self, hlog, addrs_concat_self]
      · rw [Function.update_of_ne (Ne.symm hk), hlog, addrs_concat_of_ne _ hk]
    · rw [hlog] at hover
      omega

theorem fits_of_refines (h : ∀ pre, pre <+: calls →
    ∃ s, (initial st ts).run pre = .ok s ∧ s.Refines) : Fits calls := by
  induction calls using List.reverseRecOn with
  | nil => exact fun k => Nat.zero_le _
  | append_singleton calls c ih =>
    have hfits := ih fun pre hp => h pre (hp.trans (List.prefix_append _ _))
    obtain ⟨s, hrun, hs, hlog⟩ := run_of_fits st ts hfits
    obtain ⟨s', htrace, ⟨hcard, -⟩ | ⟨-, hbroken⟩⟩ := hs.step c
    · exact fits_concat.mpr ⟨hfits, by rwa [← hlog]⟩
    · obtain ⟨s'', hrun', hr⟩ := h _ List.prefix_rfl
      rw [run_concat, hrun] at hrun'
      rw [Except.ok.inj (htrace.symm.trans hrun')] at hbroken
      exact absurd hr hbroken

theorem run_info {s' : Traced} (h : s.run calls = .ok s') : runCi s.info calls = .ok s'.info := by
  induction calls generalizing s with
  | nil =>
    obtain rfl := Except.ok.inj h
    rfl
  | cons c calls ih =>
    rw [run, List.foldlM_cons] at h
    rw [runCi, List.foldlM_cons]
    unfold CiCall.trace at h
    cases hc : c.step s.info with
    | error f =>
      rw [hc] at h
      exact absurd h (by simp [bind, Except.bind])
    | ok ci =>
      rw [hc] at h
      exact ih h

end Traced

/-- **The tables refine their maps after every call of a run exactly when in every table the run
has at most as many addresses as the pool has entries.** -/
theorem refines_iff_fits (st ts : BitVec 64) (calls : List CiCall) :
    (∀ pre, pre <+: calls → ∃ s, (Traced.initial st ts).run pre = .ok s ∧ s.Refines) ↔
      ∀ k, (addrs k calls).toFinset.card ≤ cliCache := by
  refine ⟨Traced.fits_of_refines, fun h pre hp => ?_⟩
  obtain ⟨s, hrun, hs, -⟩ := Traced.run_of_fits st ts (Traced.Fits.of_front h hp)
  exact ⟨s, hrun, hs.refines⟩

/-- Calls of `get_ci_up4` with the addresses `l`. -/
def up4Calls (l : List InAddr) : List CiCall := l.map (.up4 0)

theorem addrs_up4Calls (l : List InAddr) : addrs .up4 (up4Calls l) = l := by
  induction l with
  | nil => rfl
  | cons a l ih => exact congrArg (a :: ·) ih

/-- The clients from `10.0.0.0` to `10.0.1.0`. -/
def manyClients : List InAddr :=
  (List.range 257).map fun i => ![10, 0, BitVec.ofNat 8 (i / 256), BitVec.ofNat 8 (i % 256)]

theorem manyClients_nodup : manyClients.Nodup := by
  refine List.Nodup.map_on (fun i hi j hj hij => ?_) List.nodup_range
  have h2 := congrArg BitVec.toNat (congrFun hij 2)
  have h3 := congrArg BitVec.toNat (congrFun hij 3)
  simp only [Matrix.cons_val, BitVec.toNat_ofNat] at h2 h3
  rw [List.mem_range] at hi hj
  omega

theorem not_fits_manyClients : ¬ Traced.Fits (up4Calls manyClients) := by
  intro h
  have hup := h .up4
  rw [addrs_up4Calls] at hup
  have hcard : manyClients.toFinset.card = 257 :=
    (List.toFinset_card_of_nodup manyClients_nodup).trans
      ((List.length_map _).trans List.length_range)
  exact absurd (hcard.symm.le.trans hup) (by decide)

/-- The 257th client breaks a table. -/
theorem not_refines_manyClients : ¬ ∀ (st ts : BitVec 64) (calls : List CiCall),
    ∃ s, (Traced.initial st ts).run calls = .ok s ∧ s.Refines := by
  intro h
  exact not_fits_manyClients (Traced.fits_of_refines fun pre _ => h 0 0 pre)

end Sasat
