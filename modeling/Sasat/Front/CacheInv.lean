import Sasat.Front.Lookup

/-!
# The queues of the dispatch cache

Every entry of the pool is on exactly one queue, either free or in the bucket of its source address.

* `PoolInv`: the queues and the fields that depend on them.
* `PoolInv.congr`, **`PoolInv.enter`**, **`PoolInv.leave`**: other writes, a free entry enters a
  bucket, a bucket is left.
* **`poolInv_initPolicyTable`**: `init_policy_table` establishes the invariant.
-/

namespace Sasat

open Intrusive

section

variable {n : ℕ} {D : Type} {F : Family n D} {s s' : PolSide n D} {L : CacheList → List CachePtr}
  {e : CachePtr} {l : List CachePtr} {a : Fin n → Byte} {b : Fin lbPolDivisor}

/-- The queues `L` of the cache and the fields of the entries that go with them. -/
structure PoolInv (F : Family n D) (s : PolSide n D) (L : CacheList → List CachePtr) : Prop where
  rep : Rep s.tq L
  pool : ∀ i, ∃ h, .init i ∈ L h
  fix : ∀ h, .fix ∉ L h
  hash : ∀ {b e}, e ∈ L (.hash b) → F.hash (s.cache e).lbSrcIp = b
  inj : ∀ {b b' e e'}, e ∈ L (.hash b) → e' ∈ L (.hash b') →
    (s.cache e).lbSrcIp = (s.cache e').lbSrcIp → e = e'
  stat : ∀ i, (s.cache (.init i)).lbStat ≠ .init ↔ ∃ b, .init i ∈ L (.hash b)
  type : ∀ i, (s.cache (.init i)).lbCacheType = 0
  typeFix : (s.cache .fix).lbCacheType ≠ 0

/-- The number of an entry, the `fix` entry last. -/
def CachePtr.num : CachePtr → Option (Fin lbMaxCache)
  | .init i => some i
  | .fix => none

theorem CachePtr.num_injective : Function.Injective CachePtr.num := by
  rintro (i | _) (j | _) h
  · exact congrArg CachePtr.init (Option.some.inj h)
  · exact absurd h (by simp [num])
  · exact absurd h (by simp [num])
  · rfl

namespace PoolInv

theorem length_lt (hs : PoolInv F s L) (h : CacheList) : (L h).length < lbMaxCache + 2 := by
  have := ((hs.rep.nodup h).map CachePtr.num_injective).length_le_card
  rw [List.length_map, Fintype.card_option, Fintype.card_fin] at this
  omega

theorem exists_init (hs : PoolInv F s L) {h : CacheList} (he : e ∈ L h) : ∃ i, e = .init i := by
  cases e with
  | init i => exact ⟨i, rfl⟩
  | fix => exact absurd he (hs.fix h)

theorem congr (hs : PoolInv F s L) (htq : s'.tq = s.tq)
    (hc : ∀ i, (s'.cache (.init i)).lbSrcIp = (s.cache (.init i)).lbSrcIp ∧
      (s'.cache (.init i)).lbStat = (s.cache (.init i)).lbStat ∧
      (s'.cache (.init i)).lbCacheType = (s.cache (.init i)).lbCacheType)
    (hf : (s'.cache .fix).lbCacheType = (s.cache .fix).lbCacheType) : PoolInv F s' L where
  rep := htq ▸ hs.rep
  pool := hs.pool
  fix := hs.fix
  hash he := by
    obtain ⟨i, rfl⟩ := hs.exists_init he
    rw [(hc i).1]
    exact hs.hash he
  inj he he' := by
    obtain ⟨i, rfl⟩ := hs.exists_init he
    obtain ⟨j, rfl⟩ := hs.exists_init he'
    rw [(hc i).1, (hc j).1]
    exact hs.inj he he'
  stat i := by
    rw [(hc i).2.1]
    exact hs.stat i
  type i := by
    rw [(hc i).2.2]
    exact hs.type i
  typeFix := by
    rw [hf]
    exact hs.typeFix

theorem pool_of_moved (hs : PoolInv F s L) {i : Fin lbMaxCache} {h : CacheList}
    {L' : CacheList → List CachePtr} (hm : Moved L (.init i) h L') :
    (∀ j, ∃ h, .init j ∈ L' h) ∧ ∀ h, .fix ∉ L' h := by
  refine ⟨fun j => ?_, fun k hk => ?_⟩
  · by_cases hj : j = i
    · subst hj
      exact ⟨h, (hm _ _).mpr (Or.inl ⟨rfl, rfl⟩)⟩
    · obtain ⟨k, hk⟩ := hs.pool j
      refine ⟨k, (hm _ _).mpr (Or.inr ⟨fun heq => hj ?_, hk⟩)⟩
      exact CachePtr.init.inj heq
  · rcases (hm _ _).mp hk with ⟨h', -⟩ | ⟨-, h'⟩
    · exact absurd h' (by simp)
    · exact hs.fix _ h'

/-- **The first free entry is filled for address `a` and enters the bucket of `a`**, which has no
entry for `a`. -/
theorem enter (hs : PoolInv F s L) (hl : L .free = e :: l)
    (hmiss : ∀ f ∈ L (.hash (F.hash a)), (s.cache f).lbSrcIp ≠ a)
    (htq : s'.tq = (s.tq.remove .free e).insertHead (.hash (F.hash a)) e)
    (hsrc : (s'.cache e).lbSrcIp = a) (hstat : (s'.cache e).lbStat ≠ .init)
    (htype : (s'.cache e).lbCacheType = (s.cache e).lbCacheType)
    (hother : ∀ f, f ≠ e → s'.cache f = s.cache f) :
    PoolInv F s' (Function.update (Function.update L .free l) (.hash (F.hash a))
      (e :: L (.hash (F.hash a)))) := by
  obtain ⟨hrep, hm⟩ := hs.rep.moveToHead hl (by simp : CacheList.hash (F.hash a) ≠ .free)
  have hfree : e ∈ L .free := hl ▸ List.mem_cons_self
  obtain ⟨i, rfl⟩ := hs.exists_init hfree
  obtain ⟨hpool, hfix⟩ := hs.pool_of_moved hm
  have hin : ∀ {f b}, f ∈ L (.hash b) → (s.cache f).lbSrcIp ≠ a := by
    intro f b hf hfa
    refine hmiss f ?_ hfa
    rwa [← hfa, hs.hash hf]
  refine ⟨htq ▸ hrep, hpool, hfix, ?_, ?_, fun j => ?_, fun j => ?_, ?_⟩
  · intro b f hf
    rcases (hm _ _).mp hf with ⟨rfl, hb⟩ | ⟨hne, hf⟩
    · rw [hsrc]
      exact (CacheList.hash.inj hb).symm
    · rw [hother f hne]
      exact hs.hash hf
  · intro b b' f f' hf hf'
    rcases (hm _ _).mp hf with ⟨rfl, -⟩ | ⟨hne, hf⟩ <;>
      rcases (hm _ _).mp hf' with ⟨rfl, -⟩ | ⟨hne', hf'⟩
    · exact fun _ => rfl
    · rw [hsrc, hother f' hne']
      exact fun heq => absurd heq.symm (hin hf')
    · rw [hsrc, hother f hne]
      exact fun heq => absurd heq (hin hf)
    · rw [hother f hne, hother f' hne']
      exact hs.inj hf hf'
  · by_cases hj : j = i
    · subst hj
      refine ⟨fun _ => ⟨F.hash a, (hm _ _).mpr (Or.inl ⟨rfl, rfl⟩)⟩, fun _ => hstat⟩
    · have hne : CachePtr.init j ≠ .init i := fun heq => hj (CachePtr.init.inj heq)
      rw [hother _ hne, hs.stat]
      refine exists_congr fun b => ?_
      rw [hm]
      simp [hne]
  · by_cases hj : j = i
    · subst hj
      rw [htype]
      exact hs.type j
    · rw [hother _ fun heq => hj (CachePtr.init.inj heq)]
      exact hs.type j
  · rw [hother _ (by simp)]
    exact hs.typeFix

/-- **The first entry of a bucket goes to the tail of the free list.** -/
theorem leave (hs : PoolInv F s L) (hl : L (.hash b) = e :: l)
    (htq : s'.tq = (s.tq.remove (.hash b) e).insertTail .free e)
    (hstat : (s'.cache e).lbStat = .init)
    (htype : (s'.cache e).lbCacheType = (s.cache e).lbCacheType)
    (hother : ∀ f, f ≠ e → s'.cache f = s.cache f) :
    PoolInv F s' (Function.update (Function.update L (.hash b) l) .free (L .free ++ [e])) := by
  obtain ⟨hrep, hm⟩ := hs.rep.moveToTail hl (by simp : CacheList.free ≠ .hash b)
  obtain ⟨i, rfl⟩ := hs.exists_init (h := .hash b) (hl ▸ List.mem_cons_self)
  obtain ⟨hpool, hfix⟩ := hs.pool_of_moved hm
  refine ⟨htq ▸ hrep, hpool, hfix, ?_, ?_, fun j => ?_, fun j => ?_, ?_⟩
  · intro c f hf
    rcases (hm _ _).mp hf with ⟨-, hb⟩ | ⟨hne, hf⟩
    · exact absurd hb (by simp)
    · rw [hother f hne]
      exact hs.hash hf
  · intro c c' f f' hf hf'
    rcases (hm _ _).mp hf with ⟨-, hb⟩ | ⟨hne, hf⟩
    · exact absurd hb (by simp)
    rcases (hm _ _).mp hf' with ⟨-, hb⟩ | ⟨hne', hf'⟩
    · exact absurd hb (by simp)
    rw [hother f hne, hother f' hne']
    exact hs.inj hf hf'
  · by_cases hj : j = i
    · subst hj
      refine ⟨fun h => absurd hstat h, fun ⟨c, hc⟩ => ?_⟩
      rcases (hm _ _).mp hc with ⟨-, hb⟩ | ⟨hne, -⟩
      · exact absurd hb (by simp)
      · exact absurd rfl hne
    · have hne : CachePtr.init j ≠ .init i := fun heq => hj (CachePtr.init.inj heq)
      rw [hother _ hne, hs.stat]
      refine exists_congr fun b => ?_
      rw [hm]
      simp [hne]
  · by_cases hj : j = i
    · subst hj
      rw [htype]
      exact hs.type j
    · rw [hother _ fun heq => hj (CachePtr.init.inj heq)]
      exact hs.type j
  · rw [hother _ (by simp)]
    exact hs.typeFix

end PoolInv

/-! ## Initialisation -/

theorem rep_initQueues (q : TailqHeap CacheList CachePtr) : Rep (initQueues q) fun _ => [] := by
  have key : ∀ h, (initQueues q).cell (.head h) = none ∧ (initQueues q).last h = .head h := by
    intro h
    refine TailqHeap.foldl_init id [CacheList.free] _ h ?_
    cases h with
    | free => exact Or.inl ⟨_, List.mem_singleton_self _, rfl⟩
    | hash b =>
      exact Or.inr (TailqHeap.foldl_init CacheList.hash _ _ _
        (Or.inl ⟨b, List.mem_finRange b, rfl⟩))
  exact Rep.of_init (fun h => (key h).1) fun h => (key h).2

theorem freeEntry_cache_of_ne {i : Fin lbMaxCache} (h : e ≠ .init i) :
    (freeEntry s i).cache e = s.cache e := Function.update_of_ne h _ _

theorem freeEntry_cache_self (i : Fin lbMaxCache) : (freeEntry s i).cache (.init i) =
    { s.cache (.init i) with lbCacheType := 0, lbStat := .init } := Function.update_self _ _ _

theorem foldl_freeEntry : ∀ (is : List (Fin lbMaxCache)) (s : PolSide n D)
    (L : CacheList → List CachePtr), Rep s.tq L → is.Nodup → (∀ i ∈ is, ∀ h, .init i ∉ L h) →
      Rep (is.foldl freeEntry s).tq
          (Function.update L .free (L .free ++ is.map CachePtr.init)) ∧
        (∀ i ∈ is, ((is.foldl freeEntry s).cache (.init i)).lbCacheType = 0 ∧
          ((is.foldl freeEntry s).cache (.init i)).lbStat = .init) ∧
        ∀ e, (∀ i ∈ is, e ≠ .init i) → (is.foldl freeEntry s).cache e = s.cache e
  | [], s, L, hq, _, _ => by
    refine ⟨?_, by simp, fun _ _ => rfl⟩
    rw [List.map_nil, List.append_nil, Function.update_eq_self]
    exact hq
  | i :: is, s, L, hq, hnd, hL => by
    obtain ⟨hi, hnd⟩ := List.nodup_cons.mp hnd
    have hq' := hq.insertTail (h := .free) (hL i List.mem_cons_self)
    obtain ⟨h1, h2, h3⟩ := foldl_freeEntry is (freeEntry s i) _ hq' hnd fun j hj k => by
      have hji : CachePtr.init j ≠ .init i := fun heq => hi (CachePtr.init.inj heq ▸ hj)
      have hjL := hL j (List.mem_cons_of_mem _ hj)
      by_cases hk : k = .free
      · subst hk
        simp [hjL, hji]
      · rw [Function.update_of_ne hk]
        exact hjL k
    refine ⟨?_, fun j hj => ?_, fun e he => ?_⟩
    · rw [Function.update_idem, Function.update_self, List.append_assoc] at h1
      exact h1
    · rcases List.mem_cons.mp hj with rfl | hj
      · have hne : ∀ k ∈ is, CachePtr.init j ≠ .init k := by
          intro k hk heq
          obtain rfl := CachePtr.init.inj heq
          exact hi hk
        rw [List.foldl_cons, h3 _ hne, freeEntry_cache_self]
        exact ⟨rfl, rfl⟩
      · exact h2 j hj
    · rw [List.foldl_cons, h3 e fun j hj => he j (List.mem_cons_of_mem _ hj),
        freeEntry_cache_of_ne (he i List.mem_cons_self)]

/-- **`init_policy_table` puts the whole pool on the free list.** -/
theorem poolInv_initPolicyTable (F : Family n D) (malloc : Option (Fin lbMaxCache → LbPolCache n D))
    (s : PolSide n D) : ∃ L, PoolInv F (initPolicyTable malloc s) L ∧ ∀ b, L (.hash b) = [] := by
  unfold initPolicyTable
  dsimp only
  obtain ⟨h1, h2, -⟩ := foldl_freeEntry (List.finRange lbMaxCache)
    { s with polHead := [], tq := initQueues s.tq, cache := poolMem malloc s.cache } (fun _ => [])
    (rep_initQueues s.tq) (List.nodup_finRange _) fun _ _ _ => List.not_mem_nil
  rw [List.nil_append] at h1
  generalize (List.finRange lbMaxCache).foldl freeEntry _ = s₁ at h1 h2
  set L : CacheList → List CachePtr :=
    Function.update (fun _ => []) .free ((List.finRange lbMaxCache).map CachePtr.init)
  have hfree : L .free = (List.finRange lbMaxCache).map CachePtr.init := Function.update_self _ _ _
  have hhash : ∀ b, L (.hash b) = [] := fun b => Function.update_of_ne (by simp) _ _
  have hkeep : ∀ i, (s₁.modCache .fix fun c => { c with lbCacheType := 1 }).cache (.init i) =
      s₁.cache (.init i) := fun i => PolSide.modCache_of_ne (by simp)
  refine ⟨L, ⟨?_, fun i => ⟨.free, ?_⟩, fun h => ?_, ?_, ?_, fun i => ?_, fun i => ?_, ?_⟩, hhash⟩
  · rw [PolSide.modCache_tq]
    exact h1
  · rw [hfree]
    exact List.mem_map_of_mem (List.mem_finRange i)
  · cases h with
    | free => rw [hfree]; simp
    | hash b => rw [hhash]; exact List.not_mem_nil
  · intro b e he
    rw [hhash] at he
    exact absurd he List.not_mem_nil
  · intro b b' e e' he
    rw [hhash] at he
    exact absurd he List.not_mem_nil
  · rw [hkeep, (h2 i (List.mem_finRange i)).2]
    simp [hhash]
  · rw [hkeep, (h2 i (List.mem_finRange i)).1]
  · rw [PolSide.modCache_self]
    change (1 : Byte) ≠ 0
    decide

end

end Sasat
