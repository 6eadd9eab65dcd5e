import Sasat.Front.CacheInv

/-!
# The dispatch cache is transparent

A cached entry answers as the first matching policy and its server would.

* `Serves`, `Cached`: an entry carries the data of a server; it answers for its source address.
* `SideInv`: the invariant of one address family.
* `Answer`: what a lookup may return, in terms of the first matching policy.
* **`getPol_spec`**: a lookup returns, keeps the invariant and answers.
-/

namespace Sasat

open Intrusive

section

variable {n : ℕ} {D : Type} {F : Family n D} {s s' : PolSide n D} {L : CacheList → List CachePtr}
  {e : CachePtr} {a : Fin n → Byte} {o : ℕ → MacOutcomes} {tsc : BitVec 64}

/-- The entry sends to the server `v`. -/
def Serves (F : Family n D) (c : LbPolCache n D) (v : ServerTbl n) : Prop :=
  c.lbDstIp = v.svrIp ∧ c.lbDstMac = v.dstMac ∧ c.chksumDelta = F.delta v.svrIp

/-- Entry `e` answers for its source address as its policy `f` and the server `v` would. -/
structure CachedBy (F : Family n D) (s : PolSide n D) (e : CachePtr) (f : LbPol n)
    (v : ServerTbl n) : Prop where
  first : firstMatch s (s.cache e).lbSrcIp = some (s.cache e).polHit
  pol : s.pols (s.cache e).polHit = some f
  svrHit : (s.cache e).svrHit = f.svr
  svr : s.svrs f.svr = some v
  stat : (s.cache e).lbStat = v.status ∧ v.status ≠ .init
  op : (v.status = .drop ∧ (s.cache e).op = none) ∨
    (v.status = .ok ∧ (s.cache e).op = some e ∧ Serves F (s.cache e) v)

def Cached (F : Family n D) (s : PolSide n D) (e : CachePtr) : Prop := ∃ f v, CachedBy F s e f v

theorem Cached.mono (hc : Cached F s e) (h : Extends s s') {k : BitVec 32}
    (he : s'.cache e = { s.cache e with hit := k }) : Cached F s' e := by
  obtain ⟨f, v, hf⟩ := hc
  obtain ⟨f', hf', -, -, hsvr⟩ := h.pol hf.pol
  obtain ⟨v', hv', hip, hres⟩ := h.svr _ _ hf.svr
  obtain ⟨hst, hmac⟩ := hres hf.stat.2
  refine ⟨f', v', ⟨?_, ?_, ?_, ?_, ?_, ?_⟩⟩
  · rw [he, h.firstMatch]
    exact hf.first
  · rw [he]
    exact hf'
  · rw [he, hsvr]
    exact hf.svrHit
  · rw [hsvr]
    exact hv'
  · rw [he, hst]
    exact hf.stat
  · rw [he, hst]
    unfold Serves
    rw [hmac, hip]
    exact hf.op

/-- The invariant of one address family. -/
structure SideInv (F : Family n D) (s : PolSide n D) (L : CacheList → List CachePtr) : Prop
    extends PoolInv F s L where
  live : Live s
  cached : ∀ {b e}, e ∈ L (.hash b) → Cached F s e

/-- What a lookup for `a` in the state `s` may return, with the state `s'` that it leaves. -/
def Answer (F : Family n D) (s : PolSide n D) (a : Fin n → Byte) (r : Option CachePtr)
    (s' : PolSide n D) : Prop :=
  match firstMatch s a with
  | none => r = none
  | some p => ∃ f v v', s.pols p = some f ∧ s.svrs f.svr = some v ∧ s'.svrs f.svr = some v' ∧
    v'.svrIp = v.svrIp ∧
      match v.status with
      | .drop => r = none
      | .ok => ∃ e, r = some e ∧ Serves F (s'.cache e) v
      | .init => r = none ∨ ∃ e, r = some e ∧ v'.status = .ok ∧ Serves F (s'.cache e) v'

/-- What filling the entry `e` does. -/
structure Filled (F : Family n D) (a : Fin n → Byte) (p : Ptr) (pol : LbPol n) (svr : ServerTbl n)
    (e : CachePtr) (s : PolSide n D) (r : Option CachePtr) (s' : PolSide n D) : Prop where
  ext : Extends s s'
  tq : s'.tq = if (s.cache e).lbCacheType = 0 then s.tq.insertHead (.hash (F.hash a)) e else s.tq
  other : ∀ f, f ≠ e → s'.cache f = s.cache f
  src : (s'.cache e).lbSrcIp = a
  type : (s'.cache e).lbCacheType = (s.cache e).lbCacheType
  stat : (s'.cache e).lbStat = svr.status
  polHit : (s'.cache e).polHit = p
  svrHit : (s'.cache e).svrHit = pol.svr
  result : if svr.status = .drop then r = none ∧ (s'.cache e).op = none
    else r = some e ∧ (s'.cache e).op = some e ∧ Serves F (s'.cache e) svr

theorem fillEntry_spec (F : Family n D) (tsc : BitVec 64) (a : Fin n → Byte) (p : Ptr)
    (pol : LbPol n) (svr : ServerTbl n) (e : CachePtr) (s : PolSide n D) :
    Filled F a p pol svr e s (fillEntry F tsc a p pol svr e s).1
      (fillEntry F tsc a p pol svr e s).2 := by
  have hext : ∀ {s' : PolSide n D}, Extends s s' → ∀ e f, Extends s (s'.modCache e f) :=
    fun h _ _ => h.of_heaps rfl rfl rfl rfl rfl
  unfold fillEntry
  dsimp only
  set s₁ := countHit p pol.svr (s.modCache e (fillCache p pol svr a)) with hs₁
  have he₁ : s₁.cache e = fillCache p pol svr a (s.cache e) := PolSide.modCache_self
  have hext₁ : Extends s s₁ := (hext (Extends.refl s) _ _).countHit p pol.svr
  have hother₁ : ∀ f, f ≠ e → s₁.cache f = s.cache f := fun f hf => PolSide.modCache_of_ne hf
  have htype : (s₁.cache e).lbCacheType = (s.cache e).lbCacheType := by
    rw [he₁]
    rfl
  rw [htype]
  -- the entry once it is hashed
  obtain ⟨s₂, hs₂⟩ : ∃ s₂,
      s₂ = if (s.cache e).lbCacheType = 0 then hashEntry F tsc a e s₁ else s₁ := ⟨_, rfl⟩
  have he₂ : ∃ k, s₂.cache e = { fillCache p pol svr a (s.cache e) with timestamp := k } := by
    rw [hs₂, ← he₁]
    split_ifs
    · exact ⟨tsc, Function.update_self _ _ _⟩
    · exact ⟨_, rfl⟩
  have hext₂ : Extends s s₂ := by
    rw [hs₂]
    split_ifs
    · exact hext₁.of_heaps rfl rfl rfl rfl rfl
    · exact hext₁
  have hother₂ : ∀ f, f ≠ e → s₂.cache f = s.cache f := by
    intro f hf
    rw [hs₂, ← hother₁ f hf]
    split_ifs
    · exact Function.update_of_ne hf _ _
    · rfl
  have htq₂ : s₂.tq = if (s.cache e).lbCacheType = 0 then
      s.tq.insertHead (.hash (F.hash a)) e else s.tq := by
    rw [hs₂]
    split_ifs <;> rfl
  rw [← hs₂]
  clear_value s₁
  clear hs₂
  obtain ⟨k, he₂⟩ := he₂
  have hstat : (s₂.cache e).lbStat = svr.status := by
    rw [he₂]
    rfl
  rw [hstat]
  by_cases hd : svr.status = .drop
  · rw [if_pos hd]
    dsimp only
    refine ⟨hext hext₂ _ _, htq₂, fun f hf => (PolSide.modCache_of_ne hf).trans (hother₂ f hf),
      ?_, ?_, ?_, ?_, ?_, ?_⟩
    all_goals rw [PolSide.modCache_self, he₂]
    · rfl
    · rfl
    · rfl
    · rfl
    · rfl
    · rw [if_pos hd]
      exact ⟨rfl, rfl⟩
  · rw [if_neg hd]
    dsimp only
    refine ⟨hext hext₂ _ _, htq₂, fun f hf => (PolSide.modCache_of_ne hf).trans (hother₂ f hf),
      ?_, ?_, ?_, ?_, ?_, ?_⟩
    all_goals rw [PolSide.modCache_self, he₂]
    · rfl
    · rfl
    · rfl
    · rfl
    · rfl
    · rw [if_neg hd]
      exact ⟨rfl, rfl, rfl, rfl, rfl⟩

theorem Filled.answer {p : Ptr} {pol : LbPol n} {svr : ServerTbl n} {e : CachePtr}
    {r : Option CachePtr} (h : Filled F a p pol svr e s r s') :
    if svr.status = .drop then r = none else r = some e ∧ Serves F (s'.cache e) svr := by
  have hres := h.result
  split_ifs at hres ⊢
  · exact hres.1
  · exact ⟨hres.1, hres.2.2⟩

theorem Filled.cached {p : Ptr} {pol pol' : LbPol n} {svr : ServerTbl n} {e : CachePtr}
    {r : Option CachePtr} {s₀ : PolSide n D} (h : Filled F a p pol svr e s r s')
    (hext : Extends s₀ s') (hfirst : firstMatch s₀ a = some p) (hpol : s₀.pols p = some pol')
    (hpolsvr : pol'.svr = pol.svr) (hsvr : s₀.svrs pol.svr = some svr)
    (hst : svr.status ≠ .init) : Cached F s' e := by
  obtain ⟨pol'', hpol'', -, -, hsvr''⟩ := hext.pol hpol
  obtain ⟨v, hv, hip, hres⟩ := hext.svr _ _ hsvr
  obtain ⟨hvst, hvmac⟩ := hres hst
  rw [hpolsvr] at hsvr''
  refine ⟨pol'', v, ⟨?_, ?_, ?_, ?_, ?_, ?_⟩⟩
  · rw [h.src, h.polHit, hext.firstMatch]
    exact hfirst
  · rw [h.polHit]
    exact hpol''
  · rw [h.svrHit, hsvr'']
  · rw [hsvr'']
    exact hv
  · rw [h.stat, hvst]
    exact ⟨rfl, hst⟩
  · have hanswer := h.result
    unfold Serves at hanswer ⊢
    rw [hvst, hvmac, hip]
    split_ifs at hanswer with hd
    · exact Or.inl ⟨hd, hanswer.2⟩
    · refine Or.inr ⟨?_, hanswer.2⟩
      cases hsv : svr.status with
      | init => exact absurd hsv hst
      | ok => rfl
      | drop => exact absurd hsv hd

/-! ## The slow path -/

namespace SideInv

theorem congr (hs : SideInv F s L) (h : Extends s s') (htq : s'.tq = s.tq)
    (hc : ∀ i, ∃ k, s'.cache (.init i) = { s.cache (.init i) with hit := k })
    (hf : (s'.cache .fix).lbCacheType = (s.cache .fix).lbCacheType) : SideInv F s' L where
  toPoolInv := hs.toPoolInv.congr htq
    (fun i => by
      obtain ⟨k, hk⟩ := hc i
      rw [hk]
      exact ⟨rfl, rfl, rfl⟩) hf
  live := h.live hs.live
  cached he := by
    obtain ⟨i, rfl⟩ := hs.exists_init he
    obtain ⟨k, hk⟩ := hc i
    exact (hs.cached he).mono h hk

theorem getFreePolCache_eq (hs : PoolInv F s L) : getFreePolCache s =
    match L .free with
    | [] => (.fix, { s with delCache := true })
    | e :: _ =>
      (e, { s.modCache e fun c => { c with hit := 0 } with tq := s.tq.remove .free e }) := by
  rw [getFreePolCache, hs.rep.first_eq .free]
  cases L .free <;> rfl

/-- **Filling an entry** for the first match `p` of an address that is not in the cache keeps the
invariant. -/
theorem fill (hs : SideInv F s L) (hext : Extends s s') (htq : s'.tq = s.tq)
    (hcache : s'.cache = s.cache)
    (hmiss : ∀ f ∈ L (.hash (F.hash a)), (s.cache f).lbSrcIp ≠ a) {p : Ptr} {pol pol' : LbPol n}
    {svr : ServerTbl n} (hfirst : firstMatch s a = some p) (hpol : s'.pols p = some pol')
    (hpolsvr : pol'.svr = pol.svr) (hsvr : s'.svrs pol.svr = some svr) (hst : svr.status ≠ .init)
    (tsc : BitVec 64) :
    ∃ e s'' r L', fillEntry F tsc a p pol svr (getFreePolCache s').1 (getFreePolCache s').2 =
      (r, s'') ∧ SideInv F s'' L' ∧ Extends s' s'' ∧
        if svr.status = .drop then r = none else r = some e ∧ Serves F (s''.cache e) svr := by
  have hs' : SideInv F s' L := hs.congr hext htq (fun i => ⟨_, by rw [hcache]⟩) (by rw [hcache])
  rw [getFreePolCache_eq hs'.toPoolInv]
  cases hl : L .free with
  | nil =>
    have hfill := fillEntry_spec F tsc a p pol svr .fix { s' with delCache := true }
    set r := (fillEntry F tsc a p pol svr .fix { s' with delCache := true }).1
    set s'' := (fillEntry F tsc a p pol svr .fix { s' with delCache := true }).2
    have hflag : Extends s' { s' with delCache := true } :=
      (Extends.refl s').of_heaps rfl rfl rfl rfl rfl
    have hext'' : Extends s' s'' := hflag.trans hfill.ext
    refine ⟨.fix, s'', r, L, rfl, hs'.congr hext'' ?_ (fun i => ?_) hfill.type, hext'', ?_⟩
    · exact hfill.tq.trans (if_neg hs'.typeFix)
    · exact ⟨_, hfill.other _ (by simp)⟩
    · exact hfill.answer
  | cons e l =>
    have hfree : e ∈ L .free := hl ▸ List.mem_cons_self
    obtain ⟨i, hi⟩ := hs'.exists_init hfree
    obtain ⟨s₁, hs₁⟩ : ∃ s₁, s₁ = ({ s'.modCache e fun c => { c with hit := 0 } with
      tq := s'.tq.remove .free e } : PolSide n D) := ⟨_, rfl⟩
    have htake : Extends s' s₁ := by
      rw [hs₁]
      exact (Extends.refl s').of_heaps rfl rfl rfl rfl rfl
    have htq₁ : s₁.tq = s'.tq.remove .free e := by rw [hs₁]
    have hother₁ : ∀ f, f ≠ e → s₁.cache f = s'.cache f := by
      intro f hf
      rw [hs₁]
      exact Function.update_of_ne hf _ _
    have he₁ : s₁.cache e = { s'.cache e with hit := 0 } := by
      rw [hs₁]
      exact Function.update_self _ _ _
    have htype₁ : (s₁.cache e).lbCacheType = (s'.cache e).lbCacheType := by rw [he₁]
    have hzero : (s₁.cache e).lbCacheType = 0 := by
      rw [htype₁, hi]
      exact hs'.type i
    dsimp only
    rw [← hs₁]
    have hfill := fillEntry_spec F tsc a p pol svr e s₁
    set r := (fillEntry F tsc a p pol svr e s₁).1
    set s'' := (fillEntry F tsc a p pol svr e s₁).2
    have hext'' : Extends s' s'' := htake.trans hfill.ext
    have htq'' : s''.tq = (s'.tq.remove .free e).insertHead (.hash (F.hash a)) e := by
      rw [hfill.tq, if_pos hzero, htq₁]
    have hother'' : ∀ f, f ≠ e → s''.cache f = s'.cache f := fun f hf =>
      (hfill.other f hf).trans (hother₁ f hf)
    have hpool := hs'.enter hl (by rw [hcache]; exact hmiss) htq'' hfill.src
      (by rw [hfill.stat]; exact hst) (hfill.type.trans htype₁) hother''
    obtain ⟨-, hm⟩ := hs'.rep.moveToHead hl (by simp : CacheList.hash (F.hash a) ≠ .free)
    refine ⟨e, s'', r, _, rfl, ⟨hpool, hext''.live hs'.live, fun {b f} hf => ?_⟩, hext'', ?_⟩
    · rcases (hm _ _).mp hf with ⟨rfl, -⟩ | ⟨hne, hf⟩
      · exact hfill.cached hext'' ((hext.firstMatch a).trans hfirst) hpol hpolsvr hsvr hst
      · refine (hs'.cached hf).mono hext'' (k := (s'.cache f).hit) ?_
        exact hother'' f hne
    · exact hfill.answer

/-- **The slow path** on an address that is not in the cache. -/
theorem getPolSlow_spec (hs : SideInv F s L)
    (hmiss : ∀ f ∈ L (.hash (F.hash a)), (s.cache f).lbSrcIp ≠ a) (o : ℕ → MacOutcomes)
    (tsc : BitVec 64) : ∃ r s' L', getPolSlow F o tsc a s = .ok (r, s') ∧ SideInv F s' L' ∧
      Extends s s' ∧ Answer F s a r s' := by
  obtain ⟨r, svrs', hlook, hext, hfound⟩ := policyLookup_spec o a s.polHead hs.live.pointers
  set s₁ : PolSide n D := { s with svrs := svrs' }
  have hs₁ : SideInv F s₁ L := hs.congr hext rfl (fun i => ⟨_, rfl⟩) rfl
  unfold getPolSlow Answer
  rw [hlook]
  cases hfm : firstMatch s a with
  | none =>
    rw [firstMatch] at hfm
    rw [hfm] at hfound
    subst hfound
    exact ⟨none, s₁, L, rfl, hs₁, hext, rfl⟩
  | some p =>
    have hfm' := hfm
    rw [firstMatch] at hfm'
    rw [hfm'] at hfound
    obtain ⟨f, v, v', hf⟩ := hfound
    rcases hf.result with ⟨rfl, hinit⟩ | ⟨rfl, hst, hsame, hok⟩
    · refine ⟨none, s₁, L, rfl, hs₁, hext, f, v, v', hf.pol, hf.svr, hf.svr', hf.svrIp, ?_⟩
      rw [hinit]
      exact Or.inl rfl
    · simp only [bind, Except.bind]
      rw [deref_eq (show s₁.pols p = some f from hf.pol)]
      dsimp only
      rw [deref_eq hf.svr']
      dsimp only
      set s₂ := s₁.modPol p fun f => { f with useCount := f.useCount + 1 }
      have hext₂ : Extends s s₂ := hext.modPol p fun _ => rfl
      obtain ⟨e, s₃, r, L', hfill, hs₃, hext₃, hres⟩ := hs.fill hext₂ rfl rfl hmiss hfm
        (poke_self hf.pol) rfl hf.svr' hst tsc
      obtain ⟨w, hw, hwip, hwres⟩ := hext₃.svr _ _ hf.svr'
      obtain ⟨hwst, hwmac⟩ := hwres hst
      refine ⟨r, s₃, L', congrArg Except.ok hfill, hs₃, hext₂.trans hext₃, f, v, w, hf.pol, hf.svr,
        hw, hwip.trans hf.svrIp, ?_⟩
      cases hv : v.status with
      | init =>
        have hok' := hok hv
        rw [if_neg (by rw [hok']; decide)] at hres
        refine Or.inr ⟨e, hres.1, hwst.trans hok', ?_⟩
        unfold Serves
        rw [hwip, hwmac]
        exact hres.2
      | ok =>
        obtain rfl := hsame (by rw [hv]; decide)
        rw [if_neg (by rw [hv]; decide)] at hres
        exact ⟨e, hres⟩
      | drop =>
        obtain rfl := hsame (by rw [hv]; decide)
        rwa [if_pos hv] at hres

theorem walk_eq (hs : PoolInv F s L) (a : Fin n → Byte) :
    walk s.tq.next (fun e => (s.cache e).lbSrcIp == a) (lbMaxCache + 2)
        (s.tq.first (.hash (F.hash a))) =
      some ((L (.hash (F.hash a))).find? fun e => (s.cache e).lbSrcIp == a) :=
  walk_eq_find (hs.rep.links _) (hs.length_lt _)

/-- **A lookup returns, keeps the invariant and answers as the first match.** -/
theorem getPol_spec (hs : SideInv F s L) (o : ℕ → MacOutcomes) (tsc : BitVec 64)
    (a : Fin n → Byte) : ∃ r s' L', getPol F o tsc a s = .ok (r, s') ∧ SideInv F s' L' ∧
      Extends s s' ∧ Answer F s a r s' := by
  unfold getPol
  rw [walk_eq hs.toPoolInv]
  cases hfind : (L (.hash (F.hash a))).find? fun e => (s.cache e).lbSrcIp == a with
  | none =>
    refine hs.getPolSlow_spec (fun f hf hfa => ?_) o tsc
    have := List.find?_eq_none.mp hfind f hf
    simp [hfa] at this
  | some e =>
    have he := List.mem_of_find?_eq_some hfind
    have hea : (s.cache e).lbSrcIp = a := by simpa using List.find?_some hfind
    obtain ⟨f, v, hc⟩ := hs.cached he
    have he₁ : (s.modCache e fun c => { c with hit := c.hit + 1 }).cache e =
        { s.cache e with hit := (s.cache e).hit + 1 } := PolSide.modCache_self
    simp only [he₁, bind, Except.bind]
    rw [deref_eq (show (s.modCache e _).pols _ = some f from hc.pol)]
    dsimp only
    rw [hc.svrHit, deref_eq (show (s.modCache e _).svrs _ = some v from hc.svr)]
    dsimp only
    have hext₁ : Extends s (s.modCache e fun c => { c with hit := c.hit + 1 }) :=
      (Extends.refl s).of_heaps rfl rfl rfl rfl rfl
    have hext := hext₁.countHit (s.cache e).polHit f.svr
    have hcache : ∀ i, ∃ k, (s.modCache e fun c => { c with hit := c.hit + 1 }).cache i =
        { s.cache i with hit := k } := by
      intro i
      by_cases hi : i = e
      · subst hi
        exact ⟨_, he₁⟩
      · exact ⟨_, PolSide.modCache_of_ne hi⟩
    refine ⟨_, _, L, rfl, hs.congr hext rfl (fun i => hcache _) ?_, hext, ?_⟩
    · obtain ⟨k, hk⟩ := hcache .fix
      rw [countHit_cache, hk]
    · obtain ⟨w, hw, hwip, hwres⟩ := hext.svr _ _ hc.svr
      unfold Answer
      rw [← hea, hc.first]
      refine ⟨f, v, w, hc.pol, hc.svr, hw, hwip, ?_⟩
      rcases hc.op with ⟨hv, hop⟩ | ⟨hv, hop, hserves⟩
      · rw [hv]
        exact hop
      · rw [hv]
        refine ⟨e, hop, ?_⟩
        rw [countHit_cache, he₁]
        exact hserves

end SideInv

end

end Sasat
