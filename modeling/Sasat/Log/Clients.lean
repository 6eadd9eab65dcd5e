import Sasat.Log.Ring
import Sasat.Back.ClientWalk
import Mathlib.Data.List.Dedup

/-!
# What the log of the clients says

A client table takes its entries from the end of the pool to its beginning, and `write_log_cli`
walks the pool from its beginning. The clients are listed with those first seen latest in front.

* `visited`, `lastVisit`: the clients of the calls on a table, and the time of the last call of one.
* `Listed`: the pool against the calls; **`Listed.step`**: one call keeps it.
* **`Listed.usedCis`**: the entries that are in use are the clients of the calls.
* **`listed_run`**: all four tables, over all runs that do not recycle a pool.
* `clientsText`: the part of the log for a table; **`texts_writeLogCliBack`**.
-/

namespace Sasat

open List

/-! ## Calls -/

section

variable {A : Type} [DecidableEq A]

/-- The addresses of the calls, each once, those first seen latest in front. -/
def visited (log : List (A × BitVec 64)) : List A := (log.map Prod.fst).reverse.dedup

def lastVisit (log : List (A × BitVec 64)) (a : A) : BitVec 64 :=
  ((log.reverse.find? fun c => c.1 = a).map Prod.snd).getD 0

variable {log : List (A × BitVec 64)} {a b : A} {tsc : BitVec 64}

theorem mem_visited : a ∈ visited log ↔ a ∈ log.map Prod.fst := by
  rw [visited, mem_dedup, mem_reverse]

theorem nodup_visited (log : List (A × BitVec 64)) : (visited log).Nodup := nodup_dedup _

theorem visited_concat_of_mem (h : a ∈ log.map Prod.fst) :
    visited (log ++ [(a, tsc)]) = visited log := by
  rw [visited, map_append, reverse_append]
  exact dedup_cons_of_mem (mem_reverse.mpr h)

theorem visited_concat_of_notMem (h : a ∉ log.map Prod.fst) :
    visited (log ++ [(a, tsc)]) = a :: visited log := by
  rw [visited, map_append, reverse_append]
  exact dedup_cons_of_notMem fun hm => h (mem_reverse.mp hm)

theorem lastVisit_concat_self : lastVisit (log ++ [(a, tsc)]) a = tsc := by
  simp [lastVisit]

theorem lastVisit_concat_of_ne (h : b ≠ a) : lastVisit (log ++ [(a, tsc)]) b = lastVisit log b := by
  simp [lastVisit, h.symm]

theorem lastVisit_mem (h : a ∈ log.map Prod.fst) : (a, lastVisit log a) ∈ log := by
  obtain ⟨c, hc, rfl⟩ := mem_map.mp h
  have hsome : (log.reverse.find? fun x => x.1 = c.1).isSome :=
    find?_isSome.mpr ⟨c, mem_reverse.mpr hc, decide_eq_true rfl⟩
  obtain ⟨x, hx⟩ := Option.isSome_iff_exists.mp hsome
  have hxc : x.1 = c.1 := by simpa using find?_some hx
  rw [lastVisit, hx, ← hxc]
  exact mem_reverse.mp (mem_of_find?_eq_some hx)

end

/-! ## A table -/

namespace CiTable

variable {A : Type} [DecidableEq A]

/-- The pool is a part `F` that has not been used yet and a part `U` with the clients of the calls,
in their order. -/
structure Listed (hash : A → CiBucket) (t : CiTable A) (log : List (A × BitVec 64))
    (P : Option CiBucket → List CiPtr) (F U : List CiPtr) : Prop where
  sound : Sound hash t (log.map Prod.fst) P
  pool : finRange cliCache = F ++ U
  free : P none = F.reverse
  blank : ∀ e ∈ F, (t.init e).timestamp = 0
  clients : U.map (fun e => (t.init e).cliIp) = visited log
  last : ∀ e ∈ U, (t.init e).timestamp = lastVisit log (t.init e).cliIp

namespace Listed

variable {hash : A → CiBucket} {t : CiTable A} {log : List (A × BitVec 64)}
  {P : Option CiBucket → List CiPtr} {F U f : List CiPtr} {a : A} {e : CiPtr} {tsc : BitVec 64}

theorem mem_used (h : Listed hash t log P F U) {b : CiBucket} (he : e ∈ P (some b)) : e ∈ U := by
  have hpool : e ∈ F ++ U := h.pool ▸ mem_finRange e
  refine (mem_append.mp hpool).resolve_left fun hF => ?_
  have hfree : e ∈ P none := h.free ▸ mem_reverse.mpr hF
  exact Option.some_ne_none b (h.sound.placed.unique he hfree)

theorem hit (h : Listed hash t log P F U) (he : e ∈ P (some (hash a)))
    (hea : (t.init e).cliIp = a) : Listed hash (t.hit tsc e) (log ++ [(a, tsc)]) P F U := by
  have hU := h.mem_used he
  have hnd : (F ++ U).Nodup := h.pool ▸ nodup_finRange _
  have hmem : a ∈ log.map Prod.fst := hea ▸ h.sound.entered he
  refine ⟨?_, h.pool, h.free, fun i hi => ?_, ?_, fun i hi => ?_⟩
  · rw [map_append]
    exact h.sound.hit he hea
  · have hne : i ≠ e := (nodup_append.mp hnd).2.2 i hi e hU
    rw [CiTable.hit, modify_init_of_ne hne]
    exact h.blank i hi
  · simp only [hit_cliIp]
    rw [h.clients, visited_concat_of_mem hmem]
  · rw [hit_cliIp]
    by_cases hie : i = e
    · subst hie
      rw [hea, lastVisit_concat_self]
      exact congrArg Ci.timestamp modify_init_self
    · have hia : (t.init i).cliIp ≠ a := fun hia => hie <|
        inj_on_of_nodup_map (h.clients ▸ nodup_visited log) hi hU (hia.trans hea.symm)
      rw [lastVisit_concat_of_ne hia, CiTable.hit, modify_init_of_ne hie]
      exact h.last i hi

theorem enter (h : Listed hash t log P F U) (ha : a ∉ log.map Prod.fst) (hP : P none = e :: f) :
    Listed hash ((({ t with cf := t.next e } : CiTable A).enter a (hash a) e).hit tsc e)
      (log ++ [(a, tsc)]) (moved P f (hash a) e) f.reverse (e :: U) := by
  have hF : F = f.reverse ++ [e] := by
    rw [← reverse_reverse F, ← h.free, hP, reverse_cons]
  have hpool : finRange cliCache = f.reverse ++ e :: U := by
    rw [h.pool, hF, append_assoc, singleton_append]
  have hnd : (f.reverse ++ e :: U).Nodup := hpool ▸ nodup_finRange _
  have hnf : ∀ i ∈ f.reverse, i ≠ e := fun i hi => (nodup_append.mp hnd).2.2 i hi e mem_cons_self
  have hnU : ∀ i ∈ U, i ≠ e := fun i hi he =>
    (nodup_cons.mp (nodup_append.mp hnd).2.1).1 (he ▸ hi)
  set t₁ := ({ t with cf := t.next e } : CiTable A).enter a (hash a) e
  have hself : (t₁.init e).cliIp = a := congrArg Ci.cliIp (enter_init_self _)
  have hother : ∀ {i}, i ≠ e → (t₁.hit tsc e).init i = t.init i := fun hi => by
    rw [CiTable.hit, modify_init_of_ne hi]
    exact enter_init_of_ne _ hi
  refine ⟨?_, hpool, (reverse_reverse f).symm, fun i hi => ?_, ?_, fun i hi => ?_⟩
  · rw [map_append]
    exact h.sound.enter ha hP
  · rw [hother (hnf i hi)]
    exact h.blank i (hF ▸ mem_append_left _ hi)
  · rw [map_cons, hit_cliIp, hself, visited_concat_of_notMem ha, ← h.clients]
    exact congrArg (a :: ·) (map_congr_left fun i hi => congrArg Ci.cliIp (hother (hnU i hi)))
  · rcases mem_cons.mp hi with rfl | hi
    · rw [hit_cliIp, hself, lastVisit_concat_self]
      exact congrArg Ci.timestamp modify_init_self
    · have hmem : (t.init i).cliIp ∈ visited log := h.clients ▸ mem_map_of_mem hi
      have hia : (t.init i).cliIp ≠ a := fun hia => ha (hia ▸ mem_visited.mp hmem)
      rw [hother (hnU i hi), lastVisit_concat_of_ne hia]
      exact h.last i hi

variable [Zero A]

/-- **One call**, as long as the pool lasts. -/
theorem step (h : Listed hash t log P F U) (tsc : BitVec 64)
    (hfit : (log.map Prod.fst ++ [a]).toFinset.card ≤ cliCache) :
    ∃ t' P' F' U', getCi hash tsc a t = .ok t' ∧ Listed hash t' (log ++ [(a, tsc)]) P' F' U' := by
  have hs := h.sound.search_eq a
  cases hfind : (P (some (hash a))).find? fun e => (t.init e).cliIp == a with
  | some e =>
    rw [hfind] at hs
    obtain ⟨he, hea⟩ := h.sound.of_search_some hs
    exact ⟨_, _, _, _, getCi_hit hs, h.hit he hea⟩
  | none =>
    rw [hfind] at hs
    have ha := h.sound.of_search_none hs
    have hcf : t.cf = (P none).head? := (h.sound.placed.links none).eq_head?
    cases hP : P none with
    | nil =>
      have hcard := h.sound.card_log
      rw [hP, length_nil, Nat.add_zero] at hcard
      rw [toFinset_append, toFinset_cons, toFinset_nil, Finset.union_comm, insert_empty_eq,
        Finset.singleton_union, Finset.card_insert_of_notMem (by simpa using ha)] at hfit
      omega
    | cons e f =>
      rw [hP] at hcf
      exact ⟨_, _, _, _, getCi_insert hs hcf, h.enter ha hP⟩

end Listed

section

omit [DecidableEq A]

theorem fillFree_timestamp (t : CiTable A) (e : CiPtr) :
    (t.fillFree.init e).timestamp = (t.init e).timestamp := by
  have hfold : ∀ (l : List CiPtr) (t : CiTable A),
      ((l.foldl insertFree t).init e).timestamp = (t.init e).timestamp := by
    intro l
    induction l with
    | nil => exact fun _ => rfl
    | cons i l ih =>
      exact fun t => (ih (t.insertFree i)).trans <|
        modify_keeps (t := t) (f := fun c => { c with next := t.cf }) Ci.timestamp rfl e
  unfold fillFree
  exact hfold _ _

end

variable {hash : A → CiBucket} {t : CiTable A} {log : List (A × BitVec 64)}
  {P : Option CiBucket → List CiPtr} {F U : List CiPtr}

theorem listed_initial [Zero A] (hash : A → CiBucket) :
    ∃ P, Listed hash (initial : CiTable A) [] P (finRange cliCache) [] := by
  obtain ⟨P, hP⟩ := sound_initial (A := A) hash
  obtain ⟨hfill, -⟩ := fillFree_spec (⟨none, fun _ => none, fun _ => ⟨none, 0, 0, 0⟩⟩ : CiTable A)
  have hfree : P none = (finRange cliCache).reverse :=
    ((hP.placed.links none).unique hfill).trans reverse_finRange.symm
  exact ⟨P, hP, (append_nil _).symm, hfree, fun e _ => fillFree_timestamp _ e, rfl,
    fun _ he => absurd he not_mem_nil⟩

/-- **The entries that are in use are those of the clients**, with the numbers of their calls. -/
theorem Listed.usedCis (h : Listed hash t log P F U) (hlog : ∀ c ∈ log, c.2 ≠ 0) :
    Sasat.usedCis t = U.map t.init ∧ ∀ e ∈ U,
      (t.init e).hit = BitVec.ofNat 32 ((log.map Prod.fst).count (t.init e).cliIp) := by
  have hblank : (F.map t.init).filter (fun e => e.timestamp ≠ 0) = [] := by
    rw [filter_eq_nil_iff]
    intro x hx
    obtain ⟨e, he, rfl⟩ := mem_map.mp hx
    simp [h.blank e he]
  have hused : (U.map t.init).filter (fun e => e.timestamp ≠ 0) = U.map t.init := by
    rw [filter_eq_self]
    intro x hx
    obtain ⟨e, he, rfl⟩ := mem_map.mp hx
    have hmem : (t.init e).cliIp ∈ visited log := h.clients ▸ mem_map_of_mem he
    rw [decide_eq_true_iff, h.last e he]
    exact hlog _ (lastVisit_mem (mem_visited.mp hmem))
  refine ⟨?_, fun e he => ?_⟩
  · rw [Sasat.usedCis, h.pool, map_append, filter_append, hblank, hused, nil_append]
  · have hnd : (F ++ U).Nodup := h.pool ▸ nodup_finRange _
    obtain ⟨k, hk, -⟩ := h.sound.placed.once e
    cases k with
    | none =>
      have hF : e ∈ F := mem_reverse.mp (h.free ▸ hk)
      exact absurd rfl ((nodup_append.mp hnd).2.2 e hF e he)
    | some b => exact h.sound.hits hk

end CiTable

/-! ## Runs -/

/-- The calls on table `k`. -/
def visits (k : CiKind) (calls : List CiCall) : List (k.Addr × BitVec 64) :=
  calls.filterMap fun c => if h : c.kind = k then some (h ▸ c.addr, c.tsc) else none

theorem visits_concat_self (calls : List CiCall) (c : CiCall) :
    visits c.kind (calls ++ [c]) = visits c.kind calls ++ [(c.addr, c.tsc)] := by
  simp [visits]

theorem visits_concat_of_ne {k : CiKind} (calls : List CiCall) {c : CiCall} (h : c.kind ≠ k) :
    visits k (calls ++ [c]) = visits k calls := by
  simp [visits, h]

theorem map_visits (k : CiKind) (calls : List CiCall) :
    (visits k calls).map Prod.fst = addrs k calls := by
  rw [visits, addrs, map_filterMap]
  refine filterMap_congr fun c _ => ?_
  by_cases hk : c.kind = k
  · rw [dif_pos hk, dif_pos hk, Option.map_some]
  · rw [dif_neg hk, dif_neg hk, Option.map_none]

theorem visits_tsc {k : CiKind} {calls : List CiCall} (h : ∀ c ∈ calls, c.tsc ≠ 0) :
    ∀ c ∈ visits k calls, c.2 ≠ 0 := by
  intro x hx
  obtain ⟨c, hc, hcx⟩ := mem_filterMap.mp hx
  split_ifs at hcx with hk
  obtain rfl := Option.some.inj hcx
  exact h c hc

/-- The four tables against the calls. -/
structure ClientsListed (st ts : BitVec 64) (calls : List CiCall) (ci : ClientInfo) : Prop where
  table : ∀ k, ∃ P F U, CiTable.Listed k.hash (ci.table k) (visits k calls) P F U
  starttime : ci.starttime = st
  tsc : ci.tsc = ts

/-- **All tables, over all runs that do not recycle a pool.** -/
theorem listed_run (st ts : BitVec 64) {calls : List CiCall} (h : Traced.Fits calls) :
    ∃ ci, runCi (initClientTable st ts) calls = .ok ci ∧ ClientsListed st ts calls ci := by
  induction calls using List.reverseRecOn with
  | nil =>
    refine ⟨_, rfl, fun k => ?_, rfl, rfl⟩
    rw [ClientInfo.table_initClientTable]
    obtain ⟨P, hP⟩ := CiTable.listed_initial k.hash
    exact ⟨P, _, _, hP⟩
  | append_singleton calls c ih =>
    obtain ⟨hfits, hcard⟩ := Traced.fits_concat.mp h
    obtain ⟨ci, hrun, hci⟩ := ih hfits
    obtain ⟨P, F, U, hl⟩ := hci.table c.kind
    rw [← map_visits] at hcard
    obtain ⟨t', P', F', U', hget, hl'⟩ := hl.step c.tsc hcard
    refine ⟨_, by rw [runCi_concat, hrun]; exact CiCall.step_ok hget, fun k => ?_, ?_, ?_⟩
    · by_cases hk : k = c.kind
      · subst hk
        rw [ClientInfo.table_setTable_self, visits_concat_self]
        exact ⟨_, _, _, hl'⟩
      · rw [ClientInfo.table_setTable_of_ne hk, visits_concat_of_ne _ (Ne.symm hk)]
        exact hci.table k
    · rw [← hci.starttime]
      cases c <;> rfl
    · rw [← hci.tsc]
      cases c <;> rfl

/-! ## The text -/

def CiKind.heading : CiKind → String
  | up4 => "IPv4 client info (client to server)"
  | dwn4 => "IPv4 client info (server to client)"
  | up6 => "IPv6 client info (client to server)"
  | dwn6 => "IPv6 client info (server to client)"

def CiKind.ntop : (k : CiKind) → k.Addr → Text
  | up4 | dwn4 => inetNtop4
  | up6 | dwn6 => inetNtop6

/-- The part of the log for a table, after the calls. -/
def clientsText (c : Clock) (st ts : BitVec 64) (calls : List CiCall) (k : CiKind) : Text :=
  lit "\n" ++ lit k.heading ++ lit "\n" ++ (records (visited (visits k calls)) fun num a =>
    cliRecord " packets) last access: " num (k.ntop a) (BitVec.ofNat 32 ((addrs k calls).count a))
      (getTime c ts (lastVisit (visits k calls) a) st)).flatten

section

variable {β γ : Type} {l : List β}

theorem records_map (g : γ → β) (l : List γ) (f : BitVec 32 → β → Text) :
    records (l.map g) f = records l fun num a => f num (g a) := by
  rw [records, records, zipIdx_map, map_map]
  rfl

theorem records_congr {f f' : BitVec 32 → β → Text} (h : ∀ num, ∀ a ∈ l, f num a = f' num a) :
    records l f = records l f' :=
  map_congr_left fun e he => h _ e.1 (fst_mem_of_mem_zipIdx he)

end

theorem texts_cliPart (name : String) (x : ℕ) (rs : List Text) :
    Flush.texts (cliPart name x rs) = lit "\n" ++ lit name ++ lit "\n" ++ rs.flatten := by
  rw [cliPart, texts_print, texts_flatMap]
  refine congrArg _ ?_
  rw [← flatMap_id]
  refine flatMap_congr fun r _ => ?_
  exact (texts_print r _).trans (append_nil _)

section

variable {st ts : BitVec 64} {calls : List CiCall} {ci : ClientInfo} (c : Clock)
  (h : ClientsListed st ts calls ci) (htsc : ∀ c ∈ calls, c.tsc ≠ 0)

include h htsc

/-- **What the log says of a table.** -/
theorem texts_cliBack (k : CiKind) (n : ℕ) :
    Flush.texts (cliBack c ci k.heading n k.ntop (ci.table k)) = clientsText c st ts calls k := by
  obtain ⟨P, F, U, hl⟩ := h.table k
  obtain ⟨hused, hhit⟩ := hl.usedCis (visits_tsc htsc)
  rw [cliBack_eq, texts_cliPart, clientsText, cliRecords, hused, ← hl.clients, records_map,
    records_map]
  refine congrArg (fun rs => _ ++ flatten rs) (records_congr fun num e he => ?_)
  rw [hhit e he, map_visits, hl.last e he, h.starttime, h.tsc]

/-- **What `write_log_cli` says**: for each table the clients of the calls, those that came last in
front, each once, with the number of their calls and the time of the last one. -/
theorem texts_writeLogCliBack : Flush.texts (writeLogCliBack c ci) =
    title "CLIENT INFO:" ++ (clientsText c st ts calls .up6 ++ clientsText c st ts calls .dwn6 ++
      clientsText c st ts calls .up4 ++ clientsText c st ts calls .dwn4) := by
  have hup6 : Flush.texts (cliBack c ci _ _ inetNtop6 ci.up6) = _ :=
    texts_cliBack c h htsc .up6 inet6Addrstrlen
  have hdwn6 : Flush.texts (cliBack c ci _ _ inetNtop6 ci.dwn6) = _ :=
    texts_cliBack c h htsc .dwn6 inet6Addrstrlen
  have hup4 : Flush.texts (cliBack c ci _ _ inetNtop4 ci.up4) = _ :=
    texts_cliBack c h htsc .up4 inetAddrstrlen
  have hdwn4 : Flush.texts (cliBack c ci _ _ inetNtop4 ci.dwn4) = _ :=
    texts_cliBack c h htsc .dwn4 inetAddrstrlen
  rw [← hup6, ← hdwn6, ← hup4, ← hdwn4, ← Flush.texts_append, ← Flush.texts_append,
    ← Flush.texts_append]
  exact texts_print _ _

end

end Sasat
