import Sasat.Log.Inside
import Sasat.Back.ClientMap

/-!
# A dump of the client tables that leaves the work buffer

The backend translator has seen 256 IPv6 clients in each direction. Every record of the dump has 95
characters and the margin is 78: the test behind record 343 finds 32690 characters, the most that it
lets pass, and the record behind it ends at 32785.

* `Stamped`: an entry that has been hit has a time stamp; `Stamped.step`, `stamped_run`.
* `FullTable`: a pool of clients with long addresses, one packet of each.
* **`not_inside_of_fullTable`**: two full tables of long addresses do not fit into the buffer.
* **`cliBack_overrun`**: such tables arise.
-/

namespace Sasat

open Flush

/-! ## Time stamps -/

namespace CiTable

variable {A : Type} {t t' : CiTable A} {hash : A → CiBucket} {tsc : BitVec 64} {a : A} {e : CiPtr}

/-- An entry that has been hit has a time stamp. -/
def Stamped (t : CiTable A) : Prop := ∀ e, (t.init e).hit ≠ 0 → (t.init e).timestamp ≠ 0

theorem Stamped.hit (h : Stamped t) (htsc : tsc ≠ 0) : Stamped (t.hit tsc e) := by
  intro i hi
  by_cases hie : i = e
  · subst hie
    rw [CiTable.hit, modify_init_self]
    exact htsc
  · rw [CiTable.hit, modify_init_of_ne hie] at hi ⊢
    exact h i hi

theorem Stamped.enter (h : Stamped t) (b : CiBucket) : Stamped (t.enter a b e) := by
  intro i hi
  by_cases hie : i = e
  · subst hie
    rw [enter_init_self] at hi ⊢
    exact h i hi
  · rw [enter_init_of_ne b hie] at hi ⊢
    exact h i hi

theorem Stamped.getFreeCi (h : Stamped t) : Stamped t.getFreeCi.2 := by
  unfold CiTable.getFreeCi
  cases t.cf with
  | none => exact h
  | some e => exact h

theorem stamped_fillFree (h : ∀ e, (t.init e).hit = 0) : Stamped t.fillFree := fun e he =>
  absurd (((fillFree_spec t).2.2 e).trans (h e)) he

variable [Zero A]

theorem Stamped.creCi {b : CiBucket} (h : Stamped t) (hc : t.creCi a b = .ok (e, t')) :
    Stamped t' := by
  unfold CiTable.creCi at hc
  split at hc
  next e₁ t₁ hfree =>
    cases hc
    have h₁ := h.getFreeCi
    rw [hfree] at h₁
    exact h₁.enter b
  next t₁ hfree =>
    split at hc
    next e₂ t₂ hfree₂ =>
      cases hc
      have hfill : Stamped t₁.clrCi.fillFree := stamped_fillFree fun _ => rfl
      have h₂ := hfill.getFreeCi
      rw [hfree₂] at h₂
      exact h₂.enter b
    next => cases hc

variable [DecidableEq A]

theorem Stamped.step (h : Stamped t) (htsc : tsc ≠ 0) (hc : getCi hash tsc a t = .ok t') :
    Stamped t' := by
  unfold getCi at hc
  split at hc
  next => cases hc
  next e hs =>
    cases hc
    exact h.hit htsc
  next hs =>
    cases hcre : t.creCi a (hash a) with
    | error f =>
      rw [hcre] at hc
      cases hc
    | ok r =>
      rw [hcre] at hc
      cases hc
      exact (h.creCi hcre).hit htsc

end CiTable

theorem stamped_run {calls : List CiCall} {ci ci' : ClientInfo} (hts : ∀ c ∈ calls, c.tsc ≠ 0)
    (h : ∀ k, (ci.table k).Stamped) (hrun : runCi ci calls = .ok ci') :
    ∀ k, (ci'.table k).Stamped := by
  induction calls generalizing ci with
  | nil =>
    cases hrun
    exact h
  | cons c calls ih =>
    rw [runCi, List.foldlM_cons, CiCall.step_eq] at hrun
    cases hget : (ci.table c.kind).getCi c.kind.hash c.tsc c.addr with
    | error f =>
      rw [hget] at hrun
      cases hrun
    | ok t =>
      rw [hget] at hrun
      refine ih (fun c hc => hts c (List.mem_cons_of_mem _ hc)) (fun k => ?_) hrun
      by_cases hk : k = c.kind
      · subst hk
        rw [ClientInfo.table_setTable_self]
        exact (h c.kind).step (hts c List.mem_cons_self) hget
      · rw [ClientInfo.table_setTable_of_ne hk]
        exact h k

/-! ## Full tables -/

/-- A full table of clients with long addresses, each of which has sent one packet. -/
structure FullTable (t : CiTable In6Addr) : Prop where
  stamped : ∀ e, (t.init e).timestamp ≠ 0
  long : ∀ e, (inetNtop6 (t.init e).cliIp).length = 39
  once : ∀ e, (t.init e).hit = 1

theorem fullTable_of_sound {hash : In6Addr → CiBucket} {t : CiTable In6Addr} {log : List In6Addr}
    {P : Option CiBucket → List CiPtr} (h : CiTable.Sound hash t log P) (hst : t.Stamped)
    (hnd : log.Nodup) (hlen : log.length = cliCache)
    (hlong : ∀ a ∈ log, (inetNtop6 a).length = 39) : FullTable t := by
  have hcard := h.card_log
  rw [List.toFinset_card_of_nodup hnd] at hcard
  have hfree : P none = [] := List.length_eq_zero_iff.mp (by omega)
  have hused : ∀ e, ∃ b, e ∈ P (some b) := by
    intro e
    obtain ⟨k, hk, -⟩ := h.placed.once e
    cases k with
    | none => exact absurd (hfree ▸ hk) List.not_mem_nil
    | some b => exact ⟨b, hk⟩
  have hhit : ∀ e, (t.init e).hit = 1 := by
    intro e
    obtain ⟨b, hb⟩ := hused e
    rw [h.hits hb, List.count_eq_one_of_mem hnd (h.entered hb)]
    rfl
  refine ⟨fun e => hst e ?_, fun e => ?_, hhit⟩
  · rw [hhit]
    decide
  · obtain ⟨b, hb⟩ := hused e
    exact hlong _ (h.entered hb)

/-! ## The dump -/

/-- The functions of the C library on 1 January 1970, in the first millisecond after the start. -/
def epoch : Clock where
  getMs _ := 0
  localtime _ := ⟨70, 0, 1, 0, 0, 0⟩
  ctime _ := lit "Thu Jan  1 00:00:00 1970\n"
  ctime_le _ := (length_lit _).trans_le (by decide)

theorem length_getTime_epoch (start curr ssec : BitVec 64) :
    (getTime epoch start curr ssec).length = 23 := by
  change (getTime epoch 0 0 0).length = 23
  decide +kernel

theorem length_number_256 : ∀ n < 257, (number (BitVec.ofNat 32 n)).length = 6 := by
  decide +kernel

theorem cliRecords_fullTable {t : CiTable In6Addr} (h : FullTable t) (ci : ClientInfo) :
    (cliRecords epoch ci inetNtop6 t).length = cliCache ∧
      ∀ r ∈ cliRecords epoch ci inetNtop6 t, r.length = 95 := by
  have hall : usedCis t = (List.finRange cliCache).map t.init := by
    refine List.filter_eq_self.mpr fun e he => ?_
    obtain ⟨i, -, rfl⟩ := List.mem_map.mp he
    exact decide_eq_true (h.stamped i)
  have hlen : (usedCis t).length = cliCache := by
    rw [hall, List.length_map, List.length_finRange]
  refine ⟨cliRecords_length.trans hlen, fun r hr => ?_⟩
  obtain ⟨e, he, rfl⟩ := List.mem_map.mp hr
  have hmem := List.fst_mem_of_mem_zipIdx he
  have hnum := List.snd_lt_of_mem_zipIdx he
  rw [hlen] at hnum
  rw [hall] at hmem
  obtain ⟨i, -, hi⟩ := List.mem_map.mp hmem
  have hnumber := length_number_256 e.2 (by unfold cliCache at hnum; omega)
  have haddr := h.long i
  have hhit := h.once i
  rw [hi] at haddr hhit
  have hone : (fmtU (1 : BitVec 32).toNat).length = 1 := by decide
  have h1 : (lit " (").length = 2 := (length_lit _).trans (by decide)
  have h2 : (lit " packets) last access: ").length = 23 := (length_lit _).trans (by decide)
  have h3 : (lit "\n").length = 1 := (length_lit _).trans (by decide)
  simp only [cliRecord, List.length_append, hnumber, haddr, hhit, hone, length_getTime_epoch, h1,
    h2, h3]

theorem total_cliPart {name : String} {rs : List Text} (hname : name.length = 35)
    (h : ∀ r ∈ rs, r.length = 95) : total (cliPart name 78 rs) = 37 + 95 * rs.length := by
  have hblocks : total (rs.flatMap fun r => block 78 [r]) = 95 * rs.length := by
    refine total_blocks 78 fun r hr => ?_
    rw [List.map_cons, List.map_nil, List.sum_cons, List.sum_nil, Nat.add_zero, h r hr]
  calc total (cliPart name 78 rs) =
      total [print (lit "\n" ++ lit name ++ lit "\n")] + total (rs.flatMap fun r => block 78 [r]) :=
        total_append [print _] _
    _ = 37 + 95 * rs.length := by rw [print, total_put, length_heading hname, hblocks]

theorem not_inside_records {name name' : String} {rs rs' : List Text} {rest : List (Op Char)}
    (hname : name.length = 35) (hname' : name'.length = 35) (hlen : rs.length = 256)
    (hlen' : 87 < rs'.length) (h : ∀ r ∈ rs, r.length = 95) (h' : ∀ r ∈ rs', r.length = 95) :
    ¬ Inside tmpSize (print (title "CLIENT INFO:") ::
      (cliPart name 78 rs ++ (cliPart name' 78 rs' ++ rest))) := by
  have hsplit : rs' = rs'.take 87 ++ rs'[87] :: rs'.drop 88 := by
    rw [← List.drop_eq_getElem_cons hlen', List.take_append_drop]
  have hlast : (rs'[87]).length = 95 := h' _ (List.getElem_mem hlen')
  have htake : ∀ r ∈ rs'.take 87, r.length = 95 := fun r hr => h' r (List.mem_of_mem_take hr)
  have hlen₂ : (rs'.take 87).length = 87 := by
    rw [List.length_take]
    omega
  -- what is written from the start up to record 87 of the second part
  set seg := [print (title "CLIENT INFO:")] ++
    (cliPart name 78 rs ++ cliPart name' 78 (rs'.take 87)) with hseg
  have htotal : total seg = 32690 := by
    have htitle : (title "CLIENT INFO:").length = 31 := (length_title _).trans (by decide)
    rw [hseg, total_append, total_append, print, total_put, htitle, total_cliPart hname h,
      total_cliPart hname' htake, hlen, hlen₂]
  have hquiet : Quiet tmpSize seg := by
    refine Quiet.of_total fun x hx => ?_
    have hx : x = 78 := by
      have hx : Op.test x ∈ cliPart name 78 rs ++ cliPart name' 78 (rs'.take 87) :=
        test_mem_print.mp hx
      rcases List.mem_append.mp hx with hx | hx
      · exact eq_of_test_mem_blocks (test_mem_print.mp hx)
      · exact eq_of_test_mem_blocks (test_mem_print.mp hx)
    rw [htotal, hx]
    decide
  have hno : ¬ Inside tmpSize (seg ++ Op.put rs'[87] (rs'[87]).length ::
      (Op.test 78 :: (rs'.drop 88).flatMap (fun r => block 78 [r]) ++ rest)) := by
    refine not_inside hquiet ?_
    rw [htotal, hlast]
    decide
  have hpart : cliPart name' 78 rs' = cliPart name' 78 (rs'.take 87) ++
      Op.put rs'[87] (rs'[87]).length :: Op.test 78 ::
        (rs'.drop 88).flatMap fun r => block 78 [r] := by
    conv_lhs => rw [hsplit]
    rw [cliPart, List.flatMap_append, List.flatMap_cons]
    rfl
  rw [hpart]
  simpa [hseg] using hno

/-- **Two full tables of long addresses are not written inside the buffer.** -/
theorem not_inside_of_fullTable {ci : ClientInfo} (hup : FullTable ci.up6)
    (hdwn : FullTable ci.dwn6) : ¬ (Dump.cliBack ci).Inside epoch := by
  obtain ⟨hlen, hrs⟩ := cliRecords_fullTable hup ci
  obtain ⟨hlen', hrs'⟩ := cliRecords_fullTable hdwn ci
  rw [Dump.Inside, Dump.ops, writeLogCliBack_eq]
  exact not_inside_records (by decide) (by decide) hlen (by rw [hlen']; decide) hrs hrs'

/-! ## The run -/

/-- The clients from `fdfd:fdfd:fdfd:fdfd:fdfd:fdfd:fdfd:fd00` to `...:fdff`. -/
def client6 (i : Fin 256) : In6Addr := fun j => if j = 15 then BitVec.ofFin i else 0xfd

def clients6 : List In6Addr := (List.finRange 256).map client6

theorem length_client6 : ∀ i, (inetNtop6 (client6 i)).length = 39 := by decide +kernel

theorem clients6_nodup : clients6.Nodup := by
  refine (List.nodup_finRange 256).map fun i j hij => ?_
  exact BitVec.ofFin.inj (congrFun hij 15)

/-- One packet from each client, then one to each. -/
def calls6 : List CiCall :=
  (List.finRange 256).map (fun i => .up6 (BitVec.ofNat 64 (i + 1)) (client6 i)) ++
    (List.finRange 256).map fun i => .dwn6 (BitVec.ofNat 64 (i + 257)) (client6 i)

theorem addrs_append (k : CiKind) (l l' : List CiCall) :
    addrs k (l ++ l') = addrs k l ++ addrs k l' :=
  List.filterMap_append

section Addrs

variable {k : CiKind} {f f' : Fin 256 → CiCall} {g : Fin 256 → k.Addr}

theorem addrs_map (h : ∀ i, addrs k [f i] = [g i]) (l : List (Fin 256)) :
    addrs k (l.map f) = l.map g := by
  induction l with
  | nil => rfl
  | cons i l ih =>
    calc addrs k (f i :: l.map f) = addrs k [f i] ++ addrs k (l.map f) := addrs_append k [f i] _
      _ = g i :: l.map g := by rw [h, ih, List.singleton_append]

theorem addrs_map_nil (h : ∀ i, addrs k [f i] = []) (l : List (Fin 256)) :
    addrs k (l.map f) = [] := by
  induction l with
  | nil => rfl
  | cons i l ih =>
    calc addrs k (f i :: l.map f) = addrs k [f i] ++ addrs k (l.map f) := addrs_append k [f i] _
      _ = [] := by rw [h, ih, List.append_nil]

theorem addrs_left (h : ∀ i, addrs k [f i] = [g i]) (h' : ∀ i, addrs k [f' i] = [])
    (l : List (Fin 256)) : addrs k (l.map f ++ l.map f') = l.map g := by
  rw [addrs_append, addrs_map h, addrs_map_nil h', List.append_nil]

theorem addrs_right (h : ∀ i, addrs k [f i] = []) (h' : ∀ i, addrs k [f' i] = [g i])
    (l : List (Fin 256)) : addrs k (l.map f ++ l.map f') = l.map g := by
  rw [addrs_append, addrs_map_nil h, addrs_map h', List.nil_append]

theorem addrs_none (h : ∀ i, addrs k [f i] = []) (h' : ∀ i, addrs k [f' i] = [])
    (l : List (Fin 256)) : addrs k (l.map f ++ l.map f') = [] := by
  rw [addrs_append, addrs_map_nil h, addrs_map_nil h', List.nil_append]

end Addrs

theorem addrs_calls6_up6 : addrs .up6 calls6 = clients6 :=
  addrs_left (k := .up6) (fun _ => rfl) (fun _ => rfl) _

theorem addrs_calls6_dwn6 : addrs .dwn6 calls6 = clients6 :=
  addrs_right (k := .dwn6) (fun _ => rfl) (fun _ => rfl) _

theorem addrs_calls6_up4 : addrs .up4 calls6 = [] :=
  addrs_none (fun _ => rfl) (fun _ => rfl) _

theorem addrs_calls6_dwn4 : addrs .dwn4 calls6 = [] :=
  addrs_none (fun _ => rfl) (fun _ => rfl) _

theorem tsc_calls6 : ∀ c ∈ calls6, c.tsc ≠ 0 := by
  have hne : ∀ n : ℕ, 0 < n → n < 1000 → BitVec.ofNat 64 n ≠ 0 := by
    intro n hpos hlt heq
    have := congrArg BitVec.toNat heq
    rw [BitVec.toNat_ofNat] at this
    change n % 2 ^ 64 = 0 at this
    omega
  intro c hc
  rcases List.mem_append.mp hc with hc | hc
  · obtain ⟨i, -, rfl⟩ := List.mem_map.mp hc
    exact hne _ (by omega) (by omega)
  · obtain ⟨i, -, rfl⟩ := List.mem_map.mp hc
    exact hne _ (by omega) (by omega)

theorem length_clients6 : clients6.length = cliCache :=
  (List.length_map _).trans List.length_finRange

theorem fits_calls6 : Traced.Fits calls6 := by
  have hcard : clients6.toFinset.card ≤ cliCache :=
    (List.toFinset_card_le _).trans length_clients6.le
  intro k
  cases k with
  | up4 =>
    rw [addrs_calls6_up4]
    exact Nat.zero_le _
  | dwn4 =>
    rw [addrs_calls6_dwn4]
    exact Nat.zero_le _
  | up6 => exact addrs_calls6_up6 ▸ hcard
  | dwn6 => exact addrs_calls6_dwn6 ▸ hcard

/-- **A run of the backend translator after which the dump of its clients leaves the buffer.** -/
theorem cliBack_overrun : ∃ ci, runCi (initClientTable 0 0) calls6 = .ok ci ∧
    ¬ (Dump.cliBack ci).Inside epoch := by
  obtain ⟨s, hrun, hsound, hlog⟩ := Traced.run_of_fits 0 0 fits_calls6
  have hinfo : runCi (initClientTable 0 0) calls6 = .ok s.info := Traced.run_info hrun
  have hst := stamped_run tsc_calls6 (fun k => by
    rw [ClientInfo.table_initClientTable]
    exact CiTable.stamped_fillFree fun _ => rfl) hinfo
  have hlong : ∀ a ∈ clients6, (inetNtop6 a).length = 39 := by
    intro a ha
    obtain ⟨i, -, rfl⟩ := List.mem_map.mp ha
    exact length_client6 i
  refine ⟨s.info, hinfo, not_inside_of_fullTable ?_ ?_⟩
  · obtain ⟨P, hP⟩ := hsound .up6
    rw [hlog, addrs_calls6_up6] at hP
    exact fullTable_of_sound hP (hst .up6) clients6_nodup length_clients6 hlong
  · obtain ⟨P, hP⟩ := hsound .dwn6
    rw [hlog, addrs_calls6_dwn6] at hP
    exact fullTable_of_sound hP (hst .dwn6) clients6_nodup length_clients6 hlong

end Sasat
