import Sasat.Log.Writers

/-!
# Whether the writers stay inside the work buffer

The margins cover what is written before the next test in every writer but three: the margin of the
statistics is the size of a structure that ends in a flexible array, those of the client tables of
the backend translator are 48 and 78 bytes, and a policy can have a long text.

* `length_mlogRecord`, `length_evtlogRecord`, `length_cliRecord`, `length_polRecord`,
  `length_svrRecord`: the longest records; `length_cliRecords`: a client takes more than 50
  characters.
* `Dump.Inside`, `Dump.Covered`: the writer stays inside the buffer; its margins cover its records.
* `Dump.Short`, `Dump.Roomy`: what the contents must satisfy.
* **`dump_inside_iff`**: a writer stays inside, with margins that cover, exactly if the contents are
  short; it stays inside exactly if they leave room.
-/

namespace Sasat

open Flush

/-! ## Records -/

theorem length_title (name : String) : (title name).length = 19 + name.length := by
  have h1 : (lit "\n----------------\n").length = 18 := (length_lit _).trans (by decide)
  have h2 : (lit "\n").length = 1 := (length_lit _).trans (by decide)
  rw [title, List.length_append, List.length_append, h1, h2, length_lit]
  omega

theorem length_number (num : BitVec 32) : (number num).length ≤ 13 := by
  have h := length_fmtD num
  have h1 : (lit ") ").length = 2 := (length_lit _).trans (by decide)
  rw [number, List.length_append, length_pad, h1]
  omega

theorem length_mlogRecord (c : Clock) (start : LogStart) (e : LogEntry (CText mlogDataLen)) :
    (mlogRecord c start e).length ≤ 170 := by
  have hseq := length_fmtU32 e.seqno
  have htime := length_getTime c start.tsc e.time start.starttime
  have hdata : e.data.val.length < 112 := e.data.property
  have h1 : (lit "\nseq :").length = 6 := (length_lit _).trans (by decide)
  have h2 : (lit "\ntime:").length = 6 := (length_lit _).trans (by decide)
  have h3 : (lit "\nmsg :").length = 6 := (length_lit _).trans (by decide)
  have h4 : (lit "\n").length = 1 := (length_lit _).trans (by decide)
  simp only [mlogRecord, List.length_append, h1, h2, h3, h4]
  omega

theorem length_infos (c : EvtCall) :
    (fmtX c.info1.toNat).length + (fmtX c.info2.toNat).length ≤ 20 := by
  have hlong : ∀ x : BitVec 64, (fmtX x.toNat).length ≤ 16 := fun x =>
    length_fmtX (by decide) (x.isLt.trans_le (by decide))
  have hshort : ∀ x : BitVec 64, x.toNat < 65536 → (fmtX x.toNat).length ≤ 4 := fun x hx =>
    length_fmtX (by decide) (hx.trans_le (by decide))
  have h1 := hlong c.info1
  have h2 := hlong c.info2
  rcases c.small with h | h
  · have := hshort _ h
    omega
  · have := hshort _ h
    omega

theorem length_evtlogRecord (c : Clock) (start : LogStart) (e : LogEntry EvtData) :
    (evtlogRecord c start e).length ≤ 90 := by
  have hseq := length_fmtU32 e.seqno
  have htime := length_getTime c start.tsc e.time start.starttime
  have hinfos := length_infos e.data.call
  have h1 : (lit "\nseq :").length = 6 := (length_lit _).trans (by decide)
  have h2 : (lit "\ntid :").length = 6 := (length_lit _).trans (by decide)
  have h3 : (lit "\ntime:").length = 6 := (length_lit _).trans (by decide)
  have h4 : (lit "\ndata:").length = 6 := (length_lit _).trans (by decide)
  have h5 : (lit "/").length = 1 := (length_lit _).trans (by decide)
  have h6 : (lit "\n").length = 1 := (length_lit _).trans (by decide)
  simp only [evtlogRecord, List.length_append, List.length_ofFn, h1, h2, h3, h4, h5, h6]
  omega

theorem length_fmtByte (b : Byte) : (fmtByte b).length = 2 := by
  rw [fmtByte, length_pad]
  exact max_eq_left (length_fmtX (by decide) b.isLt)

theorem length_evtlogLine (p : Fin elogDataLen → Byte) (x : Fin (elogDataLen / 8)) :
    (evtlogLine p x).length = 29 := by
  have h1 : (lit "     ").length = 5 := (length_lit _).trans (by decide)
  have h2 : (lit "\n").length = 1 := (length_lit _).trans (by decide)
  simp only [evtlogLine, List.length_append, List.length_flatMap, List.length_cons, length_fmtByte,
    List.map_const', List.length_finRange, List.sum_replicate, h1, h2]
  rfl

theorem length_cliRecord (label : String) (num : BitVec 32) {addr time : Text} (hit : BitVec 32)
    (ha : addr.length ≤ 39) (ht : time.length ≤ 30) :
    (cliRecord label num addr hit time).length ≤ 95 + label.length := by
  have hnum := length_number num
  have hhit := length_fmtU32 hit
  have h1 : (lit " (").length = 2 := (length_lit _).trans (by decide)
  have h2 : (lit "\n").length = 1 := (length_lit _).trans (by decide)
  simp only [cliRecord, List.length_append, length_lit label, h1, h2]
  omega

theorem length_polRecord (num : BitVec 32) (line : Text) (hit use : BitVec 32) :
    (polRecord num line hit use).length ≤ 49 + line.length := by
  have hnum := length_number num
  have hhit := length_fmtU32 hit
  have huse := length_fmtU32 use
  have h1 : (lit " (hit:").length = 6 := (length_lit _).trans (by decide)
  have h2 : (lit " client:").length = 8 := (length_lit _).trans (by decide)
  have h3 : (lit ")\n").length = 2 := (length_lit _).trans (by decide)
  simp only [polRecord, List.length_append, h1, h2, h3]
  omega

theorem length_svrRecord {n : ℕ} {ntop : (Fin n → Byte) → Text} (hntop : ∀ a, (ntop a).length ≤ 39)
    (num : BitVec 32) (gw : Fin n → Byte) (v : ServerTbl n) :
    (svrRecord ntop num gw v).length ≤ 118 := by
  have hnum := length_number num
  have hip := hntop v.svrIp
  have hgw := hntop gw
  have hhit := length_fmtU32 v.hit
  have h1 : (lit " via ").length = 5 := (length_lit _).trans (by decide)
  have h2 : (lit " (").length = 2 := (length_lit _).trans (by decide)
  have h3 : (lit " packets)\n").length = 10 := (length_lit _).trans (by decide)
  simp only [svrRecord, List.length_append, apply_ite List.length, List.length_nil, h1, h2, h3]
  split_ifs <;> omega

/-! ## Writers with sufficient margins -/

theorem covered_print {m : ℕ} {t : Text} {ops : List (Op Char)} :
    Covered m (print t :: ops) ↔ t.length < m ∧ Covered (m - t.length) ops :=
  Iff.rfl

theorem covered_ring {β : Type} (c : Clock) (start : LogStart) {name : String} {l : List β}
    {f : β → List Text} {x : ℕ} (hname : name.length ≤ 9) (hx : 0 < x) (hx' : x ≤ 1000)
    (h : ∀ a ∈ l, ((f a).map List.length).sum < x) :
    Covered tmpSize (print (title name ++ c.ctime start.starttime) ::
      l.flatMap fun a => block x (f a)) := by
  have hc := c.ctime_le start.starttime
  have hblocks : Covered x (l.flatMap (fun a => block x (f a)) ++ []) :=
    covered_blocks hx le_rfl h trivial
  rw [List.append_nil] at hblocks
  rw [covered_print, List.length_append, length_title]
  unfold tmpSize
  exact ⟨by omega, hblocks.mono (by omega)⟩

theorem covered_mlog (c : Clock) (start : LogStart) (r : MlogRing) :
    Covered tmpSize (writeLogMlog c start r) := by
  refine covered_ring c start (f := fun e => [mlogRecord c start e]) (by decide) (by decide)
    (by decide) fun e _ => ?_
  have := length_mlogRecord c start e
  simp only [List.map_cons, List.map_nil, List.sum_cons, List.sum_nil]
  omega

theorem covered_evtlog (c : Clock) (start : LogStart) (r : EvtRing) :
    Covered tmpSize (writeLogEvtlog c start r) := by
  have heq : writeLogEvtlog c start r = print (title "EVENTLOG:" ++ c.ctime start.starttime) ::
      (r.entries.filter fun e => e.time ≠ 0).flatMap fun e => block 296
        (evtlogRecord c start e :: (List.finRange (elogDataLen / 8)).map
          fun x => evtlogLine e.data.eData x) := by
    simp only [block, List.map_cons, List.map_map]
    rfl
  rw [heq]
  refine covered_ring c start (by decide) (by decide) (by decide) fun e _ => ?_
  have hline : (List.length ∘ fun x => evtlogLine e.data.eData x) = fun _ => 29 := by
    funext x
    exact length_evtlogLine _ x
  have hrecord := length_evtlogRecord c start e
  rw [List.map_cons, List.sum_cons, List.map_map, hline, List.map_const', List.length_finRange,
    List.sum_replicate]
  change _ + 7 * 29 < 296
  omega

def records {β : Type} (l : List β) (f : BitVec 32 → β → Text) : List Text :=
  (l.zipIdx 1).map fun e => f (BitVec.ofNat 32 e.2) e.1

section Records

variable {β γ : Type} {l : List β} {l' : List γ} {f : BitVec 32 → β → Text}
  {f' : BitVec 32 → γ → Text} {m x : ℕ}

theorem numbered_eq : numbered l (fun num a => [print (f num a), writeLogMiddle x]) =
    (records l f).flatMap fun t => block x [t] := by
  rw [records, List.flatMap_map]
  rfl

theorem length_of_mem_records (h : ∀ num, ∀ a ∈ l, (f num a).length ≤ m) :
    ∀ t ∈ records l f, t.length ≤ m := by
  intro t ht
  obtain ⟨e, he, rfl⟩ := List.mem_map.mp ht
  exact h _ e.1 (List.fst_mem_of_mem_zipIdx he)

theorem covered_two_iff {name : String} (hname : name.length ≤ 100)
    (h : ∀ num, ∀ a ∈ l, (f num a).length ≤ 1000)
    (h' : ∀ num, ∀ a ∈ l', (f' num a).length ≤ 122) :
    Covered tmpSize ([print (title name), print (lit "IPv6\n")] ++
      numbered l (fun num a => [print (f num a), writeLogMiddle 128]) ++
        print (lit "IPv4\n") :: numbered l' (fun num a => [print (f' num a), writeLogMiddle 128]))
      ↔ ∀ t ∈ (records l f).tail, t.length < 128 := by
  have hlit6 : (lit "IPv6\n").length = 5 := (length_lit _).trans (by decide)
  have hlit4 : (lit "IPv4\n").length = 5 := (length_lit _).trans (by decide)
  have htitle := length_title name
  -- the second table fits into the margin of the first one
  have hsecond : ∀ m, 128 ≤ m → Covered m (print (lit "IPv4\n") ::
      numbered l' fun num a => [print (f' num a), writeLogMiddle 128]) := by
    intro m hm
    have hblocks : Covered 123 ((records l' f').flatMap (fun t => block 128 [t]) ++ []) :=
      covered_blocks (by decide) (by decide)
        (fun t ht => Nat.lt_succ_of_le (length_of_mem_records h' t ht)) trivial
    rw [List.append_nil, ← numbered_eq] at hblocks
    rw [covered_print, hlit4]
    exact ⟨by omega, hblocks.mono (by omega)⟩
  have hlong := length_of_mem_records h
  rw [numbered_eq (l := l), List.append_assoc, List.cons_append, List.cons_append, List.nil_append,
    covered_print, covered_print, htitle, hlit6]
  cases hrecs : records l f with
  | nil =>
    refine iff_of_true ⟨?_, ?_, hsecond _ ?_⟩ (by simp) <;> unfold tmpSize <;> omega
  | cons t rs =>
    rw [hrecs] at hlong
    have ht := hlong t List.mem_cons_self
    have hpos : 0 < tmpSize - (19 + name.length) - 5 := by
      unfold tmpSize
      omega
    rw [covered_blocks_cons hpos (by decide), List.tail_cons]
    simp only [List.map_cons, List.map_nil, List.sum_cons, List.sum_nil, Nat.add_zero]
    constructor
    · rintro ⟨-, -, -, hrs, -⟩
      exact hrs
    · intro hrs
      refine ⟨?_, ?_, ?_, hrs, hsecond 128 le_rfl⟩ <;> unfold tmpSize <;> omega

theorem covered_two {name : String} (hname : name.length ≤ 100)
    (h : ∀ num, ∀ a ∈ l, (f num a).length ≤ 122)
    (h' : ∀ num, ∀ a ∈ l', (f' num a).length ≤ 122) :
    Covered tmpSize ([print (title name), print (lit "IPv6\n")] ++
      numbered l (fun num a => [print (f num a), writeLogMiddle 128]) ++
        print (lit "IPv4\n") :: numbered l' (fun num a => [print (f' num a), writeLogMiddle 128]))
    := by
  have hlong : ∀ num, ∀ a ∈ l, (f num a).length ≤ 1000 := fun num a ha =>
    (h num a ha).trans (by decide)
  refine (covered_two_iff hname hlong h').mpr fun t ht => ?_
  have := length_of_mem_records h t (List.mem_of_mem_tail ht)
  omega

end Records

theorem covered_cliFront (c : Clock) (start : LogStart) (s : FrontState) :
    Covered tmpSize (writeLogCliFront c start s) := by
  have hlabel : " packets) create: ".length = 18 := by decide
  have hlen : ∀ num addr hit curr, addr.length ≤ 39 → (cliRecord " packets) create: " num addr hit
      (getTime c start.tsc curr start.starttime)).length ≤ 122 := by
    intro num addr hit curr haddr
    have := length_cliRecord " packets) create: " num hit haddr
      (length_getTime c start.tsc curr start.starttime)
    omega
  exact covered_two (by decide) (fun num e _ => hlen num _ e.hit e.timestamp (length_inetNtop6 _))
    fun num e _ => hlen num _ e.hit e.timestamp ((length_inetNtop4 _).trans (by decide))

theorem covered_svr (gw4 : Ptr → InAddr) (gw6 : Ptr → In6Addr) (s : FrontState) :
    Covered tmpSize (writeLogSvr gw4 gw6 s) :=
  covered_two (by decide)
    (fun num e _ => (length_svrRecord length_inetNtop6 num e.1 e.2).trans (by decide))
    fun num e _ => (length_svrRecord (fun a => (length_inetNtop4 a).trans (by decide)) num e.1
      e.2).trans (by decide)

/-! ## Policies -/

def polLines {n k : ℕ} {D : Type} (line : Ptr → CText k) (s : PolSide n D) :
    List (Text × LbPol n) :=
  s.polHead.filterMap fun p => (s.pols p).map fun f => ((line p).val, f)

def polRecords {n k : ℕ} {D : Type} (line : Ptr → CText k) (s : PolSide n D) : List Text :=
  records (polLines line s) fun num e => polRecord num e.1 e.2.hitCount e.2.useCount

theorem length_polRecords {n k : ℕ} {D : Type} {line : Ptr → CText k} {s : PolSide n D} :
    ∀ num, ∀ e ∈ polLines line s,
      (polRecord num e.1 e.2.hitCount e.2.useCount).length ≤ 48 + k := by
  intro num e he
  obtain ⟨p, -, hp⟩ := List.mem_filterMap.mp he
  obtain ⟨f, -, rfl⟩ := Option.map_eq_some_iff.mp hp
  have hline : (line p).val.length < k := (line p).property
  have := length_polRecord num (line p).val f.hitCount f.useCount
  dsimp only
  omega

theorem covered_stat2_iff (line4 : Ptr → CText 64) (line6 : Ptr → CText 128) (s : FrontState) :
    Covered tmpSize (writeLogStat2 line4 line6 s) ↔
      ∀ t ∈ (polRecords line6 s.lb6).tail, t.length < 128 :=
  covered_two_iff (by decide) (fun num e he => (length_polRecords num e he).trans (by decide))
    fun num e he => (length_polRecords num e he).trans (by decide)

/-! ## Clients of the backend translator -/

def cliRecords {A : Type} (c : Clock) (ci : ClientInfo) (ntop : A → Text) (t : CiTable A) :
    List Text :=
  records (usedCis t) fun num e => cliRecord " packets) last access: " num (ntop e.cliIp) e.hit
    (getTime c ci.tsc e.timestamp ci.starttime)

/-- A part of the dump with the records `rs`. -/
def cliPart (name : String) (x : ℕ) (rs : List Text) : List (Op Char) :=
  print (lit "\n" ++ lit name ++ lit "\n") :: rs.flatMap fun r => block x [r]

theorem cliBack_eq {A : Type} (c : Clock) (ci : ClientInfo) (name : String) (addrstrlen : ℕ)
    (ntop : A → Text) (t : CiTable A) : cliBack c ci name addrstrlen ntop t =
      cliPart name (addrstrlen + 32) (cliRecords c ci ntop t) := by
  rw [cliBack, numbered_eq]
  rfl

/-- The length of a record of a client, in bounds that are good enough. -/
def CliSized (rs : List Text) : Prop := ∀ r ∈ rs, 50 < r.length ∧ r.length ≤ 118

theorem length_cliRecords {A : Type} {c : Clock} {ci : ClientInfo} {ntop : A → Text}
    {t : CiTable A} (h : ∀ a, (ntop a).length ≤ 39) : CliSized (cliRecords c ci ntop t) := by
  intro r hr
  obtain ⟨e, -, rfl⟩ := List.mem_map.mp hr
  obtain ⟨year, htime⟩ := getTime_year c ci.tsc e.1.timestamp ci.starttime
  have h1 : (lit ") ").length = 2 := (length_lit _).trans (by decide)
  have h2 : (lit " (").length = 2 := (length_lit _).trans (by decide)
  have h3 : (lit " packets) last access: ").length = 23 := (length_lit _).trans (by decide)
  have h4 : (lit "\n").length = 1 := (length_lit _).trans (by decide)
  have hyear := length_fmtD year
  have hnum := length_fmtD (BitVec.ofNat 32 e.2)
  have hhit := length_fmtU32 e.1.hit
  have haddr := h e.1.cliIp
  simp only [cliRecord, number, List.length_append, length_pad, htime, h1, h2, h3, h4]
  omega

section Parts

variable {name name' : String} {m x : ℕ} {rs rs' : List Text} {ops : List (Op Char)}

theorem length_heading (hname : name.length = 35) :
    (lit "\n" ++ lit name ++ lit "\n").length = 37 := by
  have hnl : (lit "\n").length = 1 := (length_lit _).trans (by decide)
  rw [List.length_append, List.length_append, length_lit name, hname, hnl]

theorem covered_cliPart (hname : name.length = 35) (hx : 0 < x) :
    Covered m (cliPart name x rs ++ ops) ↔ 37 < m ∧ ((rs = [] ∧ Covered (m - 37) ops) ∨
      (rs ≠ [] ∧ (∀ r ∈ rs.head?, r.length < m - 37) ∧ (∀ r ∈ rs.tail, r.length < x) ∧
        Covered x ops)) := by
  rw [cliPart, List.cons_append, covered_print, length_heading hname]
  refine and_congr_right fun hm => ?_
  cases rs with
  | nil => simp
  | cons r rs =>
    rw [covered_blocks_cons (by omega) hx]
    simp

/-- Within the margins of the dump there is no room for a client behind a heading. -/
theorem covered_cliPart_narrow (hname : name.length = 35) (hx : 0 < x)
    (hrs : CliSized rs) (hm : m ≤ 87) :
    Covered m (cliPart name x rs ++ ops) ↔ 37 < m ∧ rs = [] ∧ Covered (m - 37) ops := by
  rw [covered_cliPart hname hx]
  refine and_congr_right fun _ => or_iff_left ?_
  rintro ⟨hne, hhead, -⟩
  obtain ⟨r, rs, rfl⟩ := List.exists_cons_of_ne_nil hne
  have hlong := hrs r List.mem_cons_self
  have hshort : r.length < m - 37 := hhead r rfl
  omega

theorem covered_cliPart_wide (hname : name.length = 35) (hx : 0 < x)
    (hrs : CliSized rs) (hm : 1000 ≤ m) :
    Covered m (cliPart name x rs ++ ops) ↔ (rs = [] ∧ Covered (m - 37) ops) ∨
      (rs ≠ [] ∧ (∀ r ∈ rs.tail, r.length < x) ∧ Covered x ops) := by
  rw [covered_cliPart hname hx, and_iff_right (by omega)]
  refine or_congr_right (and_congr_right fun hne => and_iff_right fun r hr => ?_)
  have hshort := hrs r (List.mem_of_mem_head? hr)
  omega

theorem tail_short (hrs : CliSized rs) :
    (∀ r ∈ rs.tail, r.length < 48) ↔ rs.length ≤ 1 := by
  constructor
  · intro h
    by_contra hlen
    have hpos : 0 < rs.tail.length := by
      rw [List.length_tail]
      omega
    obtain ⟨r, hr⟩ := List.exists_mem_of_length_pos hpos
    have hlong := hrs r (List.mem_of_mem_tail hr)
    have hshort := h r hr
    omega
  · intro hlen r hr
    have hpos := List.length_pos_of_mem hr
    rw [List.length_tail] at hpos
    omega

section IPv4

variable (hname : name.length = 35) (hname' : name'.length = 35)
  (hrs : CliSized rs)
  (hrs' : CliSized rs')
include hname hname' hrs hrs'

theorem covered_cli4_narrow (hm : m ≤ 87) :
    Covered m (cliPart name 48 rs ++ cliPart name' 48 rs') ↔ 74 < m ∧ rs = [] ∧ rs' = [] := by
  rw [covered_cliPart_narrow hname (by decide) hrs hm, ← List.append_nil (cliPart name' 48 rs'),
    covered_cliPart_narrow hname' (by decide) hrs' (by omega)]
  constructor
  · rintro ⟨-, hnil, hm', hnil', -⟩
    exact ⟨by omega, hnil, hnil'⟩
  · rintro ⟨hm', hnil, hnil'⟩
    exact ⟨by omega, hnil, by omega, hnil', trivial⟩

theorem covered_cli4_wide (hm : 2000 ≤ m) :
    Covered m (cliPart name 48 rs ++ cliPart name' 48 rs') ↔ rs.length + rs'.length ≤ 1 := by
  have hlast : Covered (m - 37) (cliPart name' 48 rs') ↔ rs'.length ≤ 1 := by
    rw [← List.append_nil (cliPart name' 48 rs'),
      covered_cliPart_wide hname' (by decide) hrs' (by omega), tail_short hrs']
    simp only [Covered, and_true, ne_eq, ← List.length_eq_zero_iff]
    omega
  have hbehind : Covered 48 (cliPart name' 48 rs') ↔ rs' = [] := by
    rw [← List.append_nil (cliPart name' 48 rs'),
      covered_cliPart_narrow hname' (by decide) hrs' (by decide)]
    simp [Covered]
  rw [covered_cliPart_wide hname (by decide) hrs (by omega), hlast, hbehind, tail_short hrs]
  simp only [ne_eq, ← List.length_eq_zero_iff]
  omega

end IPv4

end Parts

theorem cliRecords_eq_nil {A : Type} {c : Clock} {ci : ClientInfo} {ntop : A → Text}
    {t : CiTable A} : cliRecords c ci ntop t = [] ↔ usedCis t = [] := by
  rw [cliRecords, records, List.map_eq_nil_iff, List.zipIdx_eq_nil_iff]

theorem cliRecords_length {A : Type} {c : Clock} {ci : ClientInfo} {ntop : A → Text}
    {t : CiTable A} : (cliRecords c ci ntop t).length = (usedCis t).length := by
  rw [cliRecords, records, List.length_map, List.length_zipIdx]

theorem writeLogCliBack_eq (c : Clock) (ci : ClientInfo) :
    writeLogCliBack c ci = print (title "CLIENT INFO:") ::
      (cliPart "IPv6 client info (client to server)" 78 (cliRecords c ci inetNtop6 ci.up6) ++
        (cliPart "IPv6 client info (server to client)" 78 (cliRecords c ci inetNtop6 ci.dwn6) ++
          (cliPart "IPv4 client info (client to server)" 48 (cliRecords c ci inetNtop4 ci.up4) ++
            cliPart "IPv4 client info (server to client)" 48
              (cliRecords c ci inetNtop4 ci.dwn4)))) := by
  rw [writeLogCliBack, cliBack_eq, cliBack_eq, cliBack_eq, cliBack_eq, List.append_assoc,
    List.append_assoc]
  rfl

/-- The margins cover the dump of the clients if there is at most one and that for IPv4, or if there
are IPv6 clients in one direction only, all but the first with short records. -/
theorem covered_cliBack_iff (c : Clock) (ci : ClientInfo) :
    Covered tmpSize (writeLogCliBack c ci) ↔ usedCis ci.up6 = [] ∧
      ((usedCis ci.dwn6 = [] ∧ (usedCis ci.up4).length + (usedCis ci.dwn4).length ≤ 1) ∨
        (usedCis ci.dwn6 ≠ [] ∧ (∀ r ∈ (cliRecords c ci inetNtop6 ci.dwn6).tail, r.length < 78) ∧
          usedCis ci.up4 = [] ∧ usedCis ci.dwn4 = [])) := by
  have h4 : ∀ a, (inetNtop4 a).length ≤ 39 := fun a => (length_inetNtop4 a).trans (by decide)
  have hup6 : CliSized (cliRecords c ci inetNtop6 ci.up6) := length_cliRecords length_inetNtop6
  have hdwn6 : CliSized (cliRecords c ci inetNtop6 ci.dwn6) := length_cliRecords length_inetNtop6
  have hup4 : CliSized (cliRecords c ci inetNtop4 ci.up4) := length_cliRecords h4
  have hdwn4 : CliSized (cliRecords c ci inetNtop4 ci.dwn4) := length_cliRecords h4
  have htitle : (title "CLIENT INFO:").length = 31 := (length_title _).trans (by decide)
  have hroom : 3000 ≤ tmpSize - 31 := by decide
  have hlt : 31 < tmpSize := by decide
  -- behind a client of the first table there is no room for the three headings
  have hfirst : ¬ Covered 78 (cliPart "IPv6 client info (server to client)" 78
      (cliRecords c ci inetNtop6 ci.dwn6) ++
        (cliPart "IPv4 client info (client to server)" 48 (cliRecords c ci inetNtop4 ci.up4) ++
          cliPart "IPv4 client info (server to client)" 48
            (cliRecords c ci inetNtop4 ci.dwn4))) := by
    rw [covered_cliPart_narrow (by decide) (by decide) hdwn6 (by decide),
      covered_cli4_narrow (by decide) (by decide) hup4 hdwn4 (by decide)]
    rintro ⟨-, -, h, -⟩
    exact absurd h (by decide)
  rw [writeLogCliBack_eq, covered_print, htitle,
    covered_cliPart_wide (by decide) (by decide) hup6 (by omega),
    covered_cliPart_wide (by decide) (by decide) hdwn6 (by omega),
    covered_cli4_wide (by decide) (by decide) hup4 hdwn4 (by omega),
    covered_cli4_narrow (by decide) (by decide) hup4 hdwn4 (by decide), cliRecords_length,
    cliRecords_length]
  simp only [hlt, hfirst, cliRecords_eq_nil, ne_eq, true_and, and_false, or_false,
    show 74 < 78 by decide]

/-! ## Statistics -/

theorem written_stats (stat : ℕ → BitVec 64) (l : List (String × ℕ)) :
    ((l.flatMap fun e => convertStat e.1 (stat e.2) ++ [writeLogMiddle 10]).map Op.written).sum ≤
      (l.map fun e => 20 + e.1.length).sum := by
  induction l with
  | nil => exact le_rfl
  | cons e l ih =>
    have hnum : (pad 10 ' ' (fmtU (stat e.2).toNat)).length ≤ 20 := by
      have hlt : (stat e.2).toNat < 10 ^ 20 := (stat e.2).isLt.trans_le (by decide)
      rw [length_pad]
      exact max_le (by decide) (length_fmtU (by decide) hlt)
    rw [List.flatMap_cons, List.map_append, List.sum_append, List.map_cons, List.sum_cons]
    refine Nat.add_le_add ?_ ih
    simp only [convertStat, print, writeLogMiddle, List.cons_append, List.nil_append, List.map_cons,
      List.map_nil, Op.written, List.sum_cons, List.sum_nil, length_lit]
    omega

theorem inside_stat {names : List String} (stat : ℕ → BitVec 64)
    (h : (names.zipIdx.map fun e => 20 + e.1.length).sum < 30000) :
    Inside tmpSize (writeLogStat names stat) := by
  have hwritten := written_stats stat names.zipIdx
  have htitle : (title "STATISTICS:").length = 30 := (length_title _).trans (by decide)
  refine inside_of_written ?_
  rw [writeLogStat, List.map_cons, List.sum_cons]
  change (title "STATISTICS:").length + _ < tmpSize
  unfold tmpSize
  omega

theorem not_covered_stat (name name' : String) (names : List String) (stat : ℕ → BitVec 64) :
    ¬ Covered tmpSize (writeLogStat (name :: name' :: names) stat) := by
  rintro ⟨-, -, -, hnum, -⟩
  rw [length_pad] at hnum
  omega

/-! ## All writers -/

/-- The writer stays inside the buffer. -/
def Dump.Inside (c : Clock) (d : Dump) : Prop := Flush.Inside tmpSize (d.ops c)

def Dump.Covered (c : Clock) (d : Dump) : Prop := Flush.Covered tmpSize (d.ops c)

/-- The contents whose records are covered. -/
def Dump.Short (c : Clock) : Dump → Prop
  | statFront _ | statBack _ => False
  | cliBack ci => usedCis ci.up6 = [] ∧
      ((usedCis ci.dwn6 = [] ∧ (usedCis ci.up4).length + (usedCis ci.dwn4).length ≤ 1) ∨
        (usedCis ci.dwn6 ≠ [] ∧ (∀ r ∈ (cliRecords c ci inetNtop6 ci.dwn6).tail, r.length < 78) ∧
          usedCis ci.up4 = [] ∧ usedCis ci.dwn4 = []))
  | stat2 _ line6 s => ∀ t ∈ (polRecords line6 s.lb6).tail, t.length < 128
  | _ => True

/-- The contents that leave room: no stretch of the texts between two flushes outgrows the
buffer. -/
def Dump.Roomy (c : Clock) : Dump → Prop
  | cliBack ci => Room tmpSize (writeLogCliBack c ci)
  | stat2 line4 line6 s => Room tmpSize (writeLogStat2 line4 line6 s)
  | _ => True

section Margins

variable {x : ℕ}

theorem test_mem_print {t : Text} {ops : List (Op Char)} :
    Op.test x ∈ print t :: ops ↔ Op.test x ∈ ops := by
  simp [print]

theorem test_mem_numbered {β : Type} {l : List β} {f : BitVec 32 → β → Text} {y : ℕ}
    (h : Op.test y ∈ numbered l fun num a => [print (f num a), writeLogMiddle x]) : y = x := by
  rw [numbered_eq] at h
  exact eq_of_test_mem_blocks h

theorem test_mem_two {β γ : Type} {l : List β} {l' : List γ} {f : BitVec 32 → β → Text}
    {f' : BitVec 32 → γ → Text} {t t' t'' : Text} {y : ℕ}
    (h : Op.test y ∈ [print t, print t'] ++
      numbered l (fun num a => [print (f num a), writeLogMiddle x]) ++
        print t'' :: numbered l' fun num a => [print (f' num a), writeLogMiddle x]) : y = x := by
  rcases List.mem_append.mp h with h | h
  · exact test_mem_numbered (test_mem_print.mp (test_mem_print.mp h))
  · exact test_mem_numbered (test_mem_print.mp h)

theorem test_mem_stat {names : List String} {stat : ℕ → BitVec 64}
    (h : Op.test x ∈ writeLogStat names stat) : x = 10 := by
  obtain ⟨e, -, he⟩ := List.mem_flatMap.mp (test_mem_print.mp h)
  simpa [convertStat, print, writeLogMiddle] using he

theorem test_mem_cliBack {A : Type} {c : Clock} {ci : ClientInfo} {name : String} {y : ℕ}
    {ntop : A → Text} {t : CiTable A} (h : Op.test x ∈ cliBack c ci name y ntop t)
    (hy : y ≤ 46) : x ≤ 78 := by
  have := test_mem_numbered (test_mem_print.mp h)
  omega

theorem margin_le {c : Clock} {d : Dump} (h : Op.test x ∈ d.ops c) : x ≤ tmpSize := by
  unfold tmpSize
  cases d with
  | statFront stat | statBack stat =>
    have := test_mem_stat h
    omega
  | mlog start r =>
    obtain ⟨e, -, he⟩ := List.mem_flatMap.mp (test_mem_print.mp h)
    have : x = 256 := by simpa [print, writeLogMiddle] using he
    omega
  | evtlog start r =>
    obtain ⟨e, -, he⟩ := List.mem_flatMap.mp (test_mem_print.mp h)
    have : x = 296 := by simpa [print, writeLogMiddle, elogDataLen] using he
    omega
  | cliFront start s =>
    have := test_mem_two h
    omega
  | cliBack ci =>
    have h := test_mem_print.mp h
    rw [List.mem_append, List.mem_append, List.mem_append] at h
    rcases h with ((h | h) | h) | h
    · have := test_mem_cliBack h (by decide)
      omega
    · have := test_mem_cliBack h (by decide)
      omega
    · have := test_mem_cliBack h (by decide)
      omega
    · have := test_mem_cliBack h (by decide)
      omega
  | stat2 line4 line6 s =>
    have := test_mem_two h
    omega
  | svr gw4 gw6 s =>
    have := test_mem_two h
    omega

end Margins

/-- **Margins that cover the records keep a writer inside the buffer.** -/
theorem Dump.Covered.inside {c : Clock} {d : Dump} (h : d.Covered c) : d.Inside c :=
  inside_of_covered h fun _ => margin_le

theorem dump_covered_iff (c : Clock) (d : Dump) : d.Covered c ↔ d.Short c := by
  cases d with
  | statFront stat => exact iff_of_false (not_covered_stat _ _ _ stat) id
  | statBack stat => exact iff_of_false (not_covered_stat _ _ _ stat) id
  | mlog start r => exact iff_of_true (covered_mlog c start r) trivial
  | evtlog start r => exact iff_of_true (covered_evtlog c start r) trivial
  | cliFront start s => exact iff_of_true (covered_cliFront c start s) trivial
  | cliBack ci => exact covered_cliBack_iff c ci
  | stat2 line4 line6 s => exact covered_stat2_iff line4 line6 s
  | svr gw4 gw6 s => exact iff_of_true (covered_svr gw4 gw6 s) trivial

/-- **A writer stays inside the buffer, with margins that cover its records, exactly if the contents
are short. It stays inside it exactly if they leave room: always, but for the clients of the backend
translator and for policies.** -/
theorem dump_inside_iff (c : Clock) (d : Dump) :
    (d.Inside c ∧ d.Covered c ↔ d.Short c) ∧ (d.Inside c ↔ d.Roomy c) := by
  refine ⟨?_, ?_⟩
  · rw [and_iff_right_of_imp Dump.Covered.inside]
    exact dump_covered_iff c d
  · cases d with
    | statFront stat => exact iff_of_true (inside_stat stat (by decide)) trivial
    | statBack stat => exact iff_of_true (inside_stat stat (by decide)) trivial
    | mlog start r =>
      exact iff_of_true (Dump.Covered.inside (d := .mlog start r) (covered_mlog c start r)) trivial
    | evtlog start r =>
      exact iff_of_true (Dump.Covered.inside (d := .evtlog start r) (covered_evtlog c start r))
        trivial
    | cliFront start s =>
      exact iff_of_true (Dump.Covered.inside (d := .cliFront start s) (covered_cliFront c start s))
        trivial
    | cliBack ci => exact inside_iff
    | stat2 line4 line6 s => exact inside_iff
    | svr gw4 gw6 s =>
      exact iff_of_true (Dump.Covered.inside (d := .svr gw4 gw6 s) (covered_svr gw4 gw6 s)) trivial

/-- No text is lost: what has been written out, and what the last `fwrite` takes, is all the text of
the dump. -/
theorem dump_output {c : Clock} {d : Dump} {b : Flush.Buf Char}
    (h : run tmpSize (d.ops c) ⟨[], []⟩ = some b) : b.out ++ b.pending = texts (d.ops c) :=
  run_texts h

end Sasat
