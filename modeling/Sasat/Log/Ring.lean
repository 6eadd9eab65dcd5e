import Sasat.Log.Overrun
import Mathlib.Data.List.DropRight

/-!
# The ring logs in order

* `searchLoop`, `writeLoop`, `dumpSlots`: the two loops of `write_log_mlog` and `write_log_evtlog`
  over the copied slots, by index; a slot outside the copy faults.
* `dumpSlots_eq`: they read the entries of the ring from the oldest one on.
* `Logged`: a ring that a sequence of entries has been logged to; **`Logged.push`**.
* **`Logged.dump`**: the dump is the last entries, in order.
* `mlogHistory`, `evtHistory`: what calls of `mlog` log, and of `evtlog` with the trace switched on
  and off.
* **`rings_in_order`**: `write_log_mlog` and `write_log_evtlog` after any calls.
-/

namespace Sasat

open Flush

/-! ## The loops -/

section

variable {N : ℕ} {α : Type}

/-- Read slot `p` of the copy. -/
def readSlot (data : Fin N → LogEntry α) (p : ℕ) : M (LogEntry α) :=
  if h : p < N then .ok (data ⟨p, h⟩) else .error (.read p)

/-- The slot after slot `p`, around the end. -/
def nextSlot (N p : ℕ) : ℕ := if p + 1 < N then p + 1 else 0

/-- The search for the newest entry from slot `p` on, with `k` slots ahead: the slot after it, or
the end of the copy. -/
def searchLoop (data : Fin N → LogEntry α) (seqno : BitVec 32) : ℕ → ℕ → M ℕ
  | 0, p => .ok p
  | k + 1, p => do
    let e ← readSlot data p
    if e.seqno = seqno then .ok (nextSlot N p) else searchLoop data seqno k (p + 1)

/-- The loop that writes, from slot `p` on with `k` slots ahead: the entries that it writes. -/
def writeLoop (data : Fin N → LogEntry α) : ℕ → ℕ → M (List (LogEntry α))
  | 0, _ => .ok []
  | k + 1, p => do
    let e ← readSlot data p
    let es ← writeLoop data k (nextSlot N p)
    .ok (if e.time ≠ 0 then e :: es else es)

/-- The two loops, over a copy of the ring. -/
def dumpSlots (r : Ring N α) : M (List (LogEntry α)) := do
  let p ← searchLoop r.data r.seqno N 0
  writeLoop r.data N p

theorem readSlot_ok (data : Fin N → LogEntry α) {p : ℕ} (h : p < N) :
    readSlot data p = .ok (data ⟨p, h⟩) := dif_pos h

theorem searchLoop_found (data : Fin N → LogEntry α) (seqno : BitVec 32) {m : ℕ} (hm : m < N)
    (heq : (data ⟨m, hm⟩).seqno = seqno) : ∀ (k p : ℕ), p + k = N → p ≤ m →
      (∀ i, ∀ h : i < N, p ≤ i → i < m → (data ⟨i, h⟩).seqno ≠ seqno) →
      searchLoop data seqno k p = .ok (nextSlot N m)
  | 0, p, hk, hp, _ => absurd hk (by omega)
  | k + 1, p, hk, hp, hne => by
    rw [searchLoop, readSlot_ok data (by omega)]
    change (if _ then _ else _) = _
    rcases Nat.eq_or_lt_of_le hp with rfl | hlt
    · exact if_pos heq
    · rw [if_neg (hne p (by omega) le_rfl hlt)]
      exact searchLoop_found data seqno hm heq k (p + 1) (by omega) (by omega)
        fun i h hi => hne i h (by omega)

theorem rotate_nextSlot (l : List α) {p : ℕ} (hp : p < l.length) :
    l.rotate (nextSlot l.length p) = l.rotate (p + 1) := by
  unfold nextSlot
  split_ifs with h
  · rfl
  · rw [show p + 1 = l.length by omega, List.rotate_length, List.rotate_zero]

theorem nextSlot_lt {p : ℕ} (hp : p < N) : nextSlot N p < N := by
  unfold nextSlot
  split_ifs <;> omega

theorem writeLoop_eq (data : Fin N → LogEntry α) : ∀ (k p : ℕ), k ≤ N → p < N →
    writeLoop data k p =
      .ok ((((List.ofFn data).rotate p).take k).filter fun e => e.time ≠ 0)
  | 0, _, _, _ => rfl
  | k + 1, p, hk, hp => by
    have hlen : ((List.ofFn data).rotate p).length = N := by simp
    obtain ⟨e, t, het⟩ : ∃ e t, (List.ofFn data).rotate p = e :: t :=
      List.exists_cons_of_length_pos (by omega)
    have hread : readSlot data p = .ok e := by
      have h0 := congrArg (fun l => l[0]?) het
      rw [List.getElem?_rotate (by simp; omega)] at h0
      simp only [List.length_ofFn, Nat.zero_add, Nat.mod_eq_of_lt hp, List.getElem?_ofFn,
        dif_pos hp, List.getElem?_cons_zero, Option.some.injEq] at h0
      rw [readSlot_ok data hp, h0]
    have hnext : (List.ofFn data).rotate (nextSlot N p) = t ++ [e] := by
      have h := rotate_nextSlot (List.ofFn data) (p := p) (by simpa using hp)
      rw [List.length_ofFn] at h
      rw [h, ← List.rotate_rotate, het, List.rotate_cons_succ, List.rotate_zero]
    have ht : k ≤ t.length := by
      rw [het, List.length_cons] at hlen
      omega
    rw [writeLoop, hread, writeLoop_eq data k _ (by omega) (nextSlot_lt hp), hnext, het,
      List.take_append_of_le_length ht, List.take_succ_cons, List.filter_cons]
    change Except.ok _ = _
    congr 1
    by_cases h0 : e.time = 0 <;> simp [h0]

/-- **The dump never leaves the copy**, and it reads the entries from the oldest one on. -/
theorem dumpSlots_eq (r : Ring N α) :
    dumpSlots r = .ok (r.entries.filter fun e => e.time ≠ 0) := by
  have hlt := r.newest_lt
  have hfind := (@List.findIdx_eq _ (fun e => decide (e.seqno = r.seqno)) (List.ofFn r.data)
    r.newest (by simpa using hlt)).mp rfl
  simp only [List.getElem_ofFn, decide_eq_true_eq, decide_eq_false_iff_not] at hfind
  have hsearch := searchLoop_found r.data r.seqno hlt hfind.1 N 0 (Nat.zero_add N) (Nat.zero_le _)
    fun i h _ hi => hfind.2 i hi
  have hwrite := writeLoop_eq r.data N (nextSlot N r.newest) le_rfl (nextSlot_lt hlt)
  have hrot := rotate_nextSlot (List.ofFn r.data) (p := r.newest) (by simpa using hlt)
  rw [List.length_ofFn] at hrot
  rw [dumpSlots, hsearch]
  change writeLoop r.data N (nextSlot N r.newest) = _
  rw [hwrite, hrot, List.take_of_length_le (by simp)]
  rfl

/-! ## What is in the ring -/

/-- The entries `l` have been logged to the ring, one after the other: it holds the last `N` of
them, and where it holds none it is as it was at the start. -/
structure Logged (zero : α) (r : Ring N α) (l : List (LogEntry α)) : Prop where
  pos : (r.pos : ℕ) = l.length % N
  seqno : r.seqno = BitVec.ofNat 32 l.length
  num : ∀ {j e}, l[j]? = some e → e.seqno = BitVec.ofNat 32 (j + 1)
  kept : ∀ {i : Fin N} {j}, j < l.length → l.length ≤ j + N → j % N = i → l[j]? = some (r.data i)
  unused : ∀ {i : Fin N}, l.length ≤ i → r.data i = ⟨0, 0, zero⟩

theorem eq_of_mod_eq {i j : ℕ} (hij : i ≤ j) (hlt : j < i + N) (h : i % N = j % N) : i = j := by
  have h0 := Nat.sub_mod_eq_zero_of_mod_eq h.symm
  rw [Nat.mod_eq_of_lt (by omega)] at h0
  omega

variable {zero : α} {r : Ring N α} {l : List (LogEntry α)}

theorem logged_init [NeZero N] (zero : α) : Logged zero (Ring.init N zero) [] where
  pos := by simp [Ring.init]
  seqno := rfl
  num h := by cases h
  kept h := absurd h (Nat.not_lt_zero _)
  unused _ := rfl

/-- **Logging an entry.** It takes the place of the oldest one when the ring is full. -/
theorem Logged.push [NeZero N] (h : Logged zero r l) (time : BitVec 64) (x : α) :
    Logged zero (r.push time x) (l ++ [⟨r.seqno + 1, time, x⟩]) where
  pos := by
    have hp := r.pos.isLt
    rw [List.length_append, List.length_singleton, Nat.add_mod, ← h.pos]
    unfold Ring.push
    dsimp only
    split_ifs with hlt
    · have h1 : 1 % N = 1 := Nat.mod_eq_of_lt (by omega)
      rw [h1, Nat.mod_eq_of_lt hlt]
    · have hN : (r.pos : ℕ) + 1 = N := by omega
      rw [Nat.add_mod_mod, hN, Nat.mod_self]
      rfl
  seqno := by
    rw [List.length_append, List.length_singleton, BitVec.ofNat_add, ← h.seqno]
    rfl
  num {j e} hj := by
    rw [List.getElem?_append] at hj
    split_ifs at hj with hlt
    · exact h.num hj
    · rw [List.getElem?_singleton] at hj
      split_ifs at hj with h0
      cases hj
      rw [h.seqno, show j = l.length by omega, BitVec.ofNat_add]
      rfl
  kept {i j} hj hle hmod := by
    rw [List.length_append, List.length_singleton] at hj hle
    by_cases hi : i = r.pos
    · subst hi
      obtain rfl := eq_of_mod_eq (show j ≤ l.length by omega) (by omega) (hmod.trans h.pos)
      have hdata : (r.push time x).data r.pos = ⟨r.seqno + 1, time, x⟩ :=
        Function.update_self _ _ _
      rw [hdata, List.getElem?_append_right le_rfl, Nat.sub_self]
      rfl
    · have hne : j ≠ l.length := by
        rintro rfl
        exact hi (Fin.ext (hmod.symm.trans h.pos.symm))
      have hdata : (r.push time x).data i = r.data i := Function.update_of_ne hi _ _
      rw [hdata, List.getElem?_append_left (by omega)]
      exact h.kept (by omega) (by omega) hmod
  unused {i} hi := by
    rw [List.length_append, List.length_singleton] at hi
    have hne : i ≠ r.pos := by
      rintro rfl
      have := h.pos
      rw [Nat.mod_eq_of_lt (by omega)] at this
      omega
    have hdata : (r.push time x).data i = r.data i := Function.update_of_ne hne _ _
    rw [hdata]
    exact h.unused (by omega)

/-- **The search finds the entry that was logged last**: no other slot has its number, which may
have wrapped. -/
theorem Logged.newest (h : Logged zero r l) (hN : N ≤ 2 ^ 32) (hl : l ≠ []) :
    r.newest = (l.length - 1) % N := by
  have hpos : 0 < l.length := List.length_pos_iff.mpr hl
  have hN0 : 0 < N := (Nat.zero_le _).trans_lt r.pos.isLt
  have hlt := Nat.mod_lt (l.length - 1) hN0
  have hnum : ∀ {i : Fin N} {j}, j < l.length → l.length ≤ j + N → j % N = i →
      (r.data i).seqno = BitVec.ofNat 32 (j + 1) := fun hj hle hmod => h.num (h.kept hj hle hmod)
  refine (@List.findIdx_eq _ (fun e => decide (e.seqno = r.seqno)) (List.ofFn r.data)
    ((l.length - 1) % N) (by simpa using hlt)).mpr ⟨?_, fun i hi => ?_⟩
  · rw [List.getElem_ofFn, decide_eq_true_eq, hnum (show l.length - 1 < l.length by omega)
      (by omega) rfl, h.seqno, Nat.sub_add_cancel hpos]
  · rw [List.getElem_ofFn, decide_eq_false_iff_not, h.seqno]
    -- slot `i` holds the entry that was logged `d` entries before the last one
    obtain ⟨d, hd⟩ : ∃ d, d = (l.length - 1) % N - i := ⟨_, rfl⟩
    have hle := Nat.mod_le (l.length - 1) N
    have hmod : (l.length - 1 - d) % N = i := by
      have hdiv := Nat.div_add_mod (l.length - 1) N
      rw [show l.length - 1 - d = i + N * ((l.length - 1) / N) by omega, Nat.add_mul_mod_self_left,
        Nat.mod_eq_of_lt (by omega)]
    rw [hnum (show l.length - 1 - d < l.length by omega) (by omega) hmod]
    intro heq
    have hval := congrArg BitVec.toNat heq
    rw [BitVec.toNat_ofNat, BitVec.toNat_ofNat] at hval
    have := @eq_of_mod_eq (2 ^ 32) (l.length - 1 - d + 1) l.length (by omega) (by omega) hval
    omega

theorem Logged.entries_full (h : Logged zero r l) (hN : N ≤ 2 ^ 32) (hle : N ≤ l.length) :
    r.entries = l.rtake N := by
  have hN0 : 0 < N := (Nat.zero_le _).trans_lt r.pos.isLt
  have hl : l ≠ [] := List.length_pos_iff.mp (by omega)
  apply List.ext_getElem?
  intro k
  rw [List.rtake, List.getElem?_drop, Ring.entries]
  by_cases hk : k < N
  · have hmod : (k + (r.newest + 1)) % N = (l.length - N + k) % N := by
      rw [h.newest hN hl, show k + ((l.length - 1) % N + 1) = k + 1 + (l.length - 1) % N by omega,
        Nat.add_mod_mod, show k + 1 + (l.length - 1) = l.length - N + k + N by omega,
        Nat.add_mod_right]
    rw [List.getElem?_rotate (by simpa using hk), List.length_ofFn, hmod, List.getElem?_ofFn,
      dif_pos (Nat.mod_lt _ hN0)]
    exact (h.kept (by omega) (by omega) rfl).symm
  · rw [List.getElem?_eq_none (by simp; omega), List.getElem?_eq_none (by omega)]

theorem Logged.slots (h : Logged zero r l) (hlt : l.length < N) :
    List.ofFn r.data = l ++ (List.ofFn r.data).drop l.length := by
  conv_lhs => rw [← List.take_append_drop l.length (List.ofFn r.data)]
  congr 1
  apply List.ext_getElem?
  intro k
  by_cases hk : k < l.length
  · rw [List.getElem?_take_of_lt hk, List.getElem?_ofFn, dif_pos (by omega)]
    exact (h.kept hk (by omega) (Nat.mod_eq_of_lt (by omega))).symm
  · rw [List.getElem?_eq_none (by simp; omega), List.getElem?_eq_none (by omega)]

theorem Logged.unused_time (h : Logged zero r l) {e : LogEntry α}
    (he : e ∈ (List.ofFn r.data).drop l.length) : e.time = 0 := by
  obtain ⟨k, hk⟩ := List.mem_iff_getElem?.mp he
  rw [List.getElem?_drop, List.getElem?_ofFn] at hk
  split_ifs at hk with hlt
  obtain rfl := Option.some.inj hk
  exact congrArg LogEntry.time (h.unused (Nat.le_add_right _ _))

/-- **The dump is the last `N` entries that have been logged**, in their order. -/
theorem Logged.dump (h : Logged zero r l) (hN : N ≤ 2 ^ 32) (ht : ∀ e ∈ l, e.time ≠ 0) :
    (r.entries.filter fun e => e.time ≠ 0) = l.rtake N := by
  rcases Nat.lt_or_ge l.length N with hlt | hle
  · have hl : (l.filter fun e => e.time ≠ 0) = l :=
      List.filter_eq_self.mpr fun e he => decide_eq_true (ht e he)
    have hrest : (((List.ofFn r.data).drop l.length).filter fun e => e.time ≠ 0) = [] :=
      List.filter_eq_nil_iff.mpr fun e he => by simp [h.unused_time he]
    rw [List.rtake, Nat.sub_eq_zero_of_le hlt.le, List.drop_zero]
    by_cases hnil : l = []
    · subst hnil
      refine List.filter_eq_nil_iff.mpr fun e he => ?_
      have := h.unused_time (e := e) (List.mem_rotate.mp he)
      simp [this]
    · have hnew : r.newest + 1 = l.length := by
        have := List.length_pos_iff.mpr hnil
        rw [h.newest hN hnil, Nat.mod_eq_of_lt (by omega)]
        omega
      rw [Ring.entries, hnew, h.slots hlt, List.rotate_append_length_eq, List.filter_append, hrest,
        hl, List.nil_append]
  · rw [h.entries_full hN hle]
    exact List.filter_eq_self.mpr fun e he => decide_eq_true (ht e (List.mem_of_mem_drop he))

end

/-! ## The message log -/

def mlogZero : CText mlogDataLen := snprintf 111 []

/-- The ring of `mlog` after its calls, each with its time and its text. -/
def mlogRun (calls : List (BitVec 64 × Text)) : MlogRing :=
  calls.foldl (fun r c => mlog r c.1 c.2) (Ring.init 256 mlogZero)

/-- The messages of these calls. -/
def mlogHistory (calls : List (BitVec 64 × Text)) : List (LogEntry (CText mlogDataLen)) :=
  (calls.zipIdx 1).map fun c => ⟨BitVec.ofNat 32 c.2, c.1.1, snprintf 111 c.1.2⟩

theorem mlogHistory_length (calls : List (BitVec 64 × Text)) :
    (mlogHistory calls).length = calls.length := by simp [mlogHistory]

theorem logged_mlog (calls : List (BitVec 64 × Text)) :
    Logged mlogZero (mlogRun calls) (mlogHistory calls) := by
  induction calls using List.reverseRecOn with
  | nil => exact logged_init _
  | append_singleton calls c ih =>
    have hrun : mlogRun (calls ++ [c]) = (mlogRun calls).push c.1 (snprintf 111 c.2) := by
      rw [mlogRun, List.foldl_concat]
      rfl
    have hhist : mlogHistory (calls ++ [c]) =
        mlogHistory calls ++ [⟨(mlogRun calls).seqno + 1, c.1, snprintf 111 c.2⟩] := by
      rw [ih.seqno, mlogHistory_length, mlogHistory, List.zipIdx_append, List.map_append,
        List.zipIdx_singleton, List.map_singleton, Nat.add_comm 1, BitVec.ofNat_add]
      rfl
    rw [hrun, hhist]
    exact ih.push c.1 _

theorem mlogHistory_time {calls : List (BitVec 64 × Text)} (ht : ∀ c ∈ calls, c.1 ≠ 0) :
    ∀ e ∈ mlogHistory calls, e.time ≠ 0 := by
  intro e he
  obtain ⟨c, hc, rfl⟩ := List.mem_map.mp he
  exact ht c.1 (List.fst_mem_of_mem_zipIdx hc)

/-! ## The event log -/

/-- `evtlog` with the parameters of a call and the time, and `trace_control`. -/
inductive EvtOp
  | event (time : BitVec 64) (c : EvtCall) (data : Option (Fin elogDataLen → Byte))
  | traceControl (ctl : Byte)

/-- `tr_on` and the ring. -/
structure EvtLog where
  trOn : Byte
  ring : EvtRing

def evtZero : EvtData := ⟨.len (fun _ => Char.ofNat 0) 0, fun _ => 0⟩

/-- After `evtlog_init`. -/
def EvtLog.init : EvtLog := ⟨1, Ring.init 2048 evtZero⟩

def EvtLog.step (s : EvtLog) : EvtOp → EvtLog
  | .event time c data => if s.trOn ≠ 0 then { s with ring := evtlog s.ring time c data } else s
  | .traceControl ctl => { s with trOn := ctl }

/-- What an event leaves in a list of events: without data it keeps what the entry before it in its
slot had behind the four blanks. -/
def evtAppend (l : List (LogEntry EvtData)) (time : BitVec 64) (c : EvtCall)
    (data : Option (Fin elogDataLen → Byte)) : List (LogEntry EvtData) :=
  let prior := if 2048 ≤ l.length then ((l[l.length - 2048]?).map LogEntry.data).getD evtZero
    else evtZero
  l ++ [⟨BitVec.ofNat 32 (l.length + 1), time,
    ⟨c, data.getD fun i => if (i : ℕ) < 4 then 0x20 else prior.eData i⟩⟩]

/-- The trace flag and the events that are logged while it is on. -/
def evtHistory (ops : List EvtOp) : Byte × List (LogEntry EvtData) :=
  ops.foldl (fun h op => match op with
    | .event time c data => if h.1 ≠ 0 then (h.1, evtAppend h.2 time c data) else h
    | .traceControl ctl => (ctl, h.2)) (1, [])

theorem Logged.prior {r : EvtRing} {l : List (LogEntry EvtData)} (h : Logged evtZero r l) :
    (r.data r.pos).data = if 2048 ≤ l.length then
      ((l[l.length - 2048]?).map LogEntry.data).getD evtZero else evtZero := by
  have hpos := h.pos
  split_ifs with hfull
  · rw [h.kept (i := r.pos) (j := l.length - 2048) (by omega) (by omega) (by omega)]
    rfl
  · rw [h.unused (i := r.pos) (by omega)]

theorem Logged.evtlog {r : EvtRing} {l : List (LogEntry EvtData)} (h : Logged evtZero r l)
    (time : BitVec 64) (c : EvtCall) (data : Option (Fin elogDataLen → Byte)) :
    Logged evtZero (evtlog r time c data) (evtAppend l time c data) := by
  have hnum : BitVec.ofNat 32 (l.length + 1) = r.seqno + 1 := by
    rw [h.seqno, BitVec.ofNat_add]
    rfl
  rw [evtAppend, ← h.prior, hnum]
  exact h.push time _

theorem logged_evtlog (ops : List EvtOp) :
    (ops.foldl EvtLog.step .init).trOn = (evtHistory ops).1 ∧
      Logged evtZero (ops.foldl EvtLog.step .init).ring (evtHistory ops).2 := by
  induction ops using List.reverseRecOn with
  | nil => exact ⟨rfl, logged_init _⟩
  | append_singleton ops op ih =>
    obtain ⟨hon, hlog⟩ := ih
    rw [evtHistory, List.foldl_concat, List.foldl_concat, ← evtHistory]
    cases op with
    | event time c data =>
      rw [EvtLog.step, hon]
      dsimp only
      split_ifs with h
      · exact ⟨rfl, hlog.evtlog time c data⟩
      · exact ⟨hon, hlog⟩
    | traceControl ctl => exact ⟨rfl, hlog⟩

theorem evtHistory_time {ops : List EvtOp} (ht : ∀ t c d, EvtOp.event t c d ∈ ops → t ≠ 0) :
    ∀ e ∈ (evtHistory ops).2, e.time ≠ 0 := by
  induction ops using List.reverseRecOn with
  | nil => intro e he; cases he
  | append_singleton ops op ih =>
    have ih := ih fun t c d hm => ht t c d (List.mem_append_left _ hm)
    rw [evtHistory, List.foldl_concat, ← evtHistory]
    cases op with
    | event time c data =>
      dsimp only
      split_ifs with h
      · intro e he
        rcases List.mem_append.mp he with he | he
        · exact ih e he
        · rw [List.mem_singleton.mp he]
          exact ht time c data (by simp)
      · exact ih
    | traceControl ctl => exact ih

/-! ## The dumps -/

/-- The dump `d` of a ring that `l` has been logged to: the loops stay inside the copy, the writes
inside the buffer, and the text is the heading and the records of the last `N` entries. -/
structure InOrder {N : ℕ} {α : Type} (r : Ring N α) (l : List (LogEntry α)) (ops : List (Op Char))
    (heading : Text) (record : LogEntry α → Text) : Prop where
  slots : dumpSlots r = .ok (l.rtake N)
  text : ∃ b, run tmpSize ops ⟨[], []⟩ = some b ∧
    b.out ++ b.pending = heading ++ (l.rtake N).flatMap record

theorem Logged.inOrder {N : ℕ} {α : Type} {zero : α} {r : Ring N α} {l : List (LogEntry α)}
    {ops : List (Op Char)} {heading : Text} {record : LogEntry α → Text} (h : Logged zero r l)
    (hN : N ≤ 2 ^ 32) (ht : ∀ e ∈ l, e.time ≠ 0) (hin : Inside tmpSize ops)
    (htext : texts ops = heading ++ (r.entries.filter fun e => e.time ≠ 0).flatMap record) :
    InOrder r l ops heading record where
  slots := by rw [dumpSlots_eq, h.dump hN ht]
  text := by
    obtain ⟨b, hb⟩ := hin
    refine ⟨b, hb, ?_⟩
    rw [run_texts hb, htext, h.dump hN ht]
    rfl

theorem texts_print (t : Text) (ops : List (Op Char)) :
    texts (print t :: ops) = t ++ texts ops := by
  rw [texts, List.flatMap_cons]
  change t.take t.length ++ _ = _
  rw [List.take_length]
  rfl

theorem texts_flatMap {β : Type} (l : List β) (f : β → List (Op Char)) :
    texts (l.flatMap f) = l.flatMap fun a => texts (f a) := List.flatMap_assoc

def evtlogText (c : Clock) (start : LogStart) (e : LogEntry EvtData) : Text :=
  evtlogRecord c start e ++
    (List.finRange (elogDataLen / 8)).flatMap fun x => evtlogLine e.data.eData x

theorem texts_writeLogMlog (c : Clock) (start : LogStart) (r : MlogRing) :
    texts (writeLogMlog c start r) = title "MLOG:" ++ c.ctime start.starttime ++
      (r.entries.filter fun e => e.time ≠ 0).flatMap (mlogRecord c start) := by
  rw [writeLogMlog, texts_print, texts_flatMap]
  refine congrArg _ (List.flatMap_congr fun e _ => ?_)
  rw [texts_print]
  exact List.append_nil _

theorem texts_writeLogEvtlog (c : Clock) (start : LogStart) (r : EvtRing) :
    texts (writeLogEvtlog c start r) = title "EVENTLOG:" ++ c.ctime start.starttime ++
      (r.entries.filter fun e => e.time ≠ 0).flatMap (evtlogText c start) := by
  have hlines : ∀ (p : Fin elogDataLen → Byte) (xs : List (Fin (elogDataLen / 8))),
      texts (xs.map fun x => print (evtlogLine p x)) = xs.flatMap fun x => evtlogLine p x := by
    intro p xs
    induction xs with
    | nil => rfl
    | cons x xs ih => rw [List.map_cons, texts_print, ih, List.flatMap_cons]
  rw [writeLogEvtlog, texts_print, texts_flatMap]
  refine congrArg _ (List.flatMap_congr fun e _ => ?_)
  rw [List.cons_append, texts_print, texts_append, hlines]
  exact congrArg (evtlogRecord c start e ++ ·) (List.append_nil _)

/-- **The ring logs dump in order.** After any calls of `mlog`, and after any events while the trace
is switched on and off, the dump is the last entries that were logged, each once and the oldest one
first; no slot outside the copy is read. The sequence numbers may have wrapped. -/
theorem rings_in_order (c : Clock) (start : LogStart) (calls : List (BitVec 64 × Text))
    (ops : List EvtOp) (hm : ∀ x ∈ calls, x.1 ≠ 0)
    (he : ∀ t c d, EvtOp.event t c d ∈ ops → t ≠ 0) :
    InOrder (mlogRun calls) (mlogHistory calls) (writeLogMlog c start (mlogRun calls))
      (title "MLOG:" ++ c.ctime start.starttime) (mlogRecord c start) ∧
    InOrder (ops.foldl EvtLog.step .init).ring (evtHistory ops).2
      (writeLogEvtlog c start (ops.foldl EvtLog.step .init).ring)
      (title "EVENTLOG:" ++ c.ctime start.starttime) (evtlogText c start) := by
  refine ⟨(logged_mlog calls).inOrder (by decide) (mlogHistory_time hm) ?_ ?_,
    (logged_evtlog ops).2.inOrder (by decide) (evtHistory_time he) ?_ ?_⟩
  · exact Dump.Covered.inside (d := .mlog start _) (covered_mlog c start _)
  · exact texts_writeLogMlog c start _
  · exact Dump.Covered.inside (d := .evtlog start _) (covered_evtlog c start _)
  · exact texts_writeLogEvtlog c start _

/-- An event that is logged, one while the trace is off, and one behind it. -/
def sampleEvents : List EvtOp :=
  [.event 3 (.len (fun _ => 'a') 60) none, .traceControl 0, .event 4 (.len (fun _ => 'b') 60) none,
    .traceControl 1, .event 9 (.len (fun _ => 'c') 60) none]

theorem rings_in_order_sample :
    InOrder (mlogRun [(5, lit "a"), (7, lit "b")]) (mlogHistory [(5, lit "a"), (7, lit "b")])
      (writeLogMlog epoch ⟨0, 0⟩ (mlogRun [(5, lit "a"), (7, lit "b")]))
      (title "MLOG:" ++ epoch.ctime 0) (mlogRecord epoch ⟨0, 0⟩) ∧
    InOrder (sampleEvents.foldl EvtLog.step .init).ring (evtHistory sampleEvents).2
      (writeLogEvtlog epoch ⟨0, 0⟩ (sampleEvents.foldl EvtLog.step .init).ring)
      (title "EVENTLOG:" ++ epoch.ctime 0) (evtlogText epoch ⟨0, 0⟩) ∧
    ((evtHistory sampleEvents).2.map LogEntry.time) = [3, 9] := by
  have h := rings_in_order epoch ⟨0, 0⟩ [(5, lit "a"), (7, lit "b")] sampleEvents (by simp) (by
    intro t c d hm
    simp only [sampleEvents, List.mem_cons, EvtOp.event.injEq, List.not_mem_nil, or_false,
      reduceCtorEq, false_or] at hm
    rcases hm with ⟨rfl, -⟩ | ⟨rfl, -⟩ | ⟨rfl, -⟩ <;> decide)
  exact ⟨h.1, h.2, by decide⟩

end Sasat
