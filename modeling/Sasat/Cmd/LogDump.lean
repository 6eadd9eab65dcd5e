import Sasat.Cmd.Server
import Sasat.Log.Overrun
import Sasat.Log.Ring

/-!
# Writing the logs

For a request of `sasat -l` the command thread writes a file: a heading, and the logs whose bits are
set, each through the same work buffer.

* `LogPart`, `Logs`: the logs of a translator, with their writers.
* `logDump`: `log_dump`, with the text that it leaves in the file.
* `Named`: an option of the tool names a log; **`mask_and_bit`**: the mask of the options has its
  bit then, and no other.
* **`log_dump_named`**: the file holds the logs that are named.
-/

namespace Sasat

open Flush

inductive LogPart
  | stat | mlog | evtlog | cli | stat2 | svr
  deriving DecidableEq

/-- `LOG_STAT`, `LOG_MLOG`, `LOG_EVTLOG`, `LOG_CLI`, `LOG_STAT2`, `LOG_SVR`. -/
def LogPart.bit : LogPart → Byte
  | .stat => 1
  | .mlog => 1 <<< 1
  | .evtlog => 1 <<< 2
  | .cli => 1 <<< 3
  | .stat2 => 1 <<< 4
  | .svr => 1 <<< 5

/-- What the writers of a translator read. -/
inductive Logs
  | front (stat : ℕ → BitVec 64) (mlogStart : LogStart) (mlog : MlogRing) (evtStart : LogStart)
      (evtlog : EvtRing) (cliStart : LogStart) (line4 : Ptr → CText 64) (line6 : Ptr → CText 128)
      (gw4 : Ptr → InAddr) (gw6 : Ptr → In6Addr) (s : FrontState)
  | back (stat : ℕ → BitVec 64) (mlogStart : LogStart) (mlog : MlogRing) (evtStart : LogStart)
      (evtlog : EvtRing) (ci : ClientInfo)

/-- The writers that `log_dump` may call, in its order. -/
def Logs.writers : Logs → List (LogPart × Dump)
  | .front stat mlogStart mlog evtStart evtlog cliStart line4 line6 gw4 gw6 s =>
    [(.stat, .statFront stat), (.mlog, .mlog mlogStart mlog), (.evtlog, .evtlog evtStart evtlog),
      (.cli, .cliFront cliStart s), (.stat2, .stat2 line4 line6 s), (.svr, .svr gw4 gw6 s)]
  | .back stat mlogStart mlog evtStart evtlog ci =>
    [(.stat, .statBack stat), (.mlog, .mlog mlogStart mlog), (.evtlog, .evtlog evtStart evtlog),
      (.cli, .cliBack ci)]

/-- `DUMP_MESSAGE_F` and `DUMP_MESSAGE_B`. -/
def Logs.message : Logs → Text
  | .front .. => lit "Front Translator Log"
  | .back .. => lit "Backend Translator Log"

/-- What the system does in `log_dump`: whether `open_log` and `malloc` succeed, and the time. -/
structure DumpEnv where
  opened : Bool
  allocated : Bool
  time : BitVec 64
  clock : Clock

/-- A writer adds to the file. The last `fwrite` takes what is left in the buffer. -/
def writePart (c : Clock) (d : Dump) (file : Text) : Option Text :=
  (run tmpSize (d.ops c) ⟨[], []⟩).map fun b => file ++ (b.out ++ b.pending)

/-- `log_dump`, with the text in the file. No result: a writer leaves the work buffer. -/
def logDump (l : Logs) (e : DumpEnv) (flag : Byte) : Option Text :=
  if flag ≠ 0 then
    if e.opened ∧ e.allocated then
      l.writers.foldlM (fun file w => if flag &&& w.1.bit ≠ 0 then writePart e.clock w.2 file
        else some file) (l.message ++ lit " : " ++ e.clock.ctime e.time)
    else some []
  else some []

/-! ## Options -/

def LogPart.name : LogPart → List Byte
  | .stat => bytesOf "stat"
  | .mlog => bytesOf "mlog"
  | .evtlog => bytesOf "elog"
  | .cli => bytesOf "cl"
  | .stat2 => bytesOf "pol"
  | .svr => bytesOf "svr"

/-- An option names the log. -/
def Named (opts : List CmdOpt) (p : LogPart) : Prop :=
  .l (bytesOf "all") ∈ opts ∨ .l p.name ∈ opts

instance (opts : List CmdOpt) : DecidablePred (Named opts) :=
  fun _ => inferInstanceAs (Decidable (_ ∨ _))

theorem getLogOpt_and_bit (p : LogPart) :
    ∀ arg ∈ logOption.map Prod.fst, getLogOpt arg &&& p.bit ≠ 0 ↔
      arg = bytesOf "all" ∨ arg = p.name := by
  cases p <;> decide

theorem foldl_or_and_ne_zero (b : Byte) (l : List Byte) (a : Byte) :
    l.foldl (· ||| ·) a &&& b ≠ 0 ↔ a &&& b ≠ 0 ∨ ∃ x ∈ l, x &&& b ≠ 0 := by
  induction l generalizing a with
  | nil => simp
  | cons x l ih =>
    have hor : (a ||| x) &&& b ≠ 0 ↔ a &&& b ≠ 0 ∨ x &&& b ≠ 0 := by
      have hdistrib : (a ||| x) &&& b = a &&& b ||| x &&& b := by
        ext i
        simp [Bool.and_or_distrib_right]
      rw [hdistrib]
      exact (not_congr BitVec.or_eq_zero_iff).trans not_and_or
    rw [List.foldl_cons, ih, hor, or_assoc, List.exists_mem_cons_iff]

/-- **The bits of the mask** are those of the logs that the options name. -/
theorem mask_and_bit {opts : List CmdOpt} (hv : ∀ o ∈ opts, o.Valid) (p : LogPart) :
    (opts.filterMap CmdOpt.mask).foldl (· ||| ·) 0 &&& p.bit ≠ 0 ↔ Named opts p := by
  have harg : ∀ arg, .l arg ∈ opts → (getLogOpt arg &&& p.bit ≠ 0 ↔
      arg = bytesOf "all" ∨ arg = p.name) := fun arg h => getLogOpt_and_bit p arg (hv _ h)
  rw [foldl_or_and_ne_zero, or_iff_right (by simp)]
  constructor
  · rintro ⟨x, hx, hbit⟩
    obtain ⟨o, ho, hmask⟩ := List.mem_filterMap.mp hx
    cases o with
    | l arg =>
      cases hmask
      rcases (harg arg ho).mp hbit with rfl | rfl
      · exact .inl ho
      · exact .inr ho
    | p => cases hmask
    | t arg => cases hmask
    | other => cases hmask
  · rintro (h | h)
    · exact ⟨_, List.mem_filterMap.mpr ⟨_, h, rfl⟩, (harg _ h).mpr (.inl rfl)⟩
    · exact ⟨_, List.mem_filterMap.mpr ⟨_, h, rfl⟩, (harg _ h).mpr (.inr rfl)⟩

/-! ## The file -/

def Dump.text (c : Clock) (d : Dump) : Text := texts (d.ops c)

theorem writePart_eq {c : Clock} {d : Dump} {file file' : Text}
    (h : writePart c d file = some file') : file' = file ++ d.text c := by
  obtain ⟨b, hrun, rfl⟩ := Option.map_eq_some_iff.mp h
  rw [dump_output hrun, Dump.text]

theorem writePart_isSome (c : Clock) (d : Dump) (file : Text) :
    (writePart c d file).isSome = true ↔ d.Inside c := by
  rw [writePart, Option.isSome_map]
  exact Option.isSome_iff_exists

theorem writeParts_eq_some_iff (c : Clock) (p : LogPart → Prop) [DecidablePred p] {out : Text} :
    ∀ (ws : List (LogPart × Dump)) (file : Text),
      ws.foldlM (fun file w => if p w.1 then writePart c w.2 file else some file) file = some out ↔
        (∀ w ∈ ws, p w.1 → w.2.Inside c) ∧
          out = file ++ (ws.filter fun w => p w.1).flatMap fun w => w.2.text c := by
  intro ws
  induction ws with
  | nil =>
    intro file
    rw [List.foldlM_nil]
    simp [eq_comm]
  | cons w ws ih =>
    intro file
    rw [List.foldlM_cons, List.forall_mem_cons]
    by_cases hw : p w.1
    · rw [if_pos hw, List.filter_cons_of_pos (by simpa using hw), List.flatMap_cons,
        imp_iff_right hw]
      cases hpart : writePart c w.2 file with
      | none =>
        refine iff_of_false nofun fun h => ?_
        have hsome := (writePart_isSome c w.2 file).mpr h.1.1
        rw [hpart] at hsome
        cases hsome
      | some file' =>
        have hin : w.2.Inside c := (writePart_isSome c w.2 file).mp (by rw [hpart]; rfl)
        rw [writePart_eq hpart, and_iff_right hin, ← List.append_assoc]
        exact ih _
    · rw [if_neg hw, List.filter_cons_of_neg (by simpa using hw),
        and_iff_right fun h => absurd h hw]
      exact ih file

/-- **`sasat -l` writes the logs that are named**: a request of the tool for logs is carried out by
a translator, and the file then holds the heading and the texts of the logs that the options name,
in the order of `log_dump` and without loss, exactly if their writers stay inside the work
buffer. -/
theorem log_dump_named {opts : List CmdOpt} (hv : ∀ o ∈ opts, o.Valid) {r : UdRequest}
    (hr : r ∈ requests opts) (hdump : r.reqId = udDumpReq) (t : Translator) (l : Logs)
    {e : DumpEnv} (he : e.opened = true ∧ e.allocated = true) :
    asked t r = some (.logDump r.reqData) ∧ ∀ out, logDump l e r.reqData = some out ↔
      (∀ w ∈ l.writers, Named opts w.1 → w.2.Inside e.clock) ∧
        out = l.message ++ lit " : " ++ e.clock.ctime e.time ++
          (l.writers.filter fun w => Named opts w.1).flatMap fun w => w.2.text e.clock := by
  refine ⟨if_pos hdump, fun out => ?_⟩
  have hmask : r.reqData = (opts.filterMap CmdOpt.mask).foldl (· ||| ·) 0 ∧
      opts.filterMap CmdOpt.mask ≠ [] := by
    rw [requests_eq, List.mem_append, List.mem_append] at hr
    rcases hr with (hr | hr) | hr
    · split_ifs at hr with hp
      · rw [List.mem_singleton.mp hr] at hdump
        exact absurd hdump (by decide)
      · cases hr
    · split_ifs at hr with hl
      · rw [List.mem_singleton.mp hr]
        exact ⟨rfl, of_decide_eq_true hl⟩
      · cases hr
    · split_ifs at hr with htr
      · rw [List.mem_singleton.mp hr] at hdump
        exact absurd hdump (show ¬ udEvtr = udDumpReq by decide)
      · cases hr
  -- a mask of options is not zero
  have hne : r.reqData ≠ 0 := by
    rw [hmask.1]
    obtain ⟨m, hm⟩ := List.exists_mem_of_ne_nil _ hmask.2
    exact fun h => mask_ne_zero hv m hm ((foldl_or_eq_zero.mp h).2 m hm)
  have hbit : (fun w : LogPart × Dump => decide (r.reqData &&& w.1.bit ≠ 0)) =
      fun w => decide (Named opts w.1) := funext fun w => by
    rw [hmask.1]
    exact decide_eq_decide.mpr (mask_and_bit hv w.1)
  rw [logDump, if_pos hne, if_pos he,
    writeParts_eq_some_iff e.clock fun q => r.reqData &&& q.bit ≠ 0, hbit]
  refine and_congr_left' (forall₂_congr fun w _ => imp_congr_left ?_)
  rw [hmask.1]
  exact mask_and_bit hv w.1

theorem log_dump_named_stat : ∃ out, logDump (.back (fun _ => 0) ⟨0, 0⟩ (mlogRun []) ⟨0, 0⟩
    EvtLog.init.ring (initClientTable 0 0)) ⟨true, true, 0, epoch⟩ 1 = some out := by
  have hv : ∀ o ∈ [CmdOpt.l (bytesOf "stat")], o.Valid := by simp [CmdOpt.Valid, logOption]
  have hr : (⟨udMagicNo, udDumpReq, 1⟩ : UdRequest) ∈ requests [.l (bytesOf "stat")] := by decide
  have hin : Dump.Inside epoch (.statBack fun _ => 0) :=
    show Inside tmpSize (writeLogStat statNamesBack fun _ => 0) from inside_stat _ (by decide)
  refine ⟨_, ((log_dump_named hv hr rfl .back _ ⟨rfl, rfl⟩).2 _).mpr ⟨?_, rfl⟩⟩
  intro w hw hnamed
  simp only [Logs.writers, List.mem_cons, List.not_mem_nil, or_false] at hw
  rcases hw with rfl | rfl | rfl | rfl
  · exact hin
  · exact absurd hnamed (show ¬ Named _ .mlog by decide)
  · exact absurd hnamed (show ¬ Named _ .evtlog by decide)
  · exact absurd hnamed (show ¬ Named _ .cli by decide)

end Sasat
