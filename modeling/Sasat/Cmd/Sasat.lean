import Sasat.Common.Init

/-!
# The `sasat` command

The command line tool sends its requests to a translator over a local socket: one to read the
policies anew, one to write logs, one to switch the event trace.

* `cmdArg`: the loop of `main` over what `getopt` returns.
* `sendCmd`: one request and its answer. The socket is bound to a name that `mkstemp` makes from the
  template `ud_file`, in place.
* `cmdMain`: `main`.
* **`cmdMain_requests_iff`**: when every request is sent.

What the tool prints is left out.
-/

namespace Sasat

/-! ## Requests -/

/-- `UD_MAGIC_NO`. -/
def udMagicNo : ℤ := 0x46726e74

/-- `UD_POLICY_UPD`. -/
def udPolicyUpd : Byte := 1

/-- `UD_DUMP_REQ`. -/
def udDumpReq : Byte := 2

/-- `UD_EVTR`. -/
def udEvtr : Byte := 3

/-- `ud_request_t`. -/
structure UdRequest where
  magicNo : ℤ
  reqId : Byte
  reqData : Byte
  deriving DecidableEq

/-- `ud_resp_t`. -/
structure UdResp where
  magicNo : ℤ
  reqId : Byte
  reqData : Byte
  result : Byte
  reasonCode : Byte

/-- `sizeof(ud_request_t)` and `sizeof(ud_resp_t)`. -/
def udRequestSize : ℤ := 8

def udRespSize : ℤ := 8

/-- What `mkstemp` replaces. -/
def tempSuffix : List Byte := bytesOf "XXXXXX"

/-- The characters that `mkstemp` chooses. -/
structure TempChars where
  chars : List Byte
  length_eq : chars.length = tempSuffix.length
  ne_suffix : chars ≠ tempSuffix

/-- `mkstemp`, on a template that it can make a file from: the name of the file, which replaces the
template. -/
def mkstemp (t : TempChars) (template : List Byte) : Option (List Byte) :=
  if tempSuffix <:+ template then
    some (template.take (template.length - tempSuffix.length) ++ t.chars)
  else none

/-- What the system calls and the translator do in a call of `send_cmd`. Without characters,
`mkstemp` fails on every template. -/
structure SendEnv where
  socket : ℤ
  temp : Option TempChars
  bind : ℤ
  sendto : ℤ
  select : ℤ
  recvfrom : ℤ
  resp : UdResp

/-- The global variable `ud_file`, and the requests that are sent. -/
structure CmdState where
  udFile : List Byte
  sent : List UdRequest

/-- `send_cmd`. -/
def sendCmd (e : SendEnv) (cmd opt : Byte) (s : CmdState) : ℤ × CmdState :=
  if e.socket = -1 then (-1, s)
  else
    match e.temp.bind fun t => mkstemp t s.udFile with
    | none => (-1, s)
    | some udFile =>
      let s := { s with udFile := udFile }
      if e.bind < 0 then (-1, s)
      else if e.sendto < 0 ∨ e.sendto ≠ udRequestSize then (-1, s)
      else
        let s := { s with sent := s.sent ++ [⟨udMagicNo, cmd, opt⟩] }
        if e.select = 0 then (-1, s)
        else if e.recvfrom < 0 ∨ e.recvfrom ≠ udRespSize then (-1, s)
        else if e.resp.result ≠ 0 then (-1, s)
        else (0, s)

/-! ## Options -/

/-- `log_option`. -/
def logOption : List (List Byte × Byte) :=
  [(bytesOf "all", 0xff), (bytesOf "stat", 1), (bytesOf "mlog", 1 <<< 1), (bytesOf "elog", 1 <<< 2),
    (bytesOf "cl", 1 <<< 3), (bytesOf "pol", 1 <<< 4), (bytesOf "svr", 1 <<< 5)]

/-- `get_log_opt`. -/
def getLogOpt (arg : List Byte) : Byte :=
  match logOption.find? fun o => o.1 = arg with
  | some o => o.2
  | none => 0

/-- What `getopt` returns: an option of `main` with its `optarg`, or anything else. -/
inductive CmdOpt
  | p
  | l (optarg : List Byte)
  | t (optarg : List Byte)
  | other
  deriving DecidableEq

/-- The variables of `main`. -/
structure CmdArgs where
  pol : Byte
  log : Byte
  cmd : Byte
  evt : BitVec 64
  deriving DecidableEq

/-- An option in the loop of `main`; `none` where it prints the usage and fails. -/
def cmdArg (a : CmdArgs) : CmdOpt → Option CmdArgs
  | .p => some { a with cmd := a.cmd + 1, pol := 1 }
  | .l optarg => some { a with cmd := a.cmd + 1, log := a.log ||| getLogOpt optarg }
  | .t optarg =>
    let evt := BitVec.ofInt 64 (strtol optarg)
    if evt.toInt > 1 then none
    else some { a with cmd := a.cmd + 1, evt := evt ||| 0x80 }
  | .other => none

/-- `EXIT_SUCCESS` and `EXIT_FAILURE`. -/
def exitSuccess : ℤ := 0

def exitFailure : ℤ := 1

/-- `ud_file` at the start. -/
def udFileTemplate : List Byte := bytesOf "/dev/shm/reqXXXXXX"

/-- A request of `main`, made if `c`; `k` is the rest of `main`. -/
def sendReq (c : Bool) (env : Byte → SendEnv) (cmd opt : Byte) (k : CmdState → ℤ × CmdState)
    (s : CmdState) : ℤ × CmdState :=
  if c then
    let (err, s) := sendCmd (env cmd) cmd opt s
    if err < 0 then (exitFailure, s) else k s
  else k s

/-- `main`, with what happens in its calls of `send_cmd`, by request. It returns its exit code. -/
def cmdMain (env : Byte → SendEnv) (opts : List CmdOpt) : ℤ × CmdState :=
  let s : CmdState := ⟨udFileTemplate, []⟩
  match opts.foldlM cmdArg ⟨0, 0, 0, 0⟩ with
  | none => (exitFailure, s)
  | some a =>
    if a.cmd = 0 then (exitFailure, s)
    else
      sendReq (a.pol = 1) env udPolicyUpd 0 (sendReq (a.log ≠ 0) env udDumpReq a.log
        (sendReq (a.evt ≠ 0) env udEvtr ((a.evt &&& ~~~0x80).setWidth 8)
          fun s => (exitSuccess, s))) s

/-! ## What the command line asks for -/

/-- The options that the usage text allows. -/
def CmdOpt.Valid : CmdOpt → Prop
  | .p => True
  | .l optarg => optarg ∈ logOption.map Prod.fst
  | .t optarg => optarg = bytesOf "0" ∨ optarg = bytesOf "1"
  | .other => False

def CmdOpt.letter : CmdOpt → Char
  | .p => 'p'
  | .l _ => 'l'
  | .t _ => 't'
  | .other => '?'

def CmdOpt.mask : CmdOpt → Option Byte
  | .l optarg => some (getLogOpt optarg)
  | _ => none

/-- The value of an option `-t`. -/
def CmdOpt.trace : CmdOpt → Option Byte
  | .t optarg => some (if optarg = bytesOf "1" then 1 else 0)
  | _ => none

/-- The requests for a command line: one for all of its options of a letter. -/
def requests (opts : List CmdOpt) : List UdRequest :=
  (if .p ∈ opts then [⟨udMagicNo, udPolicyUpd, 0⟩] else []) ++
    (if opts.filterMap CmdOpt.mask = [] then []
      else [⟨udMagicNo, udDumpReq, (opts.filterMap CmdOpt.mask).foldl (· ||| ·) 0⟩]) ++
    (opts.filterMap CmdOpt.trace).getLast?.elim [] fun v => [⟨udMagicNo, udEvtr, v⟩]

/-- The translator answers with success, and no call on the way there fails by itself. -/
structure SendEnv.Answers (e : SendEnv) : Prop where
  socket : e.socket ≠ -1
  temp : e.temp.isSome = true
  bind : 0 ≤ e.bind
  sendto : e.sendto = udRequestSize
  select : 0 < e.select
  recvfrom : e.recvfrom = udRespSize
  result : e.resp.result = 0

/-! ## One request -/

section

variable {e : SendEnv} {cmd opt : Byte} {k : CmdState → ℤ × CmdState} {s : CmdState}

theorem mkstemp_of_suffix (t : TempChars) {template : List Byte} (h : tempSuffix <:+ template) :
    ∃ name, mkstemp t template = some name ∧ ¬ tempSuffix <:+ name := by
  refine ⟨_, if_pos h, fun hsuf => t.ne_suffix ?_⟩
  have hchars := List.suffix_of_suffix_length_le hsuf (List.suffix_append _ _) t.length_eq.ge
  exact (hchars.eq_of_length t.length_eq.symm).symm

theorem sendCmd_template (he : e.Answers) (h : tempSuffix <:+ s.udFile) :
    ∃ udFile, ¬ tempSuffix <:+ udFile ∧
      ∀ cmd opt, sendCmd e cmd opt s = (0, ⟨udFile, s.sent ++ [⟨udMagicNo, cmd, opt⟩]⟩) := by
  obtain ⟨t, ht⟩ := Option.isSome_iff_exists.mp he.temp
  obtain ⟨name, hname, hused⟩ := mkstemp_of_suffix t h
  refine ⟨name, hused, fun cmd opt => ?_⟩
  have hsend : ¬ (e.sendto < 0 ∨ e.sendto ≠ udRequestSize) := by
    rw [he.sendto]
    decide
  have hrecv : ¬ (e.recvfrom < 0 ∨ e.recvfrom ≠ udRespSize) := by
    rw [he.recvfrom]
    decide
  rw [sendCmd, if_neg he.socket, ht, Option.bind_some, hname]
  simp only [if_neg (not_lt.mpr he.bind), if_neg hsend, if_neg he.select.ne', if_neg hrecv,
    if_neg (not_not.mpr he.result)]

theorem sendCmd_used (h : ¬ tempSuffix <:+ s.udFile) : sendCmd e cmd opt s = (-1, s) := by
  have hnone : (e.temp.bind fun t => mkstemp t s.udFile) = none := by
    cases e.temp with
    | none => rfl
    | some t => exact if_neg h
  rw [sendCmd, hnone]
  exact ite_self _

variable {env : Byte → SendEnv}

theorem sendReq_false : sendReq false env cmd opt k s = k s := rfl

theorem sendReq_used {udFile : List Byte} (h : ¬ tempSuffix <:+ udFile) (sent : List UdRequest) :
    sendReq true env cmd opt k ⟨udFile, sent⟩ = (exitFailure, ⟨udFile, sent⟩) := by
  rw [sendReq, if_pos rfl, sendCmd_used h]
  rfl

theorem sendReq_template (cmd : Byte) (he : (env cmd).Answers) (h : tempSuffix <:+ s.udFile) :
    ∃ udFile, ¬ tempSuffix <:+ udFile ∧ ∀ opt k,
      sendReq true env cmd opt k s = k ⟨udFile, s.sent ++ [⟨udMagicNo, cmd, opt⟩]⟩ := by
  obtain ⟨udFile, hused, hsend⟩ := sendCmd_template he h
  refine ⟨udFile, hused, fun opt k => ?_⟩
  rw [sendReq, if_pos rfl, hsend]
  rfl

end

/-! ## The options -/

/-- The trace value, as `evt` keeps it. -/
def evtOf (v : Byte) : BitVec 64 := v.setWidth 64 ||| 0x80

theorem cmdArg_l (a : CmdArgs) (optarg : List Byte) : cmdArg a (.l optarg) =
    some { a with cmd := a.cmd + 1, log := a.log ||| getLogOpt optarg } := rfl

theorem cmdArg_t (a : CmdArgs) {optarg : List Byte} (h : (CmdOpt.t optarg).Valid) :
    cmdArg a (.t optarg) = some { a with
      cmd := a.cmd + 1
      evt := evtOf (if optarg = bytesOf "1" then 1 else 0) } := by
  rcases h with rfl | rfl <;> rfl

theorem foldlM_cmdArg {opts : List CmdOpt} (hv : ∀ o ∈ opts, o.Valid) (a : CmdArgs) :
    opts.foldlM cmdArg a = some {
      pol := if .p ∈ opts then 1 else a.pol
      log := (opts.filterMap CmdOpt.mask).foldl (· ||| ·) a.log
      cmd := a.cmd + BitVec.ofNat 8 opts.length
      evt := (opts.filterMap CmdOpt.trace).getLast?.elim a.evt evtOf } := by
  induction opts generalizing a with
  | nil => simp
  | cons o opts ih =>
    obtain ⟨ho, hvs⟩ := List.forall_mem_cons.mp hv
    have hcount : a.cmd + 1 + BitVec.ofNat 8 opts.length =
        a.cmd + BitVec.ofNat 8 (o :: opts).length := by
      rw [List.length_cons, BitVec.ofNat_add, add_assoc, add_comm 1]
      rfl
    rw [List.foldlM_cons]
    cases o with
    | p =>
      rw [cmdArg, Option.bind_eq_bind, Option.bind_some, ih hvs, hcount]
      simp [List.filterMap_cons, CmdOpt.mask, CmdOpt.trace]
    | l optarg =>
      rw [cmdArg_l, Option.bind_eq_bind, Option.bind_some, ih hvs, hcount]
      simp [List.filterMap_cons, CmdOpt.mask, CmdOpt.trace]
    | t optarg =>
      rw [cmdArg_t a ho, Option.bind_eq_bind, Option.bind_some, ih hvs, hcount]
      simp only [List.mem_cons, reduceCtorEq, false_or, List.filterMap_cons, CmdOpt.mask,
        CmdOpt.trace, List.getLast?_cons, Option.elim_some]
      cases (opts.filterMap CmdOpt.trace).getLast? <;> rfl
    | other => exact ho.elim

theorem mask_ne_zero {opts : List CmdOpt} (hv : ∀ o ∈ opts, o.Valid) :
    ∀ m ∈ opts.filterMap CmdOpt.mask, m ≠ 0 := by
  intro m hm
  obtain ⟨o, ho, hmask⟩ := List.mem_filterMap.mp hm
  cases o with
  | l optarg =>
    have htable : ∀ arg ∈ logOption.map Prod.fst, getLogOpt arg ≠ 0 := by decide
    rw [← Option.some.inj hmask]
    exact htable optarg (hv _ ho)
  | _ => cases hmask

theorem foldl_or_eq_zero {l : List Byte} {a : Byte} :
    l.foldl (· ||| ·) a = 0 ↔ a = 0 ∧ ∀ m ∈ l, m = 0 := by
  induction l generalizing a with
  | nil => simp
  | cons m l ih =>
    rw [List.foldl_cons, ih, List.forall_mem_cons, ← and_assoc]
    exact and_congr_left' BitVec.or_eq_zero_iff

/-! ## All requests -/

/-- Some option has the letter. -/
def Occurs (opts : List CmdOpt) (c : Char) : Prop := ∃ o ∈ opts, o.letter = c

theorem mem_p_iff {opts : List CmdOpt} : .p ∈ opts ↔ Occurs opts 'p' := by
  refine ⟨fun h => ⟨_, h, rfl⟩, ?_⟩
  rintro ⟨o, ho, hletter⟩
  cases o with
  | p => exact ho
  | _ => simp [CmdOpt.letter] at hletter

theorem filterMap_ne_nil_iff {f : CmdOpt → Option Byte} {c : Char}
    (h : ∀ o, (f o).isSome = true ↔ o.letter = c) {opts : List CmdOpt} :
    opts.filterMap f ≠ [] ↔ Occurs opts c := by
  rw [Ne, List.filterMap_eq_nil_iff]
  simp only [Occurs, ← h, not_forall, exists_prop, Option.isSome_iff_ne_none]

theorem mask_isSome (o : CmdOpt) : o.mask.isSome = true ↔ o.letter = 'l' := by
  cases o <;> simp [CmdOpt.mask, CmdOpt.letter]

theorem trace_isSome (o : CmdOpt) : o.trace.isSome = true ↔ o.letter = 't' := by
  cases o <;> simp [CmdOpt.trace, CmdOpt.letter]

theorem evtOf_trace {opts : List CmdOpt} {v : Byte} (h : v ∈ opts.filterMap CmdOpt.trace) :
    evtOf v ≠ 0 ∧ (evtOf v &&& ~~~0x80).setWidth 8 = v := by
  obtain ⟨o, -, htrace⟩ := List.mem_filterMap.mp h
  cases o with
  | t optarg =>
    rw [← Option.some.inj htrace]
    split_ifs <;> decide
  | _ => cases htrace

theorem cmdMain_eq {env : Byte → SendEnv} {opts : List CmdOpt} (hv : ∀ o ∈ opts, o.Valid) :
    cmdMain env opts =
      if opts.length % 256 = 0 then (exitFailure, ⟨udFileTemplate, []⟩)
      else sendReq (.p ∈ opts) env udPolicyUpd 0
        (sendReq (opts.filterMap CmdOpt.mask ≠ []) env udDumpReq
          ((opts.filterMap CmdOpt.mask).foldl (· ||| ·) 0)
          (sendReq (opts.filterMap CmdOpt.trace ≠ []) env udEvtr
            ((opts.filterMap CmdOpt.trace).getLast?.getD 0) fun s => (exitSuccess, s)))
        ⟨udFileTemplate, []⟩ := by
  have hcmd : (0 : Byte) + BitVec.ofNat 8 opts.length = 0 ↔ opts.length % 256 = 0 := by
    rw [zero_add, ← BitVec.toNat_inj]
    rfl
  have hpol : (if .p ∈ opts then (1 : Byte) else 0) = 1 ↔ .p ∈ opts := by
    by_cases hp : .p ∈ opts <;> simp [hp]
  have hlog : (opts.filterMap CmdOpt.mask).foldl (· ||| ·) 0 ≠ 0 ↔
      opts.filterMap CmdOpt.mask ≠ [] := by
    rw [Ne, foldl_or_eq_zero, and_iff_right rfl]
    constructor
    · rintro h hnil
      rw [hnil] at h
      exact h fun _ hm => absurd hm List.not_mem_nil
    · intro h hzero
      obtain ⟨m, hm⟩ := List.exists_mem_of_ne_nil _ h
      exact mask_ne_zero hv m hm (hzero m hm)
  rw [cmdMain, foldlM_cmdArg hv]
  dsimp only
  simp only [hcmd, hpol, hlog]
  cases hlast : (opts.filterMap CmdOpt.trace).getLast? with
  | none =>
    rw [List.getLast?_eq_none_iff] at hlast
    simp [hlast]
  | some v =>
    have hmem := List.mem_of_getLast? hlast
    obtain ⟨hne, hval⟩ := evtOf_trace hmem
    simp only [Option.elim_some, Option.getD_some, hval, ne_eq, hne, List.ne_nil_of_mem hmem,
      not_false_eq_true, decide_true]

/-- **Of the requests of `main` only the first is sent**: the others do not find the template. -/
theorem sendReqs_iff {env : Byte → SendEnv} (henv : ∀ n, (env n).Answers) {p l t : Bool}
    (hsome : p = true ∨ l = true ∨ t = true) (mask trace : Byte) {r : ℤ × CmdState}
    (hr : sendReq p env udPolicyUpd 0 (sendReq l env udDumpReq mask
      (sendReq t env udEvtr trace fun s => (exitSuccess, s))) ⟨udFileTemplate, []⟩ = r) :
    (r.1 = exitSuccess ∧ r.2.sent = (if p then [⟨udMagicNo, udPolicyUpd, 0⟩] else []) ++
      (if l then [⟨udMagicNo, udDumpReq, mask⟩] else []) ++
      (if t then [⟨udMagicNo, udEvtr, trace⟩] else [])) ↔
    ¬ (p = true ∧ l = true) ∧ ¬ (p = true ∧ t = true) ∧ ¬ (l = true ∧ t = true) := by
  have hfresh : tempSuffix <:+ (CmdState.mk udFileTemplate []).udFile := by decide
  have hfail : exitFailure ≠ exitSuccess := by decide
  subst hr
  cases p with
  | true =>
    obtain ⟨udFile, hused, hsend⟩ := sendReq_template udPolicyUpd (henv udPolicyUpd) hfresh
    rw [hsend]
    cases l with
    | true => simp [sendReq_used hused, hfail]
    | false =>
      rw [sendReq_false]
      cases t <;> simp [sendReq_used hused, sendReq_false, hfail]
  | false =>
    rw [sendReq_false]
    cases l with
    | true =>
      obtain ⟨udFile, hused, hsend⟩ := sendReq_template udDumpReq (henv udDumpReq) hfresh
      rw [hsend]
      cases t <;> simp [sendReq_used hused, sendReq_false, hfail]
    | false =>
      rw [sendReq_false]
      cases t with
      | true =>
        obtain ⟨udFile, -, hsend⟩ := sendReq_template udEvtr (henv udEvtr) hfresh
        rw [hsend]
        simp
      | false => simp at hsome

theorem requests_eq (opts : List CmdOpt) : requests opts =
    (if decide (.p ∈ opts) then [⟨udMagicNo, udPolicyUpd, 0⟩] else []) ++
      (if decide (opts.filterMap CmdOpt.mask ≠ []) then
        [⟨udMagicNo, udDumpReq, (opts.filterMap CmdOpt.mask).foldl (· ||| ·) 0⟩] else []) ++
      (if decide (opts.filterMap CmdOpt.trace ≠ []) then
        [⟨udMagicNo, udEvtr, (opts.filterMap CmdOpt.trace).getLast?.getD 0⟩] else []) := by
  have htrace : ∀ l : List Byte, (l.getLast?.elim [] fun v => [UdRequest.mk udMagicNo udEvtr v]) =
      if decide (l ≠ []) then [⟨udMagicNo, udEvtr, l.getLast?.getD 0⟩] else [] := by
    intro l
    cases h : l.getLast? with
    | none => simp [List.getLast?_eq_none_iff.mp h]
    | some v => simp [List.ne_nil_of_mem (List.mem_of_getLast? h)]
  rw [requests, htrace]
  simp only [decide_eq_true_eq, ne_eq, ite_not]

theorem CmdOpt.Valid.letter_cases {o : CmdOpt} (h : o.Valid) :
    o.letter = 'p' ∨ o.letter = 'l' ∨ o.letter = 't' := by
  cases o with
  | p => exact .inl rfl
  | l _ => exact .inr (.inl rfl)
  | t _ => exact .inr (.inr rfl)
  | other => exact h.elim

theorem one_letter_iff {opts : List CmdOpt} (hv : ∀ o ∈ opts, o.Valid) :
    (∀ o ∈ opts, ∀ o' ∈ opts, o.letter = o'.letter) ↔
      ¬ (Occurs opts 'p' ∧ Occurs opts 'l') ∧ ¬ (Occurs opts 'p' ∧ Occurs opts 't') ∧
        ¬ (Occurs opts 'l' ∧ Occurs opts 't') := by
  constructor
  · intro h
    have hnot : ∀ c c', c ≠ c' → ¬ (Occurs opts c ∧ Occurs opts c') := by
      rintro c c' hne ⟨⟨o, ho, hc⟩, ⟨o', ho', hc'⟩⟩
      exact hne (hc.symm.trans ((h o ho o' ho').trans hc'))
    exact ⟨hnot _ _ (by decide), hnot _ _ (by decide), hnot _ _ (by decide)⟩
  · rintro ⟨hpl, hpt, hlt⟩ o ho o' ho'
    have hocc : Occurs opts o.letter := ⟨o, ho, rfl⟩
    have hocc' : Occurs opts o'.letter := ⟨o', ho', rfl⟩
    rcases (hv o ho).letter_cases with h | h | h <;>
      rcases (hv o' ho').letter_cases with h' | h' | h' <;> rw [h] at hocc <;>
      rw [h'] at hocc' <;> rw [h, h']
    · exact absurd ⟨hocc, hocc'⟩ hpl
    · exact absurd ⟨hocc, hocc'⟩ hpt
    · exact absurd ⟨hocc', hocc⟩ hpl
    · exact absurd ⟨hocc, hocc'⟩ hlt
    · exact absurd ⟨hocc', hocc⟩ hpt
    · exact absurd ⟨hocc', hocc⟩ hlt

/-- **Every request is sent** exactly if all options have one letter and their number is not a
multiple of 256. -/
theorem cmdMain_requests_iff {env : Byte → SendEnv} (henv : ∀ n, (env n).Answers)
    {opts : List CmdOpt} (hv : ∀ o ∈ opts, o.Valid) :
    ((cmdMain env opts).1 = exitSuccess ∧ (cmdMain env opts).2.sent = requests opts) ↔
      opts.length % 256 ≠ 0 ∧ ∀ o ∈ opts, ∀ o' ∈ opts, o.letter = o'.letter := by
  rw [cmdMain_eq hv]
  by_cases hcount : opts.length % 256 = 0
  · rw [if_pos hcount]
    exact ⟨fun h => absurd h.1 (by decide), fun h => absurd hcount h.1⟩
  · have hne : opts ≠ [] := by
      rintro rfl
      exact hcount rfl
    obtain ⟨o, ho⟩ := List.exists_mem_of_ne_nil _ hne
    have hmask := @filterMap_ne_nil_iff _ _ mask_isSome opts
    have htrace := @filterMap_ne_nil_iff _ _ trace_isSome opts
    have hsome : decide (.p ∈ opts) = true ∨ decide (opts.filterMap CmdOpt.mask ≠ []) = true ∨
        decide (opts.filterMap CmdOpt.trace ≠ []) = true := by
      rw [decide_eq_true_eq, decide_eq_true_eq, decide_eq_true_eq, mem_p_iff, hmask, htrace]
      rcases (hv o ho).letter_cases with h | h | h
      · exact .inl ⟨o, ho, h⟩
      · exact .inr (.inl ⟨o, ho, h⟩)
      · exact .inr (.inr ⟨o, ho, h⟩)
    have hsend := sendReqs_iff henv hsome ((opts.filterMap CmdOpt.mask).foldl (· ||| ·) 0)
      ((opts.filterMap CmdOpt.trace).getLast?.getD 0) rfl
    rw [if_neg hcount, and_iff_right hcount, one_letter_iff hv, ← hmask, ← htrace, ← mem_p_iff,
      requests_eq, hsend]
    simp only [decide_eq_true_eq]

/-- Every call succeeds, and the translator answers with success. -/
def sampleEnv : SendEnv where
  socket := 3
  temp := some ⟨bytesOf "a1B2c3", by decide, by decide⟩
  bind := 0
  sendto := 8
  select := 1
  recvfrom := 8
  resp := ⟨udMagicNo, 0, 0, 0, 0⟩

theorem sampleEnv_answers : sampleEnv.Answers := by
  constructor <;> decide

theorem cmdMain_requests_iff_logs :
    ((cmdMain (fun _ => sampleEnv) [.l (bytesOf "stat"), .l (bytesOf "pol")]).1 = exitSuccess ∧
      (cmdMain (fun _ => sampleEnv) [.l (bytesOf "stat"), .l (bytesOf "pol")]).2.sent =
        [⟨udMagicNo, udDumpReq, 17⟩]) :=
  (cmdMain_requests_iff (fun _ => sampleEnv_answers) (by
    simp only [List.forall_mem_cons]
    exact ⟨by simp [CmdOpt.Valid, logOption], by simp [CmdOpt.Valid, logOption],
      fun _ h => absurd h List.not_mem_nil⟩)).mpr (by decide)

/-- `-p -l stat`: the second request is not sent, and the tool fails. -/
theorem cmdMain_stops : ¬ ∀ env : Byte → SendEnv, (∀ n, (env n).Answers) → ∀ opts : List CmdOpt,
    (∀ o ∈ opts, o.Valid) →
      (cmdMain env opts).1 = exitSuccess ∧ (cmdMain env opts).2.sent = requests opts := by
  intro h
  have hv : ∀ o ∈ [CmdOpt.p, .l (bytesOf "stat")], o.Valid := by
    simp [CmdOpt.Valid, logOption]
  have hrun := (h (fun _ => sampleEnv) (fun _ => sampleEnv_answers) _ hv).1
  revert hrun
  decide

end Sasat
