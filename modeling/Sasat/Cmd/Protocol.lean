import Sasat.Lib.Rpc
import Sasat.Cmd.Server

/-!
# The tool and the translator

Any number of `sasat` commands, and other programs, send datagrams to the command thread of a
translator. Each call binds a socket to a name of its own; it takes the first datagram that comes
there for the answer, and gives up after five seconds. The sockets are a parameter: what is known of
them is that they deliver in order and at most once.

* `CmdNet`, `CmdReach`: the system, with the command thread as its server.
* `callEnv`: what `send_cmd` sees in the system.
* `Told`: what the counters and the trace flag say; **`counters_tell`**: they are right in every
  state.
* **`call_exactly_once`**: what a call reports is what the translator has done, if it is the
  translator that has answered.
-/

namespace Sasat

variable {A : Type} [DecidableEq A] {net : List (Rpc.Event A (List Byte)) → Prop} {t : Translator}

def CmdServer.start : CmdServer := ⟨fun _ => 0, false, 1, []⟩

/-- The command thread, and the calls by the names of their sockets. -/
abbrev CmdNet (A : Type) := Rpc.Net A (List Byte) CmdServer

def serveDatagram (t : Translator) (s : CmdServer) (bytes : List Byte) :
    Option (List Byte) × CmdServer := procUdRequest t (.datagram bytes) s

/-- The states of the system over the sockets `net`. -/
def CmdReach (net : List (Rpc.Event A (List Byte)) → Prop) (t : Translator) : CmdNet A → Prop :=
  Rpc.Reach net (serveDatagram t) (CmdServer.Turn t) CmdServer.start

/-- What happens in `send_cmd` when the calls before `select` succeed: the datagram that comes, if
one does. -/
def callEnv (temp : TempChars) (answer : Option (List Byte)) : SendEnv where
  socket := 3
  temp := some temp
  bind := 0
  sendto := udRequestSize
  select := if answer.isSome then 1 else 0
  recvfrom := answer.elim (-1) fun r => min r.length 8
  resp := udResp (answer.getD [])

theorem sendCmd_eq_zero_iff (e : SendEnv) (cmd opt : Byte) {s : CmdState}
    (hs : tempSuffix <:+ s.udFile) : (sendCmd e cmd opt s).1 = 0 ↔ (e.socket ≠ -1 ∧
      e.temp.isSome = true ∧ 0 ≤ e.bind ∧ e.sendto = udRequestSize) ∧
        e.select ≠ 0 ∧ e.recvfrom = udRespSize ∧ e.resp.result = 0 := by
  unfold sendCmd
  by_cases hsock : e.socket = -1
  · simp [hsock]
  rw [if_neg hsock]
  cases htemp : e.temp with
  | none => simp
  | some temp =>
    obtain ⟨name, hname, -⟩ := mkstemp_of_suffix temp hs
    rw [Option.bind_some, hname]
    dsimp only
    split_ifs <;> simp_all [udRequestSize, udRespSize] <;> omega

theorem sendCmd_callEnv (temp : TempChars) (answer : Option (List Byte)) (cmd opt : Byte)
    {s : CmdState} (hs : tempSuffix <:+ s.udFile) :
    (sendCmd (callEnv temp answer) cmd opt s).1 = 0 ↔
      ∃ r, answer = some r ∧ 8 ≤ r.length ∧ (udResp r).result = 0 := by
  rw [sendCmd_eq_zero_iff _ _ _ hs]
  cases answer with
  | none => simp [callEnv]
  | some r => simp [callEnv, udRespSize]

theorem isRequest_bytes (r : UdRequest) (rsv : Byte × Byte) (h : r.magicNo = udMagicNo) :
    IsRequest (udRequestBytes r rsv) :=
  ⟨length_udRequestBytes r rsv, by rw [udRequest_bytes r rsv h, h]⟩

/-! ## Counters -/

def CmdAct.isDump : CmdAct → Bool
  | .logDump _ => true
  | _ => false

def CmdAct.trace : CmdAct → Option Byte
  | .traceControl ctl => some ctl
  | _ => none

/-- The counters and the trace flag say what has been done. -/
structure Told (s : CmdServer) : Prop where
  policy : s.sstat .cmdUpdPolicy = BitVec.ofNat 64 (s.acts.count .updatePolicy)
  dump : s.sstat .cmdDumpReq = BitVec.ofNat 64 (s.acts.countP CmdAct.isDump)
  trOn : s.trOn = (s.acts.filterMap CmdAct.trace).getLast?.getD 1
  on_off : s.trOn.toNat ≤ 1

theorem Told.start : Told .start := ⟨rfl, rfl, rfl, by decide⟩

section

variable {s s' : CmdServer}

theorem Told.stat (h : Told s) {m : CmdStat} (hpol : m ≠ .cmdUpdPolicy) (hdump : m ≠ .cmdDumpReq) :
    Told (s.stat m) :=
  ⟨(s.stat_other hpol.symm).trans h.policy, (s.stat_other hdump.symm).trans h.dump, h.trOn,
    h.on_off⟩

theorem Told.logDump (h : Told s) (flag : Byte) :
    Told ((s.stat .cmdDumpReq).act (.logDump flag)) := by
  refine ⟨?_, ?_, ?_, h.on_off⟩
  · rw [CmdServer.act_sstat, s.stat_other (by decide), h.policy, CmdServer.act_acts,
      List.count_append]
    rfl
  · rw [CmdServer.act_sstat, s.stat_self, h.dump, CmdServer.act_acts, List.countP_append,
      BitVec.ofNat_add]
    rfl
  · rw [CmdServer.act_acts, List.filterMap_append]
    exact h.trOn.trans (by simp [CmdAct.trace])

theorem Told.updatePolicy (h : Told s) : Told ((s.stat .cmdUpdPolicy).act .updatePolicy) := by
  refine ⟨?_, ?_, ?_, h.on_off⟩
  · rw [CmdServer.act_sstat, s.stat_self, h.policy, CmdServer.act_acts, List.count_append,
      BitVec.ofNat_add]
    rfl
  · rw [CmdServer.act_sstat, s.stat_other (by decide), h.dump, CmdServer.act_acts,
      List.countP_append]
    rfl
  · rw [CmdServer.act_acts, List.filterMap_append]
    exact h.trOn.trans (by simp [CmdAct.trace])

theorem Told.traceControl (h : Told s) {ctl : Byte} (hctl : ¬ ctl > 1) :
    Told { (s.stat .cmdTrace).act (.traceControl ctl) with trOn := ctl } := by
  have h := h.stat (m := .cmdTrace) (by decide) (by decide)
  refine ⟨?_, ?_, ?_, ?_⟩
  · change (s.stat .cmdTrace).sstat .cmdUpdPolicy = _
    rw [h.policy, CmdServer.act_acts, List.count_append]
    rfl
  · change (s.stat .cmdTrace).sstat .cmdDumpReq = _
    rw [h.dump, CmdServer.act_acts, List.countP_append]
    rfl
  · rw [CmdServer.act_acts, List.filterMap_append]
    simp [CmdAct.trace]
  · exact not_lt.mp hctl

theorem Told.udDispatch (h : Told s) (r : UdRequest) : Told (udDispatch t r s).2 := by
  unfold Sasat.udDispatch
  split_ifs with hdump hpol htr hgt
  · exact h.logDump _
  · exact h.updatePolicy
  · exact h.stat (by decide) (by decide)
  · exact h.traceControl hgt
  · exact h.stat (by decide) (by decide)

theorem Told.procUdRequest (h : Told s) (recv : UdRecv) : Told (procUdRequest t recv s).2 := by
  cases recv with
  | error eagain =>
    cases eagain with
    | true => exact h
    | false => exact h.stat (by decide) (by decide)
  | datagram bytes =>
    rw [Sasat.procUdRequest]
    dsimp only
    split_ifs
    · exact h.stat (by decide) (by decide)
    · exact h.stat (by decide) (by decide)
    · exact h.udDispatch _
    · exact h.udDispatch _

theorem Told.turn (h : Told s) (hturn : CmdServer.Turn t s s') : Told s' := by
  cases hturn with
  | hup => exact ⟨h.policy, h.dump, h.trOn, h.on_off⟩
  | error eagain => exact h.procUdRequest _
  | check =>
    have h' : Told { s with sigFlg := false } := ⟨h.policy, h.dump, h.trOn, h.on_off⟩
    unfold procSigCheck
    split_ifs
    · cases t with
      | front => exact h'.updatePolicy
      | back => exact h'.logDump _
    · exact h

end

/-- **The counters are right** in every state of the system, and the trace flag is that of the last
request that was carried out. -/
theorem counters_tell {n : CmdNet A} (h : CmdReach net t n) : Told n.server :=
  h.inv.exec.keeps (fun _ _ hs => hs.procUdRequest _) (fun _ _ hs hstep => hs.turn hstep) .start

/-! ## A sample -/

/-- `sasat -l stat -l pol`. -/
def logsRequest : List Byte := udRequestBytes ⟨udMagicNo, udDumpReq, 17⟩ (0, 0)

/-- Eight zero bytes, which look like a good answer. -/
def forged : List Byte := List.replicate 8 0

/-- Two calls of `sasat -l stat -l pol`. The translator answers the first. A stranger answers the
second, whose request has not been served. -/
theorem sample_calls : ∃ (n : CmdNet Bool) (r : List Byte), CmdReach Rpc.Reliable .front n ∧
    n.phase true = .done logsRequest (some (.server, r)) ∧
      n.phase false = .done logsRequest (some (.stranger, forged)) ∧
        n.server.acts = [.logDump 17] := by
  obtain ⟨r, hr, -, -, -, hacts⟩ := (procUdRequest_spec .front logsRequest .start).1
    (isRequest_bytes _ _ rfl)
  have hserve : (serveDatagram .front .start logsRequest).1 = some r := hr
  have hr₀ : Rpc.Reliable ([] : List (Rpc.Event Bool (List Byte))) := fun p => List.prefix_rfl
  have hr₁ := hr₀.send (.call true) .server logsRequest
  have hr₂ := hr₁.serving (.call true) logsRequest ⟨[], rfl⟩ (some r)
  have hr₃ := hr₂.receive (.call true) .server r ⟨[], rfl⟩
  have hr₄ := hr₃.send (.call false) .server logsRequest
  have hr₅ := hr₄.send .stranger (.call false) forged
  have hr₆ := hr₅.receive (.call false) .stranger forged ⟨[], rfl⟩
  rw [← hserve] at hr₂ hr₃ hr₄ hr₅ hr₆
  have h₁ : CmdReach Rpc.Reliable .front _ := .step (.start hr₀) (.call true logsRequest rfl hr₁)
  have h₂ : CmdReach Rpc.Reliable .front _ := .step h₁ (.serve (.call true) logsRequest hr₂)
  have h₃ : CmdReach Rpc.Reliable .front _ := .step h₂ (.answer (a := true) .server r rfl hr₃)
  have h₄ : CmdReach Rpc.Reliable .front _ := .step h₃ (.call false logsRequest rfl hr₄)
  have h₅ : CmdReach Rpc.Reliable .front _ := .step h₄ (.stray (.call false) forged hr₅)
  have h₆ : CmdReach Rpc.Reliable .front _ :=
    .step h₅ (.answer (a := false) .stranger forged rfl hr₆)
  refine ⟨_, r, h₆, rfl, rfl, hacts.trans ?_⟩
  rw [logsRequest, udRequest_bytes _ _ rfl]
  rfl

theorem counters_tell_logs : ∃ n : CmdNet Bool, CmdReach Rpc.Reliable .front n ∧
    n.server.acts = [.logDump 17] ∧ n.server.sstat .cmdDumpReq = 1 := by
  obtain ⟨n, -, h, -, -, hacts⟩ := sample_calls
  refine ⟨n, h, hacts, (counters_tell h).dump.trans ?_⟩
  rw [hacts]
  rfl

/-! ## Calls -/

/-- **What a call of `sasat` reports is what the translator has done**, if it is the translator that
has answered. However the calls of any number of tools, strangers and signals interleave: requests
are carried out in the order in which they are sent, and that of a call at most once, even if the
call gives up. When the call gets an answer of the translator, its request has been carried out
exactly once, or has been refused, and the tool reports success exactly if the translator has done
what it was asked for. Any other answer has been sent by a stranger, and the tool believes it. -/
theorem call_exactly_once (hnet : Rpc.InOrder net) {n : CmdNet A} (h : CmdReach net t n) {a : A}
    {cmd opt : Byte} {rsv : Byte × Byte} {answer : Option (Rpc.Party A × List Byte)}
    (hdone : n.phase a = .done (udRequestBytes ⟨udMagicNo, cmd, opt⟩ rsv) answer)
    (temp : TempChars) :
    ((n.served.map Rpc.request).Sublist (Rpc.sentTo .server n.history) ∧
      (Rpc.fromCall a (n.served.map Rpc.request)).length ≤ 1) ∧
    (∀ r, answer = some (.server, r) →
      (∃ l₁ l₂ u v,
        n.served = l₁ ++ (.call a, udRequestBytes ⟨udMagicNo, cmd, opt⟩ rsv, some r) :: l₂ ∧
          (∀ y ∈ l₁ ++ l₂, y.1 ≠ .call a) ∧
          Rpc.Exec (serveDatagram t) (CmdServer.Turn t) .start l₁ u ∧
            v.acts = u.acts ++ (asked t ⟨udMagicNo, cmd, opt⟩).toList ∧
              Rpc.Exec (serveDatagram t) (CmdServer.Turn t) v l₂ n.server) ∧
      ((sendCmd (callEnv temp (some r)) cmd opt ⟨udFileTemplate, []⟩).1 = 0 ↔
        (asked t ⟨udMagicNo, cmd, opt⟩).isSome = true)) ∧
    (∀ src r, answer = some (src, r) → src ≠ .server →
      (src = .stranger ∧ .sent .stranger (.call a) r ∈ n.history) ∧
      ((sendCmd (callEnv temp (some r)) cmd opt ⟨udFileTemplate, []⟩).1 = 0 ↔
        8 ≤ r.length ∧ (udResp r).result = 0)) ∧
    (answer = none → (sendCmd (callEnv temp none) cmd opt ⟨udFileTemplate, []⟩).1 ≠ 0) := by
  have hreq := isRequest_bytes ⟨udMagicNo, cmd, opt⟩ rsv rfl
  refine ⟨Rpc.at_most_once hnet h a, ?_, ?_, ?_⟩
  · rintro r rfl
    obtain ⟨l₁, l₂, u, hl, h₁, hr, h₂, hother⟩ := Rpc.exactly_once hnet h hdone
    obtain ⟨reply, hreply, hlen, -, hres, hacts⟩ := (procUdRequest_spec t _ u).1 hreq
    obtain rfl := Option.some.inj (hreply.symm.trans hr)
    rw [udRequest_bytes ⟨udMagicNo, cmd, opt⟩ rsv rfl] at hacts hres
    refine ⟨⟨l₁, l₂, u, _, hl, hother, h₁, hacts, h₂⟩, ?_⟩
    rw [sendCmd_callEnv temp _ cmd opt (by decide)]
    simpa [hlen] using hres
  · rintro src r rfl hsrc
    refine ⟨(Rpc.answer_source hnet h hdone).resolve_left hsrc, ?_⟩
    rw [sendCmd_callEnv temp _ cmd opt (by decide)]
    simp
  · rintro rfl
    rw [Ne, sendCmd_callEnv temp _ cmd opt (by decide)]
    simp

theorem call_exactly_once_logs : ∃ (n : CmdNet Bool) (r : List Byte),
    CmdReach Rpc.Reliable .front n ∧
      n.phase true = .done logsRequest (some (.server, r)) ∧
      n.phase false = .done logsRequest (some (.stranger, forged)) ∧
      n.server.acts = [.logDump 17] ∧
        (sendCmd (callEnv ⟨bytesOf "a1B2c3", by decide, by decide⟩ (some r)) udDumpReq 17
          ⟨udFileTemplate, []⟩).1 = 0 ∧
        (sendCmd (callEnv ⟨bytesOf "a1B2c3", by decide, by decide⟩ (some forged)) udDumpReq 17
          ⟨udFileTemplate, []⟩).1 = 0 := by
  obtain ⟨n, r, h, htrue, hfalse, hacts⟩ := sample_calls
  exact ⟨n, r, h, htrue, hfalse, hacts,
    ((call_exactly_once Rpc.reliable_inOrder h htrue _).2.1 r rfl).2.mpr rfl,
    ((call_exactly_once Rpc.reliable_inOrder h hfalse _).2.2.1 _ _ rfl nofun).2.mpr (by decide)⟩

end Sasat
