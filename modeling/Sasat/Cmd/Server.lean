import Sasat.Cmd.Sasat
import Sasat.Route.Talk

/-!
# The command thread

A translator takes commands from a local socket. At a hangup signal it acts by itself.

* `udRequestBytes`, `udRequest`, `udResp`: requests and answers in the bytes of a datagram.
* `procUdRequest`: `proc_ud_request`, with `udDispatch` for its `switch`.
* `procSigCheck`: `proc_sig_check`; `CmdServer.Turn`: the rest of what the thread does by itself.
* `asked`: what a request asks a translator for.
* **`procUdRequest_spec`**: a request is answered, and what it asks for is done.

Entries in the event log are left out.
-/

namespace Sasat

/-- With `FRONT_T` or with `BACKEND_T`. -/
inductive Translator
  | front | back
  deriving DecidableEq

inductive CmdStat
  | cmdUpdPolicy | cmdDumpReq | cmdTrace | cmdIllegal
  deriving DecidableEq

/-- What the command thread does to the rest of the translator. -/
inductive CmdAct
  | logDump (flag : Byte)
  | updatePolicy
  | traceControl (ctl : Byte)
  deriving DecidableEq

/-- The variables of the command thread, with what it has done. -/
structure CmdServer where
  /-- `ssz_t`, on an LP64 host. -/
  sstat : CmdStat → BitVec 64
  sigFlg : Bool
  trOn : Byte
  acts : List CmdAct

namespace CmdServer

variable (s : CmdServer)

/-- `SASAT_STAT`. -/
def stat (m : CmdStat) : CmdServer :=
  { s with sstat := Function.update s.sstat m (s.sstat m + 1) }

def act (a : CmdAct) : CmdServer := { s with acts := s.acts ++ [a] }

@[simp] theorem stat_acts (m : CmdStat) : (s.stat m).acts = s.acts := rfl

@[simp] theorem stat_trOn (m : CmdStat) : (s.stat m).trOn = s.trOn := rfl

@[simp] theorem stat_sigFlg (m : CmdStat) : (s.stat m).sigFlg = s.sigFlg := rfl

@[simp] theorem stat_self (m : CmdStat) : (s.stat m).sstat m = s.sstat m + 1 :=
  Function.update_self ..

theorem stat_other {m k : CmdStat} (h : k ≠ m) : (s.stat m).sstat k = s.sstat k :=
  Function.update_of_ne h ..

@[simp] theorem act_sstat (a : CmdAct) : (s.act a).sstat = s.sstat := rfl

@[simp] theorem act_acts (a : CmdAct) : (s.act a).acts = s.acts ++ [a] := rfl

end CmdServer

/-! ## Datagrams -/

/-- A `ud_request_t`, with what is in `_rsv`. -/
def udRequestBytes (r : UdRequest) (rsv : Byte × Byte) : List Byte :=
  List.ofFn (bytes32 (BitVec.ofInt 32 r.magicNo)) ++ [r.reqId, r.reqData, rsv.1, rsv.2]

/-- A buffer as a `ud_request_t`. -/
def udRequest (buf : List Byte) : UdRequest :=
  ⟨(le32 fun i => buf.getD i 0).toInt, buf.getD 4 0, buf.getD 5 0⟩

/-- A buffer as a `ud_resp_t`. -/
def udResp (buf : List Byte) : UdResp :=
  ⟨(le32 fun i => buf.getD i 0).toInt, buf.getD 4 0, buf.getD 5 0, buf.getD 6 0, buf.getD 7 0⟩

@[simp] theorem length_udRequestBytes (r : UdRequest) (rsv : Byte × Byte) :
    (udRequestBytes r rsv).length = 8 := by simp [udRequestBytes]

theorem udResp_set {buf : List Byte} {result rCode : Byte} (h : 6 < buf.length) :
    (udResp ((buf.set 6 result).set 7 rCode)).result = result := by
  change ((buf.set 6 result).set 7 rCode).getD 6 0 = result
  rw [List.getD_eq_getElem?_getD, List.getElem?_set_ne (by omega), List.getElem?_set_self h]
  rfl

/-- **The translator reads the request that the tool writes.** -/
theorem udRequest_bytes (r : UdRequest) (rsv : Byte × Byte) (h : r.magicNo = udMagicNo) :
    udRequest (udRequestBytes r rsv) = r := by
  have hle : (le32 fun i => (udRequestBytes r rsv).getD i 0) = BitVec.ofInt 32 r.magicNo := by
    refine (congrArg le32 (funext fun i => ?_)).trans (le32_bytes32 _)
    rw [udRequestBytes, List.getD_eq_getElem?_getD, List.getElem?_append_left (by simp),
      List.getElem?_ofFn, dif_pos i.isLt]
    rfl
  have h4 : ∀ j, (udRequestBytes r rsv).getD (4 + j) 0 =
      ([r.reqId, r.reqData, rsv.1, rsv.2] : List Byte).getD j 0 := fun j => by
    rw [udRequestBytes, List.getD_eq_getElem?_getD, List.getElem?_append_right (by simp),
      List.length_ofFn, Nat.add_sub_cancel_left, List.getD_eq_getElem?_getD]
  rw [udRequest, hle, h, h4 0, h4 1]
  cases r
  cases h
  rfl

/-! ## Requests -/

/-- `NET_REQ_OK` and `NET_REQ_NG`, as they are stored. -/
def netReqOk : Byte := 0

def netReqNg : Byte := BitVec.ofInt 8 (-1)

/-- What `recvfrom` does: a datagram comes, or an error, which may be `EAGAIN`. -/
inductive UdRecv
  | datagram (bytes : List Byte)
  | error (eagain : Bool)

/-- The `switch` of `proc_ud_request`, with the reason code. -/
def udDispatch (t : Translator) (r : UdRequest) (s : CmdServer) : Byte × CmdServer :=
  if r.reqId = udDumpReq then (0, (s.stat .cmdDumpReq).act (.logDump r.reqData))
  else if t = .front ∧ r.reqId = udPolicyUpd then (0, (s.stat .cmdUpdPolicy).act .updatePolicy)
  else if r.reqId = udEvtr then
    if r.reqData > 1 then (2, s.stat .cmdTrace)
    else (0, { (s.stat .cmdTrace).act (.traceControl r.reqData) with trOn := r.reqData })
  else (1, s.stat .cmdIllegal)

/-- `proc_ud_request`, with the answer that it sends back. The buffer takes 16 bytes. -/
def procUdRequest (t : Translator) (recv : UdRecv) (s : CmdServer) :
    Option (List Byte) × CmdServer :=
  match recv with
  | .error true => (none, s)
  | .error false => (none, s.stat .cmdIllegal)
  | .datagram bytes =>
    let buf := bytes.take 16
    if (buf.length : ℤ) ≠ udRequestSize then (none, s.stat .cmdIllegal)
    else if (udRequest buf).magicNo ≠ udMagicNo then (none, s.stat .cmdIllegal)
    else
      let (rCode, s) := udDispatch t (udRequest buf) s
      let result := if rCode = 0 then netReqOk else netReqNg
      (some ((buf.set 6 result).set 7 rCode), s)

/-- `proc_sig_check`. -/
def procSigCheck (t : Translator) (s : CmdServer) : CmdServer :=
  if s.sigFlg then
    let s := { s with sigFlg := false }
    match t with
    | .front => (s.stat .cmdUpdPolicy).act .updatePolicy
    | .back => (s.stat .cmdDumpReq).act (.logDump 0xff)
  else s

/-- What happens to the command thread other than requests: a signal sets the flag, `select` returns
without a request, `recvfrom` fails. -/
inductive CmdServer.Turn (t : Translator) (s : CmdServer) : CmdServer → Prop
  | hup : Turn t s { s with sigFlg := true }
  | check : Turn t s (procSigCheck t s)
  | error (eagain : Bool) : Turn t s (procUdRequest t (.error eagain) s).2

/-! ## What a request asks for -/

/-- What a request asks the translator for, if it makes sense to it. -/
def asked (t : Translator) (r : UdRequest) : Option CmdAct :=
  if r.reqId = udDumpReq then some (.logDump r.reqData)
  else if r.reqId = udPolicyUpd ∧ t = .front then some .updatePolicy
  else if r.reqId = udEvtr ∧ r.reqData.toNat ≤ 1 then some (.traceControl r.reqData)
  else none

/-- The datagram is a request. -/
def IsRequest (bytes : List Byte) : Prop :=
  bytes.length = 8 ∧ (udRequest bytes).magicNo = udMagicNo

instance : DecidablePred IsRequest := fun _ => inferInstanceAs (Decidable (_ ∧ _))

/-- **The `switch` does what is asked for**, and nothing else. -/
theorem udDispatch_spec (t : Translator) (r : UdRequest) (s : CmdServer) :
    ((udDispatch t r s).1 = 0 ↔ (asked t r).isSome = true) ∧
      (udDispatch t r s).2.acts = s.acts ++ (asked t r).toList := by
  unfold udDispatch asked
  by_cases hdump : r.reqId = udDumpReq
  · simp [hdump]
  by_cases hpol : t = .front ∧ r.reqId = udPolicyUpd
  · simp [hpol, show ¬ udPolicyUpd = udDumpReq by decide]
  by_cases htr : r.reqId = udEvtr
  · have hgt : r.reqData > 1 ↔ ¬ r.reqData.toNat ≤ 1 := by
      rw [gt_iff_lt, BitVec.lt_def, not_le]
      rfl
    rw [if_neg hdump, if_neg hpol, if_pos htr, if_neg hdump, if_neg (mt And.symm hpol)]
    by_cases hle : r.reqData.toNat ≤ 1
    · rw [if_neg (fun h => hgt.mp h hle), if_pos ⟨htr, hle⟩]
      simp
    · rw [if_pos (hgt.mpr hle), if_neg fun h => hle h.2]
      simp
  · rw [if_neg hdump, if_neg hpol, if_neg htr, if_neg hdump, if_neg (mt And.symm hpol),
      if_neg fun h => htr h.1]
    simp

/-- **A request is answered**: the answer says whether the translator has done what it asks for, and
repeats it. Nothing is done for another datagram, and it is not answered. -/
theorem procUdRequest_spec (t : Translator) (bytes : List Byte) (s : CmdServer) :
    (IsRequest bytes → ∃ reply, (procUdRequest t (.datagram bytes) s).1 = some reply ∧
      reply.length = 8 ∧ reply.take 6 = bytes.take 6 ∧
        ((udResp reply).result = 0 ↔ (asked t (udRequest bytes)).isSome = true) ∧
          (procUdRequest t (.datagram bytes) s).2.acts =
            s.acts ++ (asked t (udRequest bytes)).toList) ∧
    (¬ IsRequest bytes → (procUdRequest t (.datagram bytes) s).1 = none ∧
      (procUdRequest t (.datagram bytes) s).2.acts = s.acts) := by
  have hlen : (((bytes.take 16).length : ℤ) ≠ udRequestSize) ↔ bytes.length ≠ 8 := by
    rw [List.length_take, udRequestSize]
    omega
  rw [procUdRequest]
  dsimp only
  by_cases hl : bytes.length = 8
  · rw [if_neg (by rw [hlen]; exact not_not.mpr hl), List.take_of_length_le (by omega)]
    by_cases hm : (udRequest bytes).magicNo = udMagicNo
    · rw [if_neg (not_not.mpr hm)]
      obtain ⟨hok, hacts⟩ := udDispatch_spec t (udRequest bytes) s
      refine ⟨fun _ => ⟨_, rfl, by simp [hl], ?_, ?_, hacts⟩, fun h => absurd ⟨hl, hm⟩ h⟩
      · rw [List.take_set_of_le (by omega), List.take_set_of_le (by omega)]
      · rw [← hok, udResp_set (by omega)]
        split_ifs with h0
        · exact iff_of_true rfl h0
        · exact iff_of_false (by decide) h0
    · rw [if_pos hm]
      exact ⟨fun h => absurd h.2 hm, fun _ => ⟨rfl, rfl⟩⟩
  · rw [if_pos (hlen.mpr hl)]
    exact ⟨fun h => absurd h.1 hl, fun _ => ⟨rfl, rfl⟩⟩

end Sasat
