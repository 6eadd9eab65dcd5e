import Mathlib.Logic.Relation
import Sasat.Cmd.Server

/-!
# Hangup signals

The handler of `SIGHUP` interrupts the command thread between any two of its steps. While it runs,
another signal is kept until it returns, or is dropped.

* `HandlerPc`, `CheckPc`, `SigState`: where the handler and `proc_sig_check` are.
* `SigStep`: one step of the handler or of the command thread, or a signal.
* `SigInv`: the invariant; **`SigStep.inv`**: the steps keep it.
* `Due`: what a step does when an action is due; **`SigStep.due`**, **`flag_kept`**: nothing puts
  the action off but requests, and nothing makes the thread forget it.
* **`hup_not_lost`**: the translator acts after every signal, and only after signals.
-/

namespace Sasat

/-- `ssat_handler_hup`: it is not running; it has been called; it ignores the signal; it has set the
flag. -/
inductive HandlerPc
  | idle | entered | ignoring | set
  deriving DecidableEq

/-- `proc_sig_check`: it is not running; it has found the flag set; it has cleared the flag. -/
inductive CheckPc
  | loop | clear | act
  deriving DecidableEq

/-- The command thread with its signal handler. -/
structure SigState where
  srv : CmdServer
  handler : HandlerPc
  pc : CheckPc
  /-- a signal waits for the handler to return -/
  pending : Bool
  /-- the signals that have been sent -/
  hups : ℕ
  /-- the actions of `proc_sig_check` that have begun -/
  begun : ℕ
  /-- a signal has been sent since the last of them began -/
  owed : Bool

/-- The action of `proc_sig_check`. -/
def sigAct : Translator → CmdServer → CmdServer
  | .front, s => (s.stat .cmdUpdPolicy).act .updatePolicy
  | .back, s => (s.stat .cmdDumpReq).act (.logDump 0xff)

theorem procSigCheck_eq (t : Translator) (s : CmdServer) :
    procSigCheck t s = if s.sigFlg then sigAct t { s with sigFlg := false } else s := by
  cases t <;> rfl

def SigState.Free (s : SigState) : Prop := s.handler = .idle ∧ s.pending = false

def SigState.start : SigState := ⟨⟨fun _ => 0, false, 1, []⟩, .idle, .loop, false, 0, 0, false⟩

inductive SigStep (t : Translator) : SigState → SigState → Prop
  | hup {s : SigState} : s.handler = .idle →
      SigStep t s { s with handler := .entered, hups := s.hups + 1, owed := true }
  | hupAgain {s : SigState} (kept : Bool) : s.handler ≠ .idle →
      SigStep t s { s with pending := s.pending || kept, hups := s.hups + 1, owed := true }
  | ignore {s : SigState} : s.handler = .entered →
      SigStep t s { s with handler := .ignoring, pending := false }
  | setFlg {s : SigState} : s.handler = .ignoring →
      SigStep t s { s with handler := .set, srv := { s.srv with sigFlg := true } }
  | install {s : SigState} : s.handler = .set → SigStep t s { s with handler := .idle }
  | again {s : SigState} : s.handler = .idle → s.pending = true →
      SigStep t s { s with handler := .entered, pending := false }
  | request {s : SigState} (recv : UdRecv) : s.Free → s.pc = .loop →
      SigStep t s { s with srv := (procUdRequest t recv s.srv).2 }
  | test {s : SigState} : s.Free → s.pc = .loop → s.srv.sigFlg = true →
      SigStep t s { s with pc := .clear }
  | clear {s : SigState} : s.Free → s.pc = .clear →
      SigStep t s { s with pc := .act, srv := { s.srv with sigFlg := false } }
  | act {s : SigState} : s.Free → s.pc = .act →
      SigStep t s { s with pc := .loop, srv := sigAct t s.srv, begun := s.begun + 1, owed := false }

inductive SigReach (t : Translator) : SigState → Prop
  | start : SigReach t .start
  | step {s s' : SigState} : SigReach t s → SigStep t s s' → SigReach t s'

/-- The handler has still to set the flag. -/
def HandlerPc.coming : HandlerPc → Bool
  | .entered | .ignoring => true
  | _ => false

structure SigInv (s : SigState) : Prop where
  /-- an action that is owed is on its way -/
  owed : s.owed = true → s.srv.sigFlg = true ∨ s.pc = .act ∨ s.handler.coming = true
  clear : s.pc = .clear → s.srv.sigFlg = true
  set : s.handler = .set → s.srv.sigFlg = true
  /-- every action that has begun, or is on its way, has a signal of its own -/
  count : s.begun + (decide (s.pc = .act)).toNat + s.srv.sigFlg.toNat + s.handler.coming.toNat +
    s.pending.toNat ≤ s.hups

theorem SigInv.start : SigInv .start := by
  refine ⟨fun h => ?_, fun h => ?_, fun h => ?_, le_rfl⟩ <;> cases h

theorem procUdRequest_sigFlg (t : Translator) (recv : UdRecv) (s : CmdServer) :
    (procUdRequest t recv s).2.sigFlg = s.sigFlg := by
  have hdispatch : ∀ r, (udDispatch t r s).2.sigFlg = s.sigFlg := fun r => by
    unfold udDispatch
    split_ifs <;> rfl
  rcases recv with bytes | _ | _
  · rw [procUdRequest]
    dsimp only
    split_ifs
    · rfl
    · rfl
    · exact hdispatch _
    · exact hdispatch _
  · rfl
  · rfl

theorem sigAct_sigFlg (t : Translator) (s : CmdServer) : (sigAct t s).sigFlg = s.sigFlg := by
  cases t <;> rfl

/-- **The steps keep the invariant.** -/
theorem SigStep.inv {t : Translator} {s s' : SigState} (hstep : SigStep t s s') (h : SigInv s) :
    SigInv s' := by
  obtain ⟨howed, hclear, hset, hcount⟩ := h
  cases hstep with
  | hup hidle =>
    rw [hidle] at hcount
    refine ⟨fun _ => .inr (.inr rfl), hclear, nofun, ?_⟩
    simp only [HandlerPc.coming, Bool.toNat_true, Bool.toNat_false] at hcount ⊢
    omega
  | hupAgain kept hne =>
    refine ⟨fun _ => ?_, hclear, hset, ?_⟩
    · cases hpc : s.handler with
      | idle => exact absurd hpc hne
      | set => exact .inl (hset hpc)
      | entered => exact .inr (.inr rfl)
      | ignoring => exact .inr (.inr rfl)
    · have hle : (s.pending || kept).toNat ≤ s.pending.toNat + 1 := by
        cases s.pending <;> cases kept <;> decide
      dsimp only
      omega
  | ignore hpc =>
    rw [hpc] at hcount
    refine ⟨fun _ => .inr (.inr rfl), hclear, nofun, ?_⟩
    simp only [HandlerPc.coming, Bool.toNat_true, Bool.toNat_false] at hcount ⊢
    omega
  | setFlg hpc =>
    rw [hpc] at hcount
    refine ⟨fun _ => .inl rfl, fun _ => rfl, fun _ => rfl, ?_⟩
    simp only [HandlerPc.coming, Bool.toNat_true, Bool.toNat_false] at hcount ⊢
    omega
  | install hpc =>
    rw [hpc] at howed hcount
    exact ⟨howed, hclear, nofun, hcount⟩
  | again hpc hp =>
    rw [hpc, hp] at hcount
    refine ⟨fun _ => .inr (.inr rfl), hclear, nofun, ?_⟩
    simp only [HandlerPc.coming, Bool.toNat_true, Bool.toNat_false] at hcount ⊢
    omega
  | request recv hfree hpc =>
    rw [← procUdRequest_sigFlg t recv] at howed hclear hset hcount
    exact ⟨howed, hclear, hset, hcount⟩
  | test hfree hpc hflg =>
    rw [hpc] at hcount
    exact ⟨fun _ => .inl hflg, fun _ => hflg, hset, hcount⟩
  | clear hfree hpc =>
    rw [hclear hpc, hpc] at hcount
    refine ⟨fun _ => .inr (.inl rfl), nofun, fun h => ?_, hcount⟩
    rw [hfree.1] at h
    cases h
  | act hfree hpc =>
    refine ⟨nofun, nofun, fun h => ?_, ?_⟩
    · rw [hfree.1] at h
      cases h
    · dsimp only
      rw [hpc] at hcount
      rw [sigAct_sigFlg]
      simp only [decide_true, Bool.toNat_true, reduceCtorEq, decide_false, Bool.toNat_false]
        at hcount ⊢
      omega

theorem SigReach.inv {t : Translator} {s : SigState} (h : SigReach t s) : SigInv s := by
  induction h with
  | start => exact .start
  | step _ hstep ih => exact hstep.inv ih

/-- What a step does when an action is due. A request that is waiting is served first; once
`proc_sig_check` has found the flag set, it goes on to the action. -/
structure Due (t : Translator) (s s' : SigState) : Prop where
  loop : s.pc = .loop → s.srv.sigFlg = true → s'.srv.sigFlg = true ∧
    (s'.pc = .clear ∨ (s'.pc = .loop ∧
      (s'.srv = s.srv ∨ ∃ recv, s'.srv = (procUdRequest t recv s.srv).2)))
  clear : s.pc = .clear → s'.begun = s.begun ∧ (s'.pc = .clear ∨ s'.pc = .act)
  act : s.pc = .act → (s'.begun = s.begun ∧ s'.pc = .act) ∨
    (s'.begun = s.begun + 1 ∧ s'.pc = .loop ∧ s'.srv = sigAct t s.srv ∧ s'.owed = false)

theorem Due.handler {t : Translator} {s s' : SigState} (hpc : s'.pc = s.pc)
    (hbegun : s'.begun = s.begun)
    (hsrv : s'.srv = s.srv ∨ s'.srv = { s.srv with sigFlg := true }) : Due t s s' := by
  refine ⟨fun hloop hflg => ?_, fun hclear => ⟨hbegun, Or.inl (hpc.trans hclear)⟩,
    fun hact => Or.inl ⟨hbegun, hpc.trans hact⟩⟩
  have hsame : s'.srv = s.srv := by
    rcases hsrv with hsrv | hsrv
    · exact hsrv
    · rw [hsrv, ← hflg]
  exact ⟨hsame ▸ hflg, Or.inr ⟨hpc.trans hloop, Or.inl hsame⟩⟩

/-- **Every step brings an action that is due nearer**, or leaves it due. -/
theorem SigStep.due {t : Translator} {s s' : SigState} (hstep : SigStep t s s') : Due t s s' := by
  cases hstep with
  | hup => exact .handler rfl rfl (Or.inl rfl)
  | hupAgain => exact .handler rfl rfl (Or.inl rfl)
  | ignore => exact .handler rfl rfl (Or.inl rfl)
  | setFlg => exact .handler rfl rfl (Or.inr rfl)
  | install => exact .handler rfl rfl (Or.inl rfl)
  | again => exact .handler rfl rfl (Or.inl rfl)
  | request recv _ hpc =>
    refine ⟨fun _ hflg => ⟨(procUdRequest_sigFlg t recv _).trans hflg, Or.inr ⟨hpc, Or.inr
      ⟨recv, rfl⟩⟩⟩, fun h => ?_, fun h => ?_⟩
    · rw [hpc] at h
      cases h
    · rw [hpc] at h
      cases h
  | test _ hpc hflg =>
    refine ⟨fun _ _ => ⟨hflg, Or.inl rfl⟩, fun h => ?_, fun h => ?_⟩
    · rw [hpc] at h
      cases h
    · rw [hpc] at h
      cases h
  | clear _ hpc =>
    refine ⟨fun h => ?_, fun _ => ⟨rfl, Or.inr rfl⟩, fun h => ?_⟩
    · rw [hpc] at h
      cases h
    · rw [hpc] at h
      cases h
  | act _ hpc =>
    refine ⟨fun h => ?_, fun h => ?_, fun _ => Or.inr ⟨rfl, rfl, rfl, rfl⟩⟩
    · rw [hpc] at h
      cases h
    · rw [hpc] at h
      cases h

theorem SigStep.begun_le {t : Translator} {s s' : SigState} (hstep : SigStep t s s') :
    s.begun ≤ s'.begun := by
  cases hstep with
  | act => exact Nat.le_succ _
  | _ => exact le_rfl

/-- **The flag is forgotten by no run**: it stays set, or the action is on its way, until an action
begins. -/
theorem flag_kept {t : Translator} {s s' : SigState} (hrun : Relation.ReflTransGen (SigStep t) s s')
    (hinv : SigInv s) (hflg : s.srv.sigFlg = true) :
    s'.srv.sigFlg = true ∨ s'.pc = .act ∨ s.begun < s'.begun := by
  have hkeep : SigInv s' ∧ s.begun ≤ s'.begun ∧
      (s'.srv.sigFlg = true ∨ s'.pc = .act ∨ s.begun < s'.begun) := by
    induction hrun with
    | refl => exact ⟨hinv, le_rfl, Or.inl hflg⟩
    | @tail u v _ hstep ih =>
      obtain ⟨hu, hle, hdue⟩ := ih
      have hle' := hstep.begun_le
      refine ⟨hstep.inv hu, hle.trans hle', ?_⟩
      rcases hdue with hset | hact | hlt
      · cases hpc : u.pc with
        | loop => exact Or.inl (hstep.due.loop hpc hset).1
        | clear =>
          rcases (hstep.due.clear hpc).2 with hclear | hact
          · exact Or.inl ((hstep.inv hu).clear hclear)
          · exact Or.inr (Or.inl hact)
        | act =>
          rcases hstep.due.act hpc with ⟨-, hact⟩ | ⟨hbegun, -⟩
          · exact Or.inr (Or.inl hact)
          · exact Or.inr (Or.inr (by omega))
      · rcases hstep.due.act hact with ⟨-, hact⟩ | ⟨hbegun, -⟩
        · exact Or.inr (Or.inl hact)
        · exact Or.inr (Or.inr (by omega))
      · exact Or.inr (Or.inr (hlt.trans_le hle'))
  exact hkeep.2.2

/-- **No signal is lost, and the translator never acts without one.** Whatever happens to a signal
that comes while the handler runs: every action has a signal of its own, and when the command thread
finds the flag clear, an action has begun after the last signal. From a state with the flag set, no
run clears it without beginning an action, every step serves a request or brings the action nearer,
and three steps of the thread lead to it. -/
theorem hup_not_lost {t : Translator} {s : SigState} (h : SigReach t s) :
    s.begun ≤ s.hups ∧ (s.Free → s.pc = .loop → s.srv.sigFlg = false → s.owed = false) ∧
      (s.srv.sigFlg = true → ∀ s', Relation.ReflTransGen (SigStep t) s s' →
        s'.srv.sigFlg = true ∨ s'.pc = .act ∨ s.begun < s'.begun) ∧
      (∀ s', SigStep t s s' → Due t s s') ∧
      (s.Free → s.pc = .loop → s.srv.sigFlg = true → ∃ s₁ s₂ s₃, SigStep t s s₁ ∧
        SigStep t s₁ s₂ ∧ SigStep t s₂ s₃ ∧ s₃.srv = procSigCheck t s.srv ∧ s₃.owed = false) := by
  obtain ⟨howed, -, -, hcount⟩ := h.inv
  refine ⟨by omega, fun hfree hpc hflg => ?_, fun hflg s' hrun => flag_kept hrun h.inv hflg,
    fun s' hstep => hstep.due, fun hfree hpc hflg => ?_⟩
  · rw [hfree.1, hpc, hflg] at howed
    exact Bool.eq_false_iff.mpr fun h => by simpa [HandlerPc.coming] using howed h
  · refine ⟨_, _, _, .test hfree hpc hflg, .clear hfree rfl, .act hfree rfl, ?_, rfl⟩
    rw [procSigCheck_eq, if_pos hflg]

/-- A backend takes a request after a signal, and then writes its logs. -/
theorem hup_not_lost_back : ∃ s₀ s s₁ s₂, SigReach .back s₀ ∧
    SigStep .back s₀ s ∧ Due .back s₀ s ∧
      (s.srv.sigFlg = true ∨ s.pc = .act ∨ s₀.begun < s.begun) ∧
        SigReach .back s₁ ∧ SigStep .back s₁ s₂ ∧ s₂.srv.acts = [.logDump 0xff] ∧
          s₂.owed = false := by
  obtain ⟨s₀, h₀, hfree, hpc, hflg, hacts⟩ : ∃ s₀, SigReach .back s₀ ∧ s₀.Free ∧ s₀.pc = .loop ∧
      s₀.srv.sigFlg = true ∧ s₀.srv.acts = [] :=
    ⟨_, .step (.step (.step (.step .start (.hup rfl)) (.ignore rfl)) (.setFlg rfl)) (.install rfl),
      ⟨rfl, rfl⟩, rfl, rfl, rfl⟩
  have hreq : SigStep .back s₀ _ := .request (.datagram []) hfree hpc
  obtain ⟨-, -, hrun, hdue, -⟩ := hup_not_lost h₀
  have hflg' := (procUdRequest_sigFlg .back (.datagram []) s₀.srv).trans hflg
  obtain ⟨s₁, s₂, s₃, h₁, h₂, h₃, hsrv, howed⟩ :=
    (hup_not_lost (h₀.step hreq)).2.2.2.2 hfree hpc hflg'
  refine ⟨s₀, _, s₂, s₃, h₀, hreq, hdue _ hreq, hrun hflg _ (.single hreq),
    .step (.step (.step h₀ hreq) h₁) h₂, h₃, ?_, howed⟩
  have hnone := ((procUdRequest_spec .back [] s₀.srv).2 (by decide)).2
  rw [hsrv, procSigCheck_eq, if_pos hflg']
  change (procUdRequest .back (.datagram []) s₀.srv).2.acts ++ [CmdAct.logDump 0xff] = _
  rw [hnone, hacts]
  rfl

end Sasat
