import Sasat.Front.Reload
import Sasat.Front.Flow

/-!
# Reloading under traffic

The main thread loads policy files while packets arrive. The packet thread is stopped for that, at
any point of its work, and the tables are torn down and built again in several steps.

* `Session`: any interleaving of the two threads, with the policy file that has been loaded last;
  **`Run.session`**: every interleaving is one.
* `LoadedAt`: the rules of the tables, by the place where the main thread is; **`Session.loaded`**.
* **`reload_atomic`**: a packet that is forwarded goes to the server of the abstract dispatcher on
  the file that has been loaded last.
-/

namespace Sasat

open Outcome

section

variable {w : ℕ} {σ σ' : Sys w} {outs : List (Created w)}
  {files : List (PolicyLine 4) × List (PolicyLine 16)}

/-- An interleaving of the two threads, with the lines that `get_policy` has loaded last. -/
inductive Session : List (PolicyLine 4) × List (PolicyLine 16) → List (Created w) → Sys w → Prop
  | boot (mem : Shared) (tid : BitVec w) : Session ([], []) [] (boot mem tid)
  | load {files : List (PolicyLine 4) × List (PolicyLine 16)} {outs : List (Created w)} {σ : Sys w}
      (c : Caller) (lines4 : List (PolicyLine 4)) (lines6 : List (PolicyLine 16))
      (lb4 : PolSide 4 (BitVec 16)) (lb6 : PolSide 16 Unit) : Session files outs σ →
      σ.main = .getPolicy c → getPolicy lines4 σ.data.lb4 = .ok lb4 →
      getPolicy lines6 σ.data.lb6 = .ok lb6 → Session (lines4, lines6) outs
        { σ with main := .pthreadCreate c, data.lb4 := lb4, data.lb6 := lb6 }
  | main {files : List (PolicyLine 4) × List (PolicyLine 16)} {outs : List (Created w)}
      {σ σ' : Sys w} {l : Option (Created w)} : Session files outs σ → MainStep σ l σ' →
      (∀ c, σ.main ≠ .getPolicy c) → Session files (l.toList ++ outs) σ'
  | net {files : List (PolicyLine 4) × List (PolicyLine 16)} {outs : List (Created w)}
      {σ σ' : Sys w} (tid : BitVec w) : Session files outs σ → NetStep tid σ σ' →
      Session files outs σ'

theorem Session.run (h : Session files outs σ) : Run outs σ := by
  induction h with
  | boot mem tid => exact .boot mem tid
  | load c lines4 lines6 lb4 lb6 _ hm h4 h6 ih =>
    exact ih.main (.getPolicy c lines4 lines6 lb4 lb6 hm h4 h6)
  | main _ hs _ ih => exact ih.main hs
  | net tid _ hs ih => exact ih.net tid hs

/-- **Every interleaving** of the two threads has loaded some file last. -/
theorem Run.session (h : Run outs σ) : ∃ files, Session files outs σ := by
  induction h with
  | boot mem tid => exact ⟨_, .boot mem tid⟩
  | @main outs σ σ' l _ hs ih =>
    obtain ⟨files, ih⟩ := ih
    by_cases hm : ∃ c, σ.main = .getPolicy c
    · obtain ⟨c, hm⟩ := hm
      cases hs with
      | getPolicy c lines4 lines6 lb4 lb6 hm h4 h6 =>
        exact ⟨_, .load c lines4 lines6 lb4 lb6 ih hm h4 h6⟩
      | _ => simp_all
    · exact ⟨_, ih.main hs fun c hc => hm ⟨c, hc⟩⟩
  | net tid _ hs ih =>
    obtain ⟨files, ih⟩ := ih
    exact ⟨_, ih.net tid hs⟩

/-- The rules of the tables: between `get_policy` and the next `destroy_policy_table` they are the
lines that have been loaded last. -/
def LoadedAt (files : List (PolicyLine 4) × List (PolicyLine 16)) (s : FrontState) :
    MainPc w → Prop
  | .initSvrMngTable _ | .initPolicyTable _ | .getInterfaceInfo _ | .getPolicy _
  | .destroyPolicyTable | .destroySvrTbl => True
  | _ => Loaded files.1 files.2 s

theorem Loaded.handled {lines4 : List (PolicyLine 4)} {lines6 : List (PolicyLine 16)}
    {s s' : FrontState} (h : Loaded lines4 lines6 s) (hs : FrontInv s) (hh : Handled s s') :
    Loaded lines4 lines6 s' := by
  obtain ⟨L4, h4⟩ := hs.side4
  obtain ⟨L6, h6⟩ := hs.side6
  exact ⟨(hh.ext4.rules h4.live).trans h.rules4, (hh.ext6.rules h6.live).trans h.rules6⟩

theorem ThreadStep.loaded {lines4 : List (PolicyLine 4)} {lines6 : List (PolicyLine 16)}
    {θ θ' : NetThread} {s s' : Shared} (h : ThreadStep θ s θ' s') (hd : FrontInv s.data)
    (hl : Loaded lines4 lines6 s.data) : Loaded lines4 lines6 s'.data := by
  cases h with
  | handle c s i lim o tsc b b' len d hrun =>
    exact hl.handled hd ((frontIngress1_handled hd ..).of_ok hrun)
  | handleCancel s i d hint => exact hl.handled hd (hint.handled hd)
  | patrol c s tv d hrun => exact hl.handled hd (procPatrol_handled hd hrun)
  | _ => exact ⟨hl.rules4, hl.rules6⟩

theorem LoadedAt.main {l : Option (Created w)} (h : LoadedAt files σ.data σ.main)
    (hs : MainStep σ l σ') (hm : ∀ c, σ.main ≠ .getPolicy c) :
    LoadedAt files σ'.data σ'.main := by
  cases hs with
  | initSvrMngTable | initPolicyTable | getInterfaceInfo | stopped | destroyPolicyTable
  | destroySvrTbl => exact trivial
  | getPolicy c _ _ _ _ hc => exact absurd hc (hm c)
  | createError c hc | initError c _ hc =>
    rw [hc] at h
    cases c <;> exact h
  | exit hc => exact h
  | create _ _ hc | initDone _ _ hc | storeTid _ hc | storeInt _ hc | storeZero _ hc
  | updatePolicy hc | clearCancelEnd hc | pthreadCancel hc =>
    rw [hc] at h
    exact h

theorem PhaseAt.loadedAt {t : BitVec w} {pc : MainPc w} (h : PhaseAt outs σ pc)
    (ht : (σ.net t).pc ≠ .dead) (d : FrontState) :
    LoadedAt files d pc ↔ Loaded files.1 files.2 d := by
  cases pc with
  | waitInit | storeTid | commandProc | clearCancelEnd | pthreadCancel | waitStop | exit
  | pthreadCreate => exact Iff.rfl
  | _ => exact absurd (h.2 t) ht

/-- **The rules of the tables in every interleaving.** -/
theorem Session.loaded (h : Session files outs σ) : LoadedAt files σ.data σ.main := by
  induction h with
  | boot mem tid => trivial
  | @load files outs σ c lines4 lines6 lb4 lb6 hprev hm h4 h6 ih =>
    have hd := (run_inv hprev.run).2
    rw [hm] at hd
    obtain ⟨m, a, m', b, ha, hb⟩ := hd
    obtain ⟨s4, -, hrun4, -, hr4⟩ := initLoad_spec (family4 σ.data.ifIngress.vip4) m lines4 a
    obtain ⟨s6, -, hrun6, -, hr6⟩ := initLoad_spec family6 m' lines6 b
    rw [ha, hrun4, Except.ok.injEq] at h4
    rw [hb, hrun6, Except.ok.injEq] at h6
    subst h4 h6
    exact ⟨hr4, hr6⟩
  | main _ hs hm ih => exact ih.main hs hm
  | @net files outs σ σ' tid hprev hs ih =>
    obtain ⟨θ, s, hstep⟩ := hs
    obtain ⟨hphase, hdata⟩ := run_inv hprev.run
    have hinv := (hphase.built hstep.alive _).mp hdata
    exact (hphase.loadedAt hstep.alive _).mpr
      (hstep.loaded hinv ((hphase.loadedAt hstep.alive _).mp ih))

/-- **A reload is atomic for the packets.** However reloads and the packet thread interleave,
cancellations in the middle of its work included: a packet that is forwarded goes to the server of
the abstract dispatcher on the policy file that has been loaded last, never by a part of a table. -/
theorem reload_atomic (h : Session files outs σ) {t : BitVec w} {i : ℕ}
    (ht : (σ.net t).pc = .handle i) {lim len : ℕ} {o : ℕ → MacOutcomes} {tsc : BitVec 64}
    {b b' : Buf} {d : FrontState} {x : Tx}
    (hrun : frontIngress1 lim o tsc b len σ.data = .ok (b', d))
    (htx : d.io.tx = σ.data.io.tx ++ [x]) :
    (x.sender = .procV4 → dispatch files.1 (ipSrc b) = some (ipDst (recvBuf x.bytes))) ∧
      (x.sender = .procV6 → dispatch files.2 (ip6Src b) = some (ip6Dst (recvBuf x.bytes))) := by
  have halive : (σ.net t).pc ≠ .dead := by
    rw [ht]
    exact NetPc.noConfusion
  obtain ⟨hphase, hdata⟩ := run_inv h.run
  have hs := (hphase.built halive _).mp hdata
  have hh := (frontIngress1_handled hs lim o tsc b len).of_ok hrun
  have hl := ((hphase.loadedAt halive _).mp h.loaded).handled hs hh
  have hsent := ((frontIngress1_chosen hs lim).of_ok hrun).of_eq htx
  obtain ⟨L4, h4⟩ := hh.inv.side4
  obtain ⟨L6, h6⟩ := hh.inv.side6
  exact ⟨fun hx => (hsent.v4 hx).dispatch h4.live hl.rules4,
    fun hx => (hsent.v6 hx).dispatch h6.live hl.rules6⟩

theorem Session.thread {t : BitVec w} {θ θ' : NetThread} {s : Shared} (h : Session files outs σ)
    (hθ : σ.net t = θ) (hs : ThreadStep θ σ.toShared θ' s) : ∃ σ', Session files outs σ' ∧
      σ'.net t = θ' ∧ σ'.toShared = s := by
  subst hθ
  exact ⟨_, h.net t ⟨θ', s, hs⟩, Function.update_self _ _ _, rfl⟩

end

theorem sample_session : ∃ σ : Sys 64, Session ([sampleLine], []) [] σ ∧
    (σ.net 5).pc = .handle 0 ∧ σ.data.vip4 = ![10, 0, 0, 1] ∧
      σ.data.ifIngress.mac = ![2, 0, 0, 0, 0, 1] ∧ ∃ f v, firstMatch σ.data.lb4
        (ipSrc sampleFrame) = some 1 ∧ σ.data.lb4.pols 1 = some f ∧
          σ.data.lb4.svrs f.svr = some v ∧ v.status = .ok := by
  obtain ⟨c, q, hq⟩ := initPolicyTable_eq
    (Caller.main.malloc fun _ => ⟨0, 0, 0, 0, .init, 0, 0, 0, 0, none, 0⟩)
    (initSvrMngTable (emptySide 4 (BitVec 16) 0))
  obtain ⟨lb, f, v, hload, hp, hf, hv, hok, -⟩ := sample_load c q (ipSrc sampleFrame)
  have h₁ := (Session.boot ⟨0, false, sampleFront⟩ (0 : BitVec 64)).main
    (.initSvrMngTable .main rfl) nofun
  obtain ⟨σ₂, h₂, hm₂, hn₂, hd₂⟩ : ∃ σ₂ : Sys 64, Session ([], []) [] σ₂ ∧
      σ₂.main = .getInterfaceInfo .main ∧ (σ₂.net 5).pc = .dead ∧
        getPolicy [sampleLine] σ₂.data.lb4 = .ok lb :=
    ⟨_, h₁.main (.initPolicyTable .main (fun _ => ⟨0, 0, 0, 0, .init, 0, 0, 0, 0, none, 0⟩)
      (fun _ => ⟨0, 0, 0, 0, .init, (), 0, 0, 0, none, 0⟩) rfl) nofun, rfl, rfl, by
        dsimp only [FrontState.mapSides, boot, sampleFront]
        rw [hq]
        exact hload⟩
  have h₃ := h₂.main (.getInterfaceInfo .main (sampleIf ![10, 0, 0, 1]) false hm₂)
    fun c hc => by cases hm₂.symm.trans hc
  have h₄ := h₃.load .main [sampleLine] [] lb _ rfl hd₂ rfl
  obtain ⟨σ₅, h₅, hn₅, hlb, hif⟩ : ∃ σ₅ : Sys 64, Session ([sampleLine], []) [] σ₅ ∧
      σ₅.net 5 = ⟨.initSocketIf, false⟩ ∧ σ₅.data.lb4 = lb ∧
        σ₅.data.ifIngress = { sampleIf ![10, 0, 0, 1] with sockfd := σ₂.data.ifIngress.sockfd } :=
    ⟨_, h₄.main (.create .main 5 rfl (by decide) hn₂) nofun,
      Function.update_self (5 : BitVec 64) (⟨.initSocketIf, false⟩ : NetThread) σ₂.net, rfl, rfl⟩
  obtain ⟨σ₆, h₆, hn₆, hs₆⟩ := h₅.thread hn₅ (.initSocketIf _ _ 3)
  obtain ⟨σ₇, h₇, hn₇, hs₇⟩ := h₆.thread hn₆ (.setSockfd _ _ _)
  obtain ⟨σ₈, h₈, hn₈, hs₈⟩ := h₇.thread hn₇ (.copyVip _ _)
  obtain ⟨σ₉, h₉, hn₉, hs₉⟩ := h₈.thread hn₈ (.cleanupPush _ _)
  obtain ⟨σ', h', hn', hs'⟩ := h₉.thread hn₉ (.report _ _)
  obtain ⟨σ'', h'', hn'', hs''⟩ := h'.thread hn' (.selectReady _)
  obtain ⟨σ, h, hn, hs⟩ := h''.thread hn'' (.recv _ 0 (by decide))
  have hd : σ.data = { σ₅.data with
      ifIngress := { σ₅.data.ifIngress with sockfd := 3 }
      vip4 := σ₅.data.ifIngress.vip4
      vip6 := σ₅.data.ifIngress.vip6 } := by
    rw [hs, hs'', hs', hs₉, hs₈, hs₇, hs₆]
  refine ⟨σ, h, by rw [hn], ?_, ?_, f, v, ?_, ?_, ?_, hok⟩ <;> rw [hd]
  · exact congrArg Ifdata.vip4 hif
  · exact congrArg Ifdata.mac hif
  · exact hlb ▸ hp
  · exact hlb ▸ hf
  · exact hlb ▸ hv

theorem reload_atomic_sample : ∃ x : Tx, x.sender = .procV4 ∧
    dispatch [sampleLine] (ipSrc sampleFrame) = some (ipDst (recvBuf x.bytes)) := by
  obtain ⟨σ, h, hn, hvip, hmac, f, v, hp, hf, hv, hok⟩ := sample_session
  have hpc : (σ.net 5).pc.HasVip := by
    rw [hn]
    trivial
  obtain ⟨hinv, hconf⟩ := packet_tables h.run hpc
  obtain ⟨b', s', x, hrun, htx, hx, -⟩ := procV4_forwards (b := sampleFrame)
    (s := σ.data.stat .rxPacketV4) ⟨hinv.side4, hinv.side6⟩ ⟨hconf.vip4, hconf.vip6⟩
    (fun _ => sampleMac) 0 (show 34 ≤ 60 by decide)
    (show _ = σ.data.vip4 by rw [hvip]; decide) hp hf hv hok
  have hfwd : frontIngress1 60 (fun _ => sampleMac) 0 sampleFrame 60 σ.data = .ok (b', s') := by
    rw [frontIngress1, if_pos (by decide), procRecvData, if_neg (by rw [hmac]; decide),
      if_neg (by decide), if_pos (by decide), if_pos (by decide), hrun]
  exact ⟨x, hx, (reload_atomic h hn hfwd htx).1 hx⟩

end Sasat
