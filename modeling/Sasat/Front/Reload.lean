import Sasat.Front.Handover
import Sasat.Front.Sides

/-!
# Reloading the policy file

* **`run_inv`**: the phases and the tables in every interleaving of the two threads.
* **`packet_tables`**: a packet thread in its loop works on tables that are in order.
* **`reload_excludes`**: the main thread changes the tables only while no packet thread can step.
* **`waitStop_ends_iff`**: the wait for the packet thread to stop ends as long as every
  `create_net_thread` has left a thread and its identifier.
* `Run.build`, `Run.start`, `Run.reload`, `Run.stop`: how the reloads go on;
  **`reload_runs`**: any number of them; `reload_fails`: one that creates no thread.
-/

namespace Sasat

open Transition

section

variable {w : ℕ} {σ σ' : Sys w} {outs : List (Created w)} {t tid : BitVec w} {c : Caller}

/-- **The phases and the tables in every interleaving.** -/
theorem run_inv (h : Run outs σ) : PhaseAt outs σ σ.main ∧ DataAt σ.data σ.main := by
  induction h with
  | boot mem tid => exact ⟨⟨by simp, fun _ => rfl⟩, trivial⟩
  | main _ hs ih => exact ⟨ih.1.main hs, ih.2.main hs⟩
  | net u _ hs ih => exact ⟨ih.1.net hs, ih.2.net ih.1 hs⟩

theorem PhaseAt.alive (h : PhaseAt outs σ σ.main) : Idle σ ∨ ∃ t, Only σ t := by
  have hserved : Served outs σ → Idle σ ∨ ∃ t, Only σ t := by
    rintro (⟨-, h⟩ | ⟨-, h⟩)
    · exact Or.inr ⟨_, h.only⟩
    · exact h.threads.imp_right fun ⟨t, ht⟩ => ⟨t, ht.only⟩
  generalize σ.main = pc at h
  cases pc with
  | waitInit c t => exact Or.inr ⟨t, h.2.only⟩
  | storeTid c t =>
    obtain ⟨l, -, -, h⟩ := h
    exact Or.inr ⟨t, h.only⟩
  | commandProc => exact hserved h
  | clearCancelEnd => exact hserved h
  | pthreadCancel => exact hserved h.1
  | waitStop =>
    rcases h with ⟨-, h⟩ | ⟨-, h, -⟩
    · exact Or.inr ⟨_, h.only⟩
    · exact h.threads.imp_right fun ⟨t, ht⟩ => ⟨t, ht.only⟩
  | exit => exact h.imp_right fun ⟨t, ht⟩ => ⟨t, ht.only⟩
  | _ => exact Or.inl h.2

theorem MainStep.idle {l : Option (Created w)} (h : PhaseAt outs σ σ.main) (hs : MainStep σ l σ')
    (hd : σ'.data ≠ σ.data) : Idle σ ∧ Idle σ' := by
  cases hs with
  | initSvrMngTable _ hm | initPolicyTable _ _ _ hm | getInterfaceInfo _ _ _ hm
  | getPolicy _ _ _ _ _ hm | destroyPolicyTable hm | destroySvrTbl hm =>
    rw [hm] at h
    exact ⟨h.2, fun t => h.2 t⟩
  | _ => exact absurd rfl hd

theorem MainStep.hasVip {l : Option (Created w)} (hs : MainStep σ l σ')
    (hv : (σ'.net t).pc.HasVip) : (σ.net t).pc.HasVip := by
  cases hs with
  | create c tid hm hne hdead =>
    by_cases ht : t = tid
    · subst ht
      dsimp only at hv
      rw [Function.update_self] at hv
      exact hv.elim
    · dsimp only at hv
      rwa [Function.update_of_ne ht] at hv
  | pthreadCancel hm =>
    dsimp only [Sasat.pthreadCancel] at hv
    split_ifs at hv
    · exact hv
    · by_cases ht : t = σ.tid
      · subst ht
        rwa [Function.update_self] at hv
      · rwa [Function.update_of_ne ht] at hv
  | exit => exact hv.elim
  | _ => exact hv

/-- **A packet thread works on tables that are in order**, and on the virtual addresses of the
interface. -/
theorem packet_tables (h : Run outs σ) (hv : (σ.net t).pc.HasVip) :
    FrontInv σ.data ∧ FrontConfig σ.data := by
  have halive : ∀ {σ : Sys w} {t}, (σ.net t).pc.HasVip → (σ.net t).pc ≠ .dead := by
    intro σ t hv hd
    rw [hd] at hv
    exact hv
  have hinv : ∀ {outs : List (Created w)} {σ : Sys w} {t}, Run outs σ → (σ.net t).pc ≠ .dead →
      FrontInv σ.data := by
    intro outs σ t h ht
    obtain ⟨hphase, hdata⟩ := run_inv h
    exact (hphase.built ht _).mp hdata
  refine ⟨hinv h (halive hv), ?_⟩
  induction h generalizing t with
  | boot mem tid => exact hv.elim
  | @main outs σ σ' l h hs ih =>
    have hv' := hs.hasVip hv
    by_cases hd : σ'.data = σ.data
    · rw [hd]
      exact ih hv'
    · exact absurd ((MainStep.idle (run_inv h).1 hs hd).1 t) (halive hv')
  | @net outs σ σ' u h hs ih =>
    have hs' := hs
    obtain ⟨θ, s, hstep⟩ := hs
    by_cases ht : t = u
    · subst ht
      dsimp only at hv
      rw [Function.update_self] at hv
      exact hstep.config (hinv h hstep.alive) ih hv
    · dsimp only at hv
      rw [Function.update_of_ne ht] at hv
      exfalso
      rcases (run_inv h).1.alive with hi | ⟨v, ho⟩
      · exact hstep.alive (hi u)
      · have huv : u = v := by
          by_contra hne
          exact hstep.alive (ho u hne)
        exact halive hv (ho t (huv ▸ ht))

/-- A step of some packet thread. -/
def SomeNetStep (σ σ' : Sys w) : Prop := ∃ t, NetStep t σ σ'

theorem Stopping.inevitable (h : Stopping σ t) (hd : FrontInv σ.data) :
    Inevitable SomeNetStep (fun σ => σ.cancelEnd = true) σ := by
  refine @Inevitable.of_rank _ _ _ (fun σ => Stopping σ t ∧ FrontInv σ.data) _
    (fun σ => (σ.net t).pc.rank) ?_ ?_ ⟨h, hd⟩
  · rintro σ ⟨h, hd⟩
    rcases h.stop.can hd with he | ⟨θ, s, hstep⟩
    · exact Or.inl he
    · exact Or.inr ⟨_, t, θ, s, hstep⟩
  · rintro σ σ' ⟨h, hd⟩ ⟨u, hs⟩
    obtain ⟨h', hrank⟩ := h.net hs
    obtain ⟨θ, s, -, hstep, rfl, -⟩ := hs.only h.only
    exact ⟨⟨h', hstep.inv hd⟩, hrank⟩

theorem waitStop_ends (h : Run outs σ) (hm : σ.main = .waitStop) (ho : ∀ o ∈ outs, Trusted o) :
    Inevitable SomeNetStep (fun σ => σ.cancelEnd = true) σ := by
  obtain ⟨hphase, hdata⟩ := run_inv h
  rw [hm] at hphase hdata
  rcases hphase with ⟨-, hstop⟩ | ⟨ho', -⟩
  · exact hstop.inevitable hdata
  · exact absurd ho ho'

/-- Nobody ends the wait if one of the calls has left no thread or no identifier. -/
theorem waitStop_stays (h : Run outs σ) (hm : σ.main = .waitStop) (ho : ¬ ∀ o ∈ outs, Trusted o) :
    ¬ Inevitable SomeNetStep (fun σ => σ.cancelEnd = true) σ := by
  have hphase := (run_inv h).1
  rw [hm] at hphase
  rcases hphase with ⟨ho', -⟩ | ⟨-, hlost, hend⟩
  · exact absurd ho' ho
  · intro hinev
    have hkeep : ∀ s s' : Sys w, Lost s ∧ s.cancelEnd = false → SomeNetStep s s' →
        Lost s' ∧ s'.cancelEnd = false := by
      rintro s s' ⟨hl, he⟩ ⟨u, hs⟩
      obtain ⟨hl', he'⟩ := hl.net hs
      exact ⟨hl', he'.trans he⟩
    obtain ⟨s', ⟨-, he⟩, he'⟩ := hinev.of_inv ⟨hlost, hend⟩ hkeep
    rw [he] at he'
    cases he'

/-! ## How the reloads go on -/

namespace Run

theorem tau (h : Run outs σ) (hs : MainStep σ none σ') : Run outs σ' := main h hs

theorem build (h : Run outs σ) (hm : σ.main = .initSvrMngTable c)
    (pool4 : Fin lbMaxCache → LbPolCache 4 (BitVec 16))
    (pool6 : Fin lbMaxCache → LbPolCache 16 Unit) (i : Ifdata) (m : Bool)
    (lines4 : List (PolicyLine 4)) (lines6 : List (PolicyLine 16)) :
    ∃ σ', Run outs σ' ∧ σ'.main = .pthreadCreate c ∧ σ'.net = σ.net := by
  obtain ⟨σ₁, h₁, hm₁, hn₁⟩ : ∃ σ₁, Run outs σ₁ ∧ σ₁.main = .initPolicyTable c ∧
      σ₁.net = σ.net := ⟨_, h.tau (.initSvrMngTable c hm), rfl, rfl⟩
  obtain ⟨σ₂, h₂, hm₂, hn₂⟩ : ∃ σ₂, Run outs σ₂ ∧ σ₂.main = .getInterfaceInfo c ∧
      σ₂.net = σ₁.net := ⟨_, h₁.tau (.initPolicyTable c pool4 pool6 hm₁), rfl, rfl⟩
  obtain ⟨σ₃, h₃, hm₃, hn₃⟩ : ∃ σ₃, Run outs σ₃ ∧ σ₃.main = .getPolicy c ∧
      σ₃.net = σ₂.net := ⟨_, h₂.tau (.getInterfaceInfo c i m hm₂), rfl, rfl⟩
  have hdata := (run_inv h₃).2
  rw [hm₃] at hdata
  obtain ⟨m₄, a, m₆, b, ha, hb⟩ := hdata
  obtain ⟨s4, L4, hrun4, -⟩ := initLoad_spec (family4 0) m₄ lines4 a
  obtain ⟨s6, L6, hrun6, -⟩ := initLoad_spec family6 m₆ lines6 b
  rw [← ha] at hrun4
  rw [← hb] at hrun6
  exact ⟨_, h₃.tau (.getPolicy c lines4 lines6 s4 s6 hm₃ hrun4 hrun6), rfl,
    hn₃.trans (hn₂.trans hn₁)⟩

theorem thread {θ θ' : NetThread} {s : Shared} (h : Run outs σ) (hθ : σ.net t = θ)
    (hs : ThreadStep θ σ.toShared θ' s) : ∃ σ', Run outs σ' ∧ σ'.net t = θ' ∧
      σ'.toShared = s ∧ σ'.main = σ.main := by
  subst hθ
  exact ⟨_, h.net t ⟨θ', s, hs⟩, Function.update_self _ _ _, rfl, rfl⟩

theorem start (h : Run outs σ) (hm : σ.main = .pthreadCreate c) (ht : tid ≠ 0) (fd : ℕ) :
    ∃ σ', Run ((c, some tid) :: outs) σ' ∧ σ'.main = .storeTid c tid := by
  have hphase := (run_inv h).1
  rw [hm] at hphase
  obtain ⟨σ₁, h₁, hm₁, hn₁⟩ : ∃ σ₁, Run outs σ₁ ∧ σ₁.main = .waitInit c tid ∧
      σ₁.net tid = ⟨.initSocketIf, false⟩ :=
    ⟨_, h.tau (.create c tid hm ht (hphase.2 tid)), rfl, Function.update_self _ _ _⟩
  obtain ⟨σ₂, h₂, hn₂, -, hm₂⟩ := h₁.thread hn₁ (.initSocketIf _ _ fd)
  obtain ⟨σ₃, h₃, hn₃, -, hm₃⟩ := h₂.thread hn₂ (.setSockfd _ _ _)
  obtain ⟨σ₄, h₄, hn₄, -, hm₄⟩ := h₃.thread hn₃ (.copyVip _ _)
  obtain ⟨σ₅, h₅, hn₅, -, hm₅⟩ := h₄.thread hn₄ (.cleanupPush _ _)
  obtain ⟨σ₆, h₆, -, hs₆, hm₆⟩ := h₅.thread hn₅ (.report _ _)
  have hm : σ₆.main = .waitInit c tid := by rw [hm₆, hm₅, hm₄, hm₃, hm₂, hm₁]
  have hwait : σ₆.wait = 1 := by rw [hs₆]
  exact ⟨_, h₆.main (.initDone c tid hm (by rw [hwait]; decide) (by rw [hwait]; decide)), rfl⟩

theorem store (h : Run outs σ) (hm : σ.main = .storeTid c tid) (ht : tid ≠ 0)
    (htrust : Trusted (c, some tid)) : ∃ σ', Run outs σ' ∧ σ'.main = .commandProc := by
  cases c with
  | main =>
    have hint : intOfTid tid = tid := htrust
    exact ⟨_, h.tau (.storeInt tid hm (hint.symm ▸ ht)), rfl⟩
  | updatePolicy => exact ⟨_, h.tau (.storeTid tid hm), rfl⟩

theorem reload (h : Run outs σ) (hm : σ.main = .commandProc) :
    ∃ σ', Run outs σ' ∧ σ'.main = .waitStop :=
  ⟨_, ((h.tau (.updatePolicy hm)).tau (.clearCancelEnd rfl)).tau (.pthreadCancel rfl), rfl⟩

theorem inevitable {P : Sys w → Prop} (h : Run outs σ) (hi : Inevitable SomeNetStep P σ) :
    ∃ σ', Run outs σ' ∧ P σ' ∧ σ'.main = σ.main := by
  induction hi with
  | now hP => exact ⟨_, h, hP, rfl⟩
  | later hex _ ih =>
    obtain ⟨σ₁, u, hs⟩ := hex
    obtain ⟨σ', h', hP, hm⟩ := ih σ₁ ⟨u, hs⟩ (h.net u hs)
    refine ⟨σ', h', hP, hm.trans ?_⟩
    cases hs
    rfl

theorem stop (h : Run outs σ) (hm : σ.main = .waitStop) (ho : ∀ o ∈ outs, Trusted o) :
    ∃ σ', Run outs σ' ∧ σ'.main = .initSvrMngTable .updatePolicy := by
  obtain ⟨σ₁, h₁, he, hm₁⟩ := h.inevitable (waitStop_ends h hm ho)
  exact ⟨_, ((h₁.tau (.stopped (hm₁.trans hm) he)).tau (.destroyPolicyTable rfl)).tau
    (.destroySvrTbl rfl), rfl⟩

theorem serve (h : Run outs σ) (hm : σ.main = .initSvrMngTable c) (ht : tid ≠ 0)
    (htrust : Trusted (c, some tid)) :
    ∃ σ', Run ((c, some tid) :: outs) σ' ∧ σ'.main = .commandProc := by
  obtain ⟨σ₁, h₁, hm₁, -⟩ := h.build hm (fun _ => σ.data.lb4.cache .fix)
    (fun _ => σ.data.lb6.cache .fix) σ.data.ifIngress σ.data.vipMode [] []
  obtain ⟨σ₂, h₂, hm₂⟩ := h₁.start hm₁ ht 0
  exact h₂.store hm₂ ht htrust

end Run

/-- The outcomes of a start with the thread `t₀` and of reloads with the threads `tids`. -/
def goodOuts (t₀ : BitVec w) (tids : List (BitVec w)) : List (Created w) :=
  tids.map (fun t => (.updatePolicy, some t)) ++ [(.main, some t₀)]

theorem goodOuts_trusted {t₀ : BitVec w} (hint : intOfTid t₀ = t₀) (tids : List (BitVec w)) :
    ∀ o ∈ goodOuts t₀ tids, Trusted o := by
  intro o ho
  rcases List.mem_append.mp ho with ho | ho
  · obtain ⟨t, -, rfl⟩ := List.mem_map.mp ho
    trivial
  · rw [List.mem_singleton.mp ho]
    exact hint

/-- **Any number of reloads** is possible. -/
theorem reload_runs {t₀ : BitVec w} (h₀ : t₀ ≠ 0) (hint : intOfTid t₀ = t₀) (mem : Shared) :
    ∀ {tids : List (BitVec w)}, (∀ t ∈ tids, t ≠ 0) →
      ∃ σ, Run (goodOuts t₀ tids) σ ∧ σ.main = .commandProc
  | [], _ => (Run.boot mem 0).serve rfl h₀ hint
  | t :: tids, hne => by
    obtain ⟨σ₁, h₁, hm₁⟩ := reload_runs h₀ hint mem fun u hu => hne u (List.mem_cons_of_mem t hu)
    obtain ⟨σ₂, h₂, hm₂⟩ := h₁.reload hm₁
    obtain ⟨σ₃, h₃, hm₃⟩ := h₂.stop hm₂ (goodOuts_trusted hint tids)
    exact h₃.serve hm₃ (hne t List.mem_cons_self) trivial

/-- After them a reload may fail to create its thread, and then the next one waits for it. -/
theorem reload_fails {t₀ : BitVec w} (h₀ : t₀ ≠ 0) (hint : intOfTid t₀ = t₀) (mem : Shared)
    {tids : List (BitVec w)} (hne : ∀ t ∈ tids, t ≠ 0) :
    ∃ σ, Run ((.updatePolicy, none) :: goodOuts t₀ tids) σ ∧ σ.main = .waitStop := by
  obtain ⟨σ₁, h₁, hm₁⟩ := reload_runs h₀ hint mem hne
  obtain ⟨σ₂, h₂, hm₂⟩ := h₁.reload hm₁
  obtain ⟨σ₃, h₃, hm₃⟩ := h₂.stop hm₂ (goodOuts_trusted hint tids)
  obtain ⟨σ₄, h₄, hm₄, -⟩ := h₃.build hm₃ (fun _ => σ₃.data.lb4.cache .fix)
    (fun _ => σ₃.data.lb6.cache .fix) σ₃.data.ifIngress σ₃.data.vipMode [] []
  exact (h₄.main (.createError .updatePolicy hm₄)).reload rfl

def zeroMem : Shared := ⟨0, false, bootState⟩

/-! ## Exclusion and progress -/

/-- **A reload excludes the packet thread**: while the main thread changes the tables or the
interface data no packet thread can take a step, and there is never more than one. -/
theorem reload_excludes (h : Run outs σ) :
    (∀ l σ', MainStep σ l σ' → σ'.data ≠ σ.data →
      ∀ t σ'', ¬ NetStep t σ σ'' ∧ ¬ NetStep t σ' σ'') ∧
    ∀ t u, (σ.net t).pc ≠ .dead → (σ.net u).pc ≠ .dead → t = u := by
  have hphase := (run_inv h).1
  constructor
  · intro l σ' hs hd t σ''
    obtain ⟨hi, hi'⟩ := MainStep.idle hphase hs hd
    exact ⟨hi.not_step, hi'.not_step⟩
  · intro t u ht hu
    rcases hphase.alive with hi | ⟨v, hv⟩
    · exact absurd (hi t) ht
    · have htv : t = v := by
        by_contra hne
        exact ht (hv t hne)
      by_contra hne
      exact hu (hv u fun huv => hne (htv.trans huv.symm))

theorem reload_excludes_updatePolicy : ∃ σ : Sys 64, σ.main = .initSvrMngTable .updatePolicy ∧
    (∀ l σ', MainStep σ l σ' → σ'.data ≠ σ.data →
      ∀ t σ'', ¬ NetStep t σ σ'' ∧ ¬ NetStep t σ' σ'') ∧
    ∀ t u, (σ.net t).pc ≠ .dead → (σ.net u).pc ≠ .dead → t = u := by
  have hint : intOfTid (5 : BitVec 64) = 5 := by decide
  obtain ⟨σ₁, h₁, hm₁⟩ := reload_runs (by decide) hint zeroMem (List.forall_mem_nil _)
  obtain ⟨σ₂, h₂, hm₂⟩ := h₁.reload hm₁
  obtain ⟨σ, h, hm⟩ := h₂.stop hm₂ (goodOuts_trusted hint [])
  exact ⟨σ, hm, reload_excludes h⟩

/-- **The wait for the packet thread to stop** is sure to end exactly if every call of
`create_net_thread` has left a thread and its identifier. -/
theorem waitStop_ends_iff (h : Run outs σ) (hm : σ.main = .waitStop) :
    Inevitable SomeNetStep (fun σ => σ.cancelEnd = true) σ ↔ ∀ o ∈ outs, Trusted o :=
  ⟨fun hi => not_imp_comm.mp (waitStop_stays h hm) (not_not.mpr hi), waitStop_ends h hm⟩

theorem waitStop_ends_first : ∃ σ : Sys 64, σ.main = .waitStop ∧
    (Inevitable SomeNetStep (fun σ => σ.cancelEnd = true) σ ↔
      ∀ o ∈ goodOuts (5 : BitVec 64) [], Trusted o) := by
  obtain ⟨σ₁, h₁, hm₁⟩ := reload_runs (by decide) (by decide : intOfTid (5 : BitVec 64) = 5) zeroMem
    (List.forall_mem_nil _)
  obtain ⟨σ, h, hm⟩ := h₁.reload hm₁
  exact ⟨σ, hm, waitStop_ends_iff h hm⟩

/-- **A reload after one that has failed to create its thread** waits for ever. -/
theorem reload_wedges : ∃ σ : Sys 64, Run [(.updatePolicy, none), (.main, some 5)] σ ∧
    σ.main = .waitStop ∧ ¬ Inevitable SomeNetStep (fun σ => σ.cancelEnd = true) σ := by
  obtain ⟨σ, h, hm⟩ := reload_fails (by decide) (by decide : intOfTid (5 : BitVec 64) = 5) zeroMem
    (List.forall_mem_nil _)
  exact ⟨σ, h, hm, waitStop_stays h hm fun ho => ho _ List.mem_cons_self⟩

end

end Sasat
