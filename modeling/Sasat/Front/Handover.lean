import Sasat.Front.Threads

/-!
# Handing the tables over

The main thread builds the tables while there is no packet thread, and gives them to the one that
it brings up. It takes them back by a cancellation.

* `InitOk`, `StopOk`: what the memory says about a thread that starts, and about one that stops.
* `ThreadStep.initOk`, `ThreadStep.inLoop`, **`ThreadStep.stopOk`**: a thread on its own.
* `PhaseAt`, `DataAt`: which threads there are and what the tables are like, by the place where the
  main thread is.
* **`PhaseAt.main`**, **`PhaseAt.net`**, **`DataAt.main`**, **`DataAt.net`**: every step keeps them.
-/

namespace Sasat

open Transition Outcome

/-! ## A packet thread on its own -/

/-- The loop of `front_ingress1`. -/
def NetPc.InLoop : NetPc → Prop
  | .select | .recv _ | .handle _ | .patrol => True
  | _ => False

/-- The thread has copied the virtual addresses. -/
def NetPc.HasVip : NetPc → Prop
  | .cleanupPush | .report | .select | .recv _ | .handle _ | .patrol | .frontCleanup
  | .cancelEnd => True
  | _ => False

/-- `wait` tells how far a thread that starts has come. -/
def InitOk : NetPc → ℤ → Prop
  | .initSocketIf, i | .failed, i | .setSockfd _, i | .copyVip, i | .cleanupPush, i
  | .report, i => i = 0
  | .select, i | .recv _, i | .handle _, i | .patrol, i => i = 1
  | .frontCleanup, _ | .cancelEnd, _ => False
  | .dead, i => i = -1

/-- `cancel_end` tells whether a thread that is to stop has stopped. -/
def StopOk (θ : NetThread) (e : Bool) : Prop :=
  match θ.pc with
  | .select | .recv _ | .handle _ | .patrol => θ.cancelled = true ∧ e = false
  | .frontCleanup | .cancelEnd => e = false
  | .dead => e = true
  | _ => False

/-- The steps that a cancelled thread has left are fewer than this, once it is in its loop. -/
def NetPc.rank : NetPc → ℕ
  | .handle _ => 6
  | .recv _ => 5
  | .patrol => 4
  | .select => 3
  | .frontCleanup => 2
  | .cancelEnd => 1
  | _ => 0

section

variable {θ θ' : NetThread} {s s' : Shared} {d d' : FrontState}

theorem Interrupted.handled (h : Interrupted d d') (hd : FrontInv d) : Handled d d' := by
  obtain ⟨L4, h4⟩ := hd.side4
  obtain ⟨L6, h6⟩ := hd.side6
  cases h with
  | write io => exact .of_io hd io
  | @resolve4 p v mac io hp hv =>
    have hext : Extends d.lb4 (d.lb4.modSvr p fun v => { v with dstMac := mac }) := by
      refine (Extends.refl _).modSvr p fun w hw => ⟨rfl, fun hi => ?_⟩
      rw [hp, Option.some.injEq] at hw
      exact absurd (hw ▸ hv) hi
    have hside := h4.congr hext rfl (fun i => ⟨_, rfl⟩) rfl
    exact ⟨⟨⟨L4, hside⟩, hd.side6⟩, hext, .refl _, rfl, rfl, rfl, rfl⟩
  | @resolve6 p v mac io hp hv =>
    have hext : Extends d.lb6 (d.lb6.modSvr p fun v => { v with dstMac := mac }) := by
      refine (Extends.refl _).modSvr p fun w hw => ⟨rfl, fun hi => ?_⟩
      rw [hp, Option.some.injEq] at hw
      exact absurd (hw ▸ hv) hi
    have hside := h6.congr hext rfl (fun i => ⟨_, rfl⟩) rfl
    exact ⟨⟨hd.side4, ⟨L6, hside⟩⟩, .refl _, hext, rfl, rfl, rfl, rfl⟩
  | write4 o tsc a io hget =>
    obtain ⟨r, lb, hget', hinv, hext, -⟩ := getPolV4_spec hd o tsc a
    rw [hget'] at hget
    cases hget
    exact ⟨⟨hinv.side4, hinv.side6⟩, hext, .refl _, rfl, rfl, rfl, rfl⟩
  | write6 o tsc a io hget =>
    obtain ⟨r, lb, hget', hinv, hext, -⟩ := getPolV6_spec hd o tsc a
    rw [hget'] at hget
    cases hget
    exact ⟨⟨hinv.side4, hinv.side6⟩, .refl _, hext, rfl, rfl, rfl, rfl⟩

theorem procPatrol_handled {tv : ℕ} (hd : FrontInv d) (h : procPatrol d = .ok (tv, d')) :
    Handled d d' := by
  obtain ⟨tv', d'', hrun, hinv, hif, h4, h6⟩ := procPatrol_spec hd
  rw [hrun] at h
  cases h
  have hrest : Post (fun r => r.2.vip4 = d.vip4 ∧ r.2.vip6 = d.vip6 ∧ r.2.vipMode = d.vipMode)
      (fun _ => True) (procPatrol d) :=
    .ite (fun _ => .bind .trivial fun _ _ => .bind .trivial fun _ _ => ⟨rfl, rfl, rfl⟩)
      fun _ => ⟨rfl, rfl, rfl⟩
  obtain ⟨hv4, hv6, hm⟩ := hrest.of_ok hrun
  exact ⟨hinv, h4, h6, hif, hv4, hv6, hm⟩

namespace ThreadStep

theorem alive (h : ThreadStep θ s θ' s') : θ.pc ≠ .dead := by
  cases h <;> simp

theorem cancelled (h : ThreadStep θ s θ' s') : θ'.cancelled = θ.cancelled := by
  cases h <;> rfl

theorem initOk (h : ThreadStep θ s θ' s') (hc : θ.cancelled = false) (hi : InitOk θ.pc s.wait) :
    InitOk θ'.pc s'.wait := by
  cases h <;> first | exact hi.elim | exact hi | rfl | cases hc

theorem inLoop (h : ThreadStep θ s θ' s') (hc : θ.cancelled = false) (hl : θ.pc.InLoop) :
    θ'.pc.InLoop ∧ s'.cancelEnd = s.cancelEnd := by
  cases h <;> first | exact hl.elim | exact ⟨trivial, rfl⟩ | cases hc

/-- **A cancelled thread comes closer to its end.** -/
theorem stopOk (h : ThreadStep θ s θ' s') (hs : StopOk θ s.cancelEnd) :
    StopOk θ' s'.cancelEnd ∧ θ'.pc.rank < θ.pc.rank := by
  have hrank : θ'.pc.rank < θ.pc.rank := by
    cases h <;> first
      | exact hs.elim
      | exact absurd hs.1 Bool.false_ne_true
      | simp [NetPc.rank]
  refine ⟨?_, hrank⟩
  cases h <;> first
    | exact hs.elim
    | exact absurd hs.1 Bool.false_ne_true
    | exact hs
    | exact hs.2
    | rfl

theorem inv (h : ThreadStep θ s θ' s') (hd : FrontInv s.data) : FrontInv s'.data := by
  cases h with
  | handle c s i lim o tsc b b' len d hrun => exact ((frontIngress1_handled hd ..).of_ok hrun).inv
  | handleCancel s i d hint => exact (hint.handled hd).inv
  | patrol c s tv d hrun => exact (procPatrol_handled hd hrun).inv
  | _ => exact ⟨hd.side4, hd.side6⟩

theorem config (h : ThreadStep θ s θ' s') (hd : FrontInv s.data)
    (hv : θ.pc.HasVip → FrontConfig s.data) (hv' : θ'.pc.HasVip) : FrontConfig s'.data := by
  cases h with
  | handle c s i lim o tsc b b' len d hrun =>
    exact (hv trivial).handled ((frontIngress1_handled hd ..).of_ok hrun)
  | handleCancel s i d hint => exact (hv trivial).handled (hint.handled hd)
  | patrol c s tv d hrun => exact (hv trivial).handled (procPatrol_handled hd hrun)
  | copyVip c s => exact ⟨rfl, rfl⟩
  | frontCleanup c s => exact ⟨(hv trivial).vip4, (hv trivial).vip6⟩
  | initSocketIf | initError | initCancel | failed | setSockfd | cancelEnd => exact hv'.elim
  | _ => exact hv trivial

end ThreadStep

/-- **A thread that is to stop has stopped or can take a step.** -/
theorem StopOk.can (hs : StopOk θ s.cancelEnd) (hd : FrontInv s.data) :
    s.cancelEnd = true ∨ ∃ θ' s', ThreadStep θ s θ' s' := by
  obtain ⟨pc, c⟩ := θ
  cases pc with
  | select =>
    obtain ⟨rfl, -⟩ : c = true ∧ _ := hs
    exact Or.inr ⟨_, _, .selectCancel s⟩
  | recv i =>
    obtain ⟨rfl, -⟩ : c = true ∧ _ := hs
    by_cases hi : i < frontMaxRecv
    · exact Or.inr ⟨_, _, .recvCancel s i hi⟩
    · exact Or.inr ⟨_, _, .recvMax _ s i hi⟩
  | handle i =>
    obtain ⟨rfl, -⟩ : c = true ∧ _ := hs
    exact Or.inr ⟨_, _, .handleCancel s i _ (.write s.data.io)⟩
  | patrol =>
    obtain ⟨tv, d, hrun, -⟩ := procPatrol_spec hd
    exact Or.inr ⟨_, _, .patrol c s tv d hrun⟩
  | frontCleanup => exact Or.inr ⟨_, _, .frontCleanup c s⟩
  | cancelEnd => exact Or.inr ⟨_, _, .cancelEnd c s⟩
  | dead => exact Or.inl hs
  | _ => exact hs.elim

end

/-! ## The threads together -/

section

variable {w : ℕ} {σ σ' : Sys w} {outs : List (Created w)} {t u : BitVec w}

/-- There is no thread but `t`. -/
def Only (σ : Sys w) (t : BitVec w) : Prop := ∀ u, u ≠ t → (σ.net u).pc = .dead

def Idle (σ : Sys w) : Prop := ∀ t, (σ.net t).pc = .dead

/-- Thread `t` initialises itself. -/
structure Starting (σ : Sys w) (t : BitVec w) : Prop where
  only : Only σ t
  cancelled : (σ.net t).cancelled = false
  init : InitOk (σ.net t).pc σ.wait

/-- Thread `t` handles packets, and nobody has cancelled it. -/
structure Serving (σ : Sys w) (t : BitVec w) : Prop where
  only : Only σ t
  cancelled : (σ.net t).cancelled = false
  inLoop : (σ.net t).pc.InLoop

/-- Thread `t` has been cancelled. -/
structure Stopping (σ : Sys w) (t : BitVec w) : Prop where
  only : Only σ t
  stop : StopOk (σ.net t) σ.cancelEnd

/-- `nt_info.th[0].tid` is not the identifier of a thread. -/
structure Lost (σ : Sys w) : Prop where
  tid : (σ.net σ.tid).pc = .dead
  threads : Idle σ ∨ ∃ t, Serving σ t

/-- The call of `create_net_thread` has left a thread and its identifier. -/
def Trusted : Created w → Prop
  | (_, none) => False
  | (.main, some tid) => intOfTid tid = tid
  | (.updatePolicy, some _) => True

/-- Between two reloads. -/
def Served (outs : List (Created w)) (σ : Sys w) : Prop :=
  ((∀ o ∈ outs, Trusted o) ∧ Serving σ σ.tid) ∨ (¬ (∀ o ∈ outs, Trusted o) ∧ Lost σ)

/-- Which threads there are. -/
def PhaseAt (outs : List (Created w)) (σ : Sys w) : MainPc w → Prop
  | .waitInit _ t => (∀ o ∈ outs, Trusted o) ∧ Starting σ t
  | .storeTid c t => ∃ l, outs = (c, some t) :: l ∧ (∀ o ∈ l, Trusted o) ∧ Serving σ t
  | .commandProc | .clearCancelEnd => Served outs σ
  | .pthreadCancel => Served outs σ ∧ σ.cancelEnd = false
  | .waitStop => ((∀ o ∈ outs, Trusted o) ∧ Stopping σ σ.tid) ∨
      (¬ (∀ o ∈ outs, Trusted o) ∧ Lost σ ∧ σ.cancelEnd = false)
  | .exit => Idle σ ∨ ∃ t, Serving σ t
  | _ => (∀ o ∈ outs, Trusted o) ∧ Idle σ

/-- What the tables are like: they are built before a thread is created. -/
def DataAt (s : FrontState) : MainPc w → Prop
  | .initSvrMngTable _ | .destroyPolicyTable | .destroySvrTbl => True
  | .initPolicyTable _ => ∃ a b, s.lb4 = initSvrMngTable a ∧ s.lb6 = initSvrMngTable b
  | .getInterfaceInfo _ | .getPolicy _ => ∃ m a m' b,
      s.lb4 = initPolicyTable m (initSvrMngTable a) ∧ s.lb6 = initPolicyTable m' (initSvrMngTable b)
  | _ => FrontInv s

theorem Idle.not_step (h : Idle σ) : ¬ NetStep t σ σ' := by
  rintro ⟨θ, s, hstep⟩
  exact hstep.alive (h t)

/-- **Only the one thread steps**, and it remains the only one. -/
theorem NetStep.only (h : NetStep u σ σ') (ho : Only σ t) : ∃ θ s, u = t ∧
    ThreadStep (σ.net t) σ.toShared θ s ∧
      σ' = { σ with toShared := s, net := Function.update σ.net t θ } ∧ Only σ' t := by
  obtain ⟨θ, s, hstep⟩ := h
  have hu : u = t := by
    by_contra hne
    exact hstep.alive (ho u hne)
  subst hu
  refine ⟨θ, s, rfl, hstep, rfl, fun v hv => ?_⟩
  rw [← ho v hv]
  exact congrArg NetThread.pc (Function.update_of_ne hv _ _)

theorem Starting.net (h : Starting σ t) (hs : NetStep u σ σ') : Starting σ' t := by
  obtain ⟨θ, s, -, hstep, rfl, ho⟩ := hs.only h.only
  refine ⟨ho, ?_, ?_⟩
  · dsimp only
    rw [Function.update_self, hstep.cancelled, h.cancelled]
  · dsimp only
    rw [Function.update_self]
    exact hstep.initOk h.cancelled h.init

theorem Serving.net (h : Serving σ t) (hs : NetStep u σ σ') :
    Serving σ' t ∧ σ'.cancelEnd = σ.cancelEnd := by
  obtain ⟨θ, s, -, hstep, rfl, ho⟩ := hs.only h.only
  obtain ⟨hloop, hend⟩ := hstep.inLoop h.cancelled h.inLoop
  refine ⟨⟨ho, ?_, ?_⟩, hend⟩
  · dsimp only
    rw [Function.update_self, hstep.cancelled, h.cancelled]
  · dsimp only
    rwa [Function.update_self]

theorem Stopping.net (h : Stopping σ t) (hs : NetStep u σ σ') :
    Stopping σ' t ∧ (σ'.net t).pc.rank < (σ.net t).pc.rank := by
  obtain ⟨θ, s, -, hstep, rfl, ho⟩ := hs.only h.only
  obtain ⟨hstop, hrank⟩ := hstep.stopOk h.stop
  refine ⟨⟨ho, ?_⟩, ?_⟩
  all_goals
    dsimp only
    rwa [Function.update_self]

theorem Serving.alive (h : Serving σ t) : (σ.net t).pc ≠ .dead := by
  intro hd
  have := h.inLoop
  rw [hd] at this
  exact this

theorem Lost.net (h : Lost σ) (hs : NetStep u σ σ') :
    Lost σ' ∧ σ'.cancelEnd = σ.cancelEnd := by
  obtain hidle | ⟨t, ht⟩ := h.threads
  · exact absurd hs hidle.not_step
  · obtain ⟨hserve, hend⟩ := ht.net hs
    have htid : σ.tid ≠ t := fun heq => ht.alive (heq ▸ h.tid)
    obtain ⟨θ, s, -, -, rfl, ho⟩ := hs.only ht.only
    exact ⟨⟨ho _ htid, Or.inr ⟨t, hserve⟩⟩, hend⟩

theorem Served.net (h : Served outs σ) (hs : NetStep u σ σ') :
    Served outs σ' ∧ σ'.cancelEnd = σ.cancelEnd := by
  rcases h with ⟨ho, h⟩ | ⟨ho, h⟩
  · obtain ⟨h', hend⟩ := h.net hs
    obtain ⟨θ, s, -, -, rfl, -⟩ := hs.only h.only
    exact ⟨Or.inl ⟨ho, h'⟩, hend⟩
  · obtain ⟨h', hend⟩ := h.net hs
    exact ⟨Or.inr ⟨ho, h'⟩, hend⟩

/-- **A step of the packet thread** keeps the phase. -/
theorem PhaseAt.net (h : PhaseAt outs σ σ.main) (hs : NetStep u σ σ') :
    PhaseAt outs σ' σ'.main := by
  have hmain : σ'.main = σ.main := by
    cases hs
    rfl
  rw [hmain]
  generalize σ.main = pc at h
  cases pc with
  | waitInit c t => exact ⟨h.1, h.2.net hs⟩
  | storeTid c t =>
    obtain ⟨l, hl, ho, hserve⟩ := h
    exact ⟨l, hl, ho, (hserve.net hs).1⟩
  | commandProc => exact (Served.net h hs).1
  | clearCancelEnd => exact (Served.net h hs).1
  | pthreadCancel =>
    obtain ⟨hserved, hend⟩ := h.1.net hs
    exact ⟨hserved, hend.trans h.2⟩
  | waitStop =>
    rcases h with ⟨ho, h⟩ | ⟨ho, h, hend⟩
    · obtain ⟨h', -⟩ := h.net hs
      obtain ⟨θ, s, -, -, rfl, -⟩ := hs.only h.only
      exact Or.inl ⟨ho, h'⟩
    · obtain ⟨h', hend'⟩ := h.net hs
      exact Or.inr ⟨ho, h', hend'.trans hend⟩
  | exit =>
    rcases h with h | ⟨t, h⟩
    · exact absurd hs h.not_step
    · exact Or.inr ⟨t, (h.net hs).1⟩
  | _ => exact absurd hs h.2.not_step

theorem InitOk.dead {pc : NetPc} (h : InitOk pc (-1)) : pc = .dead := by
  cases pc <;> simp_all [InitOk]

theorem InitOk.inLoop {pc : NetPc} {i : ℤ} (h : InitOk pc i) (h0 : i ≠ 0) (h1 : i ≠ -1) :
    pc.InLoop := by
  cases pc <;> trivial

theorem StopOk.dead {θ : NetThread} (h : StopOk θ true) : θ.pc = .dead := by
  obtain ⟨pc, c⟩ := θ
  cases pc <;> simp_all [StopOk]

theorem Starting.idle (h : Starting σ t) (hw : σ.wait = -1) : Idle σ := by
  intro u
  by_cases hu : u = t
  · have hi := h.init
    rw [hw] at hi
    rw [hu, hi.dead]
  · exact h.only u hu

theorem Stopping.idle (h : Stopping σ t) (he : σ.cancelEnd = true) : Idle σ := by
  intro u
  by_cases hu : u = t
  · have hs := h.stop
    rw [he] at hs
    rw [hu, hs.dead]
  · exact h.only u hu

theorem Serving.congr (h : Serving σ t) (hnet : σ'.net = σ.net) : Serving σ' t := by
  obtain ⟨ho, hc, hl⟩ := h
  unfold Only at ho
  rw [← hnet] at ho hc hl
  exact ⟨ho, hc, hl⟩

theorem Lost.congr (h : Lost σ) (hnet : σ'.net = σ.net) (htid : σ'.tid = σ.tid) : Lost σ' where
  tid := by
    rw [hnet, htid]
    exact h.tid
  threads := h.threads.imp (fun hi t => hnet ▸ hi t) fun ⟨t, ht⟩ => ⟨t, ht.congr hnet⟩

theorem Served.congr (h : Served outs σ) (hnet : σ'.net = σ.net) (htid : σ'.tid = σ.tid) :
    Served outs σ' := by
  rcases h with ⟨ho, h⟩ | ⟨ho, h⟩
  · exact Or.inl ⟨ho, htid ▸ h.congr hnet⟩
  · exact Or.inr ⟨ho, h.congr hnet htid⟩

theorem Serving.cancel (h : Serving σ t) (he : σ.cancelEnd = false) (pc : MainPc w) :
    Stopping { σ with main := pc, net := pthreadCancel σ.net t } t := by
  have hnet : pthreadCancel σ.net t = Function.update σ.net t { σ.net t with cancelled := true } :=
    if_neg h.alive
  refine ⟨fun u hu => ?_, ?_⟩
  · dsimp only
    rw [hnet, Function.update_of_ne hu]
    exact h.only u hu
  · dsimp only
    rw [hnet, Function.update_self, he]
    have := h.inLoop
    unfold StopOk
    revert this
    cases (σ.net t).pc with
    | select | recv | handle | patrol => exact fun _ => ⟨rfl, rfl⟩
    | _ => exact False.elim

/-- **A step of the main thread** keeps the phase. -/
theorem PhaseAt.main {l : Option (Created w)} (h : PhaseAt outs σ σ.main)
    (hs : MainStep σ l σ') : PhaseAt (l.toList ++ outs) σ' σ'.main := by
  cases hs with
  | createError c hm =>
    rw [hm] at h
    cases c with
    | main => exact Or.inl h.2
    | updatePolicy =>
      have hbad : ¬ ∀ o ∈ (Caller.updatePolicy, (none : Option (BitVec w))) :: outs, Trusted o :=
        fun ho => ho _ List.mem_cons_self
      exact Or.inr ⟨hbad, h.2 _, Or.inl h.2⟩
  | create c tid hm hne hdead =>
    rw [hm] at h
    refine ⟨h.1, fun u hu => ?_, ?_, ?_⟩
    · exact (congrArg NetThread.pc (Function.update_of_ne hu _ _)).trans (h.2 u)
    · dsimp only
      rw [Function.update_self]
    · dsimp only
      rw [Function.update_self]
      rfl
  | initError c tid hm hw =>
    rw [hm] at h
    have hidle := h.2.idle hw
    cases c with
    | main => exact Or.inl hidle
    | updatePolicy =>
      have hbad : ¬ ∀ o ∈ (Caller.updatePolicy, (none : Option (BitVec w))) :: outs, Trusted o :=
        fun ho => ho _ List.mem_cons_self
      exact Or.inr ⟨hbad, hidle _, Or.inl hidle⟩
  | initDone c tid hm h0 h1 =>
    rw [hm] at h
    obtain ⟨ho, honly, hc, hi⟩ := h
    exact ⟨outs, rfl, ho, honly, hc, hi.inLoop h0 h1⟩
  | storeTid tid hm =>
    rw [hm] at h
    obtain ⟨l, rfl, ho, hserve⟩ := h
    refine Or.inl ⟨fun o hmem => ?_, hserve.congr rfl⟩
    rcases List.mem_cons.mp hmem with rfl | hmem
    · trivial
    · exact ho o hmem
  | storeInt tid hm hne =>
    rw [hm] at h
    obtain ⟨l, rfl, ho, hserve⟩ := h
    by_cases htid : intOfTid tid = tid
    · refine Or.inl ⟨fun o hmem => ?_, ?_⟩
      · rcases List.mem_cons.mp hmem with rfl | hmem
        · exact htid
        · exact ho o hmem
      · dsimp only
        rw [htid]
        exact hserve.congr rfl
    · refine Or.inr ⟨fun ho' => htid (ho' _ List.mem_cons_self), hserve.only _ htid, ?_⟩
      exact Or.inr ⟨tid, hserve.congr rfl⟩
  | storeZero tid hm =>
    rw [hm] at h
    obtain ⟨l, -, -, hserve⟩ := h
    exact Or.inr ⟨tid, hserve.congr rfl⟩
  | exit hm =>
    dsimp only
    rw [hm]
    exact Or.inl fun _ => rfl
  | updatePolicy hm =>
    rw [hm] at h
    exact Served.congr h rfl rfl
  | clearCancelEnd hm =>
    rw [hm] at h
    exact ⟨Served.congr h rfl rfl, rfl⟩
  | pthreadCancel hm =>
    rw [hm] at h
    obtain ⟨⟨ho, hserve⟩ | ⟨ho, hlost⟩, hend⟩ := h
    · exact Or.inl ⟨ho, hserve.cancel hend _⟩
    · have hnet : Sasat.pthreadCancel σ.net σ.tid = σ.net := if_pos hlost.tid
      exact Or.inr ⟨ho, hlost.congr hnet rfl, hend⟩
  | stopped hm he =>
    rw [hm] at h
    rcases h with ⟨ho, hstop⟩ | ⟨-, -, hend⟩
    · exact ⟨ho, hstop.idle he⟩
    · rw [he] at hend
      cases hend
  | initSvrMngTable _ hm | initPolicyTable _ _ _ hm | getInterfaceInfo _ _ _ hm
  | getPolicy _ _ _ _ _ hm | destroyPolicyTable hm | destroySvrTbl hm =>
    rw [hm] at h
    exact ⟨h.1, fun t => h.2 t⟩

theorem PhaseAt.built {pc : MainPc w} (h : PhaseAt outs σ pc) (ht : (σ.net t).pc ≠ .dead)
    (d : FrontState) : DataAt d pc ↔ FrontInv d := by
  cases pc with
  | waitInit | storeTid | commandProc | clearCancelEnd | pthreadCancel | waitStop | exit
  | pthreadCreate => exact Iff.rfl
  | _ => exact absurd (h.2 t) ht

theorem DataAt.net (hd : DataAt σ.data σ.main) (h : PhaseAt outs σ σ.main)
    (hs : NetStep u σ σ') : DataAt σ'.data σ'.main := by
  obtain ⟨θ, s, hstep⟩ := hs
  have hbuilt := h.built hstep.alive
  exact (hbuilt _).mpr (hstep.inv ((hbuilt _).mp hd))

/-- **The tables are built step by step.** -/
theorem DataAt.main {l : Option (Created w)} (hd : DataAt σ.data σ.main) (hs : MainStep σ l σ') :
    DataAt σ'.data σ'.main := by
  cases hs with
  | initSvrMngTable c hm => exact ⟨_, _, rfl, rfl⟩
  | initPolicyTable c pool4 pool6 hm =>
    rw [hm] at hd
    obtain ⟨a, b, h4, h6⟩ := hd
    refine ⟨c.malloc pool4, a, c.malloc pool6, b, ?_, ?_⟩
    · rw [← h4]
      rfl
    · rw [← h6]
      rfl
  | getInterfaceInfo c i m hm =>
    rw [hm] at hd
    exact hd
  | getPolicy c lines4 lines6 lb4 lb6 hm h4 h6 =>
    rw [hm] at hd
    obtain ⟨m, a, m', b, ha, hb⟩ := hd
    obtain ⟨s4, L4, hrun4, hs4, -⟩ := initLoad_spec (family4 σ.data.ifIngress.vip4) m lines4 a
    obtain ⟨s6, L6, hrun6, hs6, -⟩ := initLoad_spec family6 m' lines6 b
    rw [ha, hrun4, Except.ok.injEq] at h4
    rw [hb, hrun6, Except.ok.injEq] at h6
    subst h4 h6
    exact ⟨⟨L4, hs4⟩, ⟨L6, hs6⟩⟩
  | createError c hm | initError c _ hm =>
    rw [hm] at hd
    cases c <;> exact hd
  | exit => exact hd
  | create _ _ hm | initDone _ _ hm | storeTid _ hm | storeInt _ hm | storeZero _ hm
  | updatePolicy hm | clearCancelEnd hm | pthreadCancel hm =>
    rw [hm] at hd
    exact hd
  | stopped | destroyPolicyTable | destroySvrTbl => trivial

end

end Sasat
