import Sasat.Front.Sides

/-!
# Servers with a MAC address

The attempts of `resolve_target_mac` write the MAC address of a server before they have succeeded.

* `SvrsResolved`: a server of the list with the status `SVR_OK` has a MAC address.
* **`getPolicy_resolved`**, `Looked.resolved`: loads and lookups keep that.
* **`getPol_resolved`**: what a lookup returns has the MAC address of its server.
* **`frontIngress1_resolved`**: so have the packets that are forwarded.
* **`FrontReach.resolved`**: all servers of a reachable state.
-/

namespace Sasat

open Outcome

section

variable {n : ℕ} {D : Type} {F : Family n D} {s s' : PolSide n D} {L L' : CacheList → List CachePtr}
  {a : Fin n → Byte} {o : ℕ → MacOutcomes} {r : Option CachePtr}

/-- A server that is resolved has a MAC address. -/
def ServerTbl.Resolved (v : ServerTbl n) : Prop := v.status = .ok → v.dstMac ≠ 0

theorem resolveLoop_resolved : ∀ (os : List MacOutcome) {v : ServerTbl n}, v.status ≠ .ok →
    (resolveLoop os v).Resolved
  | [], _, hv => fun h => absurd h hv
  | x :: os, v, hv => by
    rw [resolveLoop]
    split_ifs with hok hmac
    · exact resolveLoop_resolved os hv
    · exact resolveLoop_resolved os hv
    · exact fun _ => hmac

/-- **The status is set when the MAC address is there.** -/
theorem resolveTargetMac_resolved (o : MacOutcomes) {v : ServerTbl n} (hv : v.status = .init) :
    (resolveTargetMac o v).Resolved :=
  resolveLoop_resolved _ (by rw [hv]; decide)

theorem trySvr_keeps_resolved (o : ℕ → MacOutcomes) : ∀ (k : ℕ) {v : ServerTbl n}, v.Resolved →
    (trySvr o k v).2.Resolved
  | 0, _, hv => hv
  | k + 1, v, hv => by
    rw [trySvr]
    split_ifs with h
    · exact hv
    · exact trySvr_keeps_resolved o k (resolveTargetMac_resolved (o k) (not_not.mp h))

/-- The servers of the list that are resolved have a MAC address. -/
def SvrsResolved (s : PolSide n D) : Prop := ∀ q ∈ s.svrHead, ∀ v, s.svrs q = some v → v.Resolved

namespace SvrsResolved

theorem congr (h : SvrsResolved s) (hhead : s'.svrHead = s.svrHead) (hsvrs : s'.svrs = s.svrs) :
    SvrsResolved s' := by
  intro q hq v hv
  rw [hhead] at hq
  rw [hsvrs] at hv
  exact h q hq v hv

theorem of_empty (h : s.svrHead = []) : SvrsResolved s := by
  intro q hq
  rw [h] at hq
  exact absurd hq List.not_mem_nil

theorem modSvr (h : SvrsResolved s) (q : Ptr) {f : ServerTbl n → ServerTbl n}
    (hf : ∀ v, s.svrs q = some v → v.Resolved → (f v).Resolved) : SvrsResolved (s.modSvr q f) := by
  intro p hp w hw
  by_cases hpq : p = q
  · subst hpq
    obtain ⟨v, hv⟩ : ∃ v, s.svrs p = some v := by
      cases hv : s.svrs p with
      | some v => exact ⟨v, rfl⟩
      | none =>
        rw [show (s.modSvr p f).svrs p = poke s.svrs p f p from rfl, poke, Function.update_self,
          hv] at hw
        cases hw
    rw [show (s.modSvr p f).svrs p = some (f v) from poke_self hv] at hw
    cases hw
    exact hf v hv (h p hp v hv)
  · exact h p hp w ((poke_of_ne hpq).symm.trans hw)

theorem countHit (h : SvrsResolved s) (p q : Ptr) : SvrsResolved (Sasat.countHit p q s) :=
  (h.congr rfl rfl : SvrsResolved (s.modPol p _)).modSvr q fun _ _ hv => hv

end SvrsResolved

/-! ## Loads -/

theorem findSvrTbl_resolved (hs : Live s) (h : SvrsResolved s) (addr : Fin n → Byte) :
    Post (fun x => SvrsResolved x.2) (fun _ => True) (findSvrTbl addr s) := by
  refine .bind .trivial fun found _ => ?_
  cases found with
  | some p => exact h
  | none =>
    intro q hq v hv
    rcases List.mem_cons.mp hq with rfl | hq
    · simp only [Function.update_self, Option.some.injEq] at hv
      subst hv
      intro hok
      dsimp only at hok
      split_ifs at hok
    · have hne := (hs.svr q hq).1.ne
      exact h q hq v ((Function.update_of_ne hne _ _).symm.trans hv)

theorem getSvrTable_resolved (hs : Live s) (h : SvrsResolved s) (o : MacOutcomes)
    (addr : Fin n → Byte) :
    Post (fun x => SvrsResolved x.2) (fun _ => True) (getSvrTable o addr s) := by
  refine .bind (findSvrTbl_resolved hs h addr) fun ⟨p, s₁⟩ h₁ => ?_
  have hderef : Post (fun v => s₁.svrs p = some v) (fun _ => True) (deref s₁.svrs p) := by
    cases hv : s₁.svrs p with
    | none =>
      rw [deref, hv]
      trivial
    | some v =>
      rw [deref_eq hv]
      exact rfl
  refine .bind hderef fun v hv => .ite (fun hinit => h₁.modSvr p fun w hw _ => ?_) fun _ => h₁
  obtain rfl := Option.some.inj (hw.symm.trans hv)
  exact resolveTargetMac_resolved o hinit

theorem loadLine_resolved (hs : Live s) (h : SvrsResolved s) (line : PolicyLine n) :
    Post SvrsResolved (fun _ => True) (loadLine s line) :=
  .bind (getSvrTable_resolved hs h line.outcomes line.svr) fun _ h => h.congr rfl rfl

/-- **A load leaves resolved servers.** -/
theorem getPolicy_resolved (lines : List (PolicyLine n)) : ∀ {s s' : PolSide n D}, Live s →
    SvrsResolved s → getPolicy lines s = .ok s' → SvrsResolved s' := by
  induction lines with
  | nil =>
    intro s s' _ h hrun
    cases hrun
    exact h
  | cons line lines ih =>
    intro s s' hs h hrun
    obtain ⟨s₁, hload, hlive, -⟩ := loadLine_spec hs line
    rw [getPolicy, List.foldlM_cons, hload] at hrun
    exact ih hlive ((loadLine_resolved hs h line).of_ok hload) hrun

theorem initLoad_resolved (malloc : Option (Fin lbMaxCache → LbPolCache n D))
    (lines : List (PolicyLine n)) {s s' : PolSide n D}
    (h : getPolicy lines (initPolicyTable malloc (initSvrMngTable s)) = .ok s') : SvrsResolved s' :=
  getPolicy_resolved lines (.of_empty (init_empty malloc s)) (.of_empty (init_empty malloc s).2) h

/-! ## Lookups -/

/-- **A lookup leaves resolved servers.** -/
theorem Looked.resolved (h : Looked F o a s L r s' L') (hs : SvrsResolved s) : SvrsResolved s' := by
  have htry {f : LbPol n} {v : ServerTbl n} (hsvr : s.svrs f.svr = some v) :
      SvrsResolved (s.modSvr f.svr fun _ => (trySvr o 4 v).2) := hs.modSvr f.svr fun w hw hres => by
    obtain rfl := Option.some.inj (hw.symm.trans hsvr)
    exact trySvr_keeps_resolved o 4 hres
  cases h with
  | hit => exact (hs.congr rfl rfl : SvrsResolved (s.modCache _ _)).countHit _ _
  | none => exact hs
  | unresolved _ _ _ hsvr _ => exact htry hsvr
  | @fill p f v w _ _ _ _ _ h =>
    obtain ⟨c, q, d, heq⟩ := h.heaps
    have hw := htry h.svr
    rw [h.resolved] at hw
    have hpol : SvrsResolved ((s.modSvr f.svr fun _ => w).modPol p fun f =>
        { f with useCount := f.useCount + 1 }) := hw.congr rfl rfl
    rw [heq]
    exact (hpol.countHit p f.svr).congr rfl rfl

theorem Answer.dstMac (h : Answer F s a r s') (hlive : Live s) (hext : Extends s s')
    (hs : SvrsResolved s) (hs' : SvrsResolved s') {e : CachePtr} (he : r = some e) :
    (s'.cache e).lbDstMac ≠ 0 := by
  subst he
  unfold Answer at h
  cases hfirst : firstMatch s a with
  | none =>
    rw [hfirst] at h
    cases h
  | some p =>
    rw [hfirst] at h
    obtain ⟨f, v, v', hf, hv, hv', -, hans⟩ := h
    obtain ⟨-, f', hf', hmem⟩ := hlive.pol p (List.mem_of_find?_eq_some hfirst)
    obtain rfl := Option.some.inj (hf'.symm.trans hf)
    have hmem' : f'.svr ∈ s'.svrHead := by rwa [hext.svrHead]
    cases hst : v.status with
    | drop =>
      rw [hst] at hans
      cases hans
    | ok =>
      rw [hst] at hans
      obtain ⟨e', he', hserves⟩ := hans
      cases he'
      rw [hserves.2.1]
      exact hs f'.svr hmem v hv hst
    | init =>
      rw [hst] at hans
      rcases hans with hnone | ⟨e', he', hst', hserves⟩
      · cases hnone
      · cases he'
        rw [hserves.2.1]
        exact hs' f'.svr hmem' v' hv' hst'

/-- **A lookup returns an entry with a MAC address**, if any. -/
theorem getPol_resolved (hs : SideInv F s L) (h : SvrsResolved s) (o : ℕ → MacOutcomes)
    (tsc : BitVec 64) (a : Fin n → Byte) : ∃ r s', getPol F o tsc a s = .ok (r, s') ∧
      SvrsResolved s' ∧ ∀ e, r = some e → (s'.cache e).lbDstMac ≠ 0 := by
  obtain ⟨r, s', L', hget, -, hext, hans⟩ := hs.getPol_spec o tsc a
  obtain ⟨r', s'', L'', hget', -, -, hlook⟩ := hs.looked o tsc a
  cases hget'.symm.trans hget
  have h' := hlook.resolved h
  exact ⟨r, s', hget, h', fun e he => hans.dstMac hs.live hext h h' he⟩

theorem patrolSide_resolved (hs : SideInv F s L) (h : SvrsResolved s)
    (hrun : patrolSide s = .ok s') : SvrsResolved s' := by
  obtain ⟨c, q, p, d, rfl⟩ := patrolSide_eq hs hrun
  exact h.congr rfl rfl

end

/-! ## The translator -/

/-- The servers of both families that are resolved have a MAC address. -/
structure FrontSvrs (s : FrontState) : Prop where
  svrs4 : SvrsResolved s.lb4
  svrs6 : SvrsResolved s.lb6

section

variable {s : FrontState} {o : ℕ → MacOutcomes} {tsc : BitVec 64} {b : Buf} {len : ℕ}

theorem getPolV4_resolved (hs : FrontInv s) (h : FrontSvrs s) (o : ℕ → MacOutcomes)
    (tsc : BitVec 64) (a : InAddr) : ∃ r lb, getPolV4 o tsc a s = .ok (r, { s with lb4 := lb }) ∧
      FrontSvrs { s with lb4 := lb } ∧ ∀ e, r = some e → (lb.cache e).lbDstMac ≠ 0 := by
  obtain ⟨L, hL⟩ := hs.side4
  obtain ⟨r, lb, hget, hlb, hmac⟩ := getPol_resolved hL h.svrs4 o tsc a
  refine ⟨r, lb, ?_, ⟨hlb, h.svrs6⟩, hmac⟩
  rw [getPolV4, hget]
  rfl

theorem getPolV6_resolved (hs : FrontInv s) (h : FrontSvrs s) (o : ℕ → MacOutcomes)
    (tsc : BitVec 64) (a : In6Addr) : ∃ r lb, getPolV6 o tsc a s = .ok (r, { s with lb6 := lb }) ∧
      FrontSvrs { s with lb6 := lb } ∧ ∀ e, r = some e → (lb.cache e).lbDstMac ≠ 0 := by
  obtain ⟨L, hL⟩ := hs.side6
  obtain ⟨r, lb, hget, hlb, hmac⟩ := getPol_resolved hL h.svrs6 o tsc a
  refine ⟨r, lb, ?_, ⟨h.svrs4, hlb⟩, hmac⟩
  rw [getPolV6, hget]
  rfl

/-- What the handling of a frame does: the servers stay resolved, and the packet that is forwarded
goes to a MAC address. -/
structure SentResolved (s s' : FrontState) : Prop where
  svrs : FrontSvrs s'
  wrote : Wrote (Destined .procV4 .procV6) s.io s'.io

theorem SentResolved.of_io (h : FrontSvrs s) {io : Io FrontStat}
    (hw : Wrote (Destined .procV4 .procV6) s.io io) : SentResolved s { s with io := io } :=
  ⟨⟨h.svrs4, h.svrs6⟩, hw⟩

theorem procV4_resolved (hs : FrontInv s) (h : FrontSvrs s) (hlen : 34 < len) :
    Post (fun x => SentResolved s x.2) (fun _ => True) (procV4 o tsc b len s) := by
  refine .ite (fun _ => .of_io h (.none rfl)) fun _ => ?_
  obtain ⟨r, lb, hget, hsvrs, hmac⟩ := getPolV4_resolved hs h o tsc (ipSrc b)
  rw [hget]
  cases r with
  | none => exact ⟨⟨hsvrs.svrs4, hsvrs.svrs6⟩, .none rfl⟩
  | some e =>
    refine ⟨⟨hsvrs.svrs4, hsvrs.svrs6⟩, Or.inr ⟨_, rfl, fun _ => ?_⟩⟩
    rw [hDest, load_recvBuf_frame (by omega), load_store_of_disjoint _ _ (by omega),
      load_store_of_disjoint _ _ (by omega), load_store_of_disjoint _ _ (by omega),
      load_store_self]
    exact hmac e rfl

theorem procV6_resolved (hs : FrontInv s) (h : FrontSvrs s) (hlen : 54 < len) :
    Post (fun x => SentResolved s x.2) (fun _ => True) (procV6 o tsc b len s) := by
  refine .ite (fun _ => .of_io h (.none rfl)) fun _ => ?_
  obtain ⟨r, lb, hget, hsvrs, hmac⟩ := getPolV6_resolved hs h o tsc (ip6Src b)
  rw [hget]
  cases r with
  | none => exact ⟨⟨hsvrs.svrs4, hsvrs.svrs6⟩, .none rfl⟩
  | some e =>
    refine ⟨⟨hsvrs.svrs4, hsvrs.svrs6⟩, Or.inr ⟨_, rfl, fun _ => ?_⟩⟩
    rw [hDest, load_recvBuf_frame (by omega), load_store_of_disjoint _ _ (by omega),
      load_store_of_disjoint _ _ (by omega), load_store_self]
    exact hmac e rfl

/-- **The packets that are forwarded go to a MAC address.** -/
theorem frontIngress1_resolved (hs : FrontInv s) (h : FrontSvrs s) (lim : ℕ) :
    Post (fun x => SentResolved s x.2) (fun _ => True) (frontIngress1 lim o tsc b len s) := by
  have hstat (m : FrontStat) : SentResolved s (s.stat m) := .of_io h (.none rfl)
  have harp : ∀ bytes, Destined .procV4 .procV6 ⟨.arpReply, s.ifIngress.sockfd, bytes⟩ :=
    fun _ => .other Sender.noConfusion Sender.noConfusion
  have hna : ∀ bytes, Destined .procV4 .procV6 ⟨.sendIcmp6Na, s.ifIngress.sockfd, bytes⟩ :=
    fun _ => .other Sender.noConfusion Sender.noConfusion
  refine frontIngress1_post (fun _ => hstat _) fun _ c hc => ?_
  cases c with
  | own => exact ⟨h, .none rfl⟩
  | short4 | short6 | noip => exact .of_io h (.none rfl)
  | multicast =>
    refine .ite (fun _ => ?_) fun _ => hstat _
    exact .bind (macResolve_wrote frontArpStats s.ifIngress b _ harp hna lim (hProto b) len)
      fun _ hw => .of_io h hw
  | v4 =>
    exact (procV4_resolved (s := s.stat .rxPacketV4) ⟨hs.side4, hs.side6⟩ ⟨h.svrs4, h.svrs6⟩
      (of_decide_eq_true hc.2.2)).mono (fun _ hx => ⟨hx.svrs, hx.wrote⟩) fun _ h => h
  | v6 =>
    exact (procV6_resolved (s := s.stat .rxPacketV6) ⟨hs.side4, hs.side6⟩ ⟨h.svrs4, h.svrs6⟩
      hc.2.2.1).mono (fun _ hx => ⟨hx.svrs, hx.wrote⟩) fun _ h => h
  | ns =>
    refine .ite (fun _ => ?_) fun _ => hstat _
    exact .bind (macResolveUc6_wrote frontArpStats s.ifIngress b _ hna lim len)
      fun _ hw => .of_io h hw
  | arp =>
    exact .ite (fun _ => .of_io h (arpReply_wrote frontArpStats s.ifIngress b s.io harp))
      fun _ => ⟨h, .none rfl⟩

theorem FrontOp.step_resolved {s' : FrontState} (hs : FrontInv s) (h : FrontSvrs s) (op : FrontOp)
    (hstep : op.step s = .ok s') : FrontSvrs s' := by
  cases op with
  | getPol4 o tsc a =>
    obtain ⟨r, lb, hget, hsvrs, -⟩ := getPolV4_resolved hs h o tsc a
    rw [FrontOp.step, hget] at hstep
    cases hstep
    exact hsvrs
  | getPol6 o tsc a =>
    obtain ⟨r, lb, hget, hsvrs, -⟩ := getPolV6_resolved hs h o tsc a
    rw [FrontOp.step, hget] at hstep
    cases hstep
    exact hsvrs
  | patrol =>
    obtain ⟨x, hrun, hstep⟩ := bind_eq_ok.mp hstep
    cases hstep
    obtain ⟨L4, h4⟩ := hs.side4
    obtain ⟨L6, h6⟩ := hs.side6
    obtain ⟨hrun4, hrun6, -⟩ := procPatrol_sides hrun
    exact ⟨patrolSide_resolved h4 h.svrs4 hrun4, patrolSide_resolved h6 h.svrs6 hrun6⟩
  | reload i m lines4 lines6 =>
    obtain ⟨lb4, hrun4, hstep⟩ := bind_eq_ok.mp hstep
    obtain ⟨lb6, hrun6, hstep⟩ := bind_eq_ok.mp hstep
    cases hstep
    exact ⟨initLoad_resolved _ _ hrun4, initLoad_resolved _ _ hrun6⟩

end

/-- **In every reachable state the servers that are resolved have a MAC address.** -/
theorem FrontReach.resolved {s : FrontState} (h : FrontReach s) : FrontSvrs s := by
  induction h with
  | init pool4 pool6 i m lines4 lines6 mem s hinit =>
    obtain ⟨lb4, hrun4, hinit⟩ := bind_eq_ok.mp hinit
    obtain ⟨lb6, hrun6, hinit⟩ := bind_eq_ok.mp hinit
    cases hinit
    exact ⟨initLoad_resolved _ _ hrun4, initLoad_resolved _ _ hrun6⟩
  | op op hprev hstep ih => exact op.step_resolved hprev.inv.1 ih hstep
  | @recv s s' b b' lim o tsc len hprev hrecv ih =>
    exact ((frontIngress1_resolved hprev.inv.1 ih lim).of_ok hrecv).svrs

end Sasat
