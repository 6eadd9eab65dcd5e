import Sasat.Front.Fresh
import Sasat.Front.Flow
import Sasat.Front.Refusal

/-!
# An address family without its tables

What an address family of the front translator is: the lines of the policy file, and the servers
whose MAC addresses have been found. It has no caches, no lists and no pointers.

* `Exchange`, `Exchange.load`, `Exchange.packet`: the family, after a load, and for a packet.
* `Exchange.Represents`: it stands for the tables of the source.
* **`Represents.getPol`**: a lookup answers as the family does for a packet.
* **`represents_load`**: so does a load.
-/

namespace Sasat

open Outcome

/-- The lines of the policy file that has been loaded, and the servers that are resolved. -/
structure Exchange (n : ℕ) where
  lines : List (PolicyLine n)
  known : Finset (Fin n → Byte)

namespace Exchange

variable {n : ℕ}

/-- A server: packets for the zero address are to be dropped. -/
def status (x : Exchange n) (ip : Fin n → Byte) : SvrStatus :=
  if ip = 0 then .drop else if ip ∈ x.known then .ok else .init

/-- After a load. Every line that names a server which is not resolved yet tries to resolve it. -/
def load (lines : List (PolicyLine n)) : Exchange n :=
  ⟨lines, ((lines.filter fun l => l.outcomes.Resolves).map PolicyLine.svr).toFinset⟩

/-- A packet from `a` and where it goes. For a server that is not resolved there are four attempts,
from `o 3` down; the result of the last one comes too late for the packet. -/
def packet (x : Exchange n) (o : ℕ → MacOutcomes) (a : Fin n → Byte) :
    Option (Fin n → Byte) × Exchange n :=
  match dispatch x.lines a with
  | none => (none, x)
  | some ip =>
    match x.status ip with
    | .drop => (none, x)
    | .ok => (some ip, x)
    | .init => (if ∃ j : ℕ, j < 4 ∧ 0 < j ∧ (o j).Resolves then some ip else none,
        { x with known := if ∃ j : ℕ, j < 4 ∧ (o j).Resolves then insert ip x.known else x.known })

/-! ## Its operations -/

section

variable {x : Exchange n} {o : ℕ → MacOutcomes} {a ip : Fin n → Byte} {v : ServerTbl n}

theorem packet_none (h : dispatch x.lines a = none) : x.packet o a = (none, x) := by
  rw [packet, h]

theorem packet_lines (x : Exchange n) (o : ℕ → MacOutcomes) (a : Fin n → Byte) :
    (x.packet o a).2.lines = x.lines := by
  unfold packet
  split
  · rfl
  · split <;> rfl

/-- **A packet goes to its server or nowhere.** -/
theorem packet_some (h : (x.packet o a).1 = some ip) : dispatch x.lines a = some ip := by
  unfold packet at h
  split at h
  · cases h
  · rename_i ip' hd
    split at h
    · cases h
    · exact hd.trans h
    · dsimp only at h
      split_ifs at h
      exact hd.trans h

theorem trySvr_init_or_ok (o : ℕ → MacOutcomes) : ∀ (k : ℕ) {v : ServerTbl n}, v.status = .init →
    (trySvr o k v).2.status = .init ∨ (trySvr o k v).2.status = .ok
  | 0, _, hv => Or.inl hv
  | k + 1, v, hv => by
    rw [trySvr, if_neg (not_not.mpr hv)]
    rcases (resolveTargetMac_spec (o k) v).2.2 with hst | hst
    · exact trySvr_init_or_ok o k (hst.trans hv)
    · rcases Nat.eq_zero_or_pos k with rfl | hk
      · exact Or.inr hst
      · rw [trySvr_resolved o hk (by rw [hst]; decide)]
        exact Or.inr hst

/-- **A packet resolves its server as the retry loop does.** -/
theorem packet_status (hd : dispatch x.lines a = some ip) (hv : v.status = x.status ip) :
    (x.packet o a).2.status = Function.update x.status ip (trySvr o 4 v).2.status := by
  have hsame (hne : v.status ≠ .init) : (trySvr o 4 v).2.status = x.status ip := by
    rw [trySvr_resolved o (by decide) hne]
    exact hv
  cases hst : x.status ip with
  | drop =>
    rw [hsame (by rw [hv, hst]; decide), Function.update_eq_self, packet, hd]
    dsimp only
    rw [hst]
  | ok =>
    rw [hsame (by rw [hv, hst]; decide), Function.update_eq_self, packet, hd]
    dsimp only
    rw [hst]
  | init =>
    rw [hst] at hv
    have htry := trySvr_status o 4 hv
    have hip : ip ≠ 0 ∧ ip ∉ x.known := by
      unfold status at hst
      split_ifs at hst with h0 hk
      exact ⟨h0, hk⟩
    have hknown : (x.packet o a).2.known =
        if ∃ j : ℕ, j < 4 ∧ (o j).Resolves then insert ip x.known else x.known := by
      rw [packet, hd]
      dsimp only
      rw [hst]
    funext y
    rw [status, hknown]
    by_cases hy : y = ip
    · subst hy
      rw [Function.update_self, if_neg hip.1]
      by_cases hr : ∃ j : ℕ, j < 4 ∧ (o j).Resolves
      · rw [if_pos hr, if_pos (Finset.mem_insert_self ..)]
        rcases trySvr_init_or_ok o 4 hv with h | h
        · obtain ⟨j, hj, hres⟩ := hr
          exact absurd hres (htry.mp h j hj)
        · exact h.symm
      · rw [if_neg hr, if_neg hip.2]
        exact (htry.mpr fun j hj hres => hr ⟨j, hj, hres⟩).symm
    · rw [Function.update_of_ne hy, status]
      have hmem : (y ∈ if ∃ j : ℕ, j < 4 ∧ (o j).Resolves then insert ip x.known else x.known) ↔
          y ∈ x.known := by
        split_ifs
        · rw [Finset.mem_insert, or_iff_right hy]
        · exact Iff.rfl
      simp only [hmem]

/-- **A packet is sent on when the retry loop finds its server.** -/
theorem packet_isSome (hd : dispatch x.lines a = some ip) (hv : v.status = x.status ip) :
    (x.packet o a).1.isSome ↔ (trySvr o 4 v).1 = true ∧ v.status ≠ .drop := by
  rw [packet, hd]
  dsimp only
  cases hst : x.status ip with
  | drop =>
    rw [hst] at hv
    rw [hv]
    exact iff_of_false Bool.false_ne_true fun h => h.2 rfl
  | ok =>
    rw [hst] at hv
    rw [trySvr_resolved o (by decide) (by rw [hv]; decide), hv]
    exact iff_of_true rfl ⟨rfl, by decide⟩
  | init =>
    rw [hst] at hv
    rw [trySvr_found o 4 hv, hv]
    dsimp only
    constructor
    · intro h
      split_ifs at h with hj
      · obtain ⟨j, hj, h0, hr⟩ := hj
        exact ⟨⟨j, h0, hj, hr⟩, by decide⟩
      · cases h
    · rintro ⟨⟨j, h0, hj, hr⟩, -⟩
      rw [if_pos ⟨j, hj, h0, hr⟩]
      rfl

theorem packet_ok (hd : dispatch x.lines a = some ip) (hok : x.status ip = .ok) :
    x.packet o a = (some ip, x) := by
  rw [packet, hd]
  dsimp only
  rw [hok]

/-- **A resolved server stays resolved.** -/
theorem packet_keeps (hok : x.status ip = .ok) : (x.packet o a).2.status ip = .ok := by
  cases hd : dispatch x.lines a with
  | none =>
    rw [packet_none hd]
    exact hok
  | some ip' =>
    rw [packet_status (v := ⟨x.status ip', ip', 0, 0⟩) hd rfl]
    by_cases hip : ip = ip'
    · subst hip
      have hne : x.status ip ≠ .init := by
        rw [hok]
        decide
      rw [Function.update_self, trySvr_resolved o (by decide) hne]
      exact hok
    · rw [Function.update_of_ne hip]
      exact hok

/-- **A packet is forwarded to a resolved server.** -/
theorem packet_found (h : (x.packet o a).1 = some ip) : (x.packet o a).2.status ip = .ok := by
  have hd := packet_some h
  have hsome := (packet_isSome (o := o) (v := ⟨x.status ip, ip, 0, 0⟩) hd rfl).mp
    (Option.isSome_iff_exists.mpr ⟨ip, h⟩)
  obtain ⟨-, hres, hinit⟩ := trySvr_spec o 4 (⟨x.status ip, ip, 0, 0⟩ : ServerTbl n)
  rw [packet_status (v := ⟨x.status ip, ip, 0, 0⟩) hd rfl, Function.update_self]
  cases hst : x.status ip with
  | drop => exact absurd hst hsome.2
  | ok =>
    rw [hst] at hres
    rw [hres SvrStatus.noConfusion (by decide)]
  | init =>
    rw [hst] at hinit hsome
    exact hinit rfl hsome.1

end

/-! ## The tables that it stands for -/

section

variable {D : Type} {F : Family n D} {s s' : PolSide n D} {L L' : CacheList → List CachePtr}
  {x : Exchange n} {o : ℕ → MacOutcomes} {a : Fin n → Byte} {p : Ptr} {f : LbPol n}
  {v : ServerTbl n} {r : Option CachePtr}

/-- The family stands for the tables: the lines are the rules, and the servers are resolved or not,
each of them in one entry. -/
structure Represents (x : Exchange n) (s : PolSide n D) : Prop where
  rules : rules s = x.lines.map fun l => some l.rule
  addr : ∀ q ∈ s.svrHead, ∀ q' ∈ s.svrHead,
    (s.svrs q).map ServerTbl.svrIp = (s.svrs q').map ServerTbl.svrIp → q = q'
  status : ∀ q ∈ s.svrHead, ∀ v, s.svrs q = some v → v.status = x.status v.svrIp

theorem Represents.congr (h : x.Represents s) (hpol : s'.polHead = s.polHead)
    (hpols : s'.pols = s.pols) (hsvr : s'.svrHead = s.svrHead) (hsvrs : s'.svrs = s.svrs) :
    x.Represents s' := by
  have hrule : ruleAt s' = ruleAt s := by
    funext p
    rw [ruleAt, ruleAt, hpols, hsvrs]
  refine ⟨?_, ?_, ?_⟩
  · rw [Sasat.rules, hpol, hrule]
    exact h.rules
  · rw [hsvr, hsvrs]
    exact h.addr
  · rw [hsvr, hsvrs]
    exact h.status

/-- **What a lookup does to the servers**: the one of the first policy that matches goes through the
retry loop, and the packet is dispatched when that finds it. A server in the cache is resolved. -/
theorem looked_svr (hs : SideInv F s L) (h : Looked F o a s L r s' L')
    (hp : firstMatch s a = some p) (hf : s.pols p = some f) (hv : s.svrs f.svr = some v) :
    (∃ w, s'.svrs f.svr = some w ∧ w.svrIp = v.svrIp ∧ w.status = (trySvr o 4 v).2.status) ∧
      (∀ q, q ≠ f.svr → s'.svrs q = s.svrs q) ∧
        (r.isSome ↔ (trySvr o 4 v).1 = true ∧ v.status ≠ .drop) := by
  obtain ⟨hip, hres, hinit⟩ := trySvr_spec o 4 v
  cases h with
  | @hit e he ha =>
    obtain ⟨f', v', hc⟩ := hs.cached he
    have hfirst := hc.first
    rw [ha, hp] at hfirst
    obtain rfl := Option.some.inj hfirst
    obtain rfl := Option.some.inj (hf.symm.trans hc.pol)
    obtain rfl := Option.some.inj (hv.symm.trans hc.svr)
    rw [hres hc.stat.2 (by decide), hc.svrHit]
    refine ⟨⟨_, poke_self hv, rfl, rfl⟩, fun q hq => poke_of_ne hq, ?_⟩
    rcases hc.op with ⟨hst, hop⟩ | ⟨hst, hop, -⟩
    · rw [hop, hst]
      exact iff_of_false Bool.false_ne_true fun h => h.2 rfl
    · rw [hop, hst]
      exact iff_of_true rfl ⟨rfl, by decide⟩
  | none _ hnone =>
    rw [hp] at hnone
    cases hnone
  | unresolved _ hfirst hpol hsvr htry =>
    obtain rfl := Option.some.inj (hp.symm.trans hfirst)
    obtain rfl := Option.some.inj (hf.symm.trans hpol)
    obtain rfl := Option.some.inj (hv.symm.trans hsvr)
    rw [htry]
    exact ⟨⟨_, poke_self hv, hip, rfl⟩, fun q hq => poke_of_ne hq,
      iff_of_false Bool.false_ne_true fun h => Bool.false_ne_true h.1⟩
  | @fill _ _ _ w e _ _ _ _ h =>
    obtain rfl := Option.some.inj (hp.symm.trans h.first)
    obtain rfl := Option.some.inj (hf.symm.trans h.pol)
    obtain rfl := Option.some.inj (hv.symm.trans h.svr)
    rw [h.resolved] at hip hres hinit ⊢
    refine ⟨⟨_, h.svrAfter, hip, rfl⟩, fun q hq => ?_, ?_⟩
    · obtain ⟨c, t, d, rfl⟩ := h.heaps
      exact (poke_of_ne hq).trans (poke_of_ne hq)
    · have hdrop : w.status = .drop ↔ v.status = .drop := by
        by_cases hi : v.status = .init
        · rw [hinit hi rfl, hi]
          exact iff_of_false (by decide) (by decide)
        · obtain rfl : w = v := congrArg Prod.snd (hres hi (by decide))
          exact Iff.rfl
      rw [h.result]
      split_ifs with hd
      · exact iff_of_false Bool.false_ne_true fun h => h.2 (hdrop.mp hd)
      · exact iff_of_true rfl ⟨rfl, hdrop.not.mp hd⟩

theorem looked_none (hs : SideInv F s L) (h : Looked F o a s L r s' L')
    (hp : firstMatch s a = none) : r = none ∧ s' = s := by
  cases h with
  | @hit e he ha =>
    obtain ⟨f', v', hc⟩ := hs.cached he
    have hfirst := hc.first
    rw [ha, hp] at hfirst
    cases hfirst
  | none => exact ⟨rfl, rfl⟩
  | unresolved _ hfirst =>
    rw [hp] at hfirst
    cases hfirst
  | fill _ h =>
    have hfirst := h.first
    rw [hp] at hfirst
    cases hfirst

/-- **A lookup is what the family does for a packet**, whatever the cache holds. -/
theorem Represents.getPol (hx : x.Represents s) (hs : SideInv F s L) (o : ℕ → MacOutcomes)
    (tsc : BitVec 64) (a : Fin n → Byte) : ∃ r s', getPol F o tsc a s = .ok (r, s') ∧
      (x.packet o a).2.Represents s' ∧
        (x.packet o a).1 = r.map fun e => (s'.cache e).lbDstIp := by
  obtain ⟨r, s', L', hget, hs', hext, hlook⟩ := hs.looked o tsc a
  obtain ⟨r₁, s₁, -, hget₁, -, -, hans⟩ := hs.getPol_spec o tsc a
  rw [hget, Except.ok.injEq, Prod.mk.injEq] at hget₁
  obtain ⟨rfl, rfl⟩ := hget₁
  refine ⟨r, s', hget, ?_⟩
  have hrules : Sasat.rules s' = (x.packet o a).2.lines.map fun l => some l.rule := by
    rw [hext.rules hs.live, packet_lines]
    exact hx.rules
  have hmatch := firstMatch_rule hs.live hx.rules a
  cases hp : firstMatch s a with
  | none =>
    obtain ⟨rfl, rfl⟩ := looked_none hs hlook hp
    have hd : dispatch x.lines a = none := by
      rw [dispatch, ← hmatch, hp]
      rfl
    rw [packet_none hd]
    exact ⟨hx, rfl⟩
  | some p =>
    obtain ⟨f, v, hf, hv⟩ := hs.live.pointers p (List.mem_of_find?_eq_some hp)
    have hd : dispatch x.lines a = some v.svrIp := by
      rw [dispatch, ← hmatch, hp, Option.bind_some, ruleAt_eq hf hv]
      rfl
    have hmem : f.svr ∈ s.svrHead := by
      obtain ⟨-, f', hf', hmem⟩ := hs.live.pol p (List.mem_of_find?_eq_some hp)
      obtain rfl := Option.some.inj (hf.symm.trans hf')
      exact hmem
    have hst := hx.status f.svr hmem v hv
    obtain ⟨⟨w, hw, hwip, hwst⟩, hother, hsome⟩ := looked_svr hs hlook hp hf hv
    refine ⟨⟨hrules, ?_, fun q hq u hu => ?_⟩, ?_⟩
    · have hip : ∀ q, (s'.svrs q).map ServerTbl.svrIp = (s.svrs q).map ServerTbl.svrIp := by
        intro q
        by_cases hq : q = f.svr
        · rw [hq, hw, hv, Option.map_some, Option.map_some, hwip]
        · rw [hother q hq]
      rw [hext.svrHead]
      intro q hq q' hq' heq
      rw [hip, hip] at heq
      exact hx.addr q hq q' hq' heq
    · rw [hext.svrHead] at hq
      rw [packet_status hd hst]
      by_cases hqf : q = f.svr
      · subst hqf
        obtain rfl := Option.some.inj (hu.symm.trans hw)
        rw [hwip, Function.update_self, hwst]
      · rw [hother q hqf] at hu
        have hne : u.svrIp ≠ v.svrIp := fun heq =>
          hqf (hx.addr q hq f.svr hmem (by rw [hu, hv, Option.map_some, Option.map_some, heq]))
        rw [Function.update_of_ne hne]
        exact hx.status q hq u hu
    · have hiff := (packet_isSome hd hst).trans hsome.symm
      cases r with
      | none =>
        rw [Option.isSome_none] at hiff
        exact Option.not_isSome_iff_eq_none.mp fun h => Bool.false_ne_true (hiff.mp h)
      | some e =>
        obtain ⟨ip, hip⟩ := Option.isSome_iff_exists.mp (hiff.mpr rfl)
        have hto := (hans.chosen hext).dispatch hs'.live
          ((hext.rules hs.live).trans hx.rules)
        rw [hip, ← packet_some hip, hto]
        rfl

end

/-! ## Loads -/

section

variable {D : Type} {F : Family n D} {s s' : PolSide n D} {lines : List (PolicyLine n)}
  {line : PolicyLine n} {p : Ptr} {ip : Fin n → Byte}

theorem mem_load_known : ip ∈ (load lines).known ↔
    ∃ l ∈ lines, l.outcomes.Resolves ∧ l.svr = ip := by
  simp only [load, List.mem_toFinset, List.mem_map, List.mem_filter, decide_eq_true_eq, and_assoc]

theorem load_status_new (h : ∀ l ∈ lines, l.svr ≠ ip) :
    (load lines).status ip = if ip = 0 then .drop else .init := by
  have hk : ip ∉ (load lines).known := by
    rw [mem_load_known]
    rintro ⟨l, hl, -, hip⟩
    exact h l hl hip
  rw [status, if_neg hk]

/-- **One more line** tries its server, if that is not resolved yet. -/
theorem load_status_snoc (lines : List (PolicyLine n)) (line : PolicyLine n) :
    (load (lines ++ [line])).status = Function.update (load lines).status line.svr
      (if (load lines).status line.svr = .init ∧ line.outcomes.Resolves then .ok
        else (load lines).status line.svr) := by
  have hk : ∀ ip, ip ∈ (load (lines ++ [line])).known ↔
      ip ∈ (load lines).known ∨ line.outcomes.Resolves ∧ line.svr = ip := by
    intro ip
    simp only [mem_load_known, List.mem_append, List.mem_singleton, or_and_right, exists_or,
      exists_eq_left]
  funext ip
  by_cases hip : ip = line.svr
  · subst hip
    rw [Function.update_self]
    simp only [status, hk, and_true]
    by_cases h0 : line.svr = 0
    · simp [h0]
    · by_cases hmem : line.svr ∈ (load lines).known
      · simp [h0, hmem]
      · simp [h0, hmem]
  · rw [Function.update_of_ne hip]
    simp only [status, hk, Ne.symm hip, and_false, or_false]

/-- The server table after some lines. -/
structure LoadedSvrs (lines : List (PolicyLine n)) (s : PolSide n D) : Prop where
  named : ∀ l ∈ lines, ∃ q ∈ s.svrHead, ∃ v, s.svrs q = some v ∧ v.svrIp = l.svr
  status : ∀ q ∈ s.svrHead, ∀ v, s.svrs q = some v → v.status = (load lines).status v.svrIp

theorem findSvrTbl_loaded (hl : Live s) (h : LoadedSvrs lines s)
    (hrun : findSvrTbl ip s = .ok (p, s')) : LoadedSvrs lines s' ∧ p ∈ s'.svrHead ∧
      ∃ v, s'.svrs p = some v ∧ v.svrIp = ip := by
  obtain ⟨p', s₁, hfind, hgot⟩ := findSvrTbl_spec hl ip
  rw [hrun, Except.ok.injEq, Prod.mk.injEq] at hfind
  obtain ⟨rfl, rfl⟩ := hfind
  refine ⟨?_, hgot.mem, hgot.svr⟩
  obtain ⟨x, hsearch, hrun⟩ := bind_eq_ok.mp hrun
  cases x with
  | some q =>
    cases hrun
    exact h
  | none =>
    cases hrun
    have hnone := findSvr_none hsearch
    have hne : ∀ q ∈ s.svrHead, q ≠ s.brk := fun q hq => (hl.svr q hq).1.ne
    refine ⟨fun l hline => ?_, fun q hq v hv => ?_⟩
    · obtain ⟨q, hq, v, hv, hip⟩ := h.named l hline
      exact ⟨q, List.mem_cons_of_mem _ hq, v, (Function.update_of_ne (hne q hq) _ _).trans hv, hip⟩
    · dsimp only at hv
      rcases List.mem_cons.mp hq with rfl | hq
      · rw [Function.update_self, Option.some.injEq] at hv
        subst hv
        refine (load_status_new fun l hline hip => ?_).symm
        obtain ⟨q, hq, v, hv, hv'⟩ := h.named l hline
        exact hnone q hq v hv (hv'.trans hip)
      · rw [Function.update_of_ne (hne q hq)] at hv
        exact h.status q hq v hv

/-- **A line makes of the server table** what the abstract load does. -/
theorem loadLine_loaded (hl : Live s) (hf : Fresh s) (h : LoadedSvrs lines s)
    (hrun : loadLine s line = .ok s') : LoadedSvrs (lines ++ [line]) s' := by
  obtain ⟨⟨p, s₁⟩, hget, hrun⟩ := bind_eq_ok.mp hrun
  cases hrun
  obtain ⟨⟨p', s₂⟩, hfind, hget⟩ := bind_eq_ok.mp hget
  obtain ⟨h₂, hp, v, hv, hip⟩ := findSvrTbl_loaded hl h hfind
  have hf₂ := findSvrTbl_fresh hl hf hfind
  obtain ⟨v', hderef, hget⟩ := bind_eq_ok.mp hget
  rw [deref_eq hv, Except.ok.injEq] at hderef
  subst hderef
  -- the entry of the server, and all the others
  suffices hw : p = p' ∧ s₁.svrHead = s₂.svrHead ∧ (∀ q, q ≠ p → s₁.svrs q = s₂.svrs q) ∧
      ∃ w, s₁.svrs p = some w ∧ w.svrIp = line.svr ∧ w.status =
        if (load lines).status line.svr = .init ∧ line.outcomes.Resolves then .ok
        else (load lines).status line.svr by
    obtain ⟨rfl, hhead, hother, w, hw, hwip, hwst⟩ := hw
    refine ⟨fun l hline => ?_, fun q hq u hu => ?_⟩
    · obtain ⟨q, hq, u, hu, huip⟩ : ∃ q ∈ s₂.svrHead, ∃ u, s₂.svrs q = some u ∧
          u.svrIp = l.svr := by
        rcases List.mem_append.mp hline with hline | hline
        · exact h₂.named l hline
        · rw [List.mem_singleton.mp hline]
          exact ⟨p, hp, v, hv, hip⟩
      by_cases hqp : q = p
      · subst hqp
        obtain rfl := Option.some.inj (hu.symm.trans hv)
        exact ⟨q, hhead ▸ hq, w, hw, by rw [hwip, ← huip, hip]⟩
      · exact ⟨q, hhead ▸ hq, u, (hother q hqp).trans hu, huip⟩
    · replace hq : q ∈ s₂.svrHead := hhead ▸ hq
      rw [load_status_snoc]
      by_cases hqp : q = p
      · subst hqp
        obtain rfl := Option.some.inj (hu.symm.trans hw)
        rw [hwip, Function.update_self, hwst]
      · have hu₂ : s₂.svrs q = some u := (hother q hqp).symm.trans hu
        have hne : u.svrIp ≠ line.svr := fun heq =>
          hqp (hf₂.addr q hq p hp (by rw [hu₂, hv, Option.map_some, Option.map_some, heq, hip]))
        rw [Function.update_of_ne hne]
        exact h₂.status q hq u hu₂
  have hst := h₂.status p' hp v hv
  rw [hip] at hst
  split_ifs at hget with hinit
  · cases hget
    refine ⟨rfl, rfl, fun q hq => poke_of_ne hq, _, poke_self hv,
      (resolveTargetMac_spec _ v).1.trans hip, ?_⟩
    rw [resolveTargetMac_status, ← hst, hinit]
    simp only [true_and]
  · cases hget
    refine ⟨rfl, rfl, fun q _ => rfl, v, hv, hip, ?_⟩
    rw [← hst, if_neg fun h => hinit h.1]

theorem getPolicy_loaded : ∀ (lines : List (PolicyLine n)) {old : List (PolicyLine n)}
    {s : PolSide n D}, Live s → Fresh s → LoadedSvrs old s → getPolicy lines s = .ok s' →
      LoadedSvrs (old ++ lines) s' := by
  intro lines
  induction lines with
  | nil =>
    intro old s _ _ h hrun
    cases hrun
    rwa [List.append_nil]
  | cons line lines ih =>
    intro old s hl hf h hrun
    rw [getPolicy, List.foldlM_cons] at hrun
    obtain ⟨s₁, hline, hrun⟩ := bind_eq_ok.mp hrun
    obtain ⟨s₁', hline', hl₁, -⟩ := loadLine_spec hl line
    rw [hline', Except.ok.injEq] at hline
    subst hline
    have h₁ := ih hl₁ (loadLine_fresh hl hf hline') (loadLine_loaded hl hf h hline') hrun
    rwa [List.append_assoc, List.singleton_append] at h₁

/-- **A load ends in tables that the loaded family stands for.** -/
theorem represents_load (F : Family n D) {malloc : Option (Fin lbMaxCache → LbPolCache n D)}
    (hrun : getPolicy lines (initPolicyTable malloc (initSvrMngTable s)) = .ok s') :
    (load lines).Represents s' := by
  obtain ⟨s₁, L, hrun₁, -, hrules⟩ := initLoad_spec F malloc lines s
  obtain ⟨s₂, L₂, hrun₂, -, hfresh, -⟩ := load_spec F malloc lines s
  rw [hrun, Except.ok.injEq] at hrun₁ hrun₂
  subst hrun₁ hrun₂
  have hempty := init_empty malloc s
  obtain ⟨c, q, heq⟩ := initPolicyTable_eq malloc (initSvrMngTable s)
  have hfresh₀ : Fresh (initPolicyTable malloc (initSvrMngTable s)) := by
    rw [heq]
    exact ⟨⟨List.nodup_nil, fun _ hq => absurd hq List.not_mem_nil, rfl⟩, List.nodup_nil,
      fun _ hq => absurd hq List.not_mem_nil, fun _ hq => absurd hq List.not_mem_nil⟩
  have hloaded₀ : LoadedSvrs ([] : List (PolicyLine n))
      (initPolicyTable malloc (initSvrMngTable s)) := by
    refine ⟨fun _ hl => absurd hl List.not_mem_nil, fun q hq => ?_⟩
    rw [hempty.2] at hq
    exact absurd hq List.not_mem_nil
  have hloaded := getPolicy_loaded lines (.of_empty hempty) hfresh₀ hloaded₀ hrun
  rw [List.nil_append] at hloaded
  exact ⟨hrules, hfresh.addr, hloaded.status⟩

end

end Exchange

end Sasat
