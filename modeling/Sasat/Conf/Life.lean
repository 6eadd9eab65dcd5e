import Sasat.Conf.PolicyFile
import Sasat.Front.Flow

/-!
# From the text of a policy file to the packets

The translator reads its policies from the bytes of a file, at the start and at every reload, and
dispatches the packets by its tables and caches. What comes out is what the text says.

* `textRule`, `textServer`: the rule of a line, and the server of the first line of a text that
  matches.
* `GoodText`: a file with short lines that the parser handles as they demand.
* `startText`, `reloadText`: `get_policy` on a file, at the start and in `update_policy`.
* `TextLife`: the states of the translator, with the file that was read last.
* **`TextLife.life`**: it lives as the translator that is given the lines.
* **`text_dispatch`**: a packet goes to the server that the text says.
-/

namespace Sasat

/-! ## What a text says -/

section

variable {n : ℕ}

def textRule (accept : List Byte → Option (Fin n → Byte)) (buff : List Byte) : Option (Rule n) :=
  match (fields buff).map accept with
  | [some a, some m, some v] => some (maskIp a m, m, v)
  | _ => none

/-- The server of the first line that matches the address `a`, if the family is enabled. -/
def textServer (accept : List Byte → Option (Fin n → Byte)) (enable : Bool) (ls : List (List Byte))
    (a : Fin n → Byte) : Option (Fin n → Byte) :=
  if enable then
    ((ls.filterMap (textRule accept)).find? fun r => maskIp a r.2.1 = r.1).map fun r => r.2.2
  else none

variable {accept : List Byte → Option (Fin n → Byte)} {enable : Bool}

theorem policyLine_rule (o : MacOutcomes) (buff : List Byte) :
    (policyLine accept enable o buff).map PolicyLine.rule =
      if enable then textRule accept buff else none := by
  rw [policyLine, textRule]
  generalize (fields buff).map accept = l
  rcases l with _ | ⟨_ | a, _ | ⟨_ | m, _ | ⟨_ | v, _ | ⟨w, l⟩⟩⟩⟩ <;> cases enable <;> rfl

theorem policyLines_rules (enable : Bool) : ∀ (ls : List (List Byte)) (c : ℕ → Call),
    (policyLines accept enable c ls).map PolicyLine.rule =
      if enable then ls.filterMap (textRule accept) else []
  | [], _ => (ite_self _).symm
  | l :: ls, c => by
    rw [policyLines, List.map_append, policyLines_rules enable ls, ← Option.toList_map,
      policyLine_rule, List.filterMap_cons]
    split_ifs
    · cases textRule accept l <;> rfl
    · rfl

/-- **The abstract dispatcher on the lines of a text** looks for the first line that matches. -/
theorem dispatch_policyLines (c : ℕ → Call) (ls : List (List Byte)) (a : Fin n → Byte) :
    dispatch (policyLines accept enable c ls) a = textServer accept enable ls a := by
  rw [dispatch, firstRule, policyLines_rules, textServer]
  split_ifs
  · rfl
  · rfl

end

/-! ## Reading a file -/

/-- A policy file: its lines are short, and the parser handles those that it is given. -/
structure GoodText (pton : InetPton) (i : Ifdata) (bytes : List Byte) : Prop where
  short : ∀ l ∈ Lines.lines newline bytes, l.length < 256
  proper : ∀ l ∈ givenLines 256 skipPolicy bytes, Proper pton i l

def textFiles (pton : InetPton) (i : Ifdata) (c : ℕ → Call) (bytes : List Byte) :
    List (PolicyLine 4) × List (PolicyLine 16) :=
  (policyLines pton.v4 i.v4Enable c (givenLines 256 skipPolicy bytes),
    policyLines pton.v6 i.v6Enable c (givenLines 256 skipPolicy bytes))

section

variable (pton : InetPton) (stale : ℕ → List Byte) (c : ℕ → Call) (k : ℕ) (i : Ifdata) (m : Bool)
  (bytes : List Byte)

/-- The start of the translator, with `get_policy` on a file. -/
def startText (pool4 : Fin lbMaxCache → LbPolCache 4 (BitVec 16))
    (pool6 : Fin lbMaxCache → LbPolCache 16 Unit) (mem : FrontState) : Option (M FrontState) :=
  readPolicy pton stale c k (fopen bytes false) { mem.withConfig i m with
    lb4 := initPolicyTable (some pool4) (initSvrMngTable mem.lb4)
    lb6 := initPolicyTable (some pool6) (initSvrMngTable mem.lb6) }

/-- `update_policy`, with `get_policy` on a file. -/
def reloadText (s : FrontState) : Option (M FrontState) :=
  readPolicy pton stale c k (fopen bytes false) { s.withConfig i m with
    lb4 := initPolicyTable none (initSvrMngTable (destroySvrTbl (destroyPolicyTable s.lb4)))
    lb6 := initPolicyTable none (initSvrMngTable (destroySvrTbl (destroyPolicyTable s.lb6))) }

end

section

variable {pton : InetPton} {stale : ℕ → List Byte} {c : ℕ → Call} {k : ℕ} {i : Ifdata} {m : Bool}
  {bytes : List Byte} {s s' : FrontState}

/-- **Reading a file is loading its lines**, for some number of turns of the loop. -/
theorem readPolicy_lines (hg : GoodText pton s.ifIngress bytes) (h4 : Live s.lb4)
    (h6 : Live s.lb6) : ∃ lb4 lb6,
      getPolicy (textFiles pton s.ifIngress c bytes).1 s.lb4 = .ok lb4 ∧
      getPolicy (textFiles pton s.ifIngress c bytes).2 s.lb6 = .ok lb6 ∧
      (∃ k, readPolicy pton stale c k (fopen bytes false) s =
        some (.ok { s with lb4 := lb4, lb6 := lb6 })) ∧
      ∀ k s', readPolicy pton stale c k (fopen bytes false) s = some (.ok s') →
        s' = { s with lb4 := lb4, lb6 := lb6 } := by
  obtain ⟨lb4, lb6, hrun, hload4, hload6⟩ := @parseLines_load pton _ c s h4 h6 hg.proper
  have hloop := @readLoop_iff 256 skipPolicy stale (fopen bytes false) (by decide) rfl hg.short
  have hread : ∀ {k r}, parsePolicy stale k (fopen bytes false) = .ok r →
      readPolicy pton stale c k (fopen bytes false) s = parseLines pton c r s := by
    intro k r h
    rw [readPolicy, h]
  refine ⟨lb4, lb6, hload4, hload6, ?_, fun k s' h => ?_⟩
  · obtain ⟨k, hk⟩ := (hloop (givenLines 256 skipPolicy bytes)).mpr ⟨rfl, rfl⟩
    exact ⟨k, (hread hk).trans hrun⟩
  · cases hr : parsePolicy stale k (fopen bytes false) with
    | error e =>
      rw [readPolicy, hr] at h
      cases h
    | ok r =>
      obtain ⟨-, rfl⟩ := (hloop r).mp ⟨k, hr⟩
      rw [hread hr] at h
      exact (Except.ok.inj (Option.some.inj (hrun.symm.trans h))).symm

/-- **The start on a file is the start on its lines.** -/
theorem startText_eq (hg : GoodText pton i bytes)
    (pool4 : Fin lbMaxCache → LbPolCache 4 (BitVec 16))
    (pool6 : Fin lbMaxCache → LbPolCache 16 Unit) (mem : FrontState) : ∃ s,
      frontInit pool4 pool6 i m (textFiles pton i c bytes).1 (textFiles pton i c bytes).2 mem =
        .ok s ∧
      (∃ k, startText pton stale c k i m bytes pool4 pool6 mem = some (.ok s)) ∧
      ∀ k s', startText pton stale c k i m bytes pool4 pool6 mem = some (.ok s') → s' = s := by
  obtain ⟨lb4, lb6, hload4, hload6, hrun, huniq⟩ := @readPolicy_lines pton stale c bytes
    { mem.withConfig i m with
      lb4 := initPolicyTable (some pool4) (initSvrMngTable mem.lb4)
      lb6 := initPolicyTable (some pool6) (initSvrMngTable mem.lb6) }
    hg (.of_empty (init_empty _ _)) (.of_empty (init_empty _ _))
  refine ⟨_, ?_, hrun, huniq⟩
  have h4 : getPolicy (textFiles pton i c bytes).1
    (initPolicyTable (some pool4) (initSvrMngTable mem.lb4)) = .ok lb4 := hload4
  have h6 : getPolicy (textFiles pton i c bytes).2
    (initPolicyTable (some pool6) (initSvrMngTable mem.lb6)) = .ok lb6 := hload6
  rw [frontInit, h4, h6]
  rfl

/-- **A reload from a file is a reload of its lines.** -/
theorem reloadText_eq (hg : GoodText pton i bytes) (s : FrontState) : ∃ s',
    (FrontOp.reload i m (textFiles pton i c bytes).1 (textFiles pton i c bytes).2).step s =
      .ok s' ∧
    (∃ k, reloadText pton stale c k i m bytes s = some (.ok s')) ∧
    ∀ k s'', reloadText pton stale c k i m bytes s = some (.ok s'') → s'' = s' := by
  obtain ⟨lb4, lb6, hload4, hload6, hrun, huniq⟩ := @readPolicy_lines pton stale c bytes
    { s.withConfig i m with
      lb4 := initPolicyTable none (initSvrMngTable (destroySvrTbl (destroyPolicyTable s.lb4)))
      lb6 := initPolicyTable none (initSvrMngTable (destroySvrTbl (destroyPolicyTable s.lb6))) }
    hg (.of_empty (init_empty _ _)) (.of_empty (init_empty _ _))
  refine ⟨_, ?_, hrun, huniq⟩
  have h4 : reloadSide (textFiles pton i c bytes).1 s.lb4 = .ok lb4 := hload4
  have h6 : reloadSide (textFiles pton i c bytes).2 s.lb6 = .ok lb6 := hload6
  rw [FrontOp.step, h4, h6]
  rfl

end

/-! ## The translator -/

/-- The states of the translator that reads files, with the interface and the bytes of the file that
it has read last. -/
inductive TextLife (pton : InetPton) : Ifdata → List Byte → FrontState → Prop
  | start {stale : ℕ → List Byte} {c : ℕ → Call} {k : ℕ} {i : Ifdata} {m : Bool}
      {bytes : List Byte} (pool4 : Fin lbMaxCache → LbPolCache 4 (BitVec 16))
      (pool6 : Fin lbMaxCache → LbPolCache 16 Unit) {mem s : FrontState} : GoodText pton i bytes →
      startText pton stale c k i m bytes pool4 pool6 mem = some (.ok s) → TextLife pton i bytes s
  | reload {stale : ℕ → List Byte} {c : ℕ → Call} {k : ℕ} {i i' : Ifdata} {m : Bool}
      {bytes bytes' : List Byte} {s s' : FrontState} : TextLife pton i bytes s →
      GoodText pton i' bytes' → reloadText pton stale c k i' m bytes' s = some (.ok s') →
      TextLife pton i' bytes' s'
  | recv {i : Ifdata} {bytes : List Byte} {s s' : FrontState} {b b' : Buf} (lim : ℕ)
      (o : ℕ → MacOutcomes) (tsc : BitVec 64) (len : ℕ) : TextLife pton i bytes s →
      frontIngress1 lim o tsc b len s = .ok (b', s') → TextLife pton i bytes s'
  | patrol {i : Ifdata} {bytes : List Byte} {s s' : FrontState} {tv : ℕ} :
      TextLife pton i bytes s → procPatrol s = .ok (tv, s') → TextLife pton i bytes s'

/-- **The translator that reads files lives as the one that is given their lines.** -/
theorem TextLife.life {pton : InetPton} {i : Ifdata} {bytes : List Byte} {s : FrontState}
    (h : TextLife pton i bytes s) : ∃ c, FrontLife (textFiles pton i c bytes) s := by
  induction h with
  | @start stale c k i m bytes pool4 pool6 mem s hg hrun =>
    obtain ⟨s₁, hinit, -, huniq⟩ := @startText_eq pton stale c i m bytes hg pool4 pool6 mem
    obtain rfl := huniq k s hrun
    exact ⟨c, .init _ _ _ _ _ _ _ _ hinit⟩
  | @reload stale c k i i' m bytes bytes' s s' _ hg hrun ih =>
    obtain ⟨s₁, hstep, -, huniq⟩ := @reloadText_eq pton stale c i' m bytes' hg s
    obtain rfl := huniq k s' hrun
    obtain ⟨c₀, hlife⟩ := ih
    exact ⟨c, .op _ hlife hstep⟩
  | recv lim o tsc len _ hrun ih =>
    obtain ⟨c, hlife⟩ := ih
    exact ⟨c, .recv lim o tsc len hlife hrun⟩
  | @patrol i bytes s s' tv _ hrun ih =>
    obtain ⟨c, hlife⟩ := ih
    refine ⟨c, .op .patrol hlife ?_⟩
    rw [FrontOp.step, hrun]
    rfl

/-- **A packet goes to the server that the text says**: whatever has happened since the translator
was started, what it forwards goes to the server of the first line, in the file that it has read
last, that matches the source. -/
theorem text_dispatch {pton : InetPton} {i : Ifdata} {bytes : List Byte} {s s' : FrontState}
    {b b' : Buf} {lim len : ℕ} {o : ℕ → MacOutcomes} {tsc : BitVec 64} {x : Tx}
    (h : TextLife pton i bytes s) (hrun : frontIngress1 lim o tsc b len s = .ok (b', s'))
    (htx : s'.io.tx = s.io.tx ++ [x]) :
    (x.sender = .procV4 → textServer pton.v4 i.v4Enable (givenLines 256 skipPolicy bytes)
      (ipSrc b) = some (ipDst (recvBuf x.bytes))) ∧
    (x.sender = .procV6 → textServer pton.v6 i.v6Enable (givenLines 256 skipPolicy bytes)
      (ip6Src b) = some (ip6Dst (recvBuf x.bytes))) := by
  obtain ⟨c, hlife⟩ := h.life
  obtain ⟨h4, h6⟩ := dispatch_refined hlife hrun htx
  refine ⟨fun hx => ?_, fun hx => ?_⟩
  · rw [← dispatch_policyLines c]
    exact h4 hx
  · rw [← dispatch_policyLines c]
    exact h6 hx

/-- The line `0.0.0.0,0.0.0.0,10.0.0.2`. -/
def sampleText : List Byte :=
  [48, 46, 48, 46, 48, 46, 48, 44, 48, 46, 48, 46, 48, 46, 48, 44, 49, 48, 46, 48, 46, 48, 46, 50,
    10]

theorem sample_textLife : ∃ (s s' : FrontState) (b' : Buf) (x : Tx),
    TextLife ptonV4 (sampleIf ![10, 0, 0, 1]) sampleText s ∧
      frontIngress1 60 (fun _ => sampleMac) 0 sampleFrame 60 s = .ok (b', s') ∧
        s'.io.tx = s.io.tx ++ [x] ∧ x.sender = .procV4 := by
  have hlines : givenLines 256 skipPolicy sampleText = [sampleText] := by decide
  have hfields : (fields sampleText).map ptonV4.v4 =
      [some 0, some 0, some ![10, 0, 0, 2]] := by decide
  have hgood : GoodText ptonV4 (sampleIf ![10, 0, 0, 1]) sampleText := by
    refine ⟨by decide, fun l hl => Or.inl ⟨0, 0, ![10, 0, 0, 2], rfl, ?_⟩⟩
    rw [hlines, List.mem_singleton] at hl
    rw [hl, hfields]
  obtain ⟨s, mac, hinit, hvip, hmac, hc⟩ := sample_init
  obtain ⟨s₁, hinit₁, ⟨k, hrun⟩, -⟩ := @startText_eq ptonV4 (fun _ => [])
    (fun _ => ⟨0, 0, sampleMac⟩) (sampleIf ![10, 0, 0, 1]) false sampleText hgood
    (fun _ => ⟨0, 0, 0, 0, .init, 0, 0, 0, 0, none, 0⟩)
    (fun _ => ⟨0, 0, 0, 0, .init, (), 0, 0, 0, none, 0⟩) sampleFront
  have hfiles : textFiles ptonV4 (sampleIf ![10, 0, 0, 1]) (fun _ => ⟨0, 0, sampleMac⟩) sampleText =
      ([sampleLine], []) := by
    rw [textFiles, hlines, policyLines, policyLines, policyLine, hfields]
    rfl
  rw [hfiles, hinit] at hinit₁
  obtain rfl := Except.ok.inj hinit₁
  obtain ⟨b', s', x, hfwd, htx, hx⟩ := sample_forwards (.init _ _ _ _ _ _ _ _ hinit) hvip hmac hc
  exact ⟨s, s', b', x, .start _ _ hgood hrun, hfwd, htx, hx⟩

theorem text_dispatch_sample : ∃ x : Tx, x.sender = .procV4 ∧
    textServer ptonV4.v4 true (givenLines 256 skipPolicy sampleText) (ipSrc sampleFrame) =
      some (ipDst (recvBuf x.bytes)) := by
  obtain ⟨s, s', b', x, hlife, hfwd, htx, hx⟩ := sample_textLife
  exact ⟨x, hx, (text_dispatch hlife hfwd htx).1 hx⟩

end Sasat
