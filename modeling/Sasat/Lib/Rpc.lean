import Mathlib.Logic.Function.Basic
import Mathlib.Tactic

/-!
# Calls over datagrams

A server takes requests from its socket and may send an answer for each. Every call sends one
request from a socket of its own and takes the first datagram that comes there for the answer. It
may give up at any time. Anybody else may send to all of these sockets.

* `Party`, `Event`: the sockets, and what happens between them.
* `InOrder`: what a network has to guarantee. It may lose datagrams.
* `Phase`, `Net`: where a call stands; the server, the calls and what has happened.
* `Step`: a step of a call, of the server, or of a stranger, as far as the network allows it.
* `Exec`: what the server does, with the requests that it has served; `Exec.keeps`: its invariants.
* **`Reach.inv`**: what holds in every state, whatever the network does.
* **`at_most_once`**: requests are served in the order in which they are sent, that of a call once.
* **`exactly_once`**: the request of a call that has got an answer from the server has been served
  exactly once, and the answer is the one that the server gave then.
* **`answer_source`**: every other answer is from a stranger.
-/

namespace Rpc

open Function List

inductive Party (A : Type)
  | server
  | call (a : A)
  | stranger
  deriving DecidableEq

/-- A datagram is sent, or received, at a socket. -/
inductive Event (A M : Type)
  | sent (src dst : Party A) (m : M)
  | received (dst src : Party A) (m : M)

variable {A M σ : Type} [DecidableEq A]

/-- What has been sent to a socket, with the senders. -/
def sentTo (p : Party A) (h : List (Event A M)) : List (Party A × M) :=
  h.filterMap fun
    | .sent src dst m => if dst = p then some (src, m) else none
    | .received .. => none

/-- What has been received at a socket, with the senders. -/
def receivedBy (p : Party A) (h : List (Event A M)) : List (Party A × M) :=
  h.filterMap fun
    | .sent .. => none
    | .received dst src m => if dst = p then some (src, m) else none

/-- The network delivers what has been sent, in order and at most once. -/
def InOrder (net : List (Event A M) → Prop) : Prop :=
  ∀ h, net h → ∀ p, receivedBy p h <+ sentTo p h

/-- Where a call stands: not made; waiting; done, with the datagram that it has taken. -/
inductive Phase (A M : Type)
  | idle
  | waiting (q : M)
  | done (q : M) (answer : Option (Party A × M))

/-- The server, the calls, and what has happened between them. -/
structure Net (A M σ : Type) where
  server : σ
  phase : A → Phase A M
  history : List (Event A M)
  /-- what has been served, with its answers -/
  served : List (Party A × M × Option M)

def Net.start (s : σ) : Net A M σ := ⟨s, fun _ => .idle, [], []⟩

/-- The answer, if there is one, is sent to where the request has come from. -/
def reply (src : Party A) (r : Option M) : List (Event A M) := r.toList.map (.sent .server src)

/-- What happens on the network. -/
def Net.log (n : Net A M σ) (es : List (Event A M)) : Net A M σ :=
  { n with history := n.history ++ es }

/-- The steps. The server serves a request with `serve`, and takes steps of its own. -/
inductive Step (net : List (Event A M) → Prop) (serve : σ → M → Option M × σ)
    (own : σ → σ → Prop) : Net A M σ → Net A M σ → Prop
  | call {n : Net A M σ} (a : A) (q : M) : n.phase a = .idle →
      net (n.history ++ [.sent (.call a) .server q]) → Step net serve own n
        (Net.log { n with phase := update n.phase a (.waiting q) } [.sent (.call a) .server q])
  | fail {n : Net A M σ} (a : A) (q : M) : n.phase a = .idle →
      Step net serve own n { n with phase := update n.phase a (.done q none) }
  | stray {n : Net A M σ} (dst : Party A) (m : M) : net (n.history ++ [.sent .stranger dst m]) →
      Step net serve own n (n.log [.sent .stranger dst m])
  | serve {n : Net A M σ} (src : Party A) (m : M) :
      net (n.history ++ .received .server src m :: reply src (serve n.server m).1) →
      Step net serve own n (Net.log { n with
        server := (serve n.server m).2
        served := n.served ++ [(src, m, (serve n.server m).1)] }
          (.received .server src m :: reply src (serve n.server m).1))
  | own {n : Net A M σ} (s : σ) : own n.server s → Step net serve own n { n with server := s }
  | answer {n : Net A M σ} {a : A} {q : M} (src : Party A) (m : M) : n.phase a = .waiting q →
      net (n.history ++ [.received (.call a) src m]) → Step net serve own n
        (Net.log { n with phase := update n.phase a (.done q (some (src, m))) }
          [.received (.call a) src m])
  | giveUp {n : Net A M σ} {a : A} {q : M} : n.phase a = .waiting q →
      Step net serve own n { n with phase := update n.phase a (.done q none) }

/-- The states that are reached from the server state `s`. -/
inductive Reach (net : List (Event A M) → Prop) (serve : σ → M → Option M × σ)
    (own : σ → σ → Prop) (s : σ) : Net A M σ → Prop
  | start : net [] → Reach net serve own s (.start s)
  | step {n n' : Net A M σ} :
      Reach net serve own s n → Step net serve own n n' → Reach net serve own s n'

/-- The server comes from one state to another, serving requests. -/
inductive Exec (serve : σ → M → Option M × σ) (own : σ → σ → Prop) (s : σ) :
    List (Party A × M × Option M) → σ → Prop
  | refl : Exec serve own s [] s
  | serve {l : List (Party A × M × Option M)} {t : σ} (src : Party A) (m : M) :
      Exec serve own s l t → Exec serve own s (l ++ [(src, m, (serve t m).1)]) (serve t m).2
  | own {l : List (Party A × M × Option M)} {t t' : σ} :
      Exec serve own s l t → own t t' → Exec serve own s l t'

def request (x : Party A × M × Option M) : Party A × M := (x.1, x.2.1)

def fromCall (a : A) (l : List (Party A × M)) : List (Party A × M) :=
  l.filter fun x => x.1 = .call a

/-- Where a call stands, given what it has sent to the server and what has come to it. -/
def Phase.Ok (a : A) (sent received : List (Party A × M)) : Phase A M → Prop
  | .idle => sent = []
  | .waiting q => sent = [(.call a, q)]
  | .done q none => sent = [] ∨ sent = [(.call a, q)]
  | .done q (some x) => sent = [(.call a, q)] ∧ x ∈ received

structure Inv (net : List (Event A M) → Prop) (serve : σ → M → Option M × σ) (own : σ → σ → Prop)
    (s : σ) (n : Net A M σ) : Prop where
  allowed : net n.history
  served : receivedBy .server n.history = n.served.map request
  exec : Exec serve own s n.served n.server
  calls : ∀ a, (n.phase a).Ok a (fromCall a (sentTo .server n.history))
    (receivedBy (.call a) n.history)
  /-- only the server and strangers send to a call -/
  answers : ∀ a x, x ∈ sentTo (.call a) n.history →
    x.1 = .stranger ∨ ∃ q r, x = (.server, r) ∧ (.call a, q, some r) ∈ n.served

/-! ## What is sent and received -/

section

variable {p src dst : Party A} {m : M} {a : A}

@[simp] theorem sentTo_append (h h' : List (Event A M)) :
    sentTo p (h ++ h') = sentTo p h ++ sentTo p h' := filterMap_append ..

@[simp] theorem receivedBy_append (h h' : List (Event A M)) :
    receivedBy p (h ++ h') = receivedBy p h ++ receivedBy p h' := filterMap_append ..

@[simp] theorem fromCall_append (l l' : List (Party A × M)) :
    fromCall a (l ++ l') = fromCall a l ++ fromCall a l' := filter_append ..

theorem sentTo_sent (h : List (Event A M)) : sentTo p (.sent src dst m :: h) =
    if dst = p then (src, m) :: sentTo p h else sentTo p h := by
  rw [sentTo, filterMap_cons]
  by_cases hd : dst = p
  · simp [hd, sentTo]
  · simp [hd, sentTo]

@[simp] theorem sentTo_received (h : List (Event A M)) :
    sentTo p (.received dst src m :: h) = sentTo p h := rfl

theorem receivedBy_received (h : List (Event A M)) : receivedBy p (.received dst src m :: h) =
    if dst = p then (src, m) :: receivedBy p h else receivedBy p h := by
  rw [receivedBy, filterMap_cons]
  by_cases hd : dst = p
  · simp [hd, receivedBy]
  · simp [hd, receivedBy]

@[simp] theorem receivedBy_sent (h : List (Event A M)) :
    receivedBy p (.sent src dst m :: h) = receivedBy p h := rfl

@[simp] theorem receivedBy_reply (r : Option M) : receivedBy p (reply src r) = [] := by
  cases r <;> rfl

theorem mem_sentTo_reply {r : Option M} {x : Party A × M} :
    x ∈ sentTo p (reply src r) ↔ src = p ∧ ∃ v, r = some v ∧ x = (.server, v) := by
  cases r with
  | none => simp [reply, sentTo]
  | some v =>
    rw [reply, Option.toList_some, map_singleton, sentTo_sent]
    by_cases hsrc : src = p
    · simp [hsrc, sentTo]
    · simp [hsrc, sentTo]

theorem mem_sentTo {h : List (Event A M)} : (src, m) ∈ sentTo p h ↔ .sent src p m ∈ h := by
  rw [sentTo, mem_filterMap]
  constructor
  · rintro ⟨e, he, heq⟩
    cases e with
    | sent src' dst m' =>
      obtain ⟨rfl, hx⟩ := Option.ite_none_right_eq_some.mp heq
      cases hx
      exact he
    | received => cases heq
  · exact fun he => ⟨_, he, if_pos rfl⟩

theorem fromCall_self (q : M) : fromCall a [(Party.call a, q)] = [(Party.call a, q)] :=
  filter_cons_of_pos (decide_eq_true rfl)

theorem fromCall_eq_nil {l : List (Party A × M)} (h : ∀ x ∈ l, x.1 ≠ .call a) :
    fromCall a l = [] := filter_eq_nil_iff.mpr fun x hx => by simpa using h x hx

end

/-! ## The steps keep the invariant -/

variable {net : List (Event A M) → Prop} {serve : σ → M → Option M × σ} {own : σ → σ → Prop} {s : σ}
  {n n' : Net A M σ} {a : A}

omit [DecidableEq A] in
theorem Phase.Ok.mono {p : Phase A M} {sent received received' : List (Party A × M)}
    (h : p.Ok a sent received) (hsub : received ⊆ received') : p.Ok a sent received' := by
  cases p with
  | idle => exact h
  | waiting q => exact h
  | done q answer =>
    cases answer with
    | none => exact h
    | some x => exact ⟨h.1, hsub h.2⟩

omit [DecidableEq A] in
theorem Phase.Ok.gaveUp {p : Phase A M} {q : M} {sent received : List (Party A × M)}
    (h : p.Ok a sent received) (hp : p = .idle ∨ p = .waiting q) :
    (Phase.done q none : Phase A M).Ok a sent received := by
  rcases hp with rfl | rfl
  · exact Or.inl h
  · exact Or.inr h

theorem Inv.calls_log (h : Inv net serve own s n) {es : List (Event A M)}
    (hes : ∀ a, fromCall a (sentTo .server es) = []) (a : A) :
    (n.phase a).Ok a (fromCall a (sentTo .server (n.history ++ es)))
      (receivedBy (.call a) (n.history ++ es)) := by
  rw [sentTo_append, fromCall_append, hes, append_nil, receivedBy_append]
  exact (h.calls a).mono (subset_append_left _ _)

theorem Inv.setPhase (h : Inv net serve own s n) {p : Phase A M}
    (hp : p.Ok a (fromCall a (sentTo .server n.history)) (receivedBy (.call a) n.history)) :
    Inv net serve own s { n with phase := update n.phase a p } := by
  refine ⟨h.allowed, h.served, h.exec, fun b => ?_, h.answers⟩
  dsimp only
  by_cases hb : b = a
  · subst hb
    rw [update_self]
    exact hp
  · rw [update_of_ne hb]
    exact h.calls b

theorem Inv.start (h : net []) : Inv net serve own s (.start s : Net A M σ) :=
  ⟨h, rfl, .refl, fun _ => rfl, fun _ _ hx => by cases hx⟩

theorem Step.inv (hstep : Step net serve own n n') (h : Inv net serve own s n) :
    Inv net serve own s n' := by
  cases hstep with
  | call a q hidle hnet =>
    refine ⟨hnet, ?_, h.exec, fun b => ?_, fun b x hx => ?_⟩
    · exact (receivedBy_append ..).trans ((append_nil _).trans h.served)
    · have hok := h.calls b
      dsimp only [Net.log]
      rw [sentTo_append, fromCall_append, receivedBy_append, sentTo_sent, if_pos rfl]
      by_cases hb : b = a
      · subst hb
        rw [hidle] at hok
        rw [update_self, show fromCall b (sentTo .server n.history) = [] from hok]
        exact fromCall_self q
      · rw [update_of_ne hb, fromCall_eq_nil (l := (Party.call a, q) :: _), append_nil]
        · exact hok.mono (subset_append_left _ _)
        · rintro x hx hcall
          obtain rfl := mem_singleton.mp hx
          exact hb (Party.call.inj hcall).symm
    · rw [Net.log, sentTo_append, sentTo_sent, if_neg nofun] at hx
      rcases mem_append.mp hx with hx | hx
      · exact h.answers b x hx
      · cases hx
  | fail a q hidle => exact h.setPhase ((h.calls a).gaveUp (Or.inl hidle))
  | stray dst m hnet =>
    refine ⟨hnet, ?_, h.exec, h.calls_log fun b => ?_, fun b x hx => ?_⟩
    · exact (receivedBy_append ..).trans ((append_nil _).trans h.served)
    · refine fromCall_eq_nil fun x hx => ?_
      rw [sentTo_sent] at hx
      split_ifs at hx
      · obtain rfl := mem_singleton.mp hx
        exact nofun
      · cases hx
    · rw [Net.log, sentTo_append, sentTo_sent] at hx
      rcases mem_append.mp hx with hx | hx
      · exact h.answers b x hx
      · split_ifs at hx
        · obtain rfl := mem_singleton.mp hx
          exact Or.inl rfl
        · cases hx
  | serve src m hnet =>
    refine ⟨hnet, ?_, h.exec.serve src m, h.calls_log fun b => ?_, fun b x hx => ?_⟩
    · dsimp only [Net.log]
      rw [receivedBy_append, receivedBy_received, if_pos rfl, receivedBy_reply, h.served,
        map_append]
      rfl
    · refine fromCall_eq_nil fun x hx => ?_
      rw [sentTo_received] at hx
      obtain ⟨-, v, -, rfl⟩ := mem_sentTo_reply.mp hx
      exact nofun
    · dsimp only [Net.log] at hx ⊢
      rw [sentTo_append, sentTo_received] at hx
      rcases mem_append.mp hx with hx | hx
      · refine (h.answers b x hx).imp_right ?_
        rintro ⟨q, r, rfl, hr⟩
        exact ⟨q, r, rfl, mem_append_left _ hr⟩
      · obtain ⟨rfl, v, hv, rfl⟩ := mem_sentTo_reply.mp hx
        refine Or.inr ⟨m, v, rfl, mem_append_right _ ?_⟩
        rw [hv]
        exact mem_singleton.mpr rfl
  | own s' hs' => exact ⟨h.allowed, h.served, h.exec.own hs', h.calls, h.answers⟩
  | @answer a q src m hw hnet =>
    refine ⟨hnet, ?_, h.exec, fun b => ?_, fun b x hx => ?_⟩
    · refine (receivedBy_append ..).trans (Eq.trans ?_ h.served)
      rw [receivedBy_received, if_neg nofun]
      exact append_nil _
    · have hok := h.calls b
      dsimp only [Net.log]
      rw [sentTo_append, sentTo_received, show sentTo .server ([] : List (Event A M)) = [] from rfl,
        append_nil, receivedBy_append]
      by_cases hb : b = a
      · subst hb
        rw [hw] at hok
        rw [update_self, receivedBy_received, if_pos rfl]
        exact ⟨hok, mem_append_right _ mem_cons_self⟩
      · rw [update_of_ne hb]
        exact hok.mono (subset_append_left _ _)
    · refine h.answers b x ?_
      rwa [Net.log, sentTo_append, sentTo_received, show sentTo (.call b) ([] : List (Event A M)) =
        [] from rfl, append_nil] at hx
  | @giveUp a q hw => exact h.setPhase ((h.calls a).gaveUp (Or.inr hw))

/-- **The invariant** holds in every state that is reached, on every network. -/
theorem Reach.inv (h : Reach net serve own s n) : Inv net serve own s n := by
  induction h with
  | start hnet => exact .start hnet
  | step _ hstep ih => exact hstep.inv ih

/-! ## What it says about a call -/

omit [DecidableEq A] in
theorem Exec.keeps {P : σ → Prop} (hserve : ∀ t q, P t → P (serve t q).2)
    (hown : ∀ t t', P t → own t t' → P t') {l : List (Party A × M × Option M)} {t : σ}
    (h : Exec serve own s l t) (hs : P s) : P t := by
  induction h with
  | refl => exact hs
  | serve src m _ ih => exact hserve _ m ih
  | own _ hstep ih => exact hown _ _ ih hstep

omit [DecidableEq A] in
theorem Exec.split {l : List (Party A × M × Option M)} {t : σ} (h : Exec serve own s l t)
    {l₁ l₂ : List (Party A × M × Option M)} {x : Party A} {q : M} {r : Option M}
    (hl : l = l₁ ++ (x, q, r) :: l₂) : ∃ u, Exec serve own s l₁ u ∧ (serve u q).1 = r ∧
      Exec serve own (serve u q).2 l₂ t := by
  induction h generalizing l₂ with
  | refl => simp at hl
  | @serve l t y p hexec ih =>
    rcases eq_nil_or_concat l₂ with rfl | ⟨l₂, z, rfl⟩
    · obtain ⟨rfl, hz⟩ := append_inj' hl rfl
      simp only [cons.injEq, Prod.mk.injEq, and_true] at hz
      obtain ⟨-, rfl, rfl⟩ := hz
      exact ⟨t, hexec, rfl, .refl⟩
    · rw [concat_eq_append, ← cons_append, ← append_assoc] at hl
      obtain ⟨hl, hz⟩ := append_inj' hl rfl
      obtain ⟨u, h₁, hr, h₂⟩ := ih hl
      refine ⟨u, h₁, hr, ?_⟩
      rw [concat_eq_append, ← hz]
      exact h₂.serve y p
  | own _ hown ih =>
    obtain ⟨u, h₁, hr, h₂⟩ := ih hl
    exact ⟨u, h₁, hr, h₂.own hown⟩

theorem Reach.sent_length (h : Reach net serve own s n) (a : A) :
    (fromCall a (sentTo .server n.history)).length ≤ 1 := by
  have hok := h.inv.calls a
  cases hp : n.phase a with
  | idle =>
    rw [hp] at hok
    rw [show fromCall a (sentTo .server n.history) = [] from hok]
    exact Nat.zero_le _
  | waiting q =>
    rw [hp] at hok
    exact (congrArg length hok).le
  | done q answer =>
    rw [hp] at hok
    cases answer with
    | none =>
      rcases hok with hok | hok
      · exact (congrArg length hok).trans_le (Nat.zero_le 1)
      · exact (congrArg length hok).le
    | some x => exact (congrArg length hok.1).le

section

variable (hnet : InOrder net)

include hnet

/-- **In order and at most once**: what is served has been sent, in that order, and of every call at
most one request is served. -/
theorem at_most_once (h : Reach net serve own s n) (a : A) :
    n.served.map request <+ sentTo .server n.history ∧
      (fromCall a (n.served.map request)).length ≤ 1 := by
  have hsub : n.served.map request <+ sentTo .server n.history := by
    rw [← h.inv.served]
    exact hnet _ h.inv.allowed .server
  exact ⟨hsub, (hsub.filter _).length_le.trans (h.sent_length a)⟩

/-- **Exactly once**: when a call has got an answer from the server, its request has been served
once, and this is the answer that the server gave. -/
theorem exactly_once (h : Reach net serve own s n) {q r : M}
    (hdone : n.phase a = .done q (some (.server, r))) : ∃ l₁ l₂ u,
      n.served = l₁ ++ (.call a, q, some r) :: l₂ ∧ Exec serve own s l₁ u ∧
        (serve u q).1 = some r ∧ Exec serve own (serve u q).2 l₂ n.server ∧
          ∀ y ∈ l₁ ++ l₂, y.1 ≠ .call a := by
  have hok := h.inv.calls a
  rw [hdone] at hok
  obtain ⟨hsub, hle⟩ := at_most_once hnet h a
  -- the datagram that the call has taken was sent by the server, for a request of this call
  have hsent := (hnet _ h.inv.allowed (.call a)).subset hok.2
  obtain ⟨q', hserved⟩ : ∃ q', (Party.call a, q', some r) ∈ n.served := by
    rcases h.inv.answers a _ hsent with hstray | ⟨q', r', heq, hserved⟩
    · cases hstray
    · cases heq
      exact ⟨q', hserved⟩
  obtain rfl : q' = q := by
    have hmem : (Party.call a, q') ∈ fromCall a (sentTo .server n.history) :=
      mem_filter.mpr ⟨hsub.subset (mem_map_of_mem hserved), decide_eq_true rfl⟩
    rw [hok.1] at hmem
    exact congrArg Prod.snd (mem_singleton.mp hmem)
  obtain ⟨l₁, l₂, hl⟩ := append_of_mem hserved
  obtain ⟨u, h₁, hr, h₂⟩ := h.inv.exec.split hl
  refine ⟨l₁, l₂, u, hl, h₁, hr, h₂, fun y hy hya => ?_⟩
  rw [hl, map_append, map_cons, fromCall_append, fromCall, fromCall,
    filter_cons_of_pos (by exact decide_eq_true rfl), length_append, length_cons] at hle
  have hnil : ∀ l : List (Party A × M × Option M), (((l.map request).filter
      fun x => decide (x.1 = .call a)).length = 0) → y ∉ l := fun l hl hyl => by
    rw [length_eq_zero_iff, filter_eq_nil_iff] at hl
    exact hl _ (mem_map_of_mem hyl) (decide_eq_true hya)
  rcases mem_append.mp hy with hy | hy
  · exact hnil l₁ (by omega) hy
  · exact hnil l₂ (by omega) hy

/-- **Every other answer is from a stranger.** -/
theorem answer_source (h : Reach net serve own s n) {q r : M} {src : Party A}
    (hdone : n.phase a = .done q (some (src, r))) :
    src = .server ∨ (src = .stranger ∧ .sent .stranger (.call a) r ∈ n.history) := by
  have hok := h.inv.calls a
  rw [hdone] at hok
  have hsent := (hnet _ h.inv.allowed (.call a)).subset hok.2
  rcases h.inv.answers a _ hsent with hstray | ⟨q', r', heq, -⟩
  · obtain rfl : src = .stranger := hstray
    exact Or.inr ⟨rfl, mem_sentTo.mp hsent⟩
  · cases heq
    exact Or.inl rfl

end

/-- A network that loses nothing. -/
def Reliable (h : List (Event A M)) : Prop := ∀ p, receivedBy p h <+: sentTo p h

theorem reliable_inOrder : InOrder (Reliable : List (Event A M) → Prop) :=
  fun _ h p => (h p).sublist

section

variable {h : List (Event A M)}

theorem Reliable.send (hr : Reliable h) (src dst : Party A) (m : M) :
    Reliable (h ++ [.sent src dst m]) := by
  intro p
  rw [receivedBy_append, receivedBy_sent, show receivedBy p ([] : List (Event A M)) = [] from rfl,
    append_nil, sentTo_append]
  exact (hr p).trans (prefix_append _ _)

theorem Reliable.receive (hr : Reliable h) (dst src : Party A) (m : M)
    (hnext : receivedBy dst h ++ [(src, m)] <+: sentTo dst h) :
    Reliable (h ++ [.received dst src m]) := by
  intro p
  rw [receivedBy_append, receivedBy_received, sentTo_append, sentTo_received]
  by_cases hp : dst = p
  · subst hp
    rw [if_pos rfl]
    simpa [receivedBy, sentTo] using hnext
  · rw [if_neg hp]
    simpa [receivedBy, sentTo] using hr p

theorem Reliable.serving (hr : Reliable h) (src : Party A) (m : M)
    (hnext : receivedBy .server h ++ [(src, m)] <+: sentTo .server h) (r : Option M) :
    Reliable (h ++ .received .server src m :: reply src r) := by
  have hrecv := hr.receive .server src m hnext
  cases r with
  | none => exact hrecv
  | some r =>
    rw [show Event.received .server src m :: reply src (some r) =
      [.received .server src m] ++ [.sent .server src r] from rfl, ← append_assoc]
    exact hrecv.send _ _ r

end

end Rpc
