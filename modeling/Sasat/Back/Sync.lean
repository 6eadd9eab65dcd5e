import Sasat.Lib.Inevitable

/-!
# The start-up barrier of the backend

`main` clears a flag for each of its threads, creates the threads, and then holds all of them back
until every one has opened its socket.

* `BootStep`: an atomic step of `main` (`sync_init`, `create_back_thread`, `wait_thread`) or of a
  thread (`back_ingress` and `back_egress` up to their loop, with `sync_thread`), for `cnt` threads.
* `Booted`: the states that any interleaving reaches.
* **`barrier_safe`**: no thread handles a packet before all have stored their socket.
* **`barrier_opens`**: when all threads have been created, they all come to their loops.

`exit`, which a failed `init_socket_if` calls, and the return of `main` end the process; they are no
steps.
-/

namespace Sasat

open Transition

/-- `enum { THREAD_INIT, THREAD_WAKE, THREAD_GO }`. -/
inductive ThreadFlag
  | init | wake | go
  deriving DecidableEq

/-- The number of a flag in its `enum`. -/
def ThreadFlag.toNat : ThreadFlag → ℕ
  | .init => 0
  | .wake => 1
  | .go => 2

/-- Where a thread is. It waits in the loop of `sync_thread`, and handles packets after it. -/
inductive BackPc
  | none
  | initSocketIf
  | setSockfd (fd : ℤ)
  | syncThread
  | wait
  | handle
  deriving DecidableEq

/-- Where `main` is: with the index of the loop of `sync_init`, of the next thread, or of one of the
two loops of `wait_thread`. -/
inductive BootPc
  | syncInit (i : ℕ)
  | create (i : ℕ)
  | scan (i : ℕ)
  | go (i : ℕ)
  | commandProc
  deriving DecidableEq

/-- `main` and its threads, with their flags and the `sockfd` of their interfaces. -/
structure BootSys (cnt : ℕ) where
  main : BootPc
  child : Fin cnt → BackPc
  flag : Fin cnt → ThreadFlag
  sockfd : Fin cnt → Option ℤ

section

variable {cnt : ℕ}

/-- The start of `main`. The flags are `static`. -/
def bootStart (cnt : ℕ) : BootSys cnt where
  main := .syncInit 0
  child _ := .none
  flag _ := .init
  sockfd _ := none

/-- An atomic step, labelled when a thread handles a packet. The loops that sleep take no step.
`pthread_create` returns a positive number when it fails, which `create_back_thread` does not take
for an error. -/
inductive BootStep (σ : BootSys cnt) : Option (Fin cnt) → BootSys cnt → Prop
  | syncInit (i : Fin cnt) : σ.main = .syncInit i →
      BootStep σ none { σ with
        main := .syncInit (i + 1)
        flag := Function.update σ.flag i .init }
  | syncInitEnd : σ.main = .syncInit cnt → BootStep σ none { σ with main := .create 0 }
  | create (i : Fin cnt) : σ.main = .create i →
      BootStep σ none { σ with
        main := .create (i + 1)
        child := Function.update σ.child i .initSocketIf }
  | createError (i : Fin cnt) : σ.main = .create i →
      BootStep σ none { σ with main := .create (i + 1) }
  | createEnd : σ.main = .create cnt → BootStep σ none { σ with main := .scan 0 }
  | scan (i : Fin cnt) : σ.main = .scan i → σ.flag i = .wake →
      BootStep σ none { σ with main := .scan (i + 1) }
  | scanEnd : σ.main = .scan cnt → BootStep σ none { σ with main := .go 0 }
  | go (i : Fin cnt) : σ.main = .go i →
      BootStep σ none { σ with main := .go (i + 1), flag := Function.update σ.flag i .go }
  | goEnd : σ.main = .go cnt → BootStep σ none { σ with main := .commandProc }
  | initSocketIf (k : Fin cnt) (fd : ℤ) : σ.child k = .initSocketIf →
      BootStep σ none { σ with child := Function.update σ.child k (.setSockfd fd) }
  | setSockfd (k : Fin cnt) (fd : ℤ) : σ.child k = .setSockfd fd →
      BootStep σ none { σ with
        child := Function.update σ.child k .syncThread
        sockfd := Function.update σ.sockfd k (some fd) }
  | syncThread (k : Fin cnt) : σ.child k = .syncThread →
      BootStep σ none { σ with
        child := Function.update σ.child k .wait
        flag := Function.update σ.flag k .wake }
  | wait (k : Fin cnt) : σ.child k = .wait → σ.flag k = .go →
      BootStep σ none { σ with child := Function.update σ.child k .handle }
  | handle (k : Fin cnt) : σ.child k = .handle → BootStep σ (some k) σ

/-- The states that an interleaving of the threads comes to. -/
inductive Booted : BootSys cnt → Prop
  | start : Booted (bootStart cnt)
  | step {σ σ' : BootSys cnt} {l : Option (Fin cnt)} : Booted σ → BootStep σ l σ' → Booted σ'

/-! ## The invariant -/

/-- The thread has come to `sync_thread`. -/
def BackPc.AtSync (c : BackPc) : Prop := c = .syncThread ∨ c = .wait ∨ c = .handle

/-- The thread has stored `THREAD_WAKE`. -/
def BackPc.Woken (c : BackPc) : Prop := c = .wait ∨ c = .handle

/-- `main` may have created the `k`-th thread. -/
def BootPc.Created (k : ℕ) : BootPc → Prop
  | .syncInit _ => False
  | .create i => k < i
  | _ => True

/-- `wait_thread` has found the `k`-th flag at `THREAD_WAKE`. -/
def BootPc.Scanned (k : ℕ) : BootPc → Prop
  | .scan i => k < i
  | .go _ | .commandProc => True
  | _ => False

/-- `wait_thread` has stored `THREAD_GO` in the `k`-th flag. -/
def BootPc.Told (k : ℕ) : BootPc → Prop
  | .go i => k < i
  | .commandProc => True
  | _ => False

/-- What the `k`-th thread has done, by its flag and by the place of `main`. -/
structure ThreadInv (k : ℕ) (main : BootPc) (c : BackPc) (f : ThreadFlag) (fd : Option ℤ) :
    Prop where
  created : c ≠ .none → main.Created k
  scanned : main.Scanned k → c.Woken
  asleep : ¬ c.Woken → f = .init
  woken : c.Woken → ¬ main.Told k → f = .wake
  told : main.Told k → f = .go
  handle : c = .handle → main.Told k
  sockfd : c.AtSync → fd.isSome = true

def BootInv (σ : BootSys cnt) : Prop :=
  ∀ k : Fin cnt, ThreadInv k σ.main (σ.child k) (σ.flag k) (σ.sockfd k)

theorem bootInv_start : BootInv (bootStart cnt) := by
  intro k
  constructor <;> simp [bootStart, BootPc.Scanned, BootPc.Told, BackPc.Woken, BackPc.AtSync]

variable {k : ℕ} {m m' : BootPc} {c c' : BackPc} {f f' : ThreadFlag} {fd : Option ℤ}

theorem ThreadInv.move (h : ThreadInv k m c f fd) (hc : m.Created k → m'.Created k)
    (hs : m'.Scanned k → c.Woken) (ht : m'.Told k ↔ m.Told k) : ThreadInv k m' c f fd where
  created hne := hc (h.created hne)
  scanned := hs
  asleep := h.asleep
  woken hw hn := h.woken hw (mt ht.mpr hn)
  told hm := h.told (ht.mp hm)
  handle hh := ht.mpr (h.handle hh)
  sockfd := h.sockfd

theorem ThreadInv.prepare (h : ThreadInv k m c f fd) {fd' : Option ℤ} (hne : c ≠ .none)
    (hw : ¬ c.Woken) (hw' : ¬ c'.Woken) (hfd : c'.AtSync → fd'.isSome = true) :
    ThreadInv k m c' f fd' where
  created _ := h.created hne
  scanned hm := absurd (h.scanned hm) hw
  asleep _ := h.asleep hw
  woken hc := absurd hc hw'
  told := h.told
  handle hh := absurd (.inr hh) hw'
  sockfd := hfd

theorem ThreadInv.flag_init (h : ThreadInv k m c f fd) (hm : ¬ m.Created k) : f = .init := by
  refine h.asleep fun hw => hm (h.created ?_)
  rcases hw with rfl | rfl <;> simp

theorem ThreadInv.create (h : ThreadInv k (.create k) c f fd) :
    ThreadInv k (.create (k + 1)) .initSocketIf f fd := by
  have hflag : f = .init := h.flag_init (Nat.lt_irrefl k)
  constructor <;> simp [hflag, BootPc.Created, BootPc.Scanned, BootPc.Told, BackPc.Woken,
    BackPc.AtSync]

theorem ThreadInv.wake (h : ThreadInv k m .syncThread f fd) : ThreadInv k m .wait .wake fd := by
  have hflag : f = .init := h.asleep (by simp [BackPc.Woken])
  have hnot : ¬ m.Told k := fun hm => by
    have hgo := h.told hm
    rw [hflag] at hgo
    cases hgo
  exact ⟨fun _ => h.created (by simp), fun _ => .inl rfl, fun hw => absurd (.inl rfl) hw,
    fun _ _ => rfl, fun hm => absurd hm hnot, nofun, fun _ => h.sockfd (.inl rfl)⟩

theorem ThreadInv.go (h : ThreadInv k m c f fd) (hc : c.Woken) :
    ThreadInv k (.go (k + 1)) c .go fd := by
  have htold : BootPc.Told k (.go (k + 1)) := Nat.lt_succ_self k
  exact ⟨fun _ => trivial, fun _ => hc, fun hw => absurd hc hw, fun _ hn => absurd htold hn,
    fun _ => rfl, fun _ => htold, h.sockfd⟩

theorem ThreadInv.handled (h : ThreadInv k m .wait .go fd) : ThreadInv k m .handle .go fd := by
  have htold : m.Told k := by
    by_contra hn
    cases h.woken (.inl rfl) hn
  exact ⟨fun _ => h.created (by simp), fun _ => .inr rfl, fun hw => absurd (.inr rfl) hw,
    fun _ hn => absurd htold hn, fun _ => rfl, fun _ => htold,
    fun _ => h.sockfd (.inr (.inl rfl))⟩

theorem bootInv_update {σ : BootSys cnt} (h : BootInv σ) {i : Fin cnt} (child : BackPc)
    (flag : ThreadFlag) (fd : Option ℤ) (hi : ThreadInv i m child flag fd)
    (hmove : ∀ k : Fin cnt, k ≠ i → (σ.main.Created k → m.Created k) ∧
      (m.Scanned k → (σ.child k).Woken) ∧ (m.Told k ↔ σ.main.Told k)) :
    BootInv ⟨m, Function.update σ.child i child, Function.update σ.flag i flag,
      Function.update σ.sockfd i fd⟩ := by
  intro k
  by_cases hk : k = i
  · subst hk
    simpa using hi
  · obtain ⟨hc, hs, ht⟩ := hmove k hk
    simpa [Function.update_of_ne hk] using (h k).move hc hs ht

theorem bootInv_child {σ : BootSys cnt} (h : BootInv σ) {i : Fin cnt} {child : BackPc}
    {flag : ThreadFlag} {fd : Option ℤ} (hi : ThreadInv i σ.main child flag fd) :
    BootInv ⟨σ.main, Function.update σ.child i child, Function.update σ.flag i flag,
      Function.update σ.sockfd i fd⟩ :=
  bootInv_update h child flag fd hi fun k _ => ⟨id, (h k).scanned, Iff.rfl⟩

theorem BootStep.inv {σ σ' : BootSys cnt} {l : Option (Fin cnt)} (hs : BootStep σ l σ')
    (h : BootInv σ) : BootInv σ' := by
  cases hs with
  | syncInit i hm =>
    have hflag : σ.flag i = .init := (h i).flag_init (by simp [hm, BootPc.Created])
    rw [← hflag, Function.update_eq_self]
    refine fun k => (h k).move ?_ ?_ ?_ <;> simp [hm, BootPc.Created, BootPc.Scanned, BootPc.Told]
  | syncInitEnd hm =>
    refine fun k => (h k).move ?_ ?_ ?_ <;> simp [hm, BootPc.Created, BootPc.Scanned, BootPc.Told]
  | create i hm =>
    have hinv := bootInv_update h _ _ _ (hm ▸ h i).create fun k hk => by
      simp only [hm, BootPc.Created, BootPc.Scanned, BootPc.Told]
      exact ⟨Nat.lt_succ_of_lt, False.elim, trivial⟩
    simpa only [Function.update_eq_self] using hinv
  | createError i hm =>
    refine fun k => (h k).move ?_ ?_ ?_ <;> simp only [hm, BootPc.Created, BootPc.Scanned,
      BootPc.Told, IsEmpty.forall_iff]
    exact Nat.lt_succ_of_lt
  | createEnd hm =>
    refine fun k => (h k).move ?_ ?_ ?_ <;> simp [hm, BootPc.Created, BootPc.Scanned, BootPc.Told]
  | scan i hm hf =>
    have hwoken : (σ.child i).Woken := by
      by_contra hw
      rw [(h i).asleep hw] at hf
      cases hf
    refine fun k => (h k).move (fun _ => trivial) (fun hk => ?_) (by simp [hm, BootPc.Told])
    rcases Nat.lt_succ_iff_lt_or_eq.mp hk with hk | hk
    · exact (h k).scanned (by rw [hm]; exact hk)
    · rw [Fin.ext hk]
      exact hwoken
  | scanEnd hm =>
    refine fun k => (h k).move (fun _ => trivial) (fun _ => ?_) (by simp [hm, BootPc.Told])
    exact (h k).scanned (by rw [hm]; exact k.isLt)
  | go i hm =>
    have hwoken (k : Fin cnt) : (σ.child k).Woken := (h k).scanned (by rw [hm]; trivial)
    have hinv := bootInv_update h _ _ _ ((h i).go (hwoken i)) fun k hk => by
      refine ⟨fun _ => trivial, fun _ => hwoken k, ?_⟩
      rw [hm]
      exact Nat.lt_succ_iff_lt_or_eq.trans (or_iff_left (fun he => hk (Fin.ext he)))
    simpa only [Function.update_eq_self] using hinv
  | goEnd hm =>
    refine fun k => (h k).move (fun _ => trivial)
      (fun _ => (h k).scanned (by rw [hm]; trivial)) ?_
    rw [hm]
    exact ⟨fun _ => k.isLt, fun _ => trivial⟩
  | initSocketIf i fd hc =>
    have hi : ThreadInv i σ.main (.setSockfd fd) (σ.flag i) (σ.sockfd i) :=
      (hc ▸ h i).prepare (by simp) (by simp [BackPc.Woken]) (by simp [BackPc.Woken])
        (by simp [BackPc.AtSync])
    simpa only [Function.update_eq_self] using bootInv_child h hi
  | setSockfd i fd hc =>
    have hi : ThreadInv i σ.main .syncThread (σ.flag i) (some fd) :=
      (hc ▸ h i).prepare (by simp) (by simp [BackPc.Woken]) (by simp [BackPc.Woken]) fun _ => rfl
    simpa only [Function.update_eq_self] using bootInv_child h hi
  | syncThread i hc =>
    have hi : ThreadInv i σ.main .wait .wake (σ.sockfd i) := (hc ▸ h i).wake
    simpa only [Function.update_eq_self] using bootInv_child h hi
  | wait i hc hf =>
    have hi : ThreadInv i σ.main .handle .go (σ.sockfd i) := (hc ▸ hf ▸ h i).handled
    rw [← hf] at hi
    simpa only [Function.update_eq_self] using bootInv_child h hi
  | handle i hc => exact h

theorem Booted.inv {σ : BootSys cnt} (h : Booted σ) : BootInv σ := by
  induction h with
  | start => exact bootInv_start
  | step _ hs ih => exact hs.inv ih

/-! ## Safety -/

theorem BootStep.flag_le {σ σ' : BootSys cnt} {l : Option (Fin cnt)} (hs : BootStep σ l σ')
    (h : BootInv σ) (k : Fin cnt) : (σ.flag k).toNat ≤ (σ'.flag k).toNat := by
  have hstore : ∀ (i : Fin cnt) (f : ThreadFlag), (σ.flag i).toNat ≤ f.toNat →
      (σ.flag k).toNat ≤ (Function.update σ.flag i f k).toNat := by
    intro i f hf
    by_cases hk : k = i
    · subst hk
      simpa using hf
    · rw [Function.update_of_ne hk]
  cases hs with
  | syncInit i hm =>
    refine hstore i .init ?_
    rw [(h i).flag_init (by simp [hm, BootPc.Created])]
  | go i hm =>
    refine hstore i .go ?_
    cases σ.flag i <;> decide
  | syncThread i hc =>
    refine hstore i .wake ?_
    rw [(h i).asleep (by simp [hc, BackPc.Woken])]
    decide
  | _ => exact le_rfl

theorem BootInv.woken {σ : BootSys cnt} (h : BootInv σ) {i : Fin cnt} (hi : σ.child i = .handle)
    (k : Fin cnt) : (σ.child k).Woken := by
  have htold := (h i).handle hi
  refine (h k).scanned ?_
  cases hm : σ.main <;> rw [hm] at htold
  case go => trivial
  case commandProc => trivial
  all_goals exact htold.elim

/-- **The start-up barrier is safe**: a thread that has returned from `sync_thread` finds all of
them there, a packet is handled with all sockets stored, and no flag moves backwards. -/
theorem barrier_safe {σ : BootSys cnt} (h : Booted σ) :
    (∀ i, σ.child i = .handle → ∀ k, (σ.child k).AtSync) ∧
      (∀ i σ', BootStep σ (some i) σ' → ∀ k, (σ.sockfd k).isSome = true) ∧
        ∀ l σ', BootStep σ l σ' → ∀ k, (σ.flag k).toNat ≤ (σ'.flag k).toNat := by
  have hsync : ∀ i, σ.child i = .handle → ∀ k, (σ.child k).AtSync :=
    fun i hi k => .inr (h.inv.woken hi k)
  refine ⟨hsync, fun i σ' hs k => ?_, fun l σ' hs => hs.flag_le h.inv⟩
  cases hs with
  | handle _ hi => exact (h.inv k).sockfd (hsync i hi k)

theorem barrier_safe_two : ∃ σ : BootSys 2, Booted σ ∧ σ.child 0 = .handle ∧ σ.child 1 = .wait ∧
    ∀ k, (σ.child k).AtSync := by
  have h := (((((Booted.start.step (.syncInit (0 : Fin 2) rfl)).step (.syncInit 1 rfl)).step
    (.syncInitEnd rfl)).step (.create 0 rfl)).step (.create 1 rfl)).step (.createEnd rfl)
  have h0 := ((h.step (.initSocketIf 0 7 rfl)).step (.setSockfd 0 7 rfl)).step (.syncThread 0 rfl)
  have h1 := ((h0.step (.initSocketIf 1 8 rfl)).step (.setSockfd 1 8 rfl)).step (.syncThread 1 rfl)
  have hgo := (((h1.step (.scan 0 rfl rfl)).step (.scan 1 rfl rfl)).step (.scanEnd rfl)).step
    (.go 0 rfl)
  have hrun := hgo.step (.wait 0 rfl rfl)
  exact ⟨_, hrun, rfl, rfl, (barrier_safe hrun).1 0 rfl⟩

/-! ## Progress -/

/-- How many steps a thread is away from its loop. -/
def BackPc.rank : BackPc → ℕ
  | .none | .handle => 0
  | .initSocketIf => 4
  | .setSockfd _ => 3
  | .syncThread => 2
  | .wait => 1

/-- How many steps `main` is away from `command_proc`, from `wait_thread` on. -/
def BootPc.rank (cnt : ℕ) : BootPc → ℕ
  | .scan i => cnt - i + 1 + (cnt + 1)
  | .go i => cnt - i + 1
  | _ => 0

def BootSys.rank (σ : BootSys cnt) : ℕ := σ.main.rank cnt + ∑ k, (σ.child k).rank

/-- `main` is in `wait_thread` or past it. -/
def BootPc.InWait (cnt : ℕ) : BootPc → Prop
  | .scan i | .go i => i ≤ cnt
  | .commandProc => True
  | _ => False

/-- `main` waits for its threads, and all of them have been created. -/
structure Waiting (σ : BootSys cnt) : Prop where
  inv : BootInv σ
  main : σ.main.InWait cnt
  child : ∀ k, σ.child k ≠ .none

/-- All threads are past the barrier, and `main` as well. -/
def Opened (σ : BootSys cnt) : Prop := σ.main = .commandProc ∧ ∀ k, σ.child k = .handle

theorem rank_child_lt (child : Fin cnt → BackPc) {k : Fin cnt} {c : BackPc}
    (h : c.rank < (child k).rank) :
    ∑ i, (Function.update child k c i).rank < ∑ i, (child i).rank := by
  apply Finset.sum_lt_sum
  · intro i _
    by_cases hi : i = k
    · subst hi
      simpa using h.le
    · rw [Function.update_of_ne hi]
  · exact ⟨k, Finset.mem_univ k, by simpa using h⟩

theorem child_ne_none {child : Fin cnt → BackPc} (h : ∀ i, child i ≠ .none) (k : Fin cnt)
    {c : BackPc} (hc : c ≠ .none) (i : Fin cnt) : Function.update child k c i ≠ .none := by
  by_cases hi : i = k
  · subst hi
    simpa using hc
  · rw [Function.update_of_ne hi]
    exact h i

theorem Waiting.child_step {σ σ' : BootSys cnt} (h : Waiting σ) (hinv : BootInv σ')
    (hmain : σ'.main = σ.main) {k : Fin cnt} {c : BackPc}
    (hchild : σ'.child = Function.update σ.child k c) (hc : c ≠ .none)
    (hlt : c.rank < (σ.child k).rank) : Waiting σ' ∧ σ'.rank < σ.rank := by
  refine ⟨⟨hinv, ?_, ?_⟩, ?_⟩
  · rw [hmain]
    exact h.main
  · rw [hchild]
    exact child_ne_none h.child k hc
  · rw [BootSys.rank, BootSys.rank, hmain, hchild]
    exact Nat.add_lt_add_left (rank_child_lt _ hlt) _

theorem Waiting.main_step {σ σ' : BootSys cnt} (h : Waiting σ) (hinv : BootInv σ')
    (hchild : σ'.child = σ.child) (hmain : σ'.main.InWait cnt)
    (hlt : σ'.main.rank cnt < σ.main.rank cnt) : Waiting σ' ∧ σ'.rank < σ.rank := by
  refine ⟨⟨hinv, hmain, ?_⟩, ?_⟩
  · rw [hchild]
    exact h.child
  · rw [BootSys.rank, BootSys.rank, hchild]
    exact Nat.add_lt_add_right hlt _

theorem Waiting.step {σ σ' : BootSys cnt} (h : Waiting σ) (hs : BootStep σ none σ') :
    Waiting σ' ∧ σ'.rank < σ.rank := by
  have hinv := hs.inv h.inv
  have hmain := h.main
  cases hs with
  | syncInit i hm => rw [hm] at hmain; exact hmain.elim
  | syncInitEnd hm => rw [hm] at hmain; exact hmain.elim
  | create i hm => rw [hm] at hmain; exact hmain.elim
  | createError i hm => rw [hm] at hmain; exact hmain.elim
  | createEnd hm => rw [hm] at hmain; exact hmain.elim
  | scan i hm hf =>
    refine h.main_step hinv rfl i.isLt ?_
    have hi := i.isLt
    rw [hm]
    simp only [BootPc.rank]
    omega
  | scanEnd hm =>
    refine h.main_step hinv rfl (Nat.zero_le cnt) ?_
    rw [hm]
    simp only [BootPc.rank]
    omega
  | go i hm =>
    refine h.main_step hinv rfl i.isLt ?_
    have hi := i.isLt
    rw [hm]
    simp only [BootPc.rank]
    omega
  | goEnd hm =>
    refine h.main_step hinv rfl trivial ?_
    rw [hm]
    exact Nat.succ_pos _
  | initSocketIf k fd hc =>
    refine h.child_step hinv rfl rfl (by simp) ?_
    rw [hc]
    exact Nat.lt_succ_self 3
  | setSockfd k fd hc =>
    refine h.child_step hinv rfl rfl (by simp) ?_
    rw [hc]
    exact Nat.lt_succ_self 2
  | syncThread k hc =>
    refine h.child_step hinv rfl rfl (by simp) ?_
    rw [hc]
    decide
  | wait k hc hf =>
    refine h.child_step hinv rfl rfl (by simp) ?_
    rw [hc]
    decide

theorem Waiting.can_child {σ : BootSys cnt} (h : Waiting σ) {k : Fin cnt}
    (hk : ¬ (σ.child k).Woken) : ∃ σ', BootStep σ none σ' := by
  cases hc : σ.child k with
  | none => exact absurd hc (h.child k)
  | initSocketIf => exact ⟨_, .initSocketIf k 0 hc⟩
  | setSockfd fd => exact ⟨_, .setSockfd k fd hc⟩
  | syncThread => exact ⟨_, .syncThread k hc⟩
  | wait => exact absurd (Or.inl hc) hk
  | handle => exact absurd (Or.inr hc) hk

theorem Waiting.can {σ : BootSys cnt} (h : Waiting σ) :
    Opened σ ∨ ∃ σ', BootStep σ none σ' := by
  by_cases hall : ∀ k, (σ.child k).Woken
  · have hmain := h.main
    cases hm : σ.main with
    | syncInit i => rw [hm] at hmain; exact hmain.elim
    | create i => rw [hm] at hmain; exact hmain.elim
    | scan i =>
      rw [hm] at hmain
      rcases Nat.lt_or_eq_of_le hmain with hi | rfl
      · have hflag := (h.inv ⟨i, hi⟩).woken (hall _) (by rw [hm]; exact id)
        exact Or.inr ⟨_, .scan ⟨i, hi⟩ hm hflag⟩
      · exact Or.inr ⟨_, .scanEnd hm⟩
    | go i =>
      rw [hm] at hmain
      rcases Nat.lt_or_eq_of_le hmain with hi | rfl
      · exact Or.inr ⟨_, .go ⟨i, hi⟩ hm⟩
      · exact Or.inr ⟨_, .goEnd hm⟩
    | commandProc =>
      by_cases hh : ∀ k, σ.child k = .handle
      · exact Or.inl ⟨hm, hh⟩
      · obtain ⟨k, hk⟩ := not_forall.mp hh
        have hflag := (h.inv k).told (by rw [hm]; trivial)
        exact Or.inr ⟨_, .wait k ((hall k).resolve_right hk) hflag⟩
  · obtain ⟨k, hk⟩ := not_forall.mp hall
    exact Or.inr (h.can_child hk)

/-- **The barrier opens**: once `main` waits for threads that have all been created, they all come
to their loops and `main` to `command_proc`, in whatever order they run. -/
theorem barrier_opens {σ : BootSys cnt} (h : Booted σ) (hm : σ.main = .scan 0)
    (hc : ∀ k, σ.child k ≠ .none) :
    Inevitable (fun σ σ' : BootSys cnt => BootStep σ none σ') Opened σ := by
  have hstart : Waiting σ := ⟨h.inv, by rw [hm]; exact Nat.zero_le cnt, hc⟩
  exact Inevitable.of_rank BootSys.rank (fun _ => Waiting.can) (fun _ _ => Waiting.step) hstart

end

end Sasat
