import Sasat.Common.ArpProc
import Sasat.Lib.Outcome

/-!
# What a frame leaves in the counters

* `Posted ms ws io io'`: from `io` to `io'` the counters `ms` have been raised, each as often as it
  occurs, and the functions `ws` have written a frame each, in this order.
* **`Posted.trans`**: entries add up; **`entries_run`**: the entries of a run.
* `ArpEntry`, **`macResolve_posted`**, **`macResolveUc6_posted`**: the entries of `arp_proc.c`.
-/

namespace Sasat

open Outcome

section

variable {S : Type} [DecidableEq S]

/-- The counters `ms` have been raised, and the functions `ws` have written a frame each. -/
structure Posted (ms : List S) (ws : List Sender) (io io' : Io S) : Prop where
  sstat : ∀ k, io'.sstat k = io.sstat k + BitVec.ofNat 64 (ms.count k)
  tx : ∃ xs, io'.tx = io.tx ++ xs ∧ xs.map Tx.sender = ws

/-- What a counter gains. -/
def gain (io io' : Io S) (m : S) : BitVec 64 := io'.sstat m - io.sstat m

namespace Posted

variable {ms ms' : List S} {ws ws' : List Sender} {io io' io'' : Io S}

theorem refl (io : Io S) : Posted [] [] io io :=
  ⟨fun _ => (BitVec.add_zero _).symm, [], (List.append_nil _).symm, rfl⟩

/-- **Entries add up.** -/
theorem trans (h : Posted ms ws io io') (h' : Posted ms' ws' io' io'') :
    Posted (ms ++ ms') (ws ++ ws') io io'' := by
  obtain ⟨xs, htx, hws⟩ := h.tx
  obtain ⟨xs', htx', hws'⟩ := h'.tx
  refine ⟨fun k => ?_, xs ++ xs', by rw [htx', htx, List.append_assoc], by
    rw [List.map_append, hws, hws']⟩
  rw [h'.sstat, h.sstat, List.count_append, BitVec.ofNat_add, BitVec.add_assoc]

theorem stat (h : Posted ms ws io io') (m : S) : Posted (ms ++ [m]) ws io (io'.stat m) := by
  refine ⟨fun k => ?_, h.tx⟩
  rw [List.count_append, BitVec.ofNat_add, ← BitVec.add_assoc, ← h.sstat]
  by_cases hk : k = m
  · subst hk
    rw [List.count_singleton_self]
    exact Function.update_self ..
  · rw [List.count_singleton, beq_eq_false_iff_ne.mpr (Ne.symm hk)]
    exact (Function.update_of_ne hk _ _).trans (BitVec.add_zero _).symm

theorem after_stat {m : S} (h : Posted ms ws (io.stat m) io') : Posted (m :: ms) ws io io' :=
  ((refl io).stat m).trans h

theorem write (h : Posted ms ws io io') (sender : Sender) (fd : ℕ) (bytes : List Byte) :
    Posted ms (ws ++ [sender]) io (io'.write sender fd bytes) := by
  obtain ⟨xs, htx, hws⟩ := h.tx
  refine ⟨h.sstat, xs ++ [⟨sender, fd, bytes⟩], ?_, by rw [List.map_append, hws]; rfl⟩
  rw [Io.write, htx, List.append_assoc]

theorem gain_eq (h : Posted ms ws io io') (m : S) :
    gain io io' m = BitVec.ofNat 64 (ms.count m) := by
  rw [gain, h.sstat, add_comm, BitVec.add_sub_cancel]

end Posted

/-- **The entries of a run**: one for each frame. -/
theorem entries_run {σ A K : Type} (io : σ → Io S) {I : σ → Prop} {kind : A → K}
    {Entry : K → List S → List Sender → Prop} {f : σ → A → M σ}
    (step : ∀ t a t', I t → f t a = .ok t' →
      I t' ∧ ∃ ms ws, Entry (kind a) ms ws ∧ Posted ms ws (io t) (io t')) :
    ∀ {as : List A} {t t' : σ}, I t → as.foldlM f t = .ok t' →
      ∃ es : List (List S × List Sender),
        List.Forall₂ (fun k e => Entry k e.1 e.2) (as.map kind) es ∧
        Posted (es.flatMap Prod.fst) (es.flatMap Prod.snd) (io t) (io t') := by
  intro as
  induction as with
  | nil =>
    intro t t' _ hrun
    cases hrun
    exact ⟨[], .nil, .refl _⟩
  | cons a as ih =>
    intro t t' ht hrun
    rw [List.foldlM_cons] at hrun
    obtain ⟨t₁, hstep, hrun⟩ := bind_eq_ok.mp hrun
    obtain ⟨ht₁, ms, ws, he, hp⟩ := step t a t₁ ht hstep
    obtain ⟨es, hes, hps⟩ := ih ht₁ hrun
    exact ⟨(ms, ws) :: es, .cons he hes, hp.trans hps⟩

/-! ## `arp_proc.c` -/

variable (st : ArpStats S)

/-- What `arp_proc.c` may leave for a frame: nothing, a drop, a reply or an advertisement. -/
def ArpEntry (ms : List S) (ws : List Sender) : Prop :=
  (ms = [] ∧ ws = []) ∨ (ms = [st.rxDrop] ∧ ws = []) ∨
    (ms = st.txArpReply.toList ∧ ws = [.arpReply]) ∨ (ms = [st.txNa] ∧ ws = [.sendIcmp6Na])

theorem arpReply_posted (ifd : Ifdata) (b : Buf) (io : Io S) :
    ((arpReply st ifd b io).1 = false ∧ Posted [] [] io (arpReply st ifd b io).2.2) ∨
      (arpReply st ifd b io).1 = true ∧
        Posted st.txArpReply.toList [.arpReply] io (arpReply st ifd b io).2.2 := by
  unfold arpReply
  split_ifs with htmpl htpa
  · exact .inl ⟨rfl, .refl io⟩
  · exact .inl ⟨rfl, .refl io⟩
  · refine .inr ⟨rfl, ?_⟩
    cases st.txArpReply with
    | none => exact (Posted.refl io).write _ _ _
    | some m => exact ((Posted.refl io).write _ _ _).stat m

theorem sendIcmp6Na_posted (ifd : Ifdata) (b : Buf) (mcast : Bool) (io : Io S) :
    Post (Posted [st.txNa] [.sendIcmp6Na] io) (fun _ => True) (sendIcmp6Na st ifd b mcast io) :=
  .bind .trivial fun _ _ => ((Posted.refl io).write _ _ _).stat st.txNa

/-- **The entries of `mac_resolve`.** -/
theorem macResolve_posted (lim : ℕ) (ifd : Ifdata) (prot : BitVec 16) (len : ℕ) (b : Buf)
    (io : Io S) : Post (fun r => ∃ ms ws, ArpEntry st ms ws ∧ Posted ms ws io r.2) (fun _ => True)
      (macResolve st lim ifd prot len b io) := by
  have hdrop : ∃ ms ws, ArpEntry st ms ws ∧ Posted ms ws io (io.stat st.rxDrop) :=
    ⟨_, _, .inr (.inl ⟨rfl, rfl⟩), (Posted.refl io).stat _⟩
  refine macResolve_post ?arp ?na hdrop
  case arp =>
    intro _ _ _
    rcases arpReply_posted st ifd b io with ⟨-, h⟩ | ⟨-, h⟩
    · exact ⟨_, _, .inl ⟨rfl, rfl⟩, h⟩
    · exact ⟨_, _, .inr (.inr (.inl ⟨rfl, rfl⟩)), h⟩
  case na =>
    exact (sendIcmp6Na_posted st ifd b true io).mono
      (fun _ h => ⟨_, _, .inr (.inr (.inr ⟨rfl, rfl⟩)), h⟩) fun _ h => h

/-- **The entries of `mac_resolve_uc6`.** -/
theorem macResolveUc6_posted (lim : ℕ) (ifd : Ifdata) (len : ℕ) (b : Buf) (io : Io S) :
    Post (fun io' => ∃ ms ws, ArpEntry st ms ws ∧ Posted ms ws io io') (fun _ => True)
      (macResolveUc6 st lim ifd len b io) := by
  have hdrop : ∃ ms ws, ArpEntry st ms ws ∧ Posted ms ws io (io.stat st.rxDrop) :=
    ⟨_, _, .inr (.inl ⟨rfl, rfl⟩), (Posted.refl io).stat _⟩
  refine macResolveUc6_post ?na hdrop
  case na =>
    exact (sendIcmp6Na_posted st ifd b false io).mono
      (fun _ h => ⟨_, _, .inr (.inr (.inr ⟨rfl, rfl⟩)), h⟩) fun _ h => h

end

end Sasat
