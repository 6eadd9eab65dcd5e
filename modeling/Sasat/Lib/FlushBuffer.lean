import Mathlib.Tactic

/-!
# A buffer with flush tests

A program collects text in a buffer of `size` characters. A `put` writes behind the text that is
pending, with a terminator, and keeps a part of it; a `test` empties the buffer to the output if
less than a margin is left. A write that does not fit has no result.

* `Op`, `Buf`, `run`, `Inside`: the operations, a buffer, a run, and that every write fits.
* `run_texts`: no text is lost.
* `Covered`: the margins cover what is written before the next test; `block`: texts with a test
  behind.
* **`inside_of_covered`**: then every write fits; `inside_of_written`: so it does if all that is
  written is short.
* `Full`, `Quiet`: a stretch of operations that ends with emptying the buffer, or never empties it.
* **`inside_iff`**: every write fits exactly if no stretch outgrows the buffer.
-/

namespace Flush

variable {α : Type} {size n m k x : ℕ} {s : List α}

/-- Write `s` and keep its first `k` characters; test for a margin of `x` characters. -/
inductive Op (α : Type)
  | put (s : List α) (k : ℕ)
  | test (x : ℕ)

/-- What is in the buffer and what has been written out. -/
structure Buf (α : Type) where
  pending : List α
  out : List α

def Op.step (size : ℕ) (b : Buf α) : Op α → Option (Buf α)
  | .put s k =>
    if b.pending.length + s.length < size then some { b with pending := b.pending ++ s.take k }
    else none
  | .test x =>
    if size - x < b.pending.length then some ⟨[], b.out ++ b.pending⟩ else some b

def run (size : ℕ) (ops : List (Op α)) (b : Buf α) : Option (Buf α) := ops.foldlM (Op.step size) b

/-- Every write fits, its terminator included. -/
def Inside (size : ℕ) (ops : List (Op α)) : Prop := ∃ b, run size ops ⟨[], []⟩ = some b

def Op.text : Op α → List α
  | .put s k => s.take k
  | .test _ => []

def texts (ops : List (Op α)) : List α := ops.flatMap Op.text

variable {ops ops' seg : List (Op α)} {b b' : Buf α}

theorem texts_append (ops ops' : List (Op α)) : texts (ops ++ ops') = texts ops ++ texts ops' :=
  List.flatMap_append

theorem run_append (size : ℕ) (ops ops' : List (Op α)) (b : Buf α) :
    run size (ops ++ ops') b = (run size ops b).bind (run size ops') :=
  List.foldlM_append

theorem run_cons (size : ℕ) (op : Op α) (ops : List (Op α)) (b : Buf α) :
    run size (op :: ops) b = (op.step size b).bind (run size ops) :=
  List.foldlM_cons

theorem run_concat (size : ℕ) (ops : List (Op α)) (op : Op α) (b : Buf α) :
    run size (ops ++ [op]) b = (run size ops b).bind fun b => op.step size b := by
  rw [run_append]
  congr 1
  funext b
  rw [run_cons]
  cases op.step size b <;> rfl

theorem Op.step_text {op : Op α} (h : op.step size b = some b') :
    b'.out ++ b'.pending = b.out ++ b.pending ++ op.text := by
  cases op with
  | put s k =>
    rw [Op.step] at h
    split_ifs at h
    cases h
    exact (List.append_assoc _ _ _).symm
  | test x =>
    rw [Op.step] at h
    split_ifs at h <;> cases h <;> simp [Op.text]

/-- **No text is lost.** -/
theorem run_texts (h : run size ops b = some b') :
    b'.out ++ b'.pending = b.out ++ b.pending ++ texts ops := by
  induction ops generalizing b with
  | nil =>
    cases h
    exact (List.append_nil _).symm
  | cons op ops ih =>
    rw [run_cons, Option.bind_eq_some_iff] at h
    obtain ⟨b₁, hstep, hrun⟩ := h
    rw [ih hrun, Op.step_text hstep, List.append_assoc]
    rfl

/-! ## Margins -/

/-- A text with all of it kept, and several of them with a test behind. -/
def block (x : ℕ) (ts : List (List α)) : List (Op α) :=
  ts.map (fun s => Op.put s s.length) ++ [Op.test x]

/-- The margin of every test covers what is written before the next one, its terminator included;
before the first test `m` characters may be written. -/
def Covered (m : ℕ) : List (Op α) → Prop
  | [] => True
  | .put s k :: ops => s.length < m ∧ Covered (m - k) ops
  | .test x :: ops => Covered x ops

theorem Covered.mono (h : Covered m ops) (hm : m ≤ n) : Covered n ops := by
  induction ops generalizing m n with
  | nil => trivial
  | cons op ops ih =>
    cases op with
    | put s k => exact ⟨h.1.trans_le hm, ih h.2 (Nat.sub_le_sub_right hm k)⟩
    | test x => exact h

theorem covered_block {ts : List (List α)} (hm : 0 < m) :
    Covered m (block x ts ++ ops) ↔ (ts.map List.length).sum < m ∧ Covered x ops := by
  induction ts generalizing m with
  | nil => exact ⟨fun h => ⟨hm, h⟩, fun h => h.2⟩
  | cons s ts ih =>
    rw [List.map_cons, List.sum_cons]
    change s.length < m ∧ Covered (m - s.length) (block x ts ++ ops) ↔ _
    constructor
    · rintro ⟨hs, h⟩
      have hrest := (ih (Nat.sub_pos_of_lt hs)).mp h
      exact ⟨by omega, hrest.2⟩
    · rintro ⟨hlt, h⟩
      exact ⟨by omega, (ih (by omega)).mpr ⟨by omega, h⟩⟩

section Blocks

variable {β : Type} {f : β → List (List α)} {a : β} {l : List β}

theorem eq_of_test_mem_blocks {y : ℕ} (h : Op.test y ∈ l.flatMap fun a => block x (f a)) :
    y = x := by
  obtain ⟨a, -, ha⟩ := List.mem_flatMap.mp h
  simpa [block] using ha

theorem covered_blocks_cons (hm : 0 < m) (hx : 0 < x) :
    Covered m ((a :: l).flatMap (fun a => block x (f a)) ++ ops) ↔
      ((f a).map List.length).sum < m ∧ (∀ a ∈ l, ((f a).map List.length).sum < x) ∧
        Covered x ops := by
  rw [List.flatMap_cons, List.append_assoc, covered_block hm]
  refine and_congr_right fun _ => ?_
  induction l with
  | nil => simp
  | cons a l ih =>
    rw [List.flatMap_cons, List.append_assoc, covered_block hx, ih, List.forall_mem_cons, and_assoc]

theorem covered_blocks (hm : 0 < m) (hx : m ≤ x) (h : ∀ a ∈ l, ((f a).map List.length).sum < m)
    (hops : Covered m ops) : Covered m (l.flatMap (fun a => block x (f a)) ++ ops) := by
  cases l with
  | nil => exact hops
  | cons a l =>
    rw [List.forall_mem_cons] at h
    exact (covered_blocks_cons hm (hm.trans_le hx)).mpr
      ⟨h.1, fun a ha => (h.2 a ha).trans_le hx, hops.mono hx⟩

end Blocks

/-- **If the margins cover what is written, every write fits.** The buffer always has room for what
is left of the margin. -/
theorem inside_of_covered (h : Covered size ops) (hx : ∀ x, Op.test x ∈ ops → x ≤ size) :
    Inside size ops := by
  have key : ∀ (ops : List (Op α)) (m : ℕ) (b : Buf α), Covered m ops →
      (∀ x, Op.test x ∈ ops → x ≤ size) → b.pending.length + m ≤ size →
        ∃ b', run size ops b = some b' := by
    intro ops
    induction ops with
    | nil => exact fun m b _ _ _ => ⟨b, rfl⟩
    | cons op ops ih =>
      intro m b h hx hb
      have hx' : ∀ x, Op.test x ∈ ops → x ≤ size := fun x hm => hx x (List.mem_cons_of_mem _ hm)
      rw [run_cons]
      cases op with
      | put s k =>
        obtain ⟨hs, h⟩ := h
        rw [Op.step, if_pos (by omega)]
        refine ih (m - k) _ h hx' ?_
        rw [List.length_append, List.length_take]
        omega
      | test x =>
        have hle := hx x List.mem_cons_self
        rw [Op.step]
        split_ifs with hfull
        · exact ih x _ h hx' (by rw [List.length_nil]; omega)
        · exact ih x _ h hx' (by omega)
  exact key ops size ⟨[], []⟩ h hx (by rw [List.length_nil]; omega)

def Op.written : Op α → ℕ
  | .put s _ => s.length
  | .test _ => 0

theorem inside_of_written (h : (ops.map Op.written).sum < size) : Inside size ops := by
  have key : ∀ (ops : List (Op α)) (b : Buf α),
      b.pending.length + (ops.map Op.written).sum < size → ∃ b', run size ops b = some b' := by
    intro ops
    induction ops with
    | nil => exact fun b _ => ⟨b, rfl⟩
    | cons op ops ih =>
      intro b hb
      rw [List.map_cons, List.sum_cons] at hb
      rw [run_cons]
      cases op with
      | put s k =>
        rw [Op.written] at hb
        rw [Op.step, if_pos (by omega)]
        refine ih _ ?_
        rw [List.length_append, List.length_take]
        omega
      | test x =>
        rw [Op.step]
        split_ifs
        · exact ih _ (by rw [List.length_nil]; omega)
        · exact ih _ (by omega)
  exact key ops ⟨[], []⟩ (by rw [List.length_nil]; omega)

/-! ## Stretches -/

def total (ops : List (Op α)) : ℕ := (texts ops).length

theorem total_append (ops ops' : List (Op α)) : total (ops ++ ops') = total ops + total ops' := by
  rw [total, texts_append, List.length_append]
  rfl

/-- No test of the stretch finds more than its margin leaves. -/
def Quiet (size : ℕ) (seg : List (Op α)) : Prop :=
  ∀ pre x post, seg = pre ++ Op.test x :: post → total pre ≤ size - x

/-- The last operation of the stretch, and no other, is a test that finds more. -/
def Full (size : ℕ) (seg : List (Op α)) : Prop :=
  ∃ pre x, seg = pre ++ [Op.test x] ∧ Quiet size pre ∧ size - x < total pre

theorem Quiet.of_append (h : Quiet size (seg ++ ops)) : Quiet size seg := by
  rintro pre x post rfl
  exact h pre x (post ++ ops) (by simp)

theorem quiet_nil : Quiet size ([] : List (Op α)) := by
  intro pre x post h
  simp at h

theorem Quiet.of_total (h : ∀ x, Op.test x ∈ seg → total seg ≤ size - x) : Quiet size seg := by
  rintro pre x post rfl
  refine le_trans ?_ (h x (by simp))
  rw [total_append]
  exact Nat.le_add_right _ _

theorem Quiet.put (h : Quiet size seg) (s : List α) (k : ℕ) : Quiet size (seg ++ [Op.put s k]) := by
  intro pre x post heq
  rcases List.eq_nil_or_concat post with rfl | ⟨post, op, rfl⟩
  · have hlast := congrArg List.getLast? heq
    simp at hlast
  · rw [List.concat_eq_append, ← List.cons_append, ← List.append_assoc] at heq
    exact h pre x post (List.append_inj' heq rfl).1

theorem Quiet.test (h : Quiet size seg) (hx : total seg ≤ size - x) :
    Quiet size (seg ++ [Op.test x]) := by
  intro pre y post heq
  rcases List.eq_nil_or_concat post with rfl | ⟨post, op, rfl⟩
  · obtain ⟨rfl, hy⟩ := List.append_inj' heq rfl
    cases hy
    exact hx
  · rw [List.concat_eq_append, ← List.cons_append, ← List.append_assoc] at heq
    exact h pre y post (List.append_inj' heq rfl).1

theorem run_quiet (hq : Quiet size seg) (hb : b.pending = []) (h : run size seg b = some b') :
    b'.pending = texts seg := by
  induction seg using List.reverseRecOn generalizing b' with
  | nil =>
    cases h
    exact hb
  | append_singleton seg op ih =>
    rw [run_concat, Option.bind_eq_some_iff] at h
    obtain ⟨b₁, hrun, hstep⟩ := h
    have hpending := ih hq.of_append hrun
    rw [texts_append]
    cases op with
    | put s k =>
      rw [Op.step] at hstep
      split_ifs at hstep
      cases hstep
      rw [← hpending]
      simp [texts, Op.text]
    | test x =>
      have hle : total seg ≤ size - x := hq seg x [] rfl
      rw [Op.step, if_neg (by rw [hpending]; exact hle.not_gt)] at hstep
      cases hstep
      rw [hpending]
      simp [texts, Op.text]

theorem run_full (hf : Full size seg) (hb : b.pending = []) (h : run size seg b = some b') :
    b'.pending = [] := by
  obtain ⟨pre, x, rfl, hq, hx⟩ := hf
  rw [run_concat, Option.bind_eq_some_iff] at h
  obtain ⟨b₁, hrun, hstep⟩ := h
  rw [Op.step, if_pos (by rw [run_quiet hq hb hrun]; exact hx)] at hstep
  cases hstep
  rfl

theorem run_fulls {segs : List (List (Op α))} (hf : ∀ f ∈ segs, Full size f) (hb : b.pending = [])
    (h : run size segs.flatten b = some b') : b'.pending = [] := by
  induction segs generalizing b with
  | nil =>
    cases h
    exact hb
  | cons f segs ih =>
    rw [List.flatten_cons, run_append, Option.bind_eq_some_iff] at h
    obtain ⟨b₁, hrun, hrest⟩ := h
    exact ih (fun g hg => hf g (List.mem_cons_of_mem _ hg))
      (run_full (hf f List.mem_cons_self) hb hrun) hrest

/-- **A run is a sequence of full stretches and a quiet one.** -/
theorem run_stretches (h : run size ops ⟨[], []⟩ = some b) :
    ∃ (segs : List (List (Op α))) (seg : List (Op α)), ops = segs.flatten ++ seg ∧
      (∀ f ∈ segs, Full size f) ∧ Quiet size seg ∧ b.pending = texts seg := by
  induction ops using List.reverseRecOn generalizing b with
  | nil =>
    cases h
    exact ⟨[], [], rfl, fun f hf => absurd hf List.not_mem_nil, quiet_nil, rfl⟩
  | append_singleton ops op ih =>
    rw [run_concat, Option.bind_eq_some_iff] at h
    obtain ⟨b₁, hrun, hstep⟩ := h
    obtain ⟨segs, seg, rfl, hf, hq, hpending⟩ := ih hrun
    cases op with
    | put s k =>
      refine ⟨segs, seg ++ [Op.put s k], List.append_assoc _ _ _, hf, hq.put s k, ?_⟩
      rw [Op.step] at hstep
      split_ifs at hstep
      cases hstep
      rw [texts_append, ← hpending]
      simp [texts, Op.text]
    | test x =>
      rw [Op.step, hpending] at hstep
      split_ifs at hstep with hx
      · cases hstep
        refine ⟨segs ++ [seg ++ [Op.test x]], [], ?_, ?_, quiet_nil, rfl⟩
        · simp
        · intro f hmem
          rcases List.mem_append.mp hmem with hmem | hmem
          · exact hf f hmem
          · obtain rfl := List.mem_singleton.mp hmem
            exact ⟨seg, x, rfl, hq, hx⟩
      · cases hstep
        refine ⟨segs, seg ++ [Op.test x], List.append_assoc _ _ _, hf,
          hq.test (Nat.le_of_not_lt hx), ?_⟩
        rw [texts_append, hpending]
        simp [texts, Op.text]

/-- No stretch outgrows the buffer: cut the operations into full stretches, from the start, as far
as one likes; what a write of the next stretch finds there leaves room for it. -/
def Room (size : ℕ) (ops : List (Op α)) : Prop :=
  ∀ (segs : List (List (Op α))) (seg : List (Op α)) (s : List α) (k : ℕ) (rest : List (Op α)),
    ops = segs.flatten ++ seg ++ Op.put s k :: rest →
      (∀ f ∈ segs, Full size f) → Quiet size seg → total seg + s.length < size

/-- **Every write fits exactly if no stretch outgrows the buffer.** -/
theorem inside_iff : Inside size ops ↔ Room size ops := by
  constructor
  · rintro ⟨b, hrun⟩ segs seg s k rest rfl hf hq
    rw [List.append_assoc, run_append, Option.bind_eq_some_iff] at hrun
    obtain ⟨b₁, hsegs, hrun⟩ := hrun
    rw [run_append, Option.bind_eq_some_iff] at hrun
    obtain ⟨b₂, hseg, hrun⟩ := hrun
    have hlen : b₂.pending.length = total seg :=
      congrArg List.length (run_quiet hq (run_fulls hf rfl hsegs) hseg)
    rw [run_cons, Op.step, hlen] at hrun
    by_contra hno
    rw [if_neg hno] at hrun
    cases hrun
  · intro hroom
    induction ops using List.reverseRecOn with
    | nil => exact ⟨⟨[], []⟩, rfl⟩
    | append_singleton ops op ih =>
      obtain ⟨b, hrun⟩ := ih fun segs seg s k rest heq => hroom segs seg s k (rest ++ [op]) (by
        rw [heq, List.append_assoc]
        rfl)
      unfold Inside
      rw [run_concat, hrun]
      cases op with
      | put s k =>
        obtain ⟨segs, seg, rfl, hf, hq, hpending⟩ := run_stretches hrun
        have hlt := hroom segs seg s k [] rfl hf hq
        refine ⟨_, if_pos ?_⟩
        rw [hpending]
        exact hlt
      | test x =>
        rw [Option.bind_some, Op.step]
        split_ifs
        · exact ⟨_, rfl⟩
        · exact ⟨_, rfl⟩

theorem not_inside (hq : Quiet size seg) (h : size ≤ total seg + s.length) :
    ¬ Inside size (seg ++ Op.put s k :: ops) := by
  intro hin
  have hlt := inside_iff.mp hin [] seg s k ops rfl (fun f hf => absurd hf List.not_mem_nil) hq
  omega

theorem total_put (s : List α) : total [Op.put s s.length] = s.length := by
  simp [total, texts, Op.text]

theorem total_block (x : ℕ) (ts : List (List α)) :
    total (block x ts) = (ts.map List.length).sum := by
  induction ts with
  | nil => rfl
  | cons s ts ih =>
    change total ([Op.put s s.length] ++ block x ts) = _
    rw [total_append, total_put, ih, List.map_cons, List.sum_cons]

theorem total_blocks {β : Type} {f : β → List (List α)} {l : List β} (x : ℕ)
    (h : ∀ a ∈ l, ((f a).map List.length).sum = k) :
    total (l.flatMap fun a => block x (f a)) = k * l.length := by
  induction l with
  | nil => rfl
  | cons a l ih =>
    rw [List.forall_mem_cons] at h
    rw [List.flatMap_cons, total_append, total_block, h.1, ih h.2, List.length_cons, Nat.mul_succ,
      Nat.add_comm]

end Flush
