import Sasat.Lib.Links

/-!
# Tail queues

A tail queue links its nodes in both directions: a node carries the link to the next node and the
address of the link that points to it, and a head carries the first link and the address of the
last one. `TailqHeap H ι` is a store with the heads `H` and the nodes `ι`, all of whose queues
share the link fields of the nodes.

* `init`, `insertHead`, `insertTail`, `remove`: the four updates, write by write.
* `Rep q L`: the store `q` holds the queue `L h` at every head `h`, and no two queues share a node.
* **`Rep.insertHead`**, **`Rep.insertTail`**, **`Rep.removeFirst`**: the updates on lists.
* `Moved`, **`Rep.moveToHead`**, **`Rep.moveToTail`**: the first node of a queue changes its queue.
-/

namespace Intrusive

variable {H ι : Type}

/-- The places that hold a link: the first field of a head, the next field of a node. -/
inductive Slot (H ι : Type)
  | head (h : H)
  | next (e : ι)
  deriving DecidableEq

/-- A store of tail queues. -/
structure TailqHeap (H ι : Type) where
  /-- The contents of the link fields. -/
  cell : Slot H ι → Option ι
  /-- The address of the link that points to a node. -/
  prev : ι → Slot H ι
  /-- The address of the last link of a queue. -/
  last : H → Slot H ι

namespace TailqHeap

variable [DecidableEq H] [DecidableEq ι] (q : TailqHeap H ι) (h : H) (e : ι)

/-- `TAILQ_INIT`. -/
def init : TailqHeap H ι where
  cell := Function.update q.cell (.head h) none
  prev := q.prev
  last := Function.update q.last h (.head h)

/-- `TAILQ_FIRST`. -/
def first : Option ι := q.cell (.head h)

/-- `TAILQ_NEXT`. -/
def next : Option ι := q.cell (.next e)

/-- `TAILQ_INSERT_HEAD`. -/
def insertHead : TailqHeap H ι where
  cell := Function.update (Function.update q.cell (.next e) (q.first h)) (.head h) (some e)
  prev := Function.update
    (match q.first h with
      | some f => Function.update q.prev f (.next e)
      | none => q.prev) e (.head h)
  last := match q.first h with
    | some _ => q.last
    | none => Function.update q.last h (.next e)

/-- `TAILQ_INSERT_TAIL`. -/
def insertTail : TailqHeap H ι where
  cell := Function.update (Function.update q.cell (.next e) none) (q.last h) (some e)
  prev := Function.update q.prev e (q.last h)
  last := Function.update q.last h (.next e)

/-- `TAILQ_REMOVE`. -/
def remove : TailqHeap H ι where
  cell := Function.update q.cell (q.prev e) (q.next e)
  prev := match q.next e with
    | some f => Function.update q.prev f (q.prev e)
    | none => q.prev
  last := match q.next e with
    | some _ => q.last
    | none => Function.update q.last h (q.prev e)

variable {q h e} {h' : H} {f : ι} {s : Slot H ι}

theorem insertHead_next (hf : f ≠ e) : (q.insertHead h e).next f = q.next f := by
  simp [insertHead, next, hf]

theorem insertHead_next_self : (q.insertHead h e).next e = q.first h := by
  simp [insertHead, next]

theorem insertHead_first (hh : h' ≠ h) : (q.insertHead h e).first h' = q.first h' := by
  simp [insertHead, first, hh]

theorem insertTail_cell (h1 : s ≠ q.last h) (h2 : s ≠ .next e) :
    (q.insertTail h e).cell s = q.cell s := by
  simp [insertTail, h1, h2]

theorem remove_cell (hs : s ≠ q.prev e) : (q.remove h e).cell s = q.cell s := by
  simp [remove, hs]

theorem foldl_init {β : Type} (k : β → H) : ∀ (bs : List β) (q : TailqHeap H ι) (h : H),
    ((∃ b ∈ bs, k b = h) ∨ (q.cell (.head h) = none ∧ q.last h = .head h)) →
      (bs.foldl (fun q b => q.init (k b)) q).cell (.head h) = none ∧
        (bs.foldl (fun q b => q.init (k b)) q).last h = .head h
  | [], _, _, hh => hh.resolve_left (by simp)
  | b :: bs, q, h, hh => by
    apply foldl_init k bs (q.init (k b)) h
    by_cases hb : k b = h
    · subst hb
      exact Or.inr ⟨Function.update_self _ _ _, Function.update_self _ _ _⟩
    · rcases hh with ⟨c, hc, rfl⟩ | ⟨hcell, hlast⟩
      · rcases List.mem_cons.mp hc with rfl | hc
        · exact absurd rfl hb
        · exact Or.inl ⟨c, hc, rfl⟩
      · refine Or.inr ⟨?_, (Function.update_of_ne (Ne.symm hb) _ _).trans hlast⟩
        exact (Function.update_of_ne (fun h => hb (Slot.head.inj h).symm) _ _).trans hcell

end TailqHeap

/-! ## Segments -/

/-- From the link at `s`, the nodes of `l` follow in order, each pointing back to its link. -/
def Seg (q : TailqHeap H ι) : Slot H ι → List ι → Prop
  | s, [] => q.cell s = none
  | s, e :: l => q.cell s = some e ∧ q.prev e = s ∧ Seg q (.next e) l

/-- The last link of a segment that starts at `s`. -/
def lastSlot : Slot H ι → List ι → Slot H ι
  | s, [] => s
  | _, e :: l => lastSlot (.next e) l

variable {q q' : TailqHeap H ι} {s : Slot H ι} {h h' : H} {e : ι} {l : List ι}

theorem Seg.links : ∀ {l : List ι} {s : Slot H ι}, Seg q s l → Links q.next (q.cell s) l
  | [], _, hl => hl
  | _ :: _, _, hl => ⟨hl.1, hl.2.2.links⟩

theorem Seg.congr : ∀ {l : List ι} {s : Slot H ι}, q'.cell s = q.cell s →
    (∀ e ∈ l, q'.next e = q.next e ∧ q'.prev e = q.prev e) → Seg q s l → Seg q' s l
  | [], _, hs, _, hl => hs.trans hl
  | e :: _, _, hs, hn, hl =>
    ⟨hs.trans hl.1, (hn e List.mem_cons_self).2.trans hl.2.1,
      hl.2.2.congr (hn e List.mem_cons_self).1 fun f hf => hn f (List.mem_cons_of_mem _ hf)⟩

theorem lastSlot_mem : ∀ {l : List ι} {s : Slot H ι},
    lastSlot s l = s ∨ ∃ e ∈ l, lastSlot s l = .next e
  | [], _ => Or.inl rfl
  | e :: l, s => by
    rcases lastSlot_mem (l := l) (s := (Slot.next e : Slot H ι)) with h | ⟨f, hf, h⟩
    · exact Or.inr ⟨e, List.mem_cons_self, h⟩
    · exact Or.inr ⟨f, List.mem_cons_of_mem _ hf, h⟩

theorem lastSlot_concat : ∀ {l : List ι} {s : Slot H ι}, lastSlot s (l ++ [e]) = .next e
  | [], _ => rfl
  | _ :: l, _ => lastSlot_concat (l := l)

section Write

variable [DecidableEq H] [DecidableEq ι]

theorem Seg.concat : ∀ {l : List ι} {s : Slot H ι}, Seg q s l → e ∉ l →
    (∀ f ∈ e :: l, s ≠ .next f) → (∀ f, f ≠ e → q'.prev f = q.prev f) →
    q'.prev e = lastSlot s l →
    q'.cell = Function.update (Function.update q.cell (.next e) none) (lastSlot s l) (some e) →
    Seg q' s (l ++ [e])
  | [], s, _, _, hs, _, hp, hc => by
    refine ⟨?_, hp, ?_⟩
    · rw [hc]
      exact Function.update_self _ _ _
    · change q'.cell (.next e) = none
      rw [hc]
      change Function.update _ s _ _ = _
      rw [Function.update_of_ne (hs e List.mem_cons_self).symm, Function.update_self]
  | f :: l, s, hl, he, hs, hn, hp, hc => by
    have hfe : f ≠ e := fun h => he (h ▸ List.mem_cons_self)
    have hnd := hl.links.nodup
    -- a link that the segment has left behind is not its last one
    have hlast : s ≠ lastSlot s (f :: l) := by
      change s ≠ lastSlot (.next f) l
      rcases lastSlot_mem (l := l) (s := (Slot.next f : Slot H ι)) with h | ⟨g, hg, h⟩
      · rw [h]
        exact hs f (by simp)
      · rw [h]
        exact hs g (by simp [hg])
    refine ⟨?_, (hn f hfe).trans hl.2.1, ?_⟩
    · rw [hc, Function.update_of_ne hlast, Function.update_of_ne (hs e List.mem_cons_self)]
      exact hl.1
    · refine hl.2.2.concat (fun h => he (List.mem_cons_of_mem _ h)) (fun g hg h => ?_) hn hp hc
      rcases List.mem_cons.mp hg with rfl | hg
      · exact hfe (Slot.next.inj h)
      · exact (List.nodup_cons.mp hnd).1 (Slot.next.inj h ▸ hg)

end Write

/-! ## Stores and lists -/

/-- The store `q` holds the queue `L h` at every head, and no node is on two queues. -/
structure Rep (q : TailqHeap H ι) (L : H → List ι) : Prop where
  seg : ∀ h, Seg q (.head h) (L h)
  last : ∀ h, q.last h = lastSlot (.head h) (L h)
  disj : ∀ {h h' e}, e ∈ L h → e ∈ L h' → h = h'

/-- Node `e` has moved to queue `h`, all other nodes are where they were. -/
def Moved (L : H → List ι) (e : ι) (h : H) (L' : H → List ι) : Prop :=
  ∀ f k, f ∈ L' k ↔ (f = e ∧ k = h) ∨ (f ≠ e ∧ f ∈ L k)

namespace Rep

variable {L : H → List ι}

theorem nodup (hq : Rep q L) (h : H) : (L h).Nodup := (hq.seg h).links.nodup

theorem links (hq : Rep q L) (h : H) : Links q.next (q.first h) (L h) := (hq.seg h).links

theorem first_eq (hq : Rep q L) (h : H) : q.first h = (L h).head? := (hq.links h).eq_head?

theorem of_init (hc : ∀ h, q.cell (.head h) = none) (hl : ∀ h, q.last h = .head h) :
    Rep q fun _ => [] :=
  ⟨hc, hl, fun he => absurd he List.not_mem_nil⟩

theorem disj_cons [DecidableEq H] (hq : Rep q L) (he : ∀ h', e ∉ L h') {m : List ι}
    (hm : ∀ f, f ∈ m ↔ f = e ∨ f ∈ L h) {h₁ h₂ : H} {f : ι}
    (h1 : f ∈ Function.update L h m h₁) (h2 : f ∈ Function.update L h m h₂) : h₁ = h₂ := by
  by_cases e1 : h₁ = h <;> by_cases e2 : h₂ = h
  · rw [e1, e2]
  · subst e1
    rw [Function.update_self, hm] at h1
    rw [Function.update_of_ne e2] at h2
    rcases h1 with rfl | h1
    · exact absurd h2 (he h₂)
    · exact hq.disj h1 h2
  · subst e2
    rw [Function.update_self, hm] at h2
    rw [Function.update_of_ne e1] at h1
    rcases h2 with rfl | h2
    · exact absurd h1 (he h₁)
    · exact hq.disj h1 h2
  · rw [Function.update_of_ne e1] at h1
    rw [Function.update_of_ne e2] at h2
    exact hq.disj h1 h2

variable [DecidableEq H] [DecidableEq ι]

/-- **Inserting at the head.** -/
theorem insertHead (hq : Rep q L) (he : ∀ h', e ∉ L h') :
    Rep (q.insertHead h e) (Function.update L h (e :: L h)) := by
  have hne : ∀ {k f}, f ∈ L k → f ≠ e := fun hf h => he _ (h ▸ hf)
  have hfirst := hq.first_eq h
  -- only the inserted node and the node that was first are pointed back to a new place
  have hprev : ∀ f, f ≠ e → f ∉ (L h).head? → (q.insertHead h e).prev f = q.prev f := by
    intro f hf hf'
    change Function.update _ e _ f = _
    rw [Function.update_of_ne hf, hfirst]
    cases hl : (L h).head? with
    | none => rfl
    | some g =>
      rw [hl] at hf'
      exact Function.update_of_ne (fun h => hf' (by simp [h])) _ _
  refine ⟨fun h' => ?_, fun h' => ?_, hq.disj_cons he (by simp)⟩
  · by_cases hh : h' = h
    · subst hh
      rw [Function.update_self]
      refine ⟨Function.update_self _ _ _, Function.update_self _ _ _, ?_⟩
      have hseg := hq.seg h'
      have hnd := hq.nodup h'
      cases hl : L h' with
      | nil =>
        rw [hl] at hfirst
        exact TailqHeap.insertHead_next_self.trans hfirst
      | cons g l =>
        rw [hl] at hseg hfirst hprev hnd
        have hg : g ≠ e := hne (k := h') (by simp [hl])
        refine ⟨TailqHeap.insertHead_next_self.trans hfirst, ?_,
          hseg.2.2.congr (TailqHeap.insertHead_next hg) fun f hf => ?_⟩
        · change Function.update _ e _ g = _
          rw [Function.update_of_ne hg, hfirst]
          exact Function.update_self _ _ _
        · have hfe : f ≠ e := hne (k := h') (by simp [hl, hf])
          refine ⟨TailqHeap.insertHead_next hfe, hprev f hfe fun h => ?_⟩
          obtain rfl : g = f := by simpa using h
          exact (List.nodup_cons.mp hnd).1 hf
    · rw [Function.update_of_ne hh]
      refine (hq.seg h').congr (TailqHeap.insertHead_first hh) fun f hf =>
        ⟨TailqHeap.insertHead_next (hne hf), hprev f (hne hf) fun h'' => ?_⟩
      exact hh (hq.disj hf (List.mem_of_mem_head? h''))
  · change (match q.first h with
      | some _ => q.last
      | none => Function.update q.last h (.next e)) h' = _
    have hlast := hq.last h'
    by_cases hh : h' = h
    · subst hh
      rw [Function.update_self, hfirst]
      cases hl : L h' with
      | nil => exact Function.update_self _ _ _
      | cons g l =>
        rw [hl] at hlast
        exact hlast
    · rw [Function.update_of_ne hh, hfirst]
      cases (L h).head? with
      | none => exact (Function.update_of_ne hh _ _).trans hlast
      | some g => exact hlast

/-- **Inserting at the tail.** -/
theorem insertTail (hq : Rep q L) (he : ∀ h', e ∉ L h') :
    Rep (q.insertTail h e) (Function.update L h (L h ++ [e])) := by
  have hne : ∀ {h' f}, f ∈ L h' → f ≠ e := fun hf h => he _ (h ▸ hf)
  have hlast := hq.last h
  refine ⟨fun h' => ?_, fun h' => ?_, hq.disj_cons he (by simp [or_comm])⟩
  · by_cases hh : h' = h
    · subst hh
      rw [Function.update_self]
      refine (hq.seg h').concat (he h') (by simp) (fun f hf => Function.update_of_ne hf _ _)
        ?_ ?_
      · rw [← hlast]
        exact Function.update_self _ _ _
      · rw [← hlast]
        rfl
    · rw [Function.update_of_ne hh]
      -- the link that is written belongs to queue `h`
      have hslot : ∀ s : Slot H ι, (∀ f, s = .next f → f ∈ L h') → s ≠ .head h →
          (q.insertTail h e).cell s = q.cell s := by
        intro s hs hsh
        have h1 : s ≠ q.last h := by
          rw [hlast]
          rcases lastSlot_mem (l := L h) (s := (Slot.head h : Slot H ι)) with h | ⟨g, hg, h⟩
          · rwa [h]
          · rw [h]
            exact fun h'' => hh (hq.disj (hs g h'') hg)
        exact TailqHeap.insertTail_cell h1 fun h => he h' (hs e h)
      refine (hq.seg h').congr (hslot _ (by simp) (by simpa using hh)) fun f hf => ⟨?_, ?_⟩
      · exact hslot _ (fun g hg => Slot.next.inj hg ▸ hf) (by simp)
      · exact Function.update_of_ne (hne hf) _ _
  · change Function.update q.last h _ h' = _
    by_cases hh : h' = h
    · subst hh
      rw [Function.update_self, Function.update_self, lastSlot_concat]
    · rw [Function.update_of_ne hh, Function.update_of_ne hh, hq.last]

/-- **Removing the first node.** -/
theorem removeFirst (hq : Rep q L) (hl : L h = e :: l) :
    Rep (q.remove h e) (Function.update L h l) := by
  have hseg := hq.seg h
  have hnd := hq.nodup h
  have hlast := hq.last h
  rw [hl] at hseg hnd hlast
  have hprev : q.prev e = .head h := hseg.2.1
  have hnext : q.next e = l.head? := hseg.2.2.links.eq_head?
  have hmem : ∀ f ∈ l, f ∈ L h := fun f hf => hl ▸ List.mem_cons_of_mem _ hf
  have hcell : ∀ s, s ≠ .head h → (q.remove h e).cell s = q.cell s :=
    fun s hs => TailqHeap.remove_cell (hprev ▸ hs)
  -- only the new first node is pointed back to a new place
  have hpr : ∀ f, f ∉ l.head? → (q.remove h e).prev f = q.prev f := by
    intro f hf
    change (match q.next e with
      | some f => Function.update q.prev f (q.prev e)
      | none => q.prev) f = _
    rw [hnext]
    cases hl' : l.head? with
    | none => rfl
    | some g =>
      rw [hl'] at hf
      exact Function.update_of_ne (fun h => hf (by simp [h])) _ _
  refine ⟨fun h' => ?_, fun h' => ?_, fun {h₁ h₂ f} h1 h2 => ?_⟩
  · by_cases hh : h' = h
    · subst hh
      rw [Function.update_self]
      have hc : (q.remove h' e).cell (.head h') = l.head? := by
        change Function.update _ (q.prev e) _ _ = _
        rw [hprev, Function.update_self, hnext]
      cases l with
      | nil => exact hc
      | cons g l =>
        refine ⟨hc, ?_, hseg.2.2.2.2.congr (hcell _ (by simp)) fun f hf =>
          ⟨hcell _ (by simp), hpr f fun h => ?_⟩⟩
        · change (match q.next e with
            | some f => Function.update q.prev f (q.prev e)
            | none => q.prev) g = _
          rw [hnext, hprev]
          exact Function.update_self _ _ _
        · obtain rfl : g = f := by simpa using h
          exact (List.nodup_cons.mp (List.nodup_cons.mp hnd).2).1 hf
    · rw [Function.update_of_ne hh]
      refine (hq.seg h').congr (hcell _ (by simpa using hh)) fun f hf =>
        ⟨hcell _ (by simp), hpr f fun h'' => ?_⟩
      exact hh (hq.disj hf (hmem f (List.mem_of_mem_head? h'')))
  · change (match q.next e with
      | some _ => q.last
      | none => Function.update q.last h (q.prev e)) h' = _
    rw [hnext, hprev]
    by_cases hh : h' = h
    · subst hh
      rw [Function.update_self]
      cases l with
      | nil => exact Function.update_self _ _ _
      | cons g l => exact hlast
    · rw [Function.update_of_ne hh]
      cases l with
      | nil => exact (Function.update_of_ne hh _ _).trans (hq.last h')
      | cons g l => exact hq.last h'
  · have key : ∀ h', f ∈ Function.update L h l h' → f ∈ L h' := by
      intro h' hf
      by_cases hh : h' = h
      · subst hh
        rw [Function.update_self] at hf
        exact hmem f hf
      · rwa [Function.update_of_ne hh] at hf
    exact hq.disj (key h₁ h1) (key h₂ h2)

/-! ## Moving a node -/

theorem moved_of_first (hq : Rep q L) (hl : L h = e :: l) {m : List ι}
    (hm : ∀ f, f ∈ m ↔ f = e ∨ f ∈ L h') (hh : h' ≠ h) :
    Moved L e h' (Function.update (Function.update L h l) h' m) := by
  have he : e ∈ L h := hl ▸ List.mem_cons_self
  have hnd := hq.nodup h
  rw [hl] at hnd
  have hout : ∀ k, k ≠ h → e ∉ L k := fun k hk hek => hk (hq.disj hek he)
  intro f k
  by_cases hk : k = h'
  · subst hk
    rw [Function.update_self, hm]
    by_cases hf : f = e <;> simp [hf]
  · rw [Function.update_of_ne hk]
    by_cases hk' : k = h
    · subst hk'
      rw [Function.update_self, hl, List.mem_cons]
      by_cases hf : f = e
      · subst hf
        simpa [hk] using (List.nodup_cons.mp hnd).1
      · simp [hf]
    · rw [Function.update_of_ne hk']
      by_cases hf : f = e
      · subst hf
        simpa [hk] using hout k hk'
      · simp [hf]

omit [DecidableEq ι] in
theorem notMem_removeFirst (hq : Rep q L) (hl : L h = e :: l) (k : H) :
    e ∉ Function.update L h l k := by
  have hnd := hq.nodup h
  rw [hl] at hnd
  by_cases hk : k = h
  · subst hk
    rw [Function.update_self]
    exact (List.nodup_cons.mp hnd).1
  · rw [Function.update_of_ne hk]
    exact fun hek => hk (hq.disj hek (hl ▸ List.mem_cons_self))

/-- **The first node of a queue moves to the head of another one.** -/
theorem moveToHead (hq : Rep q L) (hl : L h = e :: l) (hh : h' ≠ h) :
    Rep ((q.remove h e).insertHead h' e)
        (Function.update (Function.update L h l) h' (e :: L h')) ∧
      Moved L e h' (Function.update (Function.update L h l) h' (e :: L h')) := by
  refine ⟨?_, moved_of_first hq hl (by simp) hh⟩
  have := (hq.removeFirst hl).insertHead (h := h') (notMem_removeFirst hq hl)
  rwa [Function.update_of_ne hh] at this

/-- **The first node of a queue moves to the tail of another one.** -/
theorem moveToTail (hq : Rep q L) (hl : L h = e :: l) (hh : h' ≠ h) :
    Rep ((q.remove h e).insertTail h' e)
        (Function.update (Function.update L h l) h' (L h' ++ [e])) ∧
      Moved L e h' (Function.update (Function.update L h l) h' (L h' ++ [e])) := by
  refine ⟨?_, moved_of_first hq hl (by simp [or_comm]) hh⟩
  have := (hq.removeFirst hl).insertTail (h := h') (notMem_removeFirst hq hl)
  rwa [Function.update_of_ne hh] at this

end Rep

end Intrusive
