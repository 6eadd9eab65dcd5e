import Sasat.Common.Basic

/-!
# `rt_body.c`: a request to the routing socket

A datagram of the routing socket is a sequence of messages. Each starts with a header of 16 bytes,
its length in the first field, and the next one follows at a multiple of four bytes.

* `nlmsgLen`, `nlmsgType`, `nlmsgSeq`, `nlmsgPid`: the header fields, at their offsets.
* `Messages`: a datagram is well formed, with the offsets of its messages.
* `scan`, `talkDgram`, `talkLoop`, `rtsockTalk`: the request, as the code has it.
* `firstReply`: what it is for, the first message that carries the numbers of the request.
* **`rtsockTalk_returns_iff`**, **`talkDgram_iff`**: the scan ends only at the first message.
-/

namespace Sasat

def bytes32 (x : BitVec 32) : Fin 4 → Byte := fun i => BitVec.ofNat 8 (x.toNat / 256 ^ i.val)

theorem le32_bytes32 (x : BitVec 32) : le32 (bytes32 x) = x := by
  have := x.isLt
  apply BitVec.eq_of_toNat_eq
  rw [toNat_le32]
  simp only [bytes32, BitVec.toNat_ofNat]
  change x.toNat / 1 % 256 + 256 * (x.toNat / 256 % 256) + 65536 * (x.toNat / 65536 % 256) +
    16777216 * (x.toNat / 16777216 % 256) = x.toNat
  omega

section Header

variable (b : Buf) (h : ℕ)

def nlmsgLen : BitVec 32 := le32 (load b h 4)

def nlmsgType : BitVec 16 := le16 (load b (h + 4) 2)

def nlmsgSeq : BitVec 32 := le32 (load b (h + 8) 4)

def nlmsgPid : BitVec 32 := le32 (load b (h + 12) 4)

/-- The field `error` of the `struct nlmsgerr` behind a header. -/
def nlmsgError : BitVec 32 := le32 (load b (h + 16) 4)

end Header

/-- `sizeof(struct nlmsghdr)`. -/
def nlmsghdrSize : ℕ := 16

/-- `sizeof(struct nlmsgerr)`. -/
def nlmsgerrSize : ℕ := 20

/-- `NLMSG_ERROR`. -/
def nlmsgErrorType : BitVec 16 := 2

/-- `NLMSG_ALIGN`. -/
def nlmsgAlign (len : ℕ) : ℕ := (len + 3) / 4 * 4

/-- The `status` bytes at `h` are well-formed messages at the given offsets. A message that reports
an error has a complete report. -/
inductive Messages (b : Buf) : ℕ → ℕ → List ℕ → Prop
  | nil (h : ℕ) : Messages b h 0 []
  | cons {h status : ℕ} {ms : List ℕ} : nlmsghdrSize ≤ (nlmsgLen b h).toNat →
      (nlmsgLen b h).toNat ≤ status →
      (nlmsgType b h = nlmsgErrorType → nlmsghdrSize + nlmsgerrSize ≤ (nlmsgLen b h).toNat) →
      Messages b (h + nlmsgAlign (nlmsgLen b h).toNat) (status - nlmsgAlign (nlmsgLen b h).toNat)
        ms → Messages b h status (h :: ms)

/-- `struct rtsock_handle`: what a reply carries in its header. -/
structure Talk where
  /-- `rtsock->local.nl_pid`. -/
  nlPid : BitVec 32
  seq : BitVec 32

/-- A datagram in the buffer of `rtsock_talk`, with the sender's `nl_pid`. Behind its `status` bytes
the buffer holds what it held before. -/
structure Datagram where
  buf : Buf
  status : ℕ
  nlPid : BitVec 32
  /-- `MSG_TRUNC`. -/
  trunc : Bool
  pos : 0 < status
  le : status ≤ 16384

/-- What `recvmsg` returns. -/
inductive Recv
  | eintr
  | overrun
  | eof
  | badName
  | datagram (d : Datagram)

/-- The message at `h` comes from the kernel and carries the numbers of the request. -/
def Carries (t : Talk) (d : Datagram) (h : ℕ) : Prop :=
  d.nlPid = 0 ∧ nlmsgPid d.buf h = t.nlPid ∧ nlmsgSeq d.buf h = t.seq

instance (t : Talk) (d : Datagram) (h : ℕ) : Decidable (Carries t d h) :=
  inferInstanceAs (Decidable (_ ∧ _ ∧ _))

/-- How the scan of a datagram ends. -/
inductive Scan
  | copied (n : Buf)
  | failed
  | left (status : ℕ)

/-- `memcpy(n, h, h->nlmsg_len)`. -/
def copyMsg (n : Buf) (d : Datagram) (h : ℕ) : Buf :=
  store n 0 (load d.buf h (nlmsgLen d.buf h).toNat)

/-- The inner loop of `rtsock_talk`, for at most so many turns. -/
def scan (t : Talk) (d : Datagram) (n : Buf) : ℕ → ℕ → ℕ → M Scan
  | 0, _, _ => .error .endless
  | k + 1, h, status =>
    if status < nlmsghdrSize then .ok (.left status)
    else
      let len := nlmsgLen d.buf h
      let l := len - BitVec.ofNat 32 nlmsghdrSize
      if l.toInt < 0 ∨ (status : ℤ) < len.toInt then .ok .failed
      else if ¬ Carries t d h then
        -- `continue`, in a `for` that moves neither `h` nor `status`
        scan t d n k h status
      else if nlmsgType d.buf h = nlmsgErrorType then
        if l.toNat < nlmsgerrSize then .ok .failed
        else if nlmsgError d.buf h = 0 then .ok (.copied (copyMsg n d h))
        else .ok .failed
      else .ok (.copied (copyMsg n d h))

/-- What `rtsock_talk` does after a datagram: it returns, or it receives another one. -/
inductive TalkNext
  | ret (r : ℤ) (n : Buf)
  | again

/-- `rtsock_talk` on one datagram. -/
def talkDgram (k : ℕ) (t : Talk) (n : Buf) (d : Datagram) : M TalkNext := do
  match ← scan t d n k 0 d.status with
  | .copied n => .ok (.ret 0 n)
  | .failed => .ok (.ret (-1) n)
  | .left status =>
    if d.trunc then .ok .again
    else if status ≠ 0 then .ok (.ret (-1) n)
    else .ok .again

/-- The outer loop of `rtsock_talk`; when nothing more arrives it waits. -/
def talkLoop (k : ℕ) (t : Talk) (n : Buf) : List Recv → M (Option (ℤ × Buf))
  | [] => .ok none
  | .eintr :: rs => talkLoop k t n rs
  | .overrun :: rs => talkLoop k t n rs
  | .eof :: _ => .ok (some (-1, n))
  | .badName :: _ => .ok (some (-1, n))
  | .datagram d :: rs => do
    match ← talkDgram k t n d with
    | .ret r n => .ok (some (r, n))
    | .again => talkLoop k t n rs

/-- `rtsock_talk`, and the handle `rtsock` that it leaves; `sent` tells whether `sendmsg`
succeeds. -/
def rtsockTalk (k : ℕ) (rtsock : Talk) (n : Buf) (sent : Bool) (rs : List Recv) :
    Talk × M (Option (ℤ × Buf)) :=
  let rtsock := { rtsock with seq := rtsock.seq + 1 }
  let n := store n 8 (bytes32 rtsock.seq)
  (rtsock, if sent then talkLoop k rtsock n rs else .ok (some (-1, n)))

/-! ## What it is for -/

/-- The first message that carries the numbers of the request is copied back, or it reports an
error; without one the next datagram is received. -/
def firstReply (t : Talk) (n : Buf) (d : Datagram) (ms : List ℕ) : TalkNext :=
  match ms.find? fun h => Carries t d h with
  | none => .again
  | some h =>
    if nlmsgType d.buf h = nlmsgErrorType ∧ nlmsgError d.buf h ≠ 0 then .ret (-1) n
    else .ret 0 (copyMsg n d h)

section

variable {t : Talk} {n : Buf} {d : Datagram} {ms : List ℕ} {k : ℕ} {h status : ℕ}

theorem Messages.head (hm : Messages d.buf 0 d.status ms) : ms.head? = some 0 ∧
    nlmsghdrSize ≤ (nlmsgLen d.buf 0).toNat ∧ (nlmsgLen d.buf 0).toNat ≤ d.status ∧
      (nlmsgType d.buf 0 = nlmsgErrorType →
        nlmsghdrSize + nlmsgerrSize ≤ (nlmsgLen d.buf 0).toNat) := by
  generalize hstatus : d.status = status at hm
  cases hm with
  | nil => exact absurd hstatus d.pos.ne'
  | cons h1 h2 h3 _ => exact ⟨rfl, h1, h2, h3⟩

theorem len_checks {len : BitVec 32} (h1 : nlmsghdrSize ≤ len.toNat) (h2 : len.toNat ≤ status)
    (h3 : status ≤ 16384) : ¬ ((len - BitVec.ofNat 32 nlmsghdrSize).toInt < 0 ∨
      (status : ℤ) < len.toInt) ∧
        (len - BitVec.ofNat 32 nlmsghdrSize).toNat = len.toNat - nlmsghdrSize := by
  unfold nlmsghdrSize at *
  have hsub : (len - BitVec.ofNat 32 16).toNat = len.toNat - 16 := by
    rw [BitVec.toNat_sub, BitVec.toNat_ofNat]
    omega
  refine ⟨?_, hsub⟩
  rw [BitVec.toInt_eq_toNat_of_lt (by omega), BitVec.toInt_eq_toNat_of_lt (by omega)]
  omega

/-- **A first message without the numbers of the request** is scanned for ever. -/
theorem scan_endless (hm : Messages d.buf 0 d.status ms) (hc : ¬ Carries t d 0) :
    ∀ k, scan t d n k 0 d.status = .error .endless
  | 0 => rfl
  | k + 1 => by
    obtain ⟨-, h1, h2, -⟩ := hm.head
    obtain ⟨hlen, -⟩ := len_checks h1 h2 d.le
    rw [scan, if_neg (not_lt.mpr (h1.trans h2))]
    dsimp only
    rw [if_neg hlen, if_pos hc]
    exact scan_endless hm hc k

theorem scan_first (hm : Messages d.buf 0 d.status ms) (hc : Carries t d 0) (k : ℕ) :
    scan t d n (k + 1) 0 d.status =
      .ok (if nlmsgType d.buf 0 = nlmsgErrorType ∧ nlmsgError d.buf 0 ≠ 0 then .failed
        else .copied (copyMsg n d 0)) := by
  obtain ⟨-, h1, h2, h3⟩ := hm.head
  obtain ⟨hlen, hl⟩ := len_checks h1 h2 d.le
  rw [scan, if_neg (not_lt.mpr (h1.trans h2))]
  dsimp only
  rw [if_neg hlen, if_neg (not_not.mpr hc)]
  by_cases ht : nlmsgType d.buf 0 = nlmsgErrorType
  · have hsize := h3 ht
    rw [if_pos ht, hl, if_neg (by omega)]
    by_cases he : nlmsgError d.buf 0 = 0
    · rw [if_pos he, if_neg fun h => h.2 he]
    · rw [if_neg he, if_pos ⟨ht, he⟩]
  · rw [if_neg ht, if_neg fun h => ht h.1]

theorem firstReply_first (hm : Messages d.buf 0 d.status ms) (hc : Carries t d 0) :
    firstReply t n d ms =
      if nlmsgType d.buf 0 = nlmsgErrorType ∧ nlmsgError d.buf 0 ≠ 0 then .ret (-1) n
      else .ret 0 (copyMsg n d 0) := by
  obtain ⟨l, rfl⟩ := List.head?_eq_some_iff.mp hm.head.1
  rw [firstReply, List.find?_cons, decide_eq_true hc]

theorem talkDgram_first (hm : Messages d.buf 0 d.status ms) (hc : Carries t d 0) (k : ℕ) :
    talkDgram (k + 1) t n d = .ok (firstReply t n d ms) := by
  rw [talkDgram, scan_first hm hc, firstReply_first hm hc]
  simp only [bind, Except.bind]
  split_ifs <;> rfl

theorem talkDgram_endless (hm : Messages d.buf 0 d.status ms) (hc : ¬ Carries t d 0) (k : ℕ) :
    talkDgram k t n d = .error .endless := by
  rw [talkDgram, scan_endless hm hc]
  rfl

/-- **`rtsock_talk` returns from the first datagram that it receives, or never**, whatever else
arrives. -/
theorem rtsockTalk_returns_iff (hm : Messages d.buf 0 d.status ms) {errs : List Recv}
    (herrs : ∀ r ∈ errs, r = .eintr ∨ r = .overrun) (rs : List Recv) :
    (∃ k r, (rtsockTalk k t n true (errs ++ .datagram d :: rs)).2 = .ok r) ↔
      Carries { t with seq := t.seq + 1 } d 0 := by
  generalize ht : ({ t with seq := t.seq + 1 } : Talk) = t'
  have hskip : ∀ k n, talkLoop k t' n (errs ++ .datagram d :: rs) =
      talkLoop k t' n (.datagram d :: rs) := by
    intro k n
    induction errs with
    | nil => rfl
    | cons r errs ih =>
      rw [← ih fun r' hr' => herrs r' (List.mem_cons_of_mem _ hr')]
      rcases herrs r List.mem_cons_self with rfl | rfl <;> rfl
  unfold rtsockTalk
  dsimp only
  rw [ht]
  simp only [if_pos, hskip]
  constructor
  · rintro ⟨k, r, hk⟩
    by_contra hc
    rw [talkLoop, talkDgram_endless hm hc] at hk
    cases hk
  · intro hc
    refine ⟨1, ?_⟩
    rw [talkLoop, talkDgram_first hm hc, firstReply_first hm hc]
    simp only [bind, Except.bind]
    split_ifs <;> exact ⟨_, rfl⟩

/-- **`rtsock_talk` finds the reply in a datagram** exactly if it is the first message. -/
theorem talkDgram_iff (hm : Messages d.buf 0 d.status ms) :
    (∃ k, talkDgram k t n d = .ok (firstReply t n d ms)) ↔
      ∃ h, ms.head? = some h ∧ Carries t d h := by
  rw [hm.head.1]
  constructor
  · rintro ⟨k, hk⟩
    refine ⟨0, rfl, ?_⟩
    by_contra hc
    rw [talkDgram_endless hm hc] at hk
    cases hk
  · rintro ⟨h, hh, hc⟩
    obtain rfl := Option.some.inj hh
    exact ⟨1, talkDgram_first hm hc 0⟩

end

/-! ## A reply behind a stale message -/

def header (seq : BitVec 32) : List Byte :=
  [16, 0, 0, 0, 24, 0, 0, 0] ++ List.ofFn (bytes32 seq) ++ [9, 0, 0, 0]

/-- Two messages: one of the request 6, and the reply to the request 7. -/
def staleDgram : Datagram where
  buf i := (header 6 ++ header 7).getD i 0
  status := 32
  nlPid := 0
  trunc := false
  pos := by decide
  le := by decide

theorem staleDgram_messages : Messages staleDgram.buf 0 staleDgram.status [0, 16] :=
  .cons (by decide) (by decide) (by decide) (.cons (by decide) (by decide) (by decide) (.nil _))

theorem talkDgram_stale : (∃ k, talkDgram k ⟨9, 6⟩ (fun _ => 0) staleDgram =
    .ok (firstReply ⟨9, 6⟩ (fun _ => 0) staleDgram [0, 16])) ↔
      ∃ h, [0, 16].head? = some h ∧ Carries ⟨9, 6⟩ staleDgram h :=
  talkDgram_iff staleDgram_messages

/-- **The request 7 hangs**, and its reply is there. -/
theorem talkDgram_hangs : ([0, 16].find? fun h => Carries ⟨9, 7⟩ staleDgram h) = some 16 ∧
    ¬ ∃ k, talkDgram k ⟨9, 7⟩ (fun _ => 0) staleDgram =
      .ok (firstReply ⟨9, 7⟩ (fun _ => 0) staleDgram [0, 16]) := by
  refine ⟨by decide, ?_⟩
  rintro ⟨k, hk⟩
  rw [talkDgram_endless staleDgram_messages (by decide)] at hk
  cases hk

end Sasat
