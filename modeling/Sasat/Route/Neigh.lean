import Mathlib.Data.List.TakeWhile
import Sasat.Route.Attr

/-!
# `rt_body.c`: the MAC address of the next hop

The kernel is asked for the route, then for a dump of its neighbours. The dump arrives in datagrams
that may hold messages of other requests as well, and ends with a `DONE` message.

* `getRoute`, `getNeigh`, `dumpFilter`, `getTargetMac`: the functions of the source.
* `NlMsg`, `NlMsgs`, `Stream`: messages, and the datagrams that hold them.
* `Neigh.linkAddr`, `NlMsg.linkAddr`: the link-layer address that a message has for a request.
* **`getNeigh_spec`**, **`dumpScan_ends`**, `dumpFilter_mac`: one message, one datagram, the dump.
* **`getTargetMac_mac`**: the MAC address is that of the last message that has one.
-/

namespace Sasat

open LastMatch

/-! ## The source -/

/-- `AF_INET`. -/
def afInet : Byte := 2

/-- `AF_INET6`. -/
def afInet6 : Byte := 10

/-- `bytelen`: the length of the addresses of a family. -/
def bytelen (family : Byte) : Option ℕ :=
  if family = afInet then some 4 else if family = afInet6 then some 16 else none

/-- `memcpy` of `k` bytes to the zeroed `data` of an `inet_prefix`. -/
def prefixData (n : Buf) (off k : ℕ) : In6Addr := fun i => if i.val < k then n (off + i) else 0

/-- What `get_route` ends with. -/
inductive Route
  /-- `memcpy` writes behind `data`. -/
  | overrun
  | failed
  | found (dst via : In6Addr)

/-- `RTA_DST`. -/
def rtaDst : ℕ := 1

/-- `RTA_GATEWAY`. -/
def rtaGateway : ℕ := 5

/-- `NLMSG_LENGTH` of a `struct rtmsg` and of a `struct ndmsg`. -/
def msgLength : ℕ := 28

/-- `get_route`; `max` is `RTA_MAX`. -/
def getRoute (max : ℕ) (n : Buf) : M Route := do
  let len := (nlmsgLen n 0).toInt - msgLength
  if len < 0 then .ok .failed
  else
    let family := n 16
    let hostLen := if family = afInet6 then 128 else if family = afInet then 32 else 0
    let (tb, _) ← parseRtattr n max msgLength len
    let dstLen := ((n 17).toNat + 7) / 8
    let via := match tb rtaGateway with
      | some rta => prefixData n (rta + rtaLength 0) (hostLen / 8)
      | none => 0
    match tb rtaDst with
    | some rta =>
      if 16 < dstLen then .ok .overrun
      else .ok (.found (prefixData n (rta + rtaLength 0) dstLen) via)
    | none => .ok (.found 0 via)

/-- `struct filter`, the fields that are read. -/
structure Filter where
  family : Byte
  state : BitVec 16
  index : BitVec 32
  /-- `pfx.data`. -/
  data : In6Addr

/-- `NDA_DST`. -/
def ndaDst : ℕ := 1

/-- `NDA_LLADDR`. -/
def ndaLladdr : ℕ := 2

section Ndmsg

variable (n : Buf) (h : ℕ)

/-- The fields of the `struct ndmsg` behind a header. -/
def ndmFamily : Byte := n (h + 16)

def ndmIfindex : BitVec 32 := le32 (load n (h + 20) 4)

def ndmState : BitVec 16 := le16 (load n (h + 24) 2)

end Ndmsg

/-- `memcpy` of `k` bytes to the MAC address that the caller has given. -/
def macData (n : Buf) (off k : ℕ) (mac : Mac) : Mac :=
  fun i => if i.val < k then n (off + i) else mac i

/-- `get_neigh`, and the MAC address that it leaves; `max` is `NDA_MAX`. Without a result `memcmp`
reads behind `pfx.data`, or `memcpy` writes behind the MAC address. -/
def getNeigh (max : ℕ) (filter : Filter) (n : Buf) (h : ℕ) (mac : Mac) : M (Option (ℤ × Mac)) := do
  let len := (nlmsgLen n h).toInt - msgLength
  if len < 0 then .ok (some (-1, mac))
  else if filter.family ≠ ndmFamily n h then .ok (some (0, mac))
  else if filter.index ≠ 0 ∧ filter.index ≠ ndmIfindex n h then .ok (some (0, mac))
  else if filter.state &&& ndmState n h = 0 ∧
      (ndmState n h ≠ 0 ∨ filter.state &&& 0x100 = 0) then .ok (some (0, mac))
  else
    let (tb, _) ← parseRtattr n max (h + msgLength) len
    match tb ndaDst with
    | none => .ok (some (0, mac))
    | some dst =>
      let k := rtaPayload n dst
      if 16 < k then .ok none
      else if (List.ofFn filter.data).take k ≠ slice n (dst + rtaLength 0) k then
        .ok (some (0, mac))
      else match tb ndaLladdr with
        | none => .ok (some (0, mac))
        | some lladdr =>
          if 6 < rtaPayload n lladdr then .ok none
          else .ok (some (0, macData n (lladdr + rtaLength 0) (rtaPayload n lladdr) mac))

/-- `NLMSG_OK`. -/
def NlmsgOk (b : Buf) (h : ℕ) (status : ℤ) : Prop :=
  (nlmsghdrSize : ℤ) ≤ status ∧ nlmsghdrSize ≤ (nlmsgLen b h).toNat ∧
    ((nlmsgLen b h).toNat : ℤ) ≤ status

instance (b : Buf) (h : ℕ) (status : ℤ) : Decidable (NlmsgOk b h status) :=
  inferInstanceAs (Decidable (_ ∧ _ ∧ _))

/-- `NLMSG_DONE`. -/
def nlmsgDoneType : BitVec 16 := 3

/-- How `dump_filter` ends on a datagram. -/
inductive DumpScan
  | overrun
  | ret (ok : Bool) (mac : Mac)
  | left (status : ℤ) (mac : Mac)

/-- The inner loop of `dump_filter` with `get_neigh`, for at most so many turns. -/
def dumpScan (max : ℕ) (rth : Talk) (filter : Filter) (d : Datagram) :
    ℕ → ℕ → ℤ → Mac → M DumpScan
  | 0, _, _, _ => .error .endless
  | k + 1, h, status, mac =>
    if NlmsgOk d.buf h status then
      let size := nlmsgAlign (nlmsgLen d.buf h).toNat
      if ¬ Carries rth d h then dumpScan max rth filter d k (h + size) (status - size) mac
      else if nlmsgType d.buf h = nlmsgDoneType then .ok (.ret true mac)
      else if nlmsgType d.buf h = nlmsgErrorType then .ok (.ret false mac)
      else do
        match ← getNeigh max filter d.buf h mac with
        | none => .ok .overrun
        | some (err, mac) =>
          if err < 0 then .ok (.ret false mac)
          else dumpScan max rth filter d k (h + size) (status - size) mac
    else .ok (.left status mac)

/-- What `recvmsg` returns to `dump_filter`, which goes on after every error. -/
inductive DumpRecv
  | error
  | eof
  | datagram (d : Datagram)

/-- How `dump_filter` and `get_target_mac` end. -/
inductive DumpEnd
  | overrun
  /-- It waits: nothing more arrives. -/
  | waits
  | ret (out : MacOutcome)

/-- `dump_filter` with `get_neigh`; a loop over a datagram that is still running after `status`
turns is an endless one. -/
def dumpFilter (max : ℕ) (rth : Talk) (filter : Filter) : List DumpRecv → Mac → M DumpEnd
  | [], _ => .ok .waits
  | .error :: rs, mac => dumpFilter max rth filter rs mac
  | .eof :: _, mac => .ok (.ret ⟨false, mac⟩)
  | .datagram d :: rs, mac => do
    match ← dumpScan max rth filter d (d.status + 1) 0 d.status mac with
    | .overrun => .ok .overrun
    | .ret ok mac => .ok (.ret ⟨ok, mac⟩)
    | .left status mac =>
      if d.trunc then dumpFilter max rth filter rs mac
      else if status ≠ 0 then .ok (.ret ⟨false, mac⟩)
      else dumpFilter max rth filter rs mac

/-- What the system answers to one call of `get_target_mac`. -/
structure TargetEnv where
  /-- `rtsock_open`. -/
  opened : Option Talk
  talkSent : Bool
  /-- What `recvmsg` returns to `rtsock_talk`. -/
  replies : List Recv
  ifNametoindex : List Byte → BitVec 32
  dumpSent : Bool
  /-- What `recvmsg` returns to `dump_filter`. -/
  dump : List DumpRecv

/-- `sizeof(req)` of `get_target_mac`. -/
def reqSize : ℕ := 1052

/-- The request for a route, with `alen` bytes of the address. -/
def routeRequest (family : Byte) (taddr : In6Addr) (alen : ℕ) : Buf :=
  let req : Buf := store (fun _ => 0) 0 (bytes32 28)
  let req := store req 6 (bytes16 1)
  let req := store req 4 (bytes16 26)
  let req := store req 16 ![family]
  let req := (getattr req (BitVec.ofNat 32 reqSize) (BitVec.ofNat 16 rtaDst)
    ((List.ofFn taddr).take alen)).2
  store req 17 ![0xff]

/-- `get_target_mac`, and the address that it leaves in `nexthop`; `k` bounds the turns of
`rtsock_talk`, `rtaMax` and `ndaMax` are `RTA_MAX` and `NDA_MAX`. -/
def getTargetMac (k rtaMax ndaMax : ℕ) (env : TargetEnv) (family : Byte) (taddr : In6Addr)
    (ifname : Option (List Byte)) (naddr : In6Addr) (gw : ℤ) : M (DumpEnd × In6Addr) :=
  match env.opened, bytelen family with
  | none, _ => .ok (.ret ⟨false, 0⟩, naddr)
  | some _, none => .ok (.ret ⟨false, 0⟩, naddr)
  | some rth, some len => do
    let req := routeRequest family taddr (if gw = 1 then 0 else len)
    let (rth, talk) := rtsockTalk k rth req env.talkSent env.replies
    match ← talk with
    | none => .ok (.waits, naddr)
    | some (r, req) =>
      if r < 0 then .ok (.ret ⟨false, 0⟩, naddr)
      else match ← getRoute rtaMax req with
        | .overrun => .ok (.overrun, naddr)
        | .failed => .ok (.ret ⟨false, 0⟩, naddr)
        | .found dst via =>
          if via = 0 ∧ gw ≠ 0 then .ok (.ret ⟨false, 0⟩, naddr)
          else
            let via := if via = 0 then dst else via
            let naddr : In6Addr := fun i => if i.val < len then via i else naddr i
            let index := (ifname.map env.ifNametoindex).getD 0
            if ifname.isSome ∧ index = 0 then .ok (.ret ⟨false, 0⟩, naddr)
            else
              let filter : Filter := ⟨family, 0xbf, index, via⟩
              -- `wdump_request`
              let rth := { rth with seq := rth.seq + 1 }
              if env.dumpSent then do
                let out ← dumpFilter ndaMax rth filter env.dump 0
                .ok (out, naddr)
              else .ok (.ret ⟨false, 0⟩, naddr)

/-! ## Messages -/

/-- A header, with the `nl_pid` of the sender. -/
structure NlHead where
  src : BitVec 32
  type : BitVec 16
  seq : BitVec 32
  pid : BitVec 32

structure Neigh where
  family : Byte
  ifindex : BitVec 32
  state : BitVec 16
  attrs : List Attr

structure NlMsg where
  head : NlHead
  neigh : Option Neigh

/-- The message belongs to the request. -/
def NlMsg.Own (t : Talk) (m : NlMsg) : Prop :=
  m.head.src = 0 ∧ m.head.pid = t.nlPid ∧ m.head.seq = t.seq

instance (t : Talk) (m : NlMsg) : Decidable (m.Own t) := inferInstanceAs (Decidable (_ ∧ _ ∧ _))

/-- The message ends the dump. -/
def NlMsg.Done (t : Talk) (m : NlMsg) : Prop := m.Own t ∧ m.head.type = nlmsgDoneType

instance (t : Talk) (m : NlMsg) : Decidable (m.Done t) := inferInstanceAs (Decidable (_ ∧ _))

/-- The header at `h` of a datagram. -/
def headAt (d : Datagram) (h : ℕ) : NlHead :=
  ⟨d.nlPid, nlmsgType d.buf h, nlmsgSeq d.buf h, nlmsgPid d.buf h⟩

/-- The message at `h` is the neighbour `x`. -/
structure IsNeigh (b : Buf) (h : ℕ) (x : Neigh) : Prop where
  size : msgLength ≤ (nlmsgLen b h).toNat
  family : ndmFamily b h = x.family
  ifindex : ndmIfindex b h = x.ifindex
  state : ndmState b h = x.state
  attrs : Attrs b (h + msgLength) ((nlmsgLen b h).toNat - msgLength) x.attrs

/-- The `status` bytes at `h` are well-formed messages, up to the one that ends the dump. -/
inductive NlMsgs (t : Talk) (d : Datagram) : ℕ → ℕ → List NlMsg → Prop
  | nil (h : ℕ) : NlMsgs t d h 0 []
  | cons {h status : ℕ} {ms : List NlMsg} {x : Option Neigh} :
      nlmsghdrSize ≤ (nlmsgLen d.buf h).toNat → (nlmsgLen d.buf h).toNat ≤ status →
      (∀ n, x = some n → IsNeigh d.buf h n) →
      NlMsgs t d (h + nlmsgAlign (nlmsgLen d.buf h).toNat)
        (status - nlmsgAlign (nlmsgLen d.buf h).toNat) ms →
      NlMsgs t d h status (⟨headAt d h, x⟩ :: ms)
  | done {h status : ℕ} :
      nlmsghdrSize ≤ (nlmsgLen d.buf h).toNat → (nlmsgLen d.buf h).toNat ≤ status →
      NlMsg.Done t ⟨headAt d h, none⟩ → NlMsgs t d h status [⟨headAt d h, none⟩]

/-- The datagrams that are received hold these messages, up to the one that ends the dump. -/
inductive Stream (t : Talk) : List DumpRecv → List NlMsg → Prop
  | nil : Stream t [] []
  | error {rs : List DumpRecv} {ms : List NlMsg} : Stream t rs ms → Stream t (.error :: rs) ms
  | eof (rs : List DumpRecv) : Stream t (.eof :: rs) []
  | datagram {d : Datagram} {rs : List DumpRecv} {ms ms' : List NlMsg} :
      NlMsgs t d 0 d.status ms → Stream t rs ms' → Stream t (.datagram d :: rs) (ms ++ ms')
  | done {d : Datagram} {ms : List NlMsg} (rs : List DumpRecv) :
      NlMsgs t d 0 d.status ms → (∃ m ∈ ms, m.Done t) → Stream t (.datagram d :: rs) ms

/-- The messages of a dump before the one that ends it. -/
def beforeDone (t : Talk) (ms : List NlMsg) : List NlMsg := ms.takeWhile fun m => ¬ m.Done t

/-! ## What the dump is for -/

def Filter.hop (f : Filter) : List Byte := (List.ofFn f.data).take ((bytelen f.family).getD 0)

/-- The neighbour has the family, the interface and a state that are asked for. -/
def Neigh.Meets (f : Filter) (x : Neigh) : Prop :=
  x.family = f.family ∧ (f.index = 0 ∨ x.ifindex = f.index) ∧ x.state &&& f.state ≠ 0

instance (f : Filter) (x : Neigh) : Decidable (x.Meets f) :=
  inferInstanceAs (Decidable (_ ∧ _ ∧ _))

def Attr.mac (a : Attr) : Mac := fun i => a.data.getD i 0

/-- The link-layer address of the neighbour, if it is the one that is looked for. -/
def Neigh.linkAddr (f : Filter) (x : Neigh) : Option Mac :=
  if x.Meets f ∧ (lastAttr ndaDst x.attrs).map Attr.data = some f.hop then
    (lastAttr ndaLladdr x.attrs).map Attr.mac
  else none

/-- The link-layer address that a message of the request has for it. -/
def NlMsg.linkAddr (t : Talk) (f : Filter) (m : NlMsg) : Option Mac :=
  if m.Own t then m.neigh.bind (Neigh.linkAddr f) else none

/-- The addresses of a neighbour have the lengths that go with their kinds. -/
def Neigh.Sized (x : Neigh) : Prop :=
  (∀ a ∈ x.attrs, a.type.toNat = ndaDst → ∀ n, bytelen x.family = some n → a.data.length = n) ∧
    ∀ a ∈ x.attrs, a.type.toNat = ndaLladdr → a.data.length = 6

/-- A message of the request is a neighbour, or it reports an error. -/
def NlMsg.Wf (t : Talk) (m : NlMsg) : Prop :=
  m.Own t → m.head.type = nlmsgErrorType ∨ ∃ x, m.neigh = some x ∧ x.Sized

section

variable {max : ℕ} {f : Filter} {n : Buf} {h : ℕ} {x : Neigh} {mac : Mac}

/-! ## One message -/

theorem length_eq_of_lastAttr {t k : ℕ} {as : List Attr} {a : Attr} (h : lastAttr t as = some a)
    (has : ∀ a ∈ as, a.type.toNat = t → a.data.length = k) : a.data.length = k := by
  obtain ⟨hmem, htype⟩ := mem_of_lastMatch h
  exact has a hmem (beq_iff_eq.mp htype)

theorem meets_iff (hx : IsNeigh n h x) (hstate : f.state &&& 0x100 = 0) : x.Meets f ↔
    f.family = ndmFamily n h ∧ ¬ (f.index ≠ 0 ∧ f.index ≠ ndmIfindex n h) ∧
      ¬ (f.state &&& ndmState n h = 0 ∧ (ndmState n h ≠ 0 ∨ f.state &&& 0x100 = 0)) := by
  rw [Neigh.Meets, hx.family, hx.ifindex, hx.state, BitVec.and_comm f.state x.state]
  have h3 : ¬ (x.state &&& f.state = 0 ∧ (x.state ≠ 0 ∨ f.state &&& 0x100 = 0)) ↔
      x.state &&& f.state ≠ 0 :=
    ⟨fun hn hz => hn ⟨hz, Or.inr hstate⟩, fun hn hz => hn hz.1⟩
  rw [h3, not_and_or, not_not, not_not, eq_comm (a := x.family), eq_comm (a := x.ifindex)]

theorem getNeigh_meets (hmax : ndaLladdr ≤ max) (hs : x.Sized) {k : ℕ}
    (hk : bytelen f.family = some k) (hm : x.Meets f) {tb : RtaTable}
    (htb : ∀ t ≤ max, (tb t).map (rtattr n) = lastAttr t x.attrs) :
    (match tb ndaDst with
      | none => (.ok (some (0, mac)) : M (Option (ℤ × Mac)))
      | some dst =>
        if 16 < rtaPayload n dst then .ok none
        else if (List.ofFn f.data).take (rtaPayload n dst) ≠
            slice n (dst + rtaLength 0) (rtaPayload n dst) then .ok (some (0, mac))
        else match tb ndaLladdr with
          | none => .ok (some (0, mac))
          | some lladdr =>
            if 6 < rtaPayload n lladdr then .ok none
            else .ok (some (0, macData n (lladdr + rtaLength 0) (rtaPayload n lladdr) mac))) =
      .ok (some (0, (x.linkAddr f).getD mac)) := by
  have hdst := htb ndaDst (le_trans (by decide) hmax)
  have hll := htb ndaLladdr hmax
  have hk16 : k ≤ 16 := by
    unfold bytelen at hk
    split_ifs at hk <;> cases hk <;> decide
  cases hd : tb ndaDst with
  | none =>
    rw [hd] at hdst
    rw [Neigh.linkAddr, ← hdst, if_neg (by simp)]
    rfl
  | some dst =>
    rw [hd] at hdst
    have hlen : rtaPayload n dst = k := by
      have := length_eq_of_lastAttr hdst.symm fun a ha ht => hs.1 a ha ht k (hm.1 ▸ hk)
      rwa [rtattr, length_slice] at this
    have hhop : f.hop = (List.ofFn f.data).take k := by
      rw [Filter.hop, hk]
      rfl
    have hdata : (lastAttr ndaDst x.attrs).map Attr.data = some f.hop ↔
        (List.ofFn f.data).take k = slice n (dst + rtaLength 0) k := by
      rw [← hdst, hhop, ← hlen, Option.map_some, Option.map_some, Option.some.injEq, eq_comm]
      rfl
    dsimp only
    rw [hlen, if_neg (not_lt.mpr hk16)]
    by_cases heq : (List.ofFn f.data).take k = slice n (dst + rtaLength 0) k
    · rw [if_neg (not_not.mpr heq), Neigh.linkAddr, if_pos ⟨hm, hdata.mpr heq⟩, ← hll]
      cases hl : tb ndaLladdr with
      | none => rfl
      | some ll =>
        rw [hl] at hll
        have hlen6 : rtaPayload n ll = 6 := by
          have := length_eq_of_lastAttr hll.symm hs.2
          rwa [rtattr, length_slice] at this
        dsimp only
        rw [hlen6, if_neg (lt_irrefl 6)]
        congr 3
        funext i
        change (if i.val < 6 then n (ll + rtaLength 0 + i) else mac i) =
          (slice n (ll + rtaLength 0) (rtaPayload n ll)).getD i 0
        rw [if_pos i.isLt, hlen6, List.getD_eq_getElem?_getD, slice, getElem?_frame i.isLt]
        rfl
    · rw [if_pos heq, Neigh.linkAddr, if_neg fun hc => heq (hdata.mp hc.2)]
      rfl

/-- **`get_neigh` on one neighbour.** -/
theorem getNeigh_spec (hmax : ndaLladdr ≤ max) (hlt : (nlmsgLen n h).toNat < 2 ^ 31)
    (hx : IsNeigh n h x) (hs : x.Sized) {k : ℕ} (hk : bytelen f.family = some k)
    (hstate : f.state &&& 0x100 = 0) :
    getNeigh max f n h mac = .ok (some (0, (x.linkAddr f).getD mac)) := by
  have hsize := hx.size
  have hlen : (nlmsgLen n h).toInt - msgLength = ((nlmsgLen n h).toNat - msgLength : ℕ) := by
    rw [BitVec.toInt_eq_toNat_of_lt (by omega)]
    omega
  obtain ⟨tb, z, hparse, -, htb⟩ := parseRtattr_attrs max hx.attrs (Int.toNat_natCast _)
  unfold getNeigh
  dsimp only
  rw [hlen, if_neg (not_lt.mpr (Int.natCast_nonneg _)), hparse]
  by_cases hm : x.Meets f
  · obtain ⟨h1, h2, h3⟩ := (meets_iff hx hstate).mp hm
    rw [if_neg (not_not.mpr h1), if_neg h2, if_neg h3]
    exact getNeigh_meets hmax hs hk hm htb
  · have hnone : x.linkAddr f = none := if_neg fun hc => hm hc.1
    rw [hnone]
    split_ifs with h1 h2 h3
    · rfl
    · rfl
    · rfl
    · exact absurd ((meets_iff hx hstate).mpr ⟨not_not.mp h1, h2, h3⟩) hm

/-! ## The dump -/

variable {t : Talk} {d : Datagram} {ms ms' : List NlMsg} {len : ℕ}

/-- How the scan of a datagram with the messages `ms` may end. -/
def ScanEnds (t : Talk) (f : Filter) (ms : List NlMsg) (mac : Mac) : DumpScan → Prop
  | .overrun => False
  | .ret true mac' => (∃ m ∈ ms, m.Done t) ∧
      mac' = lastSome (NlMsg.linkAddr t f) mac (beforeDone t ms)
  | .ret false _ => True
  | .left _ mac' => (∀ m ∈ ms, ¬ m.Done t) ∧ mac' = lastSome (NlMsg.linkAddr t f) mac ms

theorem beforeDone_of_forall_not (h : ∀ m ∈ ms, ¬ m.Done t) : beforeDone t ms = ms :=
  List.takeWhile_eq_self_iff.mpr fun m hm => decide_eq_true (h m hm)

theorem beforeDone_done {m : NlMsg} (h : m.Done t) : beforeDone t (m :: ms) = [] :=
  List.takeWhile_cons_of_neg (by simpa using h)

theorem beforeDone_cons {m : NlMsg} (h : ¬ m.Done t) :
    beforeDone t (m :: ms) = m :: beforeDone t ms :=
  List.takeWhile_cons_of_pos (decide_eq_true h)

theorem ScanEnds.cons {m : NlMsg} (hm : ¬ m.Done t) {r : DumpScan}
    (h : ScanEnds t f ms ((m.linkAddr t f).getD mac) r) : ScanEnds t f (m :: ms) mac r := by
  cases r with
  | overrun => exact h
  | ret ok mac' =>
    cases ok with
    | false => exact True.intro
    | true =>
      obtain ⟨⟨m', hm', hd⟩, hmac⟩ := h
      refine ⟨⟨m', List.mem_cons_of_mem _ hm', hd⟩, ?_⟩
      rw [beforeDone_cons hm, lastSome_cons]
      exact hmac
  | left z mac' =>
    refine ⟨List.forall_mem_cons.mpr ⟨hm, h.1⟩, ?_⟩
    rw [lastSome_cons]
    exact h.2

/-- **The scan of a datagram**, on the messages that it holds. -/
theorem dumpScan_ends (mac : Mac) (hmax : ndaLladdr ≤ max) {a : ℕ} (ha : bytelen f.family = some a)
    (hstate : f.state &&& 0x100 = 0) (hms : NlMsgs t d h len ms) (hlen : len ≤ d.status)
    (hw : ∀ m ∈ beforeDone t ms, m.Wf t) {z : ℤ} (hz : z.toNat = len) {k : ℕ} (hk : len < k) :
    ∃ r, dumpScan max t f d k h z mac = .ok r ∧ ScanEnds t f ms mac r := by
  have hsize : nlmsghdrSize = 16 := rfl
  induction hms generalizing z k mac with
  | nil h =>
    cases k with
    | zero => omega
    | succ k =>
      have hno : ¬ NlmsgOk d.buf h z := fun hok => by
        have := hok.1
        omega
      exact ⟨_, if_neg hno, fun m hm => absurd hm List.not_mem_nil, rfl⟩
  | @cons h len ms x hmin hfit hx _ ih =>
    cases k with
    | zero => omega
    | succ k =>
      have hok : NlmsgOk d.buf h z := ⟨by omega, hmin, by omega⟩
      have hle : (nlmsgLen d.buf h).toNat ≤ nlmsgAlign (nlmsgLen d.buf h).toNat := by
        unfold nlmsgAlign
        omega
      -- the rest of the datagram, once the message has been dealt with
      have hrest (hd : ¬ NlMsg.Done t ⟨headAt d h, x⟩) (mac : Mac) :=
        ih mac (by omega) (fun m hm => hw m (by
          rw [beforeDone_cons hd]
          exact List.mem_cons_of_mem _ hm))
          (z := z - nlmsgAlign (nlmsgLen d.buf h).toNat) (by omega) (k := k) (by omega)
      rw [dumpScan, if_pos hok]
      dsimp only
      by_cases hc : Carries t d h
      · rw [if_neg (not_not.mpr hc)]
        by_cases ht : nlmsgType d.buf h = nlmsgDoneType
        · rw [if_pos ht]
          have hd : NlMsg.Done t ⟨headAt d h, x⟩ := ⟨hc, ht⟩
          refine ⟨_, rfl, ⟨_, List.mem_cons_self, hd⟩, ?_⟩
          rw [beforeDone_done hd, lastSome_nil]
        · have hd : ¬ NlMsg.Done t ⟨headAt d h, x⟩ := fun hd => ht hd.2
          rw [if_neg ht]
          by_cases he : nlmsgType d.buf h = nlmsgErrorType
          · rw [if_pos he]
            exact ⟨_, rfl, True.intro⟩
          · have hmem : ⟨headAt d h, x⟩ ∈ beforeDone t (⟨headAt d h, x⟩ :: ms) := by
              rw [beforeDone_cons hd]
              exact List.mem_cons_self
            obtain ⟨y, rfl, hs⟩ := (hw _ hmem hc).resolve_left he
            have hlink : NlMsg.linkAddr t f ⟨headAt d h, some y⟩ = y.linkAddr f := if_pos hc
            have hle' := d.le
            obtain ⟨r, hr, hends⟩ := hrest hd ((y.linkAddr f).getD mac)
            rw [if_neg he, getNeigh_spec hmax (by omega) (hx y rfl) hs ha hstate]
            exact ⟨r, hr, .cons hd (hlink ▸ hends)⟩
      · have hd : ¬ NlMsg.Done t ⟨headAt d h, x⟩ := fun hd => hc hd.1
        have hlink : NlMsg.linkAddr t f ⟨headAt d h, x⟩ = none := if_neg hc
        obtain ⟨r, hr, hends⟩ := hrest hd mac
        rw [if_pos hc]
        exact ⟨r, hr, .cons hd (by rwa [hlink])⟩
  | @done h len hmin hfit hd =>
    cases k with
    | zero => omega
    | succ k =>
      have hok : NlmsgOk d.buf h z := ⟨by omega, hmin, by omega⟩
      have hc : Carries t d h := hd.1
      have ht : nlmsgType d.buf h = nlmsgDoneType := hd.2
      refine ⟨.ret true mac, ?_, ⟨_, List.mem_singleton_self _, hd⟩, ?_⟩
      · rw [dumpScan, if_pos hok]
        dsimp only
        rw [if_neg (not_not.mpr hc), if_pos ht]
      · rw [beforeDone_done hd, lastSome_nil]

theorem beforeDone_append (h : ∀ m ∈ ms, ¬ m.Done t) (ms' : List NlMsg) :
    beforeDone t (ms ++ ms') = ms ++ beforeDone t ms' :=
  List.takeWhile_append_of_pos fun m hm => decide_eq_true (h m hm)

theorem beforeDone_append_done (h : ∃ m ∈ ms, m.Done t) (ms' : List NlMsg) :
    beforeDone t (ms ++ ms') = beforeDone t ms := by
  induction ms with
  | nil =>
    obtain ⟨m, hm, -⟩ := h
    exact absurd hm List.not_mem_nil
  | cons m ms ih =>
    by_cases hd : m.Done t
    · rw [List.cons_append, beforeDone_done hd, beforeDone_done hd]
    · obtain ⟨m', hm', hd'⟩ := h
      rcases List.mem_cons.mp hm' with rfl | hm'
      · exact absurd hd' hd
      · rw [List.cons_append, beforeDone_cons hd, beforeDone_cons hd, ih ⟨m', hm', hd'⟩]

theorem dumpFilter_datagram {rs : List DumpRecv} {r : DumpScan} {mac' : Mac}
    (hr : dumpScan max t f d (d.status + 1) 0 d.status mac = .ok r)
    (h : dumpFilter max t f (.datagram d :: rs) mac = .ok (.ret ⟨true, mac'⟩)) :
    r = .ret true mac' ∨
      ∃ z mac1, r = .left z mac1 ∧ dumpFilter max t f rs mac1 = .ok (.ret ⟨true, mac'⟩) := by
  rw [dumpFilter, hr] at h
  cases r with
  | overrun => cases h
  | ret ok mac1 =>
    cases h
    exact Or.inl rfl
  | left z mac1 =>
    refine Or.inr ⟨z, mac1, rfl, ?_⟩
    change (if d.trunc then dumpFilter max t f rs mac1
      else if z ≠ 0 then .ok (.ret ⟨false, mac1⟩) else dumpFilter max t f rs mac1) = _ at h
    split_ifs at h
    · exact h
    · cases h
    · exact h

/-- **The dump**: what it leaves when it succeeds. -/
theorem dumpFilter_mac (hmax : ndaLladdr ≤ max) {a : ℕ} (ha : bytelen f.family = some a)
    (hstate : f.state &&& 0x100 = 0) {rs : List DumpRecv} (hs : Stream t rs ms)
    (hw : ∀ m ∈ beforeDone t ms, m.Wf t) {mac' : Mac}
    (h : dumpFilter max t f rs mac = .ok (.ret ⟨true, mac'⟩)) :
    mac' = lastSome (NlMsg.linkAddr t f) mac (beforeDone t ms) := by
  induction hs generalizing mac with
  | nil => cases h
  | error _ ih => exact ih hw h
  | eof rs => cases h
  | @datagram d rs ms ms' hms _ ih =>
    by_cases hd : ∃ m ∈ ms, m.Done t
    · rw [beforeDone_append_done hd] at hw ⊢
      obtain ⟨r, hr, hends⟩ := dumpScan_ends mac hmax ha hstate hms le_rfl hw
        (Int.toNat_natCast _) (Nat.lt_succ_self _)
      rcases dumpFilter_datagram hr h with rfl | ⟨z, mac1, rfl, -⟩
      · exact hends.2
      · obtain ⟨m, hm, hmd⟩ := hd
        exact absurd hmd (hends.1 m hm)
    · have hnot : ∀ m ∈ ms, ¬ m.Done t := fun m hm hmd => hd ⟨m, hm, hmd⟩
      rw [beforeDone_append hnot] at hw ⊢
      obtain ⟨r, hr, hends⟩ := dumpScan_ends mac hmax ha hstate hms le_rfl
        (fun m hm => hw m (by
          rw [beforeDone_of_forall_not hnot] at hm
          exact List.mem_append_left _ hm)) (Int.toNat_natCast _) (Nat.lt_succ_self _)
      rcases dumpFilter_datagram hr h with rfl | ⟨z, mac1, rfl, hrest⟩
      · exact absurd hends.1 hd
      · rw [lastSome_append, ← hends.2]
        exact ih (fun m hm => hw m (List.mem_append_right _ hm)) hrest
  | @done d ms rs hms hd =>
    obtain ⟨r, hr, hends⟩ := dumpScan_ends mac hmax ha hstate hms le_rfl hw
      (Int.toNat_natCast _) (Nat.lt_succ_self _)
    rcases dumpFilter_datagram hr h with rfl | ⟨z, mac1, rfl, -⟩
    · exact hends.2
    · obtain ⟨m, hm, hmd⟩ := hd
      exact absurd hmd (hends.1 m hm)

theorem linkAddr_congr {f f' : Filter} (h1 : f.family = f'.family) (h2 : f.state = f'.state)
    (h3 : f.index = f'.index) (h4 : f.hop = f'.hop) : NlMsg.linkAddr t f = NlMsg.linkAddr t f' := by
  have hm : ∀ x : Neigh, x.Meets f ↔ x.Meets f' := fun x => by
    rw [Neigh.Meets, Neigh.Meets, h1, h2, h3]
  have hn : Neigh.linkAddr f = Neigh.linkAddr f' := by
    funext x
    exact if_congr (and_congr (hm x) (by rw [h4])) rfl rfl
  funext m
  rw [NlMsg.linkAddr, NlMsg.linkAddr, hn]

theorem hop_congr {family : Byte} {a : ℕ} (ha : bytelen family = some a) (state : BitVec 16)
    (index : BitVec 32) (via naddr : In6Addr) :
    Filter.hop ⟨family, state, index, fun i => if i.val < a then via i else naddr i⟩ =
      Filter.hop ⟨family, state, index, via⟩ := by
  unfold Filter.hop
  dsimp only
  rw [ha, Option.getD_some]
  apply List.ext_getElem (by simp)
  intro i h1 h2
  rw [List.length_take] at h1
  simp only [List.getElem_take, List.getElem_ofFn]
  rw [if_pos (by omega)]

theorem of_ite_eq {α : Type} {c : Prop} [Decidable c] {x y z : α}
    (h : (if c then x else y) = z) (hx : x ≠ z) : y = z := by
  split_ifs at h
  · exact absurd h hx
  · exact h

/-- **The MAC address of the next hop** is the link-layer address of the last message of the dump
that has one for it, zero without such a message. -/
theorem getTargetMac_mac {k rtaMax ndaMax : ℕ} {env : TargetEnv} {family : Byte} {taddr : In6Addr}
    {ifname : Option (List Byte)} {naddr naddr' : In6Addr} {gw : ℤ} {rth : Talk} {mac : Mac}
    (hmax : ndaLladdr ≤ ndaMax) (hopen : env.opened = some rth)
    (hs : Stream ⟨rth.nlPid, rth.seq + 1 + 1⟩ env.dump ms)
    (hw : ∀ m ∈ beforeDone ⟨rth.nlPid, rth.seq + 1 + 1⟩ ms, m.Wf ⟨rth.nlPid, rth.seq + 1 + 1⟩)
    (h : getTargetMac k rtaMax ndaMax env family taddr ifname naddr gw =
      .ok (.ret ⟨true, mac⟩, naddr')) :
    mac = (((beforeDone ⟨rth.nlPid, rth.seq + 1 + 1⟩ ms).filterMap
      (NlMsg.linkAddr ⟨rth.nlPid, rth.seq + 1 + 1⟩
        ⟨family, 0xbf, (ifname.map env.ifNametoindex).getD 0, naddr'⟩)).getLast?).getD 0 := by
  rw [getTargetMac, hopen] at h
  cases ha : bytelen family with
  | none =>
    rw [ha] at h
    cases h
  | some a =>
    rw [ha] at h
    unfold rtsockTalk at h
    dsimp only at h
    obtain ⟨out, -, h⟩ := bind_eq_ok.mp h
    cases out with
    | none => cases h
    | some out =>
      cases out with
      | mk r req =>
      replace h := of_ite_eq h (by rintro ⟨⟩)
      obtain ⟨route, -, h⟩ := bind_eq_ok.mp h
      cases route with
      | overrun => cases h
      | failed => cases h
      | found dst via =>
        replace h := of_ite_eq h (by rintro ⟨⟩)
        replace h := of_ite_eq h (by rintro ⟨⟩)
        by_cases hsent : env.dumpSent
        · rw [if_pos hsent] at h
          obtain ⟨e, he, h⟩ := bind_eq_ok.mp h
          cases h
          have hhop := hop_congr ha 0xbf ((ifname.map env.ifNametoindex).getD 0)
            (if via = 0 then dst else via) naddr
          rw [linkAddr_congr (by rfl) (by rfl) (by rfl) hhop]
          exact dumpFilter_mac hmax ha (show (0xbf : BitVec 16) &&& 0x100 = 0 by decide) hs hw he
        · rw [if_neg hsent] at h
          cases h

end

/-! ## A dump between other messages -/

def dumpHeader (len type : Byte) (seq : Byte) : List Byte :=
  [len, 0, 0, 0, type, 0, 0, 0, seq, 0, 0, 0, 9, 0, 0, 0]

def dgramOf (l : List Byte) (h0 : 0 < l.length) (h : l.length < 256) : Datagram where
  buf i := l.getD i 0
  status := l.length
  nlPid := 0
  trunc := false
  pos := h0
  le := by omega

/-- The route to 10.0.0.9, the reply to the request 7. -/
def routeReply : Datagram :=
  dgramOf (dumpHeader 36 24 7 ++ [2, 32, 0, 0, 0, 0, 0, 0, 0, 0, 0, 0] ++ [8, 0, 1, 0, 10, 0, 0, 9])
    (by decide) (by decide)

/-- A message of the request 6, the neighbour 10.0.0.9 and the end of the dump 8. -/
def dumpReply : Datagram :=
  dgramOf (dumpHeader 16 28 6 ++ (dumpHeader 48 28 8 ++ [2, 0, 0, 0, 3, 0, 0, 0, 2, 0, 0, 0] ++
    [8, 0, 1, 0, 10, 0, 0, 9] ++ [10, 0, 2, 0, 2, 0, 0, 0, 0, 9, 0, 0]) ++ dumpHeader 16 3 8)
    (by decide) (by decide)

def replyEnv : TargetEnv where
  opened := some ⟨9, 6⟩
  talkSent := true
  replies := [.datagram routeReply]
  ifNametoindex _ := 3
  dumpSent := true
  dump := [.error, .datagram dumpReply]

/-- The neighbour of the dump. -/
def replyNeigh : Neigh := ⟨2, 3, 2, [⟨1, [10, 0, 0, 9]⟩, ⟨2, [2, 0, 0, 0, 0, 9]⟩]⟩

theorem replyNeigh_isNeigh : IsNeigh dumpReply.buf 16 replyNeigh where
  size := by decide
  family := by decide
  ifindex := by decide
  state := by decide
  attrs := .cons (by decide) (by decide) (.cons (by decide) (by decide) (.nil _))

def replyMsgs : List NlMsg :=
  [⟨headAt dumpReply 0, none⟩, ⟨headAt dumpReply 16, some replyNeigh⟩, ⟨headAt dumpReply 64, none⟩]

theorem replyEnv_stream : Stream ⟨9, 8⟩ replyEnv.dump replyMsgs := by
  refine .error (.done [] (.cons (by decide) (by decide) ?_ (.cons (by decide) (by decide) ?_
    (.done (by decide) (by decide) (by decide)))) ⟨_, List.mem_of_getLast? rfl, by decide⟩)
  · rintro n ⟨⟩
  · rintro n ⟨⟩
    exact replyNeigh_isNeigh

theorem replyMsgs_wf : ∀ m ∈ beforeDone ⟨9, 8⟩ replyMsgs, m.Wf ⟨9, 8⟩ := by
  intro m hm
  rw [replyMsgs, beforeDone_cons (by decide), beforeDone_cons (by decide),
    beforeDone_done (by decide)] at hm
  simp only [List.mem_cons, List.not_mem_nil, or_false] at hm
  rcases hm with rfl | rfl
  · intro hown
    exact absurd hown (by decide)
  · refine fun _ => Or.inr ⟨replyNeigh, rfl, ?_, ?_⟩
    · simp [replyNeigh, ndaDst, bytelen, afInet]
    · simp [replyNeigh, ndaLladdr]

theorem getTargetMac_mac_reply : ∃ mac naddr,
    getTargetMac 1 5 2 replyEnv 2 0 (some []) 0 0 = .ok (.ret ⟨true, mac⟩, naddr) ∧
      mac = (((beforeDone ⟨9, 8⟩ replyMsgs).filterMap
        (NlMsg.linkAddr ⟨9, 8⟩ ⟨2, 0xbf, 3, naddr⟩)).getLast?).getD 0 := by
  refine ⟨_, _, rfl, ?_⟩
  exact @getTargetMac_mac _ 1 5 2 replyEnv 2 0 (some []) 0 _ 0 ⟨9, 6⟩ _ le_rfl rfl replyEnv_stream
    replyMsgs_wf rfl

end Sasat
