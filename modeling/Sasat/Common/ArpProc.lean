import Sasat.Common.Checksum
import Sasat.Lib.Outcome

/-!
# `arp_proc.c`

ARP requests and neighbour solicitations for the virtual addresses. Both translators compile this
file; they differ in the counters, `ArpStats`. Of a received frame the first `lim` bytes of the
buffer may be read by the functions that look into a solicitation.

* `hDest`, `ipSrc`, `ip6Nxt`, ...: the header fields of a frame, at their offsets.
* `arpReply`, `arpAnswer`: the ARP reply, written over the request.
* `getIcmp6Ns`, `checkValidNs`, `checkOptions`: the checks of a solicitation.
* `naFrame`, `sendIcmp6Na`: the advertisement.
* `macResolve`, `macResolveUc6`: the two entries; `macResolve_post`, `macResolveUc6_post`: what they
  can do.
* `Wrote`: at most one frame has been written; **`macResolve_wrote`**: by whom.
-/

namespace Sasat

open Outcome

def ethPIp : BitVec 16 := 0x0800

def ethPArp : BitVec 16 := 0x0806

def ethPIpv6 : BitVec 16 := 0x86dd

/-- `NS_BASE_SIZE`. -/
def nsBaseSize : ℕ := 78

section Fields

variable (b : Buf)

def hDest : Mac := load b 0 6

def hSource : Mac := load b 6 6

/-- `ntohs(eth->h_proto)`. -/
def hProto : BitVec 16 := ntohs (le16 (load b 12 2))

/-- `ip_sum`, as it is loaded. -/
def ipSumField : BitVec 16 := le16 (load b 24 2)

def ipSrc : InAddr := load b 26 4

def ipDst : InAddr := load b 30 4

def ip6Nxt : Byte := b 20

def ip6Src : In6Addr := load b 22 16

def ip6Dst : In6Addr := load b 38 16

def arpTpa : InAddr := load b 38 4

/-- `nd_ns_target`. -/
def nsTarget : In6Addr := load b 62 16

end Fields

/-- `arphdr_tmpl`. -/
def arphdrTmpl : Fin 8 → Byte := ![0, 1, 8, 0, 6, 4, 0, 1]

/-- The counters of `arp_proc.c`: only the front translator counts ARP replies there. -/
structure ArpStats (S : Type) where
  rxDrop : S
  txNa : S
  txArpReply : Option S

section

variable {S : Type} [DecidableEq S] (st : ArpStats S)

/-! ## ARP -/

/-- The stores that turn a request into a reply, in `arp_reply` and in `arp_proxy_body`. -/
def arpAnswer (mac : Mac) (b : Buf) : Buf :=
  let ip := load b 38 4
  let b := store b 0 (load b 22 6)
  let b := store b 6 mac
  let b := store b 20 ![0, 2]
  let b := store b 32 (load b 22 6)
  let b := store b 38 (load b 28 4)
  let b := store b 22 mac
  store b 28 ip

/-- `arp_reply`: what it returns, the buffer, and the frames and counters. -/
def arpReply (ifd : Ifdata) (b : Buf) (io : Io S) : Bool × Buf × Io S :=
  if load b 14 8 ≠ arphdrTmpl then (false, b, io)
  else if arpTpa b ≠ ifd.vip4 then (false, b, io)
  else
    let b := arpAnswer ifd.mac b
    let io := io.write .arpReply ifd.sockfd (frame b 42)
    (true, b, match st.txArpReply with
      | some m => io.stat m
      | none => io)

/-! ## Neighbour solicitations -/

/-- `get_icmp6_ns`. The payload length is compared as it is loaded. -/
def getIcmp6Ns (lim : ℕ) (b : Buf) (len : ℕ) : M Bool := do
  let plen ← fld lim b 18 2
  if (le16 plen).toNat < 24 ∨ len < nsBaseSize then .ok false
  else do
    let type ← fld lim b 54 1
    .ok (type 0 == 135)

/-- The test before every use of a solicitation: next header ICMPv6 and `get_icmp6_ns`. -/
def isIcmp6Ns (lim : ℕ) (b : Buf) (len : ℕ) : M Bool :=
  if ip6Nxt b = 58 then getIcmp6Ns lim b len else .ok false

/-- The option loop of `check_valid_ns`, at `opt` with `optlen` bytes left. -/
def checkOptions (lim : ℕ) (b : Buf) (opt optlen : ℕ) : M Bool :=
  if optlen = 0 then .ok true
  else if optlen < 8 then .ok false
  else do
    let n ← fld lim b (opt + 1) 1
    if h : (n 0).toNat = 0 then .ok false
    else if optlen < 8 * (n 0).toNat then .ok false
    else checkOptions lim b (opt + 8 * (n 0).toNat) (optlen - 8 * (n 0).toNat)
termination_by optlen

/-- `check_valid_ns`. In proxy mode, which only the backend has, any target will do. -/
def checkValidNs (lim : ℕ) (b : Buf) (ipaddr : In6Addr) (proxyMode : Bool) (optlen : ℕ) :
    M Bool := do
  let src ← fld lim b 22 16
  if src = 0 then .ok false
  else do
    let hlim ← fld lim b 21 1
    if hlim 0 ≠ 255 then .ok false
    else do
      let code ← fld lim b 55 1
      if code 0 ≠ 0 then .ok false
      else do
        let dst ← fld lim b 38 16
        let plen ← fld lim b 18 2
        let sum ← icmpv6Sum lim b 54 (ntohs (le16 plen)).toNat (pseudoSumV6 src dst plen)
        if sum ≠ 0xffff then .ok false
        else do
          let target ← fld lim b 62 16
          if target 0 = 0xff ∨ (proxyMode = false ∧ target ≠ ipaddr) then .ok false
          else checkOptions lim b nsBaseSize optlen

/-! ## Neighbour advertisements -/

/-- The payload length of an advertisement. -/
def naPlen (mcast : Bool) : ℕ := if mcast then 32 else 24

/-- `buff` of `send_icmp6_na` and of `send_na_body` before its checksum is filled in. -/
def naBuff (hdest mac : Mac) (src dst : In6Addr) (mcast : Bool) : Buf :=
  let b : Buf := fun _ => 0
  let b := store b 0 hdest
  let b := store b 6 mac
  let b := store b 12 ![0x86, 0xdd]
  let b := store b 14 ![0x60]
  let b := store b 18 (bytes16 (ntohs (BitVec.ofNat 16 (naPlen mcast))))
  let b := store b 20 ![58]
  let b := store b 21 ![255]
  let b := store b 22 src
  let b := store b 38 dst
  let b := store b 54 ![136]
  let b := store b 58 ![0x40]
  let b := store b 62 src
  if mcast then
    let b := store b 58 ![0x40 ||| 0x20]
    let b := store b 78 ![2]
    let b := store b 79 ![1]
    store b 80 mac
  else b

/-- The frame that `send_icmp6_na` and `send_na_body` write. -/
def naFrame (hdest mac : Mac) (src dst : In6Addr) (mcast : Bool) : M (List Byte) := do
  let b := naBuff hdest mac src dst mcast
  let sum ← icmpv6Sum (nsBaseSize + 8) b 54 (naPlen mcast) (pseudoSumV6 src dst (load b 18 2))
  .ok (frame (store b 56 (bytes16 (~~~ sum))) (naPlen mcast + 54))

/-- `send_icmp6_na`. -/
def sendIcmp6Na (ifd : Ifdata) (b : Buf) (mcast : Bool) (io : Io S) : M (Io S) := do
  let bytes ← naFrame (hSource b) ifd.mac ifd.vip6 (ip6Src b) mcast
  .ok ((io.write .sendIcmp6Na ifd.sockfd bytes).stat st.txNa)

/-! ## The two entries -/

/-- `mac_resolve`. -/
def macResolve (lim : ℕ) (ifd : Ifdata) (prot : BitVec 16) (len : ℕ) (b : Buf) (io : Io S) :
    M (Buf × Io S) :=
  if isBroadcast (hDest b) then
    if prot = ethPArp ∧ ifd.v4Enable then .ok (arpReply st ifd b io).2
    else .ok (b, io.stat st.rxDrop)
  else if prot = ethPIpv6 ∧ ifd.v6Enable ∧ ifd.fmmac = hDest b then do
    let ns ← isIcmp6Ns lim b len
    let valid ← (if ns then checkValidNs lim b ifd.vip6 false (len - nsBaseSize) else .ok false)
    if valid then do
      let io ← sendIcmp6Na st ifd b true io
      .ok (b, io)
    else .ok (b, io.stat st.rxDrop)
  else .ok (b, io.stat st.rxDrop)

/-- `mac_resolve_uc6`. -/
def macResolveUc6 (lim : ℕ) (ifd : Ifdata) (len : ℕ) (b : Buf) (io : Io S) : M (Io S) :=
  if ifd.v6Enable = false ∨ ip6Dst b ≠ ifd.vip6 then .ok (io.stat st.rxDrop)
  else do
    let valid ← checkValidNs lim b ifd.vip6 false (len - nsBaseSize)
    if valid then sendIcmp6Na st ifd b false io else .ok (io.stat st.rxDrop)

section

variable {st} {lim len : ℕ} {ifd : Ifdata} {prot : BitVec 16} {b : Buf} {io : Io S}

theorem macResolve_post {P : Buf × Io S → Prop}
    (arp : isBroadcast (hDest b) = true → prot = ethPArp → ifd.v4Enable = true →
      P (arpReply st ifd b io).2)
    (na : Post (fun io' => P (b, io')) (fun _ => True) (sendIcmp6Na st ifd b true io))
    (drop : P (b, io.stat st.rxDrop)) :
    Post P (fun _ => True) (macResolve st lim ifd prot len b io) := by
  refine .ite (fun hbc => ?_) fun _ => .ite (fun _ => ?_) fun _ => drop
  · exact .ite (fun hp => arp hbc hp.1 hp.2) fun _ => drop
  · refine .bind .trivial fun ns _ => .bind .trivial fun valid _ => ?_
    exact .ite (fun _ => .bind na fun _ h => h) fun _ => drop

theorem macResolveUc6_post {P : Io S → Prop}
    (na : Post P (fun _ => True) (sendIcmp6Na st ifd b false io)) (drop : P (io.stat st.rxDrop)) :
    Post P (fun _ => True) (macResolveUc6 st lim ifd len b io) :=
  .ite (fun _ => drop) fun _ => .bind .trivial fun _ _ => .ite (fun _ => na) fun _ => drop

end

/-! ## The frames that are written -/

/-- At most one frame has been written, and it satisfies `P`. -/
def Wrote (P : Tx → Prop) (io io' : Io S) : Prop :=
  io'.tx = io.tx ∨ ∃ x, io'.tx = io.tx ++ [x] ∧ P x

omit [DecidableEq S] in
theorem Wrote.none {P : Tx → Prop} {io io' : Io S} (h : io'.tx = io.tx) : Wrote P io io' := Or.inl h

omit [DecidableEq S] in
theorem Wrote.mono {P Q : Tx → Prop} {io io' : Io S} (h : Wrote P io io') (hPQ : ∀ x, P x → Q x) :
    Wrote Q io io' := by
  rcases h with h | ⟨x, hx, hP⟩
  · exact Or.inl h
  · exact Or.inr ⟨x, hx, hPQ x hP⟩

omit [DecidableEq S] in
theorem Wrote.of_eq {P : Tx → Prop} {io io' : Io S} {x : Tx} (h : Wrote P io io')
    (hx : io'.tx = io.tx ++ [x]) : P x := by
  rcases h with h | ⟨y, hy, hP⟩
  · rw [h] at hx
    exact absurd hx (by simp)
  · rw [hy] at hx
    exact List.singleton_injective (List.append_cancel_left hx) ▸ hP

omit [DecidableEq S] in
theorem Wrote.drop {P : Tx → Prop} {io io' : Io S} (h : Wrote P io io') :
    ∀ x ∈ io'.tx.drop io.tx.length, P x := by
  intro x hx
  rcases h with h | ⟨y, hy, hP⟩
  · rw [h, List.drop_length] at hx
    cases hx
  · rw [hy, List.drop_left] at hx
    rw [List.mem_singleton.mp hx]
    exact hP

theorem mem_drop_of_append {tx tx' : List Tx} {x : Tx} (h : tx' = tx ++ [x]) :
    x ∈ tx'.drop tx.length := by
  rw [h, List.drop_left]
  exact List.mem_singleton_self x

/-- The packets that `p` and `q` write do not go to the zero MAC address. -/
def Destined (p q : Sender) (x : Tx) : Prop :=
  x.sender = p ∨ x.sender = q → hDest (recvBuf x.bytes) ≠ 0

theorem Destined.other {p q : Sender} {x : Tx} (hp : x.sender ≠ p) (hq : x.sender ≠ q) :
    Destined p q x := by
  rintro (h | h)
  · exact absurd h hp
  · exact absurd h hq

variable (ifd : Ifdata) (b : Buf) (io : Io S) {P : Tx → Prop}

theorem arpReply_wrote (ha : ∀ bytes, P ⟨.arpReply, ifd.sockfd, bytes⟩) :
    Wrote P io (arpReply st ifd b io).2.2 := by
  unfold arpReply
  split_ifs
  · exact .none rfl
  · exact .none rfl
  · dsimp only
    split <;> exact Or.inr ⟨_, rfl, ha _⟩

theorem sendIcmp6Na_wrote (hn : ∀ bytes, P ⟨.sendIcmp6Na, ifd.sockfd, bytes⟩) (mcast : Bool) :
    Post (Wrote P io) (fun _ => True) (sendIcmp6Na st ifd b mcast io) :=
  .bind .trivial fun _ _ => Or.inr ⟨_, rfl, hn _⟩

/-- **`mac_resolve` writes an ARP reply or an advertisement to its interface**, if anything. -/
theorem macResolve_wrote (ha : ∀ bytes, P ⟨.arpReply, ifd.sockfd, bytes⟩)
    (hn : ∀ bytes, P ⟨.sendIcmp6Na, ifd.sockfd, bytes⟩) (lim : ℕ) (prot : BitVec 16) (len : ℕ) :
    Post (fun r => Wrote P io r.2) (fun _ => True) (macResolve st lim ifd prot len b io) := by
  refine macResolve_post ?arp ?na ?drop
  case arp => exact fun _ _ _ => arpReply_wrote st ifd b io ha
  case na => exact sendIcmp6Na_wrote st ifd b io hn true
  case drop => exact .none rfl

theorem macResolveUc6_wrote (hn : ∀ bytes, P ⟨.sendIcmp6Na, ifd.sockfd, bytes⟩) (lim : ℕ)
    (len : ℕ) : Post (Wrote P io) (fun _ => True) (macResolveUc6 st lim ifd len b io) :=
  macResolveUc6_post (sendIcmp6Na_wrote st ifd b io hn false) (.none rfl)

end

end Sasat
