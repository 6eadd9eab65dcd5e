import Sasat.Log.Format
import Sasat.Lib.FlushBuffer
import Sasat.Back.ClientTbl
import Sasat.Front.Policy

/-!
# `log_body.c`

The tables, counters and logs are written to a file through a work buffer of `tmpSize` bytes. A
writer is the sequence of its `sprintf` calls and of its uses of `WRITE_LOG_MIDDLE`, which empties
the buffer when less than a margin is left.

* `Ring`, `CText`, `EvtCall`, `mlog`, `evtlog`: the message log and the event log.
* `EvtCall.small`: one of the two words that an event logs is short.
* `polText`: the text that is kept with a policy.
* `writeLogStat`, `writeLogMlog`, `writeLogEvtlog`, `writeLogCliFront`, `writeLogCliBack`,
  `writeLogStat2`, `writeLogSvr`: the writers.
* `Dump`: the contents to write.
-/

namespace Sasat

open Flush

def tmpSize : ℕ := 32 * 1024

/-! ## The ring logs -/

/-- An entry of a ring log. -/
structure LogEntry (α : Type) where
  seqno : BitVec 32
  time : BitVec 64
  data : α

/-- A ring log with its position and sequence number: the newest entry is in it. -/
structure Ring (N : ℕ) (α : Type) where
  data : Fin N → LogEntry α
  pos : Fin N
  seqno : BitVec 32
  found : ∃ i, (data i).seqno = seqno

namespace Ring

variable {N : ℕ} {α : Type}

def init (N : ℕ) [NeZero N] (zero : α) : Ring N α where
  data _ := ⟨0, 0, zero⟩
  pos := 0
  seqno := 0
  found := ⟨0, rfl⟩

/-- The entry at the position is overwritten; the position moves on. -/
def push [NeZero N] (r : Ring N α) (time : BitVec 64) (x : α) : Ring N α where
  data := Function.update r.data r.pos ⟨r.seqno + 1, time, x⟩
  pos := if h : r.pos + 1 < N then ⟨r.pos + 1, h⟩ else 0
  seqno := r.seqno + 1
  found := ⟨r.pos, by rw [Function.update_self]⟩

def newest (r : Ring N α) : ℕ := (List.ofFn r.data).findIdx fun e => e.seqno = r.seqno

def entries (r : Ring N α) : List (LogEntry α) := (List.ofFn r.data).rotate (r.newest + 1)

theorem newest_lt (r : Ring N α) : r.newest < N := by
  obtain ⟨i, hi⟩ := r.found
  have hlt : r.newest < (List.ofFn r.data).length :=
    List.findIdx_lt_length_of_exists ⟨r.data i, by simp, by simpa using hi⟩
  rwa [List.length_ofFn] at hlt

end Ring

/-- `starttime` and `tsc` of a log or a table. -/
structure LogStart where
  starttime : BitVec 64
  tsc : BitVec 64

def mlogDataLen : ℕ := 112

/-- What `vsnprintf` leaves in an array of `k` bytes. -/
abbrev CText (k : ℕ) : Type := { t : Text // t.length < k }

/-- `vsnprintf` and `snprintf` to an array of `k + 1` bytes. -/
def snprintf (k : ℕ) (t : Text) : CText (k + 1) :=
  ⟨t.take k, Nat.lt_succ_of_le (List.length_take_le k t)⟩

instance neZeroMlog : NeZero 256 := ⟨Nat.succ_ne_zero 255⟩

/-- The ring of `mlog`. -/
abbrev MlogRing : Type := Ring 256 (CText mlogDataLen)

/-- `mlog`. -/
def mlog (r : MlogRing) (time : BitVec 64) (t : Text) : MlogRing := r.push time (snprintf 111 t)

/-- The calls of `evtlog`, by what they log: a length or a status, and 0; the length of a frame and
its protocol; an error number and a status; a socket and an error number; the length of a netlink
message and the number of bytes received. -/
inductive EvtCall
  | len (id : Fin 4 → Char) (len : BitVec 32)
  | resolve (id : Fin 4 → Char) (len : BitVec 32) (prot : BitVec 16)
  | overrun (id : Fin 4 → Char) (errno : Fin 4096) (status : BitVec 32)
  | socket (id : Fin 4 → Char) (soc : BitVec 32) (errno : Fin 4096)
  | truncated (id : Fin 4 → Char) (len : BitVec 32) (status : Fin 16385)

namespace EvtCall

def traceid : EvtCall → Fin 4 → Char
  | len id _ | resolve id _ _ | overrun id _ _ | socket id _ _ | truncated id _ _ => id

def info1 : EvtCall → BitVec 64
  | len _ l | resolve _ l _ | socket _ l _ | truncated _ l _ => l.signExtend 64
  | overrun _ errno _ => BitVec.ofNat 64 errno

def info2 : EvtCall → BitVec 64
  | len _ _ => 0
  | resolve _ _ prot => prot.zeroExtend 64
  | overrun _ _ status => status.signExtend 64
  | socket _ _ errno => BitVec.ofNat 64 errno
  | truncated _ _ status => BitVec.ofNat 64 status

/-- **One of the two words is short.** -/
theorem small (c : EvtCall) : c.info1.toNat < 65536 ∨ c.info2.toNat < 65536 := by
  cases c with
  | len id l => exact Or.inr (by rw [info2]; decide)
  | resolve id l prot =>
    refine Or.inr ?_
    have := prot.isLt
    simp only [info2, BitVec.truncate_eq_setWidth, BitVec.toNat_setWidth]
    omega
  | overrun id errno status =>
    refine Or.inl ?_
    have := errno.isLt
    simp only [info1, BitVec.toNat_ofNat]
    omega
  | socket id soc errno =>
    refine Or.inr ?_
    have := errno.isLt
    simp only [info2, BitVec.toNat_ofNat]
    omega
  | truncated id l status =>
    refine Or.inr ?_
    have := status.isLt
    simp only [info2, BitVec.toNat_ofNat]
    omega

end EvtCall

def elogDataLen : ℕ := 56

/-- What an event logs, and its data. -/
structure EvtData where
  call : EvtCall
  eData : Fin elogDataLen → Byte

instance neZeroEvtlog : NeZero 2048 := ⟨Nat.succ_ne_zero 2047⟩

/-- The ring of `evtlog`. -/
abbrev EvtRing : Type := Ring 2048 EvtData

/-- `evtlog`, when the trace is on. Without data four blanks are stored. -/
def evtlog (r : EvtRing) (time : BitVec 64) (c : EvtCall) (data : Option (Fin elogDataLen → Byte)) :
    EvtRing :=
  r.push time ⟨c, data.getD fun i => if (i : ℕ) < 4 then 0x20 else (r.data r.pos).data.eData i⟩

/-! ## Writing -/

/-- `sprintf` to the end of the text in the buffer. -/
def print (t : Text) : Op Char := .put t t.length

/-- `WRITE_LOG_MIDDLE`. -/
def writeLogMiddle (x : ℕ) : Op Char := .test x

def title (name : String) : Text :=
  lit "\n----------------\n" ++ lit name ++ lit "\n"

def statNamesFront : List String :=
  [":rx packets v6\n", ":tx packets v6\n", ":rx packets v4\n", ":tx packets v4\n",
    ":rx packets multicast\n", ":tx arp reply \n", ":tx neighbor adv\n",
    ":rx drop (v6 address)\n", ":rx drop (v4 address)\n", ":rx drop (not ip)\n",
    ":rx drop (vlan)\n", ":rx drop (short)\n", ":rx drop (policy)\n", ":rx drop (other)\n",
    ":select\n", ":clear policy cache\n", ":command update policy\n", ":command dump req\n",
    ":command event trace ctrl\n", ":command illegal req\n"]

def statNamesBack : List String :=
  [":rx packets v6(in)\n", ":tx packets v6(in)\n", ":rx packets v4(in)\n", ":tx packets v4(in)\n",
    ":rx packets multicast(in)\n", ":tx arp reply(in)\n", ":tx neighbor adv(in)\n",
    ":rx drop(v6 address/in)\n", ":rx drop(v4 address/in)\n", ":rx drop(not ip/in)\n",
    ":rx drop(short/in)\n", ":rx drop(other/in)\n",
    ":rx packets v6(out)\n", ":tx packets v6(out)\n", ":rx packets v4(out)\n",
    ":tx packets v4(out)\n", ":rx packets multicast(out)\n", ":tx arp reply(out)\n",
    ":tx neighbor adv(out)\n", ":tx proxy arp(out)\n", ":tx proxy neighbor adv(out)\n",
    ":rx drop(v6 address/out)\n", ":rx drop(v4 address/out)\n", ":rx drop(not ip/out)\n",
    ":rx drop(short/out)\n", ":rx drop(other/out)\n", ":tx drop(mac error v6/out)\n",
    ":tx drop(mac error v4/out)\n", ":command dump req\n", ":command event trace ctrl\n",
    ":command illegal request\n"]

/-- `convert_stat`: the number takes ten characters, the name is copied behind them. -/
def convertStat (name : String) (stat : BitVec 64) : List (Op Char) :=
  [.put (pad 10 ' ' (fmtU stat.toNat)) 10, print (lit name)]

/-- `write_log_stat`. The margin is the size of `struct stat_print`. -/
def writeLogStat (names : List String) (stat : ℕ → BitVec 64) : List (Op Char) :=
  print (title "STATISTICS:") ::
    names.zipIdx.flatMap fun e => convertStat e.1 (stat e.2) ++ [writeLogMiddle 10]

def mlogRecord (c : Clock) (start : LogStart) (e : LogEntry (CText mlogDataLen)) : Text :=
  lit "\nseq :" ++ fmtU e.seqno.toNat ++ lit "\ntime:" ++
    getTime c start.tsc e.time start.starttime ++ lit "\nmsg :" ++ e.data.val ++ lit "\n"

/-- `write_log_mlog`. -/
def writeLogMlog (c : Clock) (start : LogStart) (r : MlogRing) : List (Op Char) :=
  print (title "MLOG:" ++ c.ctime start.starttime) ::
    (r.entries.filter fun e => e.time ≠ 0).flatMap fun e =>
      [print (mlogRecord c start e), writeLogMiddle 256]

def evtlogRecord (c : Clock) (start : LogStart) (e : LogEntry EvtData) : Text :=
  lit "\nseq :" ++ fmtU e.seqno.toNat ++ lit "\ntid :" ++ List.ofFn e.data.call.traceid ++
    lit "\ntime:" ++ getTime c start.tsc e.time start.starttime ++ lit "\ndata:" ++
    fmtX e.data.call.info1.toNat ++ lit "/" ++ fmtX e.data.call.info2.toNat ++ lit "\n"

/-- `%02x`. -/
def fmtByte (b : Byte) : Text := pad 2 '0' (fmtX b.toNat)

/-- A line with eight bytes of the data of an event. -/
def evtlogLine (p : Fin elogDataLen → Byte) (x : Fin (elogDataLen / 8)) : Text :=
  lit "     " ++ fmtByte (p ⟨8 * x, by simp [elogDataLen]; omega⟩) ++
    (List.finRange 7).flatMap (fun i : Fin 7 =>
      ' ' :: fmtByte (p ⟨8 * x + (i + 1), by simp [elogDataLen]; omega⟩)) ++ lit "\n"

/-- `write_log_evtlog`. -/
def writeLogEvtlog (c : Clock) (start : LogStart) (r : EvtRing) : List (Op Char) :=
  print (title "EVENTLOG:" ++ c.ctime start.starttime) ::
    (r.entries.filter fun e => e.time ≠ 0).flatMap fun e =>
      print (evtlogRecord c start e) ::
        (List.finRange (elogDataLen / 8)).map (fun x => print (evtlogLine e.data.eData x)) ++
          [writeLogMiddle (elogDataLen * 3 + 128)]

/-- The records of a table, numbered from 1 on by an `int`. -/
def numbered {β : Type} (l : List β) (f : BitVec 32 → β → List (Op Char)) : List (Op Char) :=
  (l.zipIdx 1).flatMap fun e => f (BitVec.ofNat 32 e.2) e.1

/-- `%4d)` and a blank. -/
def number (num : BitVec 32) : Text := pad 4 ' ' (fmtD num) ++ lit ") "

def cliRecord (label : String) (num : BitVec 32) (addr : Text) (hit : BitVec 32) (time : Text) :
    Text :=
  number num ++ addr ++ lit " (" ++ fmtU hit.toNat ++ lit label ++ time ++ lit "\n"

def usedCaches {n : ℕ} {D : Type} (s : PolSide n D) : List (LbPolCache n D) :=
  ((List.finRange lbMaxCache).map fun i => s.cache (.init i)).filter fun e => e.lbStat ≠ .init

def cliFront {n : ℕ} {D : Type} (c : Clock) (start : LogStart) (ntop : (Fin n → Byte) → Text)
    (s : PolSide n D) : List (Op Char) :=
  numbered (usedCaches s) fun num e =>
    [print (cliRecord " packets) create: " num (ntop e.lbSrcIp) e.hit
      (getTime c start.tsc e.timestamp start.starttime)), writeLogMiddle 128]

/-- `write_log_cli` of the front translator. -/
def writeLogCliFront (c : Clock) (start : LogStart) (s : FrontState) : List (Op Char) :=
  [print (title "CLIENT INFO:"), print (lit "IPv6\n")] ++ cliFront c start inetNtop6 s.lb6 ++
    print (lit "IPv4\n") :: cliFront c start inetNtop4 s.lb4

def inet6Addrstrlen : ℕ := 46

def inetAddrstrlen : ℕ := 16

def usedCis {A : Type} (t : CiTable A) : List (Ci A) :=
  ((List.finRange cliCache).map t.init).filter fun e => e.timestamp ≠ 0

/-- One of the four parts of `write_log_cli` of the backend translator. -/
def cliBack {A : Type} (c : Clock) (ci : ClientInfo) (name : String) (addrstrlen : ℕ)
    (ntop : A → Text) (t : CiTable A) : List (Op Char) :=
  print (lit "\n" ++ lit name ++ lit "\n") :: numbered (usedCis t) fun num e =>
    [print (cliRecord " packets) last access: " num (ntop e.cliIp) e.hit
      (getTime c ci.tsc e.timestamp ci.starttime)), writeLogMiddle (addrstrlen + 32)]

/-- `write_log_cli` of the backend translator. -/
def writeLogCliBack (c : Clock) (ci : ClientInfo) : List (Op Char) :=
  print (title "CLIENT INFO:") ::
    (cliBack c ci "IPv6 client info (client to server)" inet6Addrstrlen inetNtop6 ci.up6 ++
      cliBack c ci "IPv6 client info (server to client)" inet6Addrstrlen inetNtop6 ci.dwn6 ++
      cliBack c ci "IPv4 client info (client to server)" inetAddrstrlen inetNtop4 ci.up4 ++
      cliBack c ci "IPv4 client info (server to client)" inetAddrstrlen inetNtop4 ci.dwn4)

/-- The text that `create_policy_table` keeps in an array of `k + 1` bytes. -/
def polText (k : ℕ) (saddr netmask svr : Text) : CText (k + 1) :=
  snprintf k (saddr ++ lit ", " ++ netmask ++ lit ", " ++ svr)

def polRecord (num : BitVec 32) (line : Text) (hit use : BitVec 32) : Text :=
  number num ++ line ++ lit " (hit:" ++ fmtU hit.toNat ++ lit " client:" ++ fmtU use.toNat ++
    lit ")\n"

/-- The policies of one family, with the texts kept for them. -/
def stat2Side {n k : ℕ} {D : Type} (line : Ptr → CText k) (s : PolSide n D) : List (Op Char) :=
  numbered (s.polHead.filterMap fun p => (s.pols p).map fun f => ((line p).val, f)) fun num e =>
    [print (polRecord num e.1 e.2.hitCount e.2.useCount), writeLogMiddle 128]

/-- `write_log_stat2`. -/
def writeLogStat2 (line4 : Ptr → CText 64) (line6 : Ptr → CText 128) (s : FrontState) :
    List (Op Char) :=
  [print (title "POLICY STATUS:"), print (lit "IPv6\n")] ++ stat2Side line6 s.lb6 ++
    print (lit "IPv4\n") :: stat2Side line4 s.lb4

/-- The record of a server; the gateway is written when it is not the server itself. -/
def svrRecord {n : ℕ} (ntop : (Fin n → Byte) → Text) (num : BitVec 32) (gw : Fin n → Byte)
    (v : ServerTbl n) : Text :=
  number num ++ ntop v.svrIp ++ (if v.svrIp = gw then [] else lit " via " ++ ntop gw) ++
    lit " (" ++ fmtU v.hit.toNat ++ lit " packets)\n"

def svrSide {n : ℕ} {D : Type} (ntop : (Fin n → Byte) → Text) (gw : Ptr → Fin n → Byte)
    (s : PolSide n D) : List (Op Char) :=
  numbered ((s.svrHead.filterMap fun p => (s.svrs p).map fun v => (gw p, v)).filter
    fun e => e.2.status ≠ .drop) fun num e =>
      [print (svrRecord ntop num e.1 e.2), writeLogMiddle 128]

/-- `write_log_svr`. -/
def writeLogSvr (gw4 : Ptr → InAddr) (gw6 : Ptr → In6Addr) (s : FrontState) : List (Op Char) :=
  [print (title "BACKEND TRANSLATOR INFO:"), print (lit "IPv6\n")] ++
    svrSide inetNtop6 gw6 s.lb6 ++ print (lit "IPv4\n") :: svrSide inetNtop4 gw4 s.lb4

/-- A writer with what it writes. -/
inductive Dump
  | statFront (stat : ℕ → BitVec 64)
  | statBack (stat : ℕ → BitVec 64)
  | mlog (start : LogStart) (r : MlogRing)
  | evtlog (start : LogStart) (r : EvtRing)
  | cliFront (start : LogStart) (s : FrontState)
  | cliBack (ci : ClientInfo)
  | stat2 (line4 : Ptr → CText 64) (line6 : Ptr → CText 128) (s : FrontState)
  | svr (gw4 : Ptr → InAddr) (gw6 : Ptr → In6Addr) (s : FrontState)

/-- What a writer does. -/
def Dump.ops (c : Clock) : Dump → List (Op Char)
  | statFront stat => writeLogStat statNamesFront stat
  | statBack stat => writeLogStat statNamesBack stat
  | mlog start r => writeLogMlog c start r
  | evtlog start r => writeLogEvtlog c start r
  | cliFront start s => writeLogCliFront c start s
  | cliBack ci => writeLogCliBack c ci
  | stat2 line4 line6 s => writeLogStat2 line4 line6 s
  | svr gw4 gw6 s => writeLogSvr gw4 gw6 s

end Sasat
