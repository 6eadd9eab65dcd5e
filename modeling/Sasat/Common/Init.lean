import Sasat.Conf.PolicyText
import Sasat.Common.ArpProc

/-!
# `common_init.c`

What the translators learn about their interfaces at the start, from the properties and from the
system.

* `Props`, `anycastGetProperties`, `anycastGetPropertiesInt`: the properties.
* `Host`: `inet_pton`, `getifaddrs` and the hardware addresses.
* `getIfaddrInfo`: the addresses of an interface; a link-local IPv6 address only if there is no
  other one.
* `getInterfaceInfo`: the two interfaces of the backend and `vip_mode`.
* **`getInterfaceInfo_fmmac`**: `fmmac` is the solicited-node MAC address of `vip6`.
-/

namespace Sasat

/-! ## Properties -/

def bytesOf (s : String) : List Byte := s.toList.map fun c => BitVec.ofNat 8 c.toNat

def keyIfnameIngress : List Byte := bytesOf "in.ifname"

def keyIfnameEgress : List Byte := bytesOf "eg.ifname"

def keyVipMode : List Byte := bytesOf "vip_mode"

def keyVip4 : List Byte := bytesOf "in.ip4"

def keyVip6 : List Byte := bytesOf "in.ip6"

def keyEgressIp4 : List Byte := bytesOf "eg.ip4"

def keyEgressIp6 : List Byte := bytesOf "eg.ip6"

def keySvrIp4 : List Byte := bytesOf "svr.ip4"

def keySvrIp6 : List Byte := bytesOf "svr.ip6"

def ifnameIngressDefault : List Byte := bytesOf "eth0"

def ifnameEgressDefault : List Byte := bytesOf "eth1"

/-- `prop_head`: keys and values, the ones that were added last first. -/
abbrev Props : Type := List (List Byte × List Byte)

/-- `anycast_get_properties`. -/
def anycastGetProperties (props : Props) (key : List Byte) : Option (List Byte) :=
  (props.find? fun p => p.1 = key).map Prod.snd

/-- `isspace`. -/
def isSpace (c : Byte) : Bool := c = 32 || (9 ≤ c && c ≤ 13)

/-- The number that the digits at the start of a text continue `k` to. -/
def digitsLoop : ℕ → List Byte → ℕ
  | k, [] => k
  | k, c :: s => if isDigit c then digitsLoop (10 * k + (c.toNat - 48)) s else k

/-- `strtol` in base 10, for a `long` of 64 bits. -/
def strtol (s : List Byte) : ℤ :=
  let s := s.dropWhile isSpace
  if s.head? = some 45 then max (-(2 ^ 63)) (-(digitsLoop 0 s.tail : ℤ))
  else min (2 ^ 63 - 1) (digitsLoop 0 (if s.head? = some 43 then s.tail else s))

/-- `anycast_get_properties_int`. -/
def anycastGetPropertiesInt (props : Props) (key : List Byte) : ℤ :=
  match anycastGetProperties props key with
  | none => 0
  | some value => strtol value

/-! ## Interfaces -/

/-- `fmmac`, as it is set up for `vip6`. -/
def solicitedMac (vip6 : In6Addr) : Mac := ![0x33, 0x33, 0xff, vip6 13, vip6 14, vip6 15]

theorem isMulticast_solicitedMac (vip6 : In6Addr) : isMulticast (solicitedMac vip6) = true := by
  simp [isMulticast, solicitedMac]

theorem isBroadcast_solicitedMac (vip6 : In6Addr) : isBroadcast (solicitedMac vip6) = false := by
  apply beq_false_of_ne
  intro h
  exact absurd (congrFun h 0) (by simp [solicitedMac])

/-- `ifa_addr`, by its family. -/
inductive IfaAddr
  | inet (a : InAddr)
  | inet6 (a : In6Addr)
  | other

/-- `struct ifaddrs`. -/
structure Ifaddrs where
  ifaName : List Byte
  /-- `none` for `NULL`. -/
  ifaAddr : Option IfaAddr

/-- The system at the start: `inet_pton`, what the calls of `getifaddrs` end with, and the hardware
address of an interface, if there is a socket to ask with. -/
structure Host where
  pton : InetPton
  getifaddrs : ℕ → Option (List Ifaddrs)
  hwaddr : List Byte → Option Mac

/-- The variables of the loop of `get_ifaddr_info`: `ll` is `none` while `llv` is 0. -/
structure IfScan where
  ifdata : Ifdata
  set4 : Bool
  set6 : Bool
  ll : Option In6Addr

/-- What the loop does with an address of the interface. -/
def IfScan.addr (x : IfScan) : IfaAddr → IfScan
  | .inet a =>
    if x.set4 then x
    else { x with ifdata := { x.ifdata with sip4 := a, v4Enable := true }, set4 := true }
  | .inet6 a =>
    if x.set6 then x
    else if a 0 = 0xfe then if x.ll = none then { x with ll := some a } else x
    else { x with ifdata := { x.ifdata with sip6 := a, v6Enable := true }, set6 := true }
  | .other => x

/-- The loop of `get_ifaddr_info`. -/
def ifaddrLoop (ifname : List Byte) : List Ifaddrs → IfScan → IfScan
  | [], x => x
  | ifap :: l, x =>
    if x.set4 ∧ x.set6 then x
    else
      match ifap.ifaAddr with
      | none => ifaddrLoop ifname l x
      | some sa => ifaddrLoop ifname l (if ifap.ifaName = ifname then x.addr sa else x)

/-- `get_ifaddr_info`, with the list `ifap0`. -/
def getIfaddrInfo (ifap0 : Option (List Ifaddrs)) (hwaddr : Option Mac) (ifname : List Byte)
    (ifdata : Ifdata) : Ifdata :=
  let ifdata := match ifap0 with
    | none => ifdata
    | some l =>
      let x := ifaddrLoop ifname l ⟨ifdata, false, false, none⟩
      match x.ll with
      | some ll => if x.set6 then x.ifdata else { x.ifdata with sip6 := ll, v6Enable := true }
      | none => x.ifdata
  { ifdata with mac := hwaddr.getD 0 }

/-- `ifap0` in the second call of `get_ifaddr_info`: the list of the first one, if there is one. -/
def Host.ifap0 (h : Host) : Option (List Ifaddrs) :=
  match h.getifaddrs 0 with
  | some (ifap :: l) => some (ifap :: l)
  | _ => h.getifaddrs 1

/-- The name of an interface, in an array of `IFNAMSIZ` bytes. -/
def ifnameOf (props : Props) (key default : List Byte) : List Byte :=
  ((anycastGetProperties props key).getD default).take 16

/-- The IPv4 address `str` of the virtual IP mode; without one the family is disabled. -/
def readVip4 (pton : InetPton) (str : Option (List Byte)) (ifd : Ifdata) : Ifdata :=
  if ifd.v4Enable then
    match str.bind pton.v4 with
    | some a => { ifd with vip4 := a }
    | none => { ifd with v4Enable := false }
  else ifd

/-- The IPv6 address `str` of the virtual IP mode; without one the family is disabled. -/
def readVip6 (pton : InetPton) (str : Option (List Byte)) (ifd : Ifdata) : Ifdata :=
  if ifd.v6Enable then
    match str.bind pton.v6 with
    | some a => { ifd with vip6 := a }
    | none => { ifd with v6Enable := false }
  else ifd

/-- The addresses of the real IP mode. -/
def realVip (ifd : Ifdata) : Ifdata := { ifd with vip4 := ifd.sip4, vip6 := ifd.sip6 }

/-- `fmmac` is filled in. -/
def setFmmac (ifd : Ifdata) : Ifdata :=
  { ifd with fmmac := if ifd.v6Enable then solicitedMac ifd.vip6 else 0 }

/-- `get_interface_info` of the backend: the two interfaces and `vip_mode`. -/
def getInterfaceInfo (h : Host) (props : Props) (ifIn ifEg : Ifdata) : Ifdata × Ifdata × Bool :=
  let prop := anycastGetProperties props
  let nameIn := ifnameOf props keyIfnameIngress ifnameIngressDefault
  let ifIn := getIfaddrInfo (h.getifaddrs 0) (h.hwaddr nameIn) nameIn ifIn
  let nameEg := ifnameOf props keyIfnameEgress ifnameEgressDefault
  let ifEg := getIfaddrInfo h.ifap0 (h.hwaddr nameEg) nameEg ifEg
  -- `vip_mode` is an `int`
  if BitVec.ofInt 32 (anycastGetPropertiesInt props keyVipMode) = 1 then
    (setFmmac (readVip6 h.pton (prop keyVip6) (readVip4 h.pton (prop keyVip4) ifIn)),
      setFmmac (readVip6 h.pton (prop keyEgressIp6) (readVip4 h.pton (prop keyEgressIp4) ifEg)),
      true)
  else (setFmmac (realVip ifIn), setFmmac (realVip ifEg), false)

/-- `fmmac` is that of `vip6`, where IPv6 is enabled. -/
def FmmacOk (ifd : Ifdata) : Prop := ifd.v6Enable = true → ifd.fmmac = solicitedMac ifd.vip6

theorem setFmmac_ok (ifd : Ifdata) : FmmacOk (setFmmac ifd) := fun h => if_pos h

theorem getInterfaceInfo_fmmac (h : Host) (props : Props) (ifIn ifEg : Ifdata) :
    FmmacOk (getInterfaceInfo h props ifIn ifEg).1 ∧
      FmmacOk (getInterfaceInfo h props ifIn ifEg).2.1 := by
  unfold getInterfaceInfo
  dsimp only
  split_ifs
  · exact ⟨setFmmac_ok _, setFmmac_ok _⟩
  · exact ⟨setFmmac_ok _, setFmmac_ok _⟩

end Sasat
