import Sasat.Conf.Properties
import Sasat.Common.Ifaddrs

/-!
# The configuration at the start

A translator reads its properties once, from the bytes of a file or, if there is none, from a table
of its own. What it then asks its interfaces depends on them.

* `anycastPropInit`: the file, or the table, is read into the property store.
* `confValue`: the value that the configuration gives a key; **`anycastPropInit_reads`**,
  `anycastPropInit_ends`.
* `confVipMode`, `confIfname`: the mode, and the names of the interfaces.
* `HasVips`: the addresses under which an interface takes packets; **`HasOwn.readVip`**.
-/

namespace Sasat

open LastMatch Lines

/-! ## The property store -/

/-- `prop_db_front`. -/
def propDbFront : Props :=
  [(keyIfnameIngress, bytesOf "eth0"), (bytesOf "ud_file", bytesOf "/dev/shm/.sasat"),
    (keyVipMode, bytesOf "1")]

/-- `prop_db_backend`. One of the addresses is written with a comma. -/
def propDbBackend : Props :=
  [(keyIfnameIngress, bytesOf "eth0"), (keyIfnameEgress, bytesOf "eth1"),
    (bytesOf "ud_file", bytesOf "/dev/shm/.sasat"), (keyVipMode, bytesOf "1"),
    (keyVip4, bytesOf "0.0.0.0"), (keyVip6, bytesOf "::"), (keyEgressIp4, bytesOf "0.0.0.0"),
    (keyEgressIp6, bytesOf "::"), (keySvrIp4, bytesOf "0.0.0,0"), (keySvrIp6, bytesOf "::")]

/-- `parse_header`. -/
def parseHeader (db : Props) (props : List PropData) : List PropData :=
  db.foldl (fun props tb => addProperties props tb.1 tb.2) props

/-- `open_prop_file`, by the bytes of the file, if there is one. -/
def openPropFile (file : Option (List Byte)) : Option File :=
  file.map fun bytes => fopen bytes false

/-- `anycast_prop_init`, with what `open_prop_file` returns. `parse_file` always returns 0. -/
def anycastPropInit (db : Props) (stale : ℕ → List Byte) (k : ℕ) :
    Option File → M (List PropData)
  | none => .ok (parseHeader db [])
  | some file => do
    let lines ← parseFile stale k file
    .ok (lines.foldl parseLine [])

/-- The keys and values in the blocks of the store. -/
def propPairs (props : List PropData) : Props :=
  props.map fun data => (stringAt data 0, stringAt data ((stringAt data 0).length + 1))

/-- A property file: its lines are short, and those that are read to their end have no NUL. -/
structure GoodConf (bytes : List Byte) : Prop where
  short : ∀ l ∈ lines newline bytes, l.length < 128
  line : ∀ l ∈ givenLines 128 skipProperty bytes, PropLine l

/-- The value of a key: that of the last line of the file that assigns to it, or of the table when
there is no file. -/
def confValue (db : Props) (file : Option (List Byte)) (key : List Byte) : Option (List Byte) :=
  match file with
  | none => (lastMatch (fun tb => decide (tb.1 = key)) db).map Prod.snd
  | some bytes => (lastMatch (fun l => decide (Assigns key l))
      (givenLines 128 skipProperty bytes)).map lineValue

section

variable {db : Props} {file : Option (List Byte)} {stale : ℕ → List Byte} {k : ℕ}
  {props : List PropData}

theorem getProperties_parseHeader (h : ∀ tb ∈ db, 0 ∉ tb.1 ∧ 0 ∉ tb.2) (key : List Byte) :
    getProperties (parseHeader db props) key =
      ((lastMatch (fun tb => decide (tb.1 = key)) db).map Prod.snd).or
        (getProperties props key) := by
  induction db generalizing props with
  | nil => rfl
  | cons tb db ih =>
    rw [List.forall_mem_cons] at h
    have hrest := @ih (addProperties props tb.1 tb.2) h.2
    rw [parseHeader] at hrest
    rw [parseHeader, List.foldl_cons, hrest, getProperties_addProperties h.1.1 h.1.2,
      lastMatch_cons]
    cases lastMatch (fun tb => decide (tb.1 = key)) db with
    | some tb' => rfl
    | none =>
      by_cases hk : tb.1 = key
      · rw [if_pos hk, decide_eq_true hk]
        rfl
      · rw [if_neg hk, decide_eq_false hk]
        rfl

/-- **The store gives every key the value of the configuration.** -/
theorem anycastPropInit_reads (hdb : ∀ tb ∈ db, 0 ∉ tb.1 ∧ 0 ∉ tb.2)
    (hg : ∀ bytes ∈ file, GoodConf bytes)
    (h : anycastPropInit db stale k (openPropFile file) = .ok props)
    (key : List Byte) : anycastGetProperties (propPairs props) key = confValue db file key := by
  rw [propPairs, ← getProperties_eq]
  cases file with
  | none =>
    cases h
    rw [getProperties_parseHeader hdb]
    exact Option.or_none
  | some bytes =>
    have hgood := hg bytes rfl
    obtain ⟨ls, hls, h⟩ := bind_eq_ok.mp h
    cases h
    obtain ⟨-, rfl⟩ := (readLoop_iff (by decide) rfl hgood.short ls).mp ⟨k, hls⟩
    exact (getProperties_foldl hgood.line key).trans Option.or_none

/-- **Some number of turns of the loop is enough.** -/
theorem anycastPropInit_ends (db : Props) (stale : ℕ → List Byte)
    (hg : ∀ bytes ∈ file, GoodConf bytes) : ∃ k props,
      anycastPropInit db stale k (openPropFile file) = .ok props := by
  cases file with
  | none => exact ⟨0, _, rfl⟩
  | some bytes =>
    have hread : ∃ k, parseFile stale k (fopen bytes false) =
        .ok (givenLines 128 skipProperty bytes) :=
      (readLoop_iff (by decide) rfl (hg bytes rfl).short _).mpr ⟨rfl, rfl⟩
    obtain ⟨k, hk⟩ := hread
    exact ⟨k, _, bind_eq_ok.mpr ⟨_, hk, rfl⟩⟩

theorem propDb_noNul : (∀ tb ∈ propDbFront, 0 ∉ tb.1 ∧ 0 ∉ tb.2) ∧
    ∀ tb ∈ propDbBackend, 0 ∉ tb.1 ∧ 0 ∉ tb.2 := by decide

end

/-! ## The addresses of an interface -/

section

variable (conf : List Byte → Option (List Byte))

/-- `vip_mode` is 1. -/
def confVipMode : Bool := decide (BitVec.ofInt 32 ((conf keyVipMode).elim 0 strtol) = 1)

def confIfname (key default : List Byte) : List Byte := ((conf key).getD default).take 16

end

theorem confVipMode_iff (props : Props) : confVipMode (anycastGetProperties props) = true ↔
    BitVec.ofInt 32 (anycastGetPropertiesInt props keyVipMode) = 1 := by
  rw [confVipMode, decide_eq_true_iff, anycastGetPropertiesInt]
  cases anycastGetProperties props keyVipMode <;> rfl

/-- The address of an interface: its own one, or in the virtual IP mode the given one. -/
def ifAddr {A : Type} (vip : Bool) (own given : Option A) : Option A :=
  if vip then own.bind fun _ => given else own

/-- The own addresses of an interface. -/
structure HasOwn (own4 : Option InAddr) (own6 : Option In6Addr) (ifd : Ifdata) : Prop where
  v4 : ifd.v4Enable = own4.isSome
  sip4 : ∀ a, own4 = some a → ifd.sip4 = a
  v6 : ifd.v6Enable = own6.isSome
  sip6 : ∀ a, own6 = some a → ifd.sip6 = a

/-- The addresses under which an interface takes packets. -/
structure HasVips (vip4 : Option InAddr) (vip6 : Option In6Addr) (ifd : Ifdata) : Prop where
  v4 : ifd.v4Enable = vip4.isSome
  vip4 : ∀ a, vip4 = some a → ifd.vip4 = a
  v6 : ifd.v6Enable = vip6.isSome
  vip6 : ∀ a, vip6 = some a → ifd.vip6 = a

section

variable {own4 : Option InAddr} {own6 : Option In6Addr} {ifd : Ifdata}

/-- **What `get_ifaddr_info` finds** for a structure that was zero before. -/
theorem getIfaddrInfo_own (l : Option (List Ifaddrs)) (hwaddr : Option Mac) (ifname : List Byte) :
    HasOwn (v4Addrs ifname (l.getD [])).head? (sourceAddr6 (v6Addrs ifname (l.getD [])))
      (getIfaddrInfo l hwaddr ifname zeroIfdata) := by
  have hnone : getIfaddrInfo l hwaddr ifname zeroIfdata =
      getIfaddrInfo (some (l.getD [])) hwaddr ifname zeroIfdata := by
    cases l <;> rfl
  obtain ⟨h1, h2, h3, h4⟩ := getIfaddrInfo_fields hwaddr ifname (l.getD []) zeroIfdata
  rw [hnone]
  refine ⟨h1, fun a ha => ?_, h3, fun a ha => ?_⟩
  · rw [h2, ha]
    rfl
  · rw [h4, ha]
    rfl

theorem HasOwn.readVip (h : HasOwn own4 own6 ifd) (pton : InetPton)
    (str4 str6 : Option (List Byte)) :
    HasVips (own4.bind fun _ => str4.bind pton.v4) (own6.bind fun _ => str6.bind pton.v6)
      (setFmmac (readVip6 pton str6 (readVip4 pton str4 ifd))) := by
  obtain ⟨hv4, -, hv6, -⟩ := h
  have h4 : (readVip4 pton str4 ifd).v4Enable = (own4.bind fun _ => str4.bind pton.v4).isSome ∧
      (∀ a, (own4.bind fun _ => str4.bind pton.v4) = some a →
        (readVip4 pton str4 ifd).vip4 = a) ∧
      (readVip4 pton str4 ifd).v6Enable = ifd.v6Enable := by
    unfold readVip4
    rw [hv4]
    cases own4 with
    | none => exact ⟨hv4, (fun a ha => by cases ha), rfl⟩
    | some own =>
      rw [Option.bind_some]
      cases str4.bind pton.v4 with
      | none => exact ⟨rfl, (fun a ha => by cases ha), rfl⟩
      | some a => exact ⟨rfl, fun _ => Option.some.inj, rfl⟩
  obtain ⟨h1, h2, h3⟩ := h4
  generalize readVip4 pton str4 ifd = ifd' at h1 h2 h3
  rw [hv6] at h3
  have h6 : HasVips (own4.bind fun _ => str4.bind pton.v4) (own6.bind fun _ => str6.bind pton.v6)
      (readVip6 pton str6 ifd') := by
    unfold readVip6
    rw [h3]
    cases own6 with
    | none => exact ⟨h1, h2, h3, fun a ha => by cases ha⟩
    | some own =>
      rw [Option.bind_some]
      cases str6.bind pton.v6 with
      | none => exact ⟨h1, h2, rfl, fun a ha => by cases ha⟩
      | some a => exact ⟨h1, h2, rfl, fun _ => Option.some.inj⟩
  exact ⟨h6.v4, h6.vip4, h6.v6, h6.vip6⟩

theorem HasOwn.realVip (h : HasOwn own4 own6 ifd) :
    HasVips own4 own6 (setFmmac (Sasat.realVip ifd)) :=
  ⟨h.v4, h.sip4, h.v6, h.sip6⟩

end

end Sasat
