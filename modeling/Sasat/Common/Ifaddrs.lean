import Sasat.Common.Init

/-!
# The addresses of an interface

`get_ifaddr_info` fills in a structure that is read again after every reload of the front
translator. It sets the two `enable` flags and does not clear them.

* `v4Addrs`, `v6Addrs`, `sourceAddr6`: the addresses of the list, and the IPv6 address to use.
* `Current`: the structure says what the list says.
* **`ifaddrLoop_scanned`**: what the loop picks, with its early end.
* **`getIfaddrInfo_current_iff`**: the structure is up to date exactly if no flag that was set
  before has lost its addresses.
* `getInterfaceInfoFront`, **`reload_stale`**: a reload that keeps an address that is gone.
-/

namespace Sasat

def Ifaddrs.v4 (ifname : List Byte) (ifap : Ifaddrs) : Option InAddr :=
  match ifap.ifaAddr with
  | some (.inet a) => if ifap.ifaName = ifname then some a else none
  | _ => none

def Ifaddrs.v6 (ifname : List Byte) (ifap : Ifaddrs) : Option In6Addr :=
  match ifap.ifaAddr with
  | some (.inet6 a) => if ifap.ifaName = ifname then some a else none
  | _ => none

def v4Addrs (ifname : List Byte) (l : List Ifaddrs) : List InAddr := l.filterMap (Ifaddrs.v4 ifname)

def v6Addrs (ifname : List Byte) (l : List Ifaddrs) : List In6Addr :=
  l.filterMap (Ifaddrs.v6 ifname)

/-- The first address that does not begin with `0xfe`, else the first one that does. -/
def sourceAddr6 (as : List In6Addr) : Option In6Addr :=
  (as.find? fun a => a 0 ≠ 0xfe).or (as.find? fun a => a 0 = 0xfe)

/-- `struct ifdata` says what the list says. -/
structure Current (ifname : List Byte) (l : List Ifaddrs) (ifd : Ifdata) : Prop where
  v4 : ifd.v4Enable = true ↔ v4Addrs ifname l ≠ []
  sip4 : ∀ a, (v4Addrs ifname l).head? = some a → ifd.sip4 = a
  v6 : ifd.v6Enable = true ↔ v6Addrs ifname l ≠ []
  sip6 : ∀ a, sourceAddr6 (v6Addrs ifname l) = some a → ifd.sip6 = a

/-! ## The loop -/

/-- The IPv4 address that the loop still picks. -/
def IfScan.pick4 (x : IfScan) (as : List InAddr) : Option InAddr :=
  if x.set4 then none else as.head?

def IfScan.pick6 (x : IfScan) (as : List In6Addr) : Option In6Addr :=
  if x.set6 then none else as.find? fun a => a 0 ≠ 0xfe

/-- From `x` the loop comes to `x'` over the addresses `as` and `as'` of the interface. -/
structure Scanned (x : IfScan) (as : List InAddr) (as' : List In6Addr) (x' : IfScan) : Prop where
  sip4 : x'.ifdata.sip4 = (x.pick4 as).getD x.ifdata.sip4
  v4 : x'.ifdata.v4Enable = (x.ifdata.v4Enable || (x.pick4 as).isSome)
  set4 : x'.set4 = (x.set4 || (x.pick4 as).isSome)
  sip6 : x'.ifdata.sip6 = (x.pick6 as').getD x.ifdata.sip6
  v6 : x'.ifdata.v6Enable = (x.ifdata.v6Enable || (x.pick6 as').isSome)
  set6 : x'.set6 = (x.set6 || (x.pick6 as').isSome)
  ll : x'.set6 = false → x'.ll = x.ll.or as'.head?

section

variable {x x' : IfScan} {as : List InAddr} {as' : List In6Addr} {ifname : List Byte}
  {l : List Ifaddrs} {ifd : Ifdata}

theorem Scanned.refl (h4 : x.set4 = true ∨ as = []) (h6 : x.set6 = true ∨ as' = []) :
    Scanned x as as' x := by
  have hp4 : x.pick4 as = none := by
    unfold IfScan.pick4
    rcases h4 with h | rfl
    · rw [if_pos h]
    · exact ite_self _
  have hp6 : x.pick6 as' = none := by
    unfold IfScan.pick6
    rcases h6 with h | rfl
    · rw [if_pos h]
    · exact ite_self _
  refine ⟨by rw [hp4]; rfl, by simp [hp4], by simp [hp4], by rw [hp6]; rfl, by simp [hp6],
    by simp [hp6], fun h => ?_⟩
  obtain rfl := h6.resolve_left (by rw [h]; decide)
  exact Option.or_none.symm

theorem Scanned.inet {a : InAddr} (h : Scanned (x.addr (.inet a)) as as' x') :
    Scanned x (a :: as) as' x' := by
  rw [IfScan.addr] at h
  by_cases h4 : x.set4
  · rw [if_pos h4] at h
    have hp : x.pick4 (a :: as) = x.pick4 as := by
      rw [IfScan.pick4, IfScan.pick4, if_pos h4, if_pos h4]
    exact ⟨hp ▸ h.sip4, hp ▸ h.v4, hp ▸ h.set4, h.sip6, h.v6, h.set6, h.ll⟩
  · rw [if_neg h4] at h
    have hp : x.pick4 (a :: as) = some a := if_neg h4
    refine ⟨?_, ?_, ?_, h.sip6, h.v6, h.set6, h.ll⟩
    · rw [hp]
      exact h.sip4
    · rw [hp, h.v4]
      simp
    · rw [hp, h.set4]
      simp

theorem Scanned.inet6 {a : In6Addr} (h : Scanned (x.addr (.inet6 a)) as as' x') :
    Scanned x as (a :: as') x' := by
  rw [IfScan.addr] at h
  by_cases h6 : x.set6
  · rw [if_pos h6] at h
    have hp : x.pick6 (a :: as') = x.pick6 as' := by
      rw [IfScan.pick6, IfScan.pick6, if_pos h6, if_pos h6]
    refine ⟨h.sip4, h.v4, h.set4, hp ▸ h.sip6, hp ▸ h.v6, hp ▸ h.set6, fun hno => ?_⟩
    rw [h.set6, h6] at hno
    exact absurd hno (by simp)
  · rw [if_neg h6] at h
    by_cases ha : a 0 = 0xfe
    · rw [if_pos ha] at h
      have hp : x.pick6 (a :: as') = x.pick6 as' := by
        rw [IfScan.pick6, IfScan.pick6, if_neg h6, if_neg h6, List.find?_cons_of_neg (by simp [ha])]
      cases hll : x.ll with
      | none =>
        rw [if_pos hll] at h
        refine ⟨h.sip4, h.v4, h.set4, hp ▸ h.sip6, hp ▸ h.v6, hp ▸ h.set6, fun hno => ?_⟩
        rw [h.ll hno, hll]
        rfl
      | some b =>
        rw [if_neg (by rw [hll]; simp)] at h
        refine ⟨h.sip4, h.v4, h.set4, hp ▸ h.sip6, hp ▸ h.v6, hp ▸ h.set6, fun hno => ?_⟩
        rw [h.ll hno, hll]
        rfl
    · rw [if_neg ha] at h
      have hp : x.pick6 (a :: as') = some a := by
        rw [IfScan.pick6, if_neg h6]
        exact List.find?_cons_of_pos (decide_eq_true ha)
      refine ⟨h.sip4, h.v4, h.set4, ?_, ?_, ?_, fun hno => ?_⟩
      · rw [hp]
        exact h.sip6
      · rw [hp, h.v6]
        simp
      · rw [hp, h.set6]
        simp
      · rw [h.set6] at hno
        exact absurd hno (by simp)

/-- **What the loop picks.** -/
theorem ifaddrLoop_scanned (ifname : List Byte) (l : List Ifaddrs) (x : IfScan) :
    Scanned x (v4Addrs ifname l) (v6Addrs ifname l) (ifaddrLoop ifname l x) := by
  induction l generalizing x with
  | nil => exact .refl (Or.inr rfl) (Or.inr rfl)
  | cons ifap l ih =>
    rw [ifaddrLoop]
    by_cases hset : x.set4 = true ∧ x.set6 = true
    · rw [if_pos hset]
      exact .refl (Or.inl hset.1) (Or.inl hset.2)
    rw [if_neg hset]
    cases ifap with
    | mk name addr =>
    rw [v4Addrs, v6Addrs, List.filterMap_cons, List.filterMap_cons]
    cases addr with
    | none => exact ih x
    | some sa =>
      dsimp only
      by_cases hname : name = ifname
      · rw [if_pos hname]
        cases sa with
        | inet a =>
          simp only [Ifaddrs.v4, Ifaddrs.v6, if_pos hname]
          exact .inet (ih _)
        | inet6 a =>
          simp only [Ifaddrs.v4, Ifaddrs.v6, if_pos hname]
          exact .inet6 (ih _)
        | other => exact ih x
      · rw [if_neg hname]
        have h4 : Ifaddrs.v4 ifname ⟨name, some sa⟩ = none := by
          cases sa <;> first | exact if_neg hname | rfl
        have h6 : Ifaddrs.v6 ifname ⟨name, some sa⟩ = none := by
          cases sa <;> first | exact if_neg hname | rfl
        rw [h4, h6]
        exact ih x

/-! ## The structure -/

theorem sourceAddr6_eq_head? {as : List In6Addr} (h : as.find? (fun a => a 0 ≠ 0xfe) = none) :
    sourceAddr6 as = as.head? := by
  rw [sourceAddr6, h, Option.none_or]
  cases as with
  | nil => rfl
  | cons a as =>
    have ha := List.find?_eq_none.mp h a List.mem_cons_self
    refine List.find?_cons_of_pos (decide_eq_true ?_)
    exact not_not.mp (of_decide_eq_false (by simpa using ha))

theorem getIfaddrInfo_fields (hwaddr : Option Mac) (ifname : List Byte) (l : List Ifaddrs)
    (ifd : Ifdata) :
    (getIfaddrInfo (some l) hwaddr ifname ifd).v4Enable =
        (ifd.v4Enable || (v4Addrs ifname l).head?.isSome) ∧
      (getIfaddrInfo (some l) hwaddr ifname ifd).sip4 =
        (v4Addrs ifname l).head?.getD ifd.sip4 ∧
      (getIfaddrInfo (some l) hwaddr ifname ifd).v6Enable =
        (ifd.v6Enable || (sourceAddr6 (v6Addrs ifname l)).isSome) ∧
      (getIfaddrInfo (some l) hwaddr ifname ifd).sip6 =
        (sourceAddr6 (v6Addrs ifname l)).getD ifd.sip6 := by
  have h := ifaddrLoop_scanned ifname l ⟨ifd, false, false, none⟩
  unfold getIfaddrInfo
  dsimp only
  generalize ifaddrLoop ifname l ⟨ifd, false, false, none⟩ = x at h
  cases hg : (v6Addrs ifname l).find? fun a => a 0 ≠ 0xfe with
  | some g =>
    have hp : IfScan.pick6 ⟨ifd, false, false, none⟩ (v6Addrs ifname l) = some g := hg
    have hset : x.set6 = true := by rw [h.set6, hp]; rfl
    have hsrc : sourceAddr6 (v6Addrs ifname l) = some g := by rw [sourceAddr6, hg]; rfl
    have hv6 := h.v6
    have hsip6 := h.sip6
    rw [hp] at hv6 hsip6
    rw [hset, hsrc]
    cases x.ll with
    | none => exact ⟨h.v4, h.sip4, hv6, hsip6⟩
    | some ll => exact ⟨h.v4, h.sip4, hv6, hsip6⟩
  | none =>
    have hp : IfScan.pick6 ⟨ifd, false, false, none⟩ (v6Addrs ifname l) = none := hg
    have hset : x.set6 = false := by rw [h.set6, hp]; rfl
    have hll : x.ll = (v6Addrs ifname l).head? := h.ll hset
    have hv6 := h.v6
    have hsip6 := h.sip6
    rw [hp] at hv6 hsip6
    rw [sourceAddr6_eq_head? hg, hll, hset]
    cases (v6Addrs ifname l).head? with
    | none => exact ⟨h.v4, h.sip4, hv6, hsip6⟩
    | some a => exact ⟨h.v4, h.sip4, (Bool.or_true _).symm, rfl⟩

theorem isSome_sourceAddr6 (as : List In6Addr) : (sourceAddr6 as).isSome = true ↔ as ≠ [] := by
  cases as with
  | nil => exact ⟨fun h => absurd h (by decide), fun h => absurd rfl h⟩
  | cons a as =>
    refine ⟨fun _ => List.cons_ne_nil a as, fun _ => ?_⟩
    rw [sourceAddr6, Option.isSome_or]
    by_cases ha : a 0 = 0xfe
    · have hf : (a :: as).find? (fun a => a 0 = 0xfe) = some a :=
        List.find?_cons_of_pos (decide_eq_true ha)
      rw [hf, Option.isSome_some, Bool.or_true]
    · have hf : (a :: as).find? (fun a => a 0 ≠ 0xfe) = some a :=
        List.find?_cons_of_pos (decide_eq_true ha)
      rw [hf, Option.isSome_some, Bool.true_or]

/-- **`get_ifaddr_info` leaves what the list says** exactly if a flag that was set before still has
an address. -/
theorem getIfaddrInfo_current_iff (hwaddr : Option Mac) (ifname : List Byte) (l : List Ifaddrs)
    (ifd : Ifdata) : Current ifname l (getIfaddrInfo (some l) hwaddr ifname ifd) ↔
      (ifd.v4Enable = true → v4Addrs ifname l ≠ []) ∧
        (ifd.v6Enable = true → v6Addrs ifname l ≠ []) := by
  obtain ⟨h1, h2, h3, h4⟩ := getIfaddrInfo_fields hwaddr ifname l ifd
  have hhead : (v4Addrs ifname l).head?.isSome = true ↔ v4Addrs ifname l ≠ [] := by
    cases v4Addrs ifname l <;> simp
  constructor
  · intro h
    refine ⟨fun he => h.v4.mp ?_, fun he => h.v6.mp ?_⟩
    · rw [h1, he, Bool.true_or]
    · rw [h3, he, Bool.true_or]
  · rintro ⟨hv4, hv6⟩
    refine ⟨?_, fun a ha => ?_, ?_, fun a ha => ?_⟩
    · rw [h1, Bool.or_eq_true, hhead]
      exact ⟨fun h => h.elim hv4 id, Or.inr⟩
    · rw [h2, ha]
      rfl
    · rw [h3, Bool.or_eq_true, isSome_sourceAddr6]
      exact ⟨fun h => h.elim hv6 id, Or.inr⟩
    · rw [h4, ha]
      rfl

end

/-! ## A reload -/

/-- `get_interface_info` of the front translator: one interface and `vip_mode`. -/
def getInterfaceInfoFront (h : Host) (props : Props) (ifIn : Ifdata) : Ifdata × Bool :=
  let prop := anycastGetProperties props
  let nameIn := ifnameOf props keyIfnameIngress ifnameIngressDefault
  let ifIn := getIfaddrInfo (h.getifaddrs 0) (h.hwaddr nameIn) nameIn ifIn
  if BitVec.ofInt 32 (anycastGetPropertiesInt props keyVipMode) = 1 then
    (setFmmac (readVip6 h.pton (prop keyVip6) (readVip4 h.pton (prop keyVip4) ifIn)), true)
  else (setFmmac (realVip ifIn), false)

def addrHost : Host where
  pton := ptonV4
  getifaddrs _ := some [⟨ifnameIngressDefault, some (.inet ![10, 0, 0, 1])⟩]
  hwaddr _ := none

def bareHost : Host := { addrHost with getifaddrs := fun _ => some [] }

def zeroIfdata : Ifdata := ⟨0, 0, false, false, 0, 0, 0, 0, 0⟩

/-- **A reload keeps the address that has been removed**: the first call of `get_interface_info`
sees it, the second one has an empty list. -/
theorem reload_stale :
    (getInterfaceInfoFront bareHost []
        (getInterfaceInfoFront addrHost [] zeroIfdata).1).1.v4Enable = true ∧
      ¬ ∀ hwaddr ifname l ifd, Current ifname l (getIfaddrInfo (some l) hwaddr ifname ifd) := by
  refine ⟨rfl, fun h => ?_⟩
  have hv4 := (h none ifnameIngressDefault [] (getInterfaceInfoFront addrHost [] zeroIfdata).1).v4
  exact hv4.mp rfl rfl

end Sasat
