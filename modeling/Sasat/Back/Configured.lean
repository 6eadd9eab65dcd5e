import Sasat.Conf.PropInit
import Sasat.Back.Forward

/-!
# From the text of the configuration to the server

The backend reads its configuration once. What it translates ever after is what the text says.

* `Setup`: the addresses of a family, for the clients and for the server; `setup4`, `setup6`: as the
  configuration and the addresses of the interfaces say.
* `Configured`: the backend is set up for them; **`start_configured`**, **`BackRun.configured`**.
* `ToServer`: what is written to the server goes by the setup; **`back_configured`**: in every
  state.
* `no_file_no_ipv4`: the built-in table disables IPv4.
-/

namespace Sasat

open Outcome

/-! ## The addresses of a family -/

/-- The addresses of a family: those under which the two interfaces take packets, and the one of the
server. -/
structure Setup (A : Type) where
  ingress : Option A
  egress : Option A
  server : Option A

def Setup.enabled {A : Type} (x : Setup A) : Bool :=
  x.ingress.isSome && x.egress.isSome && x.server.isSome

section

variable (h : Host) (conf : List Byte → Option (List Byte))

/-- The IPv4 addresses, as the configuration and the addresses of the interfaces say. -/
def setup4 : Setup InAddr where
  ingress := ifAddr (confVipMode conf)
    (v4Addrs (confIfname conf keyIfnameIngress ifnameIngressDefault)
      ((h.getifaddrs 0).getD [])).head? ((conf keyVip4).bind h.pton.v4)
  egress := ifAddr (confVipMode conf)
    (v4Addrs (confIfname conf keyIfnameEgress ifnameEgressDefault) (h.ifap0.getD [])).head?
    ((conf keyEgressIp4).bind h.pton.v4)
  server := (conf keySvrIp4).bind h.pton.v4

def setup6 : Setup In6Addr where
  ingress := ifAddr (confVipMode conf)
    (sourceAddr6 (v6Addrs (confIfname conf keyIfnameIngress ifnameIngressDefault)
      ((h.getifaddrs 0).getD []))) ((conf keyVip6).bind h.pton.v6)
  egress := ifAddr (confVipMode conf)
    (sourceAddr6 (v6Addrs (confIfname conf keyIfnameEgress ifnameEgressDefault)
      (h.ifap0.getD []))) ((conf keyEgressIp6).bind h.pton.v6)
  server := (conf keySvrIp6).bind h.pton.v6

end

/-- **What `get_interface_info` finds** at the start. -/
theorem getInterfaceInfo_setup (h : Host) {props : Props} {conf : List Byte → Option (List Byte)}
    (hconf : ∀ key, anycastGetProperties props key = conf key) :
    HasVips (setup4 h conf).ingress (setup6 h conf).ingress
        (getInterfaceInfo h props BackBoot.zeroIf BackBoot.zeroIf).1 ∧
      HasVips (setup4 h conf).egress (setup6 h conf).egress
        (getInterfaceInfo h props BackBoot.zeroIf BackBoot.zeroIf).2.1 := by
  obtain rfl : anycastGetProperties props = conf := funext hconf
  have hvip := confVipMode_iff props
  unfold getInterfaceInfo
  dsimp only
  by_cases hmode : confVipMode (anycastGetProperties props) = true
  · rw [if_pos (hvip.mp hmode), setup4, setup6, hmode]
    exact ⟨(getIfaddrInfo_own ..).readVip .., (getIfaddrInfo_own ..).readVip ..⟩
  · rw [if_neg (hvip.not.mp hmode), setup4, setup6, Bool.eq_false_iff.mpr hmode]
    exact ⟨(getIfaddrInfo_own ..).realVip, (getIfaddrInfo_own ..).realVip⟩

/-! ## The backend -/

/-- The backend is set up for the addresses of the two families. -/
structure Configured (x4 : Setup InAddr) (x6 : Setup In6Addr) (s : BackState) : Prop where
  enable4 : s.ifIngress.v4Enable = x4.enabled
  enable6 : s.ifIngress.v6Enable = x6.enabled
  in4 : ∀ a, x4.ingress = some a → s.ifIngress.vip4 = a
  in6 : ∀ a, x6.ingress = some a → s.ifIngress.vip6 = a
  eg4 : ∀ a, x4.egress = some a → s.ifEgress.vip4 = a
  eg6 : ∀ a, x6.egress = some a → s.ifEgress.vip6 = a
  svr4 : ∀ a, x4.server = some a → s.svrInfo.svrIp4 = a
  svr6 : ∀ a, x6.server = some a → s.svrInfo.svrIp6 = a

section

variable {x4 : Setup InAddr} {x6 : Setup In6Addr} {s s' : BackState} {boot : BackBoot}

theorem Configured.kept (h : Configured x4 x6 s) (hk : BackKept s s') : Configured x4 x6 s' := by
  refine ⟨?_, ?_, ?_, ?_, ?_, ?_, ?_, ?_⟩
  · exact hk.ifIngress ▸ h.enable4
  · exact hk.ifIngress ▸ h.enable6
  · exact hk.ifIngress ▸ h.in4
  · exact hk.ifIngress ▸ h.in6
  · exact hk.ifEgress ▸ h.eg4
  · exact hk.ifEgress ▸ h.eg6
  · exact hk.svrIp4 ▸ h.svr4
  · exact hk.svrIp6 ▸ h.svr6

theorem getSvrInfo_read (ip4 : Option InAddr) (ip6 : Option In6Addr) (o4 o6 : MacOutcomes)
    (s : BackState) : (getSvrInfo ip4 ip6 o4 o6 s).svrInfo.v4Enable = ip4.isSome ∧
      (getSvrInfo ip4 ip6 o4 o6 s).svrInfo.v6Enable = ip6.isSome ∧
      (∀ a, ip4 = some a → (getSvrInfo ip4 ip6 o4 o6 s).svrInfo.svrIp4 = a) ∧
      ∀ a, ip6 = some a → (getSvrInfo ip4 ip6 o4 o6 s).svrInfo.svrIp6 = a := by
  unfold getSvrInfo
  cases ip4 with
  | none =>
    cases ip6 with
    | none => exact ⟨rfl, rfl, nofun, nofun⟩
    | some a6 => exact ⟨rfl, rfl, nofun, fun _ => Option.some.inj⟩
  | some a4 =>
    cases ip6 with
    | none => exact ⟨rfl, rfl, fun _ => Option.some.inj, nofun⟩
    | some a6 =>
      dsimp only
      split_ifs
      · exact ⟨rfl, rfl, fun _ => Option.some.inj, fun _ => Option.some.inj⟩
      · exact ⟨rfl, rfl, fun _ => Option.some.inj, fun _ => Option.some.inj⟩

/-- **The start comes to the setup** that the configuration and the host say. -/
theorem start_configured {conf : List Byte → Option (List Byte)}
    (hconf : ∀ key, anycastGetProperties boot.props key = conf key) :
    Configured (setup4 boot.host conf) (setup6 boot.host conf) boot.start := by
  obtain ⟨hin, heg⟩ := getInterfaceInfo_setup boot.host hconf
  have hsvr4 : boot.svrIp4 = (setup4 boot.host conf).server := by rw [BackBoot.svrIp4, hconf]; rfl
  have hsvr6 : boot.svrIp6 = (setup6 boot.host conf).server := by rw [BackBoot.svrIp6, hconf]; rfl
  obtain ⟨hv4, hv6, h4, h6⟩ := getSvrInfo_read boot.svrIp4 boot.svrIp6 boot.o4 boot.o6
    { boot.mem with clientInfo := initClientTable boot.starttime boot.tsc }
  have hv4 := hv4.trans (congrArg Option.isSome hsvr4)
  have hv6 := hv6.trans (congrArg Option.isSome hsvr6)
  have hmerged : Configured (setup4 boot.host conf) (setup6 boot.host conf) boot.merged := by
    refine ⟨?_, ?_, hin.vip4, hin.vip6, heg.vip4, heg.vip6, fun a ha => h4 a (hsvr4.trans ha),
      fun a ha => h6 a (hsvr6.trans ha)⟩
    · rw [Setup.enabled, ← hin.v4, ← heg.v4, ← hv4]
      rfl
    · rw [Setup.enabled, ← hin.v6, ← heg.v6, ← hv6]
      rfl
  exact hmerged.kept (boot.start_rel backKept_rel)

/-- **It holds ever after.** -/
theorem BackRun.configured {conf : List Byte → Option (List Byte)} (h : BackRun boot s)
    (hconf : ∀ key, anycastGetProperties boot.props key = conf key) :
    Configured (setup4 boot.host conf) (setup6 boot.host conf) s := by
  induction h with
  | init => exact start_configured hconf
  | step x _ hrun ih => exact ih.kept ((x.step_rel backKept_rel _).of_ok hrun)

/-! ## The packets -/

variable {lim : ℕ} {r : Resolution} {tsc : BitVec 64} {b b' : Buf} {len : ℕ}

/-- **Without a file IPv4 is disabled**: `inet_pton` takes no address with a comma. -/
theorem no_file_no_ipv4 {stale : ℕ → List Byte} {k : ℕ} {props : List PropData}
    (hread : anycastPropInit propDbBackend stale k (openPropFile none) = .ok props)
    (hprops : boot.props = propPairs props) (h : BackRun boot s) :
    s.ifIngress.v4Enable = false := by
  have hconf : ∀ key, anycastGetProperties boot.props key = confValue propDbBackend none key :=
    fun key => hprops ▸ anycastPropInit_reads propDb_noNul.2 (fun _ hb => by cases hb) hread key
  have hserver : (setup4 boot.host (confValue propDbBackend none)).server = none := by
    have hvalue : confValue propDbBackend none keySvrIp4 = some (bytesOf "0.0.0,0") := by decide
    rw [setup4, hvalue, Option.bind_some]
    refine Option.eq_none_iff_forall_ne_some.mpr fun a ha => ?_
    have hdots := (boot.host.pton.dotted _ a ha).2.2
    exact absurd hdots (by decide)
  rw [(h.configured hconf).enable4, Setup.enabled, hserver]
  exact Bool.and_false _

end

end Sasat
