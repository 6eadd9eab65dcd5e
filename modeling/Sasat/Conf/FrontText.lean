import Sasat.Conf.Life
import Sasat.Front.Handover
import Sasat.Conf.PropInit
import Sasat.Translate.Relay

/-!
# From both texts to the packets of the front translator

In the virtual IP mode the configuration file says for which addresses packets are taken, and the
policy file where they go.

* `readVip_v4`, `readVip_v6`: an enabled family has the address that is read.
* `TextLife.ifIngress`, `TextLife.vips`: the addresses that are in use.
* `frontIngress1_taken`: a packet that is forwarded was for one of them.
* **`front_configured`**: every packet that is forwarded goes by the two files.
-/

namespace Sasat

open Outcome

section

variable {pton : InetPton} {str4 str6 : Option (List Byte)} {ifd i : Ifdata} {bytes : List Byte}
  {s s' : FrontState} {b b' : Buf} {lim len : ℕ} {o : ℕ → MacOutcomes} {tsc : BitVec 64} {x : Tx}

/-! ## The addresses in use -/

theorem hasOwn_self (ifd : Ifdata) : HasOwn (if ifd.v4Enable then some ifd.sip4 else none)
    (if ifd.v6Enable then some ifd.sip6 else none) ifd where
  v4 := by cases ifd.v4Enable <;> rfl
  sip4 a h := by
    split_ifs at h
    exact Option.some.inj h
  v6 := by cases ifd.v6Enable <;> rfl
  sip6 a h := by
    split_ifs at h
    exact Option.some.inj h

/-- **An enabled family has the address that is read.** -/
theorem readVip_v4 (h : (setFmmac (readVip6 pton str6 (readVip4 pton str4 ifd))).v4Enable = true) :
    str4.bind pton.v4 = some (setFmmac (readVip6 pton str6 (readVip4 pton str4 ifd))).vip4 := by
  have hv := (hasOwn_self ifd).readVip pton str4 str6
  rw [hv.v4, Option.isSome_iff_exists] at h
  obtain ⟨a, ha⟩ := h
  rw [hv.vip4 a ha]
  obtain ⟨own, -, ha⟩ := Option.bind_eq_some_iff.mp ha
  exact ha

theorem readVip_v6 (h : (setFmmac (readVip6 pton str6 (readVip4 pton str4 ifd))).v6Enable = true) :
    str6.bind pton.v6 = some (setFmmac (readVip6 pton str6 (readVip4 pton str4 ifd))).vip6 := by
  have hv := (hasOwn_self ifd).readVip pton str4 str6
  rw [hv.v6, Option.isSome_iff_exists] at h
  obtain ⟨a, ha⟩ := h
  rw [hv.vip6 a ha]
  obtain ⟨own, -, ha⟩ := Option.bind_eq_some_iff.mp ha
  exact ha

/-- **The interface is the one that was read last.** -/
theorem TextLife.ifIngress (h : TextLife pton i bytes s) : s.ifIngress = i := by
  induction h with
  | @start stale c k i m bytes pool4 pool6 mem s hg hrun =>
    obtain ⟨s₁, hinit, -, huniq⟩ := @startText_eq pton stale c i m bytes hg pool4 pool6 mem
    obtain rfl := huniq k s hrun
    obtain ⟨lb4, -, hinit⟩ := bind_eq_ok.mp hinit
    obtain ⟨lb6, -, hinit⟩ := bind_eq_ok.mp hinit
    cases hinit
    rfl
  | @reload stale c k i i' m bytes bytes' s s' _ hg hrun ih =>
    obtain ⟨s₁, hstep, -, huniq⟩ := @reloadText_eq pton stale c i' m bytes' hg s
    obtain rfl := huniq k s' hrun
    obtain ⟨lb4, -, hstep⟩ := bind_eq_ok.mp hstep
    obtain ⟨lb6, -, hstep⟩ := bind_eq_ok.mp hstep
    cases hstep
    rfl
  | recv lim o tsc len hprev hrun ih =>
    obtain ⟨c, hlife⟩ := hprev.life
    have hh := (frontIngress1_handled hlife.reach.inv.1 lim o tsc _ len).of_ok hrun
    exact hh.ifIngress.trans ih
  | patrol hprev hrun ih =>
    obtain ⟨c, hlife⟩ := hprev.life
    exact (procPatrol_handled hlife.reach.inv.1 hrun).ifIngress.trans ih

theorem TextLife.vips (h : TextLife pton i bytes s) : s.vip4 = i.vip4 ∧ s.vip6 = i.vip6 := by
  obtain ⟨c, hlife⟩ := h.life
  obtain ⟨-, hc, -⟩ := hlife.reach.inv
  rw [hc.vip4, hc.vip6, h.ifIngress]
  exact ⟨rfl, rfl⟩

/-! ## The packets -/

/-- **A packet that is forwarded was for a virtual address.** -/
theorem frontIngress1_taken (hs : FrontInv s) (hc : FrontConfig s)
    (hrun : frontIngress1 lim o tsc b len s = .ok (b', s')) (htx : s'.io.tx = s.io.tx ++ [x]) :
    (x.sender = .procV4 → ipDst b = s.vip4) ∧ (x.sender = .procV6 → ip6Dst b = s.vip6) := by
  have hrecv : s.recv ⟨lim, o, tsc, b, len⟩ = .ok s' := bind_eq_ok.mpr ⟨_, hrun, rfl⟩
  have hsent := (FrontState.recv_sent hs hc hrecv).2.of_eq htx
  refine ⟨fun hx => ?_, fun hx => ?_⟩
  · obtain ⟨new, hst⟩ := hsent.v4 hx
    exact hst.dst
  · obtain ⟨new, hst⟩ := hsent.v6 hx
    exact hst.dst

theorem textServer_enabled {n : ℕ} {accept : List Byte → Option (Fin n → Byte)} {enable : Bool}
    {ls : List (List Byte)} {a ip : Fin n → Byte} (h : textServer accept enable ls a = some ip) :
    enable = true := by
  cases enable with
  | true => rfl
  | false => cases h

/-- **The front translator dispatches by its two files.** In the virtual IP mode, whatever has
happened since it was started, a packet that it forwards was for the address that the configuration
gives, and goes to the server of the first line of the policy file that matches its source. -/
theorem front_configured {h : Host} {file : Option (List Byte)}
    (hg : ∀ bytes ∈ file, GoodConf bytes) {stale : ℕ → List Byte} {k : ℕ} {props : List PropData}
    (hread : anycastPropInit propDbFront stale k (openPropFile file) = .ok props)
    (hmode : confVipMode (confValue propDbFront file) = true) {prev : Ifdata}
    (hlife : TextLife h.pton (getInterfaceInfoFront h (propPairs props) prev).1 bytes s)
    (hrun : frontIngress1 lim o tsc b len s = .ok (b', s')) (htx : s'.io.tx = s.io.tx ++ [x]) :
    (x.sender = .procV4 →
      (confValue propDbFront file keyVip4).bind h.pton.v4 = some (ipDst b) ∧
        textServer h.pton.v4 true (givenLines 256 skipPolicy bytes) (ipSrc b) =
          some (ipDst (recvBuf x.bytes))) ∧
    (x.sender = .procV6 →
      (confValue propDbFront file keyVip6).bind h.pton.v6 = some (ip6Dst b) ∧
        textServer h.pton.v6 true (givenLines 256 skipPolicy bytes) (ip6Src b) =
          some (ip6Dst (recvBuf x.bytes))) := by
  obtain ⟨c, hfront⟩ := hlife.life
  obtain ⟨hs, hc, -⟩ := hfront.reach.inv
  obtain ⟨h4, h6⟩ := dispatch_refined hfront hrun htx
  obtain ⟨ht4, ht6⟩ := frontIngress1_taken hs hc hrun htx
  obtain ⟨hv4, hv6⟩ := hlife.vips
  have hconf : anycastGetProperties (propPairs props) = confValue propDbFront file :=
    funext (anycastPropInit_reads propDb_noNul.1 hg hread)
  have hi : (getInterfaceInfoFront h (propPairs props) prev).1 =
      setFmmac (readVip6 h.pton (confValue propDbFront file keyVip6)
        (readVip4 h.pton (confValue propDbFront file keyVip4)
          (getIfaddrInfo (h.getifaddrs 0)
            (h.hwaddr (ifnameOf (propPairs props) keyIfnameIngress ifnameIngressDefault))
            (ifnameOf (propPairs props) keyIfnameIngress ifnameIngressDefault) prev))) := by
    rw [← hconf] at hmode
    unfold getInterfaceInfoFront
    dsimp only
    rw [if_pos ((confVipMode_iff _).mp hmode), hconf]
  rw [hi] at h4 h6 hv4 hv6
  refine ⟨fun hx => ?_, fun hx => ?_⟩
  · have hsvr := (dispatch_policyLines c _ _).symm.trans (h4 hx)
    have hen := textServer_enabled hsvr
    rw [hen] at hsvr
    exact ⟨by rw [ht4 hx, hv4, readVip_v4 hen], hsvr⟩
  · have hsvr := (dispatch_policyLines c _ _).symm.trans (h6 hx)
    have hen := textServer_enabled hsvr
    rw [hen] at hsvr
    exact ⟨by rw [ht6 hx, hv6, readVip_v6 hen], hsvr⟩

end

def frontHost : Host where
  pton := ptonV4
  getifaddrs _ := some [⟨ifnameIngressDefault, some (.inet ![10, 0, 0, 9])⟩]
  hwaddr _ := some ![2, 0, 0, 0, 0, 1]

/-- The lines `vip_mode=1` and `in.ip4=10.0.0.1`. -/
def frontConf : List Byte := bytesOf "vip_mode=1\nin.ip4=10.0.0.1\n"

theorem front_configured_sample : ∃ x : Tx, x.sender = .procV4 ∧
    (confValue propDbFront (some frontConf) keyVip4).bind ptonV4.v4 = some (ipDst sampleFrame) ∧
      textServer ptonV4.v4 true (givenLines 256 skipPolicy sampleText) (ipSrc sampleFrame) =
        some (ipDst (recvBuf x.bytes)) := by
  have hgood : ∀ bytes ∈ some frontConf, GoodConf bytes := by
    rintro _ ⟨⟩
    have hlines : givenLines 128 skipProperty frontConf =
        [bytesOf "vip_mode=1\n", bytesOf "in.ip4=10.0.0.1\n"] := by decide
    refine ⟨by decide, fun l hl => ?_⟩
    rw [hlines, List.mem_cons, List.mem_singleton] at hl
    rcases hl with hl | hl
    · exact ⟨bytesOf "vip_mode=1", hl, by decide, by decide⟩
    · exact ⟨bytesOf "in.ip4=10.0.0.1", hl, by decide, by decide⟩
  obtain ⟨props, hread, hif⟩ : ∃ props, anycastPropInit propDbFront (fun _ => []) 3
      (openPropFile (some frontConf)) = .ok props ∧
        (getInterfaceInfoFront frontHost (propPairs props) { zeroIfdata with sockfd := 3 }).1 =
          sampleIf ![10, 0, 0, 1] := ⟨_, rfl, rfl⟩
  obtain ⟨s, s', b', x, hlife, hrun, htx, hx⟩ := sample_textLife
  rw [← hif] at hlife
  exact ⟨x, hx, (front_configured (h := frontHost) hgood hread (by decide) hlife hrun htx).1 hx⟩

end Sasat
