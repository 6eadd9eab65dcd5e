import Sasat.Common.ArpProc

/-!
# The classes of received frames

The three receive functions sort their frames by the same tests, in front of anything that they do.

* `FrameClass`, `frameClass`: the classes, with the test for a complete IPv4 header as a parameter.
* `FrameClass.Says`: what the class of a frame says about it; `frameClass_spec`: it does.
* `frameClass_bind`: the tests as the receive functions write them.
* **`frameClass_post`**: what is done with a frame is shown class by class.
-/

namespace Sasat

open Outcome

/-- What a frame is taken for. -/
inductive FrameClass
  | own | multicast | v4 | short4 | v6 | ns | short6 | arp | noip
  deriving DecidableEq

/-- The tests of the three functions, with the MAC address of the interface and the test for a
complete IPv4 header. -/
def frameClass (mac : Mac) (whole4 : Bool) (lim : ℕ) (b : Buf) (len : ℕ) : M FrameClass :=
  if hSource b = mac then .ok .own
  else if isMulticast (hDest b) then .ok .multicast
  else if hProto b = ethPIp then .ok (if whole4 then .v4 else .short4)
  else if hProto b = ethPIpv6 then
    if 54 < len then do
      let ns ← isIcmp6Ns lim b len
      .ok (if ns then .ns else .v6)
    else .ok .short6
  else if hProto b = ethPArp then .ok .arp
  else .ok .noip

/-- A frame from another host to one host. -/
structure Arrives (mac : Mac) (b : Buf) : Prop where
  foreign : hSource b ≠ mac
  unicast : isMulticast (hDest b) = false

/-- What the class of a frame says about it. -/
def FrameClass.Says (mac : Mac) (whole4 : Bool) (lim : ℕ) (b : Buf) (len : ℕ) : FrameClass → Prop
  | own => hSource b = mac
  | multicast => hSource b ≠ mac ∧ isMulticast (hDest b) = true
  | v4 => Arrives mac b ∧ hProto b = ethPIp ∧ whole4 = true
  | short4 => Arrives mac b ∧ hProto b = ethPIp ∧ whole4 = false
  | v6 => Arrives mac b ∧ hProto b = ethPIpv6 ∧ 54 < len ∧ isIcmp6Ns lim b len = .ok false
  | ns => Arrives mac b ∧ hProto b = ethPIpv6 ∧ 54 < len ∧ isIcmp6Ns lim b len = .ok true
  | short6 => Arrives mac b ∧ hProto b = ethPIpv6 ∧ ¬ 54 < len
  | arp => Arrives mac b ∧ hProto b = ethPArp
  | noip => Arrives mac b ∧ hProto b ≠ ethPIp ∧ hProto b ≠ ethPIpv6 ∧ hProto b ≠ ethPArp

variable {lim len : ℕ} {b : Buf} {mac : Mac} {whole4 : Bool}

theorem frameClass_spec {c : FrameClass} (h : frameClass mac whole4 lim b len = .ok c) :
    c.Says mac whole4 lim b len := by
  unfold frameClass at h
  by_cases hsrc : hSource b = mac
  · rw [if_pos hsrc] at h
    cases h
    exact hsrc
  rw [if_neg hsrc] at h
  by_cases hmc : isMulticast (hDest b) = true
  · rw [if_pos hmc] at h
    cases h
    exact ⟨hsrc, hmc⟩
  rw [if_neg hmc] at h
  have harr : Arrives mac b := ⟨hsrc, Bool.eq_false_iff.mpr hmc⟩
  by_cases h4 : hProto b = ethPIp
  · rw [if_pos h4] at h
    cases whole4 with
    | true =>
      cases h
      exact ⟨harr, h4, rfl⟩
    | false =>
      cases h
      exact ⟨harr, h4, rfl⟩
  rw [if_neg h4] at h
  by_cases h6 : hProto b = ethPIpv6
  · rw [if_pos h6] at h
    by_cases hlen : 54 < len
    · rw [if_pos hlen] at h
      obtain ⟨ns, hns, h⟩ := bind_eq_ok.mp h
      cases ns with
      | true =>
        cases h
        exact ⟨harr, h6, hlen, hns⟩
      | false =>
        cases h
        exact ⟨harr, h6, hlen, hns⟩
    · rw [if_neg hlen] at h
      cases h
      exact ⟨harr, h6, hlen⟩
  rw [if_neg h6] at h
  by_cases harp : hProto b = ethPArp
  · rw [if_pos harp] at h
    cases h
    exact ⟨harr, harp⟩
  · rw [if_neg harp] at h
    cases h
    exact ⟨harr, h4, h6, harp⟩

theorem frameClass_bind {α : Type} (f : FrameClass → M α) :
    frameClass mac whole4 lim b len >>= f =
      if hSource b = mac then f .own
      else if isMulticast (hDest b) then f .multicast
      else if hProto b = ethPIp then if whole4 then f .v4 else f .short4
      else if hProto b = ethPIpv6 then
        if 54 < len then isIcmp6Ns lim b len >>= fun ns => if ns then f .ns else f .v6
        else f .short6
      else if hProto b = ethPArp then f .arp
      else f .noip := by
  unfold frameClass
  split_ifs
  · rfl
  · rfl
  · rfl
  · rfl
  · cases isIcmp6Ns lim b len with
    | error e => rfl
    | ok ns => cases ns <;> rfl
  · rfl
  · rfl
  · rfl

/-- **What is done with a frame is shown class by class.** -/
theorem frameClass_post {α : Type} {P : α → Prop} {f : FrameClass → M α}
    (h : ∀ c : FrameClass, c.Says mac whole4 lim b len → Post P (fun _ => True) (f c)) :
    Post P (fun _ => True) (frameClass mac whole4 lim b len >>= f) := by
  cases hc : frameClass mac whole4 lim b len with
  | error e => trivial
  | ok c => exact h c (frameClass_spec hc)

end Sasat
