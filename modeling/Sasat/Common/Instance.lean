import Sasat.Conf.Fgets

/-!
# One translator on a host

A translator writes its number into a file, and does not start when the file names a process. The
file stays when the translator ends, and the number may then be that of another process.

* `pidLine`, `pidName`: what `init_pid` writes, and what it reads; **`pidName_pidLine`**.
* `PidHost`, `HostStep`, `HostReach`: processes that come and go, and translators that start.
* `HostInv`: at most one translator is behind the check; **`HostStep.inv`**.
* **`single_instance`**; `overlapping_starts`: checks must not overlap.
-/

namespace Sasat

/-! ## The file -/

/-- A number as `%d` prints it. -/
def pidDigits (pid : ℕ) : List Byte := (Nat.toDigits 10 pid).map fun c => BitVec.ofNat 8 c.toNat

/-- What `init_pid` writes. -/
def pidLine (pid : ℕ) : List Byte := pidDigits pid ++ [newline]

/-- The name that `init_pid` looks up in `/proc`: the line that `fgets` reads, up to the newline.
`stale` is in the buffer when `fgets` fails. -/
def pidName (stale content : List Byte) : List Byte :=
  (((fgets 32 (fopen content false)).1.getD stale).takeWhile (· ≠ 0)).takeWhile (· ≠ newline)

/-- A write at the beginning of a file. -/
def overwrite (content bytes : List Byte) : List Byte := bytes ++ content.drop bytes.length

section

variable {pid : ℕ}

theorem mem_pidDigits {b : Byte} (h : b ∈ pidDigits pid) : b ≠ 0 ∧ b ≠ newline := by
  obtain ⟨c, hc, rfl⟩ := List.mem_map.mp h
  have hdigit := Char.isDigit_iff_toNat.mp (Nat.isDigit_of_mem_toDigits (by decide) (by decide) hc)
  have h0 : '0'.toNat = 48 := rfl
  have h9 : '9'.toNat = 57 := rfl
  have hval : (BitVec.ofNat 8 c.toNat).toNat = c.toNat := by
    rw [BitVec.toNat_ofNat]
    omega
  refine ⟨fun he => ?_, fun he => ?_⟩ <;> rw [he] at hval
  · change 0 = _ at hval
    omega
  · change 10 = _ at hval
    omega

theorem length_pidDigits (h : pid < 2 ^ 31) : (pidDigits pid).length ≤ 10 := by
  rw [pidDigits, List.length_map]
  exact (Nat.length_toDigits_le_iff (by decide) (by decide)).mpr (by omega)

/-- **`init_pid` reads the number that it has written.** -/
theorem pidName_pidLine (h : pid < 2 ^ 31) (stale : List Byte) :
    pidName stale (pidLine pid) = pidDigits pid := by
  have hnl : newline ∉ pidDigits pid := fun hb => (mem_pidDigits hb).2 rfl
  have hlen : (pidDigits pid ++ [newline]).length < 32 := by
    have := length_pidDigits h
    rw [List.length_append, List.length_singleton]
    omega
  rw [pidName, fgets_append hnl hlen rfl, Option.getD_some, List.takeWhile_append_of_pos
    fun b hb => decide_eq_true (mem_pidDigits hb).1]
  exact Lines.takeWhile_terminated hnl []

end

/-! ## The host -/

/-- A process: a translator before `init_pid`, behind its check, or behind `init_pid`; or another
program. -/
inductive Process
  | starting | checked | running | other
  deriving DecidableEq

/-- The file, and the processes by their numbers. -/
structure PidHost where
  pidFile : Option (List Byte)
  procs : ℕ → Option Process

/-- `/proc` has a directory of this name: that of a process, or one of `names`. -/
def PidHost.ProcDir (names : List Byte → Bool) (h : PidHost) (name : List Byte) : Prop :=
  names name = true ∨ ∃ pid, h.procs pid ≠ none ∧ name = pidDigits pid

def PidHost.setProc (h : PidHost) (pid : ℕ) (x : Option Process) : PidHost :=
  { h with procs := Function.update h.procs pid x }

/-- No translator is behind the check of `init_pid` and before its end. -/
def PidHost.Quiet (h : PidHost) : Prop := ∀ pid, h.procs pid ≠ some .checked

/-- One step. `init_pid` first checks the file and empties or creates it, and then writes to it;
where `serial` holds, it is called only when no other call is between the two. -/
inductive HostStep (names : List Byte → Bool) (serial : Prop) (h : PidHost) : PidHost → Prop
  | fork (pid : ℕ) (translator : Bool) : h.procs pid = none → pid < 2 ^ 31 →
      HostStep names serial h (h.setProc pid (some (if translator then .starting else .other)))
  | exit (pid : ℕ) : HostStep names serial h (h.setProc pid none)
  | refuse (pid : ℕ) (stale : List Byte) {content : List Byte} : h.procs pid = some .starting →
      h.pidFile = some content → h.ProcDir names (pidName stale content) →
      HostStep names serial h (h.setProc pid none)
  | check (pid : ℕ) (stale : List Byte) {content : List Byte} : h.procs pid = some .starting →
      h.pidFile = some content → ¬ h.ProcDir names (pidName stale content) → (serial → h.Quiet) →
      HostStep names serial h ({ h with pidFile := some [] }.setProc pid (some .checked))
  | create (pid : ℕ) : h.procs pid = some .starting → h.pidFile = none → (serial → h.Quiet) →
      HostStep names serial h ({ h with pidFile := some [] }.setProc pid (some .checked))
  | write (pid : ℕ) {content : List Byte} : h.procs pid = some .checked →
      h.pidFile = some content → HostStep names serial h
        ({ h with pidFile := some (overwrite content (pidLine pid)) }.setProc pid (some .running))

/-- The states of a host, from one without translators on, whatever the file holds. -/
inductive HostReach (names : List Byte → Bool) (serial : Prop) : PidHost → Prop
  | start {h : PidHost} : (∀ pid x, h.procs pid = some x → x = .other ∧ pid < 2 ^ 31) →
      HostReach names serial h
  | step {h h' : PidHost} : HostReach names serial h → HostStep names serial h h' →
      HostReach names serial h'

/-- The process is a translator behind the check. -/
def Started (h : PidHost) (pid : ℕ) : Prop :=
  h.procs pid = some .checked ∨ h.procs pid = some .running

/-- At most one translator is behind the check. The file is empty, or names it. -/
structure HostInv (h : PidHost) : Prop where
  pid : ∀ pid, h.procs pid ≠ none → pid < 2 ^ 31
  one : ∀ pid pid', Started h pid → Started h pid' → pid' = pid
  empty : ∀ pid, h.procs pid = some .checked → h.pidFile = some []
  named : ∀ pid, h.procs pid = some .running → h.pidFile = some (pidLine pid)

section

variable {names : List Byte → Bool} {h h' : PidHost} {pid pid' : ℕ}

@[simp] theorem setProc_self (h : PidHost) (pid : ℕ) (x : Option Process) :
    (h.setProc pid x).procs pid = x := Function.update_self ..

theorem setProc_of_ne (hne : pid' ≠ pid) (x : Option Process) :
    (h.setProc pid x).procs pid' = h.procs pid' := Function.update_of_ne hne ..

theorem HostInv.setProc (hi : HostInv h) {x : Option Process} (hx : x ≠ none → pid < 2 ^ 31)
    (hnew : x ≠ some .checked ∧ x ≠ some .running) : HostInv (h.setProc pid x) := by
  have hold : ∀ {p : ℕ} {y : Process}, (h.setProc pid x).procs p = some y →
      y = .checked ∨ y = .running → h.procs p = some y := fun {p y} hp hy => by
    by_cases hne : p = pid
    · subst hne
      rw [setProc_self] at hp
      rcases hy with rfl | rfl
      · exact absurd hp hnew.1
      · exact absurd hp hnew.2
    · rwa [setProc_of_ne hne] at hp
  have hpassed : ∀ {p : ℕ}, Started (h.setProc pid x) p → Started h p := fun hp =>
    hp.imp (fun hc => hold hc (.inl rfl)) fun hr => hold hr (.inr rfl)
  refine ⟨fun p hp => ?_, fun p p' hp hp' => hi.one p p' (hpassed hp) (hpassed hp'),
    fun p hp => hi.empty p (hold hp (.inl rfl)), fun p hp => hi.named p (hold hp (.inr rfl))⟩
  by_cases hne : p = pid
  · subst hne
    rw [setProc_self] at hp
    exact hx hp
  · rw [setProc_of_ne hne] at hp
    exact hi.pid p hp

/-- **While a translator runs, no other one passes the check.** -/
theorem HostInv.refused (hi : HostInv h) (hp : h.procs pid = some .running) (stale : List Byte)
    {content : List Byte} (hfile : h.pidFile = some content) :
    h.ProcDir names (pidName stale content) := by
  obtain rfl := Option.some.inj ((hi.named pid hp).symm.trans hfile)
  have hlive : h.procs pid ≠ none := by
    rw [hp]
    exact Option.some_ne_none _
  exact .inr ⟨pid, hlive, pidName_pidLine (hi.pid pid hlive) stale⟩

theorem HostInv.pass (hi : HostInv h) (hp : h.procs pid = some .starting)
    (hnone : ∀ p, ¬ Started h p) :
    HostInv ({ h with pidFile := some [] }.setProc pid (some .checked)) := by
  have hpassed : ∀ p, Started ({ h with pidFile := some [] }.setProc pid (some .checked)) p →
      p = pid := fun p hpp => by
    by_contra hne
    rw [Started, setProc_of_ne hne] at hpp
    exact hnone p hpp
  refine ⟨fun p hpp => ?_, fun p p' h₁ h₂ => (hpassed p' h₂).trans (hpassed p h₁).symm,
    fun p _ => rfl, fun p hpp => ?_⟩
  · by_cases hne : p = pid
    · exact hne ▸ hi.pid pid (by rw [hp]; exact Option.some_ne_none _)
    · rw [setProc_of_ne hne] at hpp
      exact hi.pid p hpp
  · obtain rfl := hpassed p (.inr hpp)
    rw [setProc_self] at hpp
    cases hpp

theorem HostInv.write (hi : HostInv h) (hp : h.procs pid = some .checked) {content : List Byte}
    (hfile : h.pidFile = some content) :
    HostInv ({ h with pidFile := some (overwrite content (pidLine pid)) }.setProc pid
      (some .running)) := by
  have hpassed : ∀ p, Started ({ h with pidFile := some (overwrite content (pidLine pid)) }.setProc
      pid (some .running)) p → p = pid := fun p hpp => by
    by_contra hne
    rw [Started, setProc_of_ne hne] at hpp
    exact hne (hi.one pid p (.inl hp) hpp)
  obtain rfl := Option.some.inj ((hi.empty pid hp).symm.trans hfile)
  have hline : overwrite [] (pidLine pid) = pidLine pid := by
    rw [overwrite, List.drop_nil, List.append_nil]
  refine ⟨fun p hpp => ?_, fun p p' h₁ h₂ => (hpassed p' h₂).trans (hpassed p h₁).symm,
    fun p hpp => ?_, fun p hpp => ?_⟩
  · by_cases hne : p = pid
    · exact hne ▸ hi.pid pid (by rw [hp]; exact Option.some_ne_none _)
    · rw [setProc_of_ne hne] at hpp
      exact hi.pid p hpp
  · obtain rfl := hpassed p (.inl hpp)
    rw [setProc_self] at hpp
    cases hpp
  · obtain rfl := hpassed p (.inr hpp)
    exact congrArg some hline

/-- **Every step keeps the invariant**, if checks do not overlap. -/
theorem HostStep.inv (hi : HostInv h) (hs : HostStep names True h h') : HostInv h' := by
  have hnone : ∀ {stale content : List Byte}, h.pidFile = some content →
      ¬ h.ProcDir names (pidName stale content) → h.Quiet → ∀ p, ¬ Started h p := by
    rintro stale content hfile hdir hquiet p (hp | hp)
    · exact hquiet p hp
    · exact hdir (hi.refused hp stale hfile)
  cases hs with
  | fork pid translator _ hpid =>
    refine hi.setProc (fun _ => hpid) ?_
    cases translator <;> decide
  | exit pid => exact hi.setProc (fun hx => absurd rfl hx) (by decide)
  | refuse pid => exact hi.setProc (fun hx => absurd rfl hx) (by decide)
  | check pid stale hp hfile hdir hquiet =>
    exact hi.pass hp (hnone hfile hdir (hquiet trivial))
  | create pid hp hfile hquiet =>
    refine hi.pass hp ?_
    rintro p (hpp | hpp)
    · exact hquiet trivial p hpp
    · exact absurd ((hi.named p hpp).symm.trans hfile) (Option.some_ne_none _)
  | write pid hp hfile => exact hi.write hp hfile

theorem HostReach.inv (h : HostReach names True h') : HostInv h' := by
  induction h with
  | start hs =>
    refine ⟨fun p hp => ?_, fun p p' hp => ?_, fun p hp => ?_, fun p hp => ?_⟩
    · obtain ⟨x, hx⟩ := Option.ne_none_iff_exists'.mp hp
      exact (hs p x hx).2
    · rcases hp with hp | hp <;> cases (hs p _ hp).1
    · cases (hs p _ hp).1
    · cases (hs p _ hp).1
  | step _ hs ih => exact hs.inv ih

end

/-- **At most one translator runs on a host**, whatever programs start and end, and whatever the
file holds at first, if no two calls of `init_pid` overlap. While it runs, the file names it, and
any other translator that starts is refused. -/
theorem single_instance {names : List Byte → Bool} {h : PidHost} (hr : HostReach names True h)
    {pid : ℕ} (hp : h.procs pid = some .running) :
    (∀ pid', h.procs pid' = some .running → pid' = pid) ∧ h.pidFile = some (pidLine pid) ∧
      ∀ {h' : PidHost} {pid' : ℕ}, HostStep names True h h' → h.procs pid' = some .starting →
        h'.procs pid' = some .starting ∨ h'.procs pid' = none := by
  have hi := hr.inv
  refine ⟨fun pid' hp' => hi.one pid pid' (.inr hp) (.inr hp'), hi.named pid hp,
    fun {h' pid'} hs hp' => ?_⟩
  have hset : ∀ (q : ℕ) {x : Option Process}, x = none →
      (h.setProc q x).procs pid' = some .starting ∨ (h.setProc q x).procs pid' = none :=
      fun q x hx => by
    by_cases hne : pid' = q
    · subst hne
      exact .inr ((setProc_self h pid' x).trans hx)
    · exact .inl ((setProc_of_ne hne x).trans hp')
  cases hs with
  | fork q translator hq _ =>
    have hne : pid' ≠ q := fun he => by
      rw [he, hq] at hp'
      cases hp'
    exact .inl ((setProc_of_ne hne _).trans hp')
  | exit q => exact hset q rfl
  | refuse q => exact hset q rfl
  | check q stale _ hfile hdir => exact absurd (hi.refused hp stale hfile) hdir
  | create q _ hfile =>
    rw [hi.named pid hp] at hfile
    cases hfile
  | write q hq =>
    obtain rfl := hi.one pid q (.inr hp) (.inl hq)
    rw [hp] at hq
    cases hq

/-- The first translator of a host without a file: every other one is refused from then on. -/
theorem single_instance_first : ∃ h : PidHost, h.procs 1 = some .running ∧
    (∀ pid', h.procs pid' = some .running → pid' = 1) ∧ h.pidFile = some [0x31#8, newline] := by
  let h₁ : PidHost := PidHost.setProc ⟨none, fun _ => none⟩ 1 (some .starting)
  let h₂ : PidHost := { h₁ with pidFile := some [] }.setProc 1 (some .checked)
  let h₃ : PidHost :=
    { h₂ with pidFile := some (overwrite [] (pidLine 1)) }.setProc 1 (some .running)
  have r₀ : HostReach (fun _ => false) True ⟨none, fun _ => none⟩ :=
    .start fun _ _ hx => by cases hx
  have r₁ : HostReach (fun _ => false) True h₁ := r₀.step (.fork 1 true rfl (by decide))
  have hquiet : h₁.Quiet := fun pid hp => by
    by_cases hne : pid = 1
    · subst hne
      cases hp
    · rw [setProc_of_ne hne] at hp
      cases hp
  have r₂ : HostReach (fun _ => false) True h₂ := r₁.step (.create 1 rfl rfl fun _ => hquiet)
  have r₃ : HostReach (fun _ => false) True h₃ := r₂.step (.write 1 rfl rfl)
  have hrun : h₃.procs 1 = some .running := rfl
  obtain ⟨hone, hfile, -⟩ := single_instance r₃ hrun
  exact ⟨h₃, hrun, hone, hfile⟩

/-- **Two calls of `init_pid` that overlap**: the second one reads the file that the first has
emptied, finds no process, and both translators run. -/
theorem overlapping_starts {names : List Byte → Bool} {h : PidHost} {pid pid' : ℕ}
    (hp : h.procs pid = some .checked) (hp' : h.procs pid' = some .starting)
    (hfile : h.pidFile = some []) {stale : List Byte}
    (hstale : ¬ h.ProcDir names (pidName stale [])) :
    ∃ h', Relation.ReflTransGen (HostStep names False) h h' ∧
      h'.procs pid = some .running ∧ h'.procs pid' = some .running := by
  have hne : pid ≠ pid' := fun he => by
    rw [he, hp'] at hp
    cases hp
  let h₁ := { h with pidFile := some [] }.setProc pid' (some .checked)
  let h₂ := { h₁ with pidFile := some (overwrite [] (pidLine pid)) }.setProc pid (some .running)
  have s₁ : HostStep names False h h₁ := .check pid' stale hp' hfile hstale False.elim
  have hp₁ : h₁.procs pid = some .checked := (setProc_of_ne hne _).trans hp
  have s₂ : HostStep names False h₁ h₂ := .write pid hp₁ rfl
  have hp₂ : h₂.procs pid' = some .checked := (setProc_of_ne hne.symm _).trans (setProc_self ..)
  have s₃ : HostStep names False h₂ _ := .write pid' hp₂ rfl
  refine ⟨_, ((Relation.ReflTransGen.single s₁).tail s₂).tail s₃, ?_, setProc_self ..⟩
  exact (setProc_of_ne hne _).trans (setProc_self ..)

end Sasat
