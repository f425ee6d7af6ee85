import NodeVmm.Theorems.Psci

/-! The pause of the vCPUs. Their count is that of the threads in the pause wait. Paused is published by the vCPU that
    checks in last, and by nothing else: a vCPU that turns itself off while all the others wait leaves them
    uncounted as paused, and so does a Pause that finds all of them still in the wait. -/

namespace NodeVmm.Hvf.Cpus

section
variable {n : Nat} {s t : Cpus n} {i j : Fin n} {e : Event n} {controlEnabled : Bool}

/-- Each vCPU that is powered has entered the pause wait. --/
def AllIn (s : Cpus n) : Prop := ∀ j, powered (s.slots j) = true → (s.locs j).inWait = true

/-- The counter counts the pause wait, and Paused is published once every powered vCPU is in it. --/
structure PauseAccounted (s : Cpus n) : Prop where
  counted : s.pausedVcpus = Threads.count CpuLoc.inWait s.locs
  published : s.command = .pause → s.stopRequested = false → AllIn s → s.state = .paused

/-- A vCPU does not turn itself off while a pause has all the others in the pause wait; and Pause is not written while
    all are still in it, unless they are published as paused. --/
def PausesChecked (s : Cpus n) : Event n → Prop
  | .psci i .cpuOff => i.val ≠ 0 → s.command = .pause → s.stopRequested = false →
      ∃ j, j ≠ i ∧ powered (s.slots j) = true ∧ (s.locs j).inWait = false
  | .command .pause => s.stopRequested = false → s.state = .paused ∨ ∃ j, powered (s.slots j) = true ∧ (s.locs j).inWait = false
  | _ => True

/-- A powered vCPU is outside the wait. --/
theorem not_allIn_of_out (hpowered : powered (s.slots j) = true) (hout : (s.locs j).inWait = false) : ¬AllIn s := by
  intro hall
  exact absurd (hout.symm.trans (hall j hpowered)) nofun

theorem powered_of_on {slot : CpuSlot} (h : slot.state = .on) : powered slot = true := by
  rw [powered, h]
  rfl

theorem Ok.not_allIn {loc : CpuLoc} (hok : Ok s) (hloc : s.locs i = loc) (hrunning : loc.running = true)
    (hout : loc.inWait = false) : ¬AllIn s := by
  subst hloc
  exact not_allIn_of_out (powered_of_on ((hok.cpu i).running hrunning).1) hout

/-- The vCPU that checks in last finds all of them counted. --/
theorem poweredCpuCount_le (hok : Ok s) (hall : AllIn s) (hin : (s.locs i).inWait = true) : s.poweredCpuCount ≤ s.pausedVcpus := by
  rw [hok.counted]
  exact max_le (Threads.count_mono hall) (Threads.count_pos hin)

theorem published_checkIn (hok : Ok s) (hloc : s.locs i = .checkIn) (hall : AllIn (s.checkIn i)) :
    (s.checkIn i).state = .paused := by
  have hok' := hok.checkIn hloc
  have hawake : (s.slots i).paused = false := by
    rw [(hok.cpu i).paused, hloc]
    rfl
  have hle := poweredCpuCount_le hok' hall (i := i) (by rw [show (s.checkIn i).locs i = .pauseWait from Function.update_self ..]; rfl)
  simp only [Cpus.checkIn, hawake, Bool.false_eq_true, if_false] at hle ⊢
  split
  · rfl
  · rename_i hlt
    rw [if_neg hlt] at hle
    exact absurd hle hlt

/-- A step of a thread. --/
theorem Ran.published (h : Ran s i t) (hok : Ok s) (hs : PauseAccounted s) (hcommand : t.command = .pause)
    (hstop : t.stopRequested = false) (hall : AllIn t) : t.state = .paused := by
  have hok' := h.ok hok
  cases h with
  | leaves _ hstopped => exact absurd (hstop.symm.trans hstopped) nofun
  | hostStop _ => cases hstop
  | rests hloc hnone =>
    -- The vCPU is already off, so the others were all in the wait before the step.
    have hoff : (s.slots i).state = .off := by
      have hresting := (hok.cpu i).resting (Or.inl hloc)
      rwa [if_neg (by rw [hnone]; nofun)] at hresting
    refine hs.published hcommand hstop fun j hj => ?_
    by_cases hji : j = i
    · rw [hji, powered, hoff] at hj
      exact nomatch hj
    · have hin := hall j
      simp only [setLoc, turnOff, setSlot, Function.update_of_ne hji] at hin
      exact hin hj
  | starts _ _ => exact absurd hall (hok'.not_allIn (Function.update_self ..) rfl rfl)
  | goes _ _ hto _ hout => exact absurd hall (hok'.not_allIn (Function.update_self ..) hto hout)
  | checkIn hloc => exact published_checkIn hok hloc hall
  | wakes _ hawake => exact absurd hcommand (hawake hstop)
  | checkOut _ => exact absurd hall (hok'.not_allIn (Function.update_self ..) rfl rfl)
  | gone hloc => exact absurd (hstop.symm.trans ((hok.cpu i).left (Or.inl hloc))) nofun

/-- A PSCI call. --/
theorem published_psci {call : PsciCall} (hok : Ok s) (hguest : s.locs i = .guest) (hchecked : PausesChecked s (.psci i call))
    (hcommand : (s.psci i call).command = .pause) (hstop : (s.psci i call).stopRequested = false) : ¬AllIn (s.psci i call) := by
  have hok' := hok.psci hguest call
  cases call with
  | cpuOff =>
    by_cases hzero : i.val = 0
    · simp only [Cpus.psci, if_pos hzero] at hok' ⊢
      exact hok'.not_allIn (Function.update_self ..) rfl rfl
    · simp only [Cpus.psci, if_neg hzero] at hcommand hstop ⊢
      obtain ⟨j, hji, hpowered, hout⟩ := hchecked hzero hcommand hstop
      refine not_allIn_of_out (j := j) ?_ ?_
      · rwa [show ((s.turnOff i).setLoc i .outer).slots j = s.slots j from Function.update_of_ne hji _ _]
      · rwa [show ((s.turnOff i).setLoc i .outer).locs j = s.locs j from Function.update_of_ne hji _ _]
  | _ => exact hok'.not_allIn (Function.update_self ..) rfl rfl

theorem published_step (hok : Ok s) (hs : PauseAccounted s) (hchecked : PausesChecked s e) (hstep : step s e = some t)
    (hcommand : t.command = .pause) (hstop : t.stopRequested = false) (hall : AllIn t) : t.state = .paused := by
  cases e with
  | command command =>
    cases hstep
    subst hcommand
    rcases hchecked hstop with hpaused | ⟨j, hpowered, hout⟩
    · exact hpaused
    · exact absurd hall (not_allIn_of_out (s := { s with command := .pause }) hpowered hout)
  | requestStop =>
    cases hstep
    cases hstop
  | run i => exact (ran_of_run hok hstep).published hok hs hcommand hstop hall
  | hostStop | trap i =>
    obtain ⟨-, heq⟩ := Option.ite_none_right_eq_some.mp hstep
    cases heq
    cases hstop
  | psci i call =>
    obtain ⟨hguest, heq⟩ := Option.ite_none_right_eq_some.mp hstep
    cases heq
    exact absurd hall (published_psci hok hguest hchecked hcommand hstop)
  | exit i =>
    have hok' := hok.step hstep
    obtain ⟨-, heq⟩ := Option.ite_none_right_eq_some.mp hstep
    cases heq
    exact absurd hall (hok'.not_allIn (Function.update_self ..) rfl rfl)

theorem pauseAccounted_boot : PauseAccounted (boot n controlEnabled) := ⟨ok_boot.counted, fun hcommand => nomatch hcommand⟩

/-- Over every run in which no vCPU turns itself off as the last one outside the pause wait, and no Pause is written
    while all are still in it. --/
theorem pause_accounted {es : List (Event n)} (hrun : Runs.Under step PausesChecked (boot n controlEnabled) es t) :
    PauseAccounted t := by
  have hall : Ok t ∧ PauseAccounted t := by
    refine hrun.invariant (P := fun s => Ok s ∧ PauseAccounted s) (fun s e t h hchecked hstep => ?_) ⟨ok_boot, pauseAccounted_boot⟩
    have hok := h.1.step hstep
    exact ⟨hok, hok.counted, published_step h.1 h.2 hchecked hstep⟩
  exact hall.2

end

/-! ### Two vCPUs -/

instance (s : Cpus 2) (e : Event 2) : Decidable (PausesChecked s e) := by
  unfold PausesChecked
  split <;> infer_instance

instance (s : Cpus 2) : Decidable (AllIn s) := by
  unfold AllIn
  infer_instance

/-- Both run, with a control word. --/
def bothRun : List (Event 2) :=
  [.run Threads.first, .run Threads.first, .run Threads.first, .run Threads.first,
    .psci Threads.first (.cpuOn 1 0x1000 7), .run Threads.second, .run Threads.second, .run Threads.second,
    .run Threads.second, .run Threads.second]

/-- vCPU `i` comes from the top of its loop into the pause wait. --/
def enterWait (i : Fin 2) : List (Event 2) := [.run i, .run i, .run i]

/-- Both check in. --/
def pauseBoth : List (Event 2) :=
  bothRun ++ [.command .pause] ++ enterWait Threads.first ++ [.exit Threads.second] ++ enterWait Threads.second

theorem pause_accounted_both : ∃ t, Runs.Under step PausesChecked (boot 2 true) pauseBoth t ∧
    (AllIn t ∧ t.pausedVcpus = 2 ∧ t.state = .paused) ∧ PauseAccounted t := by
  obtain ⟨t, hrun, hpaused⟩ := Runs.exists_under step PausesChecked (boot 2 true) pauseBoth
    (fun t => AllIn t ∧ t.pausedVcpus = 2 ∧ t.state = .paused) (by decide +kernel)
  exact ⟨t, hrun, hpaused, pause_accounted hrun⟩

/-- The second turns itself off while the first waits. --/
def offWhilePaused : List (Event 2) :=
  bothRun ++ [.command .pause] ++ enterWait Threads.first ++ [.psci Threads.second .cpuOff, .run Threads.second]

theorem not_pause_accounted_off :
    ∃ t, Runs.Under step (fun _ _ => True) (boot 2 true) offWhilePaused t ∧ ¬PauseAccounted t := by
  obtain ⟨t, hrun, hcommand, hstop, hall, hstate⟩ := Runs.exists_under step (fun _ _ => True) (boot 2 true) offWhilePaused
    (fun t => t.command = .pause ∧ t.stopRequested = false ∧ AllIn t ∧ t.state ≠ .paused) (by decide +kernel)
  exact ⟨t, hrun, fun h => hstate (h.published hcommand hstop hall)⟩

end NodeVmm.Hvf.Cpus
