import NodeVmm.Psci
import NodeVmm.Lib.Runs

/-! The life of the vCPUs under the PSCI calls. What the thread of a vCPU does next, its power state and its start
    request agree, whatever CPU_ON another vCPU makes in between; so each call that succeeds is one entry, in the
    order of the calls, and only a stop keeps the last of them from being made. -/

namespace NodeVmm.Hvf.Cpus

/-! ### One vCPU -/

/-- The start request that the thread has not taken yet. --/
def pending (slot : CpuSlot) : List (UInt64 × UInt64) := if slot.startRequested then [(slot.entry, slot.context)] else []

/-- The thread waits for a start request, or will look for one before it does. --/
def Resting (loc : CpuLoc) : Prop := loc = .outer ∨ loc = .waiting

/-- How the slot of a vCPU agrees with its thread. --/
structure CpuOk (stop : Bool) (slot : CpuSlot) (loc : CpuLoc) (asked entered : List (UInt64 × UInt64)) : Prop where
  running : loc.running = true → slot.state = .on ∧ slot.startRequested = false
  resting : Resting loc → slot.state = if slot.startRequested then .onPending else .off
  left : loc = .leaving ∨ loc = .gone → stop = true
  paused : slot.paused = loc.inWait
  starts : asked = entered ++ pending slot

section
variable {stop stop' : Bool} {slot slot' : CpuSlot} {loc loc' : CpuLoc} {asked entered : List (UInt64 × UInt64)}

/-- A step of the thread that leaves its slot alone. --/
inductive Goes (stop : Bool) (loc loc' : CpuLoc) : Prop
  | on (hfrom : loc.running = true) (hto : loc'.running = true) (hwait : loc'.inWait = loc.inWait)
  | leaves (hstop : stop = true) (hto : loc' = .leaving) (hwait : loc.inWait = false)

theorem running_not_resting (h : loc.running = true) : ¬Resting loc := by
  rintro (rfl | rfl) <;> exact nomatch h

theorem running_not_left (h : loc.running = true) : ¬(loc = .leaving ∨ loc = .gone) := by
  rintro (rfl | rfl) <;> exact nomatch h

theorem CpuOk.stop_mono (h : CpuOk stop slot loc asked entered) (hstop : stop = true → stop' = true) :
    CpuOk stop' slot loc asked entered :=
  ⟨h.running, h.resting, fun hl => hstop (h.left hl), h.paused, h.starts⟩

theorem CpuOk.goes (h : CpuOk stop slot loc asked entered) (hgo : Goes stop loc loc') : CpuOk stop slot loc' asked entered := by
  cases hgo with
  | on hfrom hto hwait =>
    exact ⟨fun _ => h.running hfrom, fun hr => absurd hr (running_not_resting hto),
      fun hl => absurd hl (running_not_left hto), h.paused.trans hwait.symm, h.starts⟩
  | leaves hstop hto hwait =>
    subst hto
    refine ⟨nofun, ?_, fun _ => hstop, h.paused.trans hwait, h.starts⟩
    rintro (hr | hr) <;> exact nomatch hr

/-- The flag of the pause wait follows the thread. --/
theorem CpuOk.setPaused {paused : Bool} (h : CpuOk stop slot loc asked entered) (hfrom : loc.running = true)
    (hto : loc'.running = true) (hwait : paused = loc'.inWait) :
    CpuOk stop { slot with paused := paused } loc' asked entered :=
  ⟨fun _ => h.running hfrom, fun hr => absurd hr (running_not_resting hto),
    fun hl => absurd hl (running_not_left hto), hwait, h.starts⟩

/-- The thread takes a start request that is pending. --/
theorem CpuOk.takeStart (h : CpuOk stop slot loc asked entered) (hwait : slot'.paused = false)
    (hstart : slot.startRequested = true) (hoff : slot'.state = .on ∧ slot'.startRequested = false) :
    CpuOk stop slot' .started asked (entered ++ [(slot.entry, slot.context)]) := by
  refine ⟨fun _ => hoff, fun hr => absurd hr (running_not_resting rfl), fun hl => absurd hl (running_not_left rfl), hwait, ?_⟩
  have hstarts := h.starts
  rw [pending, if_pos hstart] at hstarts
  simpa [pending, hoff.2] using hstarts

/-- The thread has nothing to start. --/
theorem CpuOk.rest (h : CpuOk stop slot loc asked entered) (hnone : slot.startRequested = false) (hloc : Resting loc') :
    CpuOk stop { slot with state := .off, paused := false } loc' asked entered := by
  refine ⟨fun hr => absurd hloc (running_not_resting hr), fun _ => ?_, ?_, ?_, ?_⟩
  · simp [hnone]
  · rcases hloc with rfl | rfl <;> rintro (hl | hl) <;> exact nomatch hl
  · rcases hloc with rfl | rfl <;> rfl
  · simpa [pending, hnone] using h.starts

/-- CPU_ON of a vCPU that is off. --/
theorem CpuOk.accept (h : CpuOk stop slot loc asked entered) (entry context : UInt64) (hoff : slot.state = .off)
    (hnone : slot.startRequested = false) :
    CpuOk stop { slot with entry := entry, context := context, startRequested := true, state := .onPending } loc
      (asked ++ [(entry, context)]) entered := by
  refine ⟨fun hr => ?_, fun _ => rfl, h.left, h.paused, ?_⟩
  · exact absurd (hoff.symm.trans (h.running hr).1) nofun
  · have hstarts := h.starts
    simp only [pending, hnone] at hstarts
    simpa [pending] using hstarts

theorem CpuOk.gone (h : CpuOk stop slot .leaving asked entered) : CpuOk stop { slot with state := .off } .gone asked entered := by
  refine ⟨nofun, ?_, fun _ => h.left (Or.inl rfl), h.paused, h.starts⟩
  rintro (hr | hr) <;> exact nomatch hr

end

/-! ### All of them -/

section
variable {n : Nat} {s t u : Cpus n} {i j : Fin n} {e : Event n} {controlEnabled : Bool}

/-- The invariant. --/
structure Ok (s : Cpus n) : Prop where
  cpu : ∀ j, CpuOk s.stopRequested (s.slots j) (s.locs j) (s.asked j) (s.entered j)
  counted : s.pausedVcpus = Threads.count CpuLoc.inWait s.locs

theorem ok_boot : Ok (boot n controlEnabled) := by
  refine ⟨fun j => ?_, ?_⟩
  · by_cases hj : j.val = 0
    · simp only [boot, hj, if_true]
      exact ⟨fun _ => ⟨rfl, rfl⟩, fun hr => absurd hr (running_not_resting rfl), fun hl => absurd hl (running_not_left rfl), rfl, rfl⟩
    · simp only [boot, hj, if_false]
      refine ⟨nofun, fun _ => rfl, ?_, rfl, rfl⟩
      rintro (hl | hl) <;> exact nomatch hl
  · have hnone : ∀ j, ((boot n controlEnabled).locs j).inWait = false := by
      intro j
      simp only [boot]
      split <;> rfl
    exact (Threads.count_eq_zero hnone).symm

/-- The rule for a step that moves one vCPU. --/
theorem Ok.moves (hok : Ok s) {slot : CpuSlot} {loc : CpuLoc} (hslots : t.slots = Function.update s.slots i slot)
    (hlocs : t.locs = Function.update s.locs i loc) (hstop : t.stopRequested = s.stopRequested)
    (hasked : ∀ j, j ≠ i → t.asked j = s.asked j) (hentered : ∀ j, j ≠ i → t.entered j = s.entered j)
    (hself : CpuOk s.stopRequested slot loc (t.asked i) (t.entered i))
    (hcount : t.pausedVcpus + (if (s.locs i).inWait then 1 else 0) = s.pausedVcpus + if loc.inWait then 1 else 0) : Ok t := by
  refine ⟨fun j => ?_, ?_⟩
  · rw [hslots, hlocs, hstop]
    by_cases hj : j = i
    · subst hj
      rw [Function.update_self, Function.update_self]
      exact hself
    · rw [Function.update_of_ne hj, Function.update_of_ne hj, hasked j hj, hentered j hj]
      exact hok.cpu j
  · have hupdate := Threads.count_update CpuLoc.inWait s.locs i loc
    rw [hlocs]
    rw [hok.counted] at hcount
    omega

theorem Ok.publish (hok : Ok s) (state : RunLoop.RunState) : Ok (s.publish state) := ⟨hok.cpu, hok.counted⟩

theorem Ok.requestStop (hok : Ok s) : Ok s.requestStop :=
  ⟨fun j => (hok.cpu j).stop_mono fun _ => rfl, hok.counted⟩

theorem Ok.setLoc (hok : Ok s) {loc : CpuLoc} (hgo : Goes s.stopRequested (s.locs i) loc) : Ok (s.setLoc i loc) := by
  refine hok.moves (Function.update_eq_self i s.slots).symm rfl rfl (fun _ _ => rfl) (fun _ _ => rfl)
    ((hok.cpu i).goes hgo) ?_
  cases hgo with
  | on _ _ hwait => rw [hwait]; rfl
  | leaves _ hto hwait => rw [hto, hwait]; rfl

theorem not_inWait_of_resting {loc : CpuLoc} (h : Resting loc) : loc.inWait = false := by
  rcases h with rfl | rfl <;> rfl

/-- The vCPU is off, or turns itself off. --/
theorem Ok.rest {loc : CpuLoc} (hok : Ok s) (hwait : (s.locs i).inWait = false) (hnone : (s.slots i).startRequested = false)
    (hloc : Resting loc) : Ok ((s.turnOff i).setLoc i loc) := by
  refine hok.moves rfl rfl rfl (fun _ _ => rfl) (fun _ _ => rfl) ((hok.cpu i).rest hnone hloc) ?_
  rw [hwait, not_inWait_of_resting hloc]
  rfl

/-- `turnOff` before it changes nothing of what `takeStart` leaves. --/
theorem takeStart_turnOff (h : (s.slots i).paused = false) : (s.turnOff i).takeStart i = s.takeStart i := by
  have hself : (s.turnOff i).slots i = { s.slots i with state := .off, paused := false } := Function.update_self ..
  simp only [takeStart, hself]
  simp [turnOff, setSlot, h]

theorem Ok.takeStart (hok : Ok s) (hrest : Resting (s.locs i)) (hstart : (s.slots i).startRequested = true) :
    Ok (s.takeStart i) := by
  refine hok.moves rfl rfl rfl (fun _ _ => rfl) (fun j hj => Function.update_of_ne hj _ _) ?_ ?_
  · rw [show (s.takeStart i).entered i = s.entered i ++ [((s.slots i).entry, (s.slots i).context)] from Function.update_self ..]
    exact (hok.cpu i).takeStart ((hok.cpu i).paused.trans (not_inWait_of_resting hrest)) hstart ⟨rfl, rfl⟩
  · rw [not_inWait_of_resting hrest]
    rfl

theorem Ok.accept (hok : Ok s) (entry context : UInt64) (hoff : (s.slots i).state = .off)
    (hnone : (s.slots i).startRequested = false) : Ok (s.accept i entry context) := by
  refine hok.moves rfl (Function.update_eq_self i s.locs).symm rfl (fun j hj => Function.update_of_ne hj _ _) (fun _ _ => rfl) ?_ rfl
  rw [show (s.accept i entry context).asked i = s.asked i ++ [(entry, context)] from Function.update_self ..]
  exact (hok.cpu i).accept entry context hoff hnone

theorem Ok.checkIn (hok : Ok s) (hloc : s.locs i = .checkIn) : Ok (s.checkIn i) := by
  have hcpu := hok.cpu i
  rw [hloc] at hcpu
  have hin : Ok ({ s.setSlot i { s.slots i with paused := true } with pausedVcpus := s.pausedVcpus + 1 }.setLoc i .pauseWait) := by
    refine hok.moves rfl rfl rfl (fun _ _ => rfl) (fun _ _ => rfl) (hcpu.setPaused rfl rfl rfl) ?_
    rw [hloc]
    rfl
  simp only [Cpus.checkIn, hcpu.paused, CpuLoc.inWait, Bool.false_eq_true, if_false]
  split
  · exact hin.publish .paused
  · exact hin

theorem Ok.checkOut (hok : Ok s) (hloc : s.locs i = .checkOut) : Ok (s.checkOut i) := by
  have hcpu := hok.cpu i
  rw [hloc] at hcpu
  simp only [Cpus.checkOut, hcpu.paused, CpuLoc.inWait, if_true]
  refine hok.moves rfl rfl rfl (fun _ _ => rfl) (fun _ _ => rfl) (hcpu.setPaused rfl rfl rfl) ?_
  have hpos : 0 < s.pausedVcpus := hok.counted ▸ Threads.count_pos (i := i) (by rw [hloc]; rfl)
  rw [hloc]
  exact Nat.sub_add_cancel hpos

theorem Ok.gone (hok : Ok s) (hloc : s.locs i = .leaving) : Ok ((s.setSlot i { s.slots i with state := .off }).setLoc i .gone) := by
  have hcpu := hok.cpu i
  rw [hloc] at hcpu
  refine hok.moves rfl rfl rfl (fun _ _ => rfl) (fun _ _ => rfl) hcpu.gone ?_
  rw [hloc]
  rfl

/-- What the next step of the thread of vCPU `i` does. --/
inductive Ran (s : Cpus n) (i : Fin n) : Cpus n → Prop
  | leaves (hwait : (s.locs i).inWait = false) (hstop : s.stopRequested = true) : Ran s i (s.setLoc i .leaving)
  | hostStop (hloc : s.locs i = .top) : Ran s i ((s.publish .stopping).requestStop.setLoc i .leaving)
  | rests (hloc : s.locs i = .outer) (hnone : (s.slots i).startRequested = false) : Ran s i ((s.turnOff i).setLoc i .waiting)
  | starts (hrest : Resting (s.locs i)) (hstart : (s.slots i).startRequested = true) : Ran s i (s.takeStart i)
  | goes (state : RunLoop.RunState) {loc : CpuLoc} (hfrom : (s.locs i).running = true) (hto : loc.running = true)
    (hwait : (s.locs i).inWait = false) (hout : loc.inWait = false) : Ran s i ((s.publish state).setLoc i loc)
  | checkIn (hloc : s.locs i = .checkIn) : Ran s i (s.checkIn i)
  | wakes (hloc : s.locs i = .pauseWait) (hcommand : s.stopRequested = false → s.command ≠ .pause) : Ran s i (s.setLoc i .checkOut)
  | checkOut (hloc : s.locs i = .checkOut) : Ran s i (s.checkOut i)
  | gone (hloc : s.locs i = .leaving) : Ran s i ((s.setSlot i { s.slots i with state := .off }).setLoc i .gone)

/-- A step of the thread between two points outside the pause wait. --/
theorem Ran.go {loc loc' : CpuLoc} (hloc : s.locs i = loc) (hfrom : loc.running = true) (hto : loc'.running = true)
    (hwait : loc.inWait = false) (hout : loc'.inWait = false) : Ran s i (s.setLoc i loc') := by
  subst hloc
  exact .goes s.state hfrom hto hwait hout

theorem ran_of_run (hok : Ok s) (hrun : s.run i = some t) : Ran s i t := by
  have hawake (hrest : Resting (s.locs i)) : (s.slots i).paused = false :=
    (hok.cpu i).paused.trans (not_inWait_of_resting hrest)
  cases hloc : s.locs i with
  | outer =>
    simp only [Cpus.run, hloc, takeStart_turnOff (hawake (Or.inl hloc))] at hrun
    split at hrun
    · rename_i hstop
      cases hrun
      exact .leaves (by rw [hloc]; rfl) hstop
    · split at hrun
      · rename_i hstart
        cases hrun
        exact .starts (Or.inl hloc) hstart
      · rename_i hstart
        cases hrun
        exact .rests hloc (Bool.eq_false_iff.mpr hstart)
  | waiting =>
    simp only [Cpus.run, hloc] at hrun
    split at hrun
    · rename_i hstop
      cases hrun
      exact .leaves (by rw [hloc]; rfl) hstop
    · obtain ⟨hstart, heq⟩ := Option.ite_none_right_eq_some.mp hrun
      cases heq
      exact .starts (Or.inr hloc) hstart
  | started =>
    simp only [Cpus.run, hloc] at hrun
    cases hrun
    exact .goes _ (by rw [hloc]; rfl) rfl (by rw [hloc]; rfl) rfl
  | top =>
    simp only [Cpus.run, hloc] at hrun
    split at hrun
    · rename_i hstop
      cases hrun
      exact .leaves (by rw [hloc]; rfl) hstop
    · split at hrun
      · cases hrun
        exact .go hloc rfl rfl rfl rfl
      · split at hrun
        · cases hrun
          exact .hostStop hloc
        · cases hrun
          exact .go hloc rfl rfl rfl rfl
  | testPause =>
    simp only [Cpus.run, hloc] at hrun
    split at hrun
    all_goals
      cases hrun
      exact .go hloc rfl rfl rfl rfl
  | checkIn =>
    simp only [Cpus.run, hloc] at hrun
    cases hrun
    exact .checkIn hloc
  | pauseWait =>
    simp only [Cpus.run, hloc] at hrun
    obtain ⟨hwait, heq⟩ := Option.ite_none_left_eq_some.mp hrun
    cases heq
    exact .wakes hloc fun hstop hcommand => hwait (by simp [hstop, hcommand])
  | checkOut =>
    simp only [Cpus.run, hloc] at hrun
    cases hrun
    exact .checkOut hloc
  | pauseDone =>
    simp only [Cpus.run, hloc] at hrun
    split at hrun
    · rename_i hstop
      cases hrun
      exact .leaves (by rw [hloc]; rfl) hstop
    · cases hrun
      exact .go hloc rfl rfl rfl rfl
  | setRunning =>
    simp only [Cpus.run, hloc] at hrun
    cases hrun
    exact .goes _ (by rw [hloc]; rfl) rfl (by rw [hloc]; rfl) rfl
  | leaving =>
    simp only [Cpus.run, hloc] at hrun
    cases hrun
    exact .gone hloc
  | guest | gone =>
    simp only [Cpus.run, hloc] at hrun
    cases hrun

theorem Ran.ok (h : Ran s i t) (hok : Ok s) : Ok t := by
  cases h with
  | leaves hwait hstop => exact hok.setLoc (.leaves hstop rfl hwait)
  | hostStop hloc =>
    have hwait : (s.locs i).inWait = false := by
      rw [hloc]
      rfl
    exact (hok.publish _).requestStop.setLoc (.leaves rfl rfl hwait)
  | rests hloc hnone => exact hok.rest (by rw [hloc]; rfl) hnone (Or.inr rfl)
  | starts hrest hstart => exact hok.takeStart hrest hstart
  | goes state hfrom hto hwait hout => exact (hok.publish _).setLoc (.on hfrom hto (hout.trans hwait.symm))
  | checkIn hloc => exact hok.checkIn hloc
  | wakes hloc _ => exact hok.setLoc (hloc ▸ .on rfl rfl rfl)
  | checkOut hloc => exact hok.checkOut hloc
  | gone hloc => exact hok.gone hloc

/-- The cases of CPU_ON. --/
theorem cpuOn_cases (mpidr entry context : UInt64) (s : Cpus n) :
    (∃ result, s.cpuOn mpidr entry context = (result, s) ∧ result ≠ psciSuccess) ∨
      ∃ target, cpuIndexFromMpidr n mpidr = some target ∧ (s.slots target).state = .off ∧
        (s.slots target).startRequested = false ∧
        s.cpuOn mpidr entry context = (psciSuccess, s.accept target entry context) := by
  unfold cpuOn
  split
  · rename_i target htarget
    split
    · split
      · exact Or.inl ⟨_, rfl, nofun⟩
      · rename_i hoff
        rw [not_or, not_or, not_not, Bool.not_eq_true] at hoff
        exact Or.inr ⟨target, htarget, hoff.2.1, hoff.2.2, rfl⟩
    · exact Or.inl ⟨_, rfl, nofun⟩
  · exact Or.inl ⟨_, rfl, nofun⟩

theorem Ok.psci (hok : Ok s) (hguest : s.locs i = .guest) (call : PsciCall) : Ok (s.psci i call) := by
  have htop : Ok (s.setLoc i .top) := hok.setLoc (hguest ▸ .on rfl rfl rfl)
  have hstop : Ok (s.requestStop.setLoc i .top) := hok.requestStop.setLoc (show Goes _ (s.locs i) _ from hguest ▸ .on rfl rfl rfl)
  cases call with
  | cpuOn mpidr entry context =>
    rcases cpuOn_cases mpidr entry context s with ⟨result, heq, -⟩ | ⟨target, -, hoff, hnone, heq⟩
    · simp only [Cpus.psci, heq]
      exact htop
    · simp only [Cpus.psci, heq]
      exact (hok.accept entry context hoff hnone).setLoc (show Goes _ (s.locs i) _ from hguest ▸ .on rfl rfl rfl)
  | cpuOff =>
    simp only [Cpus.psci]
    split
    · exact hstop
    · exact hok.rest (hguest ▸ rfl) ((hok.cpu i).running (hguest ▸ rfl)).2 (Or.inl rfl)
  | affinityInfo mpidr level => exact htop
  | systemOff => exact hstop
  | other => exact htop

theorem Ok.step (hok : Ok s) (hstep : step s e = some t) : Ok t := by
  cases e with
  | command command =>
    cases hstep
    exact ⟨hok.cpu, hok.counted⟩
  | hostStop =>
    obtain ⟨-, heq⟩ := Option.ite_none_right_eq_some.mp hstep
    cases heq
    exact (hok.publish _).requestStop
  | requestStop =>
    cases hstep
    exact hok.requestStop
  | run i => exact (ran_of_run hok hstep).ok hok
  | psci i call =>
    obtain ⟨hguest, heq⟩ := Option.ite_none_right_eq_some.mp hstep
    cases heq
    exact hok.psci hguest call
  | exit i =>
    obtain ⟨hguest, heq⟩ := Option.ite_none_right_eq_some.mp hstep
    cases heq
    exact hok.setLoc (hguest ▸ .on rfl rfl rfl)
  | trap i =>
    obtain ⟨hguest, heq⟩ := Option.ite_none_right_eq_some.mp hstep
    cases heq
    exact hok.requestStop.setLoc (show Goes _ (s.locs i) _ from hguest ▸ .leaves rfl rfl rfl)

/-! ### The calls and the entries -/

/-- What the logs and the stop are after a step. --/
structure Grows (s t : Cpus n) : Prop where
  stop : s.stopRequested = true → t.stopRequested = true
  asked : ∀ j, s.asked j <+: t.asked j
  entered : ∀ j, s.entered j <+: t.entered j

theorem Grows.of_eq (hstop : s.stopRequested = true → t.stopRequested = true) (hasked : t.asked = s.asked)
    (hentered : t.entered = s.entered) : Grows s t :=
  ⟨hstop, fun j => hasked ▸ List.prefix_rfl, fun j => hentered ▸ List.prefix_rfl⟩

theorem prefix_update {logs : Fin n → List (UInt64 × UInt64)} (x : UInt64 × UInt64) :
    logs j <+: Function.update logs i (logs i ++ [x]) j :=
  Threads.update_intro (fun hj => hj ▸ List.prefix_append ..) fun _ => List.prefix_rfl

theorem Ran.grows (h : Ran s i t) : Grows s t := by
  cases h with
  | starts _ _ => exact ⟨id, fun _ => List.prefix_rfl, fun _ => prefix_update _⟩
  | hostStop _ => exact .of_eq (fun _ => rfl) rfl rfl
  | checkIn _ => refine .of_eq ?_ ?_ ?_ <;> simp only [Cpus.checkIn] <;> split <;> split <;> first | exact id | rfl
  | checkOut _ => refine .of_eq ?_ ?_ ?_ <;> simp only [Cpus.checkOut] <;> split <;> first | exact id | rfl
  | _ => exact .of_eq id rfl rfl

theorem grows_psci (i : Fin n) (call : PsciCall) (s : Cpus n) : Grows s (s.psci i call) := by
  cases call with
  | cpuOn mpidr entry context =>
    simp only [Cpus.psci]
    rcases cpuOn_cases mpidr entry context s with ⟨result, heq, -⟩ | ⟨target, -, -, -, heq⟩
    · rw [heq]
      exact .of_eq id rfl rfl
    · rw [heq]
      exact ⟨id, fun _ => prefix_update _, fun _ => List.prefix_rfl⟩
  | cpuOff =>
    simp only [Cpus.psci]
    split
    · exact .of_eq (fun _ => rfl) rfl rfl
    · exact .of_eq id rfl rfl
  | systemOff => exact .of_eq (fun _ => rfl) rfl rfl
  | affinityInfo _ _ | other => exact .of_eq id rfl rfl

theorem grows_step (hok : Ok s) (hstep : step s e = some t) : Grows s t := by
  cases e with
  | command command =>
    cases hstep
    exact .of_eq id rfl rfl
  | requestStop =>
    cases hstep
    exact .of_eq (fun _ => rfl) rfl rfl
  | run i => exact (ran_of_run hok hstep).grows
  | hostStop | trap i =>
    obtain ⟨-, heq⟩ := Option.ite_none_right_eq_some.mp hstep
    cases heq
    exact .of_eq (fun _ => rfl) rfl rfl
  | psci i call =>
    obtain ⟨-, heq⟩ := Option.ite_none_right_eq_some.mp hstep
    cases heq
    exact grows_psci i call s
  | exit i =>
    obtain ⟨-, heq⟩ := Option.ite_none_right_eq_some.mp hstep
    cases heq
    exact .of_eq id rfl rfl

/-- A start request is pending: the next step of the thread enters it, unless the VM is stopped. --/
theorem run_of_pending (hok : Ok s) (hstart : (s.slots j).startRequested = true) (hstop : s.stopRequested = false) :
    ∃ t, step s (.run j) = some t ∧ t.entered j = s.asked j := by
  have hcpu := hok.cpu j
  have hentered : (s.takeStart j).entered j = s.asked j := by
    rw [hcpu.starts, pending, if_pos hstart]
    exact Function.update_self ..
  have hrest : Resting (s.locs j) := by
    cases hloc : s.locs j with
    | outer => exact Or.inl rfl
    | waiting => exact Or.inr rfl
    | leaving | gone =>
      have hleft := hcpu.left (by rw [hloc]; simp)
      exact absurd (hstop.symm.trans hleft) nofun
    | _ => exact absurd (hstart.symm.trans (hcpu.running (by rw [hloc]; rfl)).2) nofun
  refine ⟨s.takeStart j, ?_, hentered⟩
  have hawake : (s.slots j).paused = false := hcpu.paused.trans (not_inWait_of_resting hrest)
  rcases hrest with hloc | hloc
  · simp [step, Cpus.run, hloc, hstop, hstart, takeStart_turnOff hawake]
  · simp [step, Cpus.run, hloc, hstop, hstart]

theorem grows_run {es : List (Event n)} (hok : Ok s) (hrun : Runs.Under step (fun _ _ => True) s es t) : Grows s t := by
  induction hrun with
  | nil => exact .of_eq id rfl rfl
  | cons _ hstep _ ih =>
    have hfirst := grows_step hok hstep
    have hrest := ih (hok.step hstep)
    exact ⟨hrest.stop ∘ hfirst.stop, fun j => (hfirst.asked j).trans (hrest.asked j),
      fun j => (hfirst.entered j).trans (hrest.entered j)⟩

/-- Once the thread of the vCPU has taken a step, what was asked for is entered. --/
theorem entered_of_run {es : List (Event n)} (hok : Ok u) (hrun : Runs.Under step (fun _ _ => True) u es t)
    (hstop : t.stopRequested = false) (hmem : .run j ∈ es) : u.asked j <+: t.entered j := by
  induction hrun with
  | nil => cases hmem
  | @cons s u t e es _ hstep hrest ih =>
    have hrun := grows_run (hok.step hstep) hrest
    rcases List.mem_cons.mp hmem with rfl | hmem
    · cases hstart : (s.slots j).startRequested with
      | true =>
        have hgoing : s.stopRequested = false := by
          by_contra hs
          have hu := hrun.stop ((grows_step hok hstep).stop (Bool.eq_true_of_not_eq_false hs))
          exact absurd (hstop.symm.trans hu) nofun
        obtain ⟨u', hstep', hentered⟩ := run_of_pending hok hstart hgoing
        cases hstep.symm.trans hstep'
        exact hentered ▸ hrun.entered j
      | false =>
        rw [(hok.cpu j).starts, pending, if_neg (by rw [hstart]; nofun), List.append_nil]
        exact ((grows_step hok hstep).entered j).trans (hrun.entered j)
    · exact ((grows_step hok hstep).asked j).trans (ih (hok.step hstep) hstop hmem)

/-! ### Lifecycle -/

/-- The PSCI calls and the entries agree. --/
structure Lifecycle (t : Cpus n) : Prop where
  /-- Each entry is that of one call, in the order of the calls, and at most the last one is still to come. --/
  starts : ∀ j, t.asked j = t.entered j ++ pending (t.slots j)
  /-- It comes with the next step of the thread. --/
  ready : ∀ j, (t.slots j).startRequested = true → t.stopRequested = false →
    ∃ u, step t (.run j) = some u ∧ u.entered j = t.asked j
  /-- In every run from a call that succeeds, the vCPU is entered as the call says, unless the VM is stopped. --/
  accepted : ∀ i mpidr entry context u, step t (.psci i (.cpuOn mpidr entry context)) = some u →
    (t.cpuOn mpidr entry context).1 = psciSuccess → ∃ target, cpuIndexFromMpidr n mpidr = some target ∧
      u.asked target = t.entered target ++ [(entry, context)] ∧
      ∀ es v, Runs.Under step (fun _ _ => True) u es v → v.stopRequested = false → .run target ∈ es →
        t.entered target ++ [(entry, context)] <+: v.entered target
  refused : ∀ mpidr entry context target, cpuIndexFromMpidr n mpidr = some target → entry ≠ 0 →
    (t.locs target).running = true ∨ (t.slots target).startRequested = true →
    t.cpuOn mpidr entry context = (psciAlreadyOn, t)
  /-- The vCPUs that are reported off neither run nor are about to. --/
  off : ∀ mpidr level, t.psciAffinityInfo mpidr level = affinityOf .off → ∀ target,
    (level = 0 → cpuIndexFromMpidr n mpidr = some target) →
    (t.locs target).running = false ∧ ¬((t.slots target).startRequested = true ∧ Resting (t.locs target))

theorem state_of_affinity {state : PsciCpuState} (h : affinityOf state = affinityOf .off) : state = .off := by
  cases state <;> first | rfl | exact nomatch h

theorem off_of_affinity {mpidr level : UInt64} (h : t.psciAffinityInfo mpidr level = affinityOf .off)
    (htarget : level = 0 → cpuIndexFromMpidr n mpidr = some j) : (t.slots j).state = .off := by
  unfold psciAffinityInfo at h
  split at h
  · rename_i hlevel
    simp only [htarget hlevel] at h
    exact state_of_affinity h
  · split at h
    · split at h
      · cases h
      · rename_i hon
        split at h
        · cases h
        · rename_i hpending
          simp only [List.any_eq_true, List.mem_finRange, true_and, not_exists, beq_iff_eq] at hon hpending
          cases hstate : (t.slots j).state with
          | off => rfl
          | on => exact absurd hstate (hon j)
          | onPending => exact absurd hstate (hpending j)
    · cases h

theorem lifecycle_of_ok (hok : Ok t) : Lifecycle t := by
  refine ⟨fun j => (hok.cpu j).starts, fun j => run_of_pending hok, ?_, ?_, ?_⟩
  · intro i mpidr entry context u hstep hresult
    rcases cpuOn_cases mpidr entry context t with ⟨result, heq, hne⟩ | ⟨target, htarget, -, hnone, heq⟩
    · exact absurd ((congrArg Prod.fst heq).symm.trans hresult) hne
    · have hasked : u.asked target = t.entered target ++ [(entry, context)] := by
        obtain ⟨-, hu⟩ := Option.ite_none_right_eq_some.mp hstep
        cases hu
        have hstarts := (hok.cpu target).starts
        rw [pending, if_neg (by rw [hnone]; nofun), List.append_nil] at hstarts
        simp only [Cpus.psci, heq]
        rw [← hstarts]
        exact Function.update_self ..
      refine ⟨target, htarget, hasked, fun es v hrun hstop hmem => ?_⟩
      exact hasked ▸ entered_of_run (hok.step hstep) hrun hstop hmem
  · intro mpidr entry context target htarget hentry hbusy
    have hrefused : target.val = 0 ∨ (t.slots target).state ≠ .off ∨ (t.slots target).startRequested = true := by
      rcases hbusy with hrunning | hstart
      · exact Or.inr (Or.inl (by rw [((hok.cpu target).running hrunning).1]; nofun))
      · exact Or.inr (Or.inr hstart)
    simp only [cpuOn, htarget, if_pos hentry, if_pos hrefused]
  · intro mpidr level hoff target htarget
    have hstate := off_of_affinity hoff htarget
    refine ⟨Bool.eq_false_iff.mpr fun hrunning => ?_, fun ⟨hstart, hrest⟩ => ?_⟩
    · exact absurd (hstate.symm.trans ((hok.cpu target).running hrunning).1) nofun
    · have hpending := (hok.cpu target).resting hrest
      rw [if_pos hstart] at hpending
      exact absurd (hstate.symm.trans hpending) nofun

/-- In every state that the vCPUs can come to. --/
theorem lifecycle {es : List (Event n)} (hrun : Runs.Under step (fun _ _ => True) (boot n controlEnabled) es t) :
    Lifecycle t :=
  lifecycle_of_ok (hrun.invariant (fun _ _ _ hok _ hstep => Ok.step hok hstep) ok_boot)

end

/-! ### Two vCPUs -/

/-- The first vCPU comes to the guest. --/
def bootFirst : List (Event 2) := [.run Threads.first, .run Threads.first]

/-- The second is started, turns itself off and is started again before it is back in its wait. --/
def startTwice : List (Event 2) :=
  bootFirst ++ [.psci Threads.first (.cpuOn 1 0x1000 7), .run Threads.second, .run Threads.second, .run Threads.second,
    .psci Threads.second .cpuOff, .run Threads.first, .psci Threads.first (.cpuOn 1 0x2000 8), .run Threads.second]

theorem lifecycle_start_twice : ∃ t, Runs.Under step (fun _ _ => True) (boot 2 false) startTwice t ∧
    t.entered Threads.second = [(0x1000, 7), (0x2000, 8)] ∧ Lifecycle t := by
  obtain ⟨t, hrun, hentered⟩ := Runs.exists_under step (fun _ _ => True) (boot 2 false) startTwice
    (fun t => t.entered Threads.second = [(0x1000, 7), (0x2000, 8)]) (by decide +kernel)
  exact ⟨t, hrun, hentered, lifecycle hrun⟩

/-- The first turns itself off, which stops the VM, before the second has taken its start. --/
def stopBeforeStart : List (Event 2) :=
  bootFirst ++ [.psci Threads.first (.cpuOn 1 0x1000 7), .run Threads.first, .psci Threads.first .cpuOff, .run Threads.first,
    .run Threads.first, .run Threads.second, .run Threads.second]

/-- The second runs. --/
def startSecond : List (Event 2) := bootFirst ++ [.psci Threads.first (.cpuOn 1 0x1000 7), .run Threads.second]

/-- A call that succeeds is never entered: both threads are gone. And a call for a vCPU that is on is not answered
    with ALREADY_ON when it names no entry point. --/
theorem not_entered_and_not_already_on :
    (∃ t, Runs.Under step (fun _ _ => True) (boot 2 false) stopBeforeStart t ∧
      t.asked Threads.second = [(0x1000, 7)] ∧ t.entered Threads.second = [] ∧ ∀ i, t.locs i = .gone) ∧
    ∃ t, Runs.Under step (fun _ _ => True) (boot 2 false) startSecond t ∧
      (t.slots Threads.second).state = .on ∧ (t.cpuOn 1 0 7).1 = psciInvalidParams ∧ psciInvalidParams ≠ psciAlreadyOn := by
  refine ⟨?_, ?_⟩
  · exact Runs.exists_under step (fun _ _ => True) (boot 2 false) stopBeforeStart
      (fun t => t.asked Threads.second = [(0x1000, 7)] ∧ t.entered Threads.second = [] ∧ ∀ i, t.locs i = .gone) (by decide +kernel)
  · exact Runs.exists_under step (fun _ _ => True) (boot 2 false) startSecond
      (fun t => (t.slots Threads.second).state = .on ∧ (t.cpuOn 1 0 7).1 = psciInvalidParams ∧ psciInvalidParams ≠ psciAlreadyOn)
      (by decide +kernel)

end NodeVmm.Hvf.Cpus
