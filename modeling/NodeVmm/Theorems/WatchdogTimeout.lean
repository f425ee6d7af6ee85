import NodeVmm.RunClock
import NodeVmm.Theorems.PauseProtocol

/-! The timeout of the watchdog and the pauses. The time that the machine is paused is counted beside the run, and what the
    watchdog has read covers it when every pause was added before the read and the whole milliseconds of a pause are enough. -/

namespace NodeVmm.RunLoop

/-! ### Paused time -/

/-- The command is Pause, and every vCPU is counted in the pause wait. --/
def Waiting (s : Machine n) : Prop := s.command = .pause ∧ ∀ i, (s.vcpu i).counted = true

variable {n timeoutMs : Nat}

instance (s : Machine n) : Decidable (Waiting s) := inferInstanceAs (Decidable (_ ∧ _))

/-- A machine with the time that it was paused. --/
structure Account (n : Nat) extends Clocked n where
  waited : Nat
  /-- The part of it in pauses that vCPU 0 has added. --/
  settled : Nat
  /-- This part when the watchdog read the extension. --/
  loadedSettled : Nat

def initialAccount (n : Nat) : Account n where
  toClocked := initialClocked n
  waited := 0
  settled := 0
  loadedSettled := 0

def accountStep (timeoutMs : Nat) (s : Account n) (e : ClockEvent n) : Option (Account n) :=
  (clockStep timeoutMs s.toClocked e).map fun t =>
    { toClocked := t
      waited := match e with
        | .tick ns => if Waiting s.toMachine then s.waited + ns else s.waited
        | _ => s.waited
      settled := match e with
        | .addPausedMs => s.waited
        | _ => s.settled
      loadedSettled := match e with
        | .loadExtension => s.settled
        | _ => s.loadedSettled }

/-- The watchdog does not time out before the time that the machine was not paused is over. --/
def Fair (timeoutMs : Nat) (s : Account n) : Prop := s.watchdogTimeout = true → timeoutMs * nsPerMs + s.waited < s.now

/-- When the watchdog finds the deadline over, every pause was added before it read the extension; and what is cut off the time
    of a pause is no more than what vCPU 0 measures beside the paused time. --/
def PausesCounted (s : Account n) : ClockEvent n → Prop
  | .step (.watchdog true) => Compares s.toMachine → s.waited = s.loadedSettled
  | .readPausedMs => ∀ since ∈ s.pausedAt, (s.now - since) % nsPerMs + (s.waited - s.settled) ≤ s.now - since
  | _ => True

/-! ### Steps of the run loop -/

section
variable {i : Fin n} {l l' : Loc} {s s' : Shared n}

theorem callStep_timeout {c : Call} {r : Option Call × Shared n} (h : callStep c s = some r) :
    r.2.watchdogTimeout = s.watchdogTimeout := by
  cases c <;> grind [callStep]

theorem vcpuStep_timeout (h : vcpuStep timeoutMs i l s = some (l', s')) : s'.watchdogTimeout = s.watchdogTimeout := by
  cases l with
  | call c =>
    obtain ⟨r, hr, heq⟩ := Option.map_eq_some_iff.mp h
    cases heq
    exact callStep_timeout hr
  | _ => grind [vcpuStep]

end

section
variable {s t : Machine n} {e : Event n}

/-- The timeout is set by the comparison of the watchdog and by nothing else. --/
theorem step_watchdogTimeout (h : step timeoutMs s e = some t) :
    t.watchdogTimeout = s.watchdogTimeout ∨ e = .watchdog true ∧ Compares s := by
  cases e with
  | vcpu i =>
    obtain ⟨r, hr, rfl⟩ := Option.map_eq_some_iff.mp h
    exact .inl (vcpuStep_timeout hr)
  | watchdog yes =>
    unfold step watchdogStep at h
    cases hc : s.watchdogCall with
    | some c =>
      rw [hc] at h
      obtain ⟨r, hr, rfl⟩ := Option.map_eq_some_iff.mp h
      exact .inl (callStep_timeout hr)
    | none =>
      rw [hc] at h
      cases hw : s.watchdog with
      | deadline =>
        rw [hw] at h
        cases yes with
        | true => exact .inr ⟨rfl, hc, hw⟩
        | false =>
          simp only [Bool.and_false, Bool.false_eq_true, if_false, Option.some.injEq] at h
          subst h
          exact .inl rfl
      | gone =>
        rw [hw] at h
        cases h
      | _ =>
        rw [hw] at h
        obtain rfl := Option.some.inj h
        left
        first | rfl | (split <;> rfl)
  | main =>
    have hmain : mainStep s = some t := h
    unfold mainStep at hmain
    left
    cases hm : s.main with
    | call c =>
      rw [hm] at hmain
      obtain ⟨r, hr, rfl⟩ := Option.map_eq_some_iff.mp hmain
      exact callStep_timeout hr
    | result =>
      rw [hm] at hmain
      cases hmain
    | setExited | stopWatchdog =>
      rw [hm] at hmain
      cases hmain
      rfl
    | loop | join | joinWatchdog =>
      rw [hm] at hmain
      obtain ⟨-, heq⟩ := Option.ite_none_right_eq_some.mp hmain
      cases heq
      rfl
  | host c =>
    cases h
    exact .inl rfl
  | _ =>
    obtain ⟨-, heq⟩ := Option.ite_none_right_eq_some.mp h
    cases heq
    exact .inl rfl

theorem firstAt_update {i : Fin n} {l l' : Loc} (hs : FirstAt s l) (hi : s.vcpu i ≠ l) :
    ∃ k : Fin n, k.val = 0 ∧ Function.update s.vcpu i l' k = l := by
  obtain ⟨k, hk, hloc⟩ := hs
  refine ⟨k, hk, ?_⟩
  rw [Function.update_of_ne, hloc]
  rintro rfl
  exact hi hloc

/-- vCPU 0 does not go on before its thread moves. --/
theorem step_firstAt (h : step timeoutMs s e = some t) (hs : FirstAt s .pausedCommand) :
    FirstAt t .pausedCommand ∨ ∃ i : Fin n, i.val = 0 ∧ e = .vcpu i := by
  cases e with
  | host c =>
    cases h
    exact .inl hs
  | vcpu i =>
    obtain ⟨r, -, rfl⟩ := Option.map_eq_some_iff.mp h
    by_cases hi : i.val = 0
    · exact .inr ⟨i, hi, rfl⟩
    · obtain ⟨k, hk, hloc⟩ := hs
      refine .inl ⟨k, hk, (Function.update_of_ne ?_ _ _).trans hloc⟩
      rintro rfl
      exact hi hk
  | pollFails i message =>
    obtain ⟨⟨-, hloc⟩, heq⟩ := Option.ite_none_right_eq_some.mp h
    cases heq
    exact .inl (firstAt_update hs (by rcases hloc with hl | hl <;> rw [hl] <;> nofun))
  | exit i x =>
    obtain ⟨hloc, heq⟩ := Option.ite_none_right_eq_some.mp h
    cases heq
    exact .inl (firstAt_update hs (by rw [hloc]; nofun))
  | kick i =>
    obtain ⟨⟨hloc, -⟩, heq⟩ := Option.ite_none_right_eq_some.mp h
    cases heq
    exact .inl (firstAt_update hs (by rw [hloc]; nofun))
  | deliver i =>
    obtain ⟨-, heq⟩ := Option.ite_none_right_eq_some.mp h
    cases heq
    exact .inl hs
  | watchdog yes =>
    have hvcpu := (watchdogStep_move h).1.vcpu
    exact .inl (by rwa [FirstAt, hvcpu])
  | main =>
    have hvcpu := (mainStep_move h).1.vcpu
    exact .inl (by rwa [FirstAt, hvcpu])

theorem vcpuStep_uncounted {i : Fin n} {l l' : Loc} {u u' : Shared n} (h : vcpuStep timeoutMs i l u = some (l', u'))
    (hl : l.counted = false) : l'.counted = false ∨ l = .addPaused := by
  cases l with
  | call c =>
    obtain ⟨r, -, heq⟩ := Option.map_eq_some_iff.mp h
    cases heq
    exact .inl (counted_afterCall r.1)
  | _ => grind [vcpuStep, Loc.counted]

theorem update_uncounted {i j : Fin n} {l : Loc} (hs : (s.vcpu i).counted = false) (hl : l.counted = false) :
    (Function.update s.vcpu j l i).counted = false := by
  rw [Function.update_apply]
  split
  · exact hl
  · exact hs

/-- A vCPU comes into the pause wait by its own access alone. --/
theorem step_uncounted {i : Fin n} (h : step timeoutMs s e = some t) (hs : (s.vcpu i).counted = false) :
    (t.vcpu i).counted = false ∨ e = .vcpu i ∧ s.vcpu i = .addPaused := by
  cases e with
  | host c =>
    cases h
    exact .inl hs
  | vcpu j =>
    obtain ⟨r, hr, rfl⟩ := Option.map_eq_some_iff.mp h
    by_cases hj : i = j
    · subst hj
      rcases vcpuStep_uncounted hr hs with hnext | hadd
      · exact .inl (update_uncounted hs hnext)
      · exact .inr ⟨rfl, hadd⟩
    · refine .inl ?_
      dsimp only
      rwa [Function.update_of_ne hj]
  | pollFails j message =>
    obtain ⟨-, heq⟩ := Option.ite_none_right_eq_some.mp h
    cases heq
    exact .inl (update_uncounted hs rfl)
  | exit j x =>
    obtain ⟨-, heq⟩ := Option.ite_none_right_eq_some.mp h
    cases heq
    refine .inl (update_uncounted hs ?_)
    rcases handleExit_cases j x with hx | hx | ⟨c, hx⟩ <;> rw [hx] <;> rfl
  | kick j =>
    obtain ⟨-, heq⟩ := Option.ite_none_right_eq_some.mp h
    cases heq
    exact .inl (update_uncounted hs rfl)
  | deliver j =>
    obtain ⟨-, heq⟩ := Option.ite_none_right_eq_some.mp h
    cases heq
    exact .inl hs
  | watchdog yes => exact .inl (by rwa [(watchdogStep_move h).1.vcpu])
  | main => exact .inl (by rwa [(mainStep_move h).1.vcpu])

theorem not_waiting {i : Fin n} (hi : (s.vcpu i).counted = false) : ¬Waiting s := by
  rintro ⟨-, hall⟩
  exact absurd ((hall i).symm.trans hi) nofun

end

/-! ### The measured pause -/

/-- vCPU 0 measures the pauses that it has not added, and waits until it has added what it measured. --/
structure MeasureInv (timeoutMs : Nat) (s : Account n) : Prop where
  outside : s.pausedAt = none → ∀ i : Fin n, i.val = 0 → 0 < timeoutMs →
    (s.vcpu i).counted = false ∧ s.waited = s.settled
  inside : ∀ since, s.pausedAt = some since → s.pausedMs = none → s.waited + since ≤ s.settled + s.now
  measured : ∀ ms, s.pausedMs = some ms → 0 < timeoutMs ∧ s.pausedAt ≠ none ∧ FirstAt s.toMachine .pausedCommand

theorem initial_measureInv : MeasureInv timeoutMs (initialAccount n) where
  outside _ _ _ _ := ⟨rfl, rfl⟩
  inside := nofun
  measured := nofun

section
variable {s t : Account n}

theorem MeasureInv.tick {ns : Nat} (h : MeasureInv timeoutMs s) (hs : accountStep timeoutMs s (.tick ns) = some t) :
    MeasureInv timeoutMs t := by
  cases hs
  refine ⟨fun hat i hi htimeout => ?_, fun since hsince hms => ?_, h.measured⟩
  · obtain ⟨hcounted, hwaited⟩ := h.outside hat i hi htimeout
    refine ⟨hcounted, ?_⟩
    dsimp only
    rwa [if_neg (not_waiting hcounted)]
  · have hle := h.inside since hsince hms
    dsimp only
    split <;> omega

theorem MeasureInv.readPausedAt (h : MeasureInv timeoutMs s) (hs : accountStep timeoutMs s .readPausedAt = some t) :
    MeasureInv timeoutMs t := by
  obtain ⟨u, hu, rfl⟩ := Option.map_eq_some_iff.mp hs
  obtain ⟨⟨htimeout, ⟨i, hi, -⟩, hat⟩, heq⟩ := Option.ite_none_right_eq_some.mp hu
  cases heq
  refine ⟨nofun, fun since hsince _ => ?_, fun ms hms => ?_⟩
  · obtain rfl := Option.some.inj hsince
    exact Nat.add_le_add_right (h.outside hat i hi htimeout).2.le s.now
  · obtain ⟨-, hmeasured, -⟩ := h.measured ms hms
    exact absurd hat hmeasured

theorem MeasureInv.readPausedMs (h : MeasureInv timeoutMs s) (hs : accountStep timeoutMs s .readPausedMs = some t) :
    MeasureInv timeoutMs t := by
  obtain ⟨u, hu, rfl⟩ := Option.map_eq_some_iff.mp hs
  obtain ⟨⟨htimeout, hfirst, -⟩, hread⟩ := Option.ite_none_right_eq_some.mp hu
  obtain ⟨since, hsince, rfl⟩ := Option.map_eq_some_iff.mp hread
  refine ⟨h.outside, nofun, fun ms _ => ⟨htimeout, ?_, hfirst⟩⟩
  show s.pausedAt ≠ none
  rw [hsince]
  nofun

theorem MeasureInv.addPausedMs (h : MeasureInv timeoutMs s) (hs : accountStep timeoutMs s .addPausedMs = some t) :
    MeasureInv timeoutMs t := by
  obtain ⟨u, hu, rfl⟩ := Option.map_eq_some_iff.mp hs
  obtain ⟨ms, hms, rfl⟩ := Option.map_eq_some_iff.mp hu
  obtain ⟨-, -, k, hk, hloc⟩ := h.measured ms hms
  refine ⟨fun _ i hi _ => ⟨?_, rfl⟩, nofun, nofun⟩
  obtain rfl : k = i := Fin.ext (hk.trans hi.symm)
  show (s.vcpu k).counted = false
  rw [hloc]
  rfl

theorem MeasureInv.loadExtension (h : MeasureInv timeoutMs s) (hs : accountStep timeoutMs s .loadExtension = some t) :
    MeasureInv timeoutMs t := by
  obtain ⟨u, hu, rfl⟩ := Option.map_eq_some_iff.mp hs
  obtain ⟨-, heq⟩ := Option.ite_none_right_eq_some.mp hu
  cases heq
  exact ⟨h.outside, h.inside, h.measured⟩

/-- An access of the run loop. --/
theorem MeasureInv.step {e : Event n} (h : MeasureInv timeoutMs s) (hs : accountStep timeoutMs s (.step e) = some t) :
    MeasureInv timeoutMs t := by
  obtain ⟨u, hu, rfl⟩ := Option.map_eq_some_iff.mp hs
  obtain ⟨hallows, hstep⟩ := Option.ite_none_right_eq_some.mp hu
  obtain ⟨m, hm, rfl⟩ := Option.map_eq_some_iff.mp hstep
  refine ⟨fun hat i hi htimeout => ?_, h.inside, fun ms hms => ?_⟩
  · obtain ⟨hcounted, hwaited⟩ := h.outside hat i hi htimeout
    refine ⟨(step_uncounted hm hcounted).resolve_right ?_, hwaited⟩
    -- vCPU 0 reads the clock before it goes into the wait.
    rintro ⟨rfl, hadd⟩
    have hnone : s.pausedAt = none := hat
    simp [clockAllows, hi, hadd, hnone, htimeout.ne'] at hallows
  · obtain ⟨htimeout, hsince, hfirst⟩ := h.measured ms hms
    refine ⟨htimeout, hsince, (step_firstAt hm hfirst).resolve_right ?_⟩
    -- The thread of vCPU 0 waits until it has added the pause.
    rintro ⟨i, hi, rfl⟩
    obtain ⟨k, hk, hloc⟩ := hfirst
    obtain rfl : k = i := Fin.ext (hk.trans hi.symm)
    simp [clockAllows, hi, hloc, htimeout.ne', hsince] at hallows

theorem step_measureInv {e : ClockEvent n} (h : MeasureInv timeoutMs s) (hs : accountStep timeoutMs s e = some t) :
    MeasureInv timeoutMs t := by
  cases e with
  | tick ns => exact h.tick hs
  | step e => exact h.step hs
  | readPausedAt => exact h.readPausedAt hs
  | readPausedMs => exact h.readPausedMs hs
  | addPausedMs => exact h.addPausedMs hs
  | loadExtension => exact h.loadExtension hs

/-- In every run vCPU 0 measures at least the time that the machine was paused: only what is cut off can be missing. --/
theorem paused_le_measured {ok : Account n → ClockEvent n → Prop} {es : List (ClockEvent n)} {since : Nat}
    (h : Runs.Under (accountStep timeoutMs) ok (initialAccount n) es s) (hsince : s.pausedAt = some since)
    (hms : s.pausedMs = none) : s.waited - s.settled ≤ s.now - since := by
  have hinv := h.invariant (P := MeasureInv timeoutMs) (fun _ _ _ hs _ => step_measureInv hs) initial_measureInv
  have hinside := hinv.inside since hsince hms
  omega

end

/-! ### The account -/

/-- What the run has added and what the watchdog has read cover the paused time that they stand for. --/
structure TimeoutInv (timeoutMs : Nat) (s : Account n) : Prop where
  settled : s.settled ≤ s.timeoutExtensionMs * nsPerMs
  loaded : ∀ ms, s.loadedMs = some ms → s.loadedSettled ≤ ms * nsPerMs
  measured : ∀ ms, s.pausedMs = some ms → s.waited ≤ s.settled + ms * nsPerMs
  fair : Fair timeoutMs s

theorem initial_timeoutInv : TimeoutInv timeoutMs (initialAccount n) where
  settled := Nat.zero_le _
  loaded := nofun
  measured := nofun
  fair := nofun

section
variable {s t : Account n}

theorem TimeoutInv.tick {ns : Nat} (h : TimeoutInv timeoutMs s) (hpause : MeasureInv timeoutMs s)
    (hs : accountStep timeoutMs s (.tick ns) = some t) : TimeoutInv timeoutMs t := by
  cases hs
  refine ⟨h.settled, h.loaded, fun ms hms => ?_, fun ht => ?_⟩
  · obtain ⟨-, -, i, -, hloc⟩ := hpause.measured ms hms
    have hcounted : (s.vcpu i).counted = false := by
      rw [hloc]
      rfl
    dsimp only
    rw [if_neg (not_waiting hcounted)]
    exact h.measured ms hms
  · have hlt := h.fair ht
    dsimp only
    split <;> omega

theorem TimeoutInv.readPausedAt (h : TimeoutInv timeoutMs s) (hs : accountStep timeoutMs s .readPausedAt = some t) :
    TimeoutInv timeoutMs t := by
  obtain ⟨u, hu, rfl⟩ := Option.map_eq_some_iff.mp hs
  obtain ⟨-, heq⟩ := Option.ite_none_right_eq_some.mp hu
  cases heq
  exact ⟨h.settled, h.loaded, h.measured, h.fair⟩

theorem TimeoutInv.readPausedMs (h : TimeoutInv timeoutMs s) (hok : PausesCounted s .readPausedMs)
    (hs : accountStep timeoutMs s .readPausedMs = some t) : TimeoutInv timeoutMs t := by
  obtain ⟨u, hu, rfl⟩ := Option.map_eq_some_iff.mp hs
  obtain ⟨-, hread⟩ := Option.ite_none_right_eq_some.mp hu
  obtain ⟨since, hsince, rfl⟩ := Option.map_eq_some_iff.mp hread
  refine ⟨h.settled, h.loaded, fun ms hms => ?_, h.fair⟩
  obtain rfl := Option.some.inj hms
  have hcut := hok since hsince
  have hdiv := Nat.div_add_mod (s.now - since) nsPerMs
  rw [Nat.mul_comm] at hdiv
  show s.waited ≤ s.settled + (s.now - since) / nsPerMs * nsPerMs
  omega

theorem TimeoutInv.addPausedMs (h : TimeoutInv timeoutMs s) (hs : accountStep timeoutMs s .addPausedMs = some t) :
    TimeoutInv timeoutMs t := by
  obtain ⟨u, hu, rfl⟩ := Option.map_eq_some_iff.mp hs
  obtain ⟨ms, hms, rfl⟩ := Option.map_eq_some_iff.mp hu
  have hle := h.measured ms hms
  have hsettled := h.settled
  refine ⟨?_, h.loaded, nofun, h.fair⟩
  show s.waited ≤ (s.timeoutExtensionMs + ms) * nsPerMs
  rw [Nat.add_mul]
  omega

theorem TimeoutInv.loadExtension (h : TimeoutInv timeoutMs s) (hs : accountStep timeoutMs s .loadExtension = some t) :
    TimeoutInv timeoutMs t := by
  obtain ⟨u, hu, rfl⟩ := Option.map_eq_some_iff.mp hs
  obtain ⟨-, heq⟩ := Option.ite_none_right_eq_some.mp hu
  cases heq
  refine ⟨h.settled, fun ms hms => ?_, h.measured, h.fair⟩
  obtain rfl := Option.some.inj hms
  exact h.settled

/-- An access of the run loop. --/
theorem TimeoutInv.step {e : Event n} (h : TimeoutInv timeoutMs s) (hok : PausesCounted s (.step e))
    (hs : accountStep timeoutMs s (.step e) = some t) : TimeoutInv timeoutMs t := by
  obtain ⟨u, hu, rfl⟩ := Option.map_eq_some_iff.mp hs
  obtain ⟨hallows, hstep⟩ := Option.ite_none_right_eq_some.mp hu
  obtain ⟨m, hm, rfl⟩ := Option.map_eq_some_iff.mp hstep
  refine ⟨h.settled, fun ms hms => h.loaded ms ?_, h.measured, fun ht => ?_⟩
  · dsimp only at hms
    split at hms
    · cases hms
    · exact hms
  · rcases step_watchdogTimeout hm with hkept | ⟨rfl, hcompares⟩
    · exact h.fair (hkept.symm.trans ht)
    · -- What the watchdog has read covers all the paused time.
      rw [clockAllows, if_pos hcompares] at hallows
      obtain ⟨ms, hms, hyes⟩ := (Option.any_eq_true ..).mp hallows
      have hlate := of_decide_eq_true (of_decide_eq_true hyes).symm
      have hcovered := h.loaded ms hms
      rw [← hok hcompares] at hcovered
      rw [Nat.add_mul] at hlate
      show timeoutMs * nsPerMs + s.waited < s.now
      omega

theorem step_timeoutInv {e : ClockEvent n} (h : TimeoutInv timeoutMs s) (hpause : MeasureInv timeoutMs s)
    (hok : PausesCounted s e) (hs : accountStep timeoutMs s e = some t) : TimeoutInv timeoutMs t := by
  cases e with
  | tick ns => exact h.tick hpause hs
  | step e => exact h.step hok hs
  | readPausedAt => exact h.readPausedAt hs
  | readPausedMs => exact h.readPausedMs hok hs
  | addPausedMs => exact h.addPausedMs hs
  | loadExtension => exact h.loadExtension hs

/-- In every run whose pauses are counted when the watchdog compares, it times out only after the timeout without the time
    that the machine was paused. --/
theorem watchdog_timeout_fair {es : List (ClockEvent n)}
    (h : Runs.Under (accountStep timeoutMs) PausesCounted (initialAccount n) es s) (ht : s.watchdogTimeout = true) :
    timeoutMs * nsPerMs + s.waited < s.now := by
  have hinv : MeasureInv timeoutMs s ∧ TimeoutInv timeoutMs s :=
    h.invariant (P := fun s => MeasureInv timeoutMs s ∧ TimeoutInv timeoutMs s)
      (fun _ _ _ hs hok hstep => ⟨step_measureInv hs.1 hstep, step_timeoutInv hs.2 hs.1 hok hstep⟩)
      ⟨initial_measureInv, initial_timeoutInv⟩
  exact hinv.2.fair ht

instance : ∀ (s : Account n) (e : ClockEvent n), Decidable (PausesCounted s e)
  | _, .step (.watchdog true) => inferInstanceAs (Decidable (_ → _))
  | _, .readPausedMs => inferInstanceAs (Decidable (∀ since, since ∈ _ → _))
  | _, .step (.watchdog false) | _, .step (.host _) | _, .step (.vcpu _) | _, .step (.pollFails _ _) | _, .step (.exit _ _)
  | _, .step (.kick _) | _, .step (.deliver _) | _, .step .main | _, .tick _ | _, .readPausedAt | _, .addPausedMs
  | _, .loadExtension => isTrue trivial

/-- The accesses of the watchdog from its sleep to the read of the extension, and the comparison. --/
def watchdogRound : List (ClockEvent n) :=
  [.step (.watchdog false), .step (.watchdog false), .step (.watchdog false), .step (.watchdog false), .step (.watchdog false),
    .loadExtension, .step (.watchdog true)]

/-- The vCPU goes into the pause wait. --/
def intoPause (i : Fin n) : List (ClockEvent n) :=
  [.step (.vcpu i), .step (.vcpu i), .step (.host .pause), .step (.vcpu i), .readPausedAt, .step (.vcpu i), .step (.vcpu i)]

/-- The vCPU leaves the pause wait and adds the pause. --/
def outOfPause (i : Fin n) : List (ClockEvent n) := [.step (.vcpu i), .step (.vcpu i), .readPausedMs, .addPausedMs]

/-- The theorem on a pause of 3 ms that is measured as 4 ms, and a timeout of 1 ms. --/
theorem watchdog_timeout_after_pause : ∃ s, Runs.Under (accountStep 1) PausesCounted (initialAccount 1)
      (intoPause 0 ++ [.tick 3000000, .step (.host .run), .tick 1000000] ++ outOfPause 0 ++ [.tick 2000000] ++ watchdogRound) s ∧
    1 * nsPerMs + s.waited < s.now := by
  obtain ⟨s, hrun, ht⟩ := Runs.exists_under (accountStep 1) PausesCounted (initialAccount 1)
    (intoPause 0 ++ [.tick 3000000, .step (.host .run), .tick 1000000] ++ outOfPause 0 ++ [.tick 2000000] ++ watchdogRound)
    (fun s => s.watchdogTimeout = true) (by decide +kernel)
  exact ⟨s, hrun, watchdog_timeout_fair hrun ht⟩

/-- A pause of 2 s with a timeout of 1 s: the command leaves Pause, and the watchdog compares before vCPU 0 has added it. --/
theorem watchdog_times_out_pause : ∃ s, Runs.Under (accountStep 1000) (fun _ _ => True) (initialAccount 1)
      (intoPause 0 ++ [.tick 2000000000, .step (.host .run)] ++ watchdogRound) s ∧ ¬Fair 1000 s := by
  obtain ⟨s, hrun, ht, hnow⟩ := Runs.exists_under (accountStep 1000) (fun _ _ => True) (initialAccount 1)
    (intoPause 0 ++ [.tick 2000000000, .step (.host .run)] ++ watchdogRound)
    (fun s => s.watchdogTimeout = true ∧ s.now ≤ 1000 * nsPerMs + s.waited) (by decide +kernel)
  exact ⟨s, hrun, fun hfair => absurd (hfair ht) (Nat.not_lt.mpr hnow)⟩

end
end NodeVmm.RunLoop
