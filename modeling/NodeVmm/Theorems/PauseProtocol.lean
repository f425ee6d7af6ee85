import NodeVmm.RunLoop

/-! The pause protocol. While the command is Pause and Paused is announced, every vCPU thread is at a point
    from which it reads the command before `KVM_RUN`. Nothing restores this when Pause is written too early:
    over a Paused that is left from the last pause, or while a thread that left the pause wait is still
    counted; nor when a stop that the watchdog decides ends the wait. -/

namespace NodeVmm.RunLoop

/-- The thread reads the command before its next `KVM_RUN`. --/
def Loc.held : Loc → Bool
  | .start | .top | .poll | .addPaused | .setPaused | .waitCommand | .waitDone => true
  | _ => false

/-- The thread has left the loop. --/
def Loc.left : Loc → Bool
  | .stopping | .call _ | .returned => true
  | _ => false

/-- The thread is counted in `paused_count`. --/
def Loc.counted : Loc → Bool
  | .setPaused | .waitCommand | .waitDone | .subPaused => true
  | _ => false

def Call.decides : Call → Bool
  | .finish _ _ => true
  | _ => false

variable {n timeoutMs : Nat}

/-- Paused is published, or a thread is about to publish it. --/
def Announced (s : Machine n) : Prop := s.state = .paused ∨ ∃ i, s.vcpu i = .setPaused

/-- A state in which Pause may be written. --/
structure PauseOk (s : Machine n) : Prop where
  held : Announced s → ∀ i, (s.vcpu i).held = true
  settled : (∃ i, (s.vcpu i).left = true) ∨ s.vmDone = false ∧ ∀ i, s.vcpu i ≠ .subPaused

/-- Pause is written only in such a state, and while the command is Pause the watchdog decides no stop unless
    a thread has left the loop. --/
def PausesSettled (s : Machine n) : Event n → Prop
  | .host .pause => s.command = .pause ∨ PauseOk s
  | .watchdog _ => s.watchdogCall.any Call.decides = true → s.command = .pause → s.vmDone = false →
      ∃ i, (s.vcpu i).left = true
  | _ => True

/-! ### Steps -/

section
variable {i : Fin n} {l l' : Loc} {s s' : Shared n}

theorem callStep_keeps {c : Call} {r : Option Call × Shared n} (h : callStep c s = some r) :
    r.2.command = s.command ∧ r.2.state = s.state ∧ r.2.pausedCount = s.pausedCount ∧
      (r.2.vmDone = s.vmDone ∨ c.decides = true ∧ s.vmDone = false) := by
  cases c <;> grind [callStep, Call.decides]

theorem not_held_of_left (h : l.left = true) : l.held = false := by
  cases l <;> first | rfl | exact nomatch h

theorem not_counted_of_left (h : l.left = true) : l.counted = false := by
  cases l <;> first | rfl | exact nomatch h

/-- The thread is outside the pause wait and outside its calls, past its reading of the command. --/
def Loc.idle : Loc → Bool
  | .pollRx | .pollRxAgain | .kvmRun => true
  | _ => false

theorem idle_cases (h : l.idle = true) : l.held = false ∧ l.left = false ∧ l.counted = false := by
  cases l <;> first | exact ⟨rfl, rfl, rfl⟩ | exact nomatch h

theorem left_afterCall (c : Option Call) : (afterCall c).left = true := by
  cases c <;> rfl

theorem counted_afterCall (c : Option Call) : (afterCall c).counted = false := by
  cases c <;> rfl

/-- A thread outside its calls reads and writes the count as its location says. --/
theorem vcpuStep_count (h : vcpuStep timeoutMs i l s = some (l', s')) :
    s'.pausedCount = s.pausedCount + (if l'.counted then 1 else 0) - (if l.counted then 1 else 0) := by
  cases l with
  | call c =>
    obtain ⟨r, hr, heq⟩ := Option.map_eq_some_iff.mp h
    cases heq
    rw [counted_afterCall, (callStep_keeps hr).2.2.1]
    rfl
  | _ => grind [vcpuStep, Loc.counted]

theorem vcpuStep_command (h : vcpuStep timeoutMs i l s = some (l', s')) : s'.command = s.command := by
  cases l with
  | call c =>
    obtain ⟨r, hr, heq⟩ := Option.map_eq_some_iff.mp h
    cases heq
    exact (callStep_keeps hr).1
  | _ => grind [vcpuStep]

theorem vcpuStep_left (h : vcpuStep timeoutMs i l s = some (l', s')) (hl : l.left = true) : l'.left = true := by
  cases l with
  | call c =>
    obtain ⟨r, hr, heq⟩ := Option.map_eq_some_iff.mp h
    cases heq
    exact left_afterCall r.1
  | _ => grind [vcpuStep, Loc.left]

/-- What an access of a vCPU thread does while the command is Pause. --/
structure PausedMove (l l' : Loc) (s s' : Shared n) : Prop where
  held : s.vmDone = false → l.held = true → l'.held = true
  paused : s'.state = .paused → s.state = .paused ∨ l = .setPaused
  announces : l' = .setPaused → s.pausedCount + 1 = n ∧ s'.pausedCount = n
  leaves : l' = .subPaused → s.vmDone = true
  done : s'.vmDone = s.vmDone ∨ l.left = true

theorem vcpuStep_paused (hc : s.command = .pause) (h : vcpuStep timeoutMs i l s = some (l', s')) :
    PausedMove l l' s s' := by
  cases l with
  | call c =>
    obtain ⟨r, hr, heq⟩ := Option.map_eq_some_iff.mp h
    cases heq
    have hleft := left_afterCall r.1
    refine ⟨fun _ hheld => (nomatch hheld), fun hp => Or.inl ((callStep_keeps hr).2.1.symm.trans hp), fun heq => ?_, fun heq => ?_, Or.inr rfl⟩
    · rw [heq] at hleft
      cases hleft
    · rw [heq] at hleft
      cases hleft
  | _ => constructor <;> grind [vcpuStep, Loc.held, Loc.left]

end

/-! ### Pause stays settled -/

section
variable {s t : Machine n} {i : Fin n} {l' : Loc}

/-- A step that announces nothing, lets no thread out of the wait, and decides no stop while all threads are in
    the loop. --/
theorem PauseOk.keep (h : PauseOk s) (hannounced : Announced t → Announced s)
    (hheld : s.vmDone = false → Announced s → ∀ j, (s.vcpu j).held = true → (t.vcpu j).held = true)
    (hleft : ∀ j, (s.vcpu j).left = true → (t.vcpu j).left = true)
    (hsub : s.vmDone = false → ∀ j, t.vcpu j = .subPaused → s.vcpu j = .subPaused)
    (hdone : t.vmDone = s.vmDone ∨ ∃ j, (s.vcpu j).left = true) : PauseOk t := by
  have hsettled : (∃ j, (t.vcpu j).left = true) ∨ t.vmDone = false ∧ ∀ j, t.vcpu j ≠ .subPaused := by
    rcases h.settled with ⟨j, hj⟩ | ⟨hd, hnone⟩
    · exact Or.inl ⟨j, hleft j hj⟩
    · rcases hdone with hd' | ⟨j, hj⟩
      · exact Or.inr ⟨hd'.trans hd, fun j hj => hnone j (hsub hd j hj)⟩
      · exact Or.inl ⟨j, hleft j hj⟩
  refine ⟨fun ha j => ?_, hsettled⟩
  have hall := h.held (hannounced ha)
  rcases h.settled with ⟨k, hk⟩ | ⟨hd, -⟩
  · exact absurd ((hall k).symm.trans (not_held_of_left hk)) nofun
  · exact hheld hd (hannounced ha) j (hall j)

theorem held_of_counted {l : Loc} (h : l.counted = true) (hsub : l ≠ .subPaused) : l.held = true := by
  cases l <;> first | rfl | exact absurd rfl hsub | exact nomatch h

/-- The number of counted threads after one of them moved. --/
theorem count_move (hcount : s.pausedCount = Threads.count Loc.counted s.vcpu) {k : Nat}
    (hk : k = s.pausedCount + (if l'.counted then 1 else 0) - (if (s.vcpu i).counted then 1 else 0)) :
    k = Threads.count Loc.counted (Function.update s.vcpu i l') := by
  have hsum := Threads.count_update Loc.counted s.vcpu i l'
  rw [hk, hcount]
  omega

/-- The access of a vCPU thread keeps Pause settled: only a full count announces Paused. --/
theorem PauseOk.vcpu (h : PauseOk s) (hcount : s.pausedCount = Threads.count Loc.counted s.vcpu) {s' : Shared n}
    (hstep : vcpuStep timeoutMs i (s.vcpu i) s.toShared = some (l', s')) (hmove : PausedMove (s.vcpu i) l' s.toShared s') :
    PauseOk { s with toShared := s', vcpu := Function.update s.vcpu i l' } := by
  by_cases hset : l' = .setPaused
  · -- all threads are counted
    subst hset
    obtain ⟨-, hfull⟩ := hmove.announces rfl
    have hcounted := fun j => Threads.all_of_count_eq
      ((count_move hcount (vcpuStep_count hstep)).symm.trans hfull) j
    rcases h.settled with ⟨j, hj⟩ | ⟨hd, hnone⟩
    · have hleft : (Function.update s.vcpu i Loc.setPaused j).left = true :=
        Threads.update_imp (P := fun l : Loc => l.left = true) (vcpuStep_left hstep) hj
      exact absurd ((hcounted j).symm.trans (not_counted_of_left hleft)) nofun
    · have hsub : ∀ j, Function.update s.vcpu i Loc.setPaused j ≠ Loc.subPaused := fun j =>
        Threads.update_intro (P := (· ≠ Loc.subPaused)) (fun _ => nofun) fun _ => hnone j
      refine ⟨fun _ j => held_of_counted (hcounted j) (hsub j), Or.inr ⟨?_, hsub⟩⟩
      rcases hmove.done with hd' | hl
      · exact hd'.trans hd
      · exact absurd (vcpuStep_left hstep hl) nofun
  · refine h.keep ?_ (fun hd _ j hj => ?_) (fun j hj => ?_) (fun hd j hj => ?_) ?_
    · rintro (hp | ⟨j, hj⟩)
      · rcases hmove.paused hp with hp | hl
        · exact Or.inl hp
        · exact Or.inr ⟨i, hl⟩
      · exact Or.inr ⟨j, Threads.imp_of_update (P := (· = Loc.setPaused)) (fun heq => absurd heq hset) hj⟩
    · exact Threads.update_imp (P := fun l : Loc => l.held = true) (hmove.held hd) hj
    · exact Threads.update_imp (P := fun l : Loc => l.left = true) (vcpuStep_left hstep) hj
    · exact Threads.imp_of_update (P := (· = Loc.subPaused)) (fun heq => by
        have := hmove.leaves heq
        rw [hd] at this
        cases this) hj
    · exact hmove.done.imp_right fun hl => ⟨i, hl⟩

/-- A thread leaves `KVM_RUN` or a device call: nothing is announced by it. --/
theorem PauseOk.move (h : PauseOk s) (hheld : (s.vcpu i).held = false) (hleft : (s.vcpu i).left = false)
    (hset : l' ≠ .setPaused) (hsub : l' ≠ .subPaused) {f : Fin n → Bool} :
    PauseOk { s with vcpu := Function.update s.vcpu i l', signal := f } := by
  refine h.keep ?_ (fun _ ha => ?_) (fun j hj => ?_) (fun _ j hj => ?_) (Or.inl rfl)
  · rintro (hp | ⟨j, hj⟩)
    · exact Or.inl hp
    · exact Or.inr ⟨j, Threads.imp_of_update (P := (· = Loc.setPaused)) (fun heq => absurd heq hset) hj⟩
  · exact absurd ((h.held ha i).symm.trans hheld) nofun
  · exact Threads.update_imp (P := fun l : Loc => l.left = true) (fun hl => absurd (hl.symm.trans hleft) nofun) hj
  · exact Threads.imp_of_update (P := (· = Loc.subPaused)) (fun heq => absurd heq hsub) hj

end

/-! ### Runs -/

section
variable {s t : Machine n}

structure PauseInv (s : Machine n) : Prop where
  count : s.pausedCount = Threads.count Loc.counted s.vcpu
  main : s.main ≠ .loop → ∃ i, (s.vcpu i).left = true
  ok : s.command = .pause → PauseOk s

theorem initial_pauseInv : PauseInv (initial n) := by
  refine ⟨?_, fun h => absurd rfl h, nofun⟩
  simp [initial, Threads.count, Loc.counted]

/-- What an access of the watchdog or of the main thread does. --/
structure OtherMove (s t : Machine n) : Prop where
  vcpu : t.vcpu = s.vcpu
  command : t.command = s.command
  count : t.pausedCount = s.pausedCount
  paused : t.state = .paused → s.state = .paused

theorem watchdogStep_move {yes : Bool} (h : watchdogStep timeoutMs yes s = some t) : OtherMove s t ∧ t.main = s.main ∧
    (t.vmDone = s.vmDone ∨ s.watchdogCall.any Call.decides = true ∧ s.vmDone = false) := by
  unfold watchdogStep at h
  cases hc : s.watchdogCall with
  | some c =>
    rw [hc] at h
    obtain ⟨r, hr, rfl⟩ := Option.map_eq_some_iff.mp h
    obtain ⟨hcommand, hstate, hcount, hdone⟩ := callStep_keeps hr
    exact ⟨⟨rfl, hcommand, hcount, fun hp => hstate ▸ hp⟩, rfl, hdone⟩
  | none =>
    rw [hc] at h
    refine ⟨?_, ?_, Or.inl ?_⟩ <;> grind [OtherMove]

theorem mainStep_move (h : mainStep s = some t) : OtherMove s t ∧
    (s.main = .loop → ∃ i, s.vcpu i = .returned) ∧ (t.vmDone = s.vmDone ∨ s.main ≠ .loop) := by
  unfold mainStep at h
  cases hm : s.main with
  | call c =>
    rw [hm] at h
    obtain ⟨r, hr, rfl⟩ := Option.map_eq_some_iff.mp h
    obtain ⟨hcommand, hstate, hcount, -⟩ := callStep_keeps hr
    exact ⟨⟨rfl, hcommand, hcount, fun hp => hstate ▸ hp⟩, nofun, Or.inr nofun⟩
  | loop =>
    rw [hm] at h
    dsimp only at h
    split at h
    · rename_i hret
      obtain ⟨i, -, hi⟩ := hret
      cases h
      exact ⟨⟨rfl, rfl, rfl, id⟩, fun _ => ⟨i, hi⟩, Or.inl rfl⟩
    · cases h
  | _ =>
    rw [hm] at h
    refine ⟨?_, nofun, Or.inr nofun⟩
    grind [OtherMove]

/-- Pause stays settled when the watchdog or the main thread moves, if a stop is decided only after a thread
    left the loop. --/
theorem PauseOk.other (h : PauseOk s) (hmove : OtherMove s t)
    (hdone : t.vmDone = s.vmDone ∨ ∃ i, (s.vcpu i).left = true) : PauseOk t := by
  refine h.keep ?_ (fun _ _ j hj => hmove.vcpu ▸ hj) (fun j hj => hmove.vcpu ▸ hj) (fun _ j hj => hmove.vcpu ▸ hj) hdone
  rintro (hp | ⟨j, hj⟩)
  · exact Or.inl (hmove.paused hp)
  · exact Or.inr ⟨j, hmove.vcpu ▸ hj⟩

/-- A thread leaves `KVM_RUN`, or `poll_rx` throws. --/
theorem PauseInv.move (h : PauseInv s) {i : Fin n} {l' : Loc} {f : Fin n → Bool} (hidle : (s.vcpu i).idle = true)
    (hcounted : l'.counted = false) (hset : l' ≠ .setPaused) :
    PauseInv { s with vcpu := Function.update s.vcpu i l', signal := f } := by
  obtain ⟨hheld, hleft, hcount⟩ := idle_cases hidle
  refine ⟨count_move h.count ?_, fun hm => ?_, fun hc => (h.ok hc).move hheld hleft hset ?_⟩
  · rw [hcount, hcounted]
    rfl
  · obtain ⟨j, hj⟩ := h.main hm
    exact ⟨j, Threads.update_imp (P := fun l : Loc => l.left = true) (fun hl => absurd (hl.symm.trans hleft) nofun) hj⟩
  · rintro rfl
    cases hcounted

theorem step_pauseInv {e : Event n} (h : PauseInv s) (hok : PausesSettled s e) (hs : step timeoutMs s e = some t) :
    PauseInv t := by
  cases e with
  | host c =>
    cases hs
    refine ⟨h.count, h.main, fun hc => ?_⟩
    have hp : PauseOk s := by
      cases (hc : c = .pause)
      exact hok.elim h.ok id
    exact hp.keep id (fun _ _ _ hj => hj) (fun _ hj => hj) (fun _ _ hj => hj) (Or.inl rfl)
  | vcpu i =>
    obtain ⟨⟨l', s'⟩, hr, rfl⟩ := Option.map_eq_some_iff.mp hs
    refine ⟨count_move h.count (vcpuStep_count hr), fun hm => ?_, fun hc => ?_⟩
    · obtain ⟨j, hj⟩ := h.main hm
      exact ⟨j, Threads.update_imp (P := fun l : Loc => l.left = true) (vcpuStep_left hr) hj⟩
    · have hcs := (vcpuStep_command hr).symm.trans hc
      exact (h.ok hcs).vcpu h.count hr (vcpuStep_paused hcs hr)
  | pollFails i message =>
    obtain ⟨⟨-, hloc⟩, heq⟩ := Option.ite_none_right_eq_some.mp hs
    cases heq
    exact h.move (by rcases hloc with hl | hl <;> rw [hl] <;> rfl) rfl nofun
  | exit i x =>
    obtain ⟨hloc, heq⟩ := Option.ite_none_right_eq_some.mp hs
    cases heq
    rcases handleExit_cases i x with hx | hx | ⟨c, hx⟩ <;> rw [hx] <;>
      exact h.move (by rw [hloc]; rfl) rfl nofun
  | kick i =>
    obtain ⟨⟨hloc, -⟩, heq⟩ := Option.ite_none_right_eq_some.mp hs
    cases heq
    exact h.move (by rw [hloc]; rfl) rfl nofun
  | deliver i =>
    obtain ⟨-, heq⟩ := Option.ite_none_right_eq_some.mp hs
    cases heq
    exact ⟨h.count, h.main, fun hc =>
      (h.ok hc).keep id (fun _ _ _ hj => hj) (fun _ hj => hj) (fun _ _ hj => hj) (Or.inl rfl)⟩
  | watchdog yes =>
    obtain ⟨hmove, hmain, hdone⟩ := watchdogStep_move hs
    refine ⟨hmove.count.trans (hmove.vcpu ▸ h.count), fun hm => hmove.vcpu ▸ h.main (hmain ▸ hm), fun hc => ?_⟩
    have hcs := hmove.command.symm.trans hc
    refine (h.ok hcs).other hmove (hdone.imp_right fun ⟨hdecides, hd⟩ => hok hdecides hcs hd)
  | main =>
    obtain ⟨hmove, hloop, hdone⟩ := mainStep_move hs
    have hleft : ∃ i, (s.vcpu i).left = true := by
      by_cases hm : s.main = .loop
      · obtain ⟨i, hi⟩ := hloop hm
        exact ⟨i, hi ▸ rfl⟩
      · exact h.main hm
    exact ⟨hmove.count.trans (hmove.vcpu ▸ h.count), fun _ => hmove.vcpu ▸ hleft,
      fun hc => (h.ok (hmove.command.symm.trans hc)).other hmove (Or.inr hleft)⟩

/-- Every thread is where it reads the command before `KVM_RUN`, and no stop is decided. --/
structure Parked (s : Machine n) : Prop where
  command : s.command = .pause
  vmDone : s.vmDone = false
  main : s.main = .loop
  held : ∀ i, (s.vcpu i).held = true

theorem PauseInv.parked (h : PauseInv s) (hp : s.state = .paused) (hc : s.command = .pause) : Parked s := by
  have hok := h.ok hc
  have hall := hok.held (Or.inl hp)
  rcases hok.settled with ⟨i, hi⟩ | ⟨hd, -⟩
  · exact absurd ((hall i).symm.trans (not_held_of_left hi)) nofun
  · refine ⟨hc, hd, ?_, hall⟩
    by_contra hm
    obtain ⟨i, hi⟩ := h.main hm
    exact absurd ((hall i).symm.trans (not_held_of_left hi)) nofun

theorem step_parked {e : Event n} (h : Parked s) (hc : ∀ c, e = .host c → c = .pause) (hok : PausesSettled s e)
    (hs : step timeoutMs s e = some t) : Parked t := by
  have hnone : ∀ {P : Prop} i, (s.vcpu i).held = false → P := fun i hi => absurd ((h.held i).symm.trans hi) nofun
  cases e with
  | host c =>
    cases hs
    exact ⟨hc c rfl, h.vmDone, h.main, h.held⟩
  | vcpu i =>
    obtain ⟨⟨l', s'⟩, hr, rfl⟩ := Option.map_eq_some_iff.mp hs
    have hmove := vcpuStep_paused h.command hr
    refine ⟨(vcpuStep_command hr).trans h.command, ?_, h.main, fun j =>
      Threads.update_imp (P := fun l : Loc => l.held = true) (hmove.held h.vmDone) (h.held j)⟩
    rcases hmove.done with hd | hl
    · exact hd.trans h.vmDone
    · exact hnone i (not_held_of_left hl)
  | pollFails i message =>
    obtain ⟨⟨-, hloc⟩, -⟩ := Option.ite_none_right_eq_some.mp hs
    exact hnone i (by rcases hloc with hl | hl <;> rw [hl] <;> rfl)
  | exit i x => exact hnone i (congrArg Loc.held (Option.ite_none_right_eq_some.mp hs).1)
  | kick i => exact hnone i (congrArg Loc.held (Option.ite_none_right_eq_some.mp hs).1.1)
  | deliver i =>
    obtain ⟨-, heq⟩ := Option.ite_none_right_eq_some.mp hs
    cases heq
    exact ⟨h.command, h.vmDone, h.main, h.held⟩
  | watchdog yes =>
    obtain ⟨hmove, hmain, hdone⟩ := watchdogStep_move hs
    refine ⟨hmove.command.trans h.command, ?_, hmain.trans h.main, hmove.vcpu ▸ h.held⟩
    rcases hdone with hd | ⟨hdecides, hd⟩
    · exact hd.trans h.vmDone
    · obtain ⟨i, hi⟩ := hok hdecides h.command hd
      exact hnone i (not_held_of_left hi)
  | main =>
    obtain ⟨i, hi⟩ := (mainStep_move hs).2.1 h.main
    exact hnone i (congrArg Loc.held hi)

/-- While Paused is published under the command Pause, no vCPU thread is in `KVM_RUN`, and none enters it before
    the command changes. --/
theorem paused_vcpus_idle {s t : Machine n} {es fs : List (Event n)}
    (h : Runs.Under (step timeoutMs) PausesSettled (initial n) es s) (hp : s.state = .paused) (hc : s.command = .pause)
    (h' : Runs.Under (step timeoutMs) PausesSettled s fs t) (hfs : ∀ e ∈ fs, ∀ c, e = .host c → c = .pause)
    (i : Fin n) : t.vcpu i ≠ .kvmRun := by
  have hinv : PauseInv s := h.invariant (fun _ _ _ hi hok hs => step_pauseInv hi hok hs) initial_pauseInv
  have hparked : Parked t := h'.invariant_of (Q := fun e => ∀ c, e = .host c → c = .pause)
    (fun _ _ _ hi hq hok hs => step_parked hi hq hok hs) hfs (hinv.parked hp hc)
  intro hrun
  exact absurd ((hparked.held i).symm.trans (congrArg Loc.held hrun)) nofun

end

instance {s : Machine n} : Decidable (Announced s) := inferInstanceAs (Decidable (_ ∨ _))

instance {s : Machine n} : Decidable (PauseOk s) :=
  decidable_of_iff ((Announced s → ∀ i, (s.vcpu i).held = true) ∧
    ((∃ i, (s.vcpu i).left = true) ∨ s.vmDone = false ∧ ∀ i, s.vcpu i ≠ .subPaused))
    ⟨fun h => ⟨h.1, h.2⟩, fun h => ⟨h.1, h.2⟩⟩

instance : ∀ (s : Machine n) (e : Event n), Decidable (PausesSettled s e)
  | s, .host .pause => inferInstanceAs (Decidable (s.command = .pause ∨ PauseOk s))
  | _, .watchdog _ => inferInstanceAs (Decidable (_ → _))
  | _, .host .run | _, .host .stop | _, .vcpu _ | _, .pollFails _ _ | _, .exit _ _ | _, .kick _ | _, .deliver _
  | _, .main => isTrue trivial

/-- The theorem on a pause of two vCPUs, whose threads go on reading the command. --/
theorem paused_two_vcpus_idle : ∃ s t, Runs.Under (step 0) PausesSettled (initial 2)
      [.vcpu 0, .vcpu 0, .host .pause, .vcpu 0, .vcpu 0, .vcpu 1, .vcpu 1, .vcpu 1, .vcpu 1, .vcpu 1] s ∧
    Runs.Under (step 0) PausesSettled s [.vcpu 0, .watchdog false, .vcpu 1] t ∧ s.state = .paused ∧
    s.command = .pause ∧ ∀ i, t.vcpu i ≠ .kvmRun := by
  obtain ⟨s, hs, hp, hc, hsome⟩ := Runs.exists_under (step 0) PausesSettled (initial 2)
    [.vcpu 0, .vcpu 0, .host .pause, .vcpu 0, .vcpu 0, .vcpu 1, .vcpu 1, .vcpu 1, .vcpu 1, .vcpu 1]
    (fun s => s.state = .paused ∧ s.command = .pause ∧
      (Runs.runUnder (step 0) PausesSettled s [.vcpu 0, .watchdog false, .vcpu 1]).isSome = true) (by decide)
  obtain ⟨t, ht⟩ := Option.isSome_iff_exists.mp hsome
  have ht := Runs.under_of_runUnder ht
  exact ⟨s, t, hs, ht, hp, hc, paused_vcpus_idle hs hp hc ht (by simp)⟩

/-- The command goes from Pause to Run and back while a thread leaves the pause wait: it enters `KVM_RUN` although
    the command and the published state were Paused before. --/
theorem paused_vcpu_runs : ∃ s t, Runs.Under (step 0) (fun _ _ => True) (initial 1)
      [.vcpu 0, .vcpu 0, .host .pause, .vcpu 0, .vcpu 0, .vcpu 0, .host .run, .vcpu 0, .vcpu 0, .vcpu 0, .vcpu 0,
        .host .pause] s ∧
    Runs.Under (step 0) (fun _ _ => True) s [.vcpu 0, .vcpu 0, .vcpu 0, .vcpu 0] t ∧ s.state = .paused ∧
    s.command = .pause ∧ t.vcpu 0 = .kvmRun := by
  obtain ⟨s, hs, hp, hc, hrun⟩ := Runs.exists_under (step 0) (fun _ _ => True) (initial 1)
    [.vcpu 0, .vcpu 0, .host .pause, .vcpu 0, .vcpu 0, .vcpu 0, .host .run, .vcpu 0, .vcpu 0, .vcpu 0,
      .vcpu 0, .host .pause]
    (fun s => s.state = .paused ∧ s.command = .pause ∧
      (Runs.runUnder (step 0) (fun _ _ => True) s [.vcpu 0, .vcpu 0, .vcpu 0, .vcpu 0]).any
        (fun t => decide (t.vcpu 0 = .kvmRun)) = true) (by decide)
  obtain ⟨t, ht, hloc⟩ := Runs.exists_under _ _ _ _ _ hrun
  exact ⟨s, t, hs, ht, hp, hc, hloc⟩

end NodeVmm.RunLoop
