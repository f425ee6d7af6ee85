import NodeVmm.VmHandle
import NodeVmm.Theorems.PauseProtocol

/-! What the handle of a VM promises. The command word keeps Stop until another call writes it, and a call that finds
    the state that it waits for has seen it published since its own command only when the state was another one
    then. -/

namespace NodeVmm.VmHandle
open RunLoop

/-! ### The machine -/

section
variable {n timeoutMs : Nat} {s t : Machine n} {e : RunLoop.Event n}

/-- A step of the machine keeps the command, and changes the state as it publishes it. --/
theorem machine_step (he : ∀ c, e ≠ .host c) (h : RunLoop.step timeoutMs s e = some t) :
    t.command = s.command ∧ t.state = (publishes s e).getD s.state := by
  cases e with
  | host c => exact absurd rfl (he c)
  | vcpu i =>
    obtain ⟨⟨l, s'⟩, hr, rfl⟩ := Option.map_eq_some_iff.mp h
    refine ⟨vcpuStep_command hr, ?_⟩
    cases hl : s.vcpu i with
    | call c =>
      rw [hl] at hr
      obtain ⟨r, hc, heq⟩ := Option.map_eq_some_iff.mp hr
      cases heq
      simp only [publishes, hl]
      exact (callStep_keeps hc).2.1
    | _ => grind [vcpuStep, publishes]
  | watchdog yes =>
    have h : watchdogStep timeoutMs yes s = some t := h
    unfold watchdogStep at h
    cases hc : s.watchdogCall with
    | some c =>
      rw [hc] at h
      obtain ⟨r, hr, rfl⟩ := Option.map_eq_some_iff.mp h
      obtain ⟨hcommand, hstate, -⟩ := callStep_keeps hr
      exact ⟨hcommand, hstate⟩
    | none =>
      rw [hc] at h
      grind [publishes]
  | main =>
    have h : mainStep s = some t := h
    unfold mainStep at h
    cases hm : s.main with
    | loop =>
      rw [hm] at h
      obtain ⟨-, heq⟩ := Option.ite_none_right_eq_some.mp h
      cases heq
      simp [publishes, hm]
    | call c =>
      rw [hm] at h
      obtain ⟨r, hr, rfl⟩ := Option.map_eq_some_iff.mp h
      obtain ⟨hcommand, hstate, -⟩ := callStep_keeps hr
      refine ⟨hcommand, ?_⟩
      simp only [publishes, hm]
      exact hstate
    | _ =>
      rw [hm] at h
      grind [publishes]
  | _ => grind [RunLoop.step, publishes]

/-- A thread that has returned stays so. --/
theorem returned_step {i : Fin n} (hi : s.vcpu i = .returned) (h : RunLoop.step timeoutMs s e = some t) :
    t.vcpu i = .returned := by
  have hmove : ∀ {j : Fin n} {l : Loc}, s.vcpu j ≠ .returned → Function.update s.vcpu j l i = .returned := fun hj =>
    Threads.update_intro (P := (· = Loc.returned)) (fun heq => absurd (heq ▸ hi) hj) fun _ => hi
  cases e with
  | vcpu j =>
    obtain ⟨⟨l, s'⟩, hr, rfl⟩ := Option.map_eq_some_iff.mp h
    refine hmove fun hj => ?_
    rw [hj] at hr
    cases hr
  | pollFails j message =>
    obtain ⟨⟨-, hj⟩, heq⟩ := Option.ite_none_right_eq_some.mp h
    cases heq
    refine hmove fun hret => ?_
    rw [hret] at hj
    rcases hj with hj | hj <;> cases hj
  | exit j x =>
    obtain ⟨hj, heq⟩ := Option.ite_none_right_eq_some.mp h
    cases heq
    exact hmove fun hret => absurd (hret.symm.trans hj) nofun
  | kick j =>
    obtain ⟨⟨hj, -⟩, heq⟩ := Option.ite_none_right_eq_some.mp h
    cases heq
    exact hmove fun hret => absurd (hret.symm.trans hj) nofun
  | watchdog yes =>
    have hv := (watchdogStep_move h).1.vcpu
    exact hv ▸ hi
  | main =>
    have hv := (mainStep_move h).1.vcpu
    exact hv ▸ hi
  | host c =>
    cases h
    exact hi
  | deliver j =>
    obtain ⟨-, heq⟩ := Option.ite_none_right_eq_some.mp h
    cases heq
    exact hi

/-- The main thread is past the joins. --/
def Joined (s : Machine n) : Prop :=
  s.main = .setExited ∨ s.main = .stopWatchdog ∨ s.main = .joinWatchdog ∨ s.main = .result

/-- A step that makes the main thread join. --/
theorem joined_step (h : RunLoop.step timeoutMs s e = some t) (ht : Joined t) :
    Joined s ∨ ∀ i, s.vcpu i = .returned := by
  have hsame : t.main = s.main → Joined s ∨ ∀ i, s.vcpu i = .returned := fun heq => by
    unfold Joined at ht ⊢
    rw [heq] at ht
    exact Or.inl ht
  cases e with
  | main =>
    have h : mainStep s = some t := h
    unfold mainStep at h
    cases hm : s.main with
    | loop =>
      rw [hm] at h
      obtain ⟨-, heq⟩ := Option.ite_none_right_eq_some.mp h
      cases heq
      rcases ht with ht | ht | ht | ht <;> cases ht
    | call c =>
      rw [hm] at h
      obtain ⟨r, -, rfl⟩ := Option.map_eq_some_iff.mp h
      rcases hr : r.1 with _ | c' <;> rcases ht with ht | ht | ht | ht <;> rw [hr] at ht <;> cases ht
    | join =>
      rw [hm] at h
      obtain ⟨hall, -⟩ := Option.ite_none_right_eq_some.mp h
      exact Or.inr hall
    | setExited => exact Or.inl (Or.inl hm)
    | stopWatchdog => exact Or.inl (Or.inr (Or.inl hm))
    | joinWatchdog => exact Or.inl (Or.inr (Or.inr (Or.inl hm)))
    | result => exact Or.inl (Or.inr (Or.inr (Or.inr hm)))
  | vcpu j =>
    obtain ⟨r, -, rfl⟩ := Option.map_eq_some_iff.mp h
    exact hsame rfl
  | watchdog yes => exact hsame (watchdogStep_move h).2.1
  | host c =>
    cases h
    exact hsame rfl
  | pollFails j message =>
    obtain ⟨-, heq⟩ := Option.ite_none_right_eq_some.mp h
    cases heq
    exact hsame rfl
  | exit j x =>
    obtain ⟨-, heq⟩ := Option.ite_none_right_eq_some.mp h
    cases heq
    exact hsame rfl
  | kick j =>
    obtain ⟨-, heq⟩ := Option.ite_none_right_eq_some.mp h
    cases heq
    exact hsame rfl
  | deliver j =>
    obtain ⟨-, heq⟩ := Option.ite_none_right_eq_some.mp h
    cases heq
    exact hsame rfl

/-- Only the threads publish a state, and the main thread the last one. --/
theorem publishes_of_returned (hs : ∀ i, s.vcpu i = .returned) :
    publishes s e = none ∨ publishes s e = some .exited := by
  unfold publishes
  cases e with
  | vcpu i =>
    dsimp only
    rw [hs i]
    exact Or.inl rfl
  | main =>
    dsimp only
    split
    · exact Or.inr rfl
    · exact Or.inl rfl
  | _ => exact Or.inl rfl

theorem setExited_of_publishes (h : publishes s e = some .exited) : s.main = .setExited := by
  unfold publishes at h
  cases e with
  | main => exact (Option.ite_none_right_eq_some.mp h).1
  | vcpu i =>
    dsimp only at h
    split at h <;> cases h
  | _ => cases h

end

/-! ### The calls -/

section
variable {n m timeoutMs : Nat} {s t : Handle n m}

/-- Some call of `stop` has stored its command. --/
def Stopped (s : Handle n m) : Prop := ∃ i c, s.calls i = some c ∧ c.kind = .stop ∧ c.loc ≠ .store

/-- Pause and Resume are written only before a stop or after the exit, and not over the state that they wait for. --/
def Ordered (s : Handle n m) : Event n m → Prop
  | .host i => ∀ c ∈ s.calls i, c.loc = .store → c.kind ≠ .stop →
      (s.machine.command ≠ .stop ∨ s.machine.state = .exited) ∧ s.machine.state ≠ c.kind.wanted
  | _ => True

/-- A stop stays, and a call that resolved has seen the state that it waited for, or the exit. --/
structure Honest (s : Handle n m) : Prop where
  sticky : Stopped s → s.machine.command = .stop ∨ s.machine.state = .exited
  resolved : ∀ i c, s.calls i = some c → c.loc = .resolved → c.entered = true ∨ s.machine.state = .exited

def CallOk (state : RunState) (c : HostCall) : Prop :=
  match c.loc with
  | .pollWanted | .pollExited | .pollSettled => c.kind ≠ .stop ∧ (c.entered = true ∨ state ≠ c.kind.wanted)
  | .resolved => c.entered = true ∨ state = .exited
  | .check => c.kind ≠ .stop
  | .store | .running => True

structure Inv (s : Handle n m) : Prop where
  joined : Joined s.machine → ∀ i, s.machine.vcpu i = .returned
  exited : s.machine.state = .exited → (s.launched = true → ∀ i, s.machine.vcpu i = .returned) ∧
    (s.launched = false → s.settled = true)
  settled : s.settled = true → s.machine.state = .exited
  sticky : Stopped s → s.machine.command = .stop ∨ s.machine.state = .exited
  calls : ∀ i c, s.calls i = some c → CallOk s.machine.state c

theorem Inv.honest (h : Inv s) : Honest s := by
  refine ⟨h.sticky, fun i c hc hloc => ?_⟩
  have hok := h.calls i c hc
  unfold CallOk at hok
  rw [hloc] at hok
  exact hok

theorem initial_inv : Inv (initial n m) where
  joined h := by rcases h with h | h | h | h <;> cases h
  exited h := nomatch h
  settled h := nomatch h
  sticky := by
    rintro ⟨i, c, hc, -⟩
    cases hc
  calls i c hc := nomatch hc

/-- What a call knows is kept when a state is published, and noted by the call. --/
theorem CallOk.note {state : RunState} {pub : Option RunState} {c : HostCall} (h : CallOk state c)
    (hexited : state = .exited → pub.getD state = .exited) :
    CallOk (pub.getD state) { c with entered := c.entered || pub = some c.kind.wanted } := by
  have hseen : (c.entered || decide (pub = some c.kind.wanted)) = true ∨ pub.getD state ≠ c.kind.wanted ∨
      pub = none := by
    cases pub with
    | none => exact Or.inr (Or.inr rfl)
    | some x =>
      by_cases hx : x = c.kind.wanted
      · exact Or.inl (by simp [hx])
      · exact Or.inr (Or.inl hx)
  have hpoll : (c.entered = true ∨ state ≠ c.kind.wanted) →
      (c.entered || decide (pub = some c.kind.wanted)) = true ∨ pub.getD state ≠ c.kind.wanted := fun hold => by
    rcases hseen with h' | h' | rfl
    · exact Or.inl h'
    · exact Or.inr h'
    · exact hold.imp (fun he => by simp [he]) id
  unfold CallOk at h ⊢
  dsimp only
  cases hloc : c.loc <;> rw [hloc] at h <;> try trivial
  · exact ⟨h.1, hpoll h.2⟩
  · exact ⟨h.1, hpoll h.2⟩
  · exact ⟨h.1, hpoll h.2⟩
  · exact h.imp (fun he => by simp [he]) hexited

theorem noteState_eq_some {pub : Option RunState} {i : Fin m} {c : HostCall} (h : noteState pub s.calls i = some c) :
    ∃ c₀, s.calls i = some c₀ ∧ c = { c₀ with entered := c₀.entered || pub = some c₀.kind.wanted } := by
  obtain ⟨c₀, hc, rfl⟩ := Option.map_eq_some_iff.mp h
  exact ⟨c₀, hc, rfl⟩

theorem stopped_of_noteState {pub : Option RunState} {machine : Machine n} {launched settled : Bool}
    (h : Stopped ⟨machine, launched, settled, noteState pub s.calls⟩) : Stopped s := by
  obtain ⟨i, c, hc, hkind, hloc⟩ := h
  obtain ⟨c₀, hc₀, rfl⟩ := noteState_eq_some hc
  exact ⟨i, c₀, hc₀, hkind, hloc⟩

/-- The access of a call keeps what the call knows. --/
theorem hostStep_ok {i : Fin m} {c c' : HostCall} {command : Option Command} (hi : Inv s) (hc : s.calls i = some c)
    (hok : Ordered s (.host i)) (h : hostStep s c = some (c', command)) : CallOk s.machine.state c' := by
  have hcall := hi.calls i c hc
  unfold hostStep at h
  unfold CallOk at hcall
  cases hloc : c.loc <;> rw [hloc] at h hcall <;> simp only [Option.some.injEq, Prod.mk.injEq, reduceCtorEq] at h
  case check =>
    obtain ⟨rfl, -⟩ := h
    by_cases hx : s.machine.state = .exited
    · rw [if_pos hx]
      exact Or.inr hx
    · rw [if_neg hx]
      trivial
  case store =>
    obtain ⟨rfl, -⟩ := h
    by_cases hk : c.kind = .stop
    · rw [if_pos hk]
      trivial
    · rw [if_neg hk]
      exact ⟨hk, Or.inr (hok c hc hloc hk).2⟩
  case pollWanted =>
    obtain ⟨rfl, -⟩ := h
    by_cases hw : s.machine.state = c.kind.wanted
    · rw [if_pos hw]
      exact Or.inl (hcall.2.resolve_right (not_not.mpr hw))
    · rw [if_neg hw]
      exact hcall
  case pollExited =>
    obtain ⟨rfl, -⟩ := h
    by_cases hx : s.machine.state = .exited
    · rw [if_pos hx]
      trivial
    · rw [if_neg hx]
      exact hcall
  case pollSettled =>
    obtain ⟨rfl, -⟩ := h
    by_cases hx : s.settled = true
    · rw [if_pos hx]
      trivial
    · rw [if_neg hx]
      exact hcall
  case running =>
    obtain ⟨hsettled, heq⟩ := Option.ite_none_right_eq_some.mp h
    cases heq
    exact Or.inr (hi.settled hsettled)

/-- Only a store writes the command. --/
theorem hostStep_command {c c' : HostCall} {command : Option Command} (h : hostStep s c = some (c', command)) :
    c'.kind = c.kind ∧ (c'.loc = .store → c.loc = .check) ∧
      (c.loc ≠ .store ∧ command = none ∨ c.loc = .store ∧ command = some c.kind.command) := by
  unfold hostStep at h
  grind

theorem host_inv {i : Fin m} (hi : Inv s) (hok : Ordered s (.host i)) (h : step timeoutMs s (.host i) = some t) :
    Inv t := by
  obtain ⟨c, hc, hmap⟩ := Option.bind_eq_some_iff.mp h
  obtain ⟨⟨c', command⟩, hstep, rfl⟩ := Option.map_eq_some_iff.mp hmap
  obtain ⟨hkind, hstore, hcommand⟩ := hostStep_command hstep
  refine ⟨hi.joined, hi.exited, hi.settled, fun hstop => ?_, fun j d hj => ?_⟩
  · show command.getD s.machine.command = .stop ∨ s.machine.state = .exited
    have hold : c.kind = .stop ∧ c.loc = .store ∨ Stopped s := by
      obtain ⟨j, d, hj, hkj, hlj⟩ := hstop
      rcases Threads.update_cases (P := (· = some d)) hj with ⟨-, hd⟩ | ⟨-, hj⟩
      · cases hd
        by_cases hs : c.loc = .store
        · exact Or.inl ⟨hkind.symm.trans hkj, hs⟩
        · exact Or.inr ⟨i, c, hc, hkind.symm.trans hkj, hs⟩
      · exact Or.inr ⟨j, d, hj, hkj, hlj⟩
    rcases hcommand with ⟨hne, rfl⟩ | ⟨hs, rfl⟩
    · rcases hold with ⟨-, hs⟩ | hstop
      · exact absurd hs hne
      · exact hi.sticky hstop
    · by_cases hk : c.kind = .stop
      · rw [hk]
        exact Or.inl rfl
      · have hord := (hok c hc hs hk).1
        rcases hold with ⟨hk', -⟩ | hstop
        · exact absurd hk' hk
        · rcases hi.sticky hstop with hcmd | hx
          · exact Or.inr (hord.resolve_left (not_not.mpr hcmd))
          · exact Or.inr hx
  · rcases Threads.update_cases (P := (· = some d)) hj with ⟨-, hd⟩ | ⟨-, hj⟩
    · cases hd
      have hnew := hostStep_ok hi hc hok hstep
      exact hnew
    · exact hi.calls j d hj

/-- What the machine publishes is noted by every call. --/
theorem published_inv {machine : Machine n} {launched : Bool} (pub : Option RunState) (hi : Inv s)
    (hjoined : Joined machine → ∀ i, machine.vcpu i = .returned)
    (hexited : machine.state = .exited → (launched = true → ∀ i, machine.vcpu i = .returned) ∧
      (launched = false → s.settled = true))
    (hcommand : machine.command = s.machine.command) (hstate : machine.state = pub.getD s.machine.state)
    (hstays : s.machine.state = .exited → machine.state = .exited) :
    Inv ⟨machine, launched, s.settled, noteState pub s.calls⟩ where
  joined := hjoined
  exited := hexited
  settled hs := hstays (hi.settled hs)
  sticky hstop := by
    rw [hcommand]
    exact (hi.sticky (stopped_of_noteState hstop)).imp_right hstays
  calls i c hc := by
    obtain ⟨c₀, hc₀, rfl⟩ := noteState_eq_some hc
    rw [hstate]
    exact (hi.calls i c₀ hc₀).note fun hx => hstate.symm.trans (hstays hx)

/-- A step of the machine below the handle. --/
theorem step_machine {e : RunLoop.Event n} (h : step timeoutMs s (.machine e) = some t) : (∀ c, e ≠ .host c) ∧
    s.launched = true ∧ ∃ machine, RunLoop.step timeoutMs s.machine e = some machine ∧
      t = { s with machine, calls := noteState (publishes s.machine e) s.calls } := by
  have hhost : ∀ c, e ≠ .host c := fun c heq => by
    subst heq
    cases h
  have hstep : (if s.launched = true then (RunLoop.step timeoutMs s.machine e).map fun t =>
      { s with machine := t, calls := noteState (publishes s.machine e) s.calls } else none) = some t := by
    rw [← h]
    cases e with
    | host c => exact absurd rfl (hhost c)
    | _ => rfl
  obtain ⟨hl, hmap⟩ := Option.ite_none_right_eq_some.mp hstep
  obtain ⟨machine, hm, rfl⟩ := Option.map_eq_some_iff.mp hmap
  exact ⟨hhost, hl, machine, hm, rfl⟩

theorem step_inv {e : Event n m} (hi : Inv s) (hok : Ordered s e) (h : step timeoutMs s e = some t) : Inv t := by
  cases e with
  | host i => exact host_inv hi hok h
  | call i kind =>
    obtain ⟨hnone, heq⟩ := Option.ite_none_right_eq_some.mp h
    cases heq
    refine ⟨hi.joined, hi.exited, hi.settled, fun hstop => ?_, fun j d hj => ?_⟩
    · obtain ⟨j, d, hj, hkj, hlj⟩ := hstop
      rcases Threads.update_cases (P := (· = some d)) hj with ⟨-, hd⟩ | ⟨-, hj⟩
      · cases hd
        have hk : kind = .stop := hkj
        subst hk
        exact absurd rfl hlj
      · exact hi.sticky ⟨j, d, hj, hkj, hlj⟩
    · rcases Threads.update_cases (P := (· = some d)) hj with ⟨-, hd⟩ | ⟨-, hj⟩
      · cases hd
        cases kind <;> first | trivial | exact nofun
      · exact hi.calls j d hj
  | launch =>
    obtain ⟨hnot, heq⟩ := Option.ite_none_left_eq_some.mp h
    cases heq
    obtain ⟨hl, hs⟩ := not_or.mp hnot
    have hx : s.machine.state ≠ .exited := fun hx =>
      hs ((hi.exited hx).2 (Bool.eq_false_iff.mpr hl))
    exact published_inv (some .running) hi hi.joined (fun hr => nomatch hr) rfl rfl fun hr => absurd hr hx
  | settle =>
    obtain ⟨hend, heq⟩ := Option.ite_none_right_eq_some.mp h
    cases heq
    refine ⟨hi.joined, fun _ => ⟨fun hl => ?_, fun _ => rfl⟩, fun _ => rfl, fun _ => Or.inr rfl, fun j d hj => ?_⟩
    · rcases hend with hend | hend
      · exact absurd (hl.symm.trans hend) nofun
      · exact hi.joined (Or.inr (Or.inr (Or.inr hend)))
    · have hcall := hi.calls j d hj
      have hwanted : d.kind ≠ .stop → RunState.exited ≠ d.kind.wanted := fun hk => by
        cases hkind : d.kind with
        | stop => exact absurd hkind hk
        | _ => exact nofun
      unfold CallOk at hcall ⊢
      cases hloc : d.loc <;> rw [hloc] at hcall <;> try trivial
      · exact ⟨hcall.1, Or.inr (hwanted hcall.1)⟩
      · exact ⟨hcall.1, Or.inr (hwanted hcall.1)⟩
      · exact ⟨hcall.1, Or.inr (hwanted hcall.1)⟩
      · exact Or.inr rfl
  | machine e =>
    obtain ⟨hhost, hl, machine, hm, rfl⟩ := step_machine h
    obtain ⟨hcommand, hstate⟩ := machine_step hhost hm
    have hjoined : Joined machine → ∀ i, machine.vcpu i = .returned := fun hj i => by
      rcases joined_step hm hj with hold | hall
      · exact returned_step (hi.joined hold i) hm
      · exact returned_step (hall i) hm
    have hover : s.machine.state = .exited → machine.state = .exited := fun hx => by
      rcases publishes_of_returned (e := e) ((hi.exited hx).1 hl) with hp | hp
      · rw [hstate, hp]
        exact hx
      · rw [hstate, hp]
        rfl
    refine published_inv _ hi hjoined (fun hx => ⟨fun _ i => ?_, fun hn => absurd (hl.symm.trans hn) nofun⟩) hcommand hstate
      hover
    rcases hp : publishes s.machine e with _ | state
    · rw [hp] at hstate
      exact returned_step ((hi.exited (hstate.symm.trans hx)).1 hl i) hm
    · rw [hp] at hstate
      have hset : publishes s.machine e = some .exited := hp.trans (congrArg some (hstate.symm.trans hx))
      exact returned_step (hi.joined (Or.inl (setExited_of_publishes hset)) i) hm

/-! ### No thread stays in the pause wait -/

/-- The accesses that a thread may still make in the pause wait once the command is Stop. --/
def waits : Loc → Nat
  | .addPaused => 3
  | .setPaused | .waitDone => 2
  | .waitCommand => 1
  | _ => 0

def isTurn (i : Fin n) : Event n m → Bool
  | .machine (.vcpu j) => j = i
  | _ => false

theorem waits_vcpuStep {i : Fin n} {l l' : Loc} {s s' : Shared n} (hc : s.command = .stop)
    (h : vcpuStep timeoutMs i l s = some (l', s')) : waits l' ≤ waits l - 1 := by
  cases l with
  | call c =>
    obtain ⟨r, -, heq⟩ := Option.map_eq_some_iff.mp h
    cases heq
    cases r.1 <;> exact Nat.le_refl _
  | _ => grind [vcpuStep, waits]

theorem waits_handleExit (i : Fin n) (x : Exit) : waits (handleExit i x) = 0 := by
  rcases handleExit_cases i x with h | h | ⟨c, h⟩ <;> rw [h] <;> rfl

theorem waits_machine {s t : Machine n} {e : RunLoop.Event n} {i : Fin n} (hc : s.command = .stop)
    (h : RunLoop.step timeoutMs s e = some t) :
    waits (t.vcpu i) ≤ waits (s.vcpu i) - (if e = .vcpu i then 1 else 0) := by
  have hother : ∀ {j : Fin n} {l : Loc}, waits l = 0 → waits (Function.update s.vcpu j l i) ≤ waits (s.vcpu i) := fun hl =>
    Threads.update_intro (P := (waits · ≤ waits (s.vcpu i))) (fun _ => hl ▸ Nat.zero_le _) fun _ => Nat.le_refl _
  cases e with
  | vcpu j =>
    obtain ⟨⟨l, s'⟩, hr, rfl⟩ := Option.map_eq_some_iff.mp h
    have hle := waits_vcpuStep hc hr
    refine Threads.update_intro (P := (waits · ≤ _)) (fun hij => ?_) fun hij => ?_
    · subst hij
      rw [if_pos rfl]
      exact hle
    · rw [if_neg fun heq => hij (RunLoop.Event.vcpu.inj heq).symm]
      exact Nat.le_refl _
  | pollFails j message =>
    obtain ⟨-, heq⟩ := Option.ite_none_right_eq_some.mp h
    cases heq
    exact hother rfl
  | exit j x =>
    obtain ⟨-, heq⟩ := Option.ite_none_right_eq_some.mp h
    cases heq
    exact hother (waits_handleExit j x)
  | kick j =>
    obtain ⟨-, heq⟩ := Option.ite_none_right_eq_some.mp h
    cases heq
    exact hother rfl
  | watchdog yes => exact Nat.le_of_eq (congrArg waits (congrFun (watchdogStep_move h).1.vcpu i))
  | main => exact Nat.le_of_eq (congrArg waits (congrFun (mainStep_move h).1.vcpu i))
  | host c =>
    cases h
    exact Nat.le_refl _
  | deliver j =>
    obtain ⟨-, heq⟩ := Option.ite_none_right_eq_some.mp h
    cases heq
    exact Nat.le_refl _

/-- A stop stays one. --/
theorem stopped_step {e : Event n m} (hi : Inv s) (hs : Stopped s) (h : step timeoutMs s e = some t) : Stopped t := by
  obtain ⟨i, c, hc, hkind, hloc⟩ := hs
  have hnoted : ∀ pub, ∃ d, noteState pub s.calls i = some d ∧ d.kind = .stop ∧ d.loc ≠ .store := fun pub =>
    ⟨_, congrArg (Option.map _) hc, hkind, hloc⟩
  cases e with
  | call j kind =>
    obtain ⟨hnone, heq⟩ := Option.ite_none_right_eq_some.mp h
    cases heq
    have hij : i ≠ j := fun heq => by
      rw [heq, hnone] at hc
      cases hc
    exact ⟨i, c, (Function.update_of_ne hij _ _).trans hc, hkind, hloc⟩
  | host j =>
    obtain ⟨d, hd, hmap⟩ := Option.bind_eq_some_iff.mp h
    obtain ⟨⟨d', command⟩, hstep, rfl⟩ := Option.map_eq_some_iff.mp hmap
    obtain ⟨hkind', hstore, -⟩ := hostStep_command hstep
    by_cases hij : i = j
    · subst hij
      cases hc.symm.trans hd
      refine ⟨i, d', Function.update_self .., hkind'.trans hkind, fun heq => ?_⟩
      have hok := hi.calls i c hc
      rw [CallOk, hstore heq] at hok
      exact hok hkind
    · exact ⟨i, c, (Function.update_of_ne hij _ _).trans hc, hkind, hloc⟩
  | launch =>
    obtain ⟨-, heq⟩ := Option.ite_none_left_eq_some.mp h
    cases heq
    exact ⟨i, hnoted _⟩
  | settle =>
    obtain ⟨-, heq⟩ := Option.ite_none_right_eq_some.mp h
    cases heq
    exact ⟨i, c, hc, hkind, hloc⟩
  | machine e =>
    obtain ⟨-, -, machine, -, rfl⟩ := step_machine h
    exact ⟨i, hnoted _⟩

theorem waits_step {e : Event n m} {i : Fin n} (hi : Inv s) (hs : Stopped s) (h : step timeoutMs s e = some t) :
    waits (t.machine.vcpu i) ≤ waits (s.machine.vcpu i) - (if isTurn i e then 1 else 0) := by
  cases e with
  | machine e =>
    obtain ⟨-, hl, machine, hm, rfl⟩ := step_machine h
    rcases hi.sticky hs with hc | hx
    · have hle := waits_machine (i := i) hc hm
      have hturn : isTurn i (.machine e : Event n m) = true → e = .vcpu i := fun hturn => by
        cases e with
        | vcpu j => exact congrArg _ (of_decide_eq_true hturn)
        | _ => cases hturn
      split
      · rename_i hturn'
        rwa [if_pos (hturn hturn')] at hle
      · exact hle.trans (Nat.sub_le _ _)
    · have hret := returned_step ((hi.exited hx).1 hl i) hm
      show waits (machine.vcpu i) ≤ _
      rw [hret]
      exact Nat.zero_le _
  | call j kind =>
    obtain ⟨-, heq⟩ := Option.ite_none_right_eq_some.mp h
    cases heq
    exact Nat.le_refl _
  | host j =>
    obtain ⟨c, -, hmap⟩ := Option.bind_eq_some_iff.mp h
    obtain ⟨r, -, rfl⟩ := Option.map_eq_some_iff.mp hmap
    exact Nat.le_refl _
  | launch =>
    obtain ⟨-, heq⟩ := Option.ite_none_left_eq_some.mp h
    cases heq
    exact Nat.le_refl _
  | settle =>
    obtain ⟨-, heq⟩ := Option.ite_none_right_eq_some.mp h
    cases heq
    exact Nat.le_refl _

/-- Each access of a thread after a stop takes it closer to leaving the wait. --/
theorem waits_run {es : List (Event n m)} {i : Fin n} (h : Runs.Under (step timeoutMs) Ordered s es t) (hi : Inv s)
    (hs : Stopped s) : waits (t.machine.vcpu i) ≤ waits (s.machine.vcpu i) - es.countP (isTurn i) := by
  induction h with
  | nil => exact Nat.le_refl _
  | cons hok hstep _ ih =>
    have hrest := ih (step_inv hi hok hstep) (stopped_step hi hs hstep)
    have hfirst := waits_step (i := i) hi hs hstep
    rw [List.countP_cons]
    omega

/-- In every run in which no call writes over a stop or over the state that it waits for, the handle is honest; and
    once it has stopped, no thread is in the pause wait after three accesses. --/
theorem handle_honest {es : List (Event n m)} (h : Runs.Under (step timeoutMs) Ordered (initial n m) es s) :
    Honest s ∧ ∀ fs t i, Stopped s → Runs.Under (step timeoutMs) Ordered s fs t → 3 ≤ fs.countP (isTurn i) →
      waits (t.machine.vcpu i) = 0 := by
  have hi : Inv s := h.invariant (fun _ _ _ hi hok hs => step_inv hi hok hs) initial_inv
  refine ⟨hi.honest, fun fs t i hs hrun hturns => ?_⟩
  have hle := waits_run (i := i) hrun hi hs
  have hthree : waits (s.machine.vcpu i) ≤ 3 := by
    cases s.machine.vcpu i <;> simp [waits]
  omega

end
instance {n m : Nat} : ∀ (s : Handle n m) (e : Event n m), Decidable (Ordered s e)
  | s, .host i => inferInstanceAs (Decidable (∀ c ∈ s.calls i, c.loc = .store → c.kind ≠ .stop →
      (s.machine.command ≠ .stop ∨ s.machine.state = .exited) ∧ s.machine.state ≠ c.kind.wanted))
  | _, .call _ _ | _, .launch | _, .machine _ | _, .settle => isTrue trivial

/-- A call of `pause` resolves, then `stop` is called. --/
def pauseThenStop : List (Event 1 2) :=
  [.launch, .machine (.vcpu 0), .call Threads.first .pause, .host Threads.first, .host Threads.first,
    .machine (.vcpu 0), .machine (.vcpu 0), .machine (.vcpu 0), .machine (.vcpu 0), .host Threads.first,
    .call Threads.second .stop, .host Threads.second]

/-- The theorem on these calls: the thread of the only vCPU leaves the pause. --/
theorem handle_honest_pause_then_stop : ∃ s t, Runs.Under (step 0) Ordered (initial 1 2) pauseThenStop s ∧
    Runs.Under (step 0) Ordered s [.machine (.vcpu 0), .machine (.vcpu 0), .machine (.vcpu 0)] t ∧ Honest s ∧
    (s.calls 0).map HostCall.loc = some .resolved ∧ s.machine.vcpu 0 = .waitCommand ∧ waits (t.machine.vcpu 0) = 0 := by
  obtain ⟨s, hs, hstop, hloc, hwait, hsome⟩ := Runs.exists_under (step 0) Ordered (initial 1 2) pauseThenStop
    (fun s => s.calls 1 = some ⟨.stop, .running, false⟩ ∧ (s.calls 0).map HostCall.loc = some .resolved ∧
      s.machine.vcpu 0 = .waitCommand ∧ (Runs.runUnder (step 0) Ordered s
        [.machine (.vcpu 0), .machine (.vcpu 0), .machine (.vcpu 0)]).isSome = true) (by decide)
  obtain ⟨t, ht⟩ := Option.isSome_iff_exists.mp hsome
  have ht := Runs.under_of_runUnder ht
  obtain ⟨hhonest, hleaves⟩ := handle_honest hs
  exact ⟨s, t, hs, ht, hhonest, hloc, hwait, hleaves _ t 0 ⟨1, _, hstop, rfl, nofun⟩ ht (Nat.le_refl _)⟩

/-- A call of `pause` after `stop` takes the stop back. --/
theorem not_honest_pause_after_stop : ∃ s, Runs.Under (step 0) (fun _ _ => True) (initial 1 2)
    [.launch, .call 0 .stop, .host 0, .call 1 .pause, .host 1, .host 1] s ∧ ¬Honest s := by
  obtain ⟨s, hs, hstop, hc, hx⟩ := Runs.exists_under (step 0) (fun _ _ => True) (initial 1 2)
    [.launch, .call 0 .stop, .host 0, .call 1 .pause, .host 1, .host 1]
    (fun s => s.calls 0 = some ⟨.stop, .running, false⟩ ∧ s.machine.command = .pause ∧ s.machine.state = .running)
    (by decide)
  refine ⟨s, hs, fun h => ?_⟩
  rcases h.sticky ⟨0, _, hstop, rfl, nofun⟩ with h | h
  · exact absurd (hc.symm.trans h) nofun
  · exact absurd (hx.symm.trans h) nofun

end NodeVmm.VmHandle
