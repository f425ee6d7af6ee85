import NodeVmm.RunLoop

/-! The delivery of a stop. After the `interrupt_all` of a stop, each thread that can still run the guest has its
    signal pending or `immediate_exit` set. A thread loses both when it takes the signal in user mode and then
    clears `immediate_exit` before `KVM_RUN`, and then nothing ends its `KVM_RUN`. -/

namespace NodeVmm.RunLoop

/-- The flags that end the run. --/
inductive Stop where
  | done
  | timeout
  deriving DecidableEq, Repr

/-- The thread is in `KVM_RUN`, or may enter it before a test of the flag ends its loop. The test of `vm_done`
    after a pause ends nothing. --/
def Loc.window : Stop → Loc → Bool
  | .done, .start | .done, .top => false
  | _, .stopping | _, .interrupted | _, .pollRxAgain | _, .testHalted | _, .testTimeout | _, .call _ | _, .returned =>
    false
  | _, _ => true

/-- The call has not set `vm_done`. --/
def Call.idle : Call → Bool
  | .recordError _ | .finish _ _ => true
  | _ => false

/-- The call has not set `vm_done`, or its `interrupt_all` has set `immediate_exit` of vCPU `i`. --/
def Call.flagged {n : Nat} (i : Fin n) : Call → Bool
  | .recordError _ | .finish _ _ | .lock | .kill _ => true
  | .result _ _ => false
  | .flag k => i.val < k

/-- The call has not set `vm_done`, or its `interrupt_all` has signalled thread `i`. --/
def Call.signalled {n : Nat} (i : Fin n) : Call → Bool
  | .recordError _ | .finish _ _ => true
  | .result _ _ | .flag _ | .lock => false
  | .kill k => i.val < k

/-- Every call in which a thread ends the run has the property. --/
def Finishes {n : Nat} (p : Call → Bool) (s : Machine n) : Prop :=
  (∀ j c, s.vcpu j = .call c → p c = true) ∧ (∀ c, s.main = .call c → p c = true) ∧
    (s.watchdog = .last → ∀ c, s.watchdogCall = some c → p c = true)

variable {n timeoutMs : Nat}

/-- The flag is set, and the `interrupt_all` that follows it has signalled thread `i`. --/
def Told (s : Machine n) (i : Fin n) : Stop → Prop
  | .done => s.vmDone = true ∧ Finishes (Call.signalled i) s
  | .timeout => s.watchdogTimeout = true ∧ s.watchdog = .gone ∧ ∀ c, s.watchdogCall = some c → c.signalled i = true

/-- The flag is set, and the `interrupt_all` that follows it has returned. --/
def Delivered (s : Machine n) : Stop → Prop
  | .done => s.vmDone = true ∧ Finishes Call.idle s
  | .timeout => s.watchdogTimeout = true ∧ s.watchdog = .gone ∧ s.watchdogCall = none

/-- Something will end the next or the current `KVM_RUN` of thread `i`. --/
def Kicked (s : Machine n) (i : Fin n) : Prop := s.immediateExit i = true ∨ s.signal i = true

/-- Thread `i` takes its signal outside `KVM_RUN` with `immediate_exit` clear, or clears `immediate_exit` before
    `KVM_RUN` with no signal pending, while it does not test the flag before. --/
def Loses (s : Machine n) (f : Stop) (i : Fin n) : Event n → Prop
  | .deliver j => j = i ∧ (s.vcpu i).window f = true ∧ s.immediateExit i = false
  | .exit j x => j = i ∧ (handleExit i x).window f = true ∧ s.immediateExit i = false
  | .vcpu j => j = i ∧ s.vcpu i = .clear ∧ s.signal i = false
  | _ => False

/-- No thread that was signalled for a stop loses it. --/
def SignalKept (s : Machine n) (e : Event n) : Prop := ∀ i f, Told s i f → ¬Loses s f i e

/-! ### Calls -/

section
variable {i j : Fin n} {c : Call} {s : Shared n} {r : Option Call × Shared n}

/-- What an access of a call does to the signals and flags. --/
structure CallMove (c : Call) (s : Shared n) (r : Option Call × Shared n) : Prop where
  ready : r.2.runnerReady = s.runnerReady
  timeout : r.2.watchdogTimeout = s.watchdogTimeout
  watchdogDone : r.2.watchdogDone = s.watchdogDone
  immediateExit : ∀ i, s.immediateExit i = true → r.2.immediateExit i = true
  signal : ∀ i, s.signal i = true → r.2.signal i = true
  done : s.vmDone = true → r.2.vmDone = true
  decides : r.2.vmDone = true → s.vmDone = false → c.idle = true ∧ ∃ reason code, r.1 = some (.result reason code)
  busy : c.idle = false → ∀ c', r.1 = some c' → c'.idle = false
  signalled : ∀ i, (∀ c', r.1 = some c' → c'.signalled i = true) →
    c.signalled i = true ∨ r.2.signal i = true ∨ c.flagged i = true ∧ s.runnerReady i = false
  flagged : ∀ i, (∀ c', r.1 = some c' → c'.flagged i = true) → c.flagged i = true ∨ r.2.immediateExit i = true

theorem callStep_move (h : callStep c s = some r) : CallMove c s r := by
  cases c with
  | recordError message => cases h; constructor <;> simp [Call.signalled, Call.flagged, Call.idle]
  | finish reason code =>
    cases h
    cases hd : s.vmDone <;> constructor <;> simp [hd, Call.signalled, Call.flagged, Call.idle]
  | result reason code => cases h; constructor <;> simp [Call.signalled, Call.flagged, Call.idle]
  | flag k =>
    simp only [callStep] at h
    split at h <;> cases h <;> constructor <;> grind [Call.signalled, Call.flagged, Call.idle, Function.update_apply]
  | lock =>
    simp only [callStep] at h
    split at h <;> cases h
    constructor <;> simp [Call.signalled, Call.flagged, Call.idle]
  | kill k =>
    simp only [callStep] at h
    split at h <;> cases h <;> constructor <;> grind [Call.signalled, Call.flagged, Call.idle, Function.update_apply]

end

/-! ### Accesses of a vCPU thread -/

section
variable {i : Fin n} {l l' : Loc} {s s' : Shared n}

theorem window_afterCall (c : Option Call) (f : Stop) : (afterCall c).window f = false := by
  cases c <;> cases f <;> rfl

theorem handleExit_ne_kvmRun (i : Fin n) (x : Exit) : handleExit i x ≠ .kvmRun := by
  rcases handleExit_cases i x with h | h | ⟨c, h⟩ <;> rw [h] <;> exact nofun

/-- What an access of a thread outside its calls does. --/
structure LoopMove (i : Fin n) (l l' : Loc) (s s' : Shared n) : Prop where
  vmDone : s'.vmDone = s.vmDone
  timeout : s'.watchdogTimeout = s.watchdogTimeout
  watchdogDone : s'.watchdogDone = s.watchdogDone
  signal : s'.signal = s.signal
  ready : l ≠ .start ∧ s'.runnerReady = s.runnerReady ∨
    l = .start ∧ s'.runnerReady = Function.update s.runnerReady i true
  immediateExit : s'.immediateExit = s.immediateExit ∨
    (l = .clear ∨ l = .interrupted) ∧ s'.immediateExit = Function.update s.immediateExit i false
  start : l' ≠ .start
  window : ∀ f, l'.window f = true → (f = .done ∧ s.vmDone = true ∨ f = .timeout ∧ s.watchdogTimeout = true) →
    l.window f = true ∧ l ≠ .interrupted
  kvmRun : l' = .kvmRun → l = .enter ∧ s.immediateExit i = false

theorem vcpuStep_loop (hl : ∀ c, l ≠ .call c) (h : vcpuStep timeoutMs i l s = some (l', s')) : LoopMove i l l' s s' := by
  cases l with
  | call c => exact absurd rfl (hl c)
  | _ => constructor <;> grind [vcpuStep, Loc.window]

end

/-! ### What keeps a thread told -/

section
variable {s t : Machine n} {i j : Fin n}

/-- `immediate_exit` of every vCPU is set before any thread is signalled. --/
def Flagged (s : Machine n) (i : Fin n) : Prop :=
  s.watchdogTimeout = true ∧ s.watchdog = .gone ∧ ∀ c, s.watchdogCall = some c → c.flagged i = true

structure StopInv (s : Machine n) : Prop where
  ready : ∀ i, s.runnerReady i = false → s.vcpu i = .start
  joined : s.watchdogDone = true ∨ s.main = .setExited ∨ s.main = .stopWatchdog → ∀ i, s.vcpu i = .returned
  polling : s.watchdog ≠ .last → ∀ c, s.watchdogCall = some c → c.idle = false
  flagged : ∀ i, Flagged s i → s.vcpu i = .start → s.immediateExit i = true
  told : ∀ i f, Told s i f → (s.vcpu i).window f = true → Kicked s i ∧ (s.vcpu i = .kvmRun → s.signal i = true)

/-- A step that does not move thread `i` and takes nothing from it. --/
structure Apart (s t : Machine n) (i : Fin n) : Prop where
  vcpu : t.vcpu i = s.vcpu i
  immediateExit : s.immediateExit i = true → t.immediateExit i = true
  signal : s.signal i = true → t.signal i = true

theorem Apart.told (h : Apart s t i) {f : Stop}
    (hs : (s.vcpu i).window f = true → Kicked s i ∧ (s.vcpu i = .kvmRun → s.signal i = true))
    (hw : (t.vcpu i).window f = true) : Kicked t i ∧ (t.vcpu i = .kvmRun → t.signal i = true) := by
  rw [h.vcpu] at hw ⊢
  obtain ⟨hk, hsig⟩ := hs hw
  exact ⟨hk.imp (h.immediateExit) h.signal, fun hrun => h.signal (hsig hrun)⟩

/-- Thread `j` moves to `l'`. --/
structure ThreadMove (s t : Machine n) (j : Fin n) (l' : Loc) : Prop where
  vcpu : t.vcpu = Function.update s.vcpu j l'
  main : t.main = s.main
  watchdog : t.watchdog = s.watchdog
  watchdogCall : t.watchdogCall = s.watchdogCall
  watchdogDone : t.watchdogDone = s.watchdogDone
  timeout : t.watchdogTimeout = s.watchdogTimeout
  ready : ∀ i, t.runnerReady i = false → s.runnerReady i = false
  started : s.vcpu j = .start → t.runnerReady j = true
  start : l' ≠ .start
  returned : s.vcpu j ≠ .returned
  immediateExit : ∀ i, i ≠ j → s.immediateExit i = true → t.immediateExit i = true
  signal : ∀ i, i ≠ j → s.signal i = true → t.signal i = true

theorem ThreadMove.apart {l' : Loc} (hm : ThreadMove s t j l') (hij : i ≠ j) : Apart s t i :=
  ⟨by rw [hm.vcpu, Function.update_of_ne hij], hm.immediateExit i hij, hm.signal i hij⟩

theorem StopInv.thread (h : StopInv s) {l' : Loc} (hm : ThreadMove s t j l')
    (htold : ∀ i f, Told t i f → (t.vcpu i).window f = true →
      Kicked t i ∧ (t.vcpu i = .kvmRun → t.signal i = true)) : StopInv t where
  ready i hi := by
    have hs := h.ready i (hm.ready i hi)
    by_cases hij : i = j
    · subst hij
      exact absurd ((hm.started hs).symm.trans hi) nofun
    · exact (hm.apart hij).vcpu.trans hs
  joined hj := by
    rw [hm.watchdogDone, hm.main] at hj
    exact absurd (h.joined hj j) hm.returned
  polling := by
    rw [hm.watchdog, hm.watchdogCall]
    exact h.polling
  flagged i hi hstart := by
    have hij : i ≠ j := by
      rintro rfl
      rw [hm.vcpu, Function.update_self] at hstart
      exact hm.start hstart
    refine hm.immediateExit i hij (h.flagged i ?_ ((hm.apart hij).vcpu.symm.trans hstart))
    exact ⟨hm.timeout ▸ hi.1, hm.watchdog ▸ hi.2.1, hm.watchdogCall ▸ hi.2.2⟩
  told := htold

/-- A thread that moved outside its calls told nobody. --/
theorem ThreadMove.told_back {l' : Loc} (hm : ThreadMove s t j l') (hdone : t.vmDone = s.vmDone)
    (hj : ∀ c, s.vcpu j ≠ .call c) {f : Stop} (h : Told t i f) : Told s i f := by
  cases f with
  | done =>
    refine ⟨hdone ▸ h.1, ?_, hm.main ▸ h.2.2.1, hm.watchdog ▸ hm.watchdogCall ▸ h.2.2.2⟩
    intro k c hk
    have hkj : k ≠ j := fun heq => hj c (heq ▸ hk)
    exact h.2.1 k c ((hm.apart hkj).vcpu.trans hk)
  | timeout => exact ⟨hm.timeout ▸ h.1, hm.watchdog ▸ h.2.1, hm.watchdogCall ▸ h.2.2⟩

/-- A step of thread `j` outside its calls: the others keep what they have. --/
theorem StopInv.loop (h : StopInv s) {l' : Loc} (hm : ThreadMove s t j l') (hdone : t.vmDone = s.vmDone)
    (hj : ∀ c, s.vcpu j ≠ .call c)
    (hself : ∀ f, Told s j f → l'.window f = true → Kicked t j ∧ (l' = .kvmRun → t.signal j = true)) :
    StopInv t := by
  refine h.thread hm fun i f ht hw => ?_
  have hs := hm.told_back hdone hj ht
  by_cases hij : i = j
  · subst hij
    have hv : t.vcpu i = l' := by rw [hm.vcpu, Function.update_self]
    rw [hv] at hw ⊢
    exact hself f hs hw
  · exact (hm.apart hij).told (h.told i f hs) hw

/-- An access of a thread in its loop. --/
theorem StopInv.vcpu (h : StopInv s) {l' : Loc} {s' : Shared n} (hj : ∀ c, s.vcpu j ≠ .call c)
    (hok : SignalKept s (.vcpu j)) (hs : vcpuStep timeoutMs j (s.vcpu j) s.toShared = some (l', s')) :
    StopInv { s with toShared := s', vcpu := Function.update s.vcpu j l' } := by
  have hm := vcpuStep_loop hj hs
  have hmove : ThreadMove s { s with toShared := s', vcpu := Function.update s.vcpu j l' } j l' := by
    refine ⟨rfl, rfl, rfl, rfl, hm.watchdogDone, hm.timeout, fun i hi => ?_, fun hstart => ?_, hm.start, fun hret => ?_,
      fun i hij hi => ?_, fun i _ hi => hm.signal ▸ hi⟩
    · rcases hm.ready with ⟨-, hr⟩ | ⟨-, hr⟩
      · exact hr ▸ hi
      · rcases Threads.update_cases (P := (· = false)) ((congrFun hr i).symm.trans hi) with ⟨-, hfalse⟩ | ⟨-, hi'⟩
        · cases hfalse
        · exact hi'
    · rcases hm.ready with ⟨hl, -⟩ | ⟨-, hr⟩
      · exact absurd hstart hl
      · exact hr ▸ Function.update_self ..
    · rw [hret] at hs
      cases hs
    · rcases hm.immediateExit with hr | ⟨-, hr⟩
      · exact hr ▸ hi
      · exact hr ▸ (Function.update_of_ne hij ..).trans hi
  refine h.loop hmove hm.vmDone hj fun f ht hw => ?_
  have hflag : f = .done ∧ s.vmDone = true ∨ f = .timeout ∧ s.watchdogTimeout = true := by
    cases f with
    | done => exact Or.inl ⟨rfl, ht.1⟩
    | timeout => exact Or.inr ⟨rfl, ht.1⟩
  obtain ⟨hwin, hint⟩ := hm.window f hw hflag
  obtain ⟨hk, -⟩ := h.told j f ht hwin
  have hsignal : s.signal j = true → s'.signal j = true := fun hsig => hm.signal ▸ hsig
  refine ⟨?_, fun hrun => ?_⟩
  · rcases hm.immediateExit with hr | ⟨hl | hl, -⟩
    · exact hk.imp (fun hi => hr ▸ hi) hsignal
    · exact Or.inr (hsignal (by_contra fun hsig => hok j f ht ⟨rfl, hl, Bool.eq_false_iff.mpr hsig⟩))
    · exact absurd hl hint
  · obtain ⟨-, hcleared⟩ := hm.kvmRun hrun
    exact hsignal (hk.resolve_left fun hi => absurd (hi.symm.trans hcleared) nofun)

/-- Thread `j` leaves `KVM_RUN` or throws. --/
theorem StopInv.move (h : StopInv s) {l' : Loc} {g : Fin n → Bool} (hj : ∀ c, s.vcpu j ≠ .call c)
    (hstart : s.vcpu j ≠ .start) (hret : s.vcpu j ≠ .returned) (hl' : l' ≠ .start) (hrun : l' ≠ .kvmRun)
    (hg : ∀ i, i ≠ j → s.signal i = true → g i = true)
    (hself : ∀ f, Told s j f → l'.window f = true → s.immediateExit j = true) :
    StopInv { s with vcpu := Function.update s.vcpu j l', signal := g } := by
  have hmove : ThreadMove s { s with vcpu := Function.update s.vcpu j l', signal := g } j l' :=
    ⟨rfl, rfl, rfl, rfl, rfl, rfl, fun _ hi => hi, fun heq => absurd heq hstart, hl', hret, fun _ _ hi => hi, hg⟩
  exact h.loop hmove rfl hj fun f ht hw => ⟨Or.inl (hself f ht hw), fun heq => absurd heq hrun⟩

/-- Thread `j` takes its signal in user mode. --/
theorem StopInv.deliver (h : StopInv s) (hok : SignalKept s (.deliver j)) (hrun : s.vcpu j ≠ .kvmRun) :
    StopInv { s with signal := Function.update s.signal j false } where
  ready := h.ready
  joined := h.joined
  polling := h.polling
  flagged := h.flagged
  told i f ht hw := by
    have hs : Told s i f := by
      cases f with
      | done => exact ht
      | timeout => exact ht
    by_cases hij : i = j
    · subst hij
      exact ⟨Or.inl (by_contra fun himm => hok i f hs ⟨rfl, hw, Bool.eq_false_iff.mpr himm⟩),
        fun heq => absurd heq hrun⟩
    · have hapart : Apart s { s with signal := Function.update s.signal j false } i :=
        ⟨rfl, id, fun hi => (Function.update_of_ne hij ..).trans hi⟩
      exact hapart.told (h.told i f hs) hw

end

/-! ### Calls keep threads told -/

section
variable {s t : Machine n} {i j : Fin n} {c : Call} {r : Option Call × Shared n} {f : Stop}

/-- A thread that a call newly tells got its signal, or it has not started and finds `immediate_exit` set. --/
def Newly (s t : Machine n) (i : Fin n) (f : Stop) : Prop :=
  Told s i f ∨ t.signal i = true ∨ s.runnerReady i = false ∧ (f = .timeout → Flagged s i)

theorem Apart.told_of_newly (h : StopInv s) (ha : Apart s t i) (hn : Newly s t i f) (hw : (t.vcpu i).window f = true) :
    Kicked t i ∧ (t.vcpu i = .kvmRun → t.signal i = true) := by
  rcases hn with hs | hsig | ⟨hr, hf⟩
  · exact ha.told (h.told i f hs) hw
  · exact ⟨Or.inr hsig, fun _ => hsig⟩
  · have hstart := h.ready i hr
    have hv := ha.vcpu.trans hstart
    rw [hv] at hw ⊢
    cases f with
    | done => cases hw
    | timeout => exact ⟨Or.inl (ha.immediateExit (h.flagged i (hf rfl) hstart)), nofun⟩

/-- The call is one of those that end the run. --/
theorem newly_done (hm : CallMove c s.toShared r) (hr : t.toShared = r.2) (ht : Told t i .done)
    (hnext : ∀ c', r.1 = some c' → c'.signalled i = true)
    (hback : c.signalled i = true → Finishes (Call.signalled i) s) : Newly s t i .done := by
  have hdone : s.vmDone = true := by
    by_contra hd
    obtain ⟨-, reason, code, hres⟩ := hm.decides (hr ▸ ht.1) (Bool.eq_false_iff.mpr hd)
    exact absurd (hnext _ hres) nofun
  rcases hm.signalled i hnext with hc | hsig | ⟨-, hready⟩
  · exact Or.inl ⟨hdone, hback hc⟩
  · exact Or.inr (Or.inl (hr ▸ hsig))
  · exact Or.inr (Or.inr ⟨hready, nofun⟩)

theorem StopInv.vcpuCall (h : StopInv s) (hj : s.vcpu j = .call c) (hm : CallMove c s.toShared r) :
    StopInv { s with toShared := r.2, vcpu := Function.update s.vcpu j (afterCall r.1) } := by
  have hafter : afterCall r.1 ≠ .start := by
    cases r.1 <;> exact nofun
  have hmove : ThreadMove s { s with toShared := r.2, vcpu := Function.update s.vcpu j (afterCall r.1) } j
      (afterCall r.1) :=
    ⟨rfl, rfl, rfl, rfl, hm.watchdogDone, hm.timeout, fun i hi => hm.ready ▸ hi,
      fun hs => absurd (hj.symm.trans hs) nofun, hafter, fun hs => absurd (hj.symm.trans hs) nofun,
      fun i _ => hm.immediateExit i, fun i _ => hm.signal i⟩
  refine h.thread hmove fun i f ht hw => ?_
  by_cases hij : i = j
  · subst hij
    have hv := congrArg (Loc.window f) (Function.update_self i (afterCall r.1) s.vcpu)
    exact absurd (hw.symm.trans (hv.trans (window_afterCall _ _))) nofun
  · refine (hmove.apart hij).told_of_newly h ?_ hw
    cases f with
    | timeout => exact Or.inl ⟨hm.timeout ▸ ht.1, ht.2⟩
    | done =>
      refine newly_done hm rfl ht (fun c' hc' => ht.2.1 j c' ?_) fun hc => ⟨fun k c₁ hk => ?_, ht.2.2⟩
      · rw [hc']
        exact Function.update_self ..
      · by_cases hkj : k = j
        · subst hkj
          cases hj.symm.trans hk
          exact hc
        · exact ht.2.1 k c₁ ((Function.update_of_ne hkj ..).trans hk)

theorem StopInv.watchdogCall (h : StopInv s) (hw : s.watchdogCall = some c) (hm : CallMove c s.toShared r) :
    StopInv { s with toShared := r.2, watchdogCall := r.1 } where
  ready i hi := h.ready i (hm.ready ▸ hi)
  joined hd := h.joined (hm.watchdogDone ▸ hd)
  polling hl c' hc' := hm.busy (h.polling hl c hw) c' hc'
  flagged i hf hstart := by
    rcases hm.flagged i hf.2.2 with hc | hi
    · refine hm.immediateExit i (h.flagged i ⟨hm.timeout ▸ hf.1, hf.2.1, fun c₁ hc₁ => ?_⟩ hstart)
      cases hw.symm.trans hc₁
      exact hc
    · exact hi
  told i f ht hwin := by
    have hapart : Apart s { s with toShared := r.2, watchdogCall := r.1 } i :=
      ⟨rfl, hm.immediateExit i, hm.signal i⟩
    refine hapart.told_of_newly h ?_ hwin
    cases f with
    | done =>
      by_cases hl : s.watchdog = .last
      · refine newly_done hm rfl ht (ht.2.2.2 hl) fun hc => ⟨ht.2.1, ht.2.2.1, fun _ c₁ hc₁ => ?_⟩
        cases hw.symm.trans hc₁
        exact hc
      · refine Or.inl ⟨?_, ht.2.1, ht.2.2.1, fun heq => absurd heq hl⟩
        by_contra hd
        obtain ⟨hidle, -⟩ := hm.decides ht.1 (Bool.eq_false_iff.mpr hd)
        exact absurd (hidle.symm.trans (h.polling hl c hw)) nofun
    | timeout =>
      obtain ⟨htime, hgone, hcalls⟩ := ht
      have hback : ∀ {p : Call → Bool}, p c = true → ∀ c₁, s.watchdogCall = some c₁ → p c₁ = true := fun hp c₁ hc₁ => by
        cases hw.symm.trans hc₁
        exact hp
      rcases hm.signalled i hcalls with hc | hsig | ⟨hf, hr⟩
      · exact Or.inl ⟨hm.timeout ▸ htime, hgone, hback hc⟩
      · exact Or.inr (Or.inl hsig)
      · exact Or.inr (Or.inr ⟨hr, fun _ => ⟨hm.timeout ▸ htime, hgone, hback hf⟩⟩)

theorem StopInv.mainCall (h : StopInv s) (hmain : s.main = .call c) (hm : CallMove c s.toShared r) {m : MainLoc}
    (hcall : ∀ c', r.1 = some c' → m = .call c') (hnot : m ≠ .setExited ∧ m ≠ .stopWatchdog) :
    StopInv { s with toShared := r.2, main := m } where
  ready i hi := h.ready i (hm.ready ▸ hi)
  joined hd := by
    rcases hd with hd | hd | hd
    · exact h.joined (Or.inl (hm.watchdogDone ▸ hd))
    · exact absurd hd hnot.1
    · exact absurd hd hnot.2
  polling := h.polling
  flagged i hf hstart := hm.immediateExit i (h.flagged i ⟨hm.timeout ▸ hf.1, hf.2⟩ hstart)
  told i f ht hwin := by
    have hapart : Apart s { s with toShared := r.2, main := m } i := ⟨rfl, hm.immediateExit i, hm.signal i⟩
    refine hapart.told_of_newly h ?_ hwin
    cases f with
    | done =>
      refine newly_done hm rfl ht (fun c' hc' => ht.2.2.1 c' (hcall c' hc')) fun hc =>
        ⟨ht.2.1, fun c₁ hc₁ => ?_, ht.2.2.2⟩
      cases hmain.symm.trans hc₁
      exact hc
    | timeout => exact Or.inl ⟨hm.timeout ▸ ht.1, ht.2⟩

/-- An access of the watchdog outside its calls tells nobody. --/
theorem StopInv.watchdogLoop (h : StopInv s) {yes : Bool} (hw : s.watchdogCall = none)
    (hs : watchdogStep timeoutMs yes s = some t) : StopInv t := by
  have hmove : t.vcpu = s.vcpu ∧ t.main = s.main ∧ t.vmDone = s.vmDone ∧ t.watchdogDone = s.watchdogDone ∧
      t.immediateExit = s.immediateExit ∧ t.signal = s.signal ∧ t.runnerReady = s.runnerReady ∧
      (t.watchdog = .gone → s.watchdog = .last ∧ (s.watchdogDone = true ∨ t.watchdogCall = some (.flag 0))) ∧
      (t.watchdog ≠ .last → ∀ c, t.watchdogCall = some c → c.idle = false) := by
    cases hl : s.watchdog <;> simp only [watchdogStep, hw, hl, Option.some.injEq, reduceCtorEq] at hs <;> subst hs <;>
      grind [Call.idle]
  obtain ⟨hv, hmain, hdone, hwd, himm, hsig, hready, hgone, hpolling⟩ := hmove
  refine ⟨fun i hi => hv ▸ h.ready i (hready ▸ hi), fun hd i => hv ▸ h.joined (hwd ▸ hmain ▸ hd) i, hpolling,
    fun i hf hstart => ?_, fun i f ht hwin => ?_⟩
  · rcases (hgone hf.2.1).2 with hd | hc
    · exact absurd ((h.joined (Or.inl hd) i).symm.trans ((congrFun hv i).symm.trans hstart)) nofun
    · exact absurd (hf.2.2 _ hc) nofun
  · have hapart : Apart s t i := ⟨by rw [hv], fun hi => himm ▸ hi, fun hi => hsig ▸ hi⟩
    cases f with
    | done =>
      refine hapart.told (h.told i .done ⟨hdone ▸ ht.1, hv ▸ ht.2.1, hmain ▸ ht.2.2.1, fun _ c hc => ?_⟩) hwin
      rw [hw] at hc
      cases hc
    | timeout =>
      rcases (hgone ht.2.1).2 with hd | hc
      · rw [hapart.vcpu, h.joined (Or.inl hd) i] at hwin
        cases hwin
      · exact absurd (ht.2.2 _ hc) nofun

/-- The main thread outside its calls. --/
theorem StopInv.mainLoop (h : StopInv s) {b : RunState} {d : Bool} {m : MainLoc}
    (hjoined : d = true ∨ m = .setExited ∨ m = .stopWatchdog → ∀ i, s.vcpu i = .returned)
    (hnot : ∀ c, s.main ≠ .call c) : StopInv { s with state := b, watchdogDone := d, main := m } where
  ready := h.ready
  joined := hjoined
  polling := h.polling
  flagged := h.flagged
  told i f ht hw := h.told i f (by
    cases f with
    | done => exact ⟨ht.1, ht.2.1, fun c hc => absurd hc (hnot c), ht.2.2.2⟩
    | timeout => exact ht) hw

end

/-! ### Lost signals -/

section
variable {s t : Machine n} {i j : Fin n}

theorem Delivered.move {f : Stop} {l' : Loc} (h : Delivered s f) (hv : t.vcpu = Function.update s.vcpu j l')
    (hl' : ∀ c, l' ≠ .call c) (hmain : t.main = s.main) (hw : t.watchdog = s.watchdog)
    (hc : t.watchdogCall = s.watchdogCall) (hdone : t.vmDone = s.vmDone)
    (htime : t.watchdogTimeout = s.watchdogTimeout) : Delivered t f := by
  cases f with
  | done =>
    refine ⟨hdone ▸ h.1, fun k c hk => ?_, hmain ▸ h.2.2.1, hw ▸ hc ▸ h.2.2.2⟩
    rw [hv] at hk
    rcases Threads.update_cases (P := (· = Loc.call c)) hk with ⟨-, heq⟩ | ⟨-, hk'⟩
    · exact absurd heq (hl' c)
    · exact h.2.1 k c hk'
  | timeout => exact ⟨htime ▸ h.1, hw ▸ h.2.1, hc ▸ h.2.2⟩

/-- A step that loses the signal of a stop strands its thread: nothing will end its `KVM_RUN`. --/
theorem not_kicked_of_loses {f : Stop} {e : Event n} (hd : Delivered s f) (hl : Loses s f i e)
    (hs : step timeoutMs s e = some t) : Delivered t f ∧ (t.vcpu i).window f = true ∧ ¬Kicked t i := by
  cases e with
  | deliver j =>
    obtain ⟨rfl, hw, himm⟩ := hl
    obtain ⟨-, heq⟩ := Option.ite_none_right_eq_some.mp hs
    cases heq
    refine ⟨by cases f <;> exact hd, hw, ?_⟩
    rintro (hk | hk)
    · exact absurd (himm.symm.trans hk) nofun
    · exact absurd ((Function.update_self ..).symm.trans hk) nofun
  | exit j x =>
    obtain ⟨rfl, hw, himm⟩ := hl
    obtain ⟨-, heq⟩ := Option.ite_none_right_eq_some.mp hs
    cases heq
    have hself := Function.update_self j (handleExit j x) s.vcpu
    refine ⟨hd.move rfl (fun c hc => ?_) rfl rfl rfl rfl rfl, (congrArg (Loc.window f) hself).trans hw, ?_⟩
    · rw [hc] at hw
      cases f <;> cases hw
    · rintro (hk | hk)
      · exact absurd (himm.symm.trans hk) nofun
      · exact absurd ((Function.update_self ..).symm.trans hk) nofun
  | vcpu j =>
    obtain ⟨rfl, hclear, hsig⟩ := hl
    obtain ⟨⟨l', s'⟩, hr, rfl⟩ := Option.map_eq_some_iff.mp hs
    rw [hclear] at hr
    cases hr
    refine ⟨hd.move rfl nofun rfl rfl rfl rfl rfl, ?_, ?_⟩
    · exact (congrArg (Loc.window f) (Function.update_self j Loc.enter s.vcpu)).trans (by cases f <;> rfl)
    · rintro (hk | hk)
      · exact absurd ((Function.update_self ..).symm.trans hk) nofun
      · exact absurd (hsig.symm.trans hk) nofun
  | host | pollFails | kick | watchdog | main => exact nomatch hl

end

/-! ### Runs -/

section
variable {s t : Machine n}

theorem initial_stopInv : StopInv (initial n) where
  ready _ _ := rfl
  joined hd := by rcases hd with hd | hd | hd <;> cases hd
  polling _ _ hc := nomatch hc
  flagged _ hf := nomatch hf.1
  told i f ht := by cases f <;> cases ht.1

theorem step_main (h : StopInv s) (hs : mainStep s = some t) : StopInv t := by
  unfold mainStep at hs
  cases hmain : s.main with
  | call c =>
    rw [hmain] at hs
    obtain ⟨⟨c', s'⟩, hr, rfl⟩ := Option.map_eq_some_iff.mp hs
    cases c' with
    | none => exact h.mainCall hmain (callStep_move hr) nofun ⟨nofun, nofun⟩
    | some c' => exact h.mainCall hmain (callStep_move hr) (fun _ heq => by cases heq; rfl) ⟨nofun, nofun⟩
  | loop =>
    rw [hmain] at hs
    obtain ⟨-, heq⟩ := Option.ite_none_right_eq_some.mp hs
    cases heq
    exact h.mainLoop (fun hd => h.joined (Or.inl (hd.resolve_right (by rintro (hd | hd) <;> cases hd)))) (hmain ▸ nofun)
  | join =>
    rw [hmain] at hs
    obtain ⟨hall, heq⟩ := Option.ite_none_right_eq_some.mp hs
    cases heq
    exact h.mainLoop (fun _ => hall) (hmain ▸ nofun)
  | setExited =>
    rw [hmain] at hs
    cases hs
    exact h.mainLoop (fun _ => h.joined (Or.inr (Or.inl hmain))) (hmain ▸ nofun)
  | stopWatchdog =>
    rw [hmain] at hs
    cases hs
    exact h.mainLoop (fun _ => h.joined (Or.inr (Or.inr hmain))) (hmain ▸ nofun)
  | joinWatchdog =>
    rw [hmain] at hs
    obtain ⟨-, heq⟩ := Option.ite_none_right_eq_some.mp hs
    cases heq
    exact h.mainLoop (fun hd => h.joined (Or.inl (hd.resolve_right (by rintro (hd | hd) <;> cases hd)))) (hmain ▸ nofun)
  | result =>
    rw [hmain] at hs
    cases hs

theorem step_stopInv {e : Event n} (h : StopInv s) (hok : SignalKept s e) (hs : step timeoutMs s e = some t) :
    StopInv t := by
  cases e with
  | host c =>
    cases hs
    exact ⟨h.ready, h.joined, h.polling, h.flagged, fun i f ht => h.told i f (by cases f <;> exact ht)⟩
  | vcpu j =>
    obtain ⟨⟨l', s'⟩, hr, rfl⟩ := Option.map_eq_some_iff.mp hs
    by_cases hj : ∃ c, s.vcpu j = .call c
    · obtain ⟨c, hc⟩ := hj
      rw [hc] at hr
      obtain ⟨r, hcall, heq⟩ := Option.map_eq_some_iff.mp hr
      cases heq
      exact h.vcpuCall hc (callStep_move hcall)
    · exact h.vcpu (not_exists.mp hj) hok hr
  | pollFails j message =>
    obtain ⟨⟨-, hloc⟩, heq⟩ := Option.ite_none_right_eq_some.mp hs
    cases heq
    refine h.move ?_ ?_ ?_ nofun nofun (fun _ _ hi => hi) nofun <;> rcases hloc with hl | hl <;> rw [hl] <;> exact nofun
  | exit j x =>
    obtain ⟨hloc, heq⟩ := Option.ite_none_right_eq_some.mp hs
    cases heq
    refine h.move ?_ ?_ ?_ ?_ (handleExit_ne_kvmRun j x) (fun i hij hi => (Function.update_of_ne hij ..).trans hi)
      fun f ht hw => by_contra fun himm => hok j f ht ⟨rfl, hw, Bool.eq_false_iff.mpr himm⟩
    · exact hloc ▸ nofun
    · exact hloc ▸ nofun
    · exact hloc ▸ nofun
    · rcases handleExit_cases j x with hx | hx | ⟨c, hx⟩ <;> rw [hx] <;> exact nofun
  | kick j =>
    obtain ⟨⟨hloc, -⟩, heq⟩ := Option.ite_none_right_eq_some.mp hs
    cases heq
    exact h.move (hloc ▸ nofun) (hloc ▸ nofun) (hloc ▸ nofun) nofun nofun
      (fun i hij hi => (Function.update_of_ne hij ..).trans hi) fun f _ hw => by cases f <;> cases hw
  | deliver j =>
    obtain ⟨⟨hrun, -⟩, heq⟩ := Option.ite_none_right_eq_some.mp hs
    cases heq
    exact h.deliver hok hrun
  | watchdog yes =>
    cases hw : s.watchdogCall with
    | none => exact h.watchdogLoop hw hs
    | some c =>
      simp only [step, watchdogStep, hw] at hs
      obtain ⟨r, hr, rfl⟩ := Option.map_eq_some_iff.mp hs
      exact h.watchdogCall hw (callStep_move hr)
  | main => exact step_main h hs

theorem told_of_delivered {f : Stop} (h : Delivered s f) (i : Fin n) : Told s i f := by
  have hidle : ∀ {c : Call}, c.idle = true → c.signalled i = true := fun {c} hc => by
    cases c <;> first | rfl | cases hc
  cases f with
  | done =>
    exact ⟨h.1, fun j c hj => hidle (h.2.1 j c hj), fun c hc => hidle (h.2.2.1 c hc),
      fun hl c hc => hidle (h.2.2.2 hl c hc)⟩
  | timeout => exact ⟨h.1, h.2.1, fun c hc => absurd (h.2.2.symm.trans hc) nofun⟩

/-- In a run in which no thread loses the signal of a stop, every thread that can run the guest after the
    `interrupt_all` of the stop will be kicked, and one in `KVM_RUN` has its signal pending. --/
theorem stop_kicks_vcpus {es : List (Event n)} (h : Runs.Under (step timeoutMs) SignalKept (initial n) es s) {f : Stop}
    (hd : Delivered s f) {i : Fin n} (hw : (s.vcpu i).window f = true) :
    Kicked s i ∧ (s.vcpu i = .kvmRun → s.signal i = true) := by
  have hinv : StopInv s := h.invariant (fun _ _ _ hi hok hs => step_stopInv hi hok hs) initial_stopInv
  exact hinv.told i f (told_of_delivered hd i) hw

/-- The theorem on a stop that the watchdog decides while the only vCPU is in `KVM_RUN`. --/
theorem stop_kicks_running_vcpu : ∃ s, Runs.Under (step 0) SignalKept (initial 1)
      [.vcpu 0, .vcpu 0, .vcpu 0, .vcpu 0, .vcpu 0, .vcpu 0, .watchdog false, .watchdog true, .watchdog false,
        .watchdog false, .watchdog false, .watchdog false, .watchdog false, .watchdog false, .watchdog false] s ∧
    Delivered s .done ∧ s.vcpu 0 = .kvmRun ∧ s.signal 0 = true := by
  -- no step loses a signal: the thread moves only before the stop is decided
  obtain ⟨s, hs, hd, hw, hc, hm, hrun⟩ := Runs.exists_under (step 0)
    (fun s e => s.vmDone = false ∧ s.watchdogTimeout = false ∨ e = .watchdog false) (initial 1)
    [.vcpu 0, .vcpu 0, .vcpu 0, .vcpu 0, .vcpu 0, .vcpu 0, .watchdog false, .watchdog true, .watchdog false,
        .watchdog false, .watchdog false, .watchdog false, .watchdog false, .watchdog false, .watchdog false]
    (fun s => s.vmDone = true ∧ s.watchdog = .last ∧ s.watchdogCall = none ∧ s.main = .loop ∧ s.vcpu 0 = .kvmRun)
    (by decide)
  have hsignal : ∀ (s : Machine 1) (e : Event 1),
      s.vmDone = false ∧ s.watchdogTimeout = false ∨ e = .watchdog false → SignalKept s e := fun s e hok i f ht => by
    rcases hok with ⟨hd, htime⟩ | rfl
    · cases f with
      | done => exact absurd (hd.symm.trans ht.1) nofun
      | timeout => exact absurd (htime.symm.trans ht.1) nofun
    · exact id
  have hkept := hs.mono hsignal
  have hdelivered : Delivered s .done := by
    refine ⟨hd, fun j c hj => ?_, fun c hcall => absurd (hm.symm.trans hcall) nofun,
      fun _ c hcall => absurd (hc.symm.trans hcall) nofun⟩
    rw [Subsingleton.elim j 0, hrun] at hj
    cases hj
  exact ⟨s, hkept, hdelivered, hrun, (stop_kicks_vcpus hkept hdelivered (hrun ▸ rfl)).2 hrun⟩

/-- The watchdog decides a timeout while the only thread is about to clear `immediate_exit`: it takes its signal
    first, and then nothing ends its `KVM_RUN`. --/
theorem stop_strands_vcpu : ∃ s, Runs.Under (step 1) (fun _ _ => True) (initial 1)
      [.vcpu 0, .vcpu 0, .vcpu 0, .vcpu 0, .watchdog false, .watchdog false, .watchdog false, .watchdog false,
        .watchdog false, .watchdog true, .watchdog false, .watchdog false, .watchdog false, .watchdog false,
        .watchdog false, .watchdog false, .deliver 0, .vcpu 0, .vcpu 0] s ∧
    Delivered s .timeout ∧ s.vcpu 0 = .kvmRun ∧ ¬Kicked s 0 := by
  obtain ⟨s, hs, ⟨h1, h2, h3⟩, hrun, hi, hsig⟩ := Runs.exists_under (step 1) (fun _ _ => True)
    (initial 1)
    [.vcpu 0, .vcpu 0, .vcpu 0, .vcpu 0, .watchdog false, .watchdog false, .watchdog false, .watchdog false,
        .watchdog false, .watchdog true, .watchdog false, .watchdog false, .watchdog false, .watchdog false,
        .watchdog false, .watchdog false, .deliver 0, .vcpu 0, .vcpu 0]
    (fun s => (s.watchdogTimeout = true ∧ s.watchdog = .gone ∧ s.watchdogCall = none) ∧ s.vcpu 0 = .kvmRun ∧
      s.immediateExit 0 = false ∧ s.signal 0 = false) (by decide)
  refine ⟨s, hs, ⟨h1, h2, h3⟩, hrun, ?_⟩
  rintro (hk | hk)
  · exact absurd (hi.symm.trans hk) nofun
  · exact absurd (hsig.symm.trans hk) nofun

end
end NodeVmm.RunLoop
