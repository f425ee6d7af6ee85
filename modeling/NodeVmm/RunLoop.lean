import NodeVmm.Lib.Runs

/-! The threads of a running machine: `vcpu_loop`, the watchdog, and the end of `RunVm` of
    `native/kvm/backend.cc`.

    A step is one access to what the threads share: the control words, the atomics, `immediate_exit`, or a
    section under a mutex. Between two steps a thread holds only its location. The clock, the console, the
    network and the guest are answers that a step is given. A signal is pending until its thread is in user
    mode: its handler does nothing, so there it is lost. -/

namespace NodeVmm.RunLoop

inductive Command where
  | run
  | pause
  | stop
  deriving DecidableEq, Repr

inductive RunState where
  | starting
  | running
  | paused
  | stopping
  | exited
  deriving DecidableEq, Repr

def kvmExitIo : Nat := 2
def kvmExitHlt : Nat := 5
def kvmExitMmio : Nat := 6
def kvmExitIrqWindowOpen : Nat := 7
def kvmExitShutdown : Nat := 8
def kvmExitFailEntry : Nat := 9
def kvmExitIntr : Nat := 10
def kvmExitInternalError : Nat := 17
def kvmExitSystemEvent : Nat := 24

def exitReasonName (reason : Nat) : String :=
  match reason with
  | 0 => "unknown"
  | 1 => "exception"
  | 2 => "io"
  | 5 => "hlt"
  | 6 => "mmio"
  | 7 => "irq-window-open"
  | 8 => "shutdown"
  | 9 => "fail-entry"
  | 17 => "internal-error"
  | 24 => "system-event"
  | _ => "exit-" ++ toString reason

/-- Where a thread is inside `record_error`, `finish` or `interrupt_all`. --/
inductive Call where
  | recordError (message : String)
  | finish (reason : String) (code : Nat)
  /-- This call set `vm_done`. --/
  | result (reason : String) (code : Nat)
  /-- `interrupt_all` sets `immediate_exit` of vCPU `k` next. --/
  | flag (k : Nat)
  | lock
  /-- `interrupt_all` holds `runner_mu` and signals thread `k` next. --/
  | kill (k : Nat)
  deriving DecidableEq, Repr

/-- Where a vCPU thread is in `vcpu_loop`: the access that it makes next. --/
inductive Loc where
  | start
  | top
  | poll
  | stopping
  | addPaused
  | setPaused
  | waitCommand
  | waitDone
  | subPaused
  | pausedCommand
  | pausedDone
  | setRunning
  | pollRx
  | clear
  | enter
  | kvmRun
  | interrupted
  | pollRxAgain
  | testHalted
  | testTimeout
  | call (c : Call)
  | returned
  deriving DecidableEq, Repr

inductive WatchdogLoc where
  | test
  | hostInterrupt
  | command
  | tap
  | pauseCommand
  | deadline
  | console
  | setHalted
  | last
  | gone
  deriving DecidableEq, Repr

/-- The thread that runs vCPU 0, after `vcpu_loop(0)`. --/
inductive MainLoc where
  | loop
  | call (c : Call)
  | join
  | setExited
  | stopWatchdog
  | joinWatchdog
  | result
  deriving DecidableEq, Repr

structure Shared (n : Nat) where
  command : Command
  state : RunState
  vmDone : Bool
  watchdogDone : Bool
  watchdogTimeout : Bool
  watchdogHalted : Bool
  pausedCount : Nat
  immediateExit : Fin n → Bool
  /-- A SIGUSR1 that the thread has not taken. --/
  signal : Fin n → Bool
  runnerReady : Fin n → Bool
  /-- Some `interrupt_all` holds `runner_mu`. --/
  runnerMu : Bool
  errorMessage : String
  finalExitReason : String
  finalReason : Nat

structure Machine (n : Nat) extends Shared n where
  vcpu : Fin n → Loc
  /-- Where the watchdog goes on after its call. --/
  watchdog : WatchdogLoc
  watchdogCall : Option Call
  main : MainLoc

def initial (n : Nat) : Machine n where
  command := .run
  state := .running
  vmDone := false
  watchdogDone := false
  watchdogTimeout := false
  watchdogHalted := false
  pausedCount := 0
  immediateExit _ := false
  signal _ := false
  runnerReady _ := false
  runnerMu := false
  errorMessage := ""
  finalExitReason := "host-stop"
  finalReason := kvmExitIntr
  vcpu _ := .start
  watchdog := .test
  watchdogCall := none
  main := .loop

variable {n : Nat}

/-- The next access of a call, or `none` after its last; no step while the mutex is held. --/
def callStep (c : Call) (s : Shared n) : Option (Option Call × Shared n) :=
  match c with
  | .recordError message =>
    some (some (.finish "host-error" kvmExitInternalError),
      { s with errorMessage := if s.errorMessage = "" then message else s.errorMessage })
  | .finish reason code =>
    some (if s.vmDone then none else some (.result reason code), { s with vmDone := true })
  | .result reason code => some (some (.flag 0), { s with finalExitReason := reason, finalReason := code })
  | .flag k =>
    if h : k < n then
      some (some (.flag (k + 1)), { s with immediateExit := Function.update s.immediateExit ⟨k, h⟩ true })
    else some (some .lock, s)
  | .lock => if s.runnerMu then none else some (some (.kill 0), { s with runnerMu := true })
  | .kill k =>
    if h : k < n then
      some (some (.kill (k + 1)),
        { s with signal := if s.runnerReady ⟨k, h⟩ then Function.update s.signal ⟨k, h⟩ true else s.signal })
    else some (none, { s with runnerMu := false })

def afterCall : Option Call → Loc
  | some c => .call c
  | none => .returned

/-- The next access of a vCPU thread outside `KVM_RUN`. --/
def vcpuStep (timeoutMs : Nat) (i : Fin n) (loc : Loc) (s : Shared n) : Option (Loc × Shared n) :=
  match loc with
  | .start =>
    if s.runnerMu then none else some (.top, { s with runnerReady := Function.update s.runnerReady i true })
  | .top => some (if s.vmDone then .returned else .poll, s)
  | .poll =>
    match s.command with
    | .stop => some (.stopping, s)
    | .pause => some (.addPaused, s)
    | .run => some (.pollRx, s)
  | .stopping => some (.call (.finish "host-stop" kvmExitIntr), { s with state := .stopping })
  | .addPaused =>
    some (if s.pausedCount + 1 = n then .setPaused else .waitCommand, { s with pausedCount := s.pausedCount + 1 })
  | .setPaused => some (.waitCommand, { s with state := .paused })
  | .waitCommand => some (if s.command = .pause then .waitDone else .subPaused, s)
  | .waitDone => some (if s.vmDone then .subPaused else .waitCommand, s)
  | .subPaused => some (.pausedCommand, { s with pausedCount := s.pausedCount - 1 })
  | .pausedCommand => some (if s.command = .stop then .stopping else .pausedDone, s)
  | .pausedDone => some (if s.vmDone then .pollRx else .setRunning, s)
  | .setRunning => some (.pollRx, { s with state := .running })
  | .pollRx => some (.clear, s)
  | .clear => some (.enter, { s with immediateExit := Function.update s.immediateExit i false })
  | .enter => some (if s.immediateExit i then .interrupted else .kvmRun, s)
  | .kvmRun => none
  | .interrupted => some (.pollRxAgain, { s with immediateExit := Function.update s.immediateExit i false })
  | .pollRxAgain => some (.testHalted, s)
  | .testHalted =>
    some (if s.watchdogHalted then .call (.finish "halted-console" kvmExitHlt) else .testTimeout, s)
  | .testTimeout =>
    some (if s.watchdogTimeout then .call (.recordError ("VM timed out after " ++ toString timeoutMs ++ "ms"))
      else .top, s)
  | .call c => (callStep c s).map fun r => (afterCall r.1, r.2)
  | .returned => none

/-- How `KVM_RUN` ends: it fails, or with an exit reason and what the devices answer to it. --/
inductive Exit where
  | again
  | error (message : String)
  | reason (code : Nat) (guestExit halted : Bool) (thrown : Option String) (entryFailure : Nat)
  deriving DecidableEq, Repr

def handleExit (i : Fin n) : Exit → Loc
  | .again => .interrupted
  | .error message => .call (.recordError ("KVM_RUN: " ++ message))
  | .reason code guestExit halted thrown entryFailure =>
    if code = kvmExitIo then
      match thrown with
      | some message => .call (.recordError message)
      | none =>
        if guestExit then .call (.finish "guest-exit" code)
        else if halted then .call (.finish "halted-console" kvmExitHlt)
        else .top
    else if code = kvmExitMmio then
      match thrown with
      | some message => .call (.recordError message)
      | none => .top
    else if code = kvmExitIrqWindowOpen then .top
    else if code = kvmExitHlt then
      if i.val = 0 then .call (.finish (exitReasonName code) code) else .top
    else if code = kvmExitShutdown ∨ code = kvmExitSystemEvent then .call (.finish (exitReasonName code) code)
    else if code = kvmExitInternalError then .call (.recordError "KVM internal error")
    else if code = kvmExitFailEntry then
      .call (.recordError ("KVM fail entry hardware_entry_failure_reason=" ++ toString entryFailure))
    else .call (.recordError ("unhandled KVM exit: " ++ exitReasonName code))

theorem handleExit_cases (i : Fin n) (x : Exit) :
    handleExit i x = .top ∨ handleExit i x = .interrupted ∨ ∃ c, handleExit i x = .call c := by
  cases x with
  | again => exact Or.inr (Or.inl rfl)
  | error message => exact Or.inr (Or.inr ⟨_, rfl⟩)
  | reason code guestExit halted thrown entryFailure =>
    unfold handleExit
    grind

/-- The next access of the watchdog, which a sleep, the clock, the console or the network answers with `yes`. --/
def watchdogStep (timeoutMs : Nat) (yes : Bool) (s : Machine n) : Option (Machine n) :=
  match s.watchdogCall with
  | some c => (callStep c s.toShared).map fun r => { s with toShared := r.2, watchdogCall := r.1 }
  | none =>
    match s.watchdog with
    | .test => some { s with watchdog := if s.watchdogDone then .last else .hostInterrupt }
    | .hostInterrupt =>
      some (if yes then { s with watchdog := .last, watchdogCall := some (.finish "host-stop" kvmExitIntr) }
        else { s with watchdog := .command })
    | .command => some { s with watchdog := .tap, watchdogCall := if s.command = .run then none else some (.flag 0) }
    | .tap => some { s with watchdog := .pauseCommand, watchdogCall := if yes then some (.flag 0) else none }
    | .pauseCommand => some { s with watchdog := if s.command = .pause then .test else .deadline }
    | .deadline =>
      some (if 0 < timeoutMs && yes then { s with watchdogTimeout := true, watchdog := .last }
        else { s with watchdog := .console })
    | .console => some { s with watchdog := if yes then .setHalted else .test }
    | .setHalted =>
      some { s with
        watchdogHalted := true
        watchdog := .last
        watchdogCall := some (.finish "halted-console" kvmExitHlt) }
    | .last => some { s with watchdog := .gone, watchdogCall := if s.watchdogDone then none else some (.flag 0) }
    | .gone => none

/-- The next access of the main thread after its `vcpu_loop`. --/
def mainStep (s : Machine n) : Option (Machine n) :=
  match s.main with
  | .loop =>
    if ∃ i, i.val = 0 ∧ s.vcpu i = .returned then some { s with main := .call (.finish "host-stop" kvmExitIntr) }
    else none
  | .call c =>
    (callStep c s.toShared).map fun r =>
      { s with toShared := r.2, main := match r.1 with | some c => .call c | none => .join }
  | .join => if ∀ i, s.vcpu i = .returned then some { s with main := .setExited } else none
  | .setExited => some { s with state := .exited, main := .stopWatchdog }
  | .stopWatchdog => some { s with watchdogDone := true, main := .joinWatchdog }
  | .joinWatchdog => if s.watchdog = .gone ∧ s.watchdogCall = none then some { s with main := .result } else none
  | .result => none

inductive Event (n : Nat) where
  /-- The host writes the command word. --/
  | host (c : Command)
  | vcpu (i : Fin n)
  /-- `poll_rx` throws. --/
  | pollFails (i : Fin n) (message : String)
  | exit (i : Fin n) (x : Exit)
  /-- The pending signal ends `KVM_RUN` with `EINTR`. --/
  | kick (i : Fin n)
  /-- The thread takes its signal in user mode. --/
  | deliver (i : Fin n)
  | watchdog (yes : Bool)
  | main
  deriving DecidableEq, Repr

def step (timeoutMs : Nat) (s : Machine n) : Event n → Option (Machine n)
  | .host c => some { s with command := c }
  | .vcpu i =>
    (vcpuStep timeoutMs i (s.vcpu i) s.toShared).map fun r =>
      { s with toShared := r.2, vcpu := Function.update s.vcpu i r.1 }
  | .pollFails i message =>
    if i.val = 0 ∧ (s.vcpu i = .pollRx ∨ s.vcpu i = .pollRxAgain) then
      some { s with vcpu := Function.update s.vcpu i (.call (.recordError message)) }
    else none
  -- a pending signal is taken on the way back to user mode
  | .exit i x =>
    if s.vcpu i = .kvmRun then
      some { s with vcpu := Function.update s.vcpu i (handleExit i x), signal := Function.update s.signal i false }
    else none
  | .kick i =>
    if s.vcpu i = .kvmRun ∧ s.signal i = true then
      some { s with vcpu := Function.update s.vcpu i .interrupted, signal := Function.update s.signal i false }
    else none
  | .deliver i =>
    if s.vcpu i ≠ .kvmRun ∧ s.signal i = true then
      some { s with signal := Function.update s.signal i false }
    else none
  | .watchdog yes => watchdogStep timeoutMs yes s
  | .main => mainStep s

end NodeVmm.RunLoop
