import NodeVmm.RunLoop

/-! The handle of a controlled VM: `runKvmVmControlled` of `src/kvm.ts` over the threads of `RunVm`.

    A step is one access of a call to the control words or to `settled`, or a step of the machine. The worker may
    fail before the machine starts. An abort by the caller's signal is left out. -/

namespace NodeVmm.VmHandle
open RunLoop

inductive Kind where
  | pause
  | resume
  | stop
  deriving DecidableEq, Repr

def Kind.command : Kind → Command
  | .pause => .pause
  | .resume => .run
  | .stop => .stop

/-- The state that `waitForState` waits for; `stop` waits for the end of the run. --/
def Kind.wanted : Kind → RunState
  | .pause => .paused
  | .resume => .running
  | .stop => .exited

/-- The access that a call makes next. --/
inductive CallLoc where
  | check
  | store
  | pollWanted
  | pollExited
  | pollSettled
  /-- `await running` --/
  | running
  | resolved
  deriving DecidableEq, Repr

structure HostCall where
  kind : Kind
  loc : CallLoc
  /-- Since the call stored its command, the machine has published the wanted state. The code keeps no such record. --/
  entered : Bool
  deriving DecidableEq, Repr

structure Handle (n m : Nat) where
  machine : Machine n
  launched : Bool
  settled : Bool
  calls : Fin m → Option HostCall

variable {n m : Nat}

def initial (n m : Nat) : Handle n m where
  machine := { RunLoop.initial n with state := .starting }
  launched := false
  settled := false
  calls _ := none

/-- A call of one of the three functions. --/
def Kind.start (kind : Kind) : HostCall := ⟨kind, if kind = .stop then .store else .check, false⟩

/-- The next access of a call, and the command that it stores. --/
def hostStep (s : Handle n m) (c : HostCall) : Option (HostCall × Option Command) :=
  match c.loc with
  | .check => some ({ c with loc := if s.machine.state = .exited then .resolved else .store }, none)
  | .store =>
    some ({ c with loc := if c.kind = .stop then .running else .pollWanted, entered := false }, some c.kind.command)
  | .pollWanted =>
    some ({ c with loc := if s.machine.state = c.kind.wanted then .resolved else .pollExited }, none)
  | .pollExited => some ({ c with loc := if s.machine.state = .exited then .running else .pollSettled }, none)
  | .pollSettled => some ({ c with loc := if s.settled then .running else .pollWanted }, none)
  | .running => if s.settled then some ({ c with loc := .resolved }, none) else none
  | .resolved => none

/-- The state that the machine publishes in a step. --/
def publishes (s : Machine n) : RunLoop.Event n → Option RunState
  | .vcpu i =>
    match s.vcpu i with
    | .stopping => some .stopping
    | .setPaused => some .paused
    | .setRunning => some .running
    | _ => none
  | .main => if s.main = .setExited then some .exited else none
  | _ => none

/-- The calls after the machine published `state`. --/
def noteState (state : Option RunState) (calls : Fin m → Option HostCall) : Fin m → Option HostCall := fun i =>
  (calls i).map fun c => { c with entered := c.entered || state = some c.kind.wanted }

inductive Event (n m : Nat) where
  | call (i : Fin m) (kind : Kind)
  | host (i : Fin m)
  /-- `RunVm` publishes Running and starts its threads. --/
  | launch
  | machine (e : RunLoop.Event n)
  /-- The promise of the run settles. --/
  | settle

def step (timeoutMs : Nat) (s : Handle n m) : Event n m → Option (Handle n m)
  | .call i kind =>
    if s.calls i = none then some { s with calls := Function.update s.calls i (some kind.start) } else none
  | .host i =>
    (s.calls i).bind fun c => (hostStep s c).map fun (c, command) =>
      { s with
        machine := { s.machine with command := command.getD s.machine.command }
        calls := Function.update s.calls i (some c) }
  | .launch =>
    if s.launched ∨ s.settled then none
    else some { s with
      machine := { s.machine with state := .running }
      launched := true
      calls := noteState (some .running) s.calls }
  | .machine e =>
    match e with
    | .host _ => none
    | e =>
      if s.launched then
        (RunLoop.step timeoutMs s.machine e).map fun t =>
          { s with machine := t, calls := noteState (publishes s.machine e) s.calls }
      else none
  | .settle =>
    if s.launched = false ∨ s.machine.main = .result then
      some { s with machine := { s.machine with state := .exited }, settled := true }
    else none

end NodeVmm.VmHandle
