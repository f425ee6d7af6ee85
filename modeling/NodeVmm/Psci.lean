import NodeVmm.RunLoop

/-! The vCPUs of `native/hvf/backend.cc`: the PSCI calls that start and stop them, the loops of their threads, and the
    pause wait. A step is one section under `lifecycle_mu`, or one access to a control word or to
    `stop_requested`. All vCPUs have been created. -/

namespace NodeVmm.Hvf

def psciSuccess : Int := 0

def psciInvalidParams : Int := -2

def psciAlreadyOn : Int := -4

inductive PsciCpuState where
  | off
  | onPending
  | on
  deriving DecidableEq, Repr

/-- `HvfCpuSlot`, as far as the PSCI calls and the pause wait use it. --/
structure CpuSlot where
  startRequested : Bool
  paused : Bool
  state : PsciCpuState
  entry : UInt64
  context : UInt64

/-- Where the thread of a vCPU is in `vcpu_main`. --/
inductive CpuLoc where
  /-- At the top of the outer loop. --/
  | outer
  /-- On `lifecycle_cv`. --/
  | waiting
  /-- With an entry point, before it publishes that the VM runs. --/
  | started
  /-- At the top of the inner loop. --/
  | top
  /-- In `handle_pause_if_requested`, before it reads the command. --/
  | testPause
  | checkIn
  | pauseWait
  | checkOut
  | pauseDone
  | setRunning
  | guest
  /-- Out of both loops. --/
  | leaving
  | gone
  deriving DecidableEq, Repr

/-- The thread has passed the entry of its vCPU and has not turned it off. --/
def CpuLoc.running : CpuLoc → Bool
  | .started | .top | .testPause | .checkIn | .pauseWait | .checkOut | .pauseDone | .setRunning | .guest => true
  | _ => false

/-- The thread is inside the pause wait: it has checked in, and not out. --/
def CpuLoc.inWait : CpuLoc → Bool
  | .pauseWait | .checkOut => true
  | _ => false

structure Cpus (n : Nat) where
  slots : Fin n → CpuSlot
  locs : Fin n → CpuLoc
  pausedVcpus : Nat
  stopRequested : Bool
  controlEnabled : Bool
  command : RunLoop.Command
  state : RunLoop.RunState
  /-- Entry point and context of the calls of CPU_ON that have succeeded. --/
  asked : Fin n → List (UInt64 × UInt64)
  /-- Those that the vCPU has been entered with. --/
  entered : Fin n → List (UInt64 × UInt64)

namespace Cpus
variable {n : Nat}

/-- The vCPUs when their threads are let go. --/
def boot (n : Nat) (controlEnabled : Bool) : Cpus n where
  slots i := ⟨false, false, if i.val = 0 then .on else .off, 0, 0⟩
  locs i := if i.val = 0 then .started else .outer
  pausedVcpus := 0
  stopRequested := false
  controlEnabled := controlEnabled
  command := .run
  state := .starting
  asked _ := []
  entered _ := []

def setLoc (i : Fin n) (loc : CpuLoc) (s : Cpus n) : Cpus n := { s with locs := Function.update s.locs i loc }

def setSlot (i : Fin n) (slot : CpuSlot) (s : Cpus n) : Cpus n := { s with slots := Function.update s.slots i slot }

def requestStop (s : Cpus n) : Cpus n := { s with stopRequested := true }

def publish (state : RunLoop.RunState) (s : Cpus n) : Cpus n := { s with state := state }

def powered (slot : CpuSlot) : Bool := slot.state != .off

def poweredCpuCount (s : Cpus n) : Nat := max (Threads.count powered s.slots) 1

/-! ### PSCI calls -/

def cpuIndexFromMpidr (n : Nat) (mpidr : UInt64) : Option (Fin n) :=
  if mpidr &&& ~~~(0xFF : UInt64) ≠ 0 then none
  else if h : (mpidr &&& (0xFF : UInt64)).toNat < n then some ⟨_, h⟩
  else none

def affinityOf : PsciCpuState → Int
  | .on => 0
  | .off => 1
  | .onPending => 2

def psciAffinityInfo (mpidr level : UInt64) (s : Cpus n) : Int :=
  if level = 0 then
    match cpuIndexFromMpidr n mpidr with
    | some target => affinityOf (s.slots target).state
    | none => psciInvalidParams
  else if level ≤ 3 ∧ mpidr = 0 then
    if (List.finRange n).any fun i => (s.slots i).state == .on then 0
    else if (List.finRange n).any fun i => (s.slots i).state == .onPending then 2
    else 1
  else psciInvalidParams

/-- The target is to start with this entry point and context. --/
def accept (target : Fin n) (entry context : UInt64) (s : Cpus n) : Cpus n :=
  { s.setSlot target { s.slots target with entry := entry, context := context, startRequested := true, state := .onPending } with
    asked := Function.update s.asked target (s.asked target ++ [(entry, context)]) }

def cpuOn (mpidr entry context : UInt64) (s : Cpus n) : Int × Cpus n :=
  match cpuIndexFromMpidr n mpidr with
  | some target =>
    if entry ≠ 0 then
      if target.val = 0 ∨ (s.slots target).state ≠ .off ∨ (s.slots target).startRequested = true then (psciAlreadyOn, s)
      else (psciSuccess, accept target entry context s)
    else (psciInvalidParams, s)
  | none => (psciInvalidParams, s)

def turnOff (i : Fin n) (s : Cpus n) : Cpus n := s.setSlot i { s.slots i with state := .off, paused := false }

inductive PsciCall where
  | cpuOn (mpidr entry context : UInt64)
  | cpuOff
  | affinityInfo (mpidr level : UInt64)
  /-- SYSTEM_OFF or SYSTEM_RESET. --/
  | systemOff
  /-- A call that looks at no vCPU. --/
  | other

/-- A PSCI call of vCPU `i`. --/
def psci (i : Fin n) (call : PsciCall) (s : Cpus n) : Cpus n :=
  match call with
  | .cpuOn mpidr entry context => (s.cpuOn mpidr entry context).2.setLoc i .top
  | .cpuOff => if i.val = 0 then s.requestStop.setLoc i .top else (s.turnOff i).setLoc i .outer
  | .affinityInfo _ _ => s.setLoc i .top
  | .systemOff => s.requestStop.setLoc i .top
  | .other => s.setLoc i .top

/-! ### Threads -/

/-- The vCPU takes what CPU_ON has asked for. --/
def takeStart (i : Fin n) (s : Cpus n) : Cpus n :=
  { s.setSlot i { s.slots i with startRequested := false, state := .on } with
    locs := Function.update s.locs i .started
    entered := Function.update s.entered i (s.entered i ++ [((s.slots i).entry, (s.slots i).context)]) }

/-- The first section of `handle_pause_if_requested`. --/
def checkIn (i : Fin n) (s : Cpus n) : Cpus n :=
  let t := if (s.slots i).paused then s
    else { s.setSlot i { s.slots i with paused := true } with pausedVcpus := s.pausedVcpus + 1 }
  let t := if t.poweredCpuCount ≤ t.pausedVcpus then t.publish .paused else t
  t.setLoc i .pauseWait

/-- The second one. --/
def checkOut (i : Fin n) (s : Cpus n) : Cpus n :=
  let t := if (s.slots i).paused then
      { s.setSlot i { s.slots i with paused := false } with pausedVcpus := s.pausedVcpus - 1 }
    else s
  t.setLoc i .pauseDone

/-- The next step of the thread of vCPU `i`, if it is not in the guest and does not wait. --/
def run (i : Fin n) (s : Cpus n) : Option (Cpus n) :=
  match s.locs i with
  | .outer =>
    if s.stopRequested then some (s.setLoc i .leaving)
    else if (s.slots i).startRequested then some ((s.turnOff i).takeStart i)
    else some ((s.turnOff i).setLoc i .waiting)
  | .waiting =>
    if s.stopRequested then some (s.setLoc i .leaving)
    else if (s.slots i).startRequested then some (s.takeStart i)
    else none
  | .started => some ((s.publish .running).setLoc i .top)
  | .top =>
    if s.stopRequested then some (s.setLoc i .leaving)
    else if !s.controlEnabled then some (s.setLoc i .guest)
    else if s.command = .stop then some ((s.publish .stopping).requestStop.setLoc i .leaving)
    else some (s.setLoc i .testPause)
  | .testPause => if s.command = .pause then some (s.setLoc i .checkIn) else some (s.setLoc i .setRunning)
  | .checkIn => some (s.checkIn i)
  | .pauseWait => if !s.stopRequested && s.command = .pause then none else some (s.setLoc i .checkOut)
  | .checkOut => some (s.checkOut i)
  | .pauseDone => if s.stopRequested then some (s.setLoc i .leaving) else some (s.setLoc i .setRunning)
  | .setRunning => some ((s.publish .running).setLoc i .guest)
  | .guest => none
  | .leaving => some ((s.setSlot i { s.slots i with state := .off }).setLoc i .gone)
  | .gone => none

inductive Event (n : Nat) where
  | command (command : RunLoop.Command)
  /-- The monitor thread finds the command to stop. --/
  | hostStop
  /-- `request_stop` of another thread. --/
  | requestStop
  | run (i : Fin n)
  | psci (i : Fin n) (call : PsciCall)
  /-- An exit of the guest that is handled. --/
  | exit (i : Fin n)
  /-- An exit that ends the VM. --/
  | trap (i : Fin n)

def step (s : Cpus n) : Event n → Option (Cpus n)
  | .command command => some { s with command := command }
  | .hostStop => if s.command = .stop then some (s.publish .stopping).requestStop else none
  | .requestStop => some s.requestStop
  | .run i => s.run i
  | .psci i call => if s.locs i = .guest then some (s.psci i call) else none
  | .exit i => if s.locs i = .guest then some (s.setLoc i .top) else none
  | .trap i => if s.locs i = .guest then some (s.requestStop.setLoc i .leaving) else none

end Cpus
end NodeVmm.Hvf
