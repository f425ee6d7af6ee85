import NodeVmm.RunLoop

/-! The clock of a running machine: the deadline of the watchdog, and the extension that the thread of vCPU 0 adds for a
    pause, in `native/kvm/backend.cc`. Times are nanoseconds of the steady clock since `base_deadline` was computed.

    The reads of the clock and the accesses to `timeout_extension_ms` are steps of their own between the accesses of the run
    loop. Without a timeout nothing uses them, and they are left out. -/

namespace NodeVmm.RunLoop

def nsPerMs : Nat := 1000000

structure Clocked (n : Nat) extends Machine n where
  now : Nat
  timeoutExtensionMs : Nat
  /-- `paused_at` of vCPU 0, from its pause on until it has added the pause. --/
  pausedAt : Option Nat
  /-- `paused_ms` of vCPU 0, which it adds next. --/
  pausedMs : Option Nat
  /-- The extension that the watchdog has read for the comparison that it makes next. --/
  loadedMs : Option Nat

inductive ClockEvent (n : Nat) where
  | tick (ns : Nat)
  | step (e : Event n)
  /-- vCPU 0 reads the clock before and after the pause wait, and adds the difference. --/
  | readPausedAt
  | readPausedMs
  | addPausedMs
  | loadExtension
  deriving DecidableEq, Repr

def initialClocked (n : Nat) : Clocked n where
  toMachine := initial n
  now := 0
  timeoutExtensionMs := 0
  pausedAt := none
  pausedMs := none
  loadedMs := none

variable {n : Nat}

/-- vCPU 0 makes this access next. --/
def FirstAt (s : Machine n) (l : Loc) : Prop := ∃ i : Fin n, i.val = 0 ∧ s.vcpu i = l

instance (s : Machine n) (l : Loc) : Decidable (FirstAt s l) := inferInstanceAs (Decidable (∃ _, _ ∧ _))

/-- The watchdog compares the clock with the deadline next. --/
def Compares (s : Machine n) : Prop := s.watchdogCall = none ∧ s.watchdog = .deadline

instance (s : Machine n) : Decidable (Compares s) := inferInstanceAs (Decidable (_ ∧ _))

/-- An access of the run loop comes after the reads of the clock before it, and the watchdog compares as the clock says. --/
def clockAllows (timeoutMs : Nat) (s : Clocked n) : Event n → Bool
  | .vcpu i =>
    i.val ≠ 0 || match s.vcpu i with
      | .addPaused => timeoutMs = 0 || s.pausedAt.isSome
      | .pausedCommand => timeoutMs = 0 || s.pausedAt.isNone
      | _ => true
  | .watchdog yes =>
    if Compares s.toMachine then s.loadedMs.any fun ms => yes = decide ((timeoutMs + ms) * nsPerMs < s.now) else true
  | _ => true

def clockStep (timeoutMs : Nat) (s : Clocked n) : ClockEvent n → Option (Clocked n)
  | .tick ns => some { s with now := s.now + ns }
  | .step e =>
    if clockAllows timeoutMs s e then
      (step timeoutMs s.toMachine e).map fun m =>
        { s with
          toMachine := m
          loadedMs := match e with
            | .watchdog _ => none
            | _ => s.loadedMs }
    else none
  | .readPausedAt =>
    if 0 < timeoutMs ∧ FirstAt s.toMachine .addPaused ∧ s.pausedAt = none then some { s with pausedAt := some s.now }
    else none
  | .readPausedMs =>
    if 0 < timeoutMs ∧ FirstAt s.toMachine .pausedCommand ∧ s.pausedMs = none then
      s.pausedAt.map fun since => { s with pausedMs := some ((s.now - since) / nsPerMs) }
    else none
  | .addPausedMs =>
    s.pausedMs.map fun ms =>
      { s with timeoutExtensionMs := s.timeoutExtensionMs + ms, pausedAt := none, pausedMs := none }
  | .loadExtension =>
    if Compares s.toMachine ∧ s.loadedMs = none then some { s with loadedMs := some s.timeoutExtensionMs } else none

end NodeVmm.RunLoop
