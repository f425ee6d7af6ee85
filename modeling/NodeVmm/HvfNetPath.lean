import NodeVmm.HvfNet

/-! The threads on the way of a frame from the socket to the guest in `native/hvf/backend.cc`: the reader, the vCPU
    thread that holds `device_mu`, and the guest, which may write its RAM at any time. A frame is queued and
    announced in two steps, and a poll is one step for each round of its loop. -/

namespace NodeVmm.Hvf

namespace NetDevice

/-- One round of the loop of `poll_rx`, and whether the loop goes on. --/
def pollRound : Exec NetDevice Bool := do
  let available ← onRing rxq (Ring.hasRxBuffer .hvf)
  if available then do
    let s ← Exec.get
    match s.rxFrames with
    | [] => pure false
    | frame :: _ => do
      Exec.modify popFrame
      if frame = [] ∧ s.link ≠ some .vmnet then pure true
      else do
        injectRxFrame frame
        pure true
  else pure false

/-- `handle_tx_queue` up to its call of `poll_rx`. --/
def serveTxQueue : Exec NetDevice Unit := do
  let s ← Exec.get
  let p ← Exec.lift (s.mem.ptr .hvf (s.regs.queues txq).availIdxAddr 2)
  serveTx (s.mem.ram.readU16 p) (2 ^ 16)

def setRam (bytes : Nat → UInt8) (s : NetDevice) : NetDevice := { s with mem := ⟨⟨s.mem.ram.size, bytes⟩, s.mem.fits⟩ }

end NetDevice

/-- Where the thread that holds `device_mu` is. --/
inductive Phase where
  /-- No thread holds it. --/
  | idle
  /-- It is about to call `poll_rx`. --/
  | entered
  /-- It is in the loop, with this many rounds left. --/
  | rounds (left : Nat)
  /-- A round threw, and the VM ends. --/
  | ended
  deriving DecidableEq, Repr

structure NetPath where
  dev : NetDevice
  phase : Phase
  /-- The reader has queued a frame and not called `notify_host` yet. --/
  queued : Bool
  /-- The guest has changed its RAM or a register since it last notified the RX queue. --/
  changed : Bool

namespace NetPath

inductive Event where
  /-- The reader has read a frame, which it queues. --/
  | frame (frame : Packet)
  | notifyHost
  | guest (bytes : Nat → UInt8)
  | write (off len : Nat) (value : UInt32)
  /-- The run loop gets to `poll_devices`. --/
  | poll
  /-- `poll_rx` up to its loop. --/
  | start
  | round

/-- The case of 0x050 up to `poll_rx`. The TX queue may throw, which is no run of this path. --/
def notify (value : UInt32) (s : NetPath) : Option NetPath :=
  if value = 0 then some { s with phase := .entered, changed := false }
  else if value = 1 ∧ (s.dev.regs.queues NetDevice.txq).ready then
    match NetDevice.serveTxQueue s.dev with
    | (.ok (), dev) => some { s with dev := dev, phase := .entered }
    | (.error _, _) => none
  else some s

def write (off len : Nat) (value : UInt32) (s : NetPath) : Option NetPath :=
  if 0x100 ≤ off ∨ len ≠ 4 then some s
  else
    match Reg.ofOffset off with
    | some reg =>
      if reg = .queueNotify then notify value s
      else some { s with dev := s.dev.onRegs (Transport.write s.dev.mem reg value), changed := true }
    | none => some s

def poll (s : NetPath) : NetPath :=
  if s.dev.enabled && (s.dev.needsPoll || s.dev.notifyReadable) then { s with phase := .entered } else s

def start (s : NetPath) : NetPath :=
  if s.dev.enabled && (s.dev.regs.queues NetDevice.rxq).ready then
    { s with dev := s.dev.drainNotify.pollSlirp, phase := .rounds NetDevice.pollBatch }
  else { s with phase := .idle }

def round (left : Nat) (s : NetPath) : NetPath :=
  match NetDevice.pollRound s.dev with
  | (.ok more, dev) => { s with dev := dev, phase := if more ∧ 0 < left then .rounds left else .idle }
  | (.error _, dev) => { s with dev := dev, phase := .ended }

/-- The reader takes only frames of 1 to 65536 bytes. --/
def step (s : NetPath) : Event → Option NetPath
  | .frame frame =>
    if s.queued = false ∧ 0 < frame.length ∧ frame.length ≤ maxSocketFrame then
      some { s with dev := s.dev.readFrame frame, queued := true }
    else none
  | .notifyHost => if s.queued then some { s with dev := s.dev.notifyHost, queued := false } else none
  | .guest bytes => some { s with dev := s.dev.setRam bytes, changed := true }
  | .write off len value => if s.phase = .idle then s.write off len value else none
  | .poll => if s.phase = .idle then some s.poll else none
  | .start => if s.phase = .entered then some s.start else none
  | .round =>
    match s.phase with
    | .rounds (left + 1) => some (s.round left)
    | _ => none

/-- The device after `start` with a socket: nothing is queued. --/
def started (mem : GuestMemory) (regs : Transport 2) : NetPath where
  dev := { mem := mem, regs := regs, link := some .socket, rxFrames := [], host := [], notifyPending := false, pipe := 0,
           sent := [] }
  phase := .idle
  queued := false
  changed := false

end NetPath
end NodeVmm.Hvf
