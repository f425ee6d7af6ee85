import NodeVmm.VirtioMmio
import NodeVmm.VirtioNet

/-! The virtio-net device of `native/hvf/backend.cc`. Frames reach it from a socket, from libslirp or from vmnet; a
    notification pipe tells the vCPU loop to poll. `device_mu` is held by every function below except the two
    of the reader thread. -/

namespace NodeVmm.Hvf

/-- `kMaxFrameSize`. --/
def maxFrameSize : Nat := 1518

/-- The largest frame that the socket reader accepts. --/
def maxSocketFrame : Nat := 65536

/-- Where the frames come from. --/
inductive Link where
  | socket
  | slirp
  | vmnet
  deriving DecidableEq, Repr

structure NetDevice where
  mem : GuestMemory
  regs : Transport 2
  /-- What `start` has connected the device to, if anything. --/
  link : Option Link
  /-- `rx_frames_`, or the packets that vmnet holds. --/
  rxFrames : List Packet
  /-- The packets that libslirp sends when it is polled. --/
  host : List Packet
  notifyPending : Bool
  /-- The bytes in the notification pipe. --/
  pipe : Nat
  sent : List Packet

namespace NetDevice

def onRegs (f : Transport 2 → Transport 2) (s : NetDevice) : NetDevice := { s with regs := f s.regs }

def ring (i : Fin 2) (s : NetDevice) : Ring := ⟨s.mem, s.regs.queues i⟩

def putRing (i : Fin 2) (r : Ring) (s : NetDevice) : NetDevice :=
  { s with mem := r.mem, regs := { s.regs with queues := Function.update s.regs.queues i r.queue } }

def onRing {α : Type} (i : Fin 2) (x : Exec Ring α) : Exec NetDevice α := Exec.focus (ring i) (putRing i) x

/-- `queues_[0]` and `queues_[1]`. --/
def rxq : Fin 2 := ⟨0, Nat.zero_lt_succ 1⟩

def txq : Fin 2 := ⟨1, Nat.one_lt_succ_succ 0⟩

/-! ### Notifications -/

/-- The pipe of `notify_host`: a byte is written when none is pending. --/
def notifyHost (s : NetDevice) : NetDevice :=
  if s.notifyPending then s else { s with notifyPending := true, pipe := s.pipe + 1 }

def notifyReadable (s : NetDevice) : Bool := 0 < s.pipe

def drainNotify (s : NetDevice) : NetDevice := { s with notifyPending := false, pipe := 0 }

def enabled (s : NetDevice) : Bool := s.link.isSome

def needsPoll (s : NetDevice) : Bool := s.link = some .slirp

/-- One frame of the socket reader, up to its call of `notify_host`. --/
def readFrame (frame : Packet) (s : NetDevice) : NetDevice := { s with rxFrames := s.rxFrames ++ [frame] }

/-- `slirp_send_packet` for each of the packets that libslirp sends. --/
def pollSlirp (s : NetDevice) : NetDevice :=
  if s.link = some .slirp then
    (s.host.filter (· ≠ [])).foldl (fun s frame => notifyHost (readFrame frame s)) { s with host := [] }
  else s

/-! ### Frames to the guest -/

def signalNet (s : NetDevice) : NetDevice := onRegs Transport.raise s

def injectRxFrame (frame : Packet) : Exec NetDevice Unit := do
  Exec.check (frame.length ≤ maxFrameSize) "virtio-net rx frame too large"
  let published ← onRing rxq (Ring.injectFrame .hvf frame)
  if published then Exec.modify signalNet else pure ()

def popFrame (s : NetDevice) : NetDevice := { s with rxFrames := s.rxFrames.tail }

/-- The rounds of either loop of `poll_rx`. --/
def pollRounds : Nat → Exec NetDevice Unit
  | 0 => pure ()
  | rounds + 1 => do
    let available ← onRing rxq (Ring.hasRxBuffer .hvf)
    if available then do
      let s ← Exec.get
      match s.rxFrames with
      | [] => pure ()
      | frame :: _ => do
        Exec.modify popFrame
        if frame = [] ∧ s.link ≠ some .vmnet then pollRounds rounds
        else do
          injectRxFrame frame
          pollRounds rounds
    else pure ()

/-- The number of frames that one call of `poll_rx` gives to the guest. --/
def pollBatch : Nat := 32

def pollRx : Exec NetDevice Unit := do
  let s ← Exec.get
  if s.enabled && (s.regs.queues rxq).ready then do
    Exec.modify drainNotify
    Exec.modify pollSlirp
    pollRounds pollBatch
  else pure ()

/-- The network part of `poll_devices`. --/
def pollDevices : Exec NetDevice Unit := do
  let s ← Exec.get
  if s.enabled && (s.needsPoll || s.notifyReadable) then pollRx else pure ()

/-! ### Packets from the guest -/

/-- The loop of `process_tx` with its `skip` and `frame`. --/
def gather (m : GuestMemory) : Nat → Packet → List Desc → Except String Packet
  | _, frame, [] => .ok frame
  | skip, frame, d :: rest =>
    if d.writable then .error "virtio-net tx desc must be read-only"
    else do
      let src ← m.ptr .hvf d.addr d.len.toNat
      if d.len.toNat ≤ skip then gather m (skip - d.len.toNat) frame rest
      else if frame.length ≤ maxFrameSize ∧ d.len.toNat - skip ≤ maxFrameSize - frame.length then
        gather m 0 (frame ++ m.ram.read (src + skip) (d.len.toNat - skip)) rest
      else .error "virtio-net tx frame too large"

def send (frame : Packet) (s : NetDevice) : NetDevice :=
  if s.link.isSome ∧ frame ≠ [] then { s with sent := s.sent ++ [frame] } else s

def processTx (head : UInt16) : Exec NetDevice Unit := do
  let chain ← onRing txq (Ring.walkChain .hvf head)
  let s ← Exec.get
  let frame ← Exec.lift (gather s.mem 12 [] chain)
  Exec.modify (send frame)
  onRing txq (Ring.pushUsed .hvf head 0)
  Exec.modify signalNet

/-- The loop of `handle_tx_queue`, as in `Blk.serveUntil`. --/
def serveTx (availIdx : UInt16) : Nat → Exec NetDevice Unit
  | 0 => pure ()
  | fuel + 1 => do
    let s ← Exec.get
    if (s.regs.queues txq).lastAvail = availIdx then pure ()
    else do
      let head ← onRing txq (Ring.takeHead .hvf)
      processTx head
      serveTx availIdx fuel

def handleTxQueue : Exec NetDevice Unit := do
  let s ← Exec.get
  let p ← Exec.lift (s.mem.ptr .hvf (s.regs.queues txq).availIdxAddr 2)
  serveTx (s.mem.ram.readU16 p) (2 ^ 16)
  pollRx

/-! ### Registers -/

/-- The case of 0x050. --/
def notify (value : UInt32) : Exec NetDevice Unit := do
  let s ← Exec.get
  if value = 0 then pollRx
  else if value = 1 ∧ (s.regs.queues txq).ready then handleTxQueue
  else pure ()

def writeReg (reg : Reg) (value : UInt32) : Exec NetDevice Unit := do
  let s ← Exec.get
  if reg = .queueNotify then notify value
  else Exec.modify (onRegs (Transport.write s.mem reg value))

/-- `write_mmio` of `len` bytes at the offset `off` of the device; `value` is the word that the first four hold. --/
def writeMmio (off len : Nat) (value : UInt32) : Exec NetDevice Unit :=
  if 0x100 ≤ off ∨ len ≠ 4 then pure ()
  else
    match Reg.ofOffset off with
    | some reg => writeReg reg value
    | none => pure ()

end NetDevice
end NodeVmm.Hvf
