import NodeVmm.Virtqueue

/-! The virtio-net device of `native/kvm/backend.cc`, and the part of it that `native/hvf/backend.cc` has too: how a
    frame from the host is laid out in a chain of the RX queue. Reads of the tap and writes to it succeed. -/

namespace NodeVmm

abbrev Packet := List UInt8

/-- Guest RAM and one queue of a device. --/
structure Ring where
  mem : GuestMemory
  queue : Queue

namespace Ring

def setMem (m : GuestMemory) (s : Ring) : Ring := { s with mem := m }

def bumpLastAvail (s : Ring) : Ring := { s with queue := { s.queue with lastAvail := s.queue.lastAvail + 1 } }

def onMem {α : Type} (x : Exec GuestMemory α) : Exec Ring α := Exec.focus Ring.mem setMem x

/-- The KVM texts about descriptors name the device. --/
def netText (b : Backend) (text : String) : String :=
  if b = .kvm ∧ text.startsWith "virtio " then "virtio-net " ++ (text.drop 7).toString else text

def walkChain (b : Backend) (head : UInt16) : Exec Ring (List Desc) := do
  let s ← Exec.get
  Exec.lift ((s.mem.walkChain b s.queue head).mapError (netText b))

def pushUsed (b : Backend) (head : UInt16) (written : UInt32) : Exec Ring Unit := do
  let s ← Exec.get
  onMem (GuestMemory.pushUsed b s.queue head.toUInt32 written)

/-- The head at the next position of the avail ring, which is taken. --/
def takeHead (b : Backend) : Exec Ring UInt16 := do
  let s ← Exec.get
  let p ← Exec.lift (s.mem.ptr b (s.queue.availEntry s.queue.lastAvail) 2)
  Exec.modify bumpLastAvail
  pure (s.mem.ram.readU16 p)

/-- `has_rx_buffer`. --/
def hasRxBuffer (b : Backend) : Exec Ring Bool := do
  let s ← Exec.get
  if s.queue.ready then do
    let p ← Exec.lift (s.mem.ptr b s.queue.availIdxAddr 2)
    pure (s.queue.lastAvail != s.mem.ram.readU16 p)
  else pure false

/-! ### Frames to the guest -/

/-- The `virtio_net_hdr` that comes before a frame: zeros. --/
def netHeader : Packet := List.replicate 12 0

/-- The number of header bytes that the descriptor takes after `offset` bytes are stored. --/
def headerPart (d : Desc) (offset : Nat) : Nat :=
  if offset < 12 ∧ 0 < d.len.toNat then min d.len.toNat (12 - offset) else 0

/-- The number of frame bytes that it takes at its byte `descOff`. --/
def framePart (frame : Packet) (d : Desc) (descOff offset : Nat) : Nat :=
  if 12 ≤ offset ∧ descOff < d.len.toNat ∧ offset < 12 + frame.length then
    min (d.len.toNat - descOff) (frame.length - (offset - 12))
  else 0

/-- One round of the loop of `inject_rx_frame`, and the bytes stored after it. --/
def fillDesc (b : Backend) (frame : Packet) (d : Desc) (offset : Nat) : Exec GuestMemory Nat := do
  Exec.check d.writable
    (if b = .hvf then "virtio-net rx desc must be writable" else "virtio-net rx descriptor must be writable")
  let m ← Exec.get
  let dst ← Exec.lift (m.ptr b d.addr d.len.toNat)
  let n := headerPart d offset
  Exec.modify (GuestMemory.store dst ((netHeader.drop offset).take n))
  let k := framePart frame d n (offset + n)
  Exec.modify (GuestMemory.store (dst + n) ((frame.drop (offset + n - 12)).take k))
  pure (offset + n + k)

def fill (b : Backend) (frame : Packet) : List Desc → Nat → Exec GuestMemory Nat
  | [], offset => pure offset
  | d :: rest, offset => do
    let offset ← fillDesc b frame d offset
    if 12 + frame.length ≤ offset then pure offset else fill b frame rest offset

/-- `inject_rx_frame` after its check for a buffer, and whether it published one. --/
def injectFrame (b : Backend) (frame : Packet) : Exec Ring Bool := do
  let head ← takeHead b
  let chain ← walkChain b head
  let offset ← onMem (fill b frame chain 0)
  if offset < 12 + frame.length then pure false
  else do
    pushUsed b head (UInt32.ofNat (12 + frame.length))
    pure true

end Ring

/-! ### The KVM device -/

namespace Kvm

/-- The locals of `process_tx`. --/
structure Gather where
  skip : Nat
  /-- Base and length of each `iovec`. --/
  iov : List (Nat × Nat)
  packet : Packet

/-- `std::array<struct iovec, kMaxQueueSize>`. --/
def iovSize : Nat := Backend.maxQueueSize

/-- One round of the loop of `process_tx`. --/
def gatherDesc (slirp : Bool) (m : GuestMemory) (g : Gather) (d : Desc) : Except String Gather :=
  if d.writable then .error "virtio-net tx descriptor must be read-only"
  else if d.len.toNat ≤ g.skip then .ok { g with skip := g.skip - d.len.toNat }
  else if g.skip < d.len.toNat ∧ g.iov.length < iovSize then do
    let data ← m.ptr .kvm (d.addr + UInt64.ofNat g.skip) (d.len.toNat - g.skip)
    if slirp then pure { g with skip := 0, packet := g.packet ++ m.ram.read data (d.len.toNat - g.skip) }
    else pure { g with skip := 0, iov := g.iov ++ [(data, d.len.toNat - g.skip)] }
  else .ok { g with skip := 0 }

def gather (slirp : Bool) (m : GuestMemory) (chain : List Desc) : Except String Gather :=
  chain.foldlM (gatherDesc slirp m) ⟨12, [], []⟩

/-- What leaves the device: the buffers of a `writev`, or a packet for `slirp_input` with its length. --/
inductive Sent where
  | tap (buffers : List Packet)
  | slirp (packet : Packet) (len : Int32)
  deriving DecidableEq

structure VirtioNet where
  mem : GuestMemory
  rx : Queue
  tx : Queue
  /-- `slirp_enabled`; otherwise the device has a tap. --/
  slirp : Bool
  /-- The frames that the tap holds, or that libslirp sends when it is polled. --/
  host : List Packet
  /-- `slirp_rx_frames_`. --/
  slirpRxFrames : List Packet
  interruptStatus : UInt32
  /-- The level of the interrupt line. --/
  irq : Bool
  sent : List Sent

namespace VirtioNet

def rxRing (s : VirtioNet) : Ring := ⟨s.mem, s.rx⟩

def putRx (r : Ring) (s : VirtioNet) : VirtioNet := { s with mem := r.mem, rx := r.queue }

def txRing (s : VirtioNet) : Ring := ⟨s.mem, s.tx⟩

def putTx (r : Ring) (s : VirtioNet) : VirtioNet := { s with mem := r.mem, tx := r.queue }

def onRx {α : Type} (x : Exec Ring α) : Exec VirtioNet α := Exec.focus rxRing putRx x

def onTx {α : Type} (x : Exec Ring α) : Exec VirtioNet α := Exec.focus txRing putTx x

def signalQueue (s : VirtioNet) : VirtioNet := { s with interruptStatus := s.interruptStatus ||| 1, irq := true }

def injectRxFrame (frame : Packet) : Exec VirtioNet Bool := do
  let available ← onRx (Ring.hasRxBuffer .kvm)
  if available then do
    let published ← onRx (Ring.injectFrame .kvm frame)
    if published then do
      Exec.modify signalQueue
      pure true
    else pure false
  else pure false

/-- `enqueue_slirp_rx` for each of the frames that libslirp sends. --/
def pollSlirp (s : VirtioNet) : VirtioNet :=
  { s with slirpRxFrames := s.slirpRxFrames ++ s.host.filter (· ≠ []), host := [] }

def popFrame (s : VirtioNet) : VirtioNet := { s with slirpRxFrames := s.slirpRxFrames.tail }

/-- The loop of `flush_slirp_rx`, with the frames that are queued. --/
def flushFrames : List Packet → Exec VirtioNet Unit
  | [] => pure ()
  | frame :: rest => do
    let published ← injectRxFrame frame
    if published then do
      Exec.modify popFrame
      flushFrames rest
    else pure ()

def flushSlirpRx : Exec VirtioNet Unit := do
  let s ← Exec.get
  flushFrames s.slirpRxFrames

/-- `drain_tap`. --/
def drainTap (s : VirtioNet) : VirtioNet := { s with host := [] }

def popTap (s : VirtioNet) : VirtioNet := { s with host := s.host.tail }

/-- The size of the buffer that a frame is read into; a longer frame is cut. --/
def tapBuffer : Nat := 2048

/-- The rounds of the loop of `poll_rx`. --/
def pollTap : Nat → Exec VirtioNet Unit
  | 0 => pure ()
  | rounds + 1 => do
    let available ← onRx (Ring.hasRxBuffer .kvm)
    if available then do
      let s ← Exec.get
      match s.host with
      | [] => pure ()
      | frame :: _ => do
        Exec.modify popTap
        if frame = [] then pure ()
        else do
          let _ ← injectRxFrame (frame.take tapBuffer)
          pollTap rounds
    else pure ()

def pollRx : Exec VirtioNet Unit := do
  let s ← Exec.get
  if s.slirp then do
    Exec.modify pollSlirp
    flushSlirpRx
  else if s.rx.ready then pollTap 16
  else Exec.modify drainTap

/-! ### Packets from the guest -/

def send (x : Sent) (s : VirtioNet) : VirtioNet := { s with sent := s.sent ++ [x] }

/-- `input_slirp_packet`. --/
def inputSlirpPacket (packet : Packet) : Exec VirtioNet Unit :=
  if 0 < packet.length then Exec.modify (send (.slirp packet (Int32.ofNat packet.length))) else pure ()

def writeTap (m : GuestMemory) (iov : List (Nat × Nat)) : Exec VirtioNet Unit :=
  if 0 < iov.length then Exec.modify (send (.tap (iov.map fun v => m.ram.read v.1 v.2))) else pure ()

/-- What `process_tx` does with the chain before it gives it back. --/
def transmit (chain : List Desc) : Exec VirtioNet Unit := do
  let s ← Exec.get
  let g ← Exec.lift (gather s.slirp s.mem chain)
  if s.slirp then do
    inputSlirpPacket g.packet
    Exec.modify pollSlirp
    flushSlirpRx
  else writeTap s.mem g.iov

def processTx (head : UInt16) : Exec VirtioNet Unit := do
  let chain ← onTx (Ring.walkChain .kvm head)
  transmit chain
  onTx (Ring.pushUsed .kvm head 0)
  Exec.modify signalQueue

/-- The loop of `handle_tx_queue`; as in `Blk.serveUntil`, 2^16 rounds are enough to meet any index. --/
def serveTx (availIdx : UInt16) : Nat → Exec VirtioNet Unit
  | 0 => pure ()
  | fuel + 1 => do
    let s ← Exec.get
    if s.tx.lastAvail = availIdx then pure ()
    else do
      let head ← onTx (Ring.takeHead .kvm)
      processTx head
      serveTx availIdx fuel

def handleTxQueue : Exec VirtioNet Unit := do
  let s ← Exec.get
  let p ← Exec.lift (s.mem.ptr .kvm s.tx.availIdxAddr 2)
  serveTx (s.mem.ram.readU16 p) (2 ^ 16)
  pollRx

/-- The case of `write_reg` for the notify register. --/
def notify (value : UInt32) : Exec VirtioNet Unit := do
  let s ← Exec.get
  if value = 0 then pollRx
  else if value = 1 ∧ s.tx.ready then handleTxQueue
  else pure ()

end VirtioNet
end Kvm
end NodeVmm
