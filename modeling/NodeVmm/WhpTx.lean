import NodeVmm.WhpNetRegs

/-! The TX path of the virtio-net device of `native/whp/backend.cc`: `process_tx_queue`, for one notify that nothing
    else interferes with. --/

namespace NodeVmm.Whp

structure NetTx where
  mem : GuestMemory
  regs : NetRegs
  /-- The requests of its line at the I/O APIC. --/
  irqRequests : Nat
  /-- A backend is attached, `slirp_`. --/
  attached : Bool
  /-- The frames that `input_packet` was given. --/
  sent : List Packet

/-! ### Collecting a chain -/

structure Collected where
  packet : Packet
  /-- The walk ended early. `process_tx_queue` does not look at it. --/
  truncated : Bool
  deriving DecidableEq

/-- What one descriptor adds: writable ones, and those outside RAM, add nothing. --/
def segment (m : GuestMemory) (d : Desc) : Packet :=
  if d.writable then []
  else
    match ptrOrNull m d.addr d.len.toNat with
    | some p => m.ram.read p d.len.toNat
    | none => []

/-- The loop over a chain, with the rounds that `hops` leaves. --/
def collectFrom (m : GuestMemory) (queueNum : Nat) (descAddr : UInt64) : Nat → UInt16 → Collected
  | 0, _ => ⟨[], true⟩
  | hops + 1, current =>
    if queueNum ≤ current.toNat then ⟨[], true⟩
    else
      match ptrOrNull m (descAddr + current.toUInt64 * 16) 16 with
      | none => ⟨[], true⟩
      | some p =>
        if !(descAt m p).hasNext then ⟨segment m (descAt m p), false⟩
        else if queueNum ≤ (descAt m p).next.toNat then ⟨segment m (descAt m p), true⟩
        else
          let rest := collectFrom m queueNum descAddr hops (descAt m p).next
          ⟨segment m (descAt m p) ++ rest.packet, rest.truncated⟩

namespace NetTx

def tx (s : NetTx) : Queue := s.regs.queues 1

def setTx (q : Queue) (s : NetTx) : NetTx := { s with regs := { s.regs with queues := Function.update s.regs.queues 1 q } }

def availIdx (s : NetTx) : UInt16 := readU16 s.mem (s.tx.driverAddr + 2)

/-- The entry of the avail ring that is next. --/
def availHead (s : NetTx) : UInt16 :=
  readU16 s.mem (s.tx.driverAddr + 4 + UInt64.ofNat (s.tx.lastAvailIdx.toNat % s.tx.num) * 2)

def bumpLastAvail (s : NetTx) : NetTx := s.setTx { s.tx with lastAvailIdx := s.tx.lastAvailIdx + 1 }

def collect (head : UInt16) (s : NetTx) : Collected := collectFrom s.mem s.tx.num s.tx.descAddr s.tx.num head

/-- A packet that is longer than the header goes to the network without it. --/
def inputPacket (packet : Packet) (s : NetTx) : NetTx :=
  if s.regs.hdrLen < packet.length then { s with sent := s.sent ++ [packet.drop s.regs.hdrLen] } else s

/-- The last locked block, and whether it came to the used ring. --/
def publishUsed (head : UInt16) (s : NetTx) : Bool × NetTx :=
  if s.tx.publishable then
    let m := writeU32 s.tx.usedElem head.toUInt32 s.mem
    let m := writeU32 (s.tx.usedElem + 4) 0 m
    let m := writeU16 s.tx.usedIdx (s.tx.lastUsedIdx + 1) m
    (true, { s.setTx { s.tx with lastUsedIdx := s.tx.lastUsedIdx + 1 } with mem := m })
  else (false, s)

/-- `raise_used_buffer_irq(1)`. --/
def raiseUsedBufferIrq (s : NetTx) : NetTx :=
  if !s.tx.ready || s.tx.driverAddr == 0 then s
  else if readU16 s.mem s.tx.driverAddr &&& 1 != 0 then s
  else { s with regs := { s.regs with interruptStatus := s.regs.interruptStatus ||| 1 }, irqRequests := s.irqRequests + 1 }

/-- One pass of the loop with a head to take, and whether it published it. --/
def round (s : NetTx) : Bool × NetTx :=
  if s.availHead.toNat < s.tx.num then
    publishUsed s.availHead (inputPacket (s.collect s.availHead).packet s.bumpLastAvail)
  else (false, s.bumpLastAvail)

/-- The loop, with the flag `processed`; `none` when `fuel` passes were not enough. It reads the avail index in every
    pass. --/
def processFrom : Nat → Bool → NetTx → Option NetTx
  | 0, _, _ => none
  | fuel + 1, processed, s =>
    if !s.tx.usable then some s
    else if s.tx.lastAvailIdx = s.availIdx then some (if processed then s.raiseUsedBufferIrq else s)
    else processFrom fuel (processed || s.round.1) s.round.2

/-- `process_tx_queue`. --/
def processTxQueue (fuel : Nat) (s : NetTx) : Option NetTx := if s.attached then processFrom fuel false s else some s

end NetTx
end NodeVmm.Whp
