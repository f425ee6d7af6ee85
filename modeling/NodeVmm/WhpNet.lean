import NodeVmm.VirtioNet

/-! The RX path of the virtio-net device of `native/whp/backend.cc`: how `deliver_rx_packet_now` brings one frame into
    a chain of the RX queue. Its blocks are separate functions, since it drops the lock between them. -/

namespace NodeVmm.Whp

/-- `VirtioNet::kQueueSize`. --/
def queueSize : Nat := 256

/-- `VirtioNet::Queue`. `write_reg` cuts a number above `kQueueSize`. --/
structure Queue where
  ready : Bool
  num : Nat
  num_le : num ≤ queueSize
  descAddr : UInt64
  driverAddr : UInt64
  deviceAddr : UInt64
  lastAvailIdx : UInt16
  lastUsedIdx : UInt16

namespace Queue

def usable (q : Queue) : Bool :=
  q.ready && q.num != 0 && q.driverAddr != 0 && q.descAddr != 0 && q.deviceAddr != 0

/-- What is left of `usable` when the lock is taken again. --/
def publishable (q : Queue) : Bool := q.ready && q.num != 0 && q.deviceAddr != 0

/-- The element of the used ring that is next. --/
def usedElem (q : Queue) : UInt64 := q.deviceAddr + 4 + UInt64.ofNat (q.lastUsedIdx.toNat % q.num) * 8

def usedIdx (q : Queue) : UInt64 := q.deviceAddr + 2

end Queue

structure VirtioNet where
  mem : GuestMemory
  rx : Queue
  driverFeatures : UInt64
  interruptStatus : UInt32
  /-- The requests of its line at the I/O APIC. --/
  irqRequests : Nat
  rxFlushActive : Bool
  rxBacklog : List Packet
  /-- Head and length of the elements that the RX used ring was given. --/
  usedLog : List (UInt16 × UInt32)

/-! ### Guest memory -/

def ptrOrNull (m : GuestMemory) (gpa : UInt64) (len : Nat) : Option Nat :=
  if m.size < gpa.toNat ∨ m.size - gpa.toNat < len then none else some gpa.toNat

def readU16 (m : GuestMemory) (gpa : UInt64) : UInt16 :=
  match ptrOrNull m gpa 2 with
  | some p => m.ram.readU16 p
  | none => 0

def writeU16 (gpa : UInt64) (v : UInt16) (m : GuestMemory) : GuestMemory :=
  match ptrOrNull m gpa 2 with
  | some p => m.storeU16 p v
  | none => m

def writeU32 (gpa : UInt64) (v : UInt32) (m : GuestMemory) : GuestMemory :=
  match ptrOrNull m gpa 4 with
  | some p => m.storeU32 p v
  | none => m

def descAt (m : GuestMemory) (p : Nat) : Desc :=
  ⟨m.ram.readU64 p, m.ram.readU32 (p + 8), m.ram.readU16 (p + 12), m.ram.readU16 (p + 14)⟩

namespace VirtioNet

/-! ### Taking a head -/

def availIdx (s : VirtioNet) : UInt16 := readU16 s.mem (s.rx.driverAddr + 2)

/-- The entry of the avail ring that is next. --/
def availHead (s : VirtioNet) : UInt16 :=
  readU16 s.mem (s.rx.driverAddr + 4 + UInt64.ofNat (s.rx.lastAvailIdx.toNat % s.rx.num) * 2)

def bumpLastAvail (s : VirtioNet) : VirtioNet := { s with rx := { s.rx with lastAvailIdx := s.rx.lastAvailIdx + 1 } }

/-- There is a head to take. --/
def rxAvailable (s : VirtioNet) : Bool := s.rx.usable && s.rx.lastAvailIdx != s.availIdx

inductive Taken where
  | unavailable
  /-- The head is no descriptor. --/
  | skipped
  | head (descIdx : UInt16) (queueNum : Nat) (descAddr : UInt64)
  deriving DecidableEq, Repr

/-- The first locked block. --/
def takeHead (s : VirtioNet) : Taken × VirtioNet :=
  if !s.rxAvailable then (.unavailable, s)
  else if s.availHead.toNat < s.rx.num then (.head s.availHead s.rx.num s.rx.descAddr, s.bumpLastAvail)
  else (.skipped, s.bumpLastAvail)

/-! ### Filling the chain -/

/-- `kVirtioNetFMrgRxbuf`, bit 15. --/
def featureMrgRxbuf : UInt64 := 0x8000

def netHdrLen (driverFeatures : UInt64) : Nat := if driverFeatures &&& featureMrgRxbuf != 0 then 14 else 12

/-- The frame behind its header; with 14 bytes the header ends in `num_buffers`. --/
def framed (driverFeatures : UInt64) (frame : Packet) : Packet :=
  let header : Packet := List.replicate (netHdrLen driverFeatures) 0
  (if 14 ≤ netHdrLen driverFeatures then header.set 12 1 else header) ++ frame

structure Copied where
  /-- The local `ok`. --/
  ok : Bool
  /-- `framed.size() - copied`. --/
  left : Nat
  mem : GuestMemory

/-- The loop over the chain, with the rounds that `hops` leaves and the bytes that are still to copy. --/
def copyFrom (queueNum : Nat) (descAddr : UInt64) : Nat → UInt16 → Packet → GuestMemory → Copied
  | 0, _, bytes, m => ⟨bytes.isEmpty, bytes.length, m⟩
  | hops + 1, current, bytes, m =>
    if bytes = [] then ⟨true, 0, m⟩
    else if queueNum ≤ current.toNat then ⟨false, bytes.length, m⟩
    else match ptrOrNull m (descAddr + current.toUInt64 * 16) 16 with
      | none => ⟨false, bytes.length, m⟩
      | some desc =>
        let d := descAt m desc
        if !d.writable then ⟨false, bytes.length, m⟩
        else match ptrOrNull m d.addr (min d.len.toNat bytes.length) with
          | none => ⟨false, bytes.length, m⟩
          | some segment =>
            let m := m.store segment (bytes.take d.len.toNat)
            let bytes := bytes.drop d.len.toNat
            if !d.hasNext then ⟨true, bytes.length, m⟩
            else if queueNum ≤ d.next.toNat then ⟨false, bytes.length, m⟩
            else copyFrom queueNum descAddr hops d.next bytes m

/-! ### Publishing -/

/-- The last locked block, and whether it came to the used ring. --/
def publishUsed (descIdx : UInt16) (size : Nat) (s : VirtioNet) : Bool × VirtioNet :=
  if s.rx.publishable then
    let m := writeU32 s.rx.usedElem descIdx.toUInt32 s.mem
    let m := writeU32 (s.rx.usedElem + 4) (UInt32.ofNat size) m
    let m := writeU16 s.rx.usedIdx (s.rx.lastUsedIdx + 1) m
    (true, { s with
      mem := m
      rx := { s.rx with lastUsedIdx := s.rx.lastUsedIdx + 1 }
      usedLog := s.usedLog ++ [(descIdx, UInt32.ofNat size)] })
  else (false, s)

/-- `raise_used_buffer_irq(0)`. --/
def raiseUsedBufferIrq (s : VirtioNet) : VirtioNet :=
  if !s.rx.ready || s.rx.driverAddr == 0 then s
  else if readU16 s.mem s.rx.driverAddr &&& 1 != 0 then s
  else { s with interruptStatus := s.interruptStatus ||| 1, irqRequests := s.irqRequests + 1 }

/-! ### One frame -/

/-- Where a call of `deliver_rx_packet_now` is. --/
inductive DeliverLoc where
  | take
  | fill (descIdx : UInt16) (queueNum : Nat) (descAddr : UInt64)
  | publish (descIdx : UInt16) (size : Nat)
  | irq
  deriving DecidableEq, Repr

inductive Progress where
  | goto (loc : DeliverLoc)
  | done (result : Bool)
  deriving DecidableEq, Repr

/-- Longer frames are dropped. --/
def maxFrame : Nat := 1500 + 14 + 4

def deliverStep (frame : Packet) : DeliverLoc → VirtioNet → Progress × VirtioNet
  | .take, s =>
    if maxFrame < frame.length then (.done true, s)
    else match s.takeHead with
      | (.unavailable, t) => (.done false, t)
      | (.skipped, t) => (.done true, t)
      | (.head descIdx queueNum descAddr, t) => (.goto (.fill descIdx queueNum descAddr), t)
  | .fill descIdx queueNum descAddr, s =>
    let packet := framed s.driverFeatures frame
    let c := copyFrom queueNum descAddr queueNum descIdx packet s.mem
    (if c.ok then .goto (.publish descIdx packet.length) else .done true, { s with mem := c.mem })
  | .publish descIdx size, s =>
    match publishUsed descIdx size s with
    | (true, t) => (.goto .irq, t)
    | (false, t) => (.done true, t)
  | .irq, s => (.done true, s.raiseUsedBufferIrq)

/-- What the guest and the other threads do while a call has dropped the lock. --/
structure Meanwhile where
  afterTake : VirtioNet → VirtioNet
  log_afterTake (s : VirtioNet) : s.usedLog <+: (afterTake s).usedLog
  /-- The registers of the queue, as the lock is taken for the used ring. --/
  registers : Queue → Queue
  guest : GuestMemory → GuestMemory
  size_guest (m : GuestMemory) : (guest m).size = m.size

def Meanwhile.afterFill (w : Meanwhile) (s : VirtioNet) : VirtioNet := { s with mem := w.guest s.mem, rx := w.registers s.rx }

def deliverRxPacketNow (w : Meanwhile) (frame : Packet) (s : VirtioNet) : Bool × VirtioNet :=
  match deliverStep frame .take s with
  | (.done result, t) => (result, t)
  | (.goto loc, t) =>
    match deliverStep frame loc (w.afterTake t) with
    | (.done result, u) => (result, u)
    | (.goto loc, u) =>
      match deliverStep frame loc (w.afterFill u) with
      | (.done result, v) => (result, v)
      | (.goto _, v) => (true, v.raiseUsedBufferIrq)

end VirtioNet
end NodeVmm.Whp
