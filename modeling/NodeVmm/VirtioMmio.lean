import NodeVmm.VirtioBlk

/-! The virtio-mmio transport of `native/hvf/backend.cc`: the registers that the guest writes, the queues that
    they describe, and the block device behind them. The network device is in `HvfNet`. -/

namespace NodeVmm.Hvf

/-- `VirtQueue{}`. --/
def newQueue : Queue where
  size := Backend.maxQueueSize
  size_pos := by decide
  size_le := Nat.le_refl _
  ready := false
  lastAvail := 0
  descAddr := 0
  driverAddr := 0
  deviceAddr := 0

/-- `IsPowerOfTwo`. --/
def isPowerOfTwo (value : Nat) : Bool := value != 0 && value &&& (value - 1) == 0

/-- `contains_guest_range`. --/
def containsGuestRange (m : GuestMemory) (gpa : UInt64) (len : Nat) : Bool :=
  Backend.hvf.ramBase ≤ gpa.toNat && gpa.toNat - Backend.hvf.ramBase ≤ m.size &&
    len ≤ m.size - (gpa.toNat - Backend.hvf.ramBase)

/-- `ValidVirtQueue`. --/
def validVirtQueue (m : GuestMemory) (q : Queue) : Bool :=
  (isPowerOfTwo q.size && q.size ≤ Backend.maxQueueSize) &&
  (q.descAddr % 16 == 0 && q.driverAddr % 2 == 0 && q.deviceAddr % 4 == 0) &&
  containsGuestRange m q.descAddr (q.size * 16) && containsGuestRange m q.driverAddr (6 + q.size * 2) &&
  containsGuestRange m q.deviceAddr (6 + q.size * 8)

/-- The registers that `write_reg` knows. --/
inductive Reg where
  | devFeaturesSel
  | drvFeatures
  | drvFeaturesSel
  | queueSel
  | queueNum
  | queueReady
  | queueNotify
  | interruptAck
  | status
  | descLow
  | descHigh
  | driverLow
  | driverHigh
  | deviceLow
  | deviceHigh
  deriving DecidableEq, Repr

def Reg.ofOffset : Nat → Option Reg
  | 0x014 => some .devFeaturesSel
  | 0x020 => some .drvFeatures
  | 0x024 => some .drvFeaturesSel
  | 0x030 => some .queueSel
  | 0x038 => some .queueNum
  | 0x044 => some .queueReady
  | 0x050 => some .queueNotify
  | 0x064 => some .interruptAck
  | 0x070 => some .status
  | 0x080 => some .descLow
  | 0x084 => some .descHigh
  | 0x090 => some .driverLow
  | 0x094 => some .driverHigh
  | 0x0A0 => some .deviceLow
  | 0x0A4 => some .deviceHigh
  | _ => none

/-- The registers of a device with `n` queues. `write_reg` selects only queues that the device has. --/
structure Transport (n : Nat) where
  status : UInt32
  drvFeatures : UInt64
  devFeaturesSel : UInt32
  drvFeaturesSel : UInt32
  queueSel : Fin n
  interruptStatus : UInt32
  queues : Fin n → Queue
  /-- The level that `gic_inject_` was last called with. --/
  irq : Bool

/-- `kVirtioStatusDeviceNeedsReset`. --/
def deviceNeedsReset : UInt32 := 0x40

def setLow (word : UInt64) (value : UInt32) : UInt64 := (word &&& (0xFFFFFFFF00000000 : UInt64)) ||| value.toUInt64

def setHigh (word : UInt64) (value : UInt32) : UInt64 := (word &&& (0xFFFFFFFF : UInt64)) ||| (value.toUInt64 <<< 32)

/-- What a write to a size or address register makes of the selected queue. --/
def writeQueue (reg : Reg) (value : UInt32) (q : Queue) : Queue :=
  match reg with
  | .queueNum =>
    if h : 0 < value.toNat ∧ value.toNat ≤ Backend.maxQueueSize then
      { q with size := value.toNat, size_pos := h.1, size_le := h.2 }
    else q
  | .descLow => { q with descAddr := setLow q.descAddr value }
  | .descHigh => { q with descAddr := setHigh q.descAddr value }
  | .driverLow => { q with driverAddr := setLow q.driverAddr value }
  | .driverHigh => { q with driverAddr := setHigh q.driverAddr value }
  | .deviceLow => { q with deviceAddr := setLow q.deviceAddr value }
  | .deviceHigh => { q with deviceAddr := setHigh q.deviceAddr value }
  | _ => q

namespace Transport
variable {n : Nat}

/-- The queue that the size, address and ready registers are about. --/
def selected (t : Transport n) : Queue := t.queues t.queueSel

def setSelected (q : Queue) (t : Transport n) : Transport n :=
  { t with queues := Function.update t.queues t.queueSel q }

/-- The interrupt after work on a queue: `interrupt_status_ |= 1` and `gic_inject_(intid_, true)`. --/
def raise (t : Transport n) : Transport n := { t with interruptStatus := t.interruptStatus ||| 1, irq := true }

/-- `reset` of the block device and `reset_dev` of the network device. --/
def reset (t : Transport n) : Transport n :=
  { t with status := 0, drvFeatures := 0, devFeaturesSel := 0, drvFeaturesSel := 0,
           queueSel := ⟨0, Nat.zero_lt_of_lt t.queueSel.isLt⟩, interruptStatus := 0, queues := fun _ => newQueue, irq := false }

/-- The case of 0x044. --/
def writeReady (m : GuestMemory) (value : UInt32) (t : Transport n) : Transport n :=
  if value = 0 then t.setSelected { t.selected with ready := false }
  else if validVirtQueue m t.selected then t.setSelected { t.selected with ready := true }
  else { t.setSelected { t.selected with ready := false } with status := t.status ||| deviceNeedsReset }

/-- The cases of `write_reg`, apart from the notify, which each device handles itself. --/
def write (m : GuestMemory) (reg : Reg) (value : UInt32) (t : Transport n) : Transport n :=
  match reg with
  | .devFeaturesSel => { t with devFeaturesSel := value }
  | .drvFeaturesSel => { t with drvFeaturesSel := value }
  | .drvFeatures =>
    { t with drvFeatures := if t.drvFeaturesSel = 0 then setLow t.drvFeatures value else setHigh t.drvFeatures value }
  | .queueSel => if h : value.toNat < n then { t with queueSel := ⟨value.toNat, h⟩ } else t
  | .queueReady => t.writeReady m value
  | .queueNotify => t
  | .interruptAck =>
    { t with interruptStatus := t.interruptStatus &&& ~~~value, irq := t.irq && t.interruptStatus &&& ~~~value != 0 }
  | .status => if value = 0 then t.reset else { t with status := value }
  | reg => t.setSelected (writeQueue reg value t.selected)

end Transport

/-- `VirtioBlk`: its registers, and what its requests work on. --/
structure BlkDevice where
  mem : GuestMemory
  disk : Disk
  regs : Transport 8

namespace BlkDevice

def onRegs (f : Transport 8 → Transport 8) (s : BlkDevice) : BlkDevice := { s with regs := f s.regs }

def queueView (i : Fin 8) (s : BlkDevice) : Blk := ⟨s.mem, s.regs.queues i, s.disk, 0⟩

def putQueue (i : Fin 8) (t : Blk) (s : BlkDevice) : BlkDevice :=
  { s with mem := t.mem, disk := t.disk, regs := { s.regs with queues := Function.update s.regs.queues i t.queue } }

def handleQueue (i : Fin 8) : Exec BlkDevice Unit := Exec.focus (queueView i) (putQueue i) (Blk.handleQueue .hvf)

/-- The case of 0x050. --/
def notify (value : UInt32) : Exec BlkDevice Unit := do
  let s ← Exec.get
  if h : value.toNat < 8 then
    if (s.regs.queues ⟨value.toNat, h⟩).ready then do
      handleQueue ⟨value.toNat, h⟩
      Exec.modify (onRegs Transport.raise)
    else pure ()
  else pure ()

def writeReg (reg : Reg) (value : UInt32) : Exec BlkDevice Unit := do
  let s ← Exec.get
  if reg = .queueNotify then notify value
  else Exec.modify (onRegs (Transport.write s.mem reg value))

/-- `write_mmio` of `len` bytes at the offset `off` of the device; `value` is the word that the first four hold. --/
def writeMmio (off len : Nat) (value : UInt32) : Exec BlkDevice Unit :=
  if 0x100 ≤ off ∨ len ≠ 4 then pure ()
  else
    match Reg.ofOffset off with
    | some reg => writeReg reg value
    | none => pure ()

end BlkDevice
end NodeVmm.Hvf
