import Mathlib.Logic.Function.Basic

/-! The I/O APIC of `native/whp/backend.cc`. Each function runs under its mutex. WHP takes a queued interrupt or refuses it;
    how many of the queued ones it takes in one go is a parameter of the functions that drain the queue. -/

namespace NodeVmm.Whp

/-- `kMaxIoApicPins`. --/
def ioApicPins : Nat := 24

abbrev Pin := Fin ioApicPins

/-- `WHV_INTERRUPT_CONTROL`, with the pin that it is for. --/
structure Control where
  pin : Pin
  logical : Bool
  level : Bool
  destination : UInt32
  vector : UInt32

structure IoApic where
  selected : UInt32
  redir : Pin → UInt64
  lineLevel : Pin → Bool
  pending : List Control
  /-- The interrupts that WHP took, and that no EOI for their vector has acknowledged. --/
  inService : List Control

namespace IoApic

def rteVectorMask : UInt64 := 0xFF

def rteDestinationMode : UInt64 := 0x800

def rteRemoteIrr : UInt64 := 0x4000

def rteTriggerMode : UInt64 := 0x8000

def rteMask : UInt64 := 0x10000

/-- A new I/O APIC: every pin is masked. --/
def reset : IoApic where
  selected := 0
  redir _ := rteMask
  lineLevel _ := false
  pending := []
  inService := []

def setEntry (i : Pin) (entry : UInt64) (s : IoApic) : IoApic := { s with redir := Function.update s.redir i entry }

def masked (s : IoApic) (i : Pin) : Bool := s.redir i &&& rteMask != 0

def levelTriggered (s : IoApic) (i : Pin) : Bool := s.redir i &&& rteTriggerMode != 0

def remoteIrr (s : IoApic) (i : Pin) : Bool := s.redir i &&& rteRemoteIrr != 0

/-- `vector_for_irq_locked`. --/
def vectorForIrq (s : IoApic) (i : Pin) : UInt32 :=
  if (s.redir i &&& rteVectorMask).toUInt32 = 0 then 0x20 + UInt32.ofNat i.val else (s.redir i &&& rteVectorMask).toUInt32

def controlFor (s : IoApic) (i : Pin) : Control where
  pin := i
  logical := s.redir i &&& rteDestinationMode != 0
  level := s.levelTriggered i
  destination := (s.redir i >>> 56 &&& (0xFF : UInt64)).toUInt32
  vector := s.vectorForIrq i

/-- `drain_pending_locked` when WHP takes `accept` interrupts before it refuses one. --/
def drainPending (accept : Nat) (s : IoApic) : IoApic :=
  { s with pending := s.pending.drop accept, inService := s.inService ++ s.pending.take accept }

/-- The end of `request_irq_locked`, after its checks. --/
def enqueue (i : Pin) (s : IoApic) : IoApic :=
  { s with redir := if s.levelTriggered i then Function.update s.redir i (s.redir i ||| rteRemoteIrr) else s.redir,
           pending := s.pending ++ [s.controlFor i] }

def requestIrqLocked (i : Pin) (accept : Nat) (s : IoApic) : IoApic :=
  if s.masked i then s
  else if s.levelTriggered i && s.remoteIrr i then s
  else if 64 < s.pending.length then s
  else drainPending accept (enqueue i s)

/-- The pin of a number, if there is one. --/
def pin? (irq : UInt32) : Option Pin := if h : irq.toNat < ioApicPins then some ⟨irq.toNat, h⟩ else none

def requestIrq (irq : UInt32) (accept : Nat) (s : IoApic) : IoApic :=
  match pin? irq with
  | some i => requestIrqLocked i accept s
  | none => s

/-- `irq_unmasked`. --/
def irqUnmasked (s : IoApic) (irq : UInt32) : Bool :=
  match pin? irq with
  | some i => !s.masked i
  | none => false

def setLine (i : Pin) (level : Bool) (s : IoApic) : IoApic := { s with lineLevel := Function.update s.lineLevel i level }

def setIrq (irq : UInt32) (level : Bool) (accept : Nat) (s : IoApic) : IoApic :=
  match pin? irq with
  | some i => if level then requestIrqLocked i accept (setLine i level s) else setLine i level s
  | none => s

/-! ### EOI -/

def clearRemoteIrr (i : Pin) (s : IoApic) : IoApic := s.setEntry i (s.redir i &&& ~~~rteRemoteIrr)

/-- The EOI for the vector is about the pin. --/
def acknowledges (vector : UInt32) (s : IoApic) (i : Pin) : Bool :=
  s.levelTriggered i && s.remoteIrr i && s.vectorForIrq i == vector &&& 0xFF

/-- One round of the loop of `eoi`. --/
def eoiPin (vector : UInt32) (accept : Nat) (i : Pin) (s : IoApic) : IoApic :=
  if s.acknowledges vector i then
    if s.lineLevel i && !s.masked i then requestIrqLocked i accept (clearRemoteIrr i s) else clearRemoteIrr i s
  else s

def eoiPins (vector : UInt32) (accept : Pin → Nat) : List Pin → IoApic → IoApic
  | [], s => s
  | i :: rest, s => eoiPins vector accept rest (eoiPin vector (accept i) i s)

def eoi (vector : UInt32) (accept : Pin → Nat) (last : Nat) (s : IoApic) : IoApic :=
  drainPending last (eoiPins vector accept (List.finRange ioApicPins) s)

/-- The local APIC ends what is in service under the vector, and tells the I/O APIC. --/
def acknowledge (vector : UInt32) (s : IoApic) : IoApic :=
  { s with inService := s.inService.filter fun c => c.vector ≠ vector &&& 0xFF }

/-! ### Registers -/

/-- The low half of an entry after a write. Remote IRR is not the guest's to write. --/
def writeEntry (old : UInt64) (value : UInt32) : UInt64 :=
  let entry := (old &&& (0xFFFFFFFF00000000 : UInt64)) ||| value.toUInt64
  let entry := (entry &&& ~~~rteRemoteIrr) ||| (old &&& rteRemoteIrr)
  if entry &&& rteTriggerMode = 0 then entry &&& ~~~rteRemoteIrr else entry

def writeLow (i : Pin) (value : UInt32) (accept : Nat) (s : IoApic) : IoApic :=
  let t := s.setEntry i (writeEntry (s.redir i) value)
  if s.masked i && !t.masked i && s.lineLevel i then requestIrqLocked i accept t else t

def writeHigh (i : Pin) (value : UInt32) (s : IoApic) : IoApic :=
  s.setEntry i ((s.redir i &&& (0xFFFFFFFF : UInt64)) ||| (value.toUInt64 <<< 32))

/-- The pin whose entry a register is a half of. --/
def entryOf (reg : UInt32) : Option Pin := if 0x10 ≤ reg then pin? ((reg - 0x10) / 2) else none

def writeReg (reg value : UInt32) (accept : Nat) (s : IoApic) : IoApic :=
  match entryOf reg with
  | some i => if (reg - 0x10) &&& 1 != 0 then writeHigh i value s else writeLow i value accept s
  | none => s

def writeMmio (off len : Nat) (value : UInt32) (accept : Nat) (s : IoApic) : IoApic :=
  if len ≠ 4 then s
  else if off = 0x00 then { s with selected := value &&& 0xFF }
  else if off = 0x10 then writeReg s.selected value accept s
  else s

/-! ### Events -/

inductive Event where
  | setIrq (irq : UInt32) (level : Bool) (accept : Nat)
  | requestIrq (irq : UInt32) (accept : Nat)
  | writeMmio (off len : Nat) (value : UInt32) (accept : Nat)
  | eoi (vector : UInt32) (accept : Pin → Nat) (last : Nat)
  | drainPending (accept : Nat)

def step (s : IoApic) : Event → Option IoApic
  | .setIrq irq level accept => some (s.setIrq irq level accept)
  | .requestIrq irq accept => some (s.requestIrq irq accept)
  | .writeMmio off len value accept => some (s.writeMmio off len value accept)
  | .eoi vector accept last => some ((s.acknowledge vector).eoi vector accept last)
  | .drainPending accept => some (s.drainPending accept)

end IoApic
end NodeVmm.Whp
