import NodeVmm.Lib.Feed
import NodeVmm.UartTx

/-! The UARTs with the host that feeds them. `Uart` of `native/kvm/backend.cc` as the steps between which another thread
    may take its lock, and all registers of `Pl011Uart` of `native/hvf/backend.cc`. -/

namespace NodeVmm

/-- What of the answer to a query fits in front of a receive queue. --/
def responseFitting (rx : List UInt8) : List UInt8 := response.drop (response.length - (rxLimit - rx.length))

/-! ### KVM -/

namespace Kvm

/-- Where the guest is in an access. A write of IER stores before it takes the lock, and a write of THR takes the lock
    twice. `ierBefore` is what IER was before the store. --/
inductive Access where
  | idle
  | ierStored (ierBefore : UInt8)
  | byteHandled
  deriving DecidableEq, Repr

/-- The UART, the access that the guest is in, and what went through the receive queue. --/
structure Com1 where
  uart : Uart := {}
  access : Access := .idle
  feed : Feed UInt8 := {}

/-- `device_mu` keeps accesses of the guest apart: one starts only when none is under way. `proceed` is the rest of it.
    The host's input takes only the UART's own lock. --/
inductive Com1.Event where
  | read (offset : Nat)
  | write (offset : Nat) (value : UInt8)
  | emitBytes (data : List UInt8)
  | proceed
  | enqueueRx (data : List UInt8)

namespace Uart

/-- What `handle_tx_byte` puts in front of the receive queue. --/
def answer (value : UInt8) (u : Uart) : List UInt8 :=
  if (u.terminalQuery ≠ [] ∨ value = 0x1B) ∧ u.terminalQuery ++ [value] = query then responseFitting u.rx else []

end Uart

namespace Com1

def read (offset : Nat) (s : Com1) : Com1 :=
  let (value, uart) := s.uart.read offset
  let taking := offset = 0 ∧ ¬s.uart.dlab ∧ s.uart.rx ≠ []
  { s with uart := uart, feed := if taking then s.feed.take value else s.feed }

/-- A write as far as the first block that takes the lock, or as far as the store to IER. --/
def write (offset : Nat) (value : UInt8) (s : Com1) : Com1 :=
  if offset = 0 ∧ ¬s.uart.dlab then
    let uart := s.uart.handleTxByte value
    { s with
      uart := uart
      access := if uart.ier &&& 0x02 ≠ 0 then .byteHandled else .idle
      feed := s.feed.front (s.uart.answer value) }
  else if offset = 1 ∧ ¬s.uart.dlab then
    { s with uart := { s.uart with ier := value }, access := .ierStored s.uart.ier }
  else { s with uart := s.uart.write offset value }

/-- The block that a write of IER or THR ends with. --/
def proceed (s : Com1) : Com1 := { s with uart := s.uart.updateInterrupt, access := .idle }

def enqueueRx (data : List UInt8) (s : Com1) : Com1 :=
  { s with uart := s.uart.enqueueRx data, feed := s.feed.back (data.take (rxLimit - s.uart.rx.length)) }

def step (s : Com1) : Event → Option Com1
  | .read offset => if s.access = .idle then some (s.read offset) else none
  | .write offset value => if s.access = .idle then some (s.write offset value) else none
  | .emitBytes data => if s.access = .idle then some { s with uart := s.uart.emitBytes data } else none
  | .proceed => if s.access = .idle then none else some s.proceed
  | .enqueueRx data => some (s.enqueueRx data)

end Com1
end Kvm

/-! ### HVF -/

namespace Hvf

/-- The UART with the registers that only hold what was written, and what went through the receive queue. --/
structure Pl011 where
  uart : Pl011Uart := {}
  cr : UInt32 := 0x301
  ibrd : UInt32 := 13
  fbrd : UInt32 := 1
  lcrH : UInt32 := 0x70
  ifls : UInt32 := 0x12
  dmacr : UInt32 := 0
  feed : Feed UInt8 := {}

inductive Pl011.Event where
  | readMmio (offset len : Nat)
  | writeMmio (offset len : Nat) (val : UInt32)
  | injectChar (c : UInt8)
  | injectBytes (data : List UInt8)
  | refreshIrq

namespace Pl011Uart

def injectChar (c : UInt8) (u : Pl011Uart) : Pl011Uart :=
  { u with
    rx := if u.rx.length < rxLimit then u.rx ++ [c] else u.rx
    ris := u.ris ||| kRxInterrupts }.updateIrq

def fr (u : Pl011Uart) : UInt32 :=
  let val : UInt32 := 0x90
  let val := if u.rx ≠ [] then val &&& ~~~0x10 else val
  val &&& ~~~0x20

/-- What `handle_tx_locked` puts in front of the receive queue. --/
def answer (c : UInt8) (u : Pl011Uart) : List UInt8 :=
  if u.echoStdout = false ∧ (u.terminalQuery ≠ [] ∨ c = 0x1B) ∧ u.terminalQuery ++ [c] = query then
    responseFitting u.rx
  else []

end Pl011Uart

namespace Pl011

/-- The registers of which a read changes nothing. --/
def readRegister (offset : Nat) (s : Pl011) : UInt32 :=
  match offset with
  | 0x018 => s.uart.fr
  | 0x024 => s.ibrd
  | 0x028 => s.fbrd
  | 0x02C => s.lcrH
  | 0x030 => s.cr
  | 0x034 => s.ifls
  | 0x038 => s.uart.imsc
  | 0x03C => s.uart.ris
  | 0x040 => s.uart.ris &&& s.uart.imsc
  | 0x048 => s.dmacr
  | 0xFE0 => 0x11
  | 0xFE4 => 0x10
  | 0xFE8 => 0x14
  | 0xFEC => 0x00
  | 0xFF0 => 0x0D
  | 0xFF4 => 0xF0
  | 0xFF8 => 0x05
  | 0xFFC => 0xB1
  | _ => 0

def readMmio (offset len : Nat) (s : Pl011) : UInt32 × Pl011 :=
  if len = 0 ∨ 4 < len then (0, s)
  else if offset = 0x000 then
    let (b, uart) := s.uart.readDr
    (b.toUInt32, { s with uart := uart, feed := if s.uart.rx ≠ [] then s.feed.take b else s.feed })
  else (s.readRegister offset, s)

/-- `val` is what the four bytes at `data` make, the first of them its lowest. --/
def writeMmio (offset len : Nat) (val : UInt32) (s : Pl011) : Pl011 :=
  if len = 0 ∨ 4 < len then s
  else
    match offset with
    | 0x000 => { s with uart := s.uart.transmit val.toUInt8, feed := s.feed.front (s.uart.answer val.toUInt8) }
    | 0x024 => { s with ibrd := val &&& 0xFFFF }
    | 0x028 => { s with fbrd := val &&& 0x3F }
    | 0x02C => { s with lcrH := val }
    | 0x030 => { s with cr := val }
    | 0x034 => { s with ifls := val &&& 0x3F, uart := s.uart.updateIrq }
    | 0x038 => { s with uart := { s.uart with imsc := val }.updateIrq }
    | 0x044 => { s with uart := { s.uart with ris := s.uart.ris &&& ~~~val }.updateIrq }
    | 0x048 => { s with dmacr := val }
    | _ => s

def injectChar (c : UInt8) (s : Pl011) : Pl011 :=
  { s with
    uart := s.uart.injectChar c
    feed := if s.uart.rx.length < rxLimit then s.feed.back [c] else s.feed }

def injectBytes (data : List UInt8) (s : Pl011) : Pl011 :=
  { s with uart := s.uart.injectBytes data, feed := s.feed.back (data.take (rxLimit - s.uart.rx.length)) }

def step (s : Pl011) : Event → Pl011
  | .readMmio offset len => (s.readMmio offset len).2
  | .writeMmio offset len val => s.writeMmio offset len val
  | .injectChar c => s.injectChar c
  | .injectBytes data => s.injectBytes data
  | .refreshIrq => { s with uart := s.uart.updateIrq }

end Pl011
end Hvf
end NodeVmm
