import NodeVmm.Uart
import NodeVmm.Lib.OnlineMatch

/-! What a guest transmits over its UART: the console with the markers that are looked for in it, and the filter for
    terminal queries. `Uart` of `native/kvm/backend.cc`, the transmit path of `Uart` of `native/whp/devices/uart.cc`, and
    the data register of `Pl011Uart` of `native/hvf/backend.cc`. -/

namespace NodeVmm

def ascii (s : String) : List UInt8 := s.toList.map fun c => c.toNat.toUInt8

/-- `"\x1b[6n"` --/
def query : List UInt8 := [0x1B, 0x5B, 0x36, 0x6E]

/-- `"\x1b[1;1R"` --/
def response : List UInt8 := [0x1B, 0x5B, 0x31, 0x3B, 0x31, 0x52]

def kHalted : List UInt8 := ascii "reboot: System halted"
def kRestarting : List UInt8 := ascii "Restarting system"

/-- What the receive queues of KVM and HVF hold at most. --/
def rxLimit : Nat := 4096

/-- The loop that puts the answer to a query in front of the receive queue, from its last byte on. --/
def pushFront : List UInt8 → List UInt8 → List UInt8
  | [], rx => rx
  | b :: data, rx => if rx.length < rxLimit then pushFront data (b :: rx) else rx

/-! ### Console -/

structure Console where
  limit : Nat := 1024 * 1024
  echoStdout : Bool := true
  console : List UInt8 := []
  stdout : List UInt8 := []
  lastStdoutByte : UInt8 := 0
  haltedSeen : Bool := false
  restartingSeen : Bool := false
  haltedMatch : Nat := 0
  restartingMatch : Nat := 0
  /-- All that has been emitted, also what the limit keeps out of `console`. --/
  emitted : List UInt8 := []
  deriving DecidableEq, Repr

/-- The two loops of `AdvanceMatch`: back to the last place that has the byte, and over it. --/
def advanceMatch (pattern : List UInt8) (current : Nat) (byte : UInt8) : Nat := StepBack.advance pattern current byte

namespace Console

/-- One byte of `track_console_markers`. --/
def trackByte (c : Console) (byte : UInt8) : Console :=
  let c := if c.haltedSeen then c
    else
      let m := advanceMatch kHalted c.haltedMatch byte
      { c with haltedMatch := m, haltedSeen := m = kHalted.length }
  if c.restartingSeen then c
  else
    let m := advanceMatch kRestarting c.restartingMatch byte
    { c with restartingMatch := m, restartingSeen := m = kRestarting.length }

def trackConsoleMarkers (bytes : List UInt8) (c : Console) : Console := bytes.foldl trackByte c

/-- A line feed gets a carriage return unless one was before it. --/
def normalizeCrlf : List UInt8 → UInt8 → List UInt8
  | [], _ => []
  | byte :: bytes, lastByte =>
    (if byte = 0x0A ∧ lastByte ≠ 0x0D then [0x0D, byte] else [byte]) ++ normalizeCrlf bytes byte

def writeStdout (bytes : List UInt8) (c : Console) : Console :=
  { c with stdout := c.stdout ++ normalizeCrlf bytes c.lastStdoutByte, lastStdoutByte := bytes.getLastD c.lastStdoutByte }

def emitTx (bytes : List UInt8) (c : Console) : Console :=
  if bytes = [] then c
  else
    let c := c.trackConsoleMarkers bytes
    let available := c.limit - c.console.length
    let c := { c with console := c.console ++ bytes.take available, emitted := c.emitted ++ bytes }
    if c.echoStdout then c.writeStdout bytes else c

/-- The two markers are answered by what was tracked, anything else by the console. --/
def contains (needle : List UInt8) (c : Console) : Bool :=
  if needle = kHalted then c.haltedSeen
  else if needle = kRestarting then c.restartingSeen
  else c.console.tails.any fun t => needle.isPrefixOf t

end Console

/-! ### KVM -/

namespace Kvm

structure Uart where
  ier : UInt8 := 0
  iir : UInt8 := 0x01
  lcr : UInt8 := 0
  mcr : UInt8 := 0x03
  scr : UInt8 := 0
  dll : UInt8 := 0
  dlh : UInt8 := 0
  out : Console := {}
  consoleOutputSeen : Bool := false
  rx : List UInt8 := []
  terminalQuery : List UInt8 := []
  /-- The level that `set_irq` has set last. --/
  irq : Bool := false
  deriving DecidableEq, Repr

namespace Uart

def dlab (u : Uart) : Bool := u.lcr &&& 0x80 ≠ 0

def updateInterrupt (u : Uart) : Uart :=
  if u.ier &&& 0x01 ≠ 0 ∧ u.rx ≠ [] then { u with iir := 0x04, irq := true }
  else if u.ier &&& 0x02 ≠ 0 then { u with iir := 0x02, irq := true }
  else { u with iir := 0x01, irq := false }

def emitTx (bytes : List UInt8) (u : Uart) : Uart :=
  { u with
    out := u.out.emitTx bytes
    consoleOutputSeen := u.consoleOutputSeen || (bytes ≠ [] && u.out.echoStdout) }

def enqueueRxFront (data : List UInt8) (u : Uart) : Uart :=
  { u with rx := pushFront data.reverse u.rx }.updateInterrupt

def enqueueRx (data : List UInt8) (u : Uart) : Uart :=
  { u with rx := u.rx ++ data.take (rxLimit - u.rx.length) }.updateInterrupt

def emitBytes (data : List UInt8) (u : Uart) : Uart := u.emitTx data

def handleTxByte (value : UInt8) (u : Uart) : Uart :=
  if u.terminalQuery ≠ [] ∨ value = 0x1B then
    let u := { u with terminalQuery := u.terminalQuery ++ [value] }
    if u.terminalQuery <+: query then
      if u.terminalQuery = query then { u.enqueueRxFront response with terminalQuery := [] } else u
    else { u.emitTx u.terminalQuery with terminalQuery := [] }
  else u.emitTx [value]

/-- A write of THR. --/
def transmit (value : UInt8) (u : Uart) : Uart :=
  let u := u.handleTxByte value
  if u.ier &&& 0x02 ≠ 0 then u.updateInterrupt else u

def read (offset : Nat) (u : Uart) : UInt8 × Uart :=
  match offset with
  | 0 => if u.dlab then (u.dll, u) else (u.rx.headD 0, { u with rx := u.rx.tail }.updateInterrupt)
  | 1 => (if u.dlab then u.dlh else u.ier, u)
  | 2 => (0xC0 ||| u.iir, if u.iir = 0x02 then { u with irq := false }.updateInterrupt else u)
  | 3 => (u.lcr, u)
  | 4 => (u.mcr, u)
  | 5 => (0x60 ||| if u.rx = [] then 0x00 else 0x01, u)
  | 6 => (0xB0, u)
  | 7 => (u.scr, u)
  | _ => (0, u)

def write (offset : Nat) (value : UInt8) (u : Uart) : Uart :=
  match offset with
  | 0 => if u.dlab then { u with dll := value } else u.transmit value
  | 1 => if u.dlab then { u with dlh := value } else { u with ier := value }.updateInterrupt
  | 3 => { u with lcr := value }
  | 4 => { u with mcr := value }
  | 7 => { u with scr := value }
  | _ => u

end Uart
end Kvm

/-! ### WHP -/

namespace Whp

/-- The UART with its console. `outputIsConsole` is what `can_passthrough_terminal_query` tells. --/
structure Terminal where
  uart : Uart := {}
  out : Console := {}
  dsrPassthrough : Bool := false
  outputIsConsole : Bool := false
  deriving DecidableEq, Repr

def decimal (n : Int) : List UInt8 := (Nat.toDigits 10 n.toNat).map fun c => c.toNat.toUInt8

/-- `row` and `col` are those of the cursor in the window, `none` where the console cannot be asked. --/
def cursorPositionReport : Option (Int × Int) → List UInt8
  | some (row, col) => [0x1B, 0x5B] ++ decimal (max row 1) ++ [0x3B] ++ decimal (max col 1) ++ [0x52]
  | none => response

namespace Terminal

def emitTx (bytes : List UInt8) (t : Terminal) : Terminal := { t with out := t.out.emitTx bytes }

def emitBytes (data : List UInt8) (t : Terminal) : Terminal := t.emitTx data

/-- A byte that has got to the shift register. --/
def shiftOut (t : Terminal) (byte : UInt8) : Terminal :=
  let t := { t with uart := { t.uart with tsr := byte } }
  if t.uart.mcr &&& 0x10 ≠ 0 then { t with uart := (t.uart.enqueueRx [byte]).2 } else t.emitTx [byte]

/-- THR is full. --/
def load (value : UInt8) (t : Terminal) : Terminal :=
  { t with uart := { t.uart with thr := value, lsr := t.uart.lsr &&& ~~~(lsrThre ||| lsrTemt) } }

/-- THR is empty again. --/
def sent (t : Terminal) : Terminal :=
  { t with uart := { t.uart with lsr := t.uart.lsr ||| (lsrThre ||| lsrTemt), thrIpending := true } }

def transmitByte (value : UInt8) (t : Terminal) : Terminal :=
  if t.uart.fifoEnabled then
    let fifo := if t.uart.txFifo.length < fifoSize then t.uart.txFifo ++ [value] else t.uart.txFifo
    (fifo.foldl shiftOut { t with uart := { t.uart with txFifo := [] } }).sent
  else (t.shiftOut value).sent

def updateInterrupt (t : Terminal) : Terminal := { t with uart := t.uart.updateInterrupt }

def setQuery (held : List UInt8) (t : Terminal) : Terminal := { t with uart := { t.uart with terminalQuery := held } }

/-- A query is answered by the host's terminal, or here. --/
def answerQuery (cursor : Option (Int × Int)) (t : Terminal) : Terminal :=
  if t.dsrPassthrough ∧ t.outputIsConsole then t.emitTx t.uart.terminalQuery
  else { t with uart := (t.uart.enqueueRx (cursorPositionReport cursor)).2 }

def handleTxByte (cursor : Option (Int × Int)) (value : UInt8) (t : Terminal) : Terminal :=
  let t := t.load value
  if t.uart.mcr &&& 0x10 ≠ 0 then (t.transmitByte value).updateInterrupt
  else if t.uart.terminalQuery ≠ [] ∨ value = 0x1B then
    let t := t.setQuery (t.uart.terminalQuery ++ [value])
    if t.uart.terminalQuery <+: query then
      let t := if t.uart.terminalQuery = query then (t.answerQuery cursor).setQuery [] else t
      t.sent.updateInterrupt
    else ((t.emitTx t.uart.terminalQuery).setQuery []).sent.updateInterrupt
  else (t.transmitByte value).updateInterrupt

def write (cursor : Option (Int × Int)) (offset : Nat) (value : UInt8) (t : Terminal) : Terminal :=
  match t.uart.write offset value with
  | some uart => { t with uart := uart }
  | none => t.handleTxByte cursor value

end Terminal
end Whp

/-! ### HVF -/

namespace Hvf

def kRxInterrupts : UInt32 := 0x10 ||| 0x40

structure Pl011Uart where
  rx : List UInt8 := []
  console : List UInt8 := []
  terminalQuery : List UInt8 := []
  consoleLimit : Nat := 0
  echoStdout : Bool := false
  consoleOutputSeen : Bool := false
  imsc : UInt32 := 0
  ris : UInt32 := 0
  /-- The level that the interrupt controller was told last. --/
  irq : Bool := false
  /-- All that has been emitted, also what the limit keeps out of `console`. --/
  emitted : List UInt8 := []
  deriving DecidableEq, Repr

namespace Pl011Uart

def updateIrq (u : Pl011Uart) : Pl011Uart :=
  let u := { u with ris := if u.rx ≠ [] then u.ris ||| kRxInterrupts else u.ris &&& ~~~kRxInterrupts }
  { u with irq := u.ris &&& u.imsc ≠ 0 }

def emitTx (u : Pl011Uart) (c : UInt8) : Pl011Uart :=
  { u with
    console := if u.console.length < u.consoleLimit then u.console ++ [c] else u.console
    consoleOutputSeen := u.consoleOutputSeen || u.echoStdout
    emitted := u.emitted ++ [c] }

def handleTx (c : UInt8) (u : Pl011Uart) : Pl011Uart :=
  if u.echoStdout then u.emitTx c
  else if u.terminalQuery ≠ [] ∨ c = 0x1B then
    let u := { u with terminalQuery := u.terminalQuery ++ [c] }
    if u.terminalQuery <+: query then
      if u.terminalQuery = query then
        { u with rx := pushFront response.reverse u.rx, ris := u.ris ||| kRxInterrupts, terminalQuery := [] }
      else u
    else { u.terminalQuery.foldl emitTx u with terminalQuery := [] }
  else u.emitTx c

/-- A write of DR. --/
def transmit (c : UInt8) (u : Pl011Uart) : Pl011Uart :=
  let u := u.handleTx c
  { u with ris := u.ris ||| 0x20 }.updateIrq

def injectBytes (data : List UInt8) (u : Pl011Uart) : Pl011Uart :=
  { u with
    rx := u.rx ++ data.take (rxLimit - u.rx.length)
    ris := if data ≠ [] then u.ris ||| kRxInterrupts else u.ris }.updateIrq

/-- A read of DR. --/
def readDr (u : Pl011Uart) : UInt8 × Pl011Uart :=
  match u.rx with
  | [] => (0, u)
  | b :: rest => (b, { u with rx := rest, ris := if rest = [] then u.ris &&& ~~~kRxInterrupts else u.ris }.updateIrq)

end Pl011Uart
end Hvf
end NodeVmm
