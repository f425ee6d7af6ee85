import Mathlib.Algebra.Group.Nat.Defs

/-! The UART of the WHP back end: `Uart` of `native/whp/devices/uart.cc`, without the transmit path (a write of THR),
    the console and the debug output. Every operation runs under the mutex. -/

namespace NodeVmm.Whp

def rxCapacity : Nat := 4096
def fifoSize : Nat := 16

def ierRdi : UInt8 := 0x01
def ierThri : UInt8 := 0x02
def ierRlsi : UInt8 := 0x04
def ierMsi : UInt8 := 0x08

def fcrEnable : UInt8 := 0x01
def fcrClearRx : UInt8 := 0x02
def fcrClearTx : UInt8 := 0x04
def fcrTriggerMask : UInt8 := 0xC0

def lsrDr : UInt8 := 0x01
def lsrOe : UInt8 := 0x02
def lsrPe : UInt8 := 0x04
def lsrFe : UInt8 := 0x08
def lsrBi : UInt8 := 0x10
def lsrThre : UInt8 := 0x20
def lsrTemt : UInt8 := 0x40

structure Uart where
  ier : UInt8 := 0
  iir : UInt8 := 0x01
  fcr : UInt8 := 0
  lcr : UInt8 := 0
  mcr : UInt8 := 0x08
  msr : UInt8 := 0xB0
  lsr : UInt8 := lsrThre ||| lsrTemt
  scr : UInt8 := 0
  dll : UInt8 := 0x0C
  dlh : UInt8 := 0
  rbr : UInt8 := 0
  thr : UInt8 := 0
  tsr : UInt8 := 0
  rxFifo : List UInt8 := []
  rxStaging : List UInt8 := []
  txFifo : List UInt8 := []
  thrIpending : Bool := false
  timeoutIpending : Bool := false
  terminalQuery : List UInt8 := []
  /-- The calls of `irq_raiser_`. --/
  irqs : Nat := 0
  deriving DecidableEq, Repr

namespace Uart

def fifoEnabled (u : Uart) : Bool := u.fcr &&& fcrEnable ≠ 0

def dlab (u : Uart) : Bool := u.lcr &&& 0x80 ≠ 0

/-- LSR.DR --/
def dataReady (u : Uart) : Bool := u.lsr &&& lsrDr ≠ 0

def setDr (u : Uart) : Uart := { u with lsr := u.lsr ||| lsrDr }

def clearDr (u : Uart) : Uart := { u with lsr := u.lsr &&& ~~~lsrDr }

def rxTriggerLevel (u : Uart) : Nat :=
  if u.fcr &&& fcrTriggerMask = 0x00 then 1
  else if u.fcr &&& fcrTriggerMask = 0x40 then 4
  else if u.fcr &&& fcrTriggerMask = 0x80 then 8
  else if u.fcr &&& fcrTriggerMask = 0xC0 then 14
  else 1

/-- The loop moves from the front of the staging queue what the FIFO has room for. --/
def fillFifo (u : Uart) : Uart :=
  let room := fifoSize - u.rxFifo.length
  { u with rxFifo := u.rxFifo ++ u.rxStaging.take room, rxStaging := u.rxStaging.drop room }

def drainRxStaging (u : Uart) : Uart :=
  if u.fifoEnabled then
    let u := u.fillFifo
    if u.rxFifo = [] then { u.clearDr with timeoutIpending := false }
    else { u.setDr with timeoutIpending := u.rxFifo.length < u.rxTriggerLevel }
  else
    let u := match u.rxStaging with
      | b :: rest => if u.dataReady then u else { u.setDr with rbr := b, rxStaging := rest }
      | [] => u
    { u with timeoutIpending := false }

def rxReadyForInterrupt (u : Uart) : Bool :=
  if u.fifoEnabled then u.rxFifo ≠ [] && u.rxTriggerLevel ≤ u.rxFifo.length else u.dataReady

def iirFifoBits (u : Uart) : UInt8 := if u.fifoEnabled then 0xC0 else 0x00

def currentMsr (u : Uart) : UInt8 :=
  if u.mcr &&& 0x10 ≠ 0 then
    let loop := u.msr &&& 0x0F
    let loop := if u.mcr &&& 0x02 ≠ 0 then loop ||| 0x10 else loop
    let loop := if u.mcr &&& 0x01 ≠ 0 then loop ||| 0x20 else loop
    let loop := if u.mcr &&& 0x04 ≠ 0 then loop ||| 0x40 else loop
    if u.mcr &&& 0x08 ≠ 0 then loop ||| 0x80 else loop
  else u.msr

def updateMsrDelta (oldMsr newMsr : UInt8) (u : Uart) : Uart :=
  let oldStatus := oldMsr &&& 0xF0
  let newStatus := newMsr &&& 0xF0
  let delta : UInt8 := if (oldStatus ^^^ newStatus) &&& 0x10 ≠ 0 then 0x01 else 0
  let delta := if (oldStatus ^^^ newStatus) &&& 0x20 ≠ 0 then delta ||| 0x02 else delta
  let delta := if oldStatus &&& 0x40 ≠ 0 ∧ newStatus &&& 0x40 = 0 then delta ||| 0x04 else delta
  let delta := if (oldStatus ^^^ newStatus) &&& 0x80 ≠ 0 then delta ||| 0x08 else delta
  { u with msr := (newMsr &&& 0xF0) ||| ((u.msr ||| delta) &&& 0x0F) }

/-- The interrupt to announce, 0x01 for none. --/
def pendingInterrupt (u : Uart) : UInt8 :=
  if u.ier &&& ierRlsi ≠ 0 ∧ u.lsr &&& (lsrOe ||| lsrPe ||| lsrFe ||| lsrBi) ≠ 0 then 0x06
  else if u.ier &&& ierRdi ≠ 0 ∧ u.timeoutIpending then 0x0C
  else if u.ier &&& ierRdi ≠ 0 ∧ u.rxReadyForInterrupt then 0x04
  else if u.ier &&& ierThri ≠ 0 ∧ u.thrIpending ∧ u.lsr &&& lsrThre ≠ 0 then 0x02
  else if u.ier &&& ierMsi ≠ 0 ∧ u.currentMsr &&& 0x0F ≠ 0 then 0x00
  else 0x01

def updateInterrupt (u : Uart) : Uart :=
  { u with iir := u.pendingInterrupt, irqs := if u.pendingInterrupt = 0x01 then u.irqs else u.irqs + 1 }

def clearRx (u : Uart) : Uart :=
  { u with
    rxFifo := []
    rxStaging := []
    rbr := 0
    timeoutIpending := false
    lsr := u.lsr &&& ~~~(lsrDr ||| lsrOe ||| lsrPe ||| lsrFe ||| lsrBi) }

def clearTx (u : Uart) : Uart :=
  { u with
    txFifo := []
    thr := 0
    tsr := 0
    terminalQuery := []
    lsr := u.lsr ||| (lsrThre ||| lsrTemt)
    thrIpending := true }

/-! ### Host and guest -/

/-- What counts for the capacity. --/
def queued (u : Uart) : Nat :=
  u.rxStaging.length + if u.fifoEnabled then u.rxFifo.length else if u.dataReady then 1 else 0

/-- The loop of `enqueue_rx_locked`, which no caller runs with `front`. --/
def stage : List UInt8 → Nat → Uart → Nat × Uart
  | [], accepted, u => (accepted, u)
  | b :: data, accepted, u =>
    if u.queued < rxCapacity then stage data (accepted + 1) { u with rxStaging := u.rxStaging ++ [b] }
    else (accepted, u)

def enqueueRx (data : List UInt8) (u : Uart) : Nat × Uart :=
  if data = [] then (0, u)
  else
    let (accepted, u) := stage data 0 u
    let u := if accepted < data.length then { u with lsr := u.lsr ||| lsrOe } else u
    (accepted, u.drainRxStaging.updateInterrupt)

/-- A read of RBR. --/
def readRbr (u : Uart) : UInt8 × Uart :=
  if u.fifoEnabled then
    let value := u.rxFifo.headD 0
    let u := { u with rxFifo := u.rxFifo.tail, timeoutIpending := false }.drainRxStaging
    let u := if u.rxFifo = [] then u.clearDr else u
    (value, u.updateInterrupt)
  else
    let value := if u.dataReady then u.rbr else 0
    let u := if u.dataReady then u.clearDr else u
    (value, { u with timeoutIpending := false }.drainRxStaging.updateInterrupt)

def read (offset : Nat) (u : Uart) : UInt8 × Uart :=
  match offset with
  | 0 => if u.dlab then (u.dll, u) else u.readRbr
  | 1 => (if u.dlab then u.dlh else u.ier, u)
  | 2 => (u.iirFifoBits ||| u.iir,
      if u.iir &&& 0x0F = 0x02 then { u with thrIpending := false }.updateInterrupt else u)
  | 3 => (u.lcr, u)
  | 4 => (u.mcr, u)
  | 5 => (u.lsr,
      if u.lsr &&& (lsrOe ||| lsrPe ||| lsrFe ||| lsrBi) ≠ 0 then
        { u with lsr := u.lsr &&& ~~~(lsrOe ||| lsrPe ||| lsrFe ||| lsrBi) }.updateInterrupt
      else u)
  | 6 => (u.currentMsr, { u with msr := u.msr &&& 0xF0 }.updateInterrupt)
  | 7 => (u.scr, u)
  | _ => (0, u)

def writeIer (value : UInt8) (u : Uart) : Uart :=
  let oldIer := u.ier
  let u := { u with ier := value &&& 0x0F }
  let u := if (oldIer ^^^ u.ier) &&& ierThri ≠ 0 then
      { u with thrIpending := u.ier &&& ierThri ≠ 0 && u.lsr &&& lsrThre ≠ 0 } else u
  u.updateInterrupt

def writeFcr (value : UInt8) (u : Uart) : Uart :=
  let u := { u with fcr := value &&& (fcrEnable ||| fcrTriggerMask) }
  let u := if value &&& fcrClearRx ≠ 0 then u.clearRx else u.drainRxStaging
  let u := if value &&& fcrClearTx ≠ 0 then u.clearTx else u
  u.updateInterrupt

def writeLcr (value : UInt8) (u : Uart) : Uart :=
  let oldLcr := u.lcr
  let u := { u with lcr := value }
  let u := if value &&& 0x40 ≠ 0 ∧ oldLcr &&& 0x40 = 0 then { u with lsr := u.lsr ||| lsrBi ||| lsrDr, rbr := 0 } else u
  u.updateInterrupt

def writeMcr (value : UInt8) (u : Uart) : Uart :=
  let oldMsr := u.currentMsr
  let u := { u with mcr := value &&& 0x1F }
  (u.updateMsrDelta oldMsr u.currentMsr).updateInterrupt

/-- A write of a register other than THR. --/
def write (offset : Nat) (value : UInt8) (u : Uart) : Option Uart :=
  match offset with
  | 0 => if u.dlab then some { u with dll := value } else none
  | 1 => some (if u.dlab then { u with dlh := value } else u.writeIer value)
  | 2 => some (u.writeFcr value)
  | 3 => some (u.writeLcr value)
  | 4 => some (u.writeMcr value)
  | 7 => some { u with scr := value }
  | _ => some u

end Uart
end NodeVmm.Whp
