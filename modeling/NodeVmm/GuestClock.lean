import Mathlib.Logic.Function.Basic

/-! The clocks of the WHP back end that count from the host's steady clock: the PIT (`native/whp/devices/pit.cc`), less its
    interrupt, and the ACPI PM timer (`native/whp/devices/acpi_pm_timer.cc`). A call that reads the clock gets it as a
    parameter, in nanoseconds. -/

namespace NodeVmm.Whp

/-- `(uint64_t(elapsed) * hz) / 1000000000`, or 0 before the start. --/
def ticksOf (hz : UInt64) (elapsed : Int) : UInt64 :=
  if elapsed ≤ 0 then 0 else UInt64.ofNat elapsed.toNat * hz / 1000000000

structure PitChannel where
  reload : UInt16
  latch : UInt16
  latchValid : Bool
  access : UInt8
  mode : UInt8
  writePhase : UInt8
  readPhase : UInt8
  start : Int
  deriving DecidableEq, Repr

abbrev ChannelId := Fin 3

structure Pit where
  channels : ChannelId → PitChannel
  channel2Gated : Bool

namespace PitChannel

def pitHz : UInt64 := 1193182

def divisor (c : PitChannel) : UInt32 := if c.reload = 0 then 65536 else c.reload.toUInt32

def currentCount (now : Int) (c : PitChannel) : UInt16 :=
  let ticks := ticksOf pitHz (now - c.start)
  let count := c.divisor
  let counter :=
    if c.mode = 2 ∨ c.mode = 3 then count - (ticks % count.toUInt64).toUInt32
    else (count - ticks.toUInt32) &&& 0xFFFF
  (counter &&& 0xFFFF).toUInt16

/-- The byte that a read gives, and the channel after it. --/
def readChannel (now : Int) (c : PitChannel) : UInt8 × PitChannel :=
  let value := if c.latchValid then c.latch else c.currentCount now
  let low := (value &&& 0xFF).toUInt8
  let high := ((value >>> 8) &&& 0xFF).toUInt8
  if c.access = 1 then (low, { c with latchValid := false })
  else if c.access = 2 then (high, { c with latchValid := false })
  else if c.readPhase = 0 then (low, { c with readPhase := 1 })
  else (high, { c with readPhase := 0, latchValid := false })

/-- A control word for the channel. --/
def command (now : Int) (value : UInt8) (c : PitChannel) : PitChannel :=
  let access := (value >>> 4) &&& 0x03
  if access = 0 then { c with latch := c.currentCount now, latchValid := true, readPhase := 0 }
  else
    let mode := (value >>> 1) &&& 0x07
    { c with access := access, mode := if 5 < mode then mode - 4 else mode, writePhase := 0, readPhase := 0, latchValid := false }

def setLow (value : UInt8) (c : PitChannel) : PitChannel :=
  { c with reload := (c.reload &&& (0xFF00 : UInt16)) ||| value.toUInt16 }

def setHigh (value : UInt8) (c : PitChannel) : PitChannel :=
  { c with reload := (c.reload &&& (0x00FF : UInt16)) ||| (value.toUInt16 <<< 8) }

def writeChannel (now : Int) (value : UInt8) (c : PitChannel) : PitChannel :=
  if c.access = 1 then { c.setLow value with start := now }
  else if c.access = 2 then { c.setHigh value with start := now }
  else if c.writePhase = 0 then { c.setLow value with writePhase := 1 }
  else { c.setHigh value with writePhase := 0, start := now }

end PitChannel

namespace Pit
open PitChannel

/-- A new PIT, at a time of the clock. --/
def reset (now : Int) : Pit where
  channels _ :=
    { reload := 0, latch := 0, latchValid := false, access := 3, mode := 3, writePhase := 0, readPhase := 0, start := now }
  channel2Gated := false

def updateChannel (i : ChannelId) (c : PitChannel) (p : Pit) : Pit := { p with channels := Function.update p.channels i c }

/-- The channel of a data port. --/
def channelAt (port : UInt16) : Option ChannelId :=
  if hport : 0x40 ≤ port.toNat ∧ port.toNat ≤ 0x42 then some ⟨port.toNat - 0x40, by omega⟩ else none

/-- The channel of a control word, which the read-back command has none of. --/
def channelOf (value : UInt8) : Option ChannelId :=
  if hvalue : value.toNat / 64 < 3 then some ⟨value.toNat / 64, hvalue⟩ else none

def readPort (now : Int) (port : UInt16) (p : Pit) : UInt8 × Pit :=
  match channelAt port with
  | none => (0, p)
  | some i =>
    let (value, c) := (p.channels i).readChannel now
    (value, p.updateChannel i c)

def writePort (now : Int) (port : UInt16) (value : UInt8) (p : Pit) : Pit :=
  if port = 0x43 then
    match channelOf value with
    | none => p
    | some i => p.updateChannel i ((p.channels i).command now value)
  else
    match channelAt port with
    | none => p
    | some i => p.updateChannel i ((p.channels i).writeChannel now value)

def channel2OutHigh (now : Int) (p : Pit) : Bool :=
  if ¬p.channel2Gated then false
  else
    let c := p.channels 2
    if now - c.start ≤ 0 then false else c.divisor.toUInt64 ≤ ticksOf pitHz (now - c.start)

def setChannel2Gate (now : Int) (gated : Bool) (p : Pit) : Pit :=
  let p := if gated ∧ ¬p.channel2Gated then p.updateChannel 2 { p.channels 2 with start := now } else p
  { p with channel2Gated := gated }

/-- A call on the PIT, and the time that it reads. --/
inductive Event where
  | readPort (now : Int) (port : UInt16)
  | writePort (now : Int) (port : UInt16) (value : UInt8)
  | setGate (now : Int) (gated : Bool)

def step (p : Pit) : Event → Pit
  | .readPort now port => (p.readPort now port).2
  | .writePort now port value => p.writePort now port value
  | .setGate now gated => p.setChannel2Gate now gated

end Pit

structure AcpiPmTimer where
  startedAt : Int

namespace AcpiPmTimer

def port : UInt16 := 0x408

def pmTimerHz : UInt64 := 3579545

def counter (now : Int) (t : AcpiPmTimer) : UInt32 := (ticksOf pmTimerHz (now - t.startedAt)).toUInt32

def read (now : Int) (p : UInt16) (size : UInt8) (t : AcpiPmTimer) : UInt32 :=
  if p < port ∨ port + 4 ≤ p ∨ size = 0 ∨ 4 < size then 0
  else t.counter now >>> ((p - port) * 8).toUInt32

end AcpiPmTimer
end NodeVmm.Whp
