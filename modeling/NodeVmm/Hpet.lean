import NodeVmm.IoApic
import NodeVmm.Lib.Words

/-! The HPET of the WHP back end (`native/whp/devices/hpet.cc`), and how the timer thread of `native/whp/backend.cc` puts
    its interrupts on the I/O APIC. A call that reads the clock gets it as a parameter, in nanoseconds. -/

namespace NodeVmm.Whp

structure Irq where
  ioapicPin : UInt32 := 0
  picIrq : UInt8 := 0
  level : Bool := false
  deriving DecidableEq, Repr

structure HpetTimer where
  config : UInt64
  cmp : UInt64
  cmp64 : UInt64
  period : UInt64
  armed : Bool
  deriving DecidableEq, Repr

/-- `kNumTimers` --/
abbrev TimerId := Fin 3

structure Hpet where
  timers : TimerId → HpetTimer
  assertedIrqs : TimerId → Option Irq
  config : UInt64
  isr : UInt64
  counterBase : UInt64
  counterStartedAt : Int

namespace Hpet

def base : UInt64 := 0xFED00000
def size : UInt64 := 0x400
def clockPeriodNs : Nat := 10
def timer0IoApicPin : UInt32 := 2

def cfgEnable : UInt64 := 0x001
def cfgLegacy : UInt64 := 0x002
def cfgWriteMask : UInt64 := 0x003

def timerTypeLevel : UInt64 := 0x002
def timerEnable : UInt64 := 0x004
def timerPeriodic : UInt64 := 0x008
def timerPeriodicCap : UInt64 := 0x010
def timerSizeCap : UInt64 := 0x020
def timerSetVal : UInt64 := 0x040
def timer32Bit : UInt64 := 0x100
def timerIntRouteMask : UInt64 := 0x3E00
def timerCfgWriteMask : UInt64 := 0x7F4E
def timerIntRouteShift : UInt64 := 9

/-- A new HPET, at a time of the clock. --/
def reset (now : Int) : Hpet where
  timers _ :=
    { config := timerPeriodicCap ||| timerSizeCap ||| (1 <<< timer0IoApicPin.toUInt64) <<< 32
      cmp := 0xFFFFFFFFFFFFFFFF
      cmp64 := 0xFFFFFFFFFFFFFFFF
      period := 0
      armed := false }
  assertedIrqs _ := none
  config := 0
  isr := 0
  counterBase := 0
  counterStartedAt := now

/-- The bits of `old` from `shift` on, as many as `bits`, are those of `value`. --/
def depositBits (old : UInt64) (shift bits : Nat) (value : UInt64) : UInt64 :=
  if bits = 0 ∨ 64 ≤ shift then old
  else
    let effective := if 64 - shift < bits then 64 - shift else bits
    let mask : UInt64 := if effective = 64 then 0xFFFFFFFFFFFFFFFF else (1 <<< UInt64.ofNat effective) - 1
    (old &&& ~~~(mask <<< UInt64.ofNat shift)) ||| ((value &&& mask) <<< UInt64.ofNat shift)

def timerBit (i : TimerId) : UInt64 := 1 <<< UInt64.ofNat i.val

def hasBit (word : UInt64) (i : TimerId) : Bool := word &&& timerBit i != 0

def enabled (h : Hpet) : Bool := h.config &&& cfgEnable != 0

def legacyMode (h : Hpet) : Bool := h.config &&& cfgLegacy != 0

def timerEnabled (h : Hpet) (i : TimerId) : Bool := (h.timers i).config &&& timerEnable != 0

def levelTriggered (h : Hpet) (i : TimerId) : Bool := (h.timers i).config &&& timerTypeLevel != 0

/-- The difference, as a signed number, is not positive. --/
def counterReached (now target : UInt64) : Bool := (target - now).toBitVec.toInt ≤ 0

def counter (now : Int) (h : Hpet) : UInt64 :=
  if ¬h.enabled then h.counterBase
  else
    let elapsed := now - h.counterStartedAt
    h.counterBase + if elapsed ≤ 0 then 0 else UInt64.ofNat (elapsed.toNat / clockPeriodNs)

def updateTimer (i : TimerId) (timer : HpetTimer) (h : Hpet) : Hpet := { h with timers := Function.update h.timers i timer }

def setTimer (now : Int) (i : TimerId) (h : Hpet) : Hpet :=
  let timer := { h.timers i with armed := false }
  if ¬h.enabled ∨ timer.config &&& timerEnable = 0 then h.updateTimer i timer
  else
    let now := h.counter now
    let cmp64 :=
      if timer.config &&& timer32Bit ≠ 0 then
        let cmp64 := (now &&& ~~~0xFFFFFFFF) ||| timer.cmp.toUInt32.toUInt64
        if (cmp64 - now).toBitVec.toInt < 0 then cmp64 + 0x100000000 else cmp64
      else timer.cmp
    h.updateTimer i { timer with cmp64 := cmp64, armed := true }

def reprogramTimers (clock : TimerId → Int) (h : Hpet) : Hpet :=
  (List.finRange 3).foldl (fun h i => h.setTimer (clock i) i) h

def routeForTimer (h : Hpet) (i : TimerId) : Irq :=
  let level := h.levelTriggered i
  if i.val ≤ 1 ∧ h.legacyMode then
    if i.val = 0 then ⟨timer0IoApicPin, 0, level⟩ else ⟨8, 8, level⟩
  else ⟨(((h.timers i).config &&& timerIntRouteMask) >>> timerIntRouteShift).toUInt32, 0xFF, level⟩

/-! ### Interrupts that end -/

/-- One round of `deassert_cleared_irqs`: the HPET and the pins that it has lowered. --/
def deassertCleared (cleared : UInt64) (s : Hpet × List UInt32) (i : TimerId) : Hpet × List UInt32 :=
  if ¬hasBit cleared i then s
  else
    let irq := (s.1.assertedIrqs i).getD (s.1.routeForTimer i)
    ({ s.1 with assertedIrqs := Function.update s.1.assertedIrqs i none },
      if irq.level ∧ irq.ioapicPin < 24 then s.2 ++ [irq.ioapicPin] else s.2)

def deassertClearedIrqs (cleared : UInt64) (h : Hpet) : Hpet × List UInt32 :=
  (List.finRange 3).foldl (deassertCleared cleared) (h, [])

/-- The bits of ISR go, and with them the interrupts that they stood for. --/
def clearIsr (clear : UInt64) (h : Hpet) : Hpet × List UInt32 :=
  { h with isr := h.isr &&& ~~~clear }.deassertClearedIrqs (h.isr &&& clear)

/-! ### Writes -/

/-- The general configuration after a write. --/
def nextConfig (old : UInt64) (shift bits : Nat) (value : UInt64) : UInt64 :=
  (depositBits old shift bits value &&& cfgWriteMask) ||| (old &&& ~~~cfgWriteMask)

/-- `clock 0` is read where the counter starts or stops, `clock (i + 1)` for the timer `i`. --/
def writeConfig (clock : Nat → Int) (shift bits : Nat) (value : UInt64) (h : Hpet) : Hpet × List UInt32 :=
  let next := nextConfig h.config shift bits value
  let wasEnabled := h.enabled
  let willEnable := next &&& cfgEnable != 0
  let h := if wasEnabled ∧ ¬willEnable then { h with counterBase := h.counter (clock 0) } else h
  let h := { h with config := next }
  let h := if ¬wasEnabled ∧ willEnable then { h with counterStartedAt := clock 0 } else h
  if willEnable then (h.reprogramTimers fun i => clock (i.val + 1), [])
  else
    let h := { h with timers := fun i => { h.timers i with armed := false } }
    { h with isr := 0 }.deassertClearedIrqs h.isr

/-- A timer's configuration after a write. --/
def nextTimerConfig (old : UInt64) (shift bits : Nat) (value : UInt64) : UInt64 :=
  (depositBits old shift bits value &&& timerCfgWriteMask) ||| (old &&& ~~~timerCfgWriteMask)

/-- The write ends the timer's level interrupt. --/
def clearLevelIrq (old next : UInt64) : Bool :=
  old &&& timerTypeLevel != 0 && (next &&& timerTypeLevel == 0 || next &&& timerEnable == 0)

def writeTimerConfig (now : Int) (i : TimerId) (shift bits : Nat) (value : UInt64) (h : Hpet) : Hpet × List UInt32 :=
  let next := nextTimerConfig (h.timers i).config shift bits value
  let (h, lowered) := if clearLevelIrq (h.timers i).config next then h.clearIsr (timerBit i) else (h, [])
  let timer := { h.timers i with config := next }
  let timer := if timer.config &&& timer32Bit ≠ 0 then
      { timer with cmp := timer.cmp.toUInt32.toUInt64, period := timer.period.toUInt32.toUInt64 } else timer
  ((h.updateTimer i timer).setTimer now i, lowered)

def writeTimerCmp (now : Int) (i : TimerId) (shift bits : Nat) (value : UInt64) (h : Hpet) : Hpet :=
  let timer := h.timers i
  let small := timer.config &&& timer32Bit != 0
  if small ∧ shift ≠ 0 then h
  else
    let bits := if small then 64 else bits
    let value := if small then value.toUInt32.toUInt64 else value
    let periodic := timer.config &&& timerPeriodic != 0
    let timer := if ¬periodic ∨ timer.config &&& timerSetVal ≠ 0 then
        { timer with cmp := depositBits timer.cmp shift bits value } else timer
    let timer := if periodic then { timer with period := depositBits timer.period shift bits value } else timer
    (h.updateTimer i { timer with config := timer.config &&& ~~~timerSetVal }).setTimer now i

/-- The timer whose registers an offset is in. --/
def timerAt (off : UInt64) : Option TimerId :=
  if off < 0x100 then none
  else if hlt : ((off - 0x100) / 0x20).toNat < 3 then some ⟨((off - 0x100) / 0x20).toNat, hlt⟩ else none

def writeReg (clock : Nat → Int) (off : UInt64) (shift bits : Nat) (value : UInt64) (h : Hpet) : Hpet × List UInt32 :=
  if off ≤ 0xFF then
    if off = 0x010 then h.writeConfig clock shift bits value
    else if off = 0x020 then h.clearIsr (depositBits 0 shift bits value)
    else if off = 0x0F0 then
      (if ¬h.enabled then { h with counterBase := depositBits h.counterBase shift bits value } else h, [])
    else (h, [])
  else
    match timerAt off with
    | none => (h, [])
    | some i =>
      if off &&& 0x18 = 0x00 then h.writeTimerConfig (clock 0) i shift bits value
      else if off &&& 0x18 = 0x08 then (h.writeTimerCmp (clock 0) i shift bits value, [])
      else (h, [])

def validAccess (addr : UInt64) (len : Nat) : Bool :=
  len ≠ 0 && len ≤ 8 && base ≤ addr && addr < base + size && len ≤ (base + size - addr).toNat

/-- The register of an address, and the shift of the address in it. --/
def regOf (addr : UInt64) : UInt64 × Nat := ((addr - base) &&& ~~~4, (((addr - base) &&& 4) * 8).toNat)

def writeMmio (clock : Nat → Int) (addr : UInt64) (data : List UInt8) (h : Hpet) : Hpet × List UInt32 :=
  if ¬validAccess addr data.length then (h, [])
  else
    let (off, shift) := regOf addr
    h.writeReg clock off shift (min (data.length * 8) (64 - shift)) (UInt64.ofNat (Words.ofLe data))

/-! ### Timers -/

/-- The loop that moves a periodic timer past the counter, in at most so many rounds: the sums repeat after `2 ^ 64`. --/
def catchUp (now period : UInt64) : Nat → UInt64 → Option UInt64
  | 0, _ => none
  | rounds + 1, cmp64 =>
    if counterReached now (cmp64 + period) then catchUp now period rounds (cmp64 + period) else some (cmp64 + period)

/-- The timer fires when the counter is at `now`. --/
def fires (now : UInt64) (timer : HpetTimer) : Bool :=
  timer.armed && timer.config &&& timerEnable != 0 && counterReached now timer.cmp64

/-- A timer after it has fired, if the loop ends. --/
def afterFire (now : UInt64) (timer : HpetTimer) : Option HpetTimer :=
  if timer.config &&& timerPeriodic ≠ 0 ∧ timer.period ≠ 0 then
    (catchUp now timer.period (2 ^ 64) timer.cmp64).map fun cmp64 =>
      { timer with cmp64 := cmp64, cmp := if timer.config &&& timer32Bit ≠ 0 then cmp64.toUInt32.toUInt64 else cmp64 }
  else some { timer with armed := false }

/-- A level interrupt is recorded. --/
def record (i : TimerId) (irq : Irq) (h : Hpet) : Hpet :=
  { h with isr := h.isr ||| timerBit i, assertedIrqs := Function.update h.assertedIrqs i (some irq) }

/-- One round of `poll_expired`: the HPET and the interrupts so far. --/
def pollTimer (now : UInt64) (s : Hpet × List Irq) (i : TimerId) : Option (Hpet × List Irq) :=
  if ¬fires now (s.1.timers i) then some s
  else
    let irq := s.1.routeForTimer i
    (afterFire now (s.1.timers i)).map fun timer =>
      ((if s.1.levelTriggered i then s.1.record i irq else s.1).updateTimer i timer, s.2 ++ [irq])

/-- `none` is a call that never returns. --/
def pollExpired (now : Int) (h : Hpet) : Option (Hpet × List Irq) :=
  if ¬h.enabled then some (h, []) else (List.finRange 3).foldlM (pollTimer (h.counter now)) (h, [])

end Hpet

/-! ### The board -/

/-- The HPET on the I/O APIC. `held` are the pins that it has set high and not low again. --/
structure Board where
  hpet : Hpet
  ioapic : IoApic
  held : UInt32 → Bool

namespace Board

/-- A new board, at a time of the clock. --/
def reset (now : Int) : Board where
  hpet := Hpet.reset now
  ioapic := IoApic.reset
  held _ := false

/-- `deliver_timer_irq`, as far as the I/O APIC gets the interrupt; otherwise it goes to the PIC or nowhere. --/
def deliverTimerIrq (accept : Nat) (irq : Irq) (b : Board) : Board :=
  if irq.ioapicPin < 24 ∧ b.ioapic.irqUnmasked irq.ioapicPin then
    if irq.level then
      { b with ioapic := b.ioapic.setIrq irq.ioapicPin true accept, held := Function.update b.held irq.ioapicPin true }
    else { b with ioapic := b.ioapic.requestIrq irq.ioapicPin accept }
  else b

/-- `irq_line_` of the HPET with a low level. --/
def lower (b : Board) (pin : UInt32) : Board :=
  if pin < 24 then { b with ioapic := b.ioapic.setIrq pin false 0, held := Function.update b.held pin false } else b

inductive Event where
  | writeMmio (addr : UInt64) (data : List UInt8) (clock : Nat → Int)
  | poll (now : Int) (accept : Nat → Nat)
  | ioapic (e : IoApic.Event)

def write (addr : UInt64) (data : List UInt8) (clock : Nat → Int) (b : Board) : Board :=
  let (hpet, lowered) := b.hpet.writeMmio clock addr data
  lowered.foldl lower { b with hpet := hpet }

/-- The round of the timer thread. --/
def poll (now : Int) (accept : Nat → Nat) (b : Board) : Option Board :=
  (b.hpet.pollExpired now).map fun (hpet, irqs) =>
    irqs.zipIdx.foldl (fun b (irq, k) => b.deliverTimerIrq (accept k) irq) { b with hpet := hpet }

def step (b : Board) : Event → Option Board
  | .writeMmio addr data clock => some (b.write addr data clock)
  | .poll now accept => b.poll now accept
  | .ioapic e => (b.ioapic.step e).map fun ioapic => { b with ioapic := ioapic }

end Board
end NodeVmm.Whp
