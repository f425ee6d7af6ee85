import NodeVmm.IoApic

/-! External interrupts of the boot processor: the 8259A pair of `native/whp/devices/pic.cc`, the state machine of
    `native/whp/irq.cc`, and the functions of `native/whp/backend.cc` that raise a timer or UART interrupt. One
    vector and one flag hold what is raised and not delivered. Each event runs under `device_mu`. -/

namespace NodeVmm.Whp

/-! ### The PIC pair -/

structure Controller where
  vector : UInt8
  mask : UInt8
  initStep : Nat

namespace Controller

def writeCommand (value : UInt8) (c : Controller) : Controller :=
  if value &&& 0x10 != 0 then { c with initStep := 2, mask := 0xFF } else c

def writeData (value : UInt8) (c : Controller) : Controller :=
  if c.initStep = 2 then { c with vector := value, initStep := 3 }
  else if c.initStep = 3 then { c with initStep := 4 }
  else if c.initStep = 4 then { c with initStep := 0 }
  else { c with mask := value }

end Controller

structure Pic where
  master : Controller
  slave : Controller

namespace Pic

def reset : Pic := ⟨⟨0x20, 0xFE, 0⟩, ⟨0x28, 0xFF, 0⟩⟩

def writePort (port : Nat) (value : UInt8) (p : Pic) : Pic :=
  match port with
  | 0x20 => { p with master := p.master.writeCommand value }
  | 0x21 => { p with master := p.master.writeData value }
  | 0xA0 => { p with slave := p.slave.writeCommand value }
  | 0xA1 => { p with slave := p.slave.writeData value }
  | _ => p

/-- The guest has given the master another vector base than the one after a reset. --/
def isInitialized (p : Pic) : Bool := p.master.vector != 0x20

def irqUnmasked (p : Pic) (irq : UInt8) : Bool := irq < 8 && p.master.mask &&& (1 <<< irq) == 0

def vectorForIrq (p : Pic) (irq : UInt8) : UInt32 :=
  if irq < 8 then p.master.vector.toUInt32 + irq.toUInt32 else 0x20 + irq.toUInt32

end Pic

/-! ### Delivery -/

/-- `WhpVcpuIrqState`. --/
structure VcpuIrq where
  interruptable : Bool
  interruptFlag : Bool
  interruptionPending : Bool
  readyForPic : Bool
  windowRegistered : Bool
  extIntPending : Bool
  extIntVector : UInt32

inductive InjectDecision where
  | noPending
  | inject
  | armWindow
  deriving DecidableEq, Repr

/-- What an exit says about the guest: `UpdateVcpuFromExit` reads it. --/
structure ExitContext where
  interruptionPending : Bool
  interruptShadow : Bool
  rflagsIf : Bool

namespace VcpuIrq

def reset : VcpuIrq where
  interruptable := true
  interruptFlag := true
  interruptionPending := false
  readyForPic := false
  windowRegistered := false
  extIntPending := false
  extIntVector := 0

def updateFromExit (ctx : ExitContext) (v : VcpuIrq) : VcpuIrq :=
  { v with interruptionPending := ctx.interruptionPending, interruptable := !ctx.interruptShadow, interruptFlag := ctx.rflagsIf }

def evaluateInjectDecision (v : VcpuIrq) : InjectDecision :=
  if !v.extIntPending then .noPending
  else if v.readyForPic && v.interruptable && v.interruptFlag && !v.interruptionPending then .inject
  else .armWindow

/-- `ArmInterruptWindow` when `set_vp_registers` succeeds or not. --/
def armInterruptWindow (ok : Bool) (v : VcpuIrq) : VcpuIrq :=
  if v.windowRegistered then v else { v with windowRegistered := ok }

def disarmInterruptWindow (v : VcpuIrq) : VcpuIrq :=
  if v.windowRegistered then { v with windowRegistered := false } else v

/-- The vCPU can take an interrupt after this exit: a HLT exit, or the exit of the interrupt window. --/
def setReady (v : VcpuIrq) : VcpuIrq := { v with readyForPic := v.interruptable && v.interruptFlag }

end VcpuIrq

/-- The interrupt controllers and the boot processor. --/
structure ExtInt where
  ioapic : IoApic
  pic : Pic
  vcpu : VcpuIrq
  /-- The vectors that `SetPendingExtInt` has given to the processor, in order. --/
  delivered : List UInt32

namespace ExtInt

def reset : ExtInt where
  ioapic := .reset
  pic := .reset
  vcpu := .reset
  delivered := []

/-- Which calls of `set_vp_registers` succeed. --/
structure ApiOk where
  inject : Bool
  window : Bool

/-- `TryDeliverPendingExtInt`. --/
def tryDeliver (ok : ApiOk) (s : ExtInt) : ExtInt :=
  match s.vcpu.evaluateInjectDecision with
  | .noPending => s
  | .inject =>
    if ok.inject then
      { s with vcpu := { s.vcpu with extIntPending := false, readyForPic := false }.disarmInterruptWindow,
               delivered := s.delivered ++ [s.vcpu.extIntVector] }
    else { s with vcpu := s.vcpu.armInterruptWindow ok.window }
  | .armWindow => { s with vcpu := s.vcpu.armInterruptWindow ok.window }

/-- The stores of a producer: first the vector, then the flag. --/
def raise (vector : UInt32) (s : ExtInt) : ExtInt :=
  { s with vcpu := { s.vcpu with extIntVector := vector, extIntPending := true } }

/-- The IRQ raiser of the UART. --/
def raiseUart (irq : UInt32) (accept : Nat) (s : ExtInt) : ExtInt :=
  if s.ioapic.irqUnmasked irq then { s with ioapic := s.ioapic.requestIrq irq accept }
  else if !s.pic.isInitialized || !s.pic.irqUnmasked irq.toUInt8 then s
  else s.raise (s.pic.vectorForIrq irq.toUInt8)

/-- `deliver_timer_irq`, for the PIT and the HPET. --/
def deliverTimer (ioapicPin : UInt32) (picIrq : UInt8) (level : Bool) (accept : Nat) (s : ExtInt) : ExtInt :=
  if ioapicPin < 24 && s.ioapic.irqUnmasked ioapicPin then
    if level then { s with ioapic := s.ioapic.setIrq ioapicPin true accept }
    else { s with ioapic := s.ioapic.requestIrq ioapicPin accept }
  else if picIrq < 8 && s.pic.isInitialized && s.pic.irqUnmasked picIrq then s.raise (s.pic.vectorForIrq picIrq)
  else s

inductive Event where
  | uart (irq : UInt32) (accept : Nat)
  | timer (ioapicPin : UInt32) (picIrq : UInt8) (level : Bool) (accept : Nat)
  | pic (port : Nat) (value : UInt8)
  | ioapic (e : IoApic.Event)
  /-- The vCPU thread is about to run the guest. --/
  | preRun (ok : ApiOk) (accept : Nat)
  /-- The guest has run, and this is its exit. --/
  | exit (ctx : ExitContext)
  | halt (ok : ApiOk)
  | interruptWindow (ok : ApiOk) (accept : Nat)

/-- A HLT exit and an exit of the interrupt window look for a pending interrupt themselves. --/
def deliverNow (ok : ApiOk) (s : ExtInt) : ExtInt := if s.vcpu.extIntPending then s.tryDeliver ok else s

/-- The end of the steps that also look at the queue of the I/O APIC. --/
def drain (accept : Nat) (s : ExtInt) : ExtInt := { s with ioapic := s.ioapic.drainPending accept }

def step (s : ExtInt) : Event → Option ExtInt
  | .uart irq accept => some (s.raiseUart irq accept)
  | .timer pin picIrq level accept => some (s.deliverTimer pin picIrq level accept)
  | .pic port value => some { s with pic := s.pic.writePort port value }
  | .ioapic e => (s.ioapic.step e).map fun ioapic => { s with ioapic := ioapic }
  | .preRun ok accept => some ((s.tryDeliver ok).drain accept)
  | .exit ctx => some { s with vcpu := s.vcpu.updateFromExit ctx }
  | .halt ok => some (deliverNow ok { s with vcpu := s.vcpu.setReady })
  | .interruptWindow ok accept =>
    some ((deliverNow ok { s with vcpu := { s.vcpu.setReady with windowRegistered := false } }).drain accept)

end ExtInt
end NodeVmm.Whp
