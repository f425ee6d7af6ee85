import NodeVmm.VirtioMmio
import NodeVmm.WhpNet

/-! The registers of the virtio-net device of `native/whp/backend.cc`: negotiation, the two queues and reset. Its
    offsets are those of `Hvf.Reg`; `write_mmio` takes words of four bytes only and drops a write to another offset. -/

namespace NodeVmm.Whp
open Hvf (Reg setLow setHigh)
open VirtioNet (netHdrLen)

/-- `Queue{}`. --/
def newQueue : Queue := ⟨false, queueSize, Nat.le_refl _, 0, 0, 0, 0, 0⟩

namespace Queue

/-- What the case of a size, ready or address register makes of the selected queue. --/
def write (reg : Reg) (value : UInt32) (q : Queue) : Queue :=
  match reg with
  | .queueNum => { q with num := min value.toNat queueSize, num_le := Nat.min_le_right .. }
  | .queueReady => { q with ready := value != 0 }
  | .descLow => { q with descAddr := setLow q.descAddr value }
  | .descHigh => { q with descAddr := setHigh q.descAddr value }
  | .driverLow => { q with driverAddr := setLow q.driverAddr value }
  | .driverHigh => { q with driverAddr := setHigh q.driverAddr value }
  | .deviceLow => { q with deviceAddr := setLow q.deviceAddr value }
  | .deviceHigh => { q with deviceAddr := setHigh q.deviceAddr value }
  | _ => q

end Queue

structure NetRegs where
  deviceFeaturesSel : UInt32
  driverFeaturesSel : UInt32
  driverFeatures : UInt64
  status : UInt32
  interruptStatus : UInt32
  queueSel : UInt32
  driverOkAnnounced : Bool
  /-- RX and TX. --/
  queues : Fin 2 → Queue

/-- `VirtioNetDeviceFeatures`: `kVirtioNetFMac`, `kVirtioNetFStatus` and `kVirtioFVersion1`. --/
def netDeviceFeatures : UInt64 := 0x20 ||| 0x10000 ||| 0x100000000

/-- `kVirtioStatusDriverOk`. --/
def statusDriverOk : UInt32 := 0x04

/-- `kVirtioStatusFeaturesOk`. --/
def statusFeaturesOk : UInt32 := 0x08

/-- `kVirtioStatusFailed`. --/
def statusFailed : UInt32 := 0x80

/-- Every one of the features is one that the device offers. --/
def offered (features : UInt64) : Bool := features &&& ~~~netDeviceFeatures == 0

namespace NetRegs

def powerOn : NetRegs := ⟨0, 0, 0, 0, 0, 0, false, fun _ => newQueue⟩

/-- The status shows FEATURES_OK. --/
def featuresOk (s : NetRegs) : Bool := s.status &&& statusFeaturesOk != 0

/-- `virtio_net_hdr_len_locked`. --/
def hdrLen (s : NetRegs) : Nat := netHdrLen s.driverFeatures

/-- The registers of a queue are about the one that `queue_sel_` selects, if there is one. --/
def onSelected (f : Queue → Queue) (s : NetRegs) : NetRegs :=
  if h : s.queueSel.toNat < 2 then
    { s with queues := Function.update s.queues ⟨s.queueSel.toNat, h⟩ (f (s.queues ⟨s.queueSel.toNat, h⟩)) }
  else s

/-- FEATURES_OK is refused when the driver accepted what is not offered. --/
def checkFeatures (s : NetRegs) : NetRegs :=
  if offered s.driverFeatures then s else { s with status := s.status &&& ~~~statusFeaturesOk }

/-- `update_status_locked`. --/
def updateStatus (new : UInt32) (s : NetRegs) : NetRegs :=
  let t := { s with status := new }
  if new = 0 then { t with queues := fun _ => newQueue, interruptStatus := 0, driverOkAnnounced := false }
  else if new &&& statusFailed ≠ 0 then { t with queues := fun i => { s.queues i with ready := false } }
  else
    let t := if new &&& statusFeaturesOk ≠ 0 ∧ s.featuresOk = false then t.checkFeatures else t
    if new &&& statusDriverOk ≠ 0 ∧ s.status &&& statusDriverOk = 0 then { t with driverOkAnnounced := true } else t

/-- What a write of one half makes of the features that the driver accepted. --/
def takeFeatures (value : UInt32) (s : NetRegs) : UInt64 :=
  if s.driverFeaturesSel = 0 then setLow s.driverFeatures value else setHigh s.driverFeatures value

/-- The cases of `write_reg`. What a notify goes on to do is `work` on a queue. --/
def write (reg : Reg) (value : UInt32) (s : NetRegs) : NetRegs :=
  match reg with
  | .devFeaturesSel => { s with deviceFeaturesSel := value }
  | .drvFeatures => { s with driverFeatures := s.takeFeatures value }
  | .drvFeaturesSel => { s with driverFeaturesSel := value }
  | .queueSel => { s with queueSel := value }
  | .queueNotify => s
  | .interruptAck => { s with interruptStatus := s.interruptStatus &&& ~~~value }
  | .status => s.updateStatus value
  | reg => s.onSelected (Queue.write reg value)

/-- What a notify or a frame that comes in does to the registers: it moves the indices of a queue, and may raise the
    interrupt of a used buffer. --/
def work (i : Fin 2) (avail used : UInt16) (raised : Bool) (s : NetRegs) : NetRegs :=
  { s with
    queues := Function.update s.queues i { s.queues i with lastAvailIdx := avail, lastUsedIdx := used }
    interruptStatus := if raised then s.interruptStatus ||| 1 else s.interruptStatus }

end NetRegs

inductive NetEvent where
  | write (reg : Reg) (value : UInt32)
  | work (i : Fin 2) (avail used : UInt16) (raised : Bool)
  deriving DecidableEq

namespace NetEvent

/-- A write of 0 to Status. --/
def reset : NetEvent := .write .status 0

def apply (s : NetRegs) : NetEvent → NetRegs
  | .write reg value => s.write reg value
  | .work i avail used raised => s.work i avail used raised

/-- The registers after the events, from power-on. --/
def after (es : List NetEvent) : NetRegs := es.foldl apply .powerOn

end NetEvent
end NodeVmm.Whp
