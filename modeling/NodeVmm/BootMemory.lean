import NodeVmm.BootParams
import NodeVmm.MpTable

/-! The guest's memory when its first processor starts: the part of `RunVm` of `native/kvm/backend.cc` and of
    `native/whp/backend.cc` that checks the configuration, loads the kernel and writes all tables. --/

namespace NodeVmm
open Checked

/-- What `RunVm` reads of the options for it. --/
structure BootConfig where
  kernelPath : String
  rootfsPath : String
  cmdline : List UInt8
  memMiB : UInt32
  cpus : UInt32
  attachedDisks : Nat
  tapName : String
  guestMac : String
  slirpEnabled : Bool
  /-- The rootfs has bytes; only WHP asks. --/
  rootfsBacked : Bool

def kKernelCmdlineMax : Nat := 2048
def kMaxVcpus : UInt32 := 64

namespace BootConfig

def memBytes (c : BootConfig) : Nat := c.memMiB.toNat * 1024 * 1024

def diskCount (c : BootConfig) : UInt32 := UInt32.ofNat (c.attachedDisks + 1)

/-- Memory as the host gives it. --/
def zeroed (c : BootConfig) : ByteStore := ⟨c.memBytes, fun _ => 0⟩

end BootConfig

namespace Kvm

def networkEnabled (c : BootConfig) : Bool := !c.tapName.isEmpty || c.slirpEnabled

def checkConfig (c : BootConfig) : Call Unit := do
  check (c.attachedDisks < Acpi.maxIoApicPins) "too many attached disks"
  lift (Acpi.checkVirtioMmioDeviceCount (c.diskCount + if networkEnabled c then 1 else 0).toNat)
  check (!c.kernelPath.isEmpty) "kernelPath is required"
  check (!c.rootfsPath.isEmpty) "rootfsPath is required"
  check (!c.cmdline.isEmpty) "cmdline is required"
  check (1 ≤ c.cpus ∧ c.cpus ≤ kMaxVcpus) "cpus must be between 1 and 64"
  check (!(c.slirpEnabled && !c.tapName.isEmpty)) "netSlirpEnabled cannot be combined with netTapName"
  check (!networkEnabled c || !c.guestMac.isEmpty) "netGuestMac is required when networking is enabled"
  check (c.cmdline.length + 1 ≤ kKernelCmdlineMax) "kernel cmdline is too long"
  check (0 < c.memBytes ∧ c.memBytes ≤ 2 ^ 32) "invalid guest memory size"

/-- Behind the loading of the kernel. --/
def setupMemory (c : BootConfig) (mem : ByteStore) : Call ByteStore := do
  let (rsdpAddr, mem) ← Acpi.Kvm.createAcpiTables mem (networkEnabled c) c.cpus.toNat c.diskCount
  let mem ← Backend.kvm.writeBootParams mem c.memBytes c.cmdline
  let mem ← Backend.kvm.putWord mem (kBootParamsAddr + 0x70) 8 rsdpAddr
  let mem ← Mp.Kvm.writeMpTable mem c.cpus.toNat
  Backend.kvm.setupLongMode mem

def bootMemory (c : BootConfig) (file : ByteStore) : Call (KernelInfo × ByteStore) := do
  checkConfig c
  let (kernel, mem) ← loadElfKernel c.zeroed file
  let mem ← setupMemory c mem
  return (kernel, mem)

end Kvm

namespace Whp

def checkConfig (c : BootConfig) : Call Unit := do
  check (c.attachedDisks < Acpi.maxIoApicPins) "too many attached disks"
  lift (Acpi.checkVirtioMmioDeviceCount (c.diskCount + 1 + 1).toNat)
  check (!c.kernelPath.isEmpty) "kernelPath is required"
  check (!c.rootfsPath.isEmpty) "rootfsPath is required"
  check (!c.cmdline.isEmpty) "cmdline is required"
  check (0 < c.memMiB) "memMiB must be greater than zero"
  check (1 ≤ c.cpus ∧ c.cpus ≤ kMaxVcpus) "cpus must be between 1 and 64"
  check c.tapName.isEmpty "Windows WHP backend currently supports --net none and --net slirp only"
  check (c.cmdline.length + 1 ≤ kKernelCmdlineMax) "kernel cmdline is too long"
  check (c.memBytes ≤ 2 ^ 32) "invalid guest memory size"

/-- `SetupWhpBootstrapVcpu` for each processor; behind a rootfs only the first one gets its tables. --/
def setupVcpus (c : BootConfig) (mem : ByteStore) : Call ByteStore :=
  (List.range c.cpus.toNat).foldlM (fun mem i =>
    if c.rootfsBacked && i != 0 then return mem else Backend.whp.setupLongMode mem) mem

def setupMemory (c : BootConfig) (mem : ByteStore) : Call ByteStore := do
  let (rsdpAddr, mem) ← Acpi.Whp.createAcpiTables mem c.slirpEnabled c.cpus.toNat c.diskCount
  let mem ← Backend.whp.writeBootParams mem c.memBytes c.cmdline
  lift (Backend.whp.checkRange mem.size (kBootParamsAddr + 0x70) 8 "guest memory")
  let mem ← Backend.whp.putWord mem (kBootParamsAddr + 0x70) 8 rsdpAddr
  let mem ← Mp.Whp.writeMpTable mem c.cpus.toNat Acpi.Whp.kPitIoApicPin
  setupVcpus c mem

def bootMemory (c : BootConfig) (file : ByteStore) : Call (KernelInfo × ByteStore) := do
  checkConfig c
  let (kernel, mem) ← loadElfKernel c.kernelPath c.zeroed file
  let mem ← setupMemory c mem
  return (kernel, mem)

end Whp
end NodeVmm
