import Mathlib.Data.Vector.Defs
import NodeVmm.Lib.DeviceTree

/-! The device tree of `native/hvf/backend.cc`: the builder, which writes the structure block and the strings block side by
    side and fills in the header last, the nodes it writes, and the checks of `RunVm` around it. --/

namespace NodeVmm.Hvf
open Words (ascii)

abbrev Bytes := List UInt8

/-! ### The layout of the machine -/

def kGicDistBase : Nat := 0x08000000
def kGicRedistBase : Nat := 0x080A0000
def kUartBase : Nat := 0x09000000
def kPl031RtcBase : Nat := 0x09010000
def kFwCfgBase : Nat := 0x09020000
def kPl061GpioBase : Nat := 0x09030000
def kVirtioMmioBase : Nat := 0x0A000000
def kVirtioMmioSize : Nat := 0x200
def kVirtioMmioStride : Nat := 0x200
def kVirtioMmioCount : Nat := 32
def kExitDevBase : Nat := 0x0B000000
def kPcieMmioBase : Nat := 0x10000000
def kPcieMmioSize : Nat := 0x2EFF0000
def kPciePioBase : Nat := 0x3EFF0000
def kPciePioSize : Nat := 0x00010000
def kPcieEcamBase : Nat := 0x3F000000
def kPcieEcamSize : Nat := 0x01000000
def kRamBase : Nat := 0x40000000
def kKernelOffset : Nat := 0x00400000
def kGicRedistributorBytesPerCpu : Nat := 0x20000

def kUartSpi : Nat := 1
def kRtcSpi : Nat := 2
def kPcieFirstSpi : Nat := 3
def kPcieIntxCount : Nat := 4
def kGpioSpi : Nat := 7
def kVirtioFirstSpi : Nat := 16

def kPciRangeIoPort : Nat := 0x01000000
def kPciRangeMmio32 : Nat := 0x02000000

def pcieBusCount : Nat := kPcieEcamSize / 0x100000

def gicRedistributorBytes (cpus : Nat) : Nat := kGicRedistributorBytesPerCpu * cpus

/-! ### The builder -/

def FDT_BEGIN_NODE : Nat := 1
def FDT_END_NODE : Nat := 2
def FDT_PROP : Nat := 3
def FDT_END : Nat := 9

structure FdtBuilder where
  buf : Bytes
  strBuf : Bytes

/-- A buffer of words, each written by `WriteU32BE`. --/
def writeCells (cells : List Nat) : Bytes := cells.flatMap (Words.be 4)

/-- `WriteU32BE` into a buffer. --/
def writeU32BE (buf : Bytes) (off v : Nat) : Bytes := buf.take off ++ Words.be 4 v ++ buf.drop (off + 4)

/-- Zeros up to the next multiple of four. --/
def alignBuf (buf : Bytes) : Bytes := if buf.length % 4 ≠ 0 then alignBuf (buf ++ [0]) else buf
termination_by (4 - buf.length % 4) % 4
decreasing_by
  simp only [List.length_append, List.length_singleton]
  omega

def toHex (v : Nat) : Bytes := (Nat.toDigits 16 v).map fun c => UInt8.ofNat c.toNat

def pcieRanges : Bytes := writeCells [kPciRangeIoPort, 0, 0, kPciePioBase >>> 32, kPciePioBase, kPciePioSize >>> 32, kPciePioSize,
  kPciRangeMmio32, kPcieMmioBase >>> 32, kPcieMmioBase, kPcieMmioBase >>> 32, kPcieMmioBase, kPcieMmioSize >>> 32,
  kPcieMmioSize]

/-- The interrupt pins of the four slots. --/
def pcieInterruptMap : Bytes :=
  writeCells ((List.range 4).flatMap fun slot => (List.range kPcieIntxCount).flatMap fun pin =>
    [slot <<< 11, 0, 0, pin + 1, 1, 0, 0, 0, kPcieFirstSpi + (pin + slot) % kPcieIntxCount, 4])

namespace FdtBuilder

def appendU32 (b : FdtBuilder) (v : Nat) : FdtBuilder := { b with buf := b.buf ++ Words.be 4 v }

def appendStr (b : FdtBuilder) (s : Bytes) : FdtBuilder := { b with buf := b.buf ++ s ++ [0] }

def align4 (b : FdtBuilder) : FdtBuilder := { b with buf := alignBuf b.buf }

/-- The name goes to the end of the strings block, also if it is there already. --/
def addString (b : FdtBuilder) (s : Bytes) : Nat × FdtBuilder :=
  (b.strBuf.length % 2 ^ 32, { b with strBuf := b.strBuf ++ s ++ [0] })

def appendPropRaw (b : FdtBuilder) (name data : Bytes) (len : Nat) : FdtBuilder :=
  let b := (b.appendU32 FDT_PROP).appendU32 len
  let (off, b) := b.addString name
  let b := b.appendU32 off
  let b := if 0 < len then { b with buf := b.buf ++ data.take len } else b
  b.align4

def appendPropU32 (b : FdtBuilder) (name : Bytes) (value : Nat) : FdtBuilder := b.appendPropRaw name (Words.be 4 value) 4

def appendPropU64 (b : FdtBuilder) (name : Bytes) (value : Nat) : FdtBuilder := b.appendPropRaw name (Words.be 8 value) 8

/-- The length is cast to 32 bits. --/
def appendPropStr (b : FdtBuilder) (name value : Bytes) : FdtBuilder :=
  b.appendPropRaw name (value ++ [0]) ((value.length + 1) % 2 ^ 32)

def appendPropStringList (b : FdtBuilder) (name : Bytes) (values : List Bytes) : FdtBuilder :=
  let data := values.flatMap fun value => value ++ [0]
  b.appendPropRaw name data (data.length % 2 ^ 32)

def appendPropFlag (b : FdtBuilder) (name : Bytes) : FdtBuilder := b.appendPropRaw name [] 0

def appendPropReg (b : FdtBuilder) (name : Bytes) (base size : Nat) : FdtBuilder :=
  b.appendPropRaw name (writeCells [base >>> 32, base, size >>> 32, size]) 16

def beginNode (b : FdtBuilder) (name : Bytes) : FdtBuilder := ((b.appendU32 FDT_BEGIN_NODE).appendStr name).align4

def endNode (b : FdtBuilder) : FdtBuilder := b.appendU32 FDT_END_NODE

/-! ### The nodes -/

def appendAliases (b : FdtBuilder) : FdtBuilder :=
  ((b.beginNode (ascii "aliases")).appendPropStr (ascii "serial0") (ascii "/pl011@9000000")).endNode

def appendChosen (cmdline : Bytes) (kaslrSeed : UInt64) (rngSeed : List.Vector UInt8 32) (b : FdtBuilder) : FdtBuilder :=
  let b := b.beginNode (ascii "chosen")
  let b := b.appendPropStr (ascii "bootargs") cmdline
  let b := b.appendPropStr (ascii "stdout-path") (ascii "/pl011@9000000")
  let b := b.appendPropU64 (ascii "kaslr-seed") kaslrSeed.toNat
  let b := b.appendPropRaw (ascii "rng-seed") rngSeed.toList 32
  b.endNode

def appendCpu (cpus i : Nat) (b : FdtBuilder) : FdtBuilder :=
  let b := b.beginNode (ascii "cpu@" ++ toHex i)
  let b := b.appendPropStr (ascii "device_type") (ascii "cpu")
  let b := b.appendPropStr (ascii "compatible") (ascii "arm,arm-v8")
  let b := b.appendPropU32 (ascii "reg") i
  let b := if 1 < cpus then b.appendPropStr (ascii "enable-method") (ascii "psci") else b
  b.endNode

def appendCpus (cpus : Nat) (b : FdtBuilder) : FdtBuilder :=
  let b := b.beginNode (ascii "cpus")
  let b := b.appendPropU32 (ascii "#address-cells") 1
  let b := b.appendPropU32 (ascii "#size-cells") 0
  let b := (List.range cpus).foldl (fun b i => appendCpu cpus i b) b
  b.endNode

def appendPsci (b : FdtBuilder) : FdtBuilder :=
  let b := b.beginNode (ascii "psci")
  let b := b.appendPropStringList (ascii "compatible") [ascii "arm,psci-1.0", ascii "arm,psci-0.2", ascii "arm,psci"]
  let b := b.appendPropStr (ascii "method") (ascii "hvc")
  b.endNode

def appendMemory (ramBase ramSize : Nat) (b : FdtBuilder) : FdtBuilder :=
  let b := b.beginNode (ascii "memory@" ++ toHex ramBase)
  let b := b.appendPropStr (ascii "device_type") (ascii "memory")
  let b := b.appendPropReg (ascii "reg") ramBase ramSize
  b.endNode

def appendIntc (cpus : Nat) (b : FdtBuilder) : FdtBuilder :=
  let b := b.beginNode (ascii "intc@8000000")
  let b := b.appendPropU32 (ascii "phandle") 1
  let b := b.appendPropStr (ascii "compatible") (ascii "arm,gic-v3")
  let b := b.appendPropU32 (ascii "#address-cells") 2
  let b := b.appendPropU32 (ascii "#size-cells") 2
  let b := b.appendPropU32 (ascii "#interrupt-cells") 3
  let b := b.appendPropFlag (ascii "interrupt-controller")
  let b := b.appendPropFlag (ascii "ranges")
  let regbuf := writeCells [kGicDistBase >>> 32, kGicDistBase, 0, 0x10000, kGicRedistBase >>> 32, kGicRedistBase, 0,
    gicRedistributorBytes cpus]
  let b := b.appendPropRaw (ascii "reg") regbuf 32
  b.endNode

def appendTimer (b : FdtBuilder) : FdtBuilder :=
  let b := b.beginNode (ascii "timer")
  let b := b.appendPropStringList (ascii "compatible") [ascii "arm,armv8-timer", ascii "arm,armv7-timer"]
  let irq := writeCells ([13, 14, 11, 10].flatMap fun ppi => [1, ppi, 4])
  let b := b.appendPropRaw (ascii "interrupts") irq 48
  let b := b.appendPropFlag (ascii "always-on")
  b.endNode

def appendPl011 (b : FdtBuilder) : FdtBuilder :=
  let b := b.beginNode (ascii "pl011@9000000")
  let b := b.appendPropStringList (ascii "compatible") [ascii "arm,pl011", ascii "arm,primecell"]
  let b := b.appendPropReg (ascii "reg") kUartBase 0x1000
  let b := b.appendPropRaw (ascii "interrupts") (writeCells [0, kUartSpi, 4]) 12
  let b := b.appendPropU32 (ascii "interrupt-parent") 1
  let b := b.appendPropStringList (ascii "clock-names") [ascii "uartclk", ascii "apb_pclk"]
  let b := b.appendPropRaw (ascii "clocks") (writeCells [2, 3]) 8
  b.endNode

/-- A clock of the UART. --/
def appendClock (name : Bytes) (phandle : Nat) (b : FdtBuilder) : FdtBuilder :=
  let b := b.beginNode name
  let b := b.appendPropU32 (ascii "phandle") phandle
  let b := b.appendPropStr (ascii "compatible") (ascii "fixed-clock")
  let b := b.appendPropU32 (ascii "#clock-cells") 0
  let b := b.appendPropU32 (ascii "clock-frequency") 24000000
  b.endNode

def appendUartclk (b : FdtBuilder) : FdtBuilder := appendClock (ascii "uartclk") 2 b

def appendApbPclk (b : FdtBuilder) : FdtBuilder := appendClock (ascii "apb-pclk") 3 b

def appendPl031 (b : FdtBuilder) : FdtBuilder :=
  let b := b.beginNode (ascii "pl031@9010000")
  let b := b.appendPropStringList (ascii "compatible") [ascii "arm,pl031", ascii "arm,primecell"]
  let b := b.appendPropReg (ascii "reg") kPl031RtcBase 0x1000
  let b := b.appendPropRaw (ascii "interrupts") (writeCells [0, kRtcSpi, 4]) 12
  let b := b.appendPropU32 (ascii "interrupt-parent") 1
  let b := b.appendPropU32 (ascii "clocks") 3
  let b := b.appendPropStr (ascii "clock-names") (ascii "apb_pclk")
  b.endNode

def appendPl061 (b : FdtBuilder) : FdtBuilder :=
  let b := b.beginNode (ascii "pl061@9030000")
  let b := b.appendPropStringList (ascii "compatible") [ascii "arm,pl061", ascii "arm,primecell"]
  let b := b.appendPropReg (ascii "reg") kPl061GpioBase 0x1000
  let b := b.appendPropU32 (ascii "#gpio-cells") 2
  let b := b.appendPropFlag (ascii "gpio-controller")
  let b := b.appendPropRaw (ascii "interrupts") (writeCells [0, kGpioSpi, 4]) 12
  let b := b.appendPropU32 (ascii "interrupt-parent") 1
  let b := b.appendPropU32 (ascii "clocks") 3
  let b := b.appendPropStr (ascii "clock-names") (ascii "apb_pclk")
  let b := b.appendPropU32 (ascii "phandle") 4
  b.endNode

def appendPoweroff (b : FdtBuilder) : FdtBuilder :=
  let b := b.beginNode (ascii "poweroff")
  let b := b.appendPropStr (ascii "label") (ascii "GPIO Key Poweroff")
  let b := b.appendPropU32 (ascii "linux,code") 116
  let b := b.appendPropRaw (ascii "gpios") (writeCells [4, 3, 0]) 12
  b.endNode

def appendGpioKeys (b : FdtBuilder) : FdtBuilder :=
  let b := b.beginNode (ascii "gpio-keys")
  let b := b.appendPropStr (ascii "compatible") (ascii "gpio-keys")
  let b := b.appendPoweroff
  b.endNode

def appendFwCfg (b : FdtBuilder) : FdtBuilder :=
  let b := b.beginNode (ascii "fw-cfg@9020000")
  let b := b.appendPropStr (ascii "compatible") (ascii "qemu,fw-cfg-mmio")
  let b := b.appendPropReg (ascii "reg") kFwCfgBase 0x18
  let b := b.appendPropFlag (ascii "dma-coherent")
  b.endNode

def appendVirtioNode (base spi : Nat) (b : FdtBuilder) : FdtBuilder :=
  let b := b.beginNode (ascii "virtio_mmio@" ++ toHex base)
  let b := b.appendPropStr (ascii "compatible") (ascii "virtio,mmio")
  let b := b.appendPropReg (ascii "reg") base kVirtioMmioSize
  let b := b.appendPropU32 (ascii "interrupt-parent") 1
  let b := b.appendPropRaw (ascii "interrupts") (writeCells [0, spi, 1]) 12
  let b := b.appendPropFlag (ascii "dma-coherent")
  b.endNode

def appendVirtioNodes (b : FdtBuilder) : FdtBuilder :=
  (List.range kVirtioMmioCount).foldl
    (fun b slot => appendVirtioNode (kVirtioMmioBase + slot * kVirtioMmioStride) (kVirtioFirstSpi + slot) b) b

def appendPcie (b : FdtBuilder) : FdtBuilder :=
  let b := b.beginNode (ascii "pcie@10000000")
  let b := b.appendPropStr (ascii "compatible") (ascii "pci-host-ecam-generic")
  let b := b.appendPropStr (ascii "device_type") (ascii "pci")
  let b := b.appendPropU32 (ascii "#address-cells") 3
  let b := b.appendPropU32 (ascii "#size-cells") 2
  let b := b.appendPropU32 (ascii "linux,pci-domain") 0
  let b := b.appendPropRaw (ascii "bus-range") (writeCells [0, pcieBusCount - 1]) 8
  let b := b.appendPropFlag (ascii "dma-coherent")
  let b := b.appendPropReg (ascii "reg") kPcieEcamBase kPcieEcamSize
  let b := b.appendPropRaw (ascii "ranges") pcieRanges 56
  let b := b.appendPropU32 (ascii "#interrupt-cells") 1
  let b := b.appendPropRaw (ascii "interrupt-map") pcieInterruptMap (4 * kPcieIntxCount * 10 * 4)
  let b := b.appendPropRaw (ascii "interrupt-map-mask") (writeCells [0x1800, 0, 0, 0x7]) 16
  b.endNode

def appendExit (b : FdtBuilder) : FdtBuilder :=
  let b := b.beginNode (ascii "exit@b000000")
  let b := b.appendPropStr (ascii "compatible") (ascii "node-vmm,exit")
  let b := b.appendPropReg (ascii "reg") kExitDevBase 0x1000
  b.endNode

/-! ### The blob -/

def kHeaderSize : Nat := 40
def kReserveMapSize : Nat := 16
def kStructOffset : Nat := kHeaderSize + kReserveMapSize

def fillHeader (h : Bytes) (total stringsOff stringsSize structSize : Nat) : Bytes :=
  let h := writeU32BE h 0 0xD00DFEED
  let h := writeU32BE h 4 total
  let h := writeU32BE h 8 kStructOffset
  let h := writeU32BE h 12 stringsOff
  let h := writeU32BE h 16 kHeaderSize
  let h := writeU32BE h 20 17
  let h := writeU32BE h 24 16
  let h := writeU32BE h 28 0
  let h := writeU32BE h 32 stringsSize
  writeU32BE h 36 structSize

/-- The strings go behind the structure block, and the header in front of it. --/
def finish (b : FdtBuilder) : Bytes :=
  let structSize := b.buf.length - kStructOffset
  let stringsOff := b.buf.length
  let buf := alignBuf (b.buf ++ b.strBuf)
  fillHeader buf buf.length stringsOff b.strBuf.length structSize

/-- The seeds are what `RandomU64` and `FillRandom` give. --/
def build (ramBase ramSize cpus : Nat) (cmdline : Bytes) (_hasNet : Bool) (kaslrSeed : UInt64)
    (rngSeed : List.Vector UInt8 32) : Bytes :=
  let b : FdtBuilder := { buf := List.replicate kStructOffset 0, strBuf := [] }
  let b := b.beginNode []
  let b := b.appendPropU32 (ascii "#address-cells") 2
  let b := b.appendPropU32 (ascii "#size-cells") 2
  let b := b.appendPropStr (ascii "compatible") (ascii "linux,dummy-virt")
  let b := b.appendPropStr (ascii "model") (ascii "node-vmm-hvf")
  let b := b.appendPropU32 (ascii "interrupt-parent") 1
  let b := b.appendPropFlag (ascii "dma-coherent")
  let b := b.appendAliases
  let b := b.appendChosen cmdline kaslrSeed rngSeed
  let b := b.appendCpus cpus
  let b := b.appendPsci
  let b := b.appendMemory ramBase ramSize
  let b := b.appendIntc cpus
  let b := b.appendTimer
  let b := b.appendPl011
  let b := b.appendUartclk
  let b := b.appendApbPclk
  let b := b.appendPl031
  let b := b.appendPl061
  let b := b.appendGpioKeys
  let b := b.appendFwCfg
  let b := b.appendVirtioNodes
  let b := b.appendPcie
  let b := b.appendExit
  let b := b.endNode
  let b := b.appendU32 FDT_END
  b.finish

end FdtBuilder

/-! ### What `RunVm` admits -/

/-- A string of JavaScript as UTF-8: it has at most 2^29 - 24 units, each of at most three bytes. --/
structure JsText where
  bytes : Bytes
  small : bytes.length ≤ 3 * (2 ^ 29 - 24)

structure RunConfig where
  cmdline : JsText
  memMiB : UInt32
  cpus : UInt32
  attachedDisks : Nat
  useNet : Bool

namespace RunConfig

def memBytes (c : RunConfig) : Nat := c.memMiB.toNat * 1024 * 1024

def transportCount (c : RunConfig) : Nat := 1 + c.attachedDisks + if c.useNet then 1 else 0

/-- The blob that is put in the memory of the guest; the region of the redistributors is as large as the framework says. --/
def guestDtb (c : RunConfig) (redistRegionSize : Nat) (kaslrSeed : UInt64) (rngSeed : List.Vector UInt8 32) :
    Except String Bytes := do
  if c.cpus < 1 ∨ 64 < c.cpus then throw "HVF backend supports 1-64 vCPUs"
  if kVirtioMmioCount < c.transportCount then
    throw s!"HVF backend supports at most {kVirtioMmioCount} virtio-mmio transports for disks and network"
  if redistRegionSize < gicRedistributorBytes c.cpus.toNat then
    throw s!"HVF GIC redistributor region is too small for {c.cpus} vCPUs"
  let dtb := FdtBuilder.build kRamBase c.memBytes c.cpus.toNat c.cmdline.bytes c.useNet kaslrSeed rngSeed
  if dtb.length < kKernelOffset then pure dtb else throw "DTB too large"

end RunConfig
end NodeVmm.Hvf
