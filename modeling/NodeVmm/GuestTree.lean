import NodeVmm.Fdt

/-! The device tree that the guest is to find: what is asked of it, and the tree that the builder of `native/hvf/backend.cc`
    writes down, node by node. --/

namespace NodeVmm.Hvf
open Words (ascii)
open DeviceTree (Node)

/-! ### What the guest relies on -/

structure GuestTree (ramBase ramSize cpus : Nat) (cmdline : Bytes) (t : Node) : Prop where
  bootargs : ∃ chosen, t.child (ascii "chosen") = some chosen ∧ chosen.text (ascii "bootargs") = some cmdline
  /-- The memory is one node. --/
  memory : ∃ memory, t.ofType (ascii "memory") = [memory] ∧ memory ∈ t.children ∧ t.reg memory = some (ramBase, ramSize)
  /-- The processors have the numbers below `cpus`, each one node. --/
  cpus : ∃ c, t.child (ascii "cpus") = some c ∧ c.children = t.ofType (ascii "cpu") ∧
    (t.ofType (ascii "cpu")).map c.reg = (List.range cpus).map fun i => some (i, 0)
  parents : ∀ n ∈ t.nodes, n.prop (ascii "interrupt-parent") ≠ none →
    ∃ phandle parent, n.cell (ascii "interrupt-parent") = some phandle ∧ t.withPhandle phandle = [parent]
  maps : ∀ n ∈ t.nodes, n.prop (ascii "interrupt-map") ≠ none → ∃ parents, t.interruptMap n = some parents

/-! ### The tree -/

namespace Tree

/-- What a length of 32 bits leaves of texts, each with its NUL. --/
def clipped (texts : List Bytes) : Bytes :=
  let data := texts.flatMap fun text => text ++ [0]
  data.take (data.length % 2 ^ 32)

def str (name : String) (texts : List Bytes) : Bytes × Bytes := (ascii name, clipped texts)

def u32 (name : String) (value : Nat) : Bytes × Bytes := (ascii name, Words.be 4 value)

def flag (name : String) : Bytes × Bytes := (ascii name, [])

def cells (name : String) (values : List Nat) : Bytes × Bytes := (ascii name, writeCells values)

def reg (base size : Nat) : Bytes × Bytes := cells "reg" [base >>> 32, base, size >>> 32, size]

def aliases : Node := .mk (ascii "aliases") [str "serial0" [ascii "/pl011@9000000"]] []

def chosen (cmdline : Bytes) (kaslrSeed : UInt64) (rngSeed : List.Vector UInt8 32) : Node :=
  .mk (ascii "chosen")
    [str "bootargs" [cmdline],
     str "stdout-path" [ascii "/pl011@9000000"],
     (ascii "kaslr-seed", Words.be 8 kaslrSeed.toNat),
     (ascii "rng-seed", rngSeed.toList)] []

def enableMethod (cpus : Nat) : List (Bytes × Bytes) :=
  if 1 < cpus then [str "enable-method" [ascii "psci"]] else []

def cpu (cpus i : Nat) : Node :=
  .mk (ascii "cpu@" ++ toHex i)
    ([str "device_type" [ascii "cpu"],
      str "compatible" [ascii "arm,arm-v8"],
      u32 "reg" i] ++ enableMethod cpus) []

def cpus (n : Nat) : Node :=
  .mk (ascii "cpus") [u32 "#address-cells" 1, u32 "#size-cells" 0]
    ((List.range n).map (cpu n))

def psci : Node :=
  .mk (ascii "psci")
    [str "compatible" [ascii "arm,psci-1.0", ascii "arm,psci-0.2", ascii "arm,psci"],
     str "method" [ascii "hvc"]] []

def memory (ramBase ramSize : Nat) : Node :=
  .mk (ascii "memory@" ++ toHex ramBase) [str "device_type" [ascii "memory"], reg ramBase ramSize] []

def intc (cpus : Nat) : Node :=
  .mk (ascii "intc@8000000")
    [u32 "phandle" 1,
     str "compatible" [ascii "arm,gic-v3"],
     u32 "#address-cells" 2,
     u32 "#size-cells" 2,
     u32 "#interrupt-cells" 3,
     flag "interrupt-controller",
     flag "ranges",
     cells "reg" [kGicDistBase >>> 32, kGicDistBase, 0, 0x10000, kGicRedistBase >>> 32, kGicRedistBase, 0,
       gicRedistributorBytes cpus]] []

def timer : Node :=
  .mk (ascii "timer")
    [str "compatible" [ascii "arm,armv8-timer", ascii "arm,armv7-timer"],
     cells "interrupts" ([13, 14, 11, 10].flatMap fun ppi => [1, ppi, 4]),
     flag "always-on"] []

def pl011 : Node :=
  .mk (ascii "pl011@9000000")
    [str "compatible" [ascii "arm,pl011", ascii "arm,primecell"],
     reg kUartBase 0x1000,
     cells "interrupts" [0, kUartSpi, 4],
     u32 "interrupt-parent" 1,
     str "clock-names" [ascii "uartclk", ascii "apb_pclk"],
     cells "clocks" [2, 3]] []

def clock (name : Bytes) (phandle : Nat) : Node :=
  .mk name
    [u32 "phandle" phandle,
     str "compatible" [ascii "fixed-clock"],
     u32 "#clock-cells" 0,
     u32 "clock-frequency" 24000000] []

def pl031 : Node :=
  .mk (ascii "pl031@9010000")
    [str "compatible" [ascii "arm,pl031", ascii "arm,primecell"],
     reg kPl031RtcBase 0x1000,
     cells "interrupts" [0, kRtcSpi, 4],
     u32 "interrupt-parent" 1,
     u32 "clocks" 3,
     str "clock-names" [ascii "apb_pclk"]] []

def pl061 : Node :=
  .mk (ascii "pl061@9030000")
    [str "compatible" [ascii "arm,pl061", ascii "arm,primecell"],
     reg kPl061GpioBase 0x1000,
     u32 "#gpio-cells" 2,
     flag "gpio-controller",
     cells "interrupts" [0, kGpioSpi, 4],
     u32 "interrupt-parent" 1,
     u32 "clocks" 3,
     str "clock-names" [ascii "apb_pclk"],
     u32 "phandle" 4] []

def poweroff : Node :=
  .mk (ascii "poweroff")
    [str "label" [ascii "GPIO Key Poweroff"],
     u32 "linux,code" 116,
     cells "gpios" [4, 3, 0]] []

def gpioKeys : Node := .mk (ascii "gpio-keys") [str "compatible" [ascii "gpio-keys"]] [poweroff]

def fwCfg : Node :=
  .mk (ascii "fw-cfg@9020000")
    [str "compatible" [ascii "qemu,fw-cfg-mmio"], reg kFwCfgBase 0x18, flag "dma-coherent"] []

def virtio (base spi : Nat) : Node :=
  .mk (ascii "virtio_mmio@" ++ toHex base)
    [str "compatible" [ascii "virtio,mmio"],
     reg base kVirtioMmioSize,
     u32 "interrupt-parent" 1,
     cells "interrupts" [0, spi, 1],
     flag "dma-coherent"] []

def virtioNodes : List Node :=
  (List.range kVirtioMmioCount).map fun slot =>
    virtio (kVirtioMmioBase + slot * kVirtioMmioStride) (kVirtioFirstSpi + slot)

def pcie : Node :=
  .mk (ascii "pcie@10000000")
    [str "compatible" [ascii "pci-host-ecam-generic"],
     str "device_type" [ascii "pci"],
     u32 "#address-cells" 3,
     u32 "#size-cells" 2,
     u32 "linux,pci-domain" 0,
     cells "bus-range" [0, pcieBusCount - 1],
     flag "dma-coherent",
     reg kPcieEcamBase kPcieEcamSize,
     (ascii "ranges", pcieRanges),
     u32 "#interrupt-cells" 1,
     (ascii "interrupt-map", pcieInterruptMap),
     cells "interrupt-map-mask" [0x1800, 0, 0, 0x7]] []

def exit : Node :=
  .mk (ascii "exit@b000000") [str "compatible" [ascii "node-vmm,exit"], reg kExitDevBase 0x1000] []

/-- The devices after the interrupt controller. --/
def devices : List Node :=
  [timer, pl011, clock (ascii "uartclk") 2, clock (ascii "apb-pclk") 3, pl031, pl061, gpioKeys, fwCfg] ++ virtioNodes ++
    [pcie, exit]

def rootProps : List (Bytes × Bytes) :=
  [u32 "#address-cells" 2,
   u32 "#size-cells" 2,
   str "compatible" [ascii "linux,dummy-virt"],
   str "model" [ascii "node-vmm-hvf"],
   u32 "interrupt-parent" 1,
   flag "dma-coherent"]

def root (ramBase ramSize n : Nat) (cmdline : Bytes) (kaslrSeed : UInt64) (rngSeed : List.Vector UInt8 32) : Node :=
  .mk [] rootProps
    ([aliases, chosen cmdline kaslrSeed rngSeed, cpus n, psci, memory ramBase ramSize, intc n] ++ devices)

end Tree
end NodeVmm.Hvf
