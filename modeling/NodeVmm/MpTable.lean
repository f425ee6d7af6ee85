import NodeVmm.AcpiTables

/-! The table of the old multiprocessor specification: `WriteMpTable` of `native/kvm/backend.cc` and of
    `native/whp/boot_params.cc`. --/

namespace NodeVmm.Mp
open Checked
open Acpi (zeros not64)
open Words (ascii)
open Fields (putAt)

abbrev Bytes := List UInt8

def baseRamEnd : Nat := 0xA0000
def apicDefaultBase : Nat := 0xFEE00000
def ioApicBase : Nat := 0xFEC00000
def apicVersion : UInt8 := 0x14
def maxLegacyGsi : Nat := 23

def checksum (data : Bytes) (start len : Nat) : UInt8 := ~~~Acpi.tableSum ((data.drop start).take len) + 1

/-! ### The entries -/

def processorEntry (cpu : Nat) : Bytes :=
  [0, UInt8.ofNat cpu, apicVersion, 0x01 ||| if cpu = 0 then 0x02 else 0] ++ Words.le 4 0x600 ++
    Words.le 4 (0x200 ||| 0x001) ++ zeros 8

def busEntry : Bytes := [1, 0] ++ ascii "ISA   "

def ioApicEntry (ioApicId : UInt8) : Bytes := [2, ioApicId, apicVersion, 1] ++ Words.le 4 ioApicBase

/-- The interrupt `irq` of the old bus at a pin. --/
def interruptEntry (ioApicId : UInt8) (irq pin : Nat) : Bytes := [3, 0, 0, 0, 0, UInt8.ofNat irq, ioApicId, UInt8.ofNat pin]

def extintEntry : Bytes := [4, 3, 0, 0, 0, 0, 0, 0]

def nmiEntry : Bytes := [4, 1, 0, 0, 0, 0, 0xFF, 1]

/-- All entries; `pin` says where each interrupt goes. --/
def entries (cpus : Nat) (pin : Nat → Nat) : List Bytes :=
  let ioApicId := UInt8.ofNat (cpus + 1)
  (List.range cpus).map processorEntry ++ [busEntry, ioApicEntry ioApicId] ++
    (List.range (maxLegacyGsi + 1)).map (fun irq => interruptEntry ioApicId irq (pin irq)) ++ [extintEntry, nmiEntry]

/-! ### The table -/

def tableSize (cpus : Nat) : Nat := 16 + 44 + 20 * cpus + 8 + 8 + 8 * (maxLegacyGsi + 1) + 8 * 2

def tableStart (cpus : Nat) : Nat := (baseRamEnd - tableSize cpus) &&& not64 0xF

def buildMpTable (cpus : Nat) (pin : Nat → Nat) : Bytes :=
  let buf := zeros (tableSize cpus)
  let buf := putAt buf 0 (ascii "_MP_")
  let buf := putAt buf 4 (Words.le 4 (tableStart cpus + 16))
  let buf := putAt buf 8 [1]
  let buf := putAt buf 9 [4]
  let buf := putAt buf 10 [checksum buf 0 16]
  let all := entries cpus pin
  let content := all.flatten
  let buf := putAt buf 16 (ascii "PCMP")
  let buf := putAt buf 20 (Words.le 2 (44 + content.length))
  let buf := putAt buf 22 [4]
  let buf := putAt buf 24 (ascii "FC      ")
  let buf := putAt buf 32 (ascii "000000000000")
  let buf := putAt buf 50 (Words.le 2 all.length)
  let buf := putAt buf 52 (Words.le 4 apicDefaultBase)
  let buf := putAt buf 60 content
  putAt buf 23 [checksum buf 16 (44 + content.length)]

def Kvm.writeMpTable (mem : ByteStore) (cpus : Nat) : Call ByteStore :=
  let buf := buildMpTable cpus fun irq => irq
  Backend.kvm.put mem (tableStart cpus) buf.length buf

def Whp.writeMpTable (mem : ByteStore) (cpus pitIoApicPin : Nat) : Call ByteStore := do
  lift (Backend.whp.checkRange mem.size (tableStart cpus) (tableSize cpus) "MP table")
  let buf := buildMpTable cpus fun irq => if irq = 0 then pitIoApicPin else irq
  Backend.whp.put mem (tableStart cpus) buf.length buf

end NodeVmm.Mp
