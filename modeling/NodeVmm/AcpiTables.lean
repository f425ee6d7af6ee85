import NodeVmm.Acpi
import NodeVmm.Lib.Fields
import NodeVmm.PageTables

/-! The other tables of `native/kvm/backend.cc` and `native/whp/backend.cc`, and `CreateAcpiTables`, which puts all of them in
    the guest's memory. --/

namespace NodeVmm.Acpi
open Checked
open Words (ascii)
open Fields (putAt)

/-! ### What both have -/

/-- A `std::vector` of zeros. --/
def zeros (n : Nat) : Bytes := List.replicate n 0

def rsdpAddr : Nat := 0x000E0000
def firstTableAddr : Nat := 0x000A0000

/-- The complement of a `uint64_t`. --/
def not64 (v : Nat) : Nat := 2 ^ 64 - (v + 1)

def alignUp (value align : Nat) : Nat := u64 (value + align - 1) &&& not64 (align - 1)

/-- The local controller of each processor, after the other entries. --/
def putProcessors (body : Bytes) (off cpus : Nat) : Bytes :=
  ((List.range cpus).foldl (fun (s : Bytes × Nat) i =>
    let body := putAt s.1 s.2 [0, 8, UInt8.ofNat i, UInt8.ofNat i]
    (putAt body (s.2 + 4) (Words.le 4 1), s.2 + 8)) (body, off)).1

/-- The table of a body behind its header. --/
def sdt (sig : Bytes) (rev : UInt8) (tableId body : Bytes) : Bytes :=
  finalizeSdt (buildSdtHeader sig (UInt32.ofNat (36 + body.length)) rev tableId ++ body)

/-- The addresses in a vector that the loop fills, each of `n` bytes. --/
def pointers (n : Nat) (addrs : List Nat) : Bytes :=
  ((List.range addrs.length).foldl (fun body i => putAt body (i * n) (Words.le n (addrs.getD i 0))) (zeros (addrs.length * n)))

def buildRsdt (addrs : List Nat) : Bytes := sdt (ascii "RSDT") 1 (ascii "GCRSDT01") (pointers 4 addrs)

def buildXsdt (addrs : List Nat) : Bytes := sdt (ascii "XSDT") 1 (ascii "GCXSDT01") (pointers 8 addrs)

def buildRsdp (rsdtAddr xsdtAddr : Nat) : Bytes :=
  let out := zeros 36
  let out := putAt out 0 (ascii "RSD PTR ")
  let out := putAt out 9 (ascii "GOCRKR")
  let out := putAt out 15 [2]
  let out := putAt out 16 (Words.le 4 rsdtAddr)
  let out := putAt out 20 (Words.le 4 36)
  let out := putAt out 24 (Words.le 8 xsdtAddr)
  let out := putAt out 8 [~~~tableSum (out.take 20) + 1]
  putAt out 32 [~~~tableSum out + 1]

/-- The lambda `write_table`: the state is the memory and the cursor. --/
def writeTable (b : Backend) (table : Bytes) (s : ByteStore × Nat) : Call (Nat × (ByteStore × Nat)) := do
  let addr := alignUp s.2 8
  if b = .whp then lift (b.checkRange s.1.size addr table.length "ACPI table")
  let mem ← b.put s.1 addr table.length table
  let cursor := u64 (addr + table.length)
  Checked.check (cursor < rsdpAddr) "ACPI tables overflow low memory"
  return (addr, (mem, cursor))

namespace Kvm

def buildFadt (dsdtAddr : Nat) : Bytes :=
  let out := zeros 276
  let out := putAt out 0 (buildSdtHeader (ascii "FACP") 276 6 (ascii "GCFADT01"))
  let out := putAt out 40 (Words.le 4 dsdtAddr)
  let out := putAt out 109 (Words.le 2 (1 <<< 2))
  let out := putAt out 112 (Words.le 4 (1 <<< 20 ||| 1 <<< 4 ||| 1 <<< 5))
  let out := putAt out 131 [5]
  let out := putAt out 140 (Words.le 8 dsdtAddr)
  let out := putAt out 268 (ascii "GOCRKVM ")
  finalizeSdt out

def buildMadt (cpus : Nat) : Bytes :=
  let body := zeros (8 + 12 + cpus * 8)
  let body := putAt body 0 (Words.le 4 0xFEE00000)
  let body := putAt body 8 [1, 12]
  let body := putAt body 12 (Words.le 4 0xFEC00000)
  sdt (ascii "APIC") 6 (ascii "GCMADT01") (putProcessors body 20 cpus)

def createAcpiTables (mem : ByteStore) (networkEnabled : Bool) (cpus : Nat) (diskCount : UInt32) :
    Call (Nat × ByteStore) := do
  let dsdt ← lift (buildDsdtTable networkEnabled diskCount)
  let (dsdtAddr, s) ← writeTable .kvm dsdt (mem, firstTableAddr)
  let (fadtAddr, s) ← writeTable .kvm (buildFadt dsdtAddr) s
  let (madtAddr, s) ← writeTable .kvm (buildMadt cpus) s
  let (rsdtAddr, s) ← writeTable .kvm (buildRsdt [fadtAddr, madtAddr]) s
  let (xsdtAddr, s) ← writeTable .kvm (buildXsdt [fadtAddr, madtAddr]) s
  let rsdp := buildRsdp rsdtAddr xsdtAddr
  let mem ← Backend.kvm.put s.1 rsdpAddr rsdp.length rsdp
  return (rsdpAddr, mem)

end Kvm

namespace Whp

def kAcpiPmTimerPort : Nat := 0x408
def kPitIoApicPin : Nat := 2

def buildHpetTable : Bytes :=
  let out := buildSdtHeader (ascii "HPET") 56 1 (ascii "GCHPET01") ++ zeros 20
  let out := putAt out 36 (Words.le 4 0x8086A201)
  let out := putAt out 40 [0]
  let out := putAt out 41 [0]
  let out := putAt out 42 [0]
  let out := putAt out 43 [0]
  let out := putAt out 44 (Words.le 8 hpetBase.toNat)
  let out := putAt out 52 [0]
  let out := putAt out 53 (Words.le 2 0)
  let out := putAt out 55 [0]
  finalizeSdt out

def buildFadt (dsdtAddr : Nat) : Bytes :=
  let out := zeros 276
  let out := putAt out 0 (buildSdtHeader (ascii "FACP") 276 6 (ascii "GCFADT01"))
  let out := putAt out 40 (Words.le 4 dsdtAddr)
  let out := putAt out 76 (Words.le 4 kAcpiPmTimerPort)
  let out := putAt out 91 [4]
  let out := putAt out 108 [0x32]
  let out := putAt out 109 (Words.le 2 (1 <<< 2))
  let out := putAt out 112 (Words.le 4 (1 <<< 20 ||| 1 <<< 8 ||| 1 <<< 4 ||| 1 <<< 5))
  let out := putAt out 131 [5]
  let out := putAt out 140 (Words.le 8 dsdtAddr)
  let out := putAt out 208 [1]
  let out := putAt out 209 [32]
  let out := putAt out 210 [0]
  let out := putAt out 211 [3]
  let out := putAt out 212 (Words.le 8 kAcpiPmTimerPort)
  let out := putAt out 268 (ascii "GOCRKVM ")
  finalizeSdt out

def buildMadt (cpus : Nat) : Bytes :=
  let body := zeros (8 + 12 + 10 + cpus * 8)
  let body := putAt body 0 (Words.le 4 0xFEE00000)
  let body := putAt body 4 (Words.le 4 1)
  let body := putAt body 8 [1, 12]
  let body := putAt body 12 (Words.le 4 0xFEC00000)
  let body := putAt body 20 [2, 10, 0, 0]
  let body := putAt body 24 (Words.le 4 kPitIoApicPin)
  let body := putAt body 28 (Words.le 2 0)
  sdt (ascii "APIC") 6 (ascii "GCMADT01") (putProcessors body 30 cpus)

def createAcpiTables (mem : ByteStore) (networkEnabled : Bool) (cpus : Nat) (diskCount : UInt32) :
    Call (Nat × ByteStore) := do
  let dsdt ← lift (buildDsdtTable networkEnabled diskCount)
  let (dsdtAddr, s) ← writeTable .whp dsdt (mem, firstTableAddr)
  let (fadtAddr, s) ← writeTable .whp (buildFadt dsdtAddr) s
  let (madtAddr, s) ← writeTable .whp (buildMadt cpus) s
  let (hpetAddr, s) ← writeTable .whp buildHpetTable s
  let (rsdtAddr, s) ← writeTable .whp (buildRsdt [fadtAddr, madtAddr, hpetAddr]) s
  let (xsdtAddr, s) ← writeTable .whp (buildXsdt [fadtAddr, madtAddr, hpetAddr]) s
  let rsdp := buildRsdp rsdtAddr xsdtAddr
  lift (Backend.whp.checkRange s.1.size rsdpAddr rsdp.length "RSDP")
  let mem ← Backend.whp.put s.1 rsdpAddr rsdp.length rsdp
  return (rsdpAddr, mem)

end Whp
end NodeVmm.Acpi
