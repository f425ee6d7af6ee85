import NodeVmm.ElfKernel
import NodeVmm.Lib.Patch

/-! The tables that the first processor starts with, as `SetupLongMode` of `native/kvm/backend.cc` and
    `native/whp/backend.cc` puts them in the guest's memory: `BuildPageTables` (with WHP in `native/whp/page_tables.cc`), the
    segment descriptors and the interrupt descriptors. -/

namespace NodeVmm
open Checked

namespace Backend

/-- Bytes written through the pointer to `span` bytes of the guest's memory; only `ptr` of KVM looks at the span. --/
def put (b : Backend) (mem : ByteStore) (gpa span : Nat) (bytes : List UInt8) : Call ByteStore := do
  let p ← b.hostPtr mem gpa span
  access (mem.InRange p bytes.length)
  return mem.write p bytes

/-- `WriteU16`, `WriteU32` and `WriteU64` through the pointer to as many bytes. --/
def putWord (b : Backend) (mem : ByteStore) (gpa n value : Nat) : Call ByteStore := b.put mem gpa n (Words.le n value)

end Backend

def kPageTableBase : Nat := 0x9000
def kGdtAddr : Nat := 0x500
def kIdtAddr : Nat := 0x520

def pageSize : Nat := 0x1000
/-- Present, writable, for the user. --/
def tableFlags : Nat := 0x07
/-- Present, writable, a page of 2 MiB. --/
def hugeFlags : Nat := 0x83

namespace Backend

/-- One page directory: `i` is its number. --/
def buildPageDirectory (b : Backend) (thisPd i : Nat) (mem : ByteStore) : Call ByteStore :=
  (List.range 512).foldlM (fun mem j =>
    let phys := (i * 512 + j) * 0x200000
    b.putWord mem (thisPd + j * 8) 8 (phys ||| hugeFlags)) mem

def buildPageTables (b : Backend) (mem : ByteStore) (base : Nat) : Call ByteStore := do
  let pml4 := base
  let pdpt := base + pageSize
  let pd := base + 2 * pageSize
  let mem ← b.putWord mem pml4 8 (pdpt ||| tableFlags)
  (List.range 4).foldlM (fun mem i => do
    let thisPd := pd + i * pageSize
    let mem ← b.putWord mem (pdpt + i * 8) 8 (thisPd ||| tableFlags)
    b.buildPageDirectory thisPd i mem) mem

def gdt : List Nat := [0x0000000000000000, 0x00AF9B000000FFFF, 0x00CF93000000FFFF, 0x008F8B000000FFFF]

/-- What `SetupLongMode` writes to the memory; the registers point to it. --/
def setupLongMode (b : Backend) (mem : ByteStore) : Call ByteStore := do
  let mem ← b.buildPageTables mem kPageTableBase
  let mem ← (List.range 4).foldlM (fun mem i => b.putWord mem (kGdtAddr + i * 8) 8 (gdt.getD i 0)) mem
  b.putWord mem kIdtAddr 8 0

end Backend
end NodeVmm
