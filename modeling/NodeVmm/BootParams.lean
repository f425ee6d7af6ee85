import NodeVmm.PageTables

/-! The start parameters that the kernel finds in memory: `WriteBootParams` of `native/kvm/backend.cc` and of
    `native/whp/boot_params.cc`. --/

namespace NodeVmm
open Checked

def kBootParamsAddr : Nat := 0x7000
def kCmdlineAddr : Nat := 0x20000
def kE820Offset : Nat := 0x2D0
def kE820EntrySize : Nat := 20
def kMaxE820Entries : Nat := 4

/-- `std::numeric_limits<uint32_t>::max()`. --/
def uint32Max : Nat := 2 ^ 32 - 1

namespace Backend

def putE820 (b : Backend) (mem : ByteStore) (off addr size typ : Nat) : Call ByteStore := do
  let mem ← b.put mem off 20 (Words.le 8 addr)
  let mem ← b.put mem (off + 8) 12 (Words.le 8 size)
  b.put mem (off + 16) 4 (Words.le 4 typ)

/-- `|=` on a byte. --/
def orByte (b : Backend) (mem : ByteStore) (gpa : Nat) (value : UInt8) : Call ByteStore := do
  let p ← b.hostPtr mem gpa 1
  access (mem.InRange p 1)
  return mem.write p [mem.byte p ||| value]

/-- What WHP looks at before it writes. --/
def checkBootParams (memSize : Nat) (cmdline : List UInt8) : Call Unit := do
  check (cmdline.length ≤ uint32Max) "kernel cmdline is too large"
  let range := fun addr len what => lift (Backend.whp.checkRange memSize addr len what)
  range kCmdlineAddr (cmdline.length + 1) "kernel cmdline"
  range (kBootParamsAddr + 0x1E8) 1 "boot params e820 count"
  range (kBootParamsAddr + 0x1FA) 2 "boot params video mode"
  range (kBootParamsAddr + 0x1FE) 2 "boot params setup signature"
  range (kBootParamsAddr + 0x202) 4 "boot params header signature"
  range (kBootParamsAddr + 0x210) 2 "boot params loader flags"
  range (kBootParamsAddr + 0x228) 4 "boot params cmdline pointer"
  range (kBootParamsAddr + 0x238) 4 "boot params cmdline length"
  range (kBootParamsAddr + kE820Offset) (kE820EntrySize * kMaxE820Entries) "boot params e820 table"

/-- The pointers that KVM takes before it writes. --/
def checkPointers (b : Backend) (mem : ByteStore) (cmdline : List UInt8) : Call Unit := do
  let _ ← b.hostPtr mem kBootParamsAddr 4096
  let _ ← b.hostPtr mem kCmdlineAddr (cmdline.length + 1)

def checkBefore (b : Backend) (mem : ByteStore) (cmdline : List UInt8) : Call Unit :=
  if b = .whp then checkBootParams mem.size cmdline else b.checkPointers mem cmdline

/-- The memory map, of which both have the same entries. --/
def putMemoryMap (b : Backend) (mem : ByteStore) (memBytes : Nat) : Call ByteStore := do
  let map := kBootParamsAddr + kE820Offset
  let mem ← b.putE820 mem map 0x00000000 0x0009FC00 1
  let mem ← b.putE820 mem (map + kE820EntrySize) 0x0009FC00 0x00040400 2
  let mem ← b.putE820 mem (map + 2 * kE820EntrySize) 0x000E0000 0x00020000 2
  if 0x00100000 < memBytes then
    b.putE820 mem (map + 3 * kE820EntrySize) 0x00100000 (memBytes - 0x00100000) 1
  else return mem

def writeBootParams (b : Backend) (mem : ByteStore) (memBytes : Nat) (cmdline : List UInt8) : Call ByteStore := do
  b.checkBefore mem cmdline
  let mem ← b.put mem kCmdlineAddr (cmdline.length + 1) (cmdline ++ [0])
  let _ ← b.hostPtr mem (kBootParamsAddr + kE820Offset) 80
  let mem ← b.put mem (kBootParamsAddr + 0x1E8) 1 [4]
  let mem ← b.putMemoryMap mem memBytes
  let mem ← b.putWord mem (kBootParamsAddr + 0x1FA) 2 0xFFFF
  let mem ← b.putWord mem (kBootParamsAddr + 0x1FE) 2 0xAA55
  let mem ← b.putWord mem (kBootParamsAddr + 0x202) 4 0x53726448
  let mem ← b.put mem (kBootParamsAddr + 0x210) 1 [0xFF]
  let mem ← b.orByte mem (kBootParamsAddr + 0x211) 0x01
  let mem ← b.putWord mem (kBootParamsAddr + 0x228) 4 kCmdlineAddr
  b.putWord mem (kBootParamsAddr + 0x238) 4 cmdline.length

end Backend
end NodeVmm
