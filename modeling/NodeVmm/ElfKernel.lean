import NodeVmm.Backend
import NodeVmm.Lib.ByteStore
import NodeVmm.Lib.Checked

/-! The two loaders of an ELF kernel: `LoadElfKernel` of `native/kvm/backend.cc` and of `native/whp/elf_loader.cc`. A file
    is a store of bytes like the guest's memory. -/

namespace NodeVmm
open Checked

/-- What the loaders look at of `Elf64_Ehdr`. --/
structure Elf64Ehdr where
  ident : List UInt8
  machine : Nat
  entry : Nat
  phoff : Nat
  phentsize : Nat
  phnum : Nat
  deriving DecidableEq, Repr

def sizeofEhdr : Nat := 64

def Elf64Ehdr.view (file : ByteStore) : Elf64Ehdr where
  ident := file.read 0 16
  machine := (file.readU16 18).toNat
  entry := (file.readU64 24).toNat
  phoff := (file.readU64 32).toNat
  phentsize := (file.readU16 54).toNat
  phnum := (file.readU16 56).toNat

/-- What the loaders look at of `Elf64_Phdr`. --/
structure Elf64Phdr where
  type : Nat
  offset : Nat
  paddr : Nat
  filesz : Nat
  memsz : Nat
  deriving DecidableEq, Repr

def sizeofPhdr : Nat := 56

def Elf64Phdr.view (file : ByteStore) (off : Nat) : Elf64Phdr where
  type := (file.readU32 off).toNat
  offset := (file.readU64 (off + 8)).toNat
  paddr := (file.readU64 (off + 24)).toNat
  filesz := (file.readU64 (off + 32)).toNat
  memsz := (file.readU64 (off + 40)).toNat

def elfMagic : List UInt8 := [0x7F, 0x45, 0x4C, 0x46]
def elfClass64 : UInt8 := 2
def elfDataLe : UInt8 := 1
def elfMachineX64 : Nat := 62
def ptLoad : Nat := 1

structure KernelInfo where
  entry : Nat := 0
  kernelEnd : Nat := 0
  deriving DecidableEq, Repr

namespace Backend

/-- `ptr` of the guest's memory on KVM; the other loader adds to the pointer. --/
def hostPtr (b : Backend) (mem : ByteStore) (gpa len : Nat) : Call Nat :=
  match b with
  | .kvm => do
    check (gpa ≤ mem.size ∧ len ≤ mem.size - gpa) "guest memory access out of bounds"
    return gpa
  | _ => return gpa

/-- `memcpy` of a part of the file into the guest's memory. --/
def copyIn (b : Backend) (file mem : ByteStore) (gpa offset len : Nat) : Call ByteStore := do
  let p ← b.hostPtr mem gpa len
  access (file.InRange offset len ∧ mem.InRange p len)
  return mem.write p (file.read offset len)

/-- `memset` of a part of the guest's memory. --/
def zeroFill (b : Backend) (mem : ByteStore) (gpa len : Nat) : Call ByteStore := do
  let p ← b.hostPtr mem gpa len
  access (mem.InRange p len)
  return mem.write p (List.replicate len 0)

/-- What is behind the file's part of a segment. --/
def fillRest (b : Backend) (mem : ByteStore) (ph : Elf64Phdr) : Call ByteStore :=
  if ph.filesz < ph.memsz then do
    let zeroStart ← lift (b.checkedAdd ph.paddr ph.filesz "kernel zero-fill range")
    b.zeroFill mem zeroStart (ph.memsz - ph.filesz)
  else return mem

def loadSegment (b : Backend) (file : ByteStore) (s : ByteStore × Nat) (ph : Elf64Phdr) : Call (ByteStore × Nat) := do
  check (ph.filesz ≤ ph.memsz) "kernel segment file size exceeds memory size"
  lift (b.checkRange file.size ph.offset ph.filesz "kernel segment file range")
  lift (b.checkRange s.1.size ph.paddr ph.memsz "kernel segment guest range")
  let mem ← b.copyIn file s.1 ph.paddr ph.offset ph.filesz
  let mem ← b.fillRest mem ph
  let segmentEnd ← lift (b.checkedAdd ph.paddr ph.memsz "kernel end")
  return (mem, max s.2 segmentEnd)

/-- One round of the loop over the program headers: the memory and the end of the kernel so far. --/
def loadProgramHeader (b : Backend) (file : ByteStore) (phoff : Nat) (s : ByteStore × Nat) (i : Nat) :
    Call (ByteStore × Nat) := do
  let index ← lift (b.checkedMul i sizeofPhdr "kernel program header offset")
  let off ← lift (b.checkedAdd phoff index "kernel program header offset")
  access (file.InRange off sizeofPhdr)
  let ph := Elf64Phdr.view file off
  if ph.type ≠ ptLoad then return s else b.loadSegment file s ph

def elfMessage : Backend → String
  | .whp => "kernel must be an ELF vmlinux for WHP v1"
  | _ => "kernel must be an ELF vmlinux for KVM v1"

/-- The checks of the header. --/
def checkHeader (b : Backend) (eh : Elf64Ehdr) (file : ByteStore) : Call Unit := do
  check (eh.ident.take 4 = elfMagic) b.elfMessage
  check (eh.ident.getD 4 0 = elfClass64) "kernel must be ELF64"
  check (eh.ident.getD 5 0 = elfDataLe) "kernel must be little-endian ELF"
  check (eh.machine = elfMachineX64) "kernel must be x86_64 ELF"
  check (eh.phentsize = sizeofPhdr) "kernel ELF program header size is unsupported"
  let phSize ← lift (b.checkedMul eh.phnum sizeofPhdr "kernel program header table")
  lift (b.checkRange file.size eh.phoff phSize "kernel program header table")

/-- The loaders behind the reading of the file. --/
def loadElf (b : Backend) (mem file : ByteStore) : Call (KernelInfo × ByteStore) := do
  check (sizeofEhdr ≤ file.size) "kernel is too small"
  access (file.InRange 0 sizeofEhdr)
  let eh := Elf64Ehdr.view file
  b.checkHeader eh file
  let (mem, kernelEnd) ← (List.range eh.phnum).foldlM (b.loadProgramHeader file eh.phoff) (mem, 0)
  check (eh.entry ≠ 0) "kernel ELF entrypoint is zero"
  return (⟨eh.entry, kernelEnd⟩, mem)

end Backend

def Kvm.loadElfKernel (mem : ByteStore) (file : ByteStore) : Call (KernelInfo × ByteStore) := Backend.kvm.loadElf mem file

def int32Max : Nat := 2 ^ 31 - 1

/-- `ReadWholeFile` takes no file whose size is no `int`. --/
def Whp.loadElfKernel (path : String) (mem : ByteStore) (file : ByteStore) : Call (KernelInfo × ByteStore) := do
  check (file.size ≤ int32Max) ("file is too large: " ++ path)
  Backend.whp.loadElf mem file

end NodeVmm
