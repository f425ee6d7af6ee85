import NodeVmm.Lib.ByteStore
import NodeVmm.Lib.Checked
import NodeVmm.Lib.Words

/-! The RAM of a snapshot and the pages changed since (`native/kvm/backend.cc`): the sparse memory file, the pages of the
    dirty log, and the delta file. Files are what the system calls have written and read in the end. -/

namespace NodeVmm.Kvm
open Checked

def kSnapshotPageSize : Nat := 4096

/-- `"NODEKVM-DIRTY-001"` with its terminating zero. --/
def kDirtySnapshotMagic : List UInt8 :=
  [0x4E, 0x4F, 0x44, 0x45, 0x4B, 0x56, 0x4D, 0x2D, 0x44, 0x49, 0x52, 0x54, 0x59, 0x2D, 0x30, 0x30, 0x31, 0x00]

def kDirtySnapshotVersion : Nat := 1

/-! ### Memory files -/

def isZeroPage (page : List UInt8) : Bool := page.all (· = 0)

/-- One round of the loop of `WriteSparseMemoryFile`: the file so far and the pages written. --/
def writeSparsePage (src : ByteStore) (s : ByteStore × Nat) (k : Nat) : ByteStore × Nat :=
  let off := k * kSnapshotPageSize
  let chunk := min kSnapshotPageSize (src.size - off)
  let page := src.read off chunk
  if isZeroPage page then s else (s.1.write off page, s.2 + 1)

/-- `ftruncate` leaves a file of zeros, of the size of the memory. --/
def truncated (len : Nat) : ByteStore := ⟨len, fun _ => 0⟩

def writeSparseMemoryFile (src : ByteStore) : ByteStore × Nat :=
  (List.range ((src.size + kSnapshotPageSize - 1) / kSnapshotPageSize)).foldl (writeSparsePage src) (truncated src.size, 0)

/-- The guest's memory is the file, mapped, which `CreateVmWithMemory` takes only in the size of the memory. --/
def mapSnapshotRam (file : ByteStore) (bytes : Nat) : Call ByteStore := do
  check (file.size = bytes) "snapshot RAM size does not match memMiB"
  return file

/-! ### Dirty pages -/

/-- `__builtin_ctzll` --/
def ctzll (word : UInt64) : Nat := Words.ctz 64 word.toNat

/-- The loop over one word of the dirty log; a round takes out one of its 64 bits. --/
def scanWord (pageCount wordIndex : Nat) : Nat → UInt64 → List Nat
  | 0, _ => []
  | rounds + 1, word =>
    if word = 0 then []
    else
      let page := wordIndex * 64 + ctzll word
      let pages := scanWord pageCount wordIndex rounds (word &&& (word - 1))
      if page < pageCount then page :: pages else pages

/-- `bitmap` is what `KVM_GET_DIRTY_LOG` has put into the words for `memSize` bytes of memory. --/
def getDirtyPages (memSize : Nat) (bitmap : List UInt64) : List Nat :=
  let pageCount := memSize / kSnapshotPageSize
  bitmap.zipIdx.flatMap fun (word, wordIndex) => scanWord pageCount wordIndex 64 word

/-! ### Delta files -/

/-- The header, without the padding that aligns its fields. --/
structure DirtySnapshotHeader where
  magic : List UInt8
  version : Nat
  pageSize : Nat
  pageCount : Nat
  dirtyPages : Nat
  deriving DecidableEq, Repr

def DirtySnapshotHeader.toBytes (h : DirtySnapshotHeader) : List UInt8 :=
  h.magic ++ [0, 0] ++ Words.le 4 h.version ++ Words.le 4 h.pageSize ++ [0, 0, 0, 0] ++ Words.le 8 h.pageCount ++
    Words.le 8 h.dirtyPages

def sizeofHeader : Nat := 48

def DirtySnapshotHeader.ofBytes (bytes : List UInt8) : DirtySnapshotHeader where
  magic := bytes.take 18
  version := Words.ofLe ((bytes.drop 20).take 4)
  pageSize := Words.ofLe ((bytes.drop 24).take 4)
  pageCount := Words.ofLe ((bytes.drop 32).take 8)
  dirtyPages := Words.ofLe ((bytes.drop 40).take 8)

/-- Where a page is in memory, in 64 bits. --/
def pageOffset (page : Nat) : Nat := page * kSnapshotPageSize % 2 ^ 64

/-- The index and the content of one page, in the file. --/
def writeDirtyPage (mem : ByteStore) (page : Nat) : Call (List UInt8) := do
  access (mem.InRange (pageOffset page) kSnapshotPageSize)
  return Words.le 8 page ++ mem.read (pageOffset page) kSnapshotPageSize

def writeDirtyPages (mem : ByteStore) : List Nat → Call (List UInt8)
  | [] => .ok []
  | page :: pages => do
    let entry ← writeDirtyPage mem page
    let rest ← writeDirtyPages mem pages
    return entry ++ rest

def dirtyHeader (memSize : Nat) (pages : List Nat) : DirtySnapshotHeader :=
  ⟨kDirtySnapshotMagic, kDirtySnapshotVersion, kSnapshotPageSize, memSize / kSnapshotPageSize, pages.length⟩

def writeDirtySnapshotFile (mem : ByteStore) (pages : List Nat) : Call (List UInt8) := do
  let entries ← writeDirtyPages mem pages
  return (dirtyHeader mem.size pages).toBytes ++ entries

/-- The next `len` bytes of a file, and what is left of it. --/
def readAll (len : Nat) (file : List UInt8) (what : String) : Call (List UInt8 × List UInt8) :=
  if len ≤ file.length then .ok (file.take len, file.drop len) else .error (.thrown ("short read " ++ what))

/-- One round of `ApplyDirtySnapshotFile`, on what is left of the file and the memory. A call that ends here leaves a VM
    behind that is not run. --/
def applyDirtyPage (pageCount : Nat) (s : List UInt8 × ByteStore) : Call (List UInt8 × ByteStore) := do
  let (index, file) ← readAll 8 s.1 "read dirty snapshot page index"
  let page := Words.ofLe index
  check (page < pageCount) "dirty snapshot page index out of bounds"
  access (s.2.InRange (pageOffset page) kSnapshotPageSize)
  let (content, file) ← readAll kSnapshotPageSize file "read dirty snapshot page"
  return (file, s.2.write (pageOffset page) content)

def applyDirtyPages (pageCount : Nat) : Nat → List UInt8 × ByteStore → Call (List UInt8 × ByteStore)
  | 0, s => .ok s
  | n + 1, s => do
    let s ← applyDirtyPage pageCount s
    applyDirtyPages pageCount n s

def applyDirtySnapshotFile (file : List UInt8) (mem : ByteStore) : Call (Nat × ByteStore) := do
  let (bytes, file) ← readAll sizeofHeader file "read dirty snapshot header"
  let header := DirtySnapshotHeader.ofBytes bytes
  check (header.magic = kDirtySnapshotMagic) "invalid dirty snapshot magic"
  check (header.version = kDirtySnapshotVersion) "unsupported dirty snapshot version"
  check (header.pageSize = kSnapshotPageSize) "dirty snapshot page size mismatch"
  check (header.pageCount = mem.size / kSnapshotPageSize) "dirty snapshot page count mismatch"
  let (_, mem) ← applyDirtyPages header.pageCount header.dirtyPages (file, mem)
  return (header.dirtyPages, mem)

end NodeVmm.Kvm
