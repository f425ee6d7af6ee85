import NodeVmm.Backend
import NodeVmm.Lib.ByteStore
import NodeVmm.Lib.Exec

/-! The disk of a virtio-blk device (`VirtioBlk` in `native/kvm/backend.cc`, `native/whp/virtio/blk.cc` and
    `native/hvf/backend.cc`): a base image, and with an overlay a second file that holds the sectors whose
    bit is set in a packed bitmap.

    The base image and the overlay are two files: the constructor refuses equal paths. A host read or write
    may fail at any point; `faults` says after how many bytes each coming one does. -/

namespace NodeVmm

structure Disk where
  base : ByteStore
  overlay : Option ByteStore
  dirtySectors : List UInt8
  diskBytes : Nat
  sectors : Nat
  readOnly : Bool
  /-- For each coming host call, the number of bytes after which it fails, or `none`. --/
  faults : List (Option Nat)

/-- What a read stored at its destination, and the error that ended it. --/
structure Transfer where
  bytes : List UInt8
  error : Option String

namespace Disk

/-- The constructor, on an image of a size that fits `off_t`. The overlay file is created empty, or
    truncated, and then extended to the size of the image. --/
def openDisk (path overlayPath : String) (image : ByteStore) (readOnly : Bool) : Except String Disk :=
  let overlay := overlayPath != ""
  if readOnly && overlay then .error "read-only disk cannot use an overlay"
  else if overlay && overlayPath == path then .error "overlayPath must not equal rootfsPath"
  else .ok
    { base := image
      overlay := if overlay then some { size := image.size, byte := fun _ => 0 } else none
      dirtySectors := if overlay then List.replicate ((image.size / 512 + 7) / 8) 0 else []
      diskBytes := image.size
      sectors := image.size / 512
      readOnly
      faults := [] }

def hasOverlay (d : Disk) : Bool := d.overlay.isSome

/-! ### Host reads and writes -/

def nextFault : Exec Disk (Option Nat) := fun d =>
  match d.faults with
  | [] => (.ok none, d)
  | f :: rest => (.ok f, { d with faults := rest })

/-- A fault after `k` bytes ends a transfer of more bytes; on Windows the seek before it may fail too. --/
def faultHits (b : Backend) (k len : Nat) : Bool := k < len || (b == .whp && k == 0)

/-- `PreadAll`: as many bytes as the file has, or an error. --/
def preadAll (b : Backend) (file : ByteStore) (len off : Nat) : Exec Disk Transfer := do
  let avail := min len (file.size - off)
  match ← nextFault with
  | some k =>
    if faultHits b k len then
      pure ⟨file.read off (min k avail), some (if b = .whp then "read disk failed" else "pread disk")⟩
    else if avail = len then pure ⟨file.read off len, none⟩
    else pure ⟨file.read off avail, some (if b = .hvf then "pread disk" else "short disk read")⟩
  | none =>
    if avail = len then pure ⟨file.read off len, none⟩
    else pure ⟨file.read off avail, some (if b = .hvf then "pread disk" else "short disk read")⟩

/-- `pwrite` of a list of bytes: a write past the end extends the file. --/
def pwrite (file : ByteStore) (off : Nat) (src : List UInt8) : ByteStore :=
  if src = [] then file else { file.write off src with size := max file.size (off + src.length) }

/-- `PwriteAll` into the file that `view` and `store` name. --/
def pwriteAll (b : Backend) (view : Disk → ByteStore) (store : ByteStore → Disk → Disk) (src : List UInt8)
    (off : Nat) : Exec Disk Unit := do
  match ← nextFault with
  | some k =>
    if faultHits b k src.length then do
      Exec.modify fun d => store (pwrite (view d) off (src.take k)) d
      throw (if b = .whp then "write disk failed" else "pwrite disk")
    else Exec.modify fun d => store (pwrite (view d) off src) d
  | none => Exec.modify fun d => store (pwrite (view d) off src) d

def overlayFile (d : Disk) : ByteStore := d.overlay.getD { size := 0, byte := fun _ => 0 }

def setOverlayFile (f : ByteStore) (d : Disk) : Disk := { d with overlay := some f }

/-- The file that `write_fd` names: the overlay, or without one the base. --/
def writeFile (d : Disk) : ByteStore := d.overlay.getD d.base

def setWriteFile (f : ByteStore) (d : Disk) : Disk :=
  if d.hasOverlay then { d with overlay := some f } else { d with base := f }

/-! ### The dirty bitmap -/

/-- `uint8_t(1) << (sector % 8)`. --/
def sectorBit (sector : Nat) : UInt8 := 1 <<< UInt8.ofNat (sector % 8)

def sectorDirty (d : Disk) (sector : Nat) : Bool :=
  if !d.hasOverlay || d.sectors ≤ sector then false
  else (d.dirtySectors.getD (sector / 8) 0 &&& sectorBit sector) != 0

def markDirty (d : Disk) (sector : Nat) : Disk :=
  if !d.hasOverlay || d.sectors ≤ sector then d
  else { d with dirtySectors := d.dirtySectors.set (sector / 8)
                  (d.dirtySectors.getD (sector / 8) 0 ||| sectorBit sector) }

/-- The sectors from `first` to `last`, both included. --/
def sectorRange (first last : Nat) : List Nat := List.range' first (last + 1 - first)

def markDirtyRange (byteOff len : Nat) (d : Disk) : Disk :=
  if !d.hasOverlay || len == 0 then d
  else (sectorRange (byteOff / 512) (u64 (byteOff + len - 1) / 512)).foldl markDirty d

/-! ### Reads and writes of the disk -/

/-- The byte offset of `sector`, when the range of `len` bytes there is inside the disk. --/
def diskOffset (b : Backend) (d : Disk) (op : String) (sector : UInt64) (len : Nat) : Except String Nat :=
  match b with
  | .hvf =>
    if ¬sector.toNat ≤ uint64Max / 512 then .error ("virtio-blk " ++ op ++ " sector offset overflow")
    else
      let off := u64 (sector.toNat * 512)
      if ¬(off ≤ d.diskBytes ∧ len ≤ d.diskBytes - off) then .error ("virtio-blk " ++ op ++ " out of range")
      else if ¬off ≤ offMax then .error ("virtio-blk " ++ op ++ " offset exceeds host off_t")
      else if ¬(len = 0 ∨ len - 1 ≤ offMax - off) then
        .error ("virtio-blk " ++ op ++ " range exceeds host off_t")
      else .ok off
  | _ => do
    let byteOff ← b.checkedMul sector.toNat 512 ("virtio-blk " ++ op ++ " offset")
    b.checkRange d.diskBytes byteOff len ("virtio-blk " ++ op)
    pure byteOff

/-- The end of the range that a write prepares; the HVF back end adds without a check. --/
def overlayEnd (b : Backend) (d : Disk) (byteOff len : Nat) : Except String Nat :=
  match b with
  | .hvf => .ok (u64 (byteOff + len))
  | _ => do
    b.checkRange d.diskBytes byteOff len "virtio-blk overlay prepare"
    b.checkedAdd byteOff len "virtio-blk overlay range"

/-- Copy a clean sector that the write covers in part from the base to the overlay. --/
def prepareSector (b : Backend) (byteOff endOff sector : Nat) : Exec Disk Unit := do
  let d ← Exec.get
  let sectorStart := u64 (sector * 512)
  let coversFullSector := byteOff ≤ sectorStart && u64 (sectorStart + 512) ≤ endOff
  if coversFullSector || d.sectorDirty sector then pure ()
  else do
    let sectorBuf ← preadAll b d.base 512 sectorStart
    match sectorBuf.error with
    | some e => throw e
    | none => pwriteAll b overlayFile setOverlayFile sectorBuf.bytes sectorStart

def prepareSectors (b : Backend) (byteOff endOff : Nat) : List Nat → Exec Disk Unit
  | [] => pure ()
  | sector :: rest => do
    prepareSector b byteOff endOff sector
    prepareSectors b byteOff endOff rest

def preparePartialOverlaySectors (b : Backend) (byteOff len : Nat) : Exec Disk Unit := do
  let d ← Exec.get
  if !d.hasOverlay || len == 0 then pure ()
  else do
    let endOff ← Exec.lift (overlayEnd b d byteOff len)
    prepareSectors b byteOff endOff (sectorRange (byteOff / 512) (u64 (endOff - 1) / 512))

/-- The loop of `ReadDisk`, one piece of a sector each time. A piece has at least one byte, so `len`
    rounds are enough. --/
def readSectors (b : Backend) (byteOff len : Nat) : Nat → Nat → Exec Disk Transfer
  | 0, _ => pure ⟨[], none⟩
  | fuel + 1, done =>
    if len ≤ done then pure ⟨[], none⟩
    else do
      let d ← Exec.get
      let currentByte := u64 (byteOff + done)
      let inSector := currentByte % 512
      let chunk := min (len - done) (512 - inSector)
      let file := if d.sectorDirty (currentByte / 512) then d.overlayFile else d.base
      let part ← preadAll b file chunk currentByte
      match part.error with
      | some e => pure ⟨part.bytes, some e⟩
      | none => do
        let rest ← readSectors b byteOff len fuel (done + chunk)
        pure ⟨part.bytes ++ rest.bytes, rest.error⟩

/-- `ReadDisk`: what it stored at its destination before it returned or threw. --/
def readDisk (b : Backend) (sector : UInt64) (len : Nat) : Exec Disk Transfer := do
  let d ← Exec.get
  let byteOff ← Exec.lift (d.diskOffset b "read" sector len)
  if !d.hasOverlay then preadAll b d.base len byteOff
  else readSectors b byteOff len len 0

def writeDisk (b : Backend) (sector : UInt64) (src : List UInt8) : Exec Disk Unit := do
  let d ← Exec.get
  Exec.check (!d.readOnly)
    (if b = .hvf then "virtio-blk write on read-only disk" else "virtio-blk write to read-only disk")
  let byteOff ← Exec.lift (d.diskOffset b "write" sector src.length)
  preparePartialOverlaySectors b byteOff src.length
  pwriteAll b writeFile setWriteFile src byteOff
  Exec.modify (markDirtyRange byteOff src.length)

/-- The flush of a type-4 request: `fsync`, or `FlushFileBuffers`. --/
def flush (b : Backend) : Exec Disk Unit := do
  match ← nextFault with
  | some k => Exec.check (k ≠ 0) (if b = .whp then "virtio-blk flush failed" else "virtio-blk flush")
  | none => pure ()

end Disk
end NodeVmm
