import NodeVmm.Disk
import NodeVmm.Lib.Calls

/-! What the disk is for: a mutable array of bytes. `flatCall` answers a call on a plain array that starts
    as the base image; `Disk.call` is the same call on the disk of the device. -/

namespace NodeVmm

inductive DiskCall where
  | read (sector : UInt64) (len : Nat)
  | write (sector : UInt64) (bytes : List UInt8)

/-- A call on a plain byte array: refused when the range leaves the array. --/
def flatCall (array : ByteStore) : DiskCall → Option (List UInt8) × ByteStore
  | .read sector len =>
    if sector.toNat * 512 + len ≤ array.size then (some (array.read (sector.toNat * 512) len), array)
    else (none, array)
  | .write sector bytes =>
    if sector.toNat * 512 + bytes.length ≤ array.size then (some [], array.write (sector.toNat * 512) bytes)
    else (none, array)

/-- A call on the disk: the bytes it returned, or `none` when it threw. --/
def Disk.call (b : Backend) (d : Disk) : DiskCall → Option (List UInt8) × Disk
  | .read sector len =>
    match readDisk b sector len d with
    | (.ok ⟨bytes, none⟩, d') => (some bytes, d')
    | (_, d') => (none, d')
  | .write sector bytes =>
    match writeDisk b sector bytes d with
    | (.ok (), d') => (some [], d')
    | (.error _, d') => (none, d')

end NodeVmm
