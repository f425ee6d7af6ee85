import NodeVmm.Backend
import NodeVmm.Lib.ByteStore
import NodeVmm.Lib.Exec

/-! Guest RAM and the split virtqueues that the virtio devices find in it: descriptors, the walk of a chain
    and the used ring. Guest physical addresses are 64-bit words and wrap. -/

namespace NodeVmm

/-- `kRamBase` of the HVF back end; RAM starts at address 0 in the others. --/
def Backend.ramBase : Backend → Nat
  | .hvf => 0x40000000
  | _ => 0

/-- Guest RAM. Its size is a 32-bit number of MiB. --/
structure GuestMemory where
  ram : ByteStore
  fits : ram.size < 2 ^ 52

namespace GuestMemory

def size (m : GuestMemory) : Nat := m.ram.size

/-- The offset in RAM of `len` bytes at the address `gpa`, or the error of `ptr` (`guest_ptr` on HVF). --/
def ptr (b : Backend) (m : GuestMemory) (gpa : UInt64) (len : Nat) : Except String Nat :=
  match b with
  | .kvm =>
    if gpa.toNat ≤ m.size ∧ len ≤ m.size - gpa.toNat then .ok gpa.toNat
    else .error "guest memory access out of bounds"
  | .whp => do
    b.checkRange m.size gpa.toNat len "guest memory"
    pure gpa.toNat
  | .hvf =>
    if b.ramBase ≤ gpa.toNat ∧ gpa.toNat - b.ramBase ≤ m.size ∧ len ≤ m.size - (gpa.toNat - b.ramBase) then
      .ok (gpa.toNat - b.ramBase)
    else .error ("guest physical memory access out of bounds @" ++ toString gpa)

/-- Store `bs` at an offset in RAM. --/
def store (off : Nat) (bs : List UInt8) (m : GuestMemory) : GuestMemory := ⟨m.ram.write off bs, m.fits⟩

def storeU16 (off : Nat) (v : UInt16) (m : GuestMemory) : GuestMemory := ⟨m.ram.writeU16 off v, m.fits⟩

def storeU32 (off : Nat) (v : UInt32) (m : GuestMemory) : GuestMemory := ⟨m.ram.writeU32 off v, m.fits⟩

end GuestMemory

structure Desc where
  addr : UInt64
  len : UInt32
  flags : UInt16
  next : UInt16
  deriving DecidableEq, Repr

namespace Desc

/-- `VRING_DESC_F_NEXT`. --/
def hasNext (d : Desc) : Bool := (d.flags &&& 1) != 0

/-- `VRING_DESC_F_WRITE`. --/
def writable (d : Desc) : Bool := (d.flags &&& 2) != 0

/-- `VRING_DESC_F_INDIRECT`. --/
def indirect (d : Desc) : Bool := (d.flags &&& 4) != 0

end Desc

/-- The register state of one queue. `write_reg` takes only sizes from 1 to `kMaxQueueSize`. --/
structure Queue where
  size : Nat
  size_pos : 0 < size
  size_le : size ≤ Backend.maxQueueSize
  ready : Bool
  lastAvail : UInt16
  descAddr : UInt64
  driverAddr : UInt64
  deviceAddr : UInt64

namespace Queue

def descEntry (q : Queue) (idx : UInt16) : UInt64 := q.descAddr + idx.toUInt64 * 16

def availIdxAddr (q : Queue) : UInt64 := q.driverAddr + 2

/-- The entry of the avail ring at `position`, which counts modulo 2^16. --/
def availEntry (q : Queue) (position : UInt16) : UInt64 :=
  q.driverAddr + 4 + UInt64.ofNat (position.toNat % q.size) * 2

def usedIdxAddr (q : Queue) : UInt64 := q.deviceAddr + 2

/-- The element of the used ring at `position`, which counts modulo 2^16. --/
def usedEntry (q : Queue) (position : UInt16) : UInt64 :=
  q.deviceAddr + 4 + UInt64.ofNat (position.toNat % q.size) * 8

end Queue

namespace GuestMemory

def readDesc (b : Backend) (m : GuestMemory) (q : Queue) (idx : UInt16) : Except String Desc :=
  if ¬idx.toNat < q.size then .error "virtio descriptor index out of bounds"
  else do
    let p ← m.ptr b (q.descEntry idx) 16
    pure ⟨m.ram.readU64 p, m.ram.readU32 (p + 8), m.ram.readU16 (p + 12), m.ram.readU16 (p + 14)⟩

/-- The HVF texts leave the first word out. --/
def chainError (b : Backend) (text : String) : String := if b = .hvf then text else "virtio " ++ text

/-- The loop of `walk_chain`, with the indices that it has seen. Each round sees a new index below
    `q.size`, so `maxQueueSize + 1` rounds are enough (`walkFrom_fuel`). --/
def walkFrom (b : Backend) (m : GuestMemory) (q : Queue) : Nat → List UInt16 → UInt16 → Except String (List Desc)
  | 0, _, _ => .error (chainError b "descriptor cycle")
  | fuel + 1, seen, idx =>
    if ¬idx.toNat < q.size then .error (chainError b "descriptor next out of bounds")
    else if idx ∈ seen then .error (chainError b "descriptor cycle")
    else do
      let d ← m.readDesc b q idx
      if d.indirect then
        .error (if b = .hvf then "indirect descriptors not supported"
          else "virtio indirect descriptors are not supported")
      else if ¬seen.length < Backend.maxQueueSize then .error "virtio descriptor chain too long"
      else if d.hasNext then do
        let rest ← walkFrom b m q fuel (idx :: seen) d.next
        pure (d :: rest)
      else pure [d]

def walkChain (b : Backend) (m : GuestMemory) (q : Queue) (head : UInt16) : Except String (List Desc) :=
  m.walkFrom b q (Backend.maxQueueSize + 1) [] head

/-- `push_used`: the element first, the index last. --/
def pushUsed (b : Backend) (q : Queue) (id written : UInt32) : Exec GuestMemory Unit := do
  let m ← Exec.get
  let idxp ← Exec.lift (m.ptr b q.usedIdxAddr 2)
  let used := m.ram.readU16 idxp
  let entry := q.usedEntry used
  let idp ← Exec.lift (m.ptr b entry 8)
  Exec.modify (storeU32 idp id)
  let lenp ← Exec.lift (m.ptr b (entry + 4) 4)
  Exec.modify (storeU32 lenp written)
  Exec.modify (storeU16 idxp (used + 1))

end GuestMemory
end NodeVmm
