import NodeVmm.Disk
import NodeVmm.Virtqueue

/-! The virtio-blk device: `handle_queue` and `process_request` of the three back ends. The device model runs
    between two guest instructions, so the memory changes only by its own stores. -/

namespace NodeVmm

structure Blk where
  mem : GuestMemory
  queue : Queue
  disk : Disk
  /-- The local of `process_request` that counts the bytes stored. --/
  written : UInt32

namespace Blk

def setDisk (d : Disk) (s : Blk) : Blk := { s with disk := d }

def setMem (m : GuestMemory) (s : Blk) : Blk := { s with mem := m }

def setWritten (n : UInt32) (s : Blk) : Blk := { s with written := n }

def addWritten (n : UInt32) (s : Blk) : Blk := { s with written := s.written + n }

def bumpLastAvail (s : Blk) : Blk := { s with queue := { s.queue with lastAvail := s.queue.lastAvail + 1 } }

def onDisk {α : Type} (x : Exec Disk α) : Exec Blk α := Exec.focus Blk.disk setDisk x

def onMem {α : Type} (x : Exec GuestMemory α) : Exec Blk α := Exec.focus Blk.mem setMem x

/-- `mem_.ptr(gpa, len)`. --/
def ptr (b : Backend) (gpa : UInt64) (len : Nat) : Exec Blk Nat := do
  let s ← Exec.get
  Exec.lift (s.mem.ptr b gpa len)

def store (off : Nat) (bs : List UInt8) : Exec Blk Unit := onMem (Exec.modify (GuestMemory.store off bs))

/-- `const char id[] = "node-vmm"`, with its final zero. --/
def idBytes : List UInt8 := [110, 111, 100, 101, 45, 118, 109, 109, 0]

/-- `ReadDisk(sector, mem_.ptr(d.addr, d.len), d.len)`: what was read before an error stays in RAM. --/
def readInto (b : Backend) (sector : UInt64) (d : Desc) : Exec Blk Unit := do
  let dst ← ptr b d.addr d.len.toNat
  let part ← onDisk (Disk.readDisk b sector d.len.toNat)
  store dst part.bytes
  match part.error with
  | some e => throw e
  | none => pure ()

/-- The loop of a type-0 request over the data descriptors. --/
def readData (b : Backend) : UInt64 → List Desc → Exec Blk Unit
  | _, [] => pure ()
  | sector, d :: rest => do
    Exec.check d.writable
      (if b = .hvf then "virtio-blk read desc must be writable"
        else "virtio-blk read data descriptor must be writable")
    Exec.check (d.len % 512 == 0)
      (if b = .hvf then "virtio-blk read length not sector-aligned"
        else "virtio-blk read length must be sector-aligned")
    readInto b sector d
    let s ← Exec.get
    Exec.check (b != .hvf || s.written ≤ 0xFFFFFFFF - d.len) "virtio-blk read byte count overflow"
    Exec.modify (addWritten d.len)
    readData b (sector + (d.len / 512).toUInt64) rest

/-- The loop of a type-1 request over the data descriptors. --/
def writeData (b : Backend) : UInt64 → List Desc → Exec Blk Unit
  | _, [] => pure ()
  | sector, d :: rest => do
    Exec.check (!d.writable)
      (if b = .hvf then "virtio-blk write desc must be read-only"
        else "virtio-blk write data descriptor must be read-only")
    Exec.check (d.len % 512 == 0)
      (if b = .hvf then "virtio-blk write length not sector-aligned"
        else "virtio-blk write length must be sector-aligned")
    let src ← ptr b d.addr d.len.toNat
    let s ← Exec.get
    onDisk (Disk.writeDisk b sector (s.mem.ram.read src d.len.toNat))
    writeData b (sector + (d.len / 512).toUInt64) rest

/-- A type-8 request fills the first data descriptor, whose flags it does not look at. --/
def getId (b : Backend) : List Desc → Exec Blk Unit
  | [] => pure ()
  | d :: _ => do
    let n := min d.len.toNat idBytes.length
    let dst ← ptr b d.addr n
    store dst (idBytes.take n)
    Exec.modify (addWritten (UInt32.ofNat n))

/-- The branch on the request type, which returns the status. --/
def request (b : Backend) (type : UInt32) (sector : UInt64) (data : List Desc) : Exec Blk UInt8 := do
  if type = 0 then do
    readData b sector data
    pure 0
  else if type = 1 then do
    writeData b sector data
    pure 0
  else if type = 4 then do
    let s ← Exec.get
    if b ≠ .hvf ∧ s.disk.readOnly then pure 0
    else do
      onDisk (Disk.flush b)
      pure 0
  else if type = 8 then do
    getId b data
    pure 0
  else pure 2

/-- The checks on a chain, the request and its status byte. --/
def fulfilChain (b : Backend) (header : Desc) (data : List Desc) (statusDesc : Desc) : Exec Blk Unit := do
  Exec.check (16 ≤ header.len) "virtio-blk header too short"
  Exec.check (statusDesc.writable && 1 ≤ statusDesc.len)
    (if b = .hvf then "virtio-blk status desc invalid" else "virtio-blk status descriptor invalid")
  let hdr ← ptr b header.addr 16
  let s ← Exec.get
  let status ← request b (s.mem.ram.readU32 hdr) (s.mem.ram.readU64 (hdr + 8)) data
  let p ← ptr b statusDesc.addr 1
  store p [status]

def walk (b : Backend) (head : UInt16) : Exec Blk (List Desc) := do
  let s ← Exec.get
  Exec.lift (s.mem.walkChain b s.queue head)

/-- The try block up to its call of `push_used`. --/
def fulfil (b : Backend) (head : UInt16) : Exec Blk Unit := do
  let chain ← walk b head
  match chain with
  | header :: d :: rest => fulfilChain b header (d :: rest).dropLast ((d :: rest).getLast (by simp))
  | _ =>
    throw (if b = .hvf then "virtio-blk chain too short" else "virtio-blk descriptor chain too short")

def publish (b : Backend) (head : UInt16) (written : UInt32) : Exec Blk Unit := do
  let s ← Exec.get
  onMem (GuestMemory.pushUsed b s.queue head.toUInt32 written)

/-- The inner try block of the handler: the status byte goes to the last descriptor of the chain, which is
    walked again and not checked. --/
def reportError (b : Backend) (head : UInt16) : Exec Blk Unit :=
  tryCatch
    (do
      let chain ← walk b head
      match chain.getLast? with
      | some statusDesc => do
        let p ← ptr b statusDesc.addr 1
        store p [1]
      | none => pure ())
    fun _ => pure ()

/-- The try block. --/
def serveRequest (b : Backend) (head : UInt16) : Exec Blk Unit := do
  fulfil b head
  let s ← Exec.get
  publish b head (s.written + 1)

/-- The handler. --/
def failRequest (b : Backend) (head : UInt16) : Exec Blk Unit := do
  reportError b head
  let s ← Exec.get
  publish b head s.written

def processRequest (b : Backend) (head : UInt16) : Exec Blk Unit := do
  Exec.modify (setWritten 0)
  tryCatch (serveRequest b head) fun _ => failRequest b head

/-- One round of the loop of `handle_queue`. --/
def serveOne (b : Backend) : Exec Blk Unit := do
  let s ← Exec.get
  let p ← ptr b (s.queue.availEntry s.queue.lastAvail) 2
  Exec.modify bumpLastAvail
  processRequest b (s.mem.ram.readU16 p)

/-- The loop of `handle_queue`. A round that returns has moved `last_avail` by one, so 2^16 rounds are
    enough to meet any index. --/
def serveUntil (b : Backend) (availIdx : UInt16) : Nat → Exec Blk Unit
  | 0 => pure ()
  | fuel + 1 => do
    let s ← Exec.get
    if s.queue.lastAvail = availIdx then pure ()
    else do
      serveOne b
      serveUntil b availIdx fuel

def handleQueue (b : Backend) : Exec Blk Unit := do
  let s ← Exec.get
  let p ← ptr b s.queue.availIdxAddr 2
  serveUntil b (s.mem.ram.readU16 p) (2 ^ 16)

end Blk
end NodeVmm
