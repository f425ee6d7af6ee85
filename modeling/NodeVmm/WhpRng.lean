import NodeVmm.WhpNet

/-! The queue of the entropy device, `native/whp/virtio/rng.cc`. The host's generator is a parameter: the bytes that
    it gives and the calls that fail. -/

namespace NodeVmm.Whp

/-- `BCryptGenRandom`. --/
structure Generator where
  /-- The bytes of all calls in a row. --/
  byte : Nat → UInt8
  fails : Nat → Bool

/-- `write_reg` takes only sizes from 1 to 64. --/
structure VirtioRng where
  mem : GuestMemory
  queue : NodeVmm.Queue
  size_le : queue.size ≤ 64
  interruptStatus : UInt32
  /-- The calls of `raise_irq_`. --/
  irqRequests : Nat
  /-- The calls of the generator. --/
  calls : Nat
  /-- The bytes that it gave, each of which was stored. --/
  drawn : Nat

namespace VirtioRng

def bumpLastAvail (s : VirtioRng) : VirtioRng := { s with queue := { s.queue with lastAvail := s.queue.lastAvail + 1 } }

def countCall (s : VirtioRng) : VirtioRng := { s with calls := s.calls + 1 }

/-- The next bytes of the generator, stored at `dst`. --/
def draw (g : Generator) (dst len : Nat) (s : VirtioRng) : VirtioRng :=
  { s with mem := s.mem.store dst ((List.range len).map fun i => g.byte (s.drawn + i)), drawn := s.drawn + len }

/-! ### Filling a buffer -/

def genRandom (g : Generator) (dst chunk : Nat) : Exec VirtioRng Unit := do
  let s ← Exec.get
  Exec.modify countCall
  Exec.check (!g.fails s.calls) "BCryptGenRandom failed"
  Exec.modify (draw g dst chunk)

/-- The largest part that one call gives. --/
def maxChunk : Nat := 1048576

/-- The loop of `fill_random`. Each round leaves less to fill, so `len` rounds are enough. --/
def fillFrom (g : Generator) : Nat → Nat → Nat → Exec VirtioRng Unit
  | 0, _, _ => pure ()
  | fuel + 1, dst, len =>
    if len = 0 then pure ()
    else do
      genRandom g dst (min len maxChunk)
      fillFrom g fuel (dst + min len maxChunk) (len - min len maxChunk)

def fillRandom (g : Generator) (dst len : Nat) : Exec VirtioRng Unit := fillFrom g len dst len

/-! ### A chain -/

/-- What one descriptor makes of the bytes written so far. --/
def serviceDesc (g : Generator) (d : Desc) (written : UInt32) : Exec VirtioRng UInt32 := do
  let s ← Exec.get
  if d.writable && d.len != 0 then
    match ptrOrNull s.mem d.addr d.len.toNat with
    | some dst => do
      fillRandom g dst d.len.toNat
      pure (written + d.len)
    | none => pure written
  else pure written

/-- The loop of `service_chain`, with the rounds that are left and the indices that it has seen. --/
def serviceFrom (g : Generator) : Nat → List UInt16 → UInt16 → UInt32 → Exec VirtioRng UInt32
  | 0, _, _, written => pure written
  | hops + 1, seen, idx, written => do
    let s ← Exec.get
    if s.queue.size ≤ idx.toNat ∨ idx ∈ seen then pure written
    else
      match ptrOrNull s.mem (s.queue.descEntry idx) 16 with
      | none => pure written
      | some p => do
        let written ← serviceDesc g (descAt s.mem p) written
        if (descAt s.mem p).hasNext then serviceFrom g hops (idx :: seen) (descAt s.mem p).next written
        else pure written

def serviceChain (g : Generator) (head : UInt16) : Exec VirtioRng UInt32 := do
  let s ← Exec.get
  serviceFrom g s.queue.size [] head 0

/-- `push_used`. --/
def pushUsed (id : UInt16) (written : UInt32) (s : VirtioRng) : VirtioRng :=
  match ptrOrNull s.mem s.queue.usedIdxAddr 2 with
  | none => s
  | some idxp =>
    match ptrOrNull s.mem (s.queue.usedEntry (s.mem.ram.readU16 idxp)) 8 with
    | none => s
    | some elem =>
      let m := (s.mem.storeU32 elem id.toUInt32).storeU32 (elem + 4) written
      { s with mem := m.storeU16 idxp (s.mem.ram.readU16 idxp + 1) }

/-! ### The queue -/

/-- One round of the loop of `handle_queue`, and whether it found its entry of the avail ring. --/
def serveOne (g : Generator) : Exec VirtioRng Bool := do
  let s ← Exec.get
  match ptrOrNull s.mem (s.queue.availEntry s.queue.lastAvail) 2 with
  | none => pure false
  | some headp => do
    Exec.modify bumpLastAvail
    let written ← serviceChain g (s.mem.ram.readU16 headp)
    Exec.modify (pushUsed (s.mem.ram.readU16 headp) written)
    pure true

/-- The loop of `handle_queue`, which gives the flag `processed`. A round that goes on has moved `last_avail` by one,
    so 2^16 rounds are enough to meet any index. --/
def serveUntil (g : Generator) (availIdx : UInt16) : Nat → Bool → Exec VirtioRng Bool
  | 0, processed => pure processed
  | fuel + 1, processed => do
    let s ← Exec.get
    if s.queue.lastAvail = availIdx then pure processed
    else do
      let found ← serveOne g
      if found then serveUntil g availIdx fuel true else pure processed

/-- The interrupt, unless the driver asked for none. --/
def signal (s : VirtioRng) : VirtioRng :=
  if readU16 s.mem s.queue.driverAddr &&& 1 = 0 then
    { s with interruptStatus := s.interruptStatus ||| 1, irqRequests := s.irqRequests + 1 }
  else s

/-- The test at the start of `handle_queue`; a queue is never empty. --/
def usable (s : VirtioRng) : Bool :=
  s.queue.ready && s.queue.descAddr != 0 && s.queue.driverAddr != 0 && s.queue.deviceAddr != 0

def handleQueue (g : Generator) : Exec VirtioRng Unit := do
  let s ← Exec.get
  if s.usable then
    match ptrOrNull s.mem s.queue.availIdxAddr 2 with
    | none => pure ()
    | some p => do
      let processed ← serveUntil g (s.mem.ram.readU16 p) (2 ^ 16) false
      if processed then Exec.modify signal else pure ()
  else pure ()

/-- A write to QueueNotify. --/
def notify (g : Generator) (value : UInt32) : Exec VirtioRng Unit := if value = 0 then handleQueue g else pure ()

end VirtioRng
end NodeVmm.Whp
