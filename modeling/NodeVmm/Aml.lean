import NodeVmm.Acpi
import NodeVmm.Lib.Reader

/-! AML by the grammar of the ACPI specification, as much of it as the tables use: trees of terms, how the encoders build
    their bytes, and a reader of the bytes. The reader goes by the bytes that the grammar gives a meaning; which characters
    stand in a name segment or a string is not checked. -/

namespace NodeVmm.Acpi.Aml
open Reader

/-! ### Trees -/

/-- A name segment: four characters, none of which separates segments. --/
structure Seg where
  bytes : Bytes
  length_eq : bytes.length = 4
  no_dot : dot ∉ bytes

structure Path where
  root : Bool
  segs : List Seg
  nonempty : segs ≠ []
  length_le : segs.length ≤ 255

inductive Resource where
  | memory32Fixed (readWrite : Bool) (base length : UInt32)
  | interrupt (consumer edgeTriggered activeLow shared : Bool) (number : UInt32)
  | ioPort (base : UInt16) (length : UInt8)

/-- A string without NUL. --/
structure NulFree where
  bytes : Bytes
  no_nul : 0 ∉ bytes

inductive Data where
  | integer (value : UInt64)
  | string (value : NulFree)
  | resources (rs : List Resource)

inductive Term where
  | scope (path : Path) (children : List Term)
  | device (path : Path) (children : List Term)
  | name (path : Path) (value : Data)

def Term.isPackage : Term → Bool
  | .name .. => false
  | _ => true

/-! ### Building -/

/-- The text that the encoders take for a path. --/
def Path.text (p : Path) : Bytes := (if p.root then [backslash] else []) ++ [dot].intercalate (p.segs.map Seg.bytes)

def Resource.encode : Resource → Bytes
  | memory32Fixed readWrite base length => resMemory32Fixed readWrite base length
  | interrupt consumer edgeTriggered activeLow shared number =>
      resInterrupt consumer edgeTriggered activeLow shared number
  | ioPort base length => resIoPort base length

def Data.encode : Data → Bytes
  | integer value => encodeInteger value
  | string value => encodeString value.bytes
  | resources rs => buildResourceTemplate (rs.map Resource.encode)

mutual

def Term.encode : Term → Except String Bytes
  | .scope path children => encodeAll children >>= appendScope path.text
  | .device path children => encodeAll children >>= appendDevice path.text
  | .name path value => appendName path.text value.encode

def encodeAll : List Term → Except String (List Bytes)
  | [] => pure []
  | t :: ts => do
    let first ← t.encode
    let rest ← encodeAll ts
    pure (first :: rest)

end

/-! ### The trees of the DSDTs -/

/-- A path of one segment. --/
def single (s : Seg) : Path := ⟨false, [s], List.cons_ne_nil _ _, by simp⟩

def seg (name : String) (h : (Words.ascii name).length = 4 ∧ dot ∉ Words.ascii name) : Seg := ⟨Words.ascii name, h.1, h.2⟩

def systemBus : Path := ⟨true, [seg "_SB_" (by decide)], List.cons_ne_nil _ _, by simp⟩

theorem digit_ne_dot (n : Nat) : digit n ≠ dot := by
  have hdigit : ∀ r : Fin 10, UInt8.ofNat (0x30 + r.val) ≠ dot := by decide
  exact hdigit ⟨n % 10, Nat.mod_lt _ (by decide)⟩

def virtioSeg (index : UInt32) : Seg where
  bytes := [0x56, digit (index.toNat / 100), digit (index.toNat / 10), digit index.toNat]
  length_eq := rfl
  no_dot := by
    have hV : dot ≠ 0x56 := by decide
    simp [hV, Ne.symm (digit_ne_dot _)]

def idOf (text : String) (h : 0 ∉ Words.ascii text) : Term :=
  .name (single (seg "_HID" (by decide))) (.string ⟨Words.ascii text, h⟩)

def uidOf (uid : UInt64) : Term := .name (single (seg "_UID" (by decide))) (.integer uid)

def resourcesOf (rs : List Resource) : Term := .name (single (seg "_CRS" (by decide))) (.resources rs)

def virtioTree (stride : UInt64) (index : UInt32) : Term :=
  .device (single (virtioSeg index))
    [idOf "LNRO0005" (by decide), uidOf index.toUInt64, .name (single (seg "_CCA" (by decide))) (.integer 1),
      resourcesOf [.memory32Fixed true (virtioMmioBase stride index).toUInt32 stride.toUInt32,
        .interrupt true true false false (virtioMmioIrq index)]]

/-- The trees of the virtio devices with an index below `count`. --/
def diskTrees (stride : UInt64) (count : UInt32) : List Term :=
  (List.range count.toNat).map fun index => virtioTree stride (UInt32.ofNat index)

def netTrees (stride : UInt64) (networkEnabled : Bool) (diskCount : UInt32) : List Term :=
  if networkEnabled then [virtioTree stride diskCount] else []

def kvmDsdt (networkEnabled : Bool) (diskCount : UInt32) : Term :=
  .scope systemBus (diskTrees Kvm.virtioStride diskCount ++ netTrees Kvm.virtioStride networkEnabled diskCount)

def hpetTree : Term :=
  .device (single (seg "HPET" (by decide)))
    [idOf "PNP0103" (by decide), uidOf 0, resourcesOf [.memory32Fixed false Whp.hpetBase.toUInt32 Whp.hpetSize.toUInt32]]

def com1Tree : Term :=
  .device (single (seg "COM1" (by decide)))
    [idOf "PNP0501" (by decide), uidOf 0,
      resourcesOf [.ioPort Whp.com1Base 8, .interrupt true true false false Whp.com1Irq]]

def whpDsdt (networkEnabled : Bool) (diskCount : UInt32) : Term :=
  .scope systemBus ([hpetTree, com1Tree] ++ diskTrees Whp.virtioStride diskCount ++
    [virtioTree Whp.virtioStride (diskCount + 1)] ++ netTrees Whp.virtioStride networkEnabled diskCount)

/-! ### Reading -/

/-- PkgLength: the length, and how many bytes it takes itself. The two high bits of the first byte say how many follow. --/
def pkgLength : Reader UInt8 (Nat × Nat) := do
  let lead ← next
  let follow ← take (lead >>> 6).toNat
  if follow = [] then pure ((lead &&& 0x3F).toNat, 1)
  else do
    require (lead &&& 0x30 = 0)
    pure ((lead &&& 0x0F).toNat + 16 * Words.ofLe follow, follow.length + 1)

/-- A package, of which `r` reads all. --/
def package {α : Type} (r : Reader UInt8 α) : Reader UInt8 α := do
  let (length, width) ← pkgLength
  require (width ≤ length)
  framed (length - width) r

def nameSeg : Reader UInt8 Seg := do
  let bytes ← take 4
  if h : bytes.length = 4 ∧ dot ∉ bytes then pure ⟨bytes, h.1, h.2⟩ else fail

/-- The bytes that do not begin a segment: they stand for the root, the parent, several segments or none. --/
def notLead : Bytes := [backslash, 0x5E, 0x2F, 0x00]

/-- How many segments a NamePath has. --/
def segCount : Reader UInt8 Nat := do
  let lead ← peek
  if lead = 0x2E then do
    let _ ← next
    pure 2
  else if lead = 0x2F then do
    let _ ← next
    let count ← next
    pure count.toNat
  else do
    require (lead ∉ notLead)
    pure 1

/-- A NameString, other than one that goes up to a parent or is null. --/
def nameString : Reader UInt8 Path := do
  let root ← skip backslash
  let count ← segCount
  let segs ← times nameSeg count
  if h : segs ≠ [] ∧ segs.length ≤ 255 then pure ⟨root, segs, h.1, h.2⟩ else fail

def word (n : Nat) : Reader UInt8 Nat := do
  let bytes ← take n
  pure (Words.ofLe bytes)

def integer : Reader UInt8 UInt64 := do
  let op ← next
  if op = 0x00 then pure 0
  else if op = 0x01 then pure 1
  else if op = 0xFF then pure 0xFFFFFFFFFFFFFFFF
  else do
    let value ← if op = 0x0A then word 1 else if op = 0x0B then word 2 else if op = 0x0C then word 4
      else if op = 0x0E then word 8 else fail
    pure (UInt64.ofNat value)

def string : Reader UInt8 NulFree := do
  let op ← next
  require (op = 0x0D)
  let bytes ← untilItem 0
  if h : 0 ∉ bytes then pure ⟨bytes, h⟩ else fail

def memory32Fixed : Reader UInt8 Resource := do
  let length ← word 2
  require (length = 9)
  let info ← next
  require (info &&& 0xFE = 0)
  let base ← word 4
  let size ← word 4
  pure (.memory32Fixed (info &&& 0x01 != 0) (UInt32.ofNat base) (UInt32.ofNat size))

/-- An extended interrupt descriptor with one interrupt, which does not wake the system. --/
def interrupt : Reader UInt8 Resource := do
  let length ← word 2
  require (length = 6)
  let flags ← next
  require (flags &&& 0xF0 = 0)
  let count ← next
  require (count = 1)
  let number ← word 4
  pure (.interrupt (flags &&& 0x01 != 0) (flags &&& 0x02 != 0) (flags &&& 0x04 != 0) (flags &&& 0x08 != 0)
    (UInt32.ofNat number))

/-- An I/O port descriptor of one place, with 16-bit decoding and no alignment. --/
def ioPort : Reader UInt8 Resource := do
  let info ← next
  require (info = 1)
  let least ← word 2
  let greatest ← word 2
  require (greatest = least)
  let alignment ← next
  require (alignment = 1)
  let length ← next
  pure (.ioPort (UInt16.ofNat least) length)

/-- The next descriptor of a resource template, or its end tag. --/
def descriptor : Reader UInt8 (Option Resource) := do
  let tag ← next
  if tag = 0x79 then do
    let checksum ← next
    require (checksum = 0)
    pure none
  else do
    let resource ← if tag = 0x86 then memory32Fixed else if tag = 0x89 then interrupt else if tag = 0x47 then ioPort else fail
    pure (some resource)

/-- The resources, when the end tag is the last descriptor and the only one. --/
def closed : List (Option Resource) → Option (List Resource)
  | [none] => some []
  | some r :: rest => (closed rest).map (r :: ·)
  | _ => none

def template : Reader UInt8 (List Resource) := do
  let descriptors ← toEnd descriptor
  match closed descriptors with
  | some rs => pure rs
  | none => fail

/-- A buffer: its size, and as many bytes. --/
def buffer : Reader UInt8 (List Resource) := do
  let op ← next
  require (op = 0x11)
  package do
    let size ← integer
    framed size.toNat template

def data : Reader UInt8 Data := do
  let op ← peek
  if op = 0x0D then do
    let value ← string
    pure (.string value)
  else if op = 0x11 then do
    let rs ← buffer
    pure (.resources rs)
  else do
    let value ← integer
    pure (.integer value)

/-- A term of at most so many levels. --/
def term : Nat → Reader UInt8 Term
  | 0 => fail
  | levels + 1 => do
    let op ← next
    if op = 0x10 then package do
      let path ← nameString
      let children ← toEnd (term levels)
      pure (.scope path children)
    else if op = 0x5B then do
      let ext ← next
      require (ext = 0x82)
      package do
        let path ← nameString
        let children ← toEnd (term levels)
        pure (.device path children)
    else do
      require (op = 0x08)
      let path ← nameString
      let value ← data
      pure (.name path value)

/-- The terms of a definition block. --/
def read (input : Bytes) : Option (List Term) := run (toEnd (term input.length)) input

end NodeVmm.Acpi.Aml
