import Mathlib.Data.List.Basic
import NodeVmm.Lib.Words

/-! The ACPI tables of `native/whp/backend.cc` and `native/kvm/backend.cc`: the encoders of AML, which the two files have in
    common, and the DSDT that each builds with them. A `std::string` is the list of its bytes. -/

namespace NodeVmm.Acpi

abbrev Bytes := List UInt8

/-! ### Lengths -/

/-- The bytes that the length of a package takes. --/
def lengthLen (payloadLen : Nat) : Nat :=
  if 2 ^ 20 - 3 ≤ payloadLen then 4 else if 2 ^ 12 - 2 ≤ payloadLen then 3 else if 2 ^ 6 - 1 ≤ payloadLen then 2 else 1

def appendPkgLength (out : Bytes) (payloadLen : Nat) (includeSelf : Bool) : Bytes :=
  let length := payloadLen + if includeSelf then lengthLen payloadLen else 0
  match lengthLen payloadLen with
  | 1 => out ++ [UInt8.ofNat length]
  | 2 => out ++ [UInt8.ofNat (1 <<< 6 ||| length &&& 0x0F), UInt8.ofNat (length >>> 4 &&& 0xFF)]
  | 3 => out ++ [UInt8.ofNat (2 <<< 6 ||| length &&& 0x0F), UInt8.ofNat (length >>> 4 &&& 0xFF),
      UInt8.ofNat (length >>> 12 &&& 0xFF)]
  | _ => out ++ [UInt8.ofNat (3 <<< 6 ||| length &&& 0x0F), UInt8.ofNat (length >>> 4 &&& 0xFF),
      UInt8.ofNat (length >>> 12 &&& 0xFF), UInt8.ofNat (length >>> 20 &&& 0xFF)]

/-! ### Paths -/

def backslash : UInt8 := 0x5C
def dot : UInt8 := 0x2E

def partMessage (part : Bytes) : String :=
  "AML path part must be four characters: " ++ String.ofList (part.map fun b => Char.ofNat b.toNat)

def checkPart (part : Bytes) : Except String Bytes := if part.length = 4 then .ok part else .error (partMessage part)

/-- The bytes that say how many segments follow. --/
def countBytes (count : Nat) : Bytes := if count = 2 then [0x2E] else if 2 < count then [0x2F, UInt8.ofNat count] else []

def encodePath (name : Bytes) : Except String Bytes := do
  let root := name.head? == some backslash
  let name := if root then name.tail else name
  let parts ← (name.splitOn dot).mapM checkPart
  pure ((if root then [backslash] else []) ++ countBytes parts.length ++ parts.flatten)

/-! ### Data -/

def encodeString (value : Bytes) : Bytes := [0x0D] ++ value ++ [0]
def encodeByte (value : Nat) : Bytes := [0x0A] ++ Words.le 1 value
def encodeWord (value : Nat) : Bytes := [0x0B] ++ Words.le 2 value
def encodeDword (value : Nat) : Bytes := [0x0C] ++ Words.le 4 value

def encodeInteger (value : UInt64) : Bytes :=
  if value = 0 then [0x00]
  else if value = 1 then [0x01]
  else if value ≤ 0xFF then encodeByte value.toNat
  else if value ≤ 0xFFFF then encodeWord value.toNat
  else if value ≤ 0xFFFFFFFF then encodeDword value.toNat
  else [0x0E] ++ Words.le 8 value.toNat

def resMemory32Fixed (readWrite : Bool) (base length : UInt32) : Bytes :=
  [0x86] ++ Words.le 2 9 ++ [if readWrite then 1 else 0] ++ Words.le 4 base.toNat ++ Words.le 4 length.toNat

def interruptFlags (consumer edgeTriggered activeLow shared : Bool) : UInt8 :=
  let flags : UInt8 := if shared then 0x08 else 0
  let flags := if activeLow then flags ||| 0x04 else flags
  let flags := if edgeTriggered then flags ||| 0x02 else flags
  if consumer then flags ||| 0x01 else flags

def resInterrupt (consumer edgeTriggered activeLow shared : Bool) (number : UInt32) : Bytes :=
  [0x89] ++ Words.le 2 6 ++ [interruptFlags consumer edgeTriggered activeLow shared, 1] ++ Words.le 4 number.toNat

def resIoPort (base : UInt16) (length : UInt8) : Bytes :=
  [0x47, 0x01] ++ Words.le 2 base.toNat ++ Words.le 2 base.toNat ++ [0x01, length]

/-- What is in the package of a resource template: the size of the buffer, the resources and the end tag. --/
def templateContent (resources : List Bytes) : Bytes :=
  let payload := resources.flatten ++ [0x79, 0x00]
  encodeInteger (UInt64.ofNat payload.length) ++ payload

/-- With KVM there are exactly two resources. --/
def buildResourceTemplate (resources : List Bytes) : Bytes :=
  let tmp := templateContent resources
  appendPkgLength [0x11] tmp.length true ++ tmp

/-! ### Packages -/

def appendName (path value : Bytes) : Except String Bytes := do
  let path ← encodePath path
  pure ([0x08] ++ path ++ value)

/-- What is in the package of a device or a scope. --/
def packagePayload (name : Bytes) (children : List Bytes) : Except String Bytes := do
  let path ← encodePath name
  pure (path ++ children.flatten)

def appendDevice (name : Bytes) (children : List Bytes) : Except String Bytes := do
  let payload ← packagePayload name children
  pure (appendPkgLength [0x5B, 0x82] payload.length true ++ payload)

def appendScope (name : Bytes) (children : List Bytes) : Except String Bytes := do
  let payload ← packagePayload name children
  pure (appendPkgLength [0x10] payload.length true ++ payload)

/-! ### Tables -/

def tableSum (table : Bytes) : UInt8 := table.foldl (· + ·) 0

def tableChecksum (table : Bytes) : UInt8 := ~~~tableSum table + 1

def buildSdtHeader (sig : Bytes) (len : UInt32) (rev : UInt8) (tableId : Bytes) : Bytes :=
  sig.take 4 ++ Words.le 4 len.toNat ++ [rev, 0] ++ Words.ascii "GOCRKR" ++ tableId.take 8 ++ [0, 0, 0, 0] ++
    Words.le 4 0x47434154 ++ Words.le 4 0x20260402

def finalizeSdt (table : Bytes) : Bytes :=
  let table := table.set 9 0
  table.set 9 (tableChecksum table)

/-- `BuildDsdtTable`, of a body. --/
def dsdtTable (body : Bytes) : Bytes :=
  finalizeSdt (buildSdtHeader (Words.ascii "DSDT") (UInt32.ofNat (36 + body.length)) 2 (Words.ascii "GCDSDT01") ++ body)

/-! ### The DSDT -/

def virtioMmioIrqBase : UInt32 := 5
def maxIoApicPins : Nat := 24
def virtioMmioBaseAddr : UInt64 := 0xD0000000

def check (ok : Bool) (message : String) : Except String Unit := if ok then .ok () else .error message

def checkVirtioMmioDeviceCount (count : Nat) : Except String Unit := do
  check (0 < count) "at least one virtio-mmio device is required"
  check (virtioMmioIrqBase.toNat + count - 1 < maxIoApicPins) "too many virtio-mmio devices"

/-- A decimal digit. --/
def digit (n : Nat) : UInt8 := UInt8.ofNat (0x30 + n % 10)

def virtioMmioDeviceName (index : UInt32) : Except String Bytes := do
  check (index ≤ 999) "too many virtio-mmio devices"
  pure [0x56, digit (index.toNat / 100), digit (index.toNat / 10), digit index.toNat]

def virtioMmioIrq (index : UInt32) : UInt32 := virtioMmioIrqBase + index

def virtioMmioBase (stride : UInt64) (index : UInt32) : UInt64 := virtioMmioBaseAddr + index.toUInt64 * stride

def buildVirtioMmioDevice (stride : UInt64) (name : Bytes) (uid : UInt32) (base : UInt64) (irq : UInt32) :
    Except String Bytes := do
  let hid ← appendName (Words.ascii "_HID") (encodeString (Words.ascii "LNRO0005"))
  let uid ← appendName (Words.ascii "_UID") (encodeInteger uid.toUInt64)
  let cca ← appendName (Words.ascii "_CCA") [0x01]
  let crs ← appendName (Words.ascii "_CRS") (buildResourceTemplate
    [resMemory32Fixed true base.toUInt32 stride.toUInt32, resInterrupt true true false false irq])
  appendDevice name [hid, uid, cca, crs]

/-- The virtio device of an index. --/
def virtioMmioDevice (stride : UInt64) (index : UInt32) : Except String Bytes := do
  let name ← virtioMmioDeviceName index
  buildVirtioMmioDevice stride name index (virtioMmioBase stride index) (virtioMmioIrq index)

/-- The devices with an index below `count`. --/
def diskDevices (stride : UInt64) (count : UInt32) : Except String (List Bytes) :=
  (List.range count.toNat).mapM fun index => virtioMmioDevice stride (UInt32.ofNat index)

/-- The network's device, which comes after the disks. --/
def netDevice (stride : UInt64) (networkEnabled : Bool) (diskCount : UInt32) : Except String (List Bytes) :=
  if networkEnabled then (virtioMmioDevice stride diskCount).map ([·]) else pure []

namespace Kvm

def virtioStride : UInt64 := 0x1000

def buildDsdtBody (networkEnabled : Bool) (diskCount : UInt32) : Except String Bytes := do
  checkVirtioMmioDeviceCount (diskCount + if networkEnabled then 1 else 0).toNat
  let disks ← diskDevices virtioStride diskCount
  let net ← netDevice virtioStride networkEnabled diskCount
  appendScope (Words.ascii "\\_SB_") (disks ++ net)

def buildDsdtTable (networkEnabled : Bool) (diskCount : UInt32) : Except String Bytes :=
  (buildDsdtBody networkEnabled diskCount).map dsdtTable

end Kvm

namespace Whp

def virtioStride : UInt64 := 0x200
def hpetBase : UInt64 := 0xFED00000
def hpetSize : UInt64 := 0x400
def com1Base : UInt16 := 0x3F8
def com1Irq : UInt32 := 4

def buildHpetDevice : Except String Bytes := do
  let hid ← appendName (Words.ascii "_HID") (encodeString (Words.ascii "PNP0103"))
  let uid ← appendName (Words.ascii "_UID") (encodeInteger 0)
  let crs ← appendName (Words.ascii "_CRS") (buildResourceTemplate
    [resMemory32Fixed false hpetBase.toUInt32 hpetSize.toUInt32])
  appendDevice (Words.ascii "HPET") [hid, uid, crs]

def buildCom1Device : Except String Bytes := do
  let hid ← appendName (Words.ascii "_HID") (encodeString (Words.ascii "PNP0501"))
  let uid ← appendName (Words.ascii "_UID") (encodeInteger 0)
  let crs ← appendName (Words.ascii "_CRS") (buildResourceTemplate
    [resIoPort com1Base 8, resInterrupt true true false false com1Irq])
  appendDevice (Words.ascii "COM1") [hid, uid, crs]

def buildDsdtBody (networkEnabled : Bool) (diskCount : UInt32) : Except String Bytes := do
  let rngIndex := diskCount + 1
  checkVirtioMmioDeviceCount (rngIndex + 1).toNat
  let hpet ← buildHpetDevice
  let com1 ← buildCom1Device
  let disks ← diskDevices virtioStride diskCount
  let rng ← virtioMmioDevice virtioStride rngIndex
  let net ← netDevice virtioStride networkEnabled diskCount
  appendScope (Words.ascii "\\_SB_") ([hpet, com1] ++ disks ++ [rng] ++ net)

def buildDsdtTable (networkEnabled : Bool) (diskCount : UInt32) : Except String Bytes :=
  (buildDsdtBody networkEnabled diskCount).map dsdtTable

end Whp
end NodeVmm.Acpi
