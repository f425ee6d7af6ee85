import Mathlib.Algebra.Group.Nat.Defs
import Mathlib.Tactic.Common

/-! The emulation of MMIO accesses and of trapped system registers in the vCPU loop of
    `native/hvf/backend.cc`. The hypervisor numbers `HV_REG_X0` to `HV_REG_X30` from 0 and `HV_REG_PC` next. -/

namespace NodeVmm.Hvf

/-- The registers that the loop reads and writes. --/
structure Regs where
  x : Fin 31 → UInt64
  pc : UInt64

namespace Regs

/-- `hv_vcpu_get_reg`. A number that names no register leaves the caller's zero. --/
def get (r : Regs) (reg : Nat) : UInt64 :=
  if h : reg < 31 then r.x ⟨reg, h⟩ else if reg = 31 then r.pc else 0

/-- `hv_vcpu_set_reg`. --/
def set (r : Regs) (reg : Nat) (v : UInt64) : Regs :=
  if h : reg < 31 then { r with x := fun i => if i = ⟨reg, h⟩ then v else r.x i }
  else if reg = 31 then { r with pc := v } else r

end Regs

/-! ### ESR decode helpers -/

def esrEC (esr : UInt64) : Nat := ((esr >>> 26) &&& 0x3F).toNat

def esrWnR (esr : UInt64) : Bool := ((esr >>> 6) &&& 1) != 0

def esrSAS (esr : UInt64) : Nat := ((esr >>> 22) &&& 3).toNat

def esrSRT (esr : UInt64) : Nat := ((esr >>> 16) &&& 0x1F).toNat

def esrISV (esr : UInt64) : Bool := ((esr >>> 24) &&& 1) != 0

def esrSSE (esr : UInt64) : Bool := ((esr >>> 21) &&& 1) != 0

/-- `1u << sas`. --/
def accessLen (esr : UInt64) : Nat := 2 ^ esrSAS esr

/-- The texts of `UnsupportedExceptionReason`. --/
def hex64 (v : Nat) : String := "0x" ++ String.ofList (Nat.toDigits 16 v)

def unsupportedExceptionReason (kind : String) (ec : Nat) (syndrome ipa pc : UInt64) : String :=
  "unsupported-" ++ kind ++ " ec=" ++ hex64 ec ++ " syndrome=" ++ hex64 syndrome.toNat ++ " ipa=" ++
    hex64 ipa.toNat ++ " pc=" ++ hex64 pc.toNat

/-! ### Data aborts -/

/-- A call of `dispatch_mmio`: `data` holds 8 bytes, of which the device uses the first `len`. --/
structure Access where
  ipa : UInt64
  isWrite : Bool
  data : List UInt8
  len : Nat
  deriving DecidableEq, Repr

/-- The devices: the 8 bytes after the access, or `none` when no device is at the address. --/
abbrev Dispatch := Access → Option (List UInt8)

/-- The bytes of a register that a store passes on. --/
def storeBytes (v : UInt64) (len : Nat) : List UInt8 :=
  (List.range 8).map fun i => if i < len then (v >>> UInt64.ofNat (8 * i)).toUInt8 else 0

/-- The loop that puts the bytes of a load together. --/
def loadBytes (data : List UInt8) (len : Nat) : UInt64 :=
  (List.range (min len 8)).foldl (fun v i => v ||| ((data.getD i 0).toUInt64 <<< UInt64.ofNat (8 * i))) 0

def signExtend (v : UInt64) (len : Nat) : UInt64 :=
  let signBit : UInt64 := 1 <<< UInt64.ofNat (8 * len - 1)
  if (v &&& signBit) != 0 then v ||| ~~~((signBit <<< 1) - 1) else v

/-- The access that an abort with a valid syndrome makes. --/
def abortAccess (esr ipa : UInt64) (r : Regs) : Access where
  ipa := ipa
  isWrite := esrWnR esr
  data := if esrWnR esr then storeBytes (r.get (esrSRT esr)) (accessLen esr) else List.replicate 8 0
  len := accessLen esr

/-- What a data abort did: the access that it made, if any, and the registers after it or the reason for
    which the vCPU stops. --/
structure AbortResult where
  access : Option Access
  regs : Except String Regs

def dataAbort (dispatch : Dispatch) (esr ipa : UInt64) (r : Regs) : AbortResult :=
  if esrEC esr = 0x24 ∧ esrISV esr then
    match dispatch (abortAccess esr ipa r) with
    | none => ⟨some (abortAccess esr ipa r),
        .error (unsupportedExceptionReason "unhandled-mmio" (esrEC esr) esr ipa r.pc)⟩
    | some data =>
      let loaded :=
        if esrWnR esr then r
        else
          let v := loadBytes data (accessLen esr)
          r.set (esrSRT esr) (if esrSSE esr then signExtend v (accessLen esr) else v)
      ⟨some (abortAccess esr ipa r), .ok (loaded.set 31 (r.pc + 4))⟩
  else ⟨none, .error (unsupportedExceptionReason "unsupported-mmio-trap" (esrEC esr) esr ipa r.pc)⟩

/-! ### System registers -/

def sysReg (op0 op1 crn crm op2 : UInt32) : UInt32 :=
  (op0 <<< 20) ||| (op1 <<< 14) ||| (crn <<< 10) ||| (crm <<< 1) ||| (op2 <<< 17)

def sysRegMask : UInt32 := sysReg 0x3 0x7 0xF 0xF 0x7
def sysRegOslArEl1 : UInt32 := sysReg 2 0 1 0 4
def sysRegOslSrEl1 : UInt32 := sysReg 2 0 1 1 4
def sysRegOsdLrEl1 : UInt32 := sysReg 2 0 1 3 4
def sysRegLorcEl1 : UInt32 := sysReg 3 0 10 4 3
def sysRegCntPctEl0 : UInt32 := sysReg 3 3 14 0 1
def sysRegCntpCtlEl0 : UInt32 := sysReg 3 3 14 2 1

/-- `HandleSystemRegisterTrap`, with the clock it reads: the registers, or `none` when it did not handle the
    trap. This path does know that register 31 is the zero register. --/
def handleSystemRegisterTrap (monotonicMicros syndrome : UInt64) (r : Regs) : Option Regs :=
  let rt := ((syndrome >>> 5) &&& 0x1F).toNat
  let reg := syndrome.toUInt32 &&& sysRegMask
  if (syndrome &&& 1) != 0 then
    if reg = sysRegOslSrEl1 ∨ reg = sysRegOsdLrEl1 ∨ reg = sysRegLorcEl1 then
      some (if rt < 31 then r.set rt 0 else r)
    else if reg = sysRegCntPctEl0 then some (if rt < 31 then r.set rt (monotonicMicros * 1000) else r)
    else none
  else if reg = sysRegOslArEl1 ∨ reg = sysRegOsdLrEl1 ∨ reg = sysRegLorcEl1 ∨ reg = sysRegCntpCtlEl0 then some r
  else none

end NodeVmm.Hvf
