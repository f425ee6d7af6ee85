import NodeVmm.Lib.Patch

/-! The start parameters of Linux on x86 as the kernel reads them: the map of the memory, the command line and the root
    pointer of the system tables. -/

namespace BootProtocol

abbrev Bytes := List UInt8

/-- An entry of the memory map. --/
structure Region where
  start : Nat
  size : Nat
  kind : Nat
  deriving DecidableEq, Repr

structure Params where
  map : List Region
  commandLine : Bytes
  rootPointer : Nat
  deriving DecidableEq, Repr

def usableKind : Nat := 1

def Region.Contains (r : Region) (a : Nat) : Prop := r.start ≤ a ∧ a < r.start + r.size

/-- An address that the kernel takes for memory of its own: a usable region has it, and no other one. --/
def Usable (map : List Region) (a : Nat) : Prop :=
  (∃ r ∈ map, r.kind = usableKind ∧ r.Contains a) ∧ ∀ r ∈ map, r.kind ≠ usableKind → ¬r.Contains a

def regionAt (mem : ByteStore) (addr : Nat) : Region := ⟨mem.word addr 8, mem.word (addr + 8) 8, mem.word (addr + 16) 4⟩

/-- So many bytes of the command line are copied. --/
def commandLineSize : Nat := 2048

def commandLineAt (mem : ByteStore) (addr : Nat) : Bytes := (mem.read addr commandLineSize).takeWhile (· != 0)

/-- The parameters, with the signatures of the sector and of the header in order. --/
def paramsAt (mem : ByteStore) (addr : Nat) : Option Params :=
  if mem.word (addr + 0x1FE) 2 = 0xAA55 ∧ mem.word (addr + 0x202) 4 = 0x53726448 then
    some { map := (List.range (mem.word (addr + 0x1E8) 1)).map fun i => regionAt mem (addr + 0x2D0 + i * 20),
           commandLine := commandLineAt mem (mem.word (addr + 0x228) 4),
           rootPointer := mem.word (addr + 0x70) 8 }
  else none

section
variable {mem : ByteStore} {line : Bytes} {addr : Nat}

theorem takeWhile_nul (rest : Bytes) : (line ++ 0 :: rest).takeWhile (· != 0) = line.takeWhile (· != 0) := by
  induction line with
  | nil => rfl
  | cons c line ih =>
    rw [List.cons_append, List.takeWhile_cons, List.takeWhile_cons, ih]

/-- A line that has room is read up to its first zero. --/
theorem commandLineAt_eq (hread : mem.read addr (line.length + 1) = line ++ [0]) (hlen : line.length < commandLineSize) :
    commandLineAt mem addr = line.takeWhile (· != 0) := by
  obtain ⟨k, hk⟩ := Nat.exists_eq_add_of_lt hlen
  have hsize : commandLineSize = line.length + 1 + k := by omega
  rw [commandLineAt, hsize, ByteStore.read_add, hread, List.append_assoc, List.singleton_append, takeWhile_nul]

end

end BootProtocol
