import NodeVmm.Lib.SystemTables

/-! The tables of the multiprocessor specification as an operating system finds them: the floating pointer that it searches
    for, and the configuration that this leads to. -/

namespace MpTable
open Reader
open Words (ascii)
open Fields (word field sum)
open SystemTables (unsigned reads_unsigned)

abbrev Bytes := List UInt8

inductive Entry where
  | processor (apicId version : Nat) (enabled bootstrap : Bool)
  | bus (id : Nat) (kind : Bytes)
  | ioApic (id version : Nat) (enabled : Bool) (address : Nat)
  /-- Where an interrupt of a bus goes. --/
  | interrupt (kind flags bus irq ioApic pin : Nat)
  | localInterrupt (kind flags bus irq apic pin : Nat)
  deriving DecidableEq, Repr

structure Config where
  localAddress : Nat
  entries : List Entry
  deriving DecidableEq, Repr

def entry : Reader UInt8 Entry := do
  let type ← unsigned 1
  if type = 0 then do
    let apicId ← unsigned 1
    let version ← unsigned 1
    let flags ← unsigned 1
    let _ ← take 16
    pure (.processor apicId version (flags.testBit 0) (flags.testBit 1))
  else if type = 1 then do
    let id ← unsigned 1
    let kind ← take 6
    pure (.bus id kind)
  else if type = 2 then do
    let id ← unsigned 1
    let version ← unsigned 1
    let flags ← unsigned 1
    let address ← unsigned 4
    pure (.ioApic id version (flags.testBit 0) address)
  else do
    require (type = 3 ∨ type = 4)
    let kind ← unsigned 1
    let flags ← unsigned 2
    let bus ← unsigned 1
    let irq ← unsigned 1
    let target ← unsigned 1
    let pin ← unsigned 1
    pure (if type = 3 then .interrupt kind flags bus irq target pin else .localInterrupt kind flags bus irq target pin)

/-- The address of the configuration, if there is a floating pointer. --/
def pointerAt (mem : ByteStore) (addr : Nat) : Option Nat :=
  let bytes := mem.read addr 16
  if field bytes 0 4 = ascii "_MP_" ∧ word bytes 8 1 = 1 ∧ sum bytes % 256 = 0 ∧ word bytes 11 1 = 0 then some (word bytes 4 4)
  else none

def config (bytes : Bytes) : Option Config := do
  if field bytes 0 4 = ascii "PCMP" ∧ sum bytes % 256 = 0 then
    let entries ← run (times entry (word bytes 34 2)) (bytes.drop 44)
    pure ⟨word bytes 36 4, entries⟩
  else none

/-- The configuration behind the floating pointer at an address. --/
def configAt (mem : ByteStore) (addr : Nat) : Option Config := do
  let at' ← pointerAt mem addr
  let bytes ← SystemTables.sized mem at' 4 2
  config bytes

/-- The first of `n` paragraphs from an address on with a floating pointer. --/
def search (mem : ByteStore) (addr n : Nat) : Option Nat :=
  ((List.range n).map fun i => addr + i * 16).find? fun a => (pointerAt mem a).isSome

/-! ### Reading what is there -/

section
variable {mem : ByteStore} {bytes rest : Bytes} {addr a n : Nat} {c : Config}

theorem reads_processor {apicId version flags : Nat} (ha : apicId < 256) (hv : version < 256) (hf : flags < 256)
    (hrest : rest.length = 16) : Reads entry (Words.le 1 0 ++ (Words.le 1 apicId ++ (Words.le 1 version ++ (Words.le 1 flags ++
      rest)))) (.processor apicId version (flags.testBit 0) (flags.testBit 1)) := by
  refine (reads_unsigned (by decide)).bind ?_
  rw [if_pos rfl]
  refine (reads_unsigned ha).bind ((reads_unsigned hv).bind ((reads_unsigned hf).bind ?_))
  exact (reads_take hrest).map _

theorem reads_bus {id : Nat} (hid : id < 256) (hrest : rest.length = 6) :
    Reads entry (Words.le 1 1 ++ (Words.le 1 id ++ rest)) (.bus id rest) := by
  refine (reads_unsigned (by decide)).bind ?_
  rw [if_neg (by decide), if_pos rfl]
  exact (reads_unsigned hid).bind ((reads_take hrest).map _)

theorem reads_ioApic {id version flags address : Nat} (hid : id < 256) (hv : version < 256) (hf : flags < 256)
    (ha : address < 2 ^ 32) : Reads entry (Words.le 1 2 ++ (Words.le 1 id ++ (Words.le 1 version ++ (Words.le 1 flags ++
      Words.le 4 address)))) (.ioApic id version (flags.testBit 0) address) := by
  refine (reads_unsigned (by decide)).bind ?_
  rw [if_neg (by decide), if_neg (by decide), if_pos rfl]
  refine (reads_unsigned hid).bind ((reads_unsigned hv).bind ((reads_unsigned hf).bind ?_))
  exact (reads_unsigned ha).map _

theorem reads_interrupt {type kind flags bus irq target pin : Nat} (htype : type = 3 ∨ type = 4) (hkind : kind < 256)
    (hflags : flags < 2 ^ 16) (hbus : bus < 256) (hirq : irq < 256) (htarget : target < 256) (hpin : pin < 256) :
    Reads entry (Words.le 1 type ++ (Words.le 1 kind ++ (Words.le 2 flags ++ (Words.le 1 bus ++ (Words.le 1 irq ++
      (Words.le 1 target ++ Words.le 1 pin))))))
      (if type = 3 then .interrupt kind flags bus irq target pin else .localInterrupt kind flags bus irq target pin) := by
  refine (reads_unsigned (by omega)).bind ?_
  rw [if_neg (by omega), if_neg (by omega), if_neg (by omega)]
  refine .require htype ((reads_unsigned hkind).bind ((reads_unsigned hflags).bind ((reads_unsigned hbus).bind ?_)))
  exact (reads_unsigned hirq).bind ((reads_unsigned htarget).bind ((reads_unsigned hpin).map _))

theorem configAt_eq (hpointer : pointerAt mem addr = some a) (hread : mem.read a bytes.length = bytes)
    (hin : a + bytes.length ≤ mem.size) (hfit : 6 ≤ bytes.length) (hlength : word bytes 4 2 = bytes.length)
    (h : config bytes = some c) : configAt mem addr = some c := by
  rw [configAt, hpointer]
  simp only [Option.bind_eq_bind, Option.bind_some, SystemTables.sized_eq hread hin hfit hlength]
  exact h

/-- Where the paragraphs before have no floating pointer, the search ends at the one that has it. --/
theorem search_eq {i : Nat} (hi : i < n) (hfound : (pointerAt mem (addr + i * 16)).isSome = true)
    (hnone : ∀ j < i, pointerAt mem (addr + j * 16) = none) : search mem addr n = some (addr + i * 16) := by
  obtain ⟨k, rfl⟩ := Nat.exists_eq_add_of_lt hi
  have hfront : ((List.range i).map fun j => addr + j * 16).find? (fun a => (pointerAt mem a).isSome) = none := by
    refine List.find?_eq_none.mpr fun a ha => ?_
    obtain ⟨j, hj, rfl⟩ := List.mem_map.mp ha
    rw [hnone j (List.mem_range.mp hj)]
    simp
  have hsplit : List.range (i + k + 1) = List.range i ++ i :: (List.range k).map (i + 1 + ·) := by
    rw [show i + k + 1 = i + (1 + k) by omega, List.range_add, List.range_add]
    simp [Nat.add_assoc]
  rw [search, hsplit, List.map_append, List.find?_append, hfront, List.map_cons, Option.none_or]
  exact List.find?_cons_of_pos hfound

theorem search_none (hnone : ∀ j < n, pointerAt mem (addr + j * 16) = none) : search mem addr n = none := by
  refine List.find?_eq_none.mpr fun a ha => ?_
  obtain ⟨j, hj, rfl⟩ := List.mem_map.mp ha
  rw [hnone j (List.mem_range.mp hj)]
  simp

/-- A paragraph that does not begin with the first sign of the signature. --/
theorem pointerAt_none (h : mem.byte addr ≠ 0x5F) : pointerAt mem addr = none := by
  refine if_neg fun hc => h ?_
  have hread : (mem.read addr 16).head? = some (mem.byte addr) := rfl
  have hfield := hc.1
  rw [field, List.drop_zero] at hfield
  cases hbytes : mem.read addr 16 with
  | nil =>
    rw [hbytes] at hread
    cases hread
  | cons b bytes =>
    rw [hbytes] at hread hfield
    cases hread
    exact (List.cons.inj hfield).1

end

end MpTable
