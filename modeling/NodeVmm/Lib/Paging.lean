import NodeVmm.Lib.Patch

/-! The translation of addresses by the page tables of a processor in long mode: four levels, the lowest of which has pages of
    4 KiB; an entry of the two above it can be a page of 2 MiB or 1 GiB. -/

namespace Paging

/-- A page that an address is in: where the address leads, and what the entries on the way to it allow. --/
structure Page where
  physical : Nat
  writable : Bool
  user : Bool
  deriving DecidableEq, Repr

/-- The entry of an index, if it is present. --/
def entry (mem : ByteStore) (table index : Nat) : Option Nat :=
  let e := mem.word (table + 8 * index) 8
  if e.testBit 0 then some e else none

/-- The address in an entry, of 52 bits of which the lowest `shift` are not its own. --/
def address (shift e : Nat) : Nat := e % 2 ^ 52 / 2 ^ shift * 2 ^ shift

/-- The page of an entry whose part of the address has `shift` bits. --/
def page (shift e v : Nat) : Page := ⟨address shift e + v % 2 ^ shift, e.testBit 1, e.testBit 2⟩

/-- From a table on, which has so many levels below it. --/
def walk (mem : ByteStore) : Nat → Nat → Nat → Option Page
  | 0, table, v => (entry mem table (v / 2 ^ 12 % 512)).map fun e => page 12 e v
  | level + 1, table, v => do
    let shift := 12 + 9 * (level + 1)
    let e ← entry mem table (v / 2 ^ shift % 512)
    if e.testBit 7 then
      if level < 2 then some (page shift e v) else none
    else do
      let p ← walk mem level (address 12 e) v
      some { p with writable := e.testBit 1 && p.writable, user := e.testBit 2 && p.user }

/-- The page of an address of 48 bits. --/
def translate (mem : ByteStore) (cr3 v : Nat) : Option Page := walk mem 3 (address 12 cr3) v

section
variable {mem : ByteStore} {table index level shift e a k v flags : Nat}

theorem address_eq (ha : a * 2 ^ shift + flags < 2 ^ 52) (hflags : flags < 2 ^ shift) :
    address shift (a * 2 ^ shift + flags) = a * 2 ^ shift := by
  rw [address, Nat.mod_eq_of_lt ha, Nat.add_comm, Nat.add_mul_div_right _ _ (Nat.two_pow_pos shift),
    Nat.div_eq_of_lt hflags, Nat.zero_add]

theorem address_of_aligned (ha : a < 2 ^ 52) (h : a % 2 ^ shift = 0) : address shift a = a := by
  rw [address, Nat.mod_eq_of_lt ha, Nat.div_mul_cancel (Nat.dvd_of_mod_eq_zero h)]

/-- The flags are below the address. --/
theorem testBit_flags (hshift : k < shift) : (a * 2 ^ shift + flags).testBit k = flags.testBit k := by
  have hmod : ∀ n : Nat, (n % 2 ^ shift).testBit k = n.testBit k := fun n => by
    rw [Nat.testBit_mod_two_pow, decide_eq_true hshift, Bool.true_and]
  rw [← hmod, Nat.mul_add_mod_self_right, hmod]

theorem or_flags (shift : Nat) (hflags : flags < 2 ^ shift) : a * 2 ^ shift ||| flags = a * 2 ^ shift + flags := by
  rw [Nat.mul_comm, Nat.two_pow_add_eq_or_of_lt hflags]

theorem entry_some (hword : mem.word (table + 8 * index) 8 = e) (hpresent : e.testBit 0 = true) :
    entry mem table index = some e := by
  rw [entry, hword, if_pos hpresent]

theorem entry_none (hword : mem.word (table + 8 * index) 8 = 0) : entry mem table index = none := by
  rw [entry, hword]
  rfl

theorem walk_none (hshift : shift = 12 + 9 * (level + 1)) (h : entry mem table (v / 2 ^ shift % 512) = none) :
    walk mem (level + 1) table v = none := by
  subst hshift
  rw [walk, h]
  rfl

/-- An entry with the address of a table of the next level. --/
theorem walk_table (hshift : shift = 12 + 9 * (level + 1))
    (hword : mem.word (table + 8 * (v / 2 ^ shift % 512)) 8 = a * 2 ^ 12 + flags) (hflags : flags < 2 ^ 12)
    (ha : a * 2 ^ 12 + flags < 2 ^ 52) (hpresent : flags.testBit 0 = true) (hlarge : flags.testBit 7 = false) :
    walk mem (level + 1) table v = (walk mem level (a * 2 ^ 12) v).map fun p =>
      { p with writable := flags.testBit 1 && p.writable, user := flags.testBit 2 && p.user } := by
  have hbit : ∀ k < 12, (a * 2 ^ 12 + flags).testBit k = flags.testBit k := fun k hk => testBit_flags hk
  have hentry := entry_some hword ((hbit 0 (by decide)).trans hpresent)
  have hnot : ¬(a * 2 ^ 12 + flags).testBit 7 = true := by
    rw [hbit 7 (by decide), hlarge]
    exact Bool.false_ne_true
  subst hshift
  rw [walk, hentry]
  dsimp only [bind, Option.bind]
  rw [if_neg hnot, address_eq ha hflags, hbit 1 (by decide), hbit 2 (by decide)]
  cases walk mem level (a * 2 ^ 12) v <;> rfl

/-- An entry with the address of a page, of the first or the second level above the lowest. --/
theorem walk_large (hshift : shift = 12 + 9 * (level + 1)) (hlevel : level < 2)
    (hword : mem.word (table + 8 * (v / 2 ^ shift % 512)) 8 = a * 2 ^ shift + flags) (hflags : flags < 2 ^ shift)
    (ha : a * 2 ^ shift + flags < 2 ^ 52) (hpresent : flags.testBit 0 = true) (hlarge : flags.testBit 7 = true) :
    walk mem (level + 1) table v =
      some ⟨a * 2 ^ shift + v % 2 ^ shift, flags.testBit 1, flags.testBit 2⟩ := by
  have hbit : ∀ k < 12, (a * 2 ^ shift + flags).testBit k = flags.testBit k := fun k hk => testBit_flags (by omega)
  have hentry := entry_some hword ((hbit 0 (by decide)).trans hpresent)
  have hbig := (hbit 7 (by decide)).trans hlarge
  subst hshift
  rw [walk, hentry]
  dsimp only [bind, Option.bind]
  rw [if_pos hbig, if_pos hlevel, page, address_eq ha hflags, hbit 1 (by decide), hbit 2 (by decide)]

end

end Paging
