import NodeVmm.Lib.Fields
import NodeVmm.Lib.Patch
import NodeVmm.Lib.Reader

/-! The system tables of the ACPI specification as an operating system finds them in memory: the root pointer, the tables that
    it leads to, and what the fixed description table and the interrupt controller table say. Every table is checked for its
    size and for the sum of its bytes. -/

namespace SystemTables
open Reader
open Words (ascii)
open Fields (word field sum)

abbrev Bytes := List UInt8

/-! ### Finding tables -/

structure Table where
  signature : Bytes
  /-- What is behind the header. --/
  body : Bytes
  deriving DecidableEq, Repr

/-- Where the two root tables are. --/
structure Roots where
  rsdt : Nat
  xsdt : Nat
  deriving DecidableEq, Repr

/-- The bytes of a root pointer; the second version has a length and a sum of its own. --/
def rootPointer (bytes : Bytes) : Option Roots :=
  if field bytes 0 8 = ascii "RSD PTR " ∧ sum (bytes.take 20) % 256 = 0 ∧ 2 ≤ word bytes 15 1 ∧
    word bytes 20 4 = bytes.length ∧ sum bytes % 256 = 0 then some ⟨word bytes 16 4, word bytes 24 8⟩ else none

/-- The bytes of a table. --/
def table (bytes : Bytes) : Option Table :=
  if 36 ≤ bytes.length ∧ word bytes 4 4 = bytes.length ∧ sum bytes % 256 = 0 then some ⟨bytes.take 4, bytes.drop 36⟩ else none

/-- The bytes at an address, as many as the length of `n` bytes at an offset from there says. --/
def sized (mem : ByteStore) (addr lengthAt n : Nat) : Option Bytes :=
  let len := mem.word (addr + lengthAt) n
  if addr + len ≤ mem.size then some (mem.read addr len) else none

def rootsAt (mem : ByteStore) (addr : Nat) : Option Roots := do
  let bytes ← sized mem addr 20 4
  rootPointer bytes

def tableAt (mem : ByteStore) (addr : Nat) : Option Table := do
  let bytes ← sized mem addr 4 4
  table bytes

/-- The body of the table at an address, if it has the signature. --/
def bodyAt (mem : ByteStore) (signature : String) (addr : Nat) : Option Bytes := do
  let t ← tableAt mem addr
  if t.signature = ascii signature then some t.body else none

/-- A number of `n` bytes. --/
def unsigned (n : Nat) : Reader UInt8 Nat := do
  let bytes ← take n
  pure (Words.ofLe bytes)

/-- The tables that both root tables lead to. --/
def tablesAt (mem : ByteStore) (addr : Nat) : Option (List Table) := do
  let roots ← rootsAt mem addr
  let short ← bodyAt mem "RSDT" roots.rsdt
  let long ← bodyAt mem "XSDT" roots.xsdt
  let addrs ← run (toEnd (unsigned 4)) short
  let addrs' ← run (toEnd (unsigned 8)) long
  if addrs = addrs' then addrs.mapM (tableAt mem) else none

/-- The body of the first table of a signature. --/
def bodyOf (tables : List Table) (signature : String) : Option Bytes :=
  (tables.find? fun t => t.signature == ascii signature).map Table.body

/-! ### What the tables say -/

/-- The address of the description table of the devices, which the fixed table has twice. --/
def devicesAddress (fixed : Bytes) : Option Nat :=
  if word fixed 4 4 = word fixed 104 8 then some (word fixed 104 8) else none

/-- The port of the power management timer, which the fixed table has twice. --/
def timerPort (fixed : Bytes) : Option Nat :=
  if word fixed 55 1 = 4 ∧ word fixed 172 1 = 1 ∧ word fixed 40 4 = word fixed 176 8 then some (word fixed 40 4) else none

/-- The identity and the address of the event timers. --/
structure EventTimers where
  id : Nat
  address : Nat
  deriving DecidableEq, Repr

/-- They are in memory. --/
def eventTimers (body : Bytes) : Option EventTimers :=
  if body.length = 20 ∧ word body 4 1 = 0 then some ⟨word body 0 4, word body 8 8⟩ else none

/-- An entry of the interrupt controller table. --/
inductive Controller where
  | processor (processorId apicId : Nat) (enabled : Bool)
  | ioApic (id address firstInterrupt : Nat)
  /-- An interrupt of the old bus that has another number at the controller. --/
  | override (source interrupt flags : Nat)
  deriving DecidableEq, Repr

def controller : Reader UInt8 Controller := do
  let kind ← unsigned 1
  let length ← unsigned 1
  if kind = 0 then do
    require (length = 8)
    let processorId ← unsigned 1
    let apicId ← unsigned 1
    let flags ← unsigned 4
    pure (.processor processorId apicId (flags % 2 = 1))
  else if kind = 1 then do
    require (length = 12)
    let id ← unsigned 1
    let _ ← unsigned 1
    let address ← unsigned 4
    let firstInterrupt ← unsigned 4
    pure (.ioApic id address firstInterrupt)
  else do
    require (kind = 2 ∧ length = 10)
    let bus ← unsigned 1
    require (bus = 0)
    let source ← unsigned 1
    let interrupt ← unsigned 4
    let flags ← unsigned 2
    pure (.override source interrupt flags)

/-- The address at which each processor has its local controller, and the entries. --/
def interruptControllers : Reader UInt8 (Nat × List Controller) := do
  let address ← unsigned 4
  let _ ← unsigned 4
  let controllers ← toEnd controller
  pure (address, controllers)

/-- What the operating system learns. --/
structure Machine where
  /-- The code that describes the devices. --/
  devices : Bytes
  timerPort : Option Nat
  localAddress : Nat
  controllers : List Controller
  eventTimers : Option EventTimers
  deriving DecidableEq, Repr

def machineAt (mem : ByteStore) (addr : Nat) : Option Machine := do
  let tables ← tablesAt mem addr
  let fixed ← bodyOf tables "FACP"
  let devicesAddr ← devicesAddress fixed
  let devices ← bodyAt mem "DSDT" devicesAddr
  let apic ← bodyOf tables "APIC"
  let (localAddress, controllers) ← run interruptControllers apic
  pure { devices, timerPort := timerPort fixed, localAddress, controllers,
         eventTimers := (bodyOf tables "HPET").bind eventTimers }

/-! ### Reading what is there -/

section
variable {mem : ByteStore} {bytes : Bytes} {addr n v : Nat} {t : Table} {signature : String}

/-- The bytes at an address are read as they are. --/
theorem sized_eq {lengthAt : Nat} (hread : mem.read addr bytes.length = bytes) (hin : addr + bytes.length ≤ mem.size)
    (hfit : lengthAt + n ≤ bytes.length) (hlength : word bytes lengthAt n = bytes.length) :
    sized mem addr lengthAt n = some bytes := by
  have hfield : mem.read (addr + lengthAt) n = field bytes lengthAt n := by
    obtain ⟨k, hk⟩ := Nat.exists_eq_add_of_le hfit
    rw [hk, Nat.add_assoc, ByteStore.read_add, ByteStore.read_add] at hread
    rw [← hread, field, List.drop_left' ByteStore.length_read, List.take_left' ByteStore.length_read]
  have hword : mem.word (addr + lengthAt) n = bytes.length := by
    rw [ByteStore.word, hfield]
    exact hlength
  rw [sized, hword, if_pos hin, hread]

theorem tableAt_eq (hread : mem.read addr bytes.length = bytes) (hin : addr + bytes.length ≤ mem.size)
    (h : table bytes = some t) : tableAt mem addr = some t := by
  have hsound := h
  rw [table] at hsound
  split_ifs at hsound with hc
  rw [tableAt, sized_eq hread hin (by omega) hc.2.1]
  exact h

theorem bodyAt_eq (hread : mem.read addr bytes.length = bytes) (hin : addr + bytes.length ≤ mem.size)
    (h : table bytes = some t) (hsig : t.signature = ascii signature) : bodyAt mem signature addr = some t.body := by
  rw [bodyAt, tableAt_eq hread hin h]
  exact if_pos hsig

theorem rootsAt_eq {roots : Roots} (hread : mem.read addr bytes.length = bytes) (hin : addr + bytes.length ≤ mem.size)
    (hfit : 24 ≤ bytes.length) (h : rootPointer bytes = some roots) : rootsAt mem addr = some roots := by
  have hsound := h
  rw [rootPointer] at hsound
  split_ifs at hsound with hc
  rw [rootsAt, sized_eq hread hin hfit hc.2.2.2.1]
  exact h

theorem reads_unsigned (h : v < 256 ^ n) : Reads (unsigned n) (Words.le n v) v := by
  have hv : Words.ofLe (Words.le n v) = v := by rw [Words.ofLe_le, Nat.mod_eq_of_lt h]
  have hread := (reads_take (Words.length_le (n := n) (v := v))).map Words.ofLe
  rwa [hv] at hread

/-- A list of addresses is read back. --/
theorem run_pointers {addrs : List Nat} (hn : 0 < n) (h : ∀ a ∈ addrs, a < 256 ^ n) :
    run (toEnd (unsigned n)) (addrs.flatMap (Words.le n)) = some addrs := by
  have hpieces := ends_toEnd (r := unsigned n) (addrs.map fun a => (Words.le n a, a)) fun x hx => by
    obtain ⟨a, ha, rfl⟩ := List.mem_map.mp hx
    refine ⟨reads_unsigned (h a ha), List.ne_nil_of_length_pos ?_⟩
    rw [Words.length_le]
    exact hn
  simp only [List.map_map, Function.comp_def, List.map_id'] at hpieces
  exact hpieces.run

theorem tablesAt_eq {rsdt xsdt : Nat} {addrs : List Nat} (hroots : rootsAt mem addr = some ⟨rsdt, xsdt⟩)
    (hshort : bodyAt mem "RSDT" rsdt = some (addrs.flatMap (Words.le 4)))
    (hlong : bodyAt mem "XSDT" xsdt = some (addrs.flatMap (Words.le 8))) (hsmall : ∀ a ∈ addrs, a < 2 ^ 32) :
    tablesAt mem addr = addrs.mapM (tableAt mem) := by
  have hrun := run_pointers (n := 4) (by decide) hsmall
  have hrun' := run_pointers (n := 8) (by decide) fun a ha => Nat.lt_trans (hsmall a ha) (by decide)
  rw [tablesAt]
  simp only [hroots, hshort, hlong, hrun, hrun', Option.bind_eq_bind, Option.bind_some, if_pos]

theorem reads_processor {processorId apicId flags : Nat} (hp : processorId < 256) (ha : apicId < 256) (hf : flags < 2 ^ 32) :
    Reads controller (Words.le 1 0 ++ (Words.le 1 8 ++ (Words.le 1 processorId ++ (Words.le 1 apicId ++ Words.le 4 flags))))
      (.processor processorId apicId (flags % 2 = 1)) := by
  refine (reads_unsigned (by decide)).bind ((reads_unsigned (by decide)).bind ?_)
  rw [if_pos rfl]
  refine .require rfl ((reads_unsigned hp).bind ((reads_unsigned ha).bind ?_))
  exact (reads_unsigned hf).map _

theorem reads_ioApic {id reserved address firstInterrupt : Nat} (hid : id < 256) (hreserved : reserved < 256)
    (haddress : address < 2 ^ 32) (hfirst : firstInterrupt < 2 ^ 32) :
    Reads controller (Words.le 1 1 ++ (Words.le 1 12 ++ (Words.le 1 id ++ (Words.le 1 reserved ++ (Words.le 4 address ++
      Words.le 4 firstInterrupt))))) (.ioApic id address firstInterrupt) := by
  refine (reads_unsigned (by decide)).bind ((reads_unsigned (by decide)).bind ?_)
  rw [if_neg (by decide), if_pos rfl]
  refine .require rfl ((reads_unsigned hid).bind ((reads_unsigned hreserved).bind ((reads_unsigned haddress).bind ?_)))
  exact (reads_unsigned hfirst).map _

theorem reads_override {source interrupt flags : Nat} (hsource : source < 256) (hinterrupt : interrupt < 2 ^ 32)
    (hflags : flags < 2 ^ 16) :
    Reads controller (Words.le 1 2 ++ (Words.le 1 10 ++ (Words.le 1 0 ++ (Words.le 1 source ++ (Words.le 4 interrupt ++
      Words.le 2 flags))))) (.override source interrupt flags) := by
  refine (reads_unsigned (by decide)).bind ((reads_unsigned (by decide)).bind ?_)
  rw [if_neg (by decide), if_neg (by decide)]
  refine .require ⟨rfl, rfl⟩ ((reads_unsigned (by decide)).bind (.require rfl ((reads_unsigned hsource).bind ?_)))
  exact (reads_unsigned hinterrupt).bind ((reads_unsigned hflags).map _)

/-- The interrupt controllers of a table are read one by one. --/
theorem run_interruptControllers (address : Nat) {flags : Nat} (haddress : address < 2 ^ 32) (hflags : flags < 2 ^ 32)
    (pieces : List (Bytes × Controller)) (h : ∀ x ∈ pieces, Reads controller x.1 x.2 ∧ x.1 ≠ []) :
    run interruptControllers (Words.le 4 address ++ (Words.le 4 flags ++ (pieces.map Prod.fst).flatten)) =
      some (address, pieces.map Prod.snd) := by
  have hends : Ends interruptControllers (Words.le 4 address ++ (Words.le 4 flags ++ (pieces.map Prod.fst).flatten))
      (address, pieces.map Prod.snd) :=
    (reads_unsigned haddress).bind_ends ((reads_unsigned hflags).bind_ends ((ends_toEnd pieces h).map _))
  exact hends.run

end

end SystemTables
