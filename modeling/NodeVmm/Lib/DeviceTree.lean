import Mathlib.Data.List.Basic
import Mathlib.Data.List.Infix
import NodeVmm.Lib.Reader
import NodeVmm.Lib.Words

/-! Device trees in the flattened format of the DeviceTree specification (version 17): a tree, a reader of a blob that checks
    what the format asks of it, and the blob of a tree, with the round trip. A name in the structure block is an offset into
    the strings block. -/

namespace DeviceTree
open Reader
open Words (ascii)

abbrev Bytes := List UInt8

inductive Node where
  | mk (name : Bytes) (props : List (Bytes × Bytes)) (children : List Node)

namespace Node

def name : Node → Bytes
  | mk name _ _ => name

def props : Node → List (Bytes × Bytes)
  | mk _ props _ => props

def children : Node → List Node
  | mk _ _ children => children

/-- The value of a property. --/
def prop (n : Node) (name : Bytes) : Option Bytes := n.props.lookup name

/-- The child of a name. --/
def child (n : Node) (name : Bytes) : Option Node := n.children.find? fun c => c.name == name

end Node

mutual

/-- The node and all below it. --/
def Node.nodes : Node → List Node
  | .mk name props children => .mk name props children :: nodesAll children

def nodesAll : List Node → List Node
  | [] => []
  | n :: ns => n.nodes ++ nodesAll ns

end

/-! ### Tokens -/

def beginNode : Nat := 1
def endNode : Nat := 2
def propToken : Nat := 3
def endToken : Nat := 9

/-- The zeros after so many bytes, up to the next token. --/
def pad (n : Nat) : Bytes := List.replicate ((4 - n % 4) % 4) 0

/-! ### Reading -/

def word : Reader UInt8 Nat := do
  let bytes ← take 4
  pure (Words.ofBe bytes)

def padding (n : Nat) : Reader UInt8 Unit := do
  let zeros ← take (pad n).length
  require (zeros = pad n)

/-- The name at an offset of the strings block, if a NUL ends it there. --/
def stringAt (strings : Bytes) (off : Nat) : Option Bytes := (untilItem 0 (strings.drop off)).map Prod.fst

def property (strings : Bytes) : Reader UInt8 (Bytes × Bytes) := do
  let len ← word
  let off ← word
  let value ← take len
  padding len
  match stringAt strings off with
  | some name => pure (name, value)
  | none => fail

/-- What a node is made of. --/
inductive Item where
  | prop (p : Bytes × Bytes)
  | child (n : Node)

/-- The properties come first. --/
def Item.split : List Item → Option (List (Bytes × Bytes) × List Node)
  | [] => some ([], [])
  | .prop p :: rest => (split rest).map fun (props, children) => (p :: props, children)
  | .child n :: rest => do
    match ← split rest with
    | ([], children) => pure ([], n :: children)
    | _ => none

/-- A property, a node of at most so many levels, or the end of the node that they are in. --/
def item (strings : Bytes) : Nat → Reader UInt8 (Option Item)
  | 0 => fail
  | levels + 1 => do
    let token ← word
    if token = propToken then do
      let p ← property strings
      pure (some (.prop p))
    else if token = beginNode then do
      let name ← untilItem 0
      padding (name.length + 1)
      let items ← listOf (item strings levels)
      match Item.split items with
      | some (props, children) => pure (some (.child (.mk name props children)))
      | none => fail
    else do
      require (token = endNode)
      pure none

/-- The structure block: one node, and nothing after it. --/
def structBlock (strings : Bytes) (levels : Nat) : Reader UInt8 Node := do
  match ← item strings levels with
  | some (.child root) => do
    let token ← word
    require (token = endToken)
    pure root
  | _ => fail

structure Header where
  magic : Nat
  totalsize : Nat
  offDtStruct : Nat
  offDtStrings : Nat
  offMemRsvmap : Nat
  version : Nat
  lastCompVersion : Nat
  bootCpuidPhys : Nat
  sizeDtStrings : Nat
  sizeDtStruct : Nat

def header : Reader UInt8 Header := do
  let magic ← word
  let totalsize ← word
  let offDtStruct ← word
  let offDtStrings ← word
  let offMemRsvmap ← word
  let version ← word
  let lastCompVersion ← word
  let bootCpuidPhys ← word
  let sizeDtStrings ← word
  let sizeDtStruct ← word
  pure { magic, totalsize, offDtStruct, offDtStrings, offMemRsvmap, version, lastCompVersion, bootCpuidPhys, sizeDtStrings,
         sizeDtStruct }

/-- The next entry of the memory reservation block, unless it is the one that ends it. --/
def reservation : Reader UInt8 (Option (Nat × Nat)) := do
  let address ← take 8
  let size ← take 8
  pure (if Words.ofBe address = 0 ∧ Words.ofBe size = 0 then none else some (Words.ofBe address, Words.ofBe size))

/-- The blocks are in the blob, each aligned and after the one before it. --/
def Header.Ok (h : Header) (size reserved : Nat) : Prop :=
  h.magic = 0xD00DFEED ∧ h.totalsize = size ∧ h.version = 17 ∧ h.lastCompVersion ≤ 17 ∧
    40 ≤ h.offMemRsvmap ∧ h.offMemRsvmap % 8 = 0 ∧ h.offMemRsvmap + 16 * (reserved + 1) ≤ h.offDtStruct ∧
    h.offDtStruct % 4 = 0 ∧ h.sizeDtStruct % 4 = 0 ∧ h.offDtStruct + h.sizeDtStruct ≤ h.offDtStrings ∧
    h.offDtStrings + h.sizeDtStrings ≤ h.totalsize

instance (h : Header) (size reserved : Nat) : Decidable (h.Ok size reserved) := inferInstanceAs (Decidable (_ ∧ _))

/-- The reservations and the tree of a blob. --/
def parse (blob : Bytes) : Option (List (Nat × Nat) × Node) := do
  let (h, _) ← header blob
  let (reserved, _) ← listOf reservation (blob.drop h.offMemRsvmap)
  if h.Ok blob.length reserved.length then do
    let strings := (blob.drop h.offDtStrings).take h.sizeDtStrings
    let root ← run (structBlock strings h.sizeDtStruct) ((blob.drop h.offDtStruct).take h.sizeDtStruct)
    pure (reserved, root)
  else none

/-! ### Standard properties -/

/-- A property of one cell. --/
def Node.cell (n : Node) (name : Bytes) : Option Nat := (n.prop name).bind (run word)

/-- A property of one text. --/
def Node.text (n : Node) (name : Bytes) : Option Bytes := (n.prop name).bind (run (untilItem 0))

/-- An address and a size of so many cells. --/
def range (addressCells sizeCells : Nat) : Reader UInt8 (Nat × Nat) := do
  let address ← take (4 * addressCells)
  let size ← take (4 * sizeCells)
  pure (Words.ofBe address, Words.ofBe size)

/-- The range of a child, in the cells that its parent says. --/
def Node.reg (parent child : Node) : Option (Nat × Nat) := do
  let addressCells ← parent.cell (ascii "#address-cells")
  let sizeCells ← parent.cell (ascii "#size-cells")
  let value ← child.prop (ascii "reg")
  run (range addressCells sizeCells) value

/-- The nodes of a device type. --/
def Node.ofType (t : Node) (type : Bytes) : List Node := t.nodes.filter fun n => n.text (ascii "device_type") == some type

/-- The nodes of a phandle, of which there is one at most in a sound tree. --/
def Node.withPhandle (t : Node) (phandle : Nat) : List Node :=
  t.nodes.filter fun n => n.cell (ascii "phandle") == some phandle

/-- An entry of an interrupt map: the unit and the interrupt of the child, the parent and the unit and the interrupt there. --/
def mapEntry (t : Node) (childCells : Nat) : Reader UInt8 Node := do
  let _ ← take (4 * childCells)
  let phandle ← word
  match t.withPhandle phandle with
  | [parent] =>
    match parent.cell (ascii "#address-cells"), parent.cell (ascii "#interrupt-cells") with
    | some addressCells, some interruptCells => do
      let _ ← take (4 * (addressCells + interruptCells))
      pure parent
    | _, _ => fail
  | _ => fail

/-- The parents that the interrupt map of a node goes to. --/
def Node.interruptMap (t n : Node) : Option (List Node) := do
  let addressCells ← n.cell (ascii "#address-cells")
  let interruptCells ← n.cell (ascii "#interrupt-cells")
  let value ← n.prop (ascii "interrupt-map")
  run (toEnd (mapEntry t (addressCells + interruptCells))) value

/-! ### The blob of a tree -/

def propStrings (props : List (Bytes × Bytes)) : Bytes := props.flatMap fun p => p.1 ++ [0]

mutual

/-- The names of the properties of a node and of those below it. --/
def nodeStrings : Node → Bytes
  | .mk _ props children => propStrings props ++ allStrings children

def allStrings : List Node → Bytes
  | [] => []
  | n :: ns => nodeStrings n ++ allStrings ns

end

/-- A property whose name is at an offset of the strings block. --/
def propBytes (off : Nat) (value : Bytes) : Bytes :=
  Words.be 4 propToken ++ Words.be 4 value.length ++ Words.be 4 off ++ value ++ pad value.length

def propsBytes (off : Nat) : List (Bytes × Bytes) → Bytes
  | [] => []
  | p :: ps => propBytes off p.2 ++ propsBytes (off + (p.1.length + 1)) ps

def nameBytes (name : Bytes) : Bytes := Words.be 4 beginNode ++ name ++ [0] ++ pad (name.length + 1)

mutual

/-- A node, with the names of its properties from an offset of the strings block on. --/
def nodeBytes (off : Nat) : Node → Bytes
  | .mk name props children =>
    nameBytes name ++ propsBytes off props ++ allBytes (off + (propStrings props).length) children ++ Words.be 4 endNode

def allBytes (off : Nat) : List Node → Bytes
  | [] => []
  | n :: ns => nodeBytes off n ++ allBytes (off + (nodeStrings n).length) ns

end

def structBytes (root : Node) : Bytes := nodeBytes 0 root ++ Words.be 4 endToken

/-- The header of a blob without reservations. --/
def headerBytes (structSize stringsSize total : Nat) : Bytes :=
  Words.be 4 0xD00DFEED ++ Words.be 4 total ++ Words.be 4 56 ++ Words.be 4 (56 + structSize) ++ Words.be 4 40 ++
    Words.be 4 17 ++ Words.be 4 16 ++ Words.be 4 0 ++ Words.be 4 stringsSize ++ Words.be 4 structSize

def blob (root : Node) : Bytes :=
  let size := 56 + (structBytes root).length + (nodeStrings root).length
  headerBytes (structBytes root).length (nodeStrings root).length (size + (pad size).length) ++ List.replicate 16 0 ++
    structBytes root ++ nodeStrings root ++ pad size

/-! ### The round trip -/

section
variable {strings : Bytes} {off levels n : Nat}

theorem reads_word {v : Nat} (h : v < 2 ^ 32) : Reads word (Words.be 4 v) v := by
  have hv : Words.ofBe (Words.be 4 v) = v := by
    rw [Words.ofBe_be]
    exact Nat.mod_eq_of_lt h
  have hread := (reads_take (Words.length_be (n := 4) (v := v))).map Words.ofBe
  rwa [hv] at hread

theorem reads_padding (n : Nat) : Reads (padding n) (pad n) () :=
  (reads_take rfl).then (reads_require rfl)

theorem stringAt_of_isPrefix {name : Bytes} (h : 0 ∉ name) (hat : name ++ [0] <+: strings.drop off) :
    stringAt strings off = some name := by
  obtain ⟨after, ha⟩ := hat
  rw [stringAt, ← ha, reads_untilItem h after]
  rfl

/-- What follows in the strings block is at the next offset. --/
theorem isPrefix_drop_of_append {p q l : Bytes} (h : p ++ q <+: l.drop off) : q <+: l.drop (off + p.length) := by
  obtain ⟨after, ha⟩ := h
  rw [← List.drop_drop, ← ha, List.append_assoc, List.drop_left]
  exact List.prefix_append q after

theorem lt_of_isPrefix {name : Bytes} (hat : name ++ [0] <+: strings.drop off) : off < strings.length := by
  have hle := hat.length_le
  rw [List.length_append, List.length_drop, List.length_singleton] at hle
  omega

theorem reads_property {p : Bytes × Bytes} (hname : 0 ∉ p.1) (hat : p.1 ++ [0] <+: strings.drop off)
    (hstrings : strings.length < 2 ^ 32) (hvalue : p.2.length < 2 ^ 32) :
    Reads (property strings) (Words.be 4 p.2.length ++ (Words.be 4 off ++ (p.2 ++ pad p.2.length))) p := by
  refine (reads_word hvalue).bind ((reads_word ((lt_of_isPrefix hat).trans hstrings)).bind ((reads_take rfl).bind ?_))
  refine (reads_padding p.2.length).then ?_
  rw [stringAt_of_isPrefix hname hat]
  exact reads_pure p

theorem length_propBytes (off : Nat) (value : Bytes) : value.length + 12 ≤ (propBytes off value).length := by
  simp [propBytes]
  omega

/-- A property is an item of the list of its node. --/
theorem reads_item_prop {p : Bytes × Bytes} (hname : 0 ∉ p.1) (hat : p.1 ++ [0] <+: strings.drop off)
    (hstrings : strings.length < 2 ^ 32) (hlevels : levels < 2 ^ 32) (hlen : (propBytes off p.2).length ≤ levels) :
    Reads (item strings levels) (propBytes off p.2) (some (.prop p)) := by
  have hle := length_propBytes off p.2
  obtain ⟨levels, rfl⟩ : ∃ l, levels = l + 1 := Nat.exists_eq_succ_of_ne_zero (by omega)
  simp only [propBytes, List.append_assoc]
  refine (reads_word (by decide)).bind ?_
  rw [if_pos rfl]
  exact (reads_property hname hat hstrings (by omega)).map _

theorem reads_item_end (h : 0 < levels) : Reads (item strings levels) (Words.be 4 endNode) none := by
  obtain ⟨levels, rfl⟩ := Nat.exists_eq_succ_of_ne_zero h.ne'
  refine (reads_word (by decide)).then ?_
  exact Reads.require rfl (reads_pure none)

/-! The items of a node, each with its bytes -/

def propPieces (off : Nat) : List (Bytes × Bytes) → List (Bytes × Item)
  | [] => []
  | p :: ps => (propBytes off p.2, .prop p) :: propPieces (off + (p.1.length + 1)) ps

def childPieces (off : Nat) : List Node → List (Bytes × Item)
  | [] => []
  | n :: ns => (nodeBytes off n, .child n) :: childPieces (off + (nodeStrings n).length) ns

theorem propPieces_fst {ps : List (Bytes × Bytes)} : ((propPieces off ps).map Prod.fst).flatten = propsBytes off ps := by
  induction ps generalizing off with
  | nil => rfl
  | cons p ps ih => rw [propPieces, List.map_cons, List.flatten_cons, ih, propsBytes]

theorem propPieces_snd {ps : List (Bytes × Bytes)} : (propPieces off ps).map Prod.snd = ps.map .prop := by
  induction ps generalizing off with
  | nil => rfl
  | cons p ps ih => rw [propPieces, List.map_cons, ih, List.map_cons]

theorem childPieces_fst {ns : List Node} : ((childPieces off ns).map Prod.fst).flatten = allBytes off ns := by
  induction ns generalizing off with
  | nil => rfl
  | cons n ns ih => rw [childPieces, List.map_cons, List.flatten_cons, ih, allBytes]

theorem childPieces_snd {ns : List Node} : (childPieces off ns).map Prod.snd = ns.map .child := by
  induction ns generalizing off with
  | nil => rfl
  | cons n ns ih => rw [childPieces, List.map_cons, ih, List.map_cons]

theorem split_items {ps : List (Bytes × Bytes)} {ns : List Node} :
    Item.split (ps.map .prop ++ ns.map .child) = some (ps, ns) := by
  induction ps with
  | nil =>
    induction ns with
    | nil => rfl
    | cons n ns ih =>
      rw [List.map_nil, List.nil_append] at ih
      rw [List.map_nil, List.nil_append, List.map_cons, Item.split, ih]
      rfl
  | cons p ps ih =>
    rw [List.map_cons, List.cons_append, Item.split, ih]
    rfl

/-- No name has a NUL in it. --/
def Node.NulFree (n : Node) : Prop := 0 ∉ n.name ∧ ∀ p ∈ n.props, 0 ∉ p.1

instance (n : Node) : Decidable n.NulFree := inferInstanceAs (Decidable (_ ∧ _))

theorem reads_props {ps : List (Bytes × Bytes)} (hnames : ∀ p ∈ ps, 0 ∉ p.1) (hat : propStrings ps <+: strings.drop off)
    (hstrings : strings.length < 2 ^ 32) (hlevels : levels < 2 ^ 32) (hlen : (propsBytes off ps).length ≤ levels) :
    ∀ x ∈ propPieces off ps, Reads (item strings levels) x.1 (some x.2) ∧ x.1 ≠ [] := by
  induction ps generalizing off with
  | nil => exact fun x hx => absurd hx List.not_mem_nil
  | cons p ps ih =>
    obtain ⟨hp, hps⟩ := List.forall_mem_cons.mp hnames
    rw [propsBytes, List.length_append] at hlen
    rw [propStrings, List.flatMap_cons] at hat
    have hrest := isPrefix_drop_of_append hat
    rw [List.length_append, List.length_singleton] at hrest
    refine List.forall_mem_cons.mpr ⟨⟨?_, ?_⟩, ih hps hrest (by omega)⟩
    · exact reads_item_prop hp ((List.prefix_append _ _).trans hat) hstrings hlevels (by omega)
    · refine List.ne_nil_of_length_pos ?_
      have hle := length_propBytes off p.2
      dsimp only
      omega

theorem length_nodeBytes {n : Node} : 0 < (nodeBytes off n).length := by
  cases n with
  | mk name props children =>
    rw [nodeBytes, List.length_append, Words.length_be]
    omega

mutual

/-- A node is read back, with the names of its properties from its offset of the strings block on. --/
theorem reads_item_node {off levels : Nat} : (n : Node) → (∀ m ∈ n.nodes, m.NulFree) → nodeStrings n <+: strings.drop off →
    strings.length < 2 ^ 32 → levels < 2 ^ 32 → (nodeBytes off n).length ≤ levels →
    Reads (item strings levels) (nodeBytes off n) (some (.child n))
  | .mk name props children, hnames, hat, hstrings, hlevels, hlen => by
    rw [Node.nodes] at hnames
    obtain ⟨⟨hname, hprops⟩, hchildren⟩ := List.forall_mem_cons.mp hnames
    rw [nodeStrings] at hat
    have hlengths : (propsBytes off props).length + (allBytes (off + (propStrings props).length) children).length + 8 ≤
        levels := by
      simp [nodeBytes, nameBytes] at hlen
      omega
    obtain ⟨levels, rfl⟩ : ∃ l, levels = l + 1 := Nat.exists_eq_succ_of_ne_zero (by omega)
    have hpieces : ∀ x ∈ propPieces off props ++ childPieces (off + (propStrings props).length) children,
        Reads (item strings levels) x.1 (some x.2) ∧ x.1 ≠ [] := by
      refine List.forall_mem_append.mpr ⟨?_, ?_⟩
      · exact reads_props hprops ((List.prefix_append _ _).trans hat) hstrings (by omega) (by omega)
      · exact reads_item_all children hchildren (isPrefix_drop_of_append hat) hstrings (by omega) (by omega)
    have hlist := reads_listOf _ hpieces (reads_item_end (by omega))
    rw [List.map_append, List.flatten_append, propPieces_fst, childPieces_fst, List.map_append, propPieces_snd,
      childPieces_snd] at hlist
    simp only [nodeBytes, nameBytes, List.append_assoc]
    rw [item]
    refine (reads_word (by decide)).bind ?_
    rw [if_neg (by decide), if_pos rfl]
    rw [← List.append_assoc name]
    refine (reads_untilItem hname).bind ((reads_padding _).bind ?_)
    rw [← List.append_assoc]
    refine hlist.then ?_
    rw [split_items]
    exact reads_pure _

theorem reads_item_all {off levels : Nat} : (ns : List Node) → (∀ m ∈ nodesAll ns, m.NulFree) →
    allStrings ns <+: strings.drop off → strings.length < 2 ^ 32 → levels < 2 ^ 32 → (allBytes off ns).length ≤ levels →
    ∀ x ∈ childPieces off ns, Reads (item strings levels) x.1 (some x.2) ∧ x.1 ≠ []
  | [], _, _, _, _, _ => fun x hx => absurd hx List.not_mem_nil
  | n :: ns, hnames, hat, hstrings, hlevels, hlen => by
    rw [nodesAll] at hnames
    obtain ⟨hn, hns⟩ := List.forall_mem_append.mp hnames
    rw [allStrings] at hat
    rw [allBytes, List.length_append] at hlen
    refine List.forall_mem_cons.mpr ⟨⟨?_, List.ne_nil_of_length_pos length_nodeBytes⟩, ?_⟩
    · exact reads_item_node n hn ((List.prefix_append _ _).trans hat) hstrings hlevels (by omega)
    · exact reads_item_all ns hns (isPrefix_drop_of_append hat) hstrings hlevels (by omega)

end

/-- A structure block is read back, all of it. --/
theorem ends_structBlock {root : Node} (hnames : ∀ m ∈ root.nodes, m.NulFree)
    (hstrings : (nodeStrings root).length < 2 ^ 32) (hlevels : (structBytes root).length < 2 ^ 32) :
    Ends (structBlock (nodeStrings root) (structBytes root).length) (structBytes root) root := by
  have hlen : (nodeBytes 0 root).length ≤ (structBytes root).length := by
    rw [structBytes, List.length_append]
    exact Nat.le_add_right _ _
  have hroot : Reads (item (nodeStrings root) (structBytes root).length) (nodeBytes 0 root) (some (.child root)) :=
    reads_item_node root hnames (List.prefix_refl _) hstrings hlevels hlen
  refine hroot.bind_ends ?_
  refine ((reads_word (by decide)).then ?_).ends
  exact Reads.require rfl (reads_pure root)

theorem nodesAll_append {ms ns : List Node} : nodesAll (ms ++ ns) = nodesAll ms ++ nodesAll ns := by
  induction ms with
  | nil => rfl
  | cons m ms ih => rw [List.cons_append, nodesAll, ih, nodesAll, List.append_assoc]

/-- Nodes without children. --/
theorem nodesAll_leaves {ns : List Node} (h : ∀ n ∈ ns, n.children = []) : nodesAll ns = ns := by
  induction ns with
  | nil => rfl
  | cons n ns ih =>
    obtain ⟨hn, hns⟩ := List.forall_mem_cons.mp h
    cases n with
    | mk name props children =>
      rw [Node.children] at hn
      rw [nodesAll, ih hns, Node.nodes, hn, nodesAll, List.singleton_append]

/-- A range is read back, if its numbers fit in their cells. --/
theorem reads_range {addressCells sizeCells address size : Nat} (ha : address < 256 ^ (4 * addressCells))
    (hs : size < 256 ^ (4 * sizeCells)) : Reads (range addressCells sizeCells)
      (Words.be (4 * addressCells) address ++ Words.be (4 * sizeCells) size) (address, size) := by
  have hread : Reads (range addressCells sizeCells) _ _ :=
    (reads_take (Words.length_be (v := address))).bind ((reads_take (Words.length_be (v := size))).then (reads_pure _))
  rwa [Words.ofBe_be, Words.ofBe_be, Nat.mod_eq_of_lt ha, Nat.mod_eq_of_lt hs] at hread

/-- An entry of an interrupt map goes to the one node of its phandle. --/
theorem reads_mapEntry {t parent : Node} {phandle childCells addressCells interruptCells : Nat} {unit above : Bytes}
    (hphandle : phandle < 2 ^ 32) (hparent : t.withPhandle phandle = [parent])
    (haddress : parent.cell (ascii "#address-cells") = some addressCells)
    (hinterrupt : parent.cell (ascii "#interrupt-cells") = some interruptCells)
    (hunit : unit.length = 4 * childCells) (habove : above.length = 4 * (addressCells + interruptCells)) :
    Reads (mapEntry t childCells) (unit ++ (Words.be 4 phandle ++ above)) parent := by
  refine (reads_take hunit).bind ((reads_word hphandle).bind ?_)
  rw [hparent]
  dsimp only
  rw [haddress, hinterrupt]
  exact (reads_take habove).then (reads_pure parent)

/-! ### The layout of the blob -/

theorem length_pad : (pad n).length = (4 - n % 4) % 4 := List.length_replicate

theorem length_propsBytes (off : Nat) (ps : List (Bytes × Bytes)) : (propsBytes off ps).length % 4 = 0 := by
  induction ps generalizing off with
  | nil => rfl
  | cons p ps ih =>
    have hrest := ih (off + (p.1.length + 1))
    simp [propsBytes, propBytes, length_pad]
    omega

theorem propStrings_cons {p : Bytes × Bytes} {ps : List (Bytes × Bytes)} :
    propStrings (p :: ps) = p.1 ++ [0] ++ propStrings ps := rfl

theorem propStrings_append {ps qs : List (Bytes × Bytes)} : propStrings (ps ++ qs) = propStrings ps ++ propStrings qs :=
  List.flatMap_append

/-- What follows has its names after the others. --/
theorem propsBytes_append {ps qs : List (Bytes × Bytes)} :
    propsBytes off (ps ++ qs) = propsBytes off ps ++ propsBytes (off + (propStrings ps).length) qs := by
  induction ps generalizing off with
  | nil => rfl
  | cons p ps ih =>
    rw [List.cons_append, propsBytes, ih, propsBytes, List.append_assoc, propStrings_cons, List.length_append,
      List.length_append, List.length_singleton, Nat.add_assoc]

theorem allStrings_append {ms ns : List Node} : allStrings (ms ++ ns) = allStrings ms ++ allStrings ns := by
  induction ms with
  | nil => rfl
  | cons m ms ih => rw [List.cons_append, allStrings, ih, allStrings, List.append_assoc]

theorem allBytes_append {ms ns : List Node} :
    allBytes off (ms ++ ns) = allBytes off ms ++ allBytes (off + (allStrings ms).length) ns := by
  induction ms generalizing off with
  | nil => rfl
  | cons m ms ih =>
    rw [List.cons_append, allBytes, ih, allBytes, List.append_assoc, allStrings, List.length_append, Nat.add_assoc]

mutual

/-- A node is made of whole words. --/
theorem length_nodeBytes_mod (off : Nat) : (n : Node) → (nodeBytes off n).length % 4 = 0
  | .mk name props children => by
    have hprops := length_propsBytes off props
    have hchildren := length_allBytes_mod (off + (propStrings props).length) children
    simp [nodeBytes, nameBytes, length_pad]
    omega

theorem length_allBytes_mod (off : Nat) : (ns : List Node) → (allBytes off ns).length % 4 = 0
  | [] => rfl
  | n :: ns => by
    have hn := length_nodeBytes_mod off n
    have hns := length_allBytes_mod (off + (nodeStrings n).length) ns
    rw [allBytes, List.length_append]
    omega

end

theorem length_structBytes_mod (root : Node) : (structBytes root).length % 4 = 0 := by
  have hroot := length_nodeBytes_mod 0 root
  rw [structBytes, List.length_append, Words.length_be]
  omega

theorem length_headerBytes {structSize stringsSize total : Nat} : (headerBytes structSize stringsSize total).length = 40 := by
  simp [headerBytes]

/-- The header of the blob of a tree. --/
def blobHeader (root : Node) : Header where
  magic := 0xD00DFEED
  totalsize := (blob root).length
  offDtStruct := 56
  offDtStrings := 56 + (structBytes root).length
  offMemRsvmap := 40
  version := 17
  lastCompVersion := 16
  bootCpuidPhys := 0
  sizeDtStrings := (nodeStrings root).length
  sizeDtStruct := (structBytes root).length

theorem length_blob (root : Node) : (blob root).length = 56 + (structBytes root).length + (nodeStrings root).length +
    (pad (56 + (structBytes root).length + (nodeStrings root).length)).length := by
  simp only [blob, List.length_append, length_headerBytes, List.length_replicate]

/-- The strings block, and the zeros after it. --/
def blobStrings (root : Node) : Bytes :=
  nodeStrings root ++ pad (56 + (structBytes root).length + (nodeStrings root).length)

/-- The blocks one after the other. --/
theorem blob_eq {root : Node} :
    blob root = headerBytes (structBytes root).length (nodeStrings root).length (blob root).length ++
      (List.replicate 16 0 ++ (structBytes root ++ blobStrings root)) := by
  rw [length_blob]
  simp only [blob, blobStrings, List.append_assoc]

theorem reads_header {root : Node} (hsize : (blob root).length < 2 ^ 32) :
    Reads header (headerBytes (structBytes root).length (nodeStrings root).length (blob root).length) (blobHeader root) := by
  have hlen := length_blob root
  have hoff : 56 + (structBytes root).length < 2 ^ 32 := by omega
  have hstruct : (structBytes root).length < 2 ^ 32 := by omega
  have hstrings : (nodeStrings root).length < 2 ^ 32 := by omega
  simp only [headerBytes, List.append_assoc]
  refine (reads_word (by decide)).bind ((reads_word hsize).bind ((reads_word (by decide)).bind ?_))
  refine (reads_word hoff).bind ((reads_word (by decide)).bind ((reads_word (by decide)).bind ?_))
  refine (reads_word (by decide)).bind ((reads_word (by decide)).bind ((reads_word hstrings).bind ?_))
  exact (reads_word hstruct).map _

theorem blobHeader_ok {root : Node} : (blobHeader root).Ok (blob root).length 0 := by
  have hlen := length_blob root
  have hmod := length_structBytes_mod root
  dsimp only [Header.Ok, blobHeader]
  omega

theorem reads_reservations : Reads (listOf reservation) (List.replicate 16 0) [] := by
  have hzeros : (List.replicate 8 0 : Bytes).length = 8 := rfl
  have hend : Reads reservation (List.replicate 8 0 ++ List.replicate 8 0) none :=
    (reads_take hzeros).bind ((reads_take hzeros).then (reads_pure none))
  exact reads_listOf [] (fun x hx => absurd hx List.not_mem_nil) hend

/-- The blob of a tree is read back as the tree, if its size fits the header. --/
theorem parse_blob {root : Node} (hnames : ∀ m ∈ root.nodes, m.NulFree) (hsize : (blob root).length < 2 ^ 32) :
    parse (blob root) = some ([], root) := by
  have hlen := length_blob root
  have hheader := reads_header hsize (List.replicate 16 0 ++ (structBytes root ++ blobStrings root))
  rw [← blob_eq] at hheader
  have hreserved : (blob root).drop (blobHeader root).offMemRsvmap =
      List.replicate 16 0 ++ (structBytes root ++ blobStrings root) := by
    nth_rewrite 1 [blob_eq]
    exact List.drop_left' length_headerBytes
  have hstruct : (blob root).drop 56 = structBytes root ++ blobStrings root := by
    rw [show 56 = (blobHeader root).offMemRsvmap + 16 from rfl, ← List.drop_drop, hreserved]
    exact List.drop_left' List.length_replicate
  have hstrings : (blob root).drop (56 + (structBytes root).length) = blobStrings root := by
    rw [← List.drop_drop, hstruct, List.drop_left]
  have hends := ends_structBlock hnames (by omega) (by omega)
  rw [parse, hheader]
  dsimp only [bind, Option.bind]
  rw [hreserved, reads_reservations]
  dsimp only
  rw [List.length_nil, if_pos blobHeader_ok]
  dsimp only [blobHeader]
  rw [hstruct, hstrings, List.take_left, blobStrings, List.take_left, hends.run]
  rfl

/-! ### How large a blob is -/

/-- Room for the bytes of some properties and for their names. --/
def propsRoom : List (Bytes × Bytes) → Nat
  | [] => 0
  | p :: ps => p.1.length + p.2.length + 16 + propsRoom ps

mutual

/-- Room for the bytes of a node and for the names of the properties in it. --/
def Node.room : Node → Nat
  | .mk name props children => name.length + 12 + propsRoom props + roomAll children

def roomAll : List Node → Nat
  | [] => 0
  | n :: ns => n.room + roomAll ns

end

theorem length_props_le (off : Nat) (ps : List (Bytes × Bytes)) :
    (propsBytes off ps).length + (propStrings ps).length ≤ propsRoom ps := by
  induction ps generalizing off with
  | nil => exact Nat.le_refl 0
  | cons p ps ih =>
    have hrest := ih (off + (p.1.length + 1))
    rw [propsRoom, propStrings_cons]
    simp only [propsBytes, propBytes, List.length_append, Words.length_be, length_pad, List.length_singleton]
    omega

mutual

theorem length_node_le (off : Nat) : (n : Node) → (nodeBytes off n).length + (nodeStrings n).length ≤ n.room
  | .mk name props children => by
    have hprops := length_props_le off props
    have hchildren := length_all_le (off + (propStrings props).length) children
    simp only [nodeBytes, nameBytes, nodeStrings, Node.room, List.length_append, Words.length_be, length_pad,
      List.length_singleton]
    omega

theorem length_all_le (off : Nat) : (ns : List Node) → (allBytes off ns).length + (allStrings ns).length ≤ roomAll ns
  | [] => Nat.le_refl 0
  | n :: ns => by
    have hn := length_node_le off n
    have hns := length_all_le (off + (nodeStrings n).length) ns
    rw [allBytes, allStrings, roomAll, List.length_append, List.length_append]
    omega

end

theorem length_blob_le (root : Node) : (blob root).length ≤ root.room + 64 := by
  have hroot := length_node_le 0 root
  have hlen := length_blob root
  rw [hlen]
  simp only [structBytes, List.length_append, Words.length_be, length_pad]
  omega

theorem roomAll_append {ms ns : List Node} : roomAll (ms ++ ns) = roomAll ms + roomAll ns := by
  induction ms with
  | nil => exact (Nat.zero_add _).symm
  | cons m ms ih => rw [List.cons_append, roomAll, ih, roomAll, Nat.add_assoc]

theorem roomAll_le {ns : List Node} {k : Nat} (h : ∀ n ∈ ns, n.room ≤ k) : roomAll ns ≤ ns.length * k := by
  induction ns with
  | nil => exact Nat.zero_le _
  | cons n ns ih =>
    obtain ⟨hn, hns⟩ := List.forall_mem_cons.mp h
    have hrest := ih hns
    rw [roomAll, List.length_cons, Nat.succ_mul]
    omega
theorem propsRoom_append {ps qs : List (Bytes × Bytes)} : propsRoom (ps ++ qs) = propsRoom ps + propsRoom qs := by
  induction ps with
  | nil => exact (Nat.zero_add _).symm
  | cons p ps ih => rw [List.cons_append, propsRoom, ih, propsRoom, ← Nat.add_assoc]

end

end DeviceTree
