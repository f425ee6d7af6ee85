import NodeVmm.GuestTree

/-! The blob of the builder is the blob of the tree: a node that is open has its name and properties behind it and the nodes
    closed so far, and each call adds its part, with the name of a property at the end of the strings block. --/

namespace NodeVmm.Hvf
open Words (ascii)
open DeviceTree

section
variable {b : FdtBuilder} {name : Bytes} {ps : List (Bytes × Bytes)} {ns : List Node}

/-! ### Padding and numbers -/

theorem alignBuf_eq (buf : Bytes) : alignBuf buf = buf ++ pad buf.length := by
  induction buf using alignBuf.induct with
  | case1 buf h ih =>
    rw [alignBuf, if_pos h, ih, List.append_assoc, List.length_append, List.length_singleton]
    have hcount : (4 - buf.length % 4) % 4 = (4 - (buf.length + 1) % 4) % 4 + 1 := by omega
    rw [pad, pad, hcount, List.replicate_succ]
    rfl
  | case2 buf h =>
    rw [alignBuf, if_neg h, pad]
    have hcount : (4 - buf.length % 4) % 4 = 0 := by omega
    rw [hcount, List.replicate_zero, List.append_nil]

theorem pad_add {m n : Nat} (h : m % 4 = 0) : pad (m + n) = pad n := by
  rw [pad, pad, Nat.add_mod, h, Nat.zero_add, Nat.mod_mod]

@[simp] theorem length_writeCells {cells : List Nat} : (writeCells cells).length = 4 * cells.length := by
  induction cells with
  | nil => rfl
  | cons c cells ih =>
    rw [writeCells, List.flatMap_cons, List.length_append, Words.length_be, List.length_cons]
    rw [writeCells] at ih
    omega

/-! ### Nodes that are open -/

namespace FdtBuilder

def Aligned (b : FdtBuilder) : Prop := b.buf.length % 4 = 0

/-- After a node. --/
def writeNode (b : FdtBuilder) (n : Node) : FdtBuilder :=
  { buf := b.buf ++ nodeBytes b.strBuf.length n, strBuf := b.strBuf ++ nodeStrings n }

/-- In a node, after some of its properties and children. --/
def opened (b : FdtBuilder) (name : Bytes) (ps : List (Bytes × Bytes)) (ns : List Node) : FdtBuilder where
  buf := b.buf ++ nameBytes name ++ propsBytes b.strBuf.length ps ++ allBytes (b.strBuf.length + (propStrings ps).length) ns
  strBuf := b.strBuf ++ propStrings ps ++ allStrings ns

theorem Aligned.opened (h : b.Aligned) : (b.opened name ps ns).Aligned := by
  have hname : (nameBytes name).length % 4 = 0 := by
    simp [nameBytes, length_pad]
    omega
  have hps := length_propsBytes b.strBuf.length ps
  have hns := length_allBytes_mod (b.strBuf.length + (propStrings ps).length) ns
  rw [Aligned] at h ⊢
  simp only [FdtBuilder.opened, List.length_append]
  omega

theorem beginNode_eq (h : b.Aligned) : b.beginNode name = b.opened name [] [] := by
  have hlen : (b.buf ++ Words.be 4 FDT_BEGIN_NODE).length % 4 = 0 := by
    rw [List.length_append, Words.length_be]
    rw [Aligned] at h
    omega
  have hpad := pad_add (n := name.length + 1) hlen
  simp only [List.length_append, Words.length_be] at hpad
  simp [beginNode, appendU32, appendStr, align4, alignBuf_eq, opened, nameBytes, propsBytes, allBytes, propStrings,
    allStrings, Nat.add_assoc, FDT_BEGIN_NODE, DeviceTree.beginNode] at hpad ⊢
  exact hpad

theorem appendPropRaw_aligned (h : b.Aligned) {key data : Bytes} {len : Nat} (hlen : len ≤ data.length) :
    b.appendPropRaw key data len =
      { buf := b.buf ++ propBytes b.strBuf.length (data.take len), strBuf := b.strBuf ++ (key ++ [0]) } := by
  have htaken : (data.take len).length = len := List.length_take_of_le hlen
  have hoff : Words.be 4 (b.strBuf.length % 2 ^ 32) = Words.be 4 b.strBuf.length := Words.be_mod
  have hdata : ∀ buf strBuf : Bytes, (if 0 < len then FdtBuilder.mk (buf ++ data.take len) strBuf else .mk buf strBuf) =
      .mk (buf ++ data.take len) strBuf := by
    intro buf strBuf
    split_ifs with hpos
    · rfl
    · rw [Nat.eq_zero_of_not_pos hpos, List.take_zero, List.append_nil]
  have hpad : pad (b.buf.length + (4 + (4 + (4 + len)))) = pad len := by
    rw [← Nat.add_assoc, ← Nat.add_assoc, ← Nat.add_assoc]
    refine pad_add ?_
    rw [Aligned] at h
    omega
  simp only [appendPropRaw, addString, appendU32, align4, hdata, alignBuf_eq]
  simp only [hoff, propBytes, htaken, List.append_assoc, List.length_append, Words.length_be, hpad, FDT_PROP, propToken]

theorem appendPropRaw_eq (h : b.Aligned) {key data : Bytes} {len : Nat} (hlen : len ≤ data.length) :
    (b.opened name ps []).appendPropRaw key data len = b.opened name (ps ++ [(key, data.take len)]) [] := by
  rw [appendPropRaw_aligned h.opened hlen]
  simp [opened, propsBytes_append, propsBytes, propStrings, allBytes, allStrings]

theorem appendPropU32_eq (h : b.Aligned) {key : String} {v : Nat} :
    (b.opened name ps []).appendPropU32 (ascii key) v = b.opened name (ps ++ [Tree.u32 key v]) [] :=
  appendPropRaw_eq h (Nat.le_of_eq Words.length_be.symm)

theorem appendPropU64_eq (h : b.Aligned) {key : Bytes} {v : Nat} :
    (b.opened name ps []).appendPropU64 key v = b.opened name (ps ++ [(key, Words.be 8 v)]) [] :=
  appendPropRaw_eq h (Nat.le_of_eq Words.length_be.symm)

theorem appendPropStringList_eq (h : b.Aligned) {key : String} {texts : List Bytes} :
    (b.opened name ps []).appendPropStringList (ascii key) texts = b.opened name (ps ++ [Tree.str key texts]) [] :=
  appendPropRaw_eq h (Nat.mod_le _ _)

theorem appendPropStr_eq (h : b.Aligned) {key : String} {text : Bytes} :
    (b.opened name ps []).appendPropStr (ascii key) text = b.opened name (ps ++ [Tree.str key [text]]) [] := by
  rw [← appendPropStringList_eq h]
  simp [appendPropStr, appendPropStringList]

theorem appendPropFlag_eq (h : b.Aligned) {key : String} :
    (b.opened name ps []).appendPropFlag (ascii key) = b.opened name (ps ++ [Tree.flag key]) [] :=
  appendPropRaw_eq h (Nat.le_refl 0)

theorem appendPropCells_eq (h : b.Aligned) {key : String} {cells : List Nat} {len : Nat} (hlen : len = 4 * cells.length) :
    (b.opened name ps []).appendPropRaw (ascii key) (writeCells cells) len =
      b.opened name (ps ++ [Tree.cells key cells]) [] := by
  have hall : (writeCells cells).take len = writeCells cells := List.take_of_length_le (by rw [length_writeCells, hlen])
  rw [appendPropRaw_eq h (by rw [length_writeCells, hlen]), hall]
  rfl

theorem appendPropReg_eq (h : b.Aligned) {base size : Nat} :
    (b.opened name ps []).appendPropReg (ascii "reg") base size = b.opened name (ps ++ [Tree.reg base size]) [] :=
  appendPropCells_eq h rfl

theorem endNode_eq : (b.opened name ps ns).endNode = b.writeNode (.mk name ps ns) := by
  simp [endNode, appendU32, opened, writeNode, nodeBytes, nodeStrings, FDT_END_NODE, DeviceTree.endNode]

theorem writeNode_opened {n : Node} : (b.opened name ps ns).writeNode n = b.opened name ps (ns ++ [n]) := by
  simp [writeNode, opened, allBytes_append, allStrings_append, allBytes, allStrings, Nat.add_assoc]

/-- What is written is a node. --/
def Writes (f : FdtBuilder → FdtBuilder) (n : Node) : Prop := ∀ b : FdtBuilder, b.Aligned → f b = b.writeNode n

theorem Writes.child {f : FdtBuilder → FdtBuilder} {n : Node} (hf : Writes f n) (h : b.Aligned) :
    f (b.opened name ps ns) = b.opened name ps (ns ++ [n]) := by
  rw [hf _ h.opened, writeNode_opened]

/-- A loop over numbers that writes a node for each. --/
theorem Writes.children {f : FdtBuilder → Nat → FdtBuilder} {g : Nat → Node} (hf : ∀ i, Writes (fun b => f b i) (g i))
    (h : b.Aligned) (is : List Nat) : is.foldl f (b.opened name ps ns) = b.opened name ps (ns ++ is.map g) := by
  induction is generalizing ns with
  | nil => rw [List.foldl_nil, List.map_nil, List.append_nil]
  | cons i is ih => rw [List.foldl_cons, (hf i).child h, ih, List.append_assoc, List.map_cons, List.singleton_append]

/-! ### The nodes -/

theorem writes_aliases : Writes appendAliases Tree.aliases := by
  intro b h
  rw [appendAliases, beginNode_eq h, appendPropStr_eq h, endNode_eq]
  rfl

theorem writes_chosen {cmdline : Bytes} {kaslrSeed : UInt64} {rngSeed : List.Vector UInt8 32} :
    Writes (appendChosen cmdline kaslrSeed rngSeed) (Tree.chosen cmdline kaslrSeed rngSeed) := by
  intro b h
  have hseed : rngSeed.toList.length = 32 := rngSeed.toList_length
  simp only [appendChosen, beginNode_eq h, appendPropStr_eq h, appendPropU64_eq h, appendPropRaw_eq h (Nat.le_of_eq hseed.symm),
    List.take_of_length_le (Nat.le_of_eq hseed), endNode_eq]
  rfl

theorem writes_cpu {n i : Nat} : Writes (appendCpu n i) (Tree.cpu n i) := by
  intro b h
  simp only [appendCpu, Tree.cpu, Tree.enableMethod, beginNode_eq h, appendPropStr_eq h, appendPropU32_eq h]
  split_ifs
  · exact endNode_eq
  · exact endNode_eq

theorem writes_cpus {n : Nat} : Writes (appendCpus n) (Tree.cpus n) := by
  intro b h
  simp only [appendCpus, beginNode_eq h, appendPropU32_eq h, Writes.children (fun i => writes_cpu (n := n) (i := i)) h, endNode_eq]
  rfl

theorem writes_psci : Writes appendPsci Tree.psci := by
  intro b h
  simp only [appendPsci, beginNode_eq h, appendPropStringList_eq h, appendPropStr_eq h]
  exact endNode_eq

theorem writes_memory {ramBase ramSize : Nat} : Writes (appendMemory ramBase ramSize) (Tree.memory ramBase ramSize) := by
  intro b h
  simp only [appendMemory, beginNode_eq h, appendPropStr_eq h, appendPropReg_eq h]
  exact endNode_eq

theorem writes_intc {n : Nat} : Writes (appendIntc n) (Tree.intc n) := by
  intro b h
  simp only [appendIntc, beginNode_eq h, appendPropU32_eq h, appendPropStr_eq h, appendPropFlag_eq h]
  rw [appendPropCells_eq h (by rfl)]
  exact endNode_eq

theorem writes_timer : Writes appendTimer Tree.timer := by
  intro b h
  simp only [appendTimer, beginNode_eq h, appendPropStringList_eq h]
  rw [appendPropCells_eq h (by rfl), appendPropFlag_eq h]
  exact endNode_eq

theorem writes_pl011 : Writes appendPl011 Tree.pl011 := by
  intro b h
  simp only [appendPl011, beginNode_eq h, appendPropStringList_eq h, appendPropReg_eq h]
  rw [appendPropCells_eq h (by rfl), appendPropU32_eq h, appendPropStringList_eq h, appendPropCells_eq h (by rfl)]
  exact endNode_eq

theorem writes_clock {clock : Bytes} {phandle : Nat} : Writes (appendClock clock phandle) (Tree.clock clock phandle) := by
  intro b h
  simp only [appendClock, beginNode_eq h, appendPropU32_eq h, appendPropStr_eq h]
  exact endNode_eq

theorem writes_pl031 : Writes appendPl031 Tree.pl031 := by
  intro b h
  simp only [appendPl031, beginNode_eq h, appendPropStringList_eq h, appendPropReg_eq h]
  rw [appendPropCells_eq h (by rfl)]
  simp only [appendPropU32_eq h, appendPropStr_eq h]
  exact endNode_eq

theorem writes_pl061 : Writes appendPl061 Tree.pl061 := by
  intro b h
  simp only [appendPl061, beginNode_eq h, appendPropStringList_eq h, appendPropReg_eq h, appendPropU32_eq h,
    appendPropFlag_eq h]
  rw [appendPropCells_eq h (by rfl)]
  simp only [appendPropU32_eq h, appendPropStr_eq h]
  exact endNode_eq

theorem writes_poweroff : Writes appendPoweroff Tree.poweroff := by
  intro b h
  simp only [appendPoweroff, beginNode_eq h, appendPropStr_eq h, appendPropU32_eq h]
  rw [appendPropCells_eq h (by rfl)]
  exact endNode_eq

theorem writes_gpioKeys : Writes appendGpioKeys Tree.gpioKeys := by
  intro b h
  simp only [appendGpioKeys, beginNode_eq h, appendPropStr_eq h, writes_poweroff.child h]
  exact endNode_eq

theorem writes_fwCfg : Writes appendFwCfg Tree.fwCfg := by
  intro b h
  simp only [appendFwCfg, beginNode_eq h, appendPropStr_eq h, appendPropReg_eq h, appendPropFlag_eq h]
  exact endNode_eq

theorem writes_virtio {base spi : Nat} : Writes (appendVirtioNode base spi) (Tree.virtio base spi) := by
  intro b h
  simp only [appendVirtioNode, beginNode_eq h, appendPropStr_eq h, appendPropReg_eq h, appendPropU32_eq h]
  rw [appendPropCells_eq h (by rfl), appendPropFlag_eq h]
  exact endNode_eq

theorem appendVirtioNodes_eq (h : b.Aligned) :
    (b.opened name ps ns).appendVirtioNodes = b.opened name ps (ns ++ Tree.virtioNodes) :=
  Writes.children (fun _ => writes_virtio) h (List.range kVirtioMmioCount)

theorem length_pcieRanges : pcieRanges.length = 56 := length_writeCells

theorem length_pcieInterruptMap : pcieInterruptMap.length = 4 * kPcieIntxCount * 10 * 4 := by decide +kernel

theorem writes_pcie : Writes appendPcie Tree.pcie := by
  intro b h
  simp only [appendPcie, beginNode_eq h, appendPropStr_eq h, appendPropU32_eq h]
  rw [appendPropCells_eq h (by rfl), appendPropFlag_eq h, appendPropReg_eq h]
  rw [appendPropRaw_eq h (Nat.le_of_eq length_pcieRanges.symm), List.take_of_length_le (Nat.le_of_eq length_pcieRanges)]
  rw [appendPropU32_eq h, appendPropRaw_eq h (Nat.le_of_eq length_pcieInterruptMap.symm),
    List.take_of_length_le (Nat.le_of_eq length_pcieInterruptMap)]
  rw [appendPropCells_eq h (by rfl)]
  exact endNode_eq

theorem writes_exit : Writes appendExit Tree.exit := by
  intro b h
  simp only [appendExit, beginNode_eq h, appendPropStr_eq h, appendPropReg_eq h]
  exact endNode_eq

/-! ### The blob -/

/-- A word over zeros in front of others. --/
theorem writeU32BE_zeros {buf follow : Bytes} {n off v : Nat} (h : buf.length = off) :
    writeU32BE (buf ++ (List.replicate (n + 4) 0 ++ follow)) off v = buf ++ Words.be 4 v ++ (List.replicate n 0 ++ follow) := by
  subst h
  have hzeros : (List.replicate (n + 4) 0 ++ follow).drop 4 = List.replicate n 0 ++ follow := by
    rw [Nat.add_comm n, List.replicate_add, List.append_assoc]
    exact List.drop_left' List.length_replicate
  rw [writeU32BE, List.take_left, ← List.drop_drop, List.drop_left, hzeros]

theorem fillHeader_eq {follow : Bytes} {total stringsOff stringsSize structSize : Nat} (hoff : stringsOff = 56 + structSize) :
    fillHeader (List.replicate 56 0 ++ follow) total stringsOff stringsSize structSize =
      headerBytes structSize stringsSize total ++ (List.replicate 16 0 ++ follow) := by
  subst hoff
  have hfirst : writeU32BE (List.replicate 56 0 ++ follow) 0 0xD00DFEED =
      Words.be 4 0xD00DFEED ++ (List.replicate 52 0 ++ follow) := by
    exact (writeU32BE_zeros (List.length_nil : ([] : Bytes).length = 0) :)
  simp only [fillHeader, hfirst]
  rw [writeU32BE_zeros (by simp), writeU32BE_zeros (by simp), writeU32BE_zeros (by simp), writeU32BE_zeros (by simp),
    writeU32BE_zeros (by simp), writeU32BE_zeros (by simp), writeU32BE_zeros (by simp), writeU32BE_zeros (by simp),
    writeU32BE_zeros (by simp)]
  rfl

/-- The builder before its first node. --/
def empty : FdtBuilder := { buf := List.replicate kStructOffset 0, strBuf := [] }

theorem finish_eq {root : Node} : ((empty.writeNode root).appendU32 FDT_END).finish = blob root := by
  have hbuf : ((empty.writeNode root).appendU32 FDT_END).buf = List.replicate 56 0 ++ structBytes root := by
    rw [appendU32, writeNode, structBytes, ← List.append_assoc]
    rfl
  have hstr : ((empty.writeNode root).appendU32 FDT_END).strBuf = nodeStrings root := rfl
  have hlen : (List.replicate 56 (0 : UInt8) ++ structBytes root).length = 56 + (structBytes root).length := by
    rw [List.length_append, List.length_replicate]
  have hall : alignBuf (List.replicate 56 0 ++ structBytes root ++ nodeStrings root) =
      List.replicate 56 0 ++ (structBytes root ++ blobStrings root) := by
    rw [alignBuf_eq, List.length_append, hlen, blobStrings, List.append_assoc, List.append_assoc]
  have htotal : (List.replicate 56 0 ++ (structBytes root ++ blobStrings root)).length = (blob root).length := by
    rw [length_blob, blobStrings]
    simp only [List.length_append, List.length_replicate, Nat.add_assoc]
  have hsize : 56 + (structBytes root).length - kStructOffset = (structBytes root).length :=
    Nat.add_sub_cancel_left 56 _
  rw [finish, hbuf, hstr, hlen, hall, htotal, hsize, fillHeader_eq rfl, ← blob_eq]

theorem build_eq {ramBase ramSize n : Nat} {cmdline : Bytes} {hasNet : Bool} {kaslrSeed : UInt64} {rngSeed : List.Vector UInt8 32} :
    build ramBase ramSize n cmdline hasNet kaslrSeed rngSeed = blob (Tree.root ramBase ramSize n cmdline kaslrSeed rngSeed) := by
  have h : empty.Aligned := rfl
  rw [← finish_eq, build, ← empty]
  simp only [beginNode_eq h, appendPropU32_eq h, appendPropStr_eq h, appendPropFlag_eq h]
  rw [writes_aliases.child h, writes_chosen.child h, writes_cpus.child h, writes_psci.child h, writes_memory.child h,
    writes_intc.child h, writes_timer.child h, writes_pl011.child h]
  rw [appendUartclk, writes_clock.child h, appendApbPclk, writes_clock.child h, writes_pl031.child h, writes_pl061.child h,
    writes_gpioKeys.child h, writes_fwCfg.child h, appendVirtioNodes_eq h, writes_pcie.child h, writes_exit.child h, endNode_eq]
  simp only [Tree.root, Tree.rootProps, Tree.devices, List.nil_append, List.cons_append, List.append_assoc]

end FdtBuilder
end
end NodeVmm.Hvf
