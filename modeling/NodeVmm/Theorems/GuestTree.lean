import NodeVmm.Theorems.Fdt

/-! What the guest finds in the blob that is put in its memory: the tree of the builder, and in it the command line, the
    memory, the processors and the parent of each interrupt. --/

namespace NodeVmm.Hvf
open Words (ascii)
open DeviceTree Reader

namespace Tree

section
variable {ramBase ramSize n i : Nat} {cmdline : Bytes} {kaslrSeed : UInt64} {rngSeed : List.Vector UInt8 32}

/-! ### Names -/

theorem digitChar_ne_nul {d : Nat} : UInt8.ofNat d.digitChar.toNat ≠ 0 := by
  rcases Nat.lt_or_ge d 16 with hlt | hge
  · have hdigits : ∀ d < 16, UInt8.ofNat (Nat.digitChar d).toNat ≠ 0 := by decide
    exact hdigits d hlt
  · rw [Nat.digitChar_eq_star.mpr hge]
    decide

theorem mem_toDigitsCore {base fuel v : Nat} {c : Char} {cs : List Char} (h : c ∈ Nat.toDigitsCore base fuel v cs) :
    c ∈ cs ∨ ∃ d, c = Nat.digitChar d := by
  induction fuel generalizing v cs with
  | zero => exact Or.inl h
  | succ fuel ih =>
    have hcons : ∀ {d}, c ∈ Nat.digitChar d :: cs → c ∈ cs ∨ ∃ d, c = Nat.digitChar d := by
      intro d hc
      rcases List.mem_cons.mp hc with rfl | hc
      · exact Or.inr ⟨d, rfl⟩
      · exact Or.inl hc
    rw [Nat.toDigitsCore] at h
    split_ifs at h
    · exact hcons h
    · rcases ih h with hc | hd
      · exact hcons hc
      · exact Or.inr hd

theorem toHex_nulFree {v : Nat} : 0 ∉ toHex v := by
  intro h
  obtain ⟨c, hc, hzero⟩ := List.mem_map.mp h
  rcases mem_toDigitsCore hc with hnil | ⟨d, rfl⟩
  · exact absurd hnil List.not_mem_nil
  · exact digitChar_ne_nul hzero

/-! ### The nodes -/

theorem nodes_root : (root ramBase ramSize n cmdline kaslrSeed rngSeed).nodes =
    [root ramBase ramSize n cmdline kaslrSeed rngSeed, aliases, chosen cmdline kaslrSeed rngSeed, cpus n] ++
      ((List.range n).map (cpu n) ++ ([psci, memory ramBase ramSize, intc n] ++ nodesAll devices)) := by
  have hcpus : nodesAll ((List.range n).map (cpu n)) = (List.range n).map (cpu n) := by
    refine nodesAll_leaves fun m hm => ?_
    obtain ⟨i, -, rfl⟩ := List.mem_map.mp hm
    rfl
  have hfront : nodesAll [aliases, chosen cmdline kaslrSeed rngSeed, cpus n, psci, memory ramBase ramSize, intc n] =
      [aliases, chosen cmdline kaslrSeed rngSeed, cpus n] ++
        (nodesAll ((List.range n).map (cpu n)) ++ [psci, memory ramBase ramSize, intc n]) := rfl
  nth_rewrite 1 [root]
  rw [Node.nodes, nodesAll_append, hfront, hcpus, ← root, List.append_assoc, List.append_assoc]
  rfl

theorem forall_nodes {P : Node → Prop}
    (hfixed : ∀ m ∈ [root ramBase ramSize n cmdline kaslrSeed rngSeed, aliases, chosen cmdline kaslrSeed rngSeed, cpus n, psci,
      memory ramBase ramSize, intc n], P m)
    (hcpu : ∀ i, P (cpu n i)) (hdevices : ∀ m ∈ nodesAll devices, P m) :
    ∀ m ∈ (root ramBase ramSize n cmdline kaslrSeed rngSeed).nodes, P m := by
  intro m hm
  rw [nodes_root] at hm
  rcases List.mem_append.mp hm with hm | hm
  · exact hfixed m (List.mem_append_left [psci, memory ramBase ramSize, intc n] hm)
  · rcases List.mem_append.mp hm with hm | hm
    · obtain ⟨i, -, rfl⟩ := List.mem_map.mp hm
      exact hcpu i
    · rcases List.mem_append.mp hm with hm | hm
      · exact hfixed m (List.mem_append_right [_, aliases, chosen cmdline kaslrSeed rngSeed, cpus n] hm)
      · exact hdevices m hm

/-- The names that the builder gives, node by node. --/
theorem texts_nulFree :
    (∀ text ∈ [ascii "cpu@", ascii "device_type", ascii "compatible", ascii "reg", ascii "enable-method"], 0 ∉ text) ∧
    (∀ text ∈ [ascii "chosen", ascii "bootargs", ascii "stdout-path", ascii "kaslr-seed", ascii "rng-seed"], 0 ∉ text) ∧
    (∀ text ∈ [ascii "cpus", ascii "#address-cells", ascii "#size-cells"], 0 ∉ text) ∧
    (∀ text ∈ [ascii "memory@", ascii "device_type", ascii "reg"], 0 ∉ text) ∧
    (∀ text ∈ [ascii "intc@8000000", ascii "phandle", ascii "compatible", ascii "#address-cells", ascii "#size-cells",
      ascii "#interrupt-cells", ascii "interrupt-controller", ascii "ranges", ascii "reg"], 0 ∉ text) ∧
    (∀ text ∈ [] :: rootProps.map Prod.fst, 0 ∉ text) ∧ aliases.NulFree ∧ psci.NulFree := by decide +kernel

/-- What the nodes of the devices are for the other lemmas: none is a processor, a memory or the interrupt controller. --/
theorem devices_spec : ∀ m ∈ nodesAll devices, m.NulFree ∧
    (m.text (ascii "device_type") ≠ some (ascii "cpu") ∧ m.text (ascii "device_type") ≠ some (ascii "memory")) ∧
    m.cell (ascii "phandle") ≠ some 1 ∧
    (m.prop (ascii "interrupt-parent") ≠ none → m.cell (ascii "interrupt-parent") = some 1) ∧
    (m.prop (ascii "interrupt-map") ≠ none → m.cell (ascii "#address-cells") = some 3 ∧
      m.cell (ascii "#interrupt-cells") = some 1 ∧ m.prop (ascii "interrupt-map") = some pcieInterruptMap) := by
  decide +kernel

theorem nulFree_of {m : Node} {name : Bytes} {keys : List Bytes} (hname : 0 ∉ name → 0 ∉ m.name)
    (hkeys : m.props.map Prod.fst = keys) (h : ∀ text ∈ name :: keys, 0 ∉ text) : m.NulFree := by
  refine ⟨hname (h name List.mem_cons_self), fun p hp => h p.1 (List.mem_cons_of_mem _ ?_)⟩
  rw [← hkeys]
  exact List.mem_map_of_mem hp

theorem text_nulFree {name : Bytes} {v : Nat} (h : 0 ∉ name) : 0 ∉ name ++ toHex v := by
  intro hmem
  rcases List.mem_append.mp hmem with hname | hdigits
  · exact h hname
  · exact toHex_nulFree hdigits

theorem cpu_nulFree : (cpu n i).NulFree := by
  obtain ⟨hcpu, -⟩ := texts_nulFree
  rcases Nat.lt_or_ge 1 n with hmany | hone
  · have hkeys : (cpu n i).props.map Prod.fst =
        [ascii "device_type", ascii "compatible", ascii "reg", ascii "enable-method"] := by
      rw [cpu, enableMethod, if_pos hmany]
      rfl
    exact nulFree_of text_nulFree hkeys hcpu
  · have hkeys : (cpu n i).props.map Prod.fst = [ascii "device_type", ascii "compatible", ascii "reg"] := by
      rw [cpu, enableMethod, if_neg (Nat.not_lt.mpr hone)]
      rfl
    exact nulFree_of text_nulFree hkeys fun text htext => hcpu text (List.mem_append_left [ascii "enable-method"] htext)

/-- A name of the tree has no NUL. --/
theorem nulFree : ∀ m ∈ (root ramBase ramSize n cmdline kaslrSeed rngSeed).nodes, m.NulFree := by
  obtain ⟨-, hchosen, hcpus, hmemory, hintc, hroot, haliases, hpsci⟩ := texts_nulFree
  refine forall_nodes ?_ (fun i => cpu_nulFree) fun m hm => (devices_spec m hm).1
  simp only [List.forall_mem_cons]
  exact ⟨nulFree_of id rfl hroot, haliases, nulFree_of id rfl hchosen, nulFree_of id rfl hcpus, hpsci,
    nulFree_of text_nulFree rfl hmemory, nulFree_of id rfl hintc, fun m hm => by cases hm⟩

/-! ### The memory and the processors -/

theorem cpu_type : (cpu n i).text (ascii "device_type") = some (ascii "cpu") := rfl

theorem ofType_cpu : (root ramBase ramSize n cmdline kaslrSeed rngSeed).ofType (ascii "cpu") = (List.range n).map (cpu n) := by
  have hcpus : ((List.range n).map (cpu n)).filter (fun m => m.text (ascii "device_type") == some (ascii "cpu")) =
      (List.range n).map (cpu n) := by
    refine List.filter_eq_self.mpr fun m hm => ?_
    obtain ⟨i, -, rfl⟩ := List.mem_map.mp hm
    rfl
  have hdevices : (nodesAll devices).filter (fun m => m.text (ascii "device_type") == some (ascii "cpu")) = [] := by
    refine List.filter_eq_nil_iff.mpr fun m hm => ?_
    rw [beq_iff_eq]
    exact (devices_spec m hm).2.1.1
  have hfront : [root ramBase ramSize n cmdline kaslrSeed rngSeed, aliases, chosen cmdline kaslrSeed rngSeed, cpus n].filter
      (fun m => m.text (ascii "device_type") == some (ascii "cpu")) = [] := rfl
  have hback : [psci, memory ramBase ramSize, intc n].filter
      (fun m => m.text (ascii "device_type") == some (ascii "cpu")) = [] := rfl
  rw [Node.ofType, nodes_root, List.filter_append, List.filter_append, List.filter_append, hfront, hcpus, hback, hdevices,
    List.nil_append, List.append_nil, List.append_nil]

theorem ofType_memory :
    (root ramBase ramSize n cmdline kaslrSeed rngSeed).ofType (ascii "memory") = [memory ramBase ramSize] := by
  have hcpus : ((List.range n).map (cpu n)).filter (fun m => m.text (ascii "device_type") == some (ascii "memory")) = [] := by
    refine List.filter_eq_nil_iff.mpr fun m hm => ?_
    obtain ⟨i, -, rfl⟩ := List.mem_map.mp hm
    rw [beq_iff_eq, cpu_type]
    decide
  have hdevices : (nodesAll devices).filter (fun m => m.text (ascii "device_type") == some (ascii "memory")) = [] := by
    refine List.filter_eq_nil_iff.mpr fun m hm => ?_
    rw [beq_iff_eq]
    exact (devices_spec m hm).2.1.2
  have hfront : [root ramBase ramSize n cmdline kaslrSeed rngSeed, aliases, chosen cmdline kaslrSeed rngSeed, cpus n].filter
      (fun m => m.text (ascii "device_type") == some (ascii "memory")) = [] := rfl
  have hback : [psci, memory ramBase ramSize, intc n].filter
      (fun m => m.text (ascii "device_type") == some (ascii "memory")) = [memory ramBase ramSize] := rfl
  rw [Node.ofType, nodes_root, List.filter_append, List.filter_append, List.filter_append, hfront, hcpus, hback, hdevices]
  rfl

/-- A `reg` property of one range, in the cells of the parent. --/
theorem reg_eq {parent child : Node} (addressCells sizeCells : Nat) {address size : Nat} {value : Bytes}
    (haddress : parent.cell (ascii "#address-cells") = some addressCells)
    (hsize : parent.cell (ascii "#size-cells") = some sizeCells) (hreg : child.prop (ascii "reg") = some value)
    (ha : address < 256 ^ (4 * addressCells)) (hs : size < 256 ^ (4 * sizeCells))
    (h : value = Words.be (4 * addressCells) address ++ Words.be (4 * sizeCells) size) :
    parent.reg child = some (address, size) := by
  rw [Node.reg, haddress, hsize, hreg, h]
  exact (reads_range ha hs).ends.run

theorem be_eight {v : Nat} : Words.be 4 (v >>> 32) ++ Words.be 4 v = Words.be 8 v := by
  rw [show (8 : Nat) = 4 + 4 from rfl, Words.be_add, Nat.shiftRight_eq_div_pow]
  rfl

theorem reg_memory (hbase : ramBase < 2 ^ 64) (hsize : ramSize < 2 ^ 64) :
    (root ramBase ramSize n cmdline kaslrSeed rngSeed).reg (memory ramBase ramSize) = some (ramBase, ramSize) := by
  refine reg_eq 2 2 rfl rfl rfl hbase hsize ?_
  rw [show 4 * 2 = 8 from rfl, ← be_eight, ← be_eight]
  simp [writeCells]

theorem reg_cpu (hi : i < 2 ^ 32) : (cpus n).reg (cpu n i) = some (i, 0) := by
  have hreg : (cpu n i).prop (ascii "reg") = some (Words.be 4 i) := by
    rw [cpu, enableMethod]
    split <;> rfl
  exact reg_eq 1 0 rfl rfl hreg hi Nat.zero_lt_one rfl

/-! ### The command line -/

theorem text_bootargs (hnul : 0 ∉ cmdline) (hsmall : cmdline.length + 1 < 2 ^ 32) :
    (chosen cmdline kaslrSeed rngSeed).text (ascii "bootargs") = some cmdline := by
  have hclipped : clipped [cmdline] = cmdline ++ [0] := by
    have hlength : (cmdline ++ [0]).length % 2 ^ 32 = (cmdline ++ [0]).length := by
      rw [List.length_append, List.length_singleton, Nat.mod_eq_of_lt hsmall]
    simp only [clipped, List.flatMap_cons, List.flatMap_nil, List.append_nil, hlength, List.take_length]
  have hprop : (chosen cmdline kaslrSeed rngSeed).prop (ascii "bootargs") = some (clipped [cmdline]) := rfl
  rw [Node.text, hprop, hclipped]
  exact (reads_untilItem hnul).ends.run

/-! ### Interrupts -/

theorem withPhandle_intc : (root ramBase ramSize n cmdline kaslrSeed rngSeed).withPhandle 1 = [intc n] := by
  have hcpus : ((List.range n).map (cpu n)).filter (fun m => m.cell (ascii "phandle") == some 1) = [] := by
    refine List.filter_eq_nil_iff.mpr fun m hm => ?_
    obtain ⟨i, -, rfl⟩ := List.mem_map.mp hm
    rw [cpu, enableMethod]
    split <;> rintro ⟨⟩
  have hdevices : (nodesAll devices).filter (fun m => m.cell (ascii "phandle") == some 1) = [] := by
    refine List.filter_eq_nil_iff.mpr fun m hm => ?_
    rw [beq_iff_eq]
    exact (devices_spec m hm).2.2.1
  have hfront : [root ramBase ramSize n cmdline kaslrSeed rngSeed, aliases, chosen cmdline kaslrSeed rngSeed, cpus n].filter
      (fun m => m.cell (ascii "phandle") == some 1) = [] := rfl
  have hback : [psci, memory ramBase ramSize, intc n].filter (fun m => m.cell (ascii "phandle") == some 1) = [intc n] := rfl
  rw [Node.withPhandle, nodes_root, List.filter_append, List.filter_append, List.filter_append, hfront, hcpus, hback, hdevices]
  rfl

/-- Every interrupt parent is the controller. --/
theorem interruptParent {m : Node} (hm : m ∈ (root ramBase ramSize n cmdline kaslrSeed rngSeed).nodes)
    (hparent : m.prop (ascii "interrupt-parent") ≠ none) : m.cell (ascii "interrupt-parent") = some 1 := by
  refine forall_nodes (P := fun m => m.prop (ascii "interrupt-parent") ≠ none → m.cell (ascii "interrupt-parent") = some 1)
    ?_ (fun i h => absurd ?_ h) (fun m hm => (devices_spec m hm).2.2.2.1) m hm hparent
  · simp only [List.forall_mem_cons]
    refine ⟨fun _ => rfl, fun h => absurd rfl h, fun h => absurd rfl h, fun h => absurd rfl h, fun h => absurd rfl h,
      fun h => absurd rfl h, fun h => absurd rfl h, fun m hm => by cases hm⟩
  · rw [cpu, enableMethod]
    split <;> rfl

/-- The pins of a slot, each with its entry of the map. --/
def mapPieces (n : Nat) : List (Bytes × Node) :=
  (List.range 4).flatMap fun slot => (List.range kPcieIntxCount).map fun pin =>
    (writeCells [slot <<< 11, 0, 0, pin + 1] ++
      (Words.be 4 1 ++ writeCells [0, 0, 0, kPcieFirstSpi + (pin + slot) % kPcieIntxCount, 4]), intc n)

theorem pcieInterruptMap_eq : pcieInterruptMap = ((mapPieces n).map Prod.fst).flatten := by
  rw [← List.flatMap_def, mapPieces, List.flatMap_assoc, pcieInterruptMap, writeCells, List.flatMap_assoc]
  simp only [List.flatMap_assoc, List.flatMap_map]
  simp [writeCells]

theorem interruptMap_pcie {m : Node} (haddress : m.cell (ascii "#address-cells") = some 3)
    (hinterrupt : m.cell (ascii "#interrupt-cells") = some 1) (hmap : m.prop (ascii "interrupt-map") = some pcieInterruptMap) :
    (root ramBase ramSize n cmdline kaslrSeed rngSeed).interruptMap m = some ((mapPieces n).map Prod.snd) := by
  have hpieces : ∀ x ∈ mapPieces n,
      Reads (mapEntry (root ramBase ramSize n cmdline kaslrSeed rngSeed) (3 + 1)) x.1 x.2 ∧ x.1 ≠ [] := by
    intro x hx
    obtain ⟨slot, -, hx⟩ := List.mem_flatMap.mp hx
    obtain ⟨pin, -, rfl⟩ := List.mem_map.mp hx
    refine ⟨reads_mapEntry (by decide) withPhandle_intc rfl rfl length_writeCells length_writeCells, ?_⟩
    exact List.append_ne_nil_of_left_ne_nil (List.ne_nil_of_length_pos (by simp)) _
  rw [Node.interruptMap, haddress, hinterrupt, hmap, pcieInterruptMap_eq (n := n)]
  exact (ends_toEnd (mapPieces n) hpieces).run

/-- Every interrupt map is that of the host bridge. --/
theorem interruptMap_some {m : Node} (hm : m ∈ (root ramBase ramSize n cmdline kaslrSeed rngSeed).nodes)
    (hmap : m.prop (ascii "interrupt-map") ≠ none) :
    (root ramBase ramSize n cmdline kaslrSeed rngSeed).interruptMap m = some ((mapPieces n).map Prod.snd) := by
  have hfixed : ∀ m ∈ [root ramBase ramSize n cmdline kaslrSeed rngSeed, aliases, chosen cmdline kaslrSeed rngSeed, cpus n,
      psci, memory ramBase ramSize, intc n], m.prop (ascii "interrupt-map") = none := by
    simp only [List.forall_mem_cons]
    exact ⟨rfl, rfl, rfl, rfl, rfl, rfl, rfl, fun m hm => by cases hm⟩
  have hcpu : ∀ i, (cpu n i).prop (ascii "interrupt-map") = none := by
    intro i
    rw [cpu, enableMethod]
    split <;> rfl
  obtain ⟨haddress, hinterrupt, hvalue⟩ := forall_nodes (P := fun m => m.prop (ascii "interrupt-map") ≠ none →
      m.cell (ascii "#address-cells") = some 3 ∧ m.cell (ascii "#interrupt-cells") = some 1 ∧
        m.prop (ascii "interrupt-map") = some pcieInterruptMap)
    (fun m hm h => absurd (hfixed m hm) h) (fun i h => absurd (hcpu i) h) (fun m hm => (devices_spec m hm).2.2.2.2) m hm hmap
  exact interruptMap_pcie haddress hinterrupt hvalue

/-! ### The size of the tree -/

theorem length_clipped_le (texts : List Bytes) : (clipped texts).length ≤ (texts.flatMap fun text => text ++ [0]).length :=
  List.length_take_le' _ _

/-- The parts of the tree that are the same for every guest, but for the digits of a processor. --/
theorem rooms : (∀ i < 64, (toHex i).length ≤ 2) ∧ propsRoom (enableMethod 2) ≤ 40 ∧
    propsRoom [str "device_type" [ascii "cpu"], str "compatible" [ascii "arm,arm-v8"]] = 68 ∧
    (propsRoom [str "device_type" [ascii "memory"]] = 34 ∧ (ascii "memory@" ++ toHex kRamBase).length = 15) ∧
    propsRoom [u32 "phandle" 1, str "compatible" [ascii "arm,gic-v3"], u32 "#address-cells" 2, u32 "#size-cells" 2,
      u32 "#interrupt-cells" 3, flag "interrupt-controller", flag "ranges"] = 223 ∧
    roomAll devices = 9452 ∧ ([] : Bytes).length + 12 + propsRoom rootProps + aliases.room + psci.room = 378 ∧
    (ascii "cpus").length + 12 + propsRoom [u32 "#address-cells" 1, u32 "#size-cells" 0] = 81 := by
  decide +kernel

theorem room_cpu (hi : i < 64) : (cpu n i).room ≤ 160 := by
  obtain ⟨hdigits, htwo, hfront, -⟩ := rooms
  have hlen := hdigits i hi
  have hmethod : propsRoom (enableMethod n) ≤ 40 := by
    rw [enableMethod, if_pos (Nat.lt_succ_self 1)] at htwo
    rw [enableMethod]
    split_ifs
    · exact htwo
    · exact Nat.zero_le 40
  have hreg : (Words.be 4 i).length = 4 := Words.length_be
  have hkey : (ascii "reg").length = 3 := rfl
  have hname : (ascii "cpu@").length = 4 := rfl
  simp only [cpu, Node.room, roomAll, propsRoom_append, List.length_append, hname, u32, propsRoom, hreg, hkey] at hfront ⊢
  omega

theorem room_chosen (cmdline : Bytes) (kaslrSeed : UInt64) (rngSeed : List.Vector UInt8 32) :
    (chosen cmdline kaslrSeed rngSeed).room ≤ cmdline.length + 200 := by
  have hbootargs : (clipped [cmdline]).length ≤ cmdline.length + 1 := by
    have hle := length_clipped_le [cmdline]
    simpa using hle
  have hkaslr : (Words.be 8 kaslrSeed.toNat).length = 8 := Words.length_be
  have hrng : rngSeed.toList.length = 32 := rngSeed.toList_length
  have hpath : (clipped [ascii "/pl011@9000000"]).length = 15 := rfl
  have hkeys : (ascii "chosen").length = 6 ∧ (ascii "bootargs").length = 8 ∧ (ascii "stdout-path").length = 11 ∧
      (ascii "kaslr-seed").length = 10 ∧ (ascii "rng-seed").length = 8 := ⟨rfl, rfl, rfl, rfl, rfl⟩
  simp only [chosen, Node.room, roomAll, propsRoom, str, hkeys, hpath, hkaslr, hrng]
  omega

theorem propsRoom_cells (ps : List (Bytes × Bytes)) (name : String) (values : List Nat) :
    propsRoom (ps ++ [cells name values]) = propsRoom ps + ((ascii name).length + 4 * values.length + 16) := by
  simp only [propsRoom_append, cells, propsRoom, length_writeCells, Nat.add_zero]

theorem room_memory (ramSize : Nat) : (memory kRamBase ramSize).room = 96 := by
  obtain ⟨-, -, -, ⟨hfront, hname⟩, -⟩ := rooms
  have hkey : (ascii "reg").length = 3 := rfl
  have hprops := propsRoom_cells [str "device_type" [ascii "memory"]] "reg"
    [kRamBase >>> 32, kRamBase, ramSize >>> 32, ramSize]
  rw [List.singleton_append, ← reg, hfront, hkey] at hprops
  rw [memory, Node.room, roomAll, hprops, hname]
  rfl

theorem room_intc (n : Nat) : (intc n).room = 298 := by
  obtain ⟨-, -, -, -, hfront, -⟩ := rooms
  have hname : (ascii "intc@8000000").length = 12 := rfl
  have hkey : (ascii "reg").length = 3 := rfl
  have hprops := propsRoom_cells [u32 "phandle" 1, str "compatible" [ascii "arm,gic-v3"], u32 "#address-cells" 2,
    u32 "#size-cells" 2, u32 "#interrupt-cells" 3, flag "interrupt-controller", flag "ranges"] "reg"
    [kGicDistBase >>> 32, kGicDistBase, 0, 0x10000, kGicRedistBase >>> 32, kGicRedistBase, 0, gicRedistributorBytes n]
  rw [hfront, hkey] at hprops
  rw [intc, Node.room, roomAll, hname]
  exact congrArg (12 + 12 + · + 0) hprops

/-- The tree of a guest is small but for the command line. --/
theorem room_root (hn : n ≤ 64) :
    (root kRamBase ramSize n cmdline kaslrSeed rngSeed).room ≤ cmdline.length + 21000 := by
  have hcpus : roomAll ((List.range n).map (cpu n)) ≤ n * 160 := by
    have hall : ∀ m ∈ (List.range n).map (cpu n), m.room ≤ 160 := by
      intro m hm
      obtain ⟨i, hi, rfl⟩ := List.mem_map.mp hm
      exact room_cpu (Nat.lt_of_lt_of_le (List.mem_range.mp hi) hn)
    have hle := roomAll_le hall
    rwa [List.length_map, List.length_range] at hle
  have hchosen := room_chosen cmdline kaslrSeed rngSeed
  obtain ⟨-, -, -, -, -, hdevices, hothers, hcells⟩ := rooms
  have hmemory := room_memory ramSize
  have hintc := room_intc n
  rw [root, Node.room, roomAll_append, hdevices]
  simp only [roomAll, hmemory, hintc]
  rw [cpus, Node.room, hcells]
  omega
end
end Tree

/-! ### The guest -/

section
variable {c : RunConfig} {redistRegionSize : Nat} {kaslrSeed : UInt64} {rngSeed : List.Vector UInt8 32} {dtb : Bytes}

theorem of_guard {p : Prop} [Decidable p] {e : String} {x : Except String Bytes} {k : Unit → Except String Bytes}
    (h : (if p then (throw e : Except String Unit) >>= k else x) = .ok dtb) : ¬p ∧ x = .ok dtb := by
  by_cases hp : p
  · rw [if_pos hp] at h
    cases h
  · rw [if_neg hp] at h
    exact ⟨hp, h⟩

theorem guestDtb_ok (h : c.guestDtb redistRegionSize kaslrSeed rngSeed = .ok dtb) : c.cpus ≤ 64 ∧
    dtb = DeviceTree.blob (Tree.root kRamBase c.memBytes c.cpus.toNat c.cmdline.bytes kaslrSeed rngSeed) ∧
    dtb.length < kKernelOffset := by
  simp only [RunConfig.guestDtb, FdtBuilder.build_eq] at h
  obtain ⟨hcpus, h⟩ := of_guard h
  obtain ⟨-, h⟩ := of_guard h
  obtain ⟨-, h⟩ := of_guard h
  split_ifs at h with hlength
  · obtain rfl := Except.ok.inj h
    exact ⟨UInt32.not_lt.mp (not_or.mp hcpus).2, rfl, hlength⟩

theorem cpus_le (hcpus : ¬(c.cpus < 1 ∨ 64 < c.cpus)) : c.cpus.toNat ≤ 64 :=
  UInt32.le_iff_toNat_le.mp (UInt32.not_lt.mp (not_or.mp hcpus).2)

/-- A blob is made for all that the checks admit, if the command line is short. --/
theorem guestDtb_of (hcpus : ¬(c.cpus < 1 ∨ 64 < c.cpus)) (hcount : c.transportCount ≤ kVirtioMmioCount)
    (hregion : gicRedistributorBytes c.cpus.toNat ≤ redistRegionSize)
    (hcmdline : c.cmdline.bytes.length + 21064 < kKernelOffset) :
    c.guestDtb redistRegionSize kaslrSeed rngSeed =
      .ok (DeviceTree.blob (Tree.root kRamBase c.memBytes c.cpus.toNat c.cmdline.bytes kaslrSeed rngSeed)) := by
  have hlength : (DeviceTree.blob (Tree.root kRamBase c.memBytes c.cpus.toNat c.cmdline.bytes kaslrSeed rngSeed)).length <
      kKernelOffset := by
    have hblob := length_blob_le (Tree.root kRamBase c.memBytes c.cpus.toNat c.cmdline.bytes kaslrSeed rngSeed)
    have hroom : (Tree.root kRamBase c.memBytes c.cpus.toNat c.cmdline.bytes kaslrSeed rngSeed).room ≤ _ :=
      Tree.room_root (cpus_le hcpus)
    omega
  simp only [RunConfig.guestDtb, FdtBuilder.build_eq]
  rw [if_neg hcpus, if_neg (Nat.not_lt.mpr hcount), if_neg (Nat.not_lt.mpr hregion), if_pos hlength]
  rfl

/-- Two processors, 256 MiB and a console. --/
def twoCpus : RunConfig where
  cmdline := ⟨ascii "console=ttyAMA0", by decide⟩
  memMiB := 256
  cpus := 2
  attachedDisks := 0
  useNet := true

end
end NodeVmm.Hvf
