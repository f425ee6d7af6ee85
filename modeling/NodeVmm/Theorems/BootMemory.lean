import NodeVmm.BootMemory
import NodeVmm.Theorems.AcpiTables
import NodeVmm.Theorems.BootParams
import NodeVmm.Theorems.ElfKernel
import NodeVmm.Theorems.MpTable

/-! The first processor starts in a memory in which all tables are there at once: none of them is written over another one,
    and each says what the configuration does. --/

namespace NodeVmm
open Checked
open Backend (Writes)

section
variable {b : Backend} {c : BootConfig} {mem loaded m : ByteStore} {base n : Nat}

/-! ### The tables of the first processor -/

def gdtPatches : List Patch := (List.range 4).map fun i => ⟨kGdtAddr + i * 8, Words.le 8 (Backend.gdt.getD i 0)⟩

/-- In the order of the writes. --/
def longModePatches : List Patch := pageTablePatches kPageTableBase ++ (gdtPatches ++ [⟨kIdtAddr, Words.le 8 0⟩])

theorem writes_setupLongMode (h : 0x100000 ≤ n) : Writes n (fun m => b.setupLongMode m) fun _ => longModePatches := by
  have htables : Writes n (fun m => b.buildPageTables m kPageTableBase) fun _ => pageTablePatches kPageTableBase :=
    Backend.writes_pageTables (by simp only [kPageTableBase, pageSize]; omega)
  have hround : ∀ i ∈ List.range 4, Writes n (fun m => b.putWord m (kGdtAddr + i * 8) 8 (Backend.gdt.getD i 0)) fun _ =>
      [⟨kGdtAddr + i * 8, Words.le 8 (Backend.gdt.getD i 0)⟩] := by
    intro i hi
    have hi := List.mem_range.mp hi
    exact Backend.writes_putWord (by simp only [kGdtAddr]; omega)
  have hgdt : Writes n (fun m => (List.range 4).foldlM
      (fun m i => b.putWord m (kGdtAddr + i * 8) 8 (Backend.gdt.getD i 0)) m) fun _ => gdtPatches := by
    rw [gdtPatches, List.map_eq_flatMap]
    exact Writes.foldlM hround
  have hidt : Writes n (fun m => b.putWord m kIdtAddr 8 0) fun _ => [⟨kIdtAddr, Words.le 8 0⟩] :=
    Backend.writes_putWord (by simp only [kIdtAddr]; omega)
  have hall := htables.bind (hgdt.bind hidt)
  exact hall

theorem pageTablePatches_block (base : Nat) : Patch.Block base (base + 6 * pageSize) (pageTablePatches base) :=
  ⟨pageTablePatches_separate base, fun _ hp => pageTablePatches_inside hp⟩

theorem descriptors_block : Patch.Block 0x500 0x528 (gdtPatches ++ [⟨kIdtAddr, Words.le 8 0⟩]) := by
  have hordered : Patch.Ordered 0x528 0x500 (gdtPatches ++ [⟨kIdtAddr, Words.le 8 0⟩]) := by decide
  exact hordered.block

theorem longModePatches_holds (h : m.Holds longModePatches) :
    (∀ v < 2 ^ 32, Paging.translate m kPageTableBase v = some ⟨v, true, false⟩) ∧
      ∀ i < 4, m.word (kGdtAddr + i * 8) 8 = Backend.gdt.getD i 0 := by
  constructor
  · have htables := tables_of_holds (h.of_subset fun p hp => List.mem_append_left _ hp) (by decide) (by decide)
    exact fun v hv => htables.translate (by decide) (by decide) hv
  · intro i hi
    have hsmall : ∀ i < 4, Backend.gdt.getD i 0 < 256 ^ 8 := by decide
    refine h.word (List.mem_append_right _ (List.mem_append_left _ ?_)) (hsmall i hi)
    exact List.mem_map.mpr ⟨i, List.mem_range.mpr hi, rfl⟩

/-! ### All writes -/

/-- All that is written behind the kernel, in the order of the writes. --/
def setupPatches (acpi boot : List Patch) (table : List UInt8) (cpus : Nat) (last : List Patch) : List Patch :=
  acpi ++ (boot ++ ([⟨0x7070, Words.le 8 Acpi.rsdpAddr⟩] ++ ([⟨Mp.tableStart cpus, table⟩] ++ last)))

/-- They are apart, whatever the tables are and however often those of the processor are written. --/
theorem setupPatches_block {acpi last : List Patch} {memBytes cpus : Nat} {cmdline table : List UInt8} {flags : UInt8}
    (hacpi : Patch.Ordered (Acpi.rsdpAddr + 36) Acpi.firstTableAddr acpi)
    (hline : cmdline.length < BootProtocol.commandLineSize) (hcpus : cpus ≤ 64)
    (htable : table.length = Mp.tableSize cpus) (hlast : ∀ p ∈ last, p ∈ longModePatches) :
    Patch.Block 0x500 (Acpi.rsdpAddr + 36) (setupPatches acpi (bootPatches memBytes cmdline flags) table cpus last) := by
  have hsize := Mp.tableSize_eq cpus
  obtain ⟨-, hend, hnear⟩ := @Mp.tableStart_spec cpus (by omega)
  have hlength : BootProtocol.commandLineSize = 0x800 := rfl
  have hroot : Patch.Block 0x7070 0x7078 [⟨0x7070, Words.le 8 Acpi.rsdpAddr⟩] := Patch.Ordered.block (by decide)
  have hpage := (pagePatches_ordered cmdline.length memBytes flags).block
  have hpaging := pageTablePatches_block kPageTableBase
  have hcmdline : Patch.Block kCmdlineAddr 0x20800 [⟨kCmdlineAddr, cmdline ++ [0]⟩] :=
    Patch.Ordered.block ⟨Nat.le_refl _, by
      simp only [kCmdlineAddr, Patch.Ordered, List.length_append, List.length_singleton]
      omega⟩
  have hmp : Patch.Block 0x9F000 0xA0000 [⟨Mp.tableStart cpus, table⟩] :=
    Patch.Ordered.block ⟨(by omega : 0x9F000 ≤ Mp.tableStart cpus), by simp only [Patch.Ordered]; omega⟩
  have hall : Patch.Block 0x500 (Acpi.rsdpAddr + 36) ((gdtPatches ++ [⟨kIdtAddr, Words.le 8 0⟩]) ++
      ([⟨0x7070, Words.le 8 Acpi.rsdpAddr⟩] ++ ((fieldPatches cmdline.length flags ++ mapPatches memBytes) ++
        (pageTablePatches kPageTableBase ++ ([⟨kCmdlineAddr, cmdline ++ [0]⟩] ++
          ([⟨Mp.tableStart cpus, table⟩] ++ acpi)))))) := by
    have hlow := hmp.append hacpi.block (by decide) (by decide) (by decide)
    have hlow := hcmdline.append hlow (by decide) (by decide) (by decide)
    have hlow := hpaging.append hlow (by decide) (by decide) (by decide)
    have hlow := hpage.append hlow (by decide) (by decide) (by decide)
    have hlow := hroot.append hlow (by decide) (by decide) (by decide)
    exact descriptors_block.append hlow (by decide) (by decide) (by decide)
  refine hall.of_subset fun p hp => ?_
  rw [setupPatches] at hp
  have hmem : ∀ {ps qs : List Patch}, p ∈ ps ∨ p ∈ qs → p ∈ ps ++ qs := List.mem_append.mpr
  rcases List.mem_append.mp hp with hp | hp
  · exact hmem (Or.inr (hmem (Or.inr (hmem (Or.inr (hmem (Or.inr (hmem (Or.inr (hmem (Or.inr hp)))))))))))
  rcases List.mem_append.mp hp with hp | hp
  · rcases mem_bootPatches.mp hp with hp | rfl
    · exact hmem (Or.inr (hmem (Or.inr (hmem (Or.inl hp)))))
    · exact hmem (Or.inr (hmem (Or.inr (hmem (Or.inr (hmem (Or.inr (hmem (Or.inl List.mem_cons_self)))))))))
  rcases List.mem_append.mp hp with hp | hp
  · exact hmem (Or.inr (hmem (Or.inl hp)))
  rcases List.mem_append.mp hp with hp | hp
  · exact hmem (Or.inr (hmem (Or.inr (hmem (Or.inr (hmem (Or.inr (hmem (Or.inr (hmem (Or.inl hp)))))))))))
  rcases List.mem_append.mp (hlast p hp) with hp | hp
  · exact hmem (Or.inr (hmem (Or.inr (hmem (Or.inr (hmem (Or.inl hp)))))))
  · exact hmem (Or.inl hp)

/-! ### What is there in the end -/

/-- Where the host writes. --/
def HostArea (c : BootConfig) (i : Nat) : Prop :=
  (0x500 ≤ i ∧ i < 0x528) ∨ (0x7070 ≤ i ∧ i < 0x7320) ∨ (0x9000 ≤ i ∧ i < 0xF000) ∨
    (kCmdlineAddr ≤ i ∧ i < kCmdlineAddr + c.cmdline.length + 1) ∨ (Mp.tableStart c.cpus.toNat ≤ i ∧ i < Acpi.rsdpAddr + 36)

theorem hostArea_of_inside {p : Patch} {i : Nat}
    (h : p.Inside 0x500 0x528 ∨ p.Inside 0x7070 0x7320 ∨ p.Inside 0x9000 0xF000 ∨
      p.Inside kCmdlineAddr (kCmdlineAddr + c.cmdline.length + 1) ∨
      p.Inside (Mp.tableStart c.cpus.toNat) (Acpi.rsdpAddr + 36)) (hi : ByteStore.Within p.off p.bytes.length i) :
    HostArea c i := by
  simp only [Patch.Inside, ByteStore.Within, HostArea] at h hi ⊢
  omega

/-- The memory that the first processor starts in, with the kernel `loaded` before. --/
structure Ready (c : BootConfig) (machine : SystemTables.Machine) (pin : Nat → Nat) (loaded m : ByteStore) : Prop where
  params : BootProtocol.paramsAt m kBootParamsAddr =
    some ⟨guestMap c.memBytes, c.cmdline.takeWhile (· != 0), Acpi.rsdpAddr⟩
  machine : SystemTables.machineAt m Acpi.rsdpAddr = some machine
  config : MpTable.configAt m (Mp.tableStart c.cpus.toNat) = some ⟨Mp.apicDefaultBase, Mp.configEntries c.cpus.toNat pin⟩
  paging : ∀ v < 2 ^ 32, Paging.translate m kPageTableBase v = some ⟨v, true, false⟩
  segments : ∀ i < 4, m.word (kGdtAddr + i * 8) 8 = Backend.gdt.getD i 0
  kernel : ByteStore.AgreeOn (fun i => ¬HostArea c i) loaded m
  /-- The memory map keeps the ACPI tables from the kernel's own use. --/
  firmware : ∀ i, Acpi.firstTableAddr ≤ i → i < Acpi.rsdpAddr + 36 → ¬BootProtocol.Usable (guestMap c.memBytes) i
  /-- And the other table, if there are not too many processors. --/
  mpReserved : (∀ i, ByteStore.Within (Mp.tableStart c.cpus.toNat) (Mp.tableSize c.cpus.toNat) i →
    ¬BootProtocol.Usable (guestMap c.memBytes) i) ↔ c.cpus.toNat ≤ 37

/-- What the configuration has to be for that. --/
structure Fits (c : BootConfig) : Prop where
  cpus : c.cpus.toNat ≤ 64
  cmdline : c.cmdline.length < BootProtocol.commandLineSize
  memLow : 0x100000 < c.memBytes
  memHigh : c.memBytes ≤ 2 ^ 32

theorem mpTable_reserved {cpus memBytes : Nat} (hcpus : cpus ≤ 254) (hbytes : 0x100000 < memBytes) :
    (∀ i, ByteStore.Within (Mp.tableStart cpus) (Mp.tableSize cpus) i → ¬BootProtocol.Usable (guestMap memBytes) i) ↔
      cpus ≤ 37 := by
  obtain ⟨hparagraph, hend, hnear⟩ := Mp.tableStart_spec hcpus
  have hsize := Mp.tableSize_eq cpus
  simp only [usable_guestMap (Nat.le_of_lt hbytes), ByteStore.Within]
  constructor
  · intro h
    have hstart := h (Mp.tableStart cpus) ⟨Nat.le_refl _, by omega⟩
    omega
  · intro hfew i hi
    omega

theorem ready_of_patches {machine : SystemTables.Machine} {pin : Nat → Nat} {acpi last : List Patch} (flags : UInt8)
    (hfits : Fits c) (hpin : ∀ irq < 24, pin irq < 256) (hacpi : Patch.Ordered (Acpi.rsdpAddr + 36) Acpi.firstTableAddr acpi)
    (hmachine : ∀ m : ByteStore, m.Holds acpi → SystemTables.machineAt m Acpi.rsdpAddr = some machine)
    (hlast : ∀ p, p ∈ last ↔ p ∈ longModePatches) (hloaded : loaded.size = c.memBytes) :
    Ready c machine pin loaded (loaded.patch (setupPatches acpi (bootPatches c.memBytes c.cmdline flags)
      (Mp.buildMpTable c.cpus.toNat pin) c.cpus.toNat last)) := by
  have hlow := hfits.memLow
  have hhigh := hfits.memHigh
  have hcpus := hfits.cpus
  have hrsdp : Acpi.rsdpAddr + 36 = 0xE0024 := rfl
  have hfirst : Acpi.firstTableAddr = 0xA0000 := rfl
  obtain ⟨-, hend, hnear⟩ := @Mp.tableStart_spec c.cpus.toNat (by omega)
  have hlength := Mp.length_buildMpTable c.cpus.toNat pin
  have hsize := Mp.tableSize_eq c.cpus.toNat
  obtain ⟨all, hall⟩ : ∃ all, setupPatches acpi (bootPatches c.memBytes c.cmdline flags) (Mp.buildMpTable c.cpus.toNat pin)
      c.cpus.toNat last = all := ⟨_, rfl⟩
  have hblock : Patch.Block 0x500 (Acpi.rsdpAddr + 36) all :=
    hall ▸ setupPatches_block hacpi hfits.cmdline hcpus hlength fun p hp => (hlast p).mp hp
  have hholds := ByteStore.holds_patch (s := loaded) hblock.separate fun p hp => by
    have hin := (hblock.inside p hp).2
    omega
  have hmem : ∀ p, p ∈ all ↔ p ∈ acpi ∨ p ∈ bootPatches c.memBytes c.cmdline flags ∨ p = ⟨0x7070, Words.le 8 Acpi.rsdpAddr⟩ ∨
      p = ⟨Mp.tableStart c.cpus.toNat, Mp.buildMpTable c.cpus.toNat pin⟩ ∨ p ∈ longModePatches := by
    intro p
    rw [← hall, setupPatches]
    simp only [List.mem_append, List.mem_singleton, hlast]
  have hroot := hholds.word ((hmem _).mpr (Or.inr (Or.inr (Or.inl rfl)))) (by decide)
  have htable := hholds _ ((hmem _).mpr (Or.inr (Or.inr (Or.inr (Or.inl rfl)))))
  obtain ⟨hpaging, hsegments⟩ := longModePatches_holds
    (hholds.of_subset fun p hp => (hmem p).mpr (Or.inr (Or.inr (Or.inr (Or.inr hp)))))
  rw [hall]
  refine ⟨params_of_holds (hholds.of_subset fun p hp => (hmem p).mpr (Or.inr (Or.inl hp))) hroot (by omega) hfits.cmdline,
    hmachine _ (hholds.of_subset fun p hp => (hmem p).mpr (Or.inl hp)),
    Mp.Has.configAt htable (by omega) hpin (by omega), hpaging, hsegments,
    ByteStore.agreeOn_patch fun p hp i hi hnot => hnot (hostArea_of_inside ?_ hi), fun i hlo hhi => ?_,
    mpTable_reserved (by omega) hlow⟩
  rotate_left
  · rw [usable_guestMap (by omega)]
    omega
  rcases (hmem p).mp hp with hp | hp | rfl | rfl | hp
  · have hin := hacpi.inside hp
    exact Or.inr (Or.inr (Or.inr (Or.inr ⟨by have := hin.1; omega, hin.2⟩)))
  · rcases bootPatches_inside hp with hin | hin
    · exact Or.inr (Or.inl ⟨by have := hin.1; omega, hin.2⟩)
    · exact Or.inr (Or.inr (Or.inr (Or.inl hin)))
  · exact Or.inr (Or.inl ⟨by decide, by decide⟩)
  · exact Or.inr (Or.inr (Or.inr (Or.inr ⟨Nat.le_refl _, by simp only; omega⟩)))
  · rcases List.mem_append.mp hp with hp | hp
    · exact Or.inr (Or.inr (Or.inl (pageTablePatches_inside hp)))
    · exact Or.inl (descriptors_block.inside p hp)

/-- Behind the ACPI tables nothing fails, whatever programs write the rest. --/
theorem setup_ready {machine : SystemTables.Machine} {pin : Nat → Nat} {acpi last : List Patch}
    {root mp run : ByteStore → Call ByteStore} (hfits : Fits c) (hloaded : loaded.size = c.memBytes)
    (hpin : ∀ irq < 24, pin irq < 256) (hacpi : Patch.Ordered (Acpi.rsdpAddr + 36) Acpi.firstTableAddr acpi)
    (hmachine : ∀ m : ByteStore, m.Holds acpi → SystemTables.machineAt m Acpi.rsdpAddr = some machine)
    (hroot : Writes loaded.size root fun _ => [⟨0x7070, Words.le 8 Acpi.rsdpAddr⟩])
    (hmp : Writes loaded.size mp fun _ => [⟨Mp.tableStart c.cpus.toNat, Mp.buildMpTable c.cpus.toNat pin⟩])
    (hrun : Writes loaded.size run fun _ => last) (hlast : ∀ p, p ∈ last ↔ p ∈ longModePatches) :
    ∃ m, (b.writeBootParams (loaded.patch acpi) c.memBytes c.cmdline >>= fun m => root m >>= fun m => mp m >>= run) = .ok m ∧
      Ready c machine pin loaded m := by
  have hlow := hfits.memLow
  obtain ⟨flags, hboot⟩ := @Backend.writeBootParams_eq b (loaded.patch acpi) c.cmdline c.memBytes hlow
    (by rw [ByteStore.size_patch]; omega) hfits.cmdline
  have hsize : ((loaded.patch acpi).patch (bootPatches c.memBytes c.cmdline flags)).size = loaded.size := by
    rw [ByteStore.size_patch, ByteStore.size_patch]
  have hrest := hroot.bind (hmp.bind hrun) _ hsize
  refine ⟨_, ?_, ready_of_patches flags hfits hpin hacpi hmachine hlast hloaded⟩
  rw [hboot, setupPatches, ByteStore.patch_append, ByteStore.patch_append]
  exact hrest

/-! ### With KVM -/

theorem fits_of {cmdline : List UInt8} (hline : cmdline.length + 1 ≤ kKernelCmdlineMax) :
    cmdline.length < BootProtocol.commandLineSize := by
  simp only [kKernelCmdlineMax] at hline
  simp only [BootProtocol.commandLineSize]
  omega

/-- The number of the disks, of which there are fewer than pins. --/
theorem diskCount_toNat (h : c.attachedDisks < Acpi.maxIoApicPins) : c.diskCount.toNat = c.attachedDisks + 1 :=
  UInt32.toNat_ofNat_of_lt' (show c.attachedDisks + 1 < 2 ^ 32 by simp only [Acpi.maxIoApicPins] at h; omega)

namespace Kvm

theorem checkConfig_ok (h : checkConfig c = .ok ()) (hmem : 1 < c.memMiB.toNat) :
    Fits c ∧ 0 < c.diskCount.toNat + (networkEnabled c).toNat ∧ c.diskCount.toNat + (networkEnabled c).toNat < 20 := by
  obtain ⟨_, hdisks, h⟩ := ok_of_bind h
  obtain ⟨_, hcount, h⟩ := ok_of_bind h
  obtain ⟨_, -, h⟩ := ok_of_bind h
  obtain ⟨_, -, h⟩ := ok_of_bind h
  obtain ⟨_, -, h⟩ := ok_of_bind h
  obtain ⟨_, hcpus, h⟩ := ok_of_bind h
  obtain ⟨_, -, h⟩ := ok_of_bind h
  obtain ⟨_, -, h⟩ := ok_of_bind h
  obtain ⟨_, hline, h⟩ := ok_of_bind h
  have hdisks := of_decide_eq_true (ok_of_check hdisks)
  have hcount := Acpi.Aml.deviceCount_ok (ok_of_lift hcount)
  have hcpus := (of_decide_eq_true (ok_of_check hcpus)).2
  have hbytes := (of_decide_eq_true (ok_of_check h)).2
  have hdisk := diskCount_toNat hdisks
  have hpins : Acpi.maxIoApicPins = 24 := rfl
  have hnet : (if networkEnabled c then 1 else 0 : UInt32).toNat = (networkEnabled c).toNat := by
    cases networkEnabled c <;> rfl
  have hone := Bool.toNat_le (networkEnabled c)
  rw [UInt32.toNat_add, hnet, Nat.mod_eq_of_lt (by omega)] at hcount
  refine ⟨⟨UInt32.le_iff_toNat_le.mp hcpus, fits_of (of_decide_eq_true (ok_of_check hline)), ?_, hbytes⟩, by omega, hcount⟩
  rw [BootConfig.memBytes]
  omega

theorem setupMemory_ready (hfits : Fits c)
    (hdevices : 0 < c.diskCount.toNat + (networkEnabled c).toNat ∧ c.diskCount.toNat + (networkEnabled c).toNat < 20)
    (hloaded : loaded.size = c.memBytes) : ∃ m body, setupMemory c loaded = .ok m ∧
      Acpi.Aml.read body = some [Acpi.Aml.kvmDsdt (networkEnabled c) c.diskCount] ∧
      Ready c (Acpi.Kvm.machine body c.cpus.toNat) (fun irq => irq) loaded m := by
  have hlow := hfits.memLow
  have hcpus : c.cpus.toNat ≤ 256 := Nat.le_trans hfits.cpus (by decide)
  have hrsdp : Acpi.rsdpAddr + 36 = 0xE0024 := rfl
  obtain ⟨-, hend, -⟩ := @Mp.tableStart_spec c.cpus.toNat (Nat.le_trans hfits.cpus (by decide))
  have hlength := Mp.length_buildMpTable c.cpus.toNat fun irq => irq
  obtain ⟨body, htable, hbytes, hread⟩ := Acpi.Kvm.dsdt_spec hdevices
  obtain ⟨dsdtAddr, fadtAddr, madtAddr, rsdtAddr, xsdtAddr, hordered, hcreate⟩ :=
    Acpi.Kvm.createAcpiTables_eq htable (Acpi.length_dsdtTable hbytes) hcpus (by omega : Acpi.rsdpAddr + 36 ≤ loaded.size)
  have hmp : Writes loaded.size (fun m => Mp.Kvm.writeMpTable m c.cpus.toNat) fun _ =>
      [⟨Mp.tableStart c.cpus.toNat, Mp.buildMpTable c.cpus.toNat fun irq => irq⟩] :=
    Backend.writes_put (by omega) (Nat.le_refl _)
  obtain ⟨m, hm, hready⟩ := setup_ready (b := .kvm) hfits hloaded (fun irq hirq => (by omega : irq < 256)) hordered
    (fun m => Acpi.Kvm.machine_of_holds hbytes hcpus hordered)
    (Backend.writes_putWord (b := .kvm) (by omega : 0x7070 + 8 ≤ loaded.size)) hmp
    (writes_setupLongMode (b := .kvm) (by omega)) fun p => Iff.rfl
  refine ⟨m, body, ?_, hread, hready⟩
  rw [setupMemory, hcreate]
  exact hm

end Kvm

/-! ### With WHP -/

namespace Whp

theorem checkConfig_ok (h : checkConfig c = .ok ()) (hmem : 1 < c.memMiB.toNat) : Fits c ∧ 0 < c.cpus.toNat ∧
    c.diskCount.toNat + 2 < 20 := by
  obtain ⟨_, hdisks, h⟩ := ok_of_bind h
  obtain ⟨_, hcount, h⟩ := ok_of_bind h
  obtain ⟨_, -, h⟩ := ok_of_bind h
  obtain ⟨_, -, h⟩ := ok_of_bind h
  obtain ⟨_, -, h⟩ := ok_of_bind h
  obtain ⟨_, -, h⟩ := ok_of_bind h
  obtain ⟨_, hcpus, h⟩ := ok_of_bind h
  obtain ⟨_, -, h⟩ := ok_of_bind h
  obtain ⟨_, hline, h⟩ := ok_of_bind h
  have hdisks := of_decide_eq_true (ok_of_check hdisks)
  have hcount := Acpi.Aml.deviceCount_ok (ok_of_lift hcount)
  have hcpus := of_decide_eq_true (ok_of_check hcpus)
  have hbytes := of_decide_eq_true (ok_of_check h)
  have hdisk := diskCount_toNat hdisks
  have hpins : Acpi.maxIoApicPins = 24 := rfl
  have hone : (1 : UInt32).toNat = 1 := rfl
  have hfew := UInt32.le_iff_toNat_le.mp hcpus.1
  rw [UInt32.toNat_add, UInt32.toNat_add, hone] at hcount
  refine ⟨⟨UInt32.le_iff_toNat_le.mp hcpus.2, fits_of (of_decide_eq_true (ok_of_check hline)), ?_, hbytes⟩, hfew, by omega⟩
  rw [BootConfig.memBytes]
  omega

/-- What the processors' tables are written as: behind a rootfs once, else once for each processor. --/
def vcpuPatches (c : BootConfig) : List Patch :=
  (List.range c.cpus.toNat).flatMap fun i => if c.rootfsBacked && i != 0 then [] else longModePatches

theorem mem_vcpuPatches (hcpus : 0 < c.cpus.toNat) (p : Patch) : p ∈ vcpuPatches c ↔ p ∈ longModePatches := by
  rw [vcpuPatches, List.mem_flatMap]
  constructor
  · rintro ⟨i, -, hp⟩
    split at hp
    · cases hp
    · exact hp
  · intro hp
    refine ⟨0, List.mem_range.mpr hcpus, ?_⟩
    rw [bne_self_eq_false, Bool.and_false]
    exact hp

theorem writes_setupVcpus (h : 0x100000 ≤ n) : Writes n (fun m => setupVcpus c m) fun _ => vcpuPatches c := by
  have hround : ∀ i ∈ List.range c.cpus.toNat, Writes n
      (fun m => if c.rootfsBacked && i != 0 then return m else Backend.whp.setupLongMode m)
      fun _ => if c.rootfsBacked && i != 0 then [] else longModePatches := by
    intro i _
    by_cases hother : (c.rootfsBacked && i != 0) = true
    · simp only [if_pos hother]
      exact fun m _ => rfl
    · simp only [if_neg hother]
      exact writes_setupLongMode h
  exact Writes.foldlM hround

theorem setupMemory_ready (hfits : Fits c) (hcpus : 0 < c.cpus.toNat) (hdevices : c.diskCount.toNat + 2 < 20)
    (hloaded : loaded.size = c.memBytes) : ∃ m body, setupMemory c loaded = .ok m ∧
      Acpi.Aml.read body = some [Acpi.Aml.whpDsdt c.slirpEnabled c.diskCount] ∧
      Ready c (Acpi.Whp.machine body c.cpus.toNat) (fun irq => if irq = 0 then Acpi.Whp.kPitIoApicPin else irq) loaded m := by
  have hlow := hfits.memLow
  have hmany : c.cpus.toNat ≤ 256 := Nat.le_trans hfits.cpus (by decide)
  have hrsdp : Acpi.rsdpAddr + 36 = 0xE0024 := rfl
  obtain ⟨-, hend, -⟩ := @Mp.tableStart_spec c.cpus.toNat (Nat.le_trans hfits.cpus (by decide))
  have hlength := Mp.length_buildMpTable c.cpus.toNat fun irq => if irq = 0 then Acpi.Whp.kPitIoApicPin else irq
  obtain ⟨body, htable, hbytes, hread⟩ := @Acpi.Whp.dsdt_spec c.slirpEnabled c.diskCount hdevices
  obtain ⟨dsdtAddr, fadtAddr, madtAddr, hpetAddr, rsdtAddr, xsdtAddr, hordered, hcreate⟩ :=
    Acpi.Whp.createAcpiTables_eq htable (Acpi.length_dsdtTable hbytes) hmany (by omega : Acpi.rsdpAddr + 36 ≤ loaded.size)
  have hroot : Writes loaded.size (fun m => lift (Backend.whp.checkRange m.size 0x7070 8 "guest memory") >>= fun _ =>
      Backend.whp.putWord m 0x7070 8 Acpi.rsdpAddr) fun _ => [⟨0x7070, Words.le 8 Acpi.rsdpAddr⟩] := by
    intro m hm
    have hrange : Backend.whp.checkRange m.size 0x7070 8 "guest memory" = .ok () := Backend.checkRange_of_le (by omega)
    have hput := Backend.writes_putWord (b := .whp) (v := Acpi.rsdpAddr) (by omega : 0x7070 + 8 ≤ loaded.size) m hm
    dsimp only at hput ⊢
    rw [hrange]
    exact hput
  have hmp : Writes loaded.size (fun m => Mp.Whp.writeMpTable m c.cpus.toNat Acpi.Whp.kPitIoApicPin) fun _ =>
      [⟨Mp.tableStart c.cpus.toNat, Mp.buildMpTable c.cpus.toNat fun irq =>
        if irq = 0 then Acpi.Whp.kPitIoApicPin else irq⟩] := by
    intro m hm
    have hrange : Backend.whp.checkRange m.size (Mp.tableStart c.cpus.toNat) (Mp.tableSize c.cpus.toNat) "MP table" = .ok () :=
      Backend.checkRange_of_le (by omega)
    dsimp only
    rw [Mp.Whp.writeMpTable, hrange]
    exact Backend.put_eq (b := .whp) (by omega) (Nat.le_refl _)
  have hpin : ∀ irq < 24, (if irq = 0 then Acpi.Whp.kPitIoApicPin else irq) < 256 := by decide
  obtain ⟨m, hm, hready⟩ := setup_ready (b := .whp) hfits hloaded hpin hordered
    (fun m => Acpi.Whp.machine_of_holds hbytes hmany hordered) hroot hmp (writes_setupVcpus (c := c) (by omega))
    (mem_vcpuPatches hcpus)
  simp only [bind_assoc] at hm
  refine ⟨m, body, ?_, hread, hready⟩
  rw [setupMemory, hcreate]
  exact hm

end Whp

/-! ### The result -/

theorem size_of_loadSpec {file : ByteStore} {r : KernelInfo × ByteStore} (h : LoadSpec file mem r) : r.2.size = mem.size := by
  have hsegments : ∀ segments : List Elf64Phdr, ∀ mem : ByteStore,
      (segments.foldl (Elf64Phdr.apply file) mem).size = mem.size := by
    intro segments
    induction segments with
    | nil => exact fun _ => rfl
    | cons ph segments ih => exact fun mem => ih (ph.apply file mem)
  have hmem := h.loaded.mem
  simp only at hmem
  rw [hmem, hsegments]

/-- Whatever configuration passes the checks, with at least 2 MiB of memory: when the kernel could be loaded, everything
    behind it succeeds, and the first processor starts with the parameters, the ACPI tables that they point to, the table of
    the multiprocessor specification, page tables and segments all readable at once. Where the host does not write, in
    particular from 1 MiB on, there is the kernel as its file says. --/
theorem boot_memory (c : BootConfig) (file loaded : ByteStore) (kernel : KernelInfo) (hmem : 1 < c.memMiB.toNat) :
    (Kvm.checkConfig c = .ok () → Kvm.loadElfKernel c.zeroed file = .ok (kernel, loaded) →
      ∃ m body, Kvm.bootMemory c file = .ok (kernel, m) ∧
        Acpi.Aml.read body = some [Acpi.Aml.kvmDsdt (Kvm.networkEnabled c) c.diskCount] ∧
        Ready c (Acpi.Kvm.machine body c.cpus.toNat) (fun irq => irq)
          ((segments file).foldl (Elf64Phdr.apply file) c.zeroed) m) ∧
    (Whp.checkConfig c = .ok () → Whp.loadElfKernel c.kernelPath c.zeroed file = .ok (kernel, loaded) →
      ∃ m body, Whp.bootMemory c file = .ok (kernel, m) ∧
        Acpi.Aml.read body = some [Acpi.Aml.whpDsdt c.slirpEnabled c.diskCount] ∧
        Ready c (Acpi.Whp.machine body c.cpus.toNat) (fun irq => if irq = 0 then Acpi.Whp.kPitIoApicPin else irq)
          ((segments file).foldl (Elf64Phdr.apply file) c.zeroed) m) := by
  constructor
  · intro hcheck hload
    obtain ⟨hfits, hdevices⟩ := Kvm.checkConfig_ok hcheck hmem
    have hspec := Backend.stays_loadElf.2 _ hload
    obtain ⟨m, body, hsetup, hread, hready⟩ := Kvm.setupMemory_ready hfits hdevices (size_of_loadSpec hspec)
    refine ⟨m, body, ?_, hread, hspec.loaded.mem ▸ hready⟩
    rw [Kvm.bootMemory, hcheck]
    change (Kvm.loadElfKernel c.zeroed file >>= _) = _
    rw [hload]
    change (Kvm.setupMemory c loaded >>= _) = _
    rw [hsetup]
    rfl
  · intro hcheck hload
    obtain ⟨hfits, hcpus, hdevices⟩ := Whp.checkConfig_ok hcheck hmem
    have hspec := (stays_check.bind fun _ _ => Backend.stays_loadElf).2 _ hload
    obtain ⟨m, body, hsetup, hread, hready⟩ := Whp.setupMemory_ready hfits hcpus hdevices (size_of_loadSpec hspec)
    refine ⟨m, body, ?_, hread, hspec.loaded.mem ▸ hready⟩
    rw [Whp.bootMemory, hcheck]
    change (Whp.loadElfKernel c.kernelPath c.zeroed file >>= _) = _
    rw [hload]
    change (Whp.setupMemory c loaded >>= _) = _
    rw [hsetup]
    rfl

/-- Two processors and 2 MiB. --/
def twoMib : BootConfig where
  kernelPath := "vmlinux"
  rootfsPath := "rootfs.ext4"
  cmdline := Words.ascii "console=ttyS0"
  memMiB := 2
  cpus := 2
  attachedDisks := 0
  tapName := ""
  guestMac := ""
  slirpEnabled := false
  rootfsBacked := true

theorem boot_memory_two_mib : ∃ kernel m body, Kvm.bootMemory twoMib overlapping = .ok (kernel, m) ∧
    Acpi.Aml.read body = some [Acpi.Aml.kvmDsdt false 1] ∧
    Ready twoMib (Acpi.Kvm.machine body 2) (fun irq => irq)
      ((segments overlapping).foldl (Elf64Phdr.apply overlapping) twoMib.zeroed) m := by
  have hsome : (Kvm.loadElfKernel twoMib.zeroed overlapping).toOption.isSome = true := by decide +kernel
  cases hload : Kvm.loadElfKernel twoMib.zeroed overlapping with
  | error e =>
    rw [hload] at hsome
    cases hsome
  | ok r =>
    obtain ⟨m, body, hrun, hread, hready⟩ := (boot_memory twoMib overlapping r.2 r.1 (by decide)).1 (by decide +kernel) hload
    exact ⟨r.1, m, body, hrun, hread, hready⟩

end
end NodeVmm
