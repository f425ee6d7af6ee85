import NodeVmm.FlatDisk

/-! The overlay disk is a mutable byte array. The simulation `Overlaid` says where the array's bytes are:
    in the overlay for a sector whose bit is set, in the base image otherwise. A write first copies the
    clean sectors that it covers in part, so that a set bit always stands for all 512 bytes. -/

namespace NodeVmm.Disk
open ByteStore

/-! ### The bitmap -/

theorem sectorBit_toNat (s : Nat) : (sectorBit s).toNat = 2 ^ (s % 8) := by
  have h : s % 8 < 8 := Nat.mod_lt _ (by decide)
  unfold sectorBit
  generalize s % 8 = k at h
  revert k
  decide

theorem and_sectorBit {x : UInt8} {s : Nat} : (x &&& sectorBit s) ≠ 0 ↔ x.toNat.testBit (s % 8) = true := by
  have hbit : ∀ k, (x &&& sectorBit s).toNat.testBit k = (x.toNat.testBit k && decide (s % 8 = k)) := fun k => by
    rw [UInt8.toNat_and, sectorBit_toNat, Nat.testBit_and, Nat.testBit_two_pow]
  constructor
  · intro hne
    by_contra hf
    refine hne (UInt8.toNat_inj.mp (Nat.eq_of_testBit_eq fun k => ?_))
    rw [hbit]
    by_cases hk : s % 8 = k
    · subst hk
      simpa using hf
    · simp [hk]
  · intro ht h0
    have := hbit (s % 8)
    rw [h0, ht] at this
    simp at this

theorem testBit_or_sectorBit {x : UInt8} {s k : Nat} :
    (x ||| sectorBit s).toNat.testBit k = (x.toNat.testBit k || decide (s % 8 = k)) := by
  rw [UInt8.toNat_or, sectorBit_toNat, Nat.testBit_or, Nat.testBit_two_pow]

theorem sectorDirty_iff {d : Disk} {s : Nat} : d.sectorDirty s = true ↔
    d.hasOverlay = true ∧ s < d.sectors ∧ (d.dirtySectors.getD (s / 8) 0).toNat.testBit (s % 8) = true := by
  unfold sectorDirty
  by_cases h : (!d.hasOverlay || decide (d.sectors ≤ s)) = true
  · simp only [h, if_true]
    simp only [Bool.or_eq_true, Bool.not_eq_true', decide_eq_true_eq] at h
    constructor
    · intro h'; cases h'
    · rintro ⟨ho, hs, -⟩
      rcases h with h | h
      · rw [h] at ho; cases ho
      · omega
  · simp only [h]
    simp only [Bool.or_eq_true, Bool.not_eq_true', decide_eq_true_eq, not_or, Bool.not_eq_false] at h
    rw [← and_sectorBit]
    simp only [Bool.false_eq_true, if_false, bne_iff_ne]
    exact ⟨fun h' => ⟨h.1, by omega, h'⟩, fun h' => h'.2.2⟩

theorem sectorDirty_markDirty {d : Disk} {s s' : Nat} (ho : d.hasOverlay = true) (hs : s < d.sectors)
    (hlen : d.dirtySectors.length = (d.sectors + 7) / 8) :
    (d.markDirty s).sectorDirty s' = true ↔ d.sectorDirty s' = true ∨ s' = s := by
  have hm : d.markDirty s = { d with
      dirtySectors := d.dirtySectors.set (s / 8) (d.dirtySectors.getD (s / 8) 0 ||| sectorBit s) } := by
    unfold markDirty
    simp [ho]
    omega
  rw [hm, sectorDirty_iff, sectorDirty_iff]
  have hin : s / 8 < d.dirtySectors.length := by omega
  by_cases hb : s / 8 = s' / 8
  · have hset : (d.dirtySectors.set (s / 8) (d.dirtySectors.getD (s / 8) 0 ||| sectorBit s)).getD (s' / 8) 0 =
        d.dirtySectors.getD (s' / 8) 0 ||| sectorBit s := by
      rw [← hb]
      simp [List.getD_eq_getElem?_getD, hin]
    simp only [hset, testBit_or_sectorBit, Bool.or_eq_true, decide_eq_true_eq]
    have : s % 8 = s' % 8 ↔ s' = s := by omega
    rw [this]
    constructor
    · rintro ⟨h1, h2, h3 | h3⟩
      · exact Or.inl ⟨h1, h2, h3⟩
      · exact Or.inr h3
    · rintro (⟨h1, h2, h3⟩ | rfl)
      · exact ⟨h1, h2, Or.inl h3⟩
      · exact ⟨ho, hs, Or.inr rfl⟩
  · have hset : (d.dirtySectors.set (s / 8) (d.dirtySectors.getD (s / 8) 0 ||| sectorBit s)).getD (s' / 8) 0 =
        d.dirtySectors.getD (s' / 8) 0 := by
      simp [List.getD_eq_getElem?_getD, List.getElem?_set_ne hb]
    simp only [hset]
    constructor
    · exact Or.inl
    · rintro (h | rfl)
      · exact h
      · exact absurd rfl hb

theorem mem_sectorRange {first last s : Nat} : s ∈ sectorRange first last ↔ first ≤ s ∧ s ≤ last := by
  simp only [sectorRange, List.mem_range'_1]
  omega

/-! ### The shape of a disk opened with an overlay -/

/-- What every call keeps of a disk that was opened with an overlay on `image`. --/
structure Shape (image : ByteStore) (d : Disk) : Prop where
  base : d.base = image
  overlay : d.overlay = some d.overlayFile
  overlaySize : d.overlayFile.size = image.size
  diskBytes : d.diskBytes = image.size
  sectors : d.sectors = image.size / 512
  bitmap : d.dirtySectors.length = (d.sectors + 7) / 8
  writable : d.readOnly = false
  calm : d.faults = []

section
variable {b : Backend} {image flat : ByteStore} {d : Disk}

theorem Shape.hasOverlay (h : Shape image d) : d.hasOverlay = true := by
  rw [Disk.hasOverlay, h.overlay]
  rfl

theorem Shape.setOverlayFile (h : Shape image d) {f : ByteStore} (hf : f.size = image.size) :
    Shape image (setOverlayFile f d) :=
  ⟨h.base, rfl, hf, h.diskBytes, h.sectors, h.bitmap, h.writable, h.calm⟩

theorem Shape.setDirtySectors (h : Shape image d) {bits : List UInt8} (hbits : bits.length = d.dirtySectors.length) :
    Shape image { d with dirtySectors := bits } :=
  ⟨h.base, h.overlay, h.overlaySize, h.diskBytes, h.sectors, hbits.trans h.bitmap, h.writable, h.calm⟩

theorem markDirty_eq (s : Nat) (d : Disk) : ∃ bits, d.markDirty s = { d with dirtySectors := bits } ∧
    bits.length = d.dirtySectors.length := by
  unfold markDirty
  split
  · exact ⟨d.dirtySectors, rfl, rfl⟩
  · exact ⟨_, rfl, List.length_set⟩

/-- Marking sectors changes their bits only. --/
theorem foldl_markDirty (l : List Nat) : ∀ {d : Disk}, d.hasOverlay = true →
    d.dirtySectors.length = (d.sectors + 7) / 8 → (∀ s ∈ l, s < d.sectors) →
    ∃ bits, l.foldl markDirty d = { d with dirtySectors := bits } ∧ bits.length = d.dirtySectors.length ∧
      ∀ s, (l.foldl markDirty d).sectorDirty s = true ↔ d.sectorDirty s = true ∨ s ∈ l := by
  induction l with
  | nil =>
    intro d _ _ _
    exact ⟨d.dirtySectors, rfl, rfl, by simp⟩
  | cons x rest ih =>
    intro d ho hlen hl
    obtain ⟨bits, hx, hbits⟩ := markDirty_eq x d
    have hdirty : ∀ s, (d.markDirty x).sectorDirty s = true ↔ d.sectorDirty s = true ∨ s = x := fun s =>
      sectorDirty_markDirty ho (hl x List.mem_cons_self) hlen
    rw [hx] at hdirty
    obtain ⟨bits', hrest, hbits', hdirty'⟩ := ih (d := { d with dirtySectors := bits }) ho (hbits.trans hlen)
      fun s hs => hl s (List.mem_cons_of_mem _ hs)
    rw [List.foldl_cons, hx]
    refine ⟨bits', hrest, hbits'.trans hbits, fun s => ?_⟩
    rw [hdirty' s, hdirty s, List.mem_cons, or_assoc]

/-- A write of `len` bytes at `off` touches the sector. --/
def Touched (off len sector : Nat) : Prop := 0 < len ∧ off / 512 ≤ sector ∧ sector ≤ (off + len - 1) / 512

theorem markDirtyRange_spec (ho : d.hasOverlay = true) (hbits : d.dirtySectors.length = (d.sectors + 7) / 8)
    {off len : Nat} (hlt : off + len ≤ 2 ^ 64) (hin : ∀ s, Touched off len s → s < d.sectors) :
    ∃ bits, markDirtyRange off len d = { d with dirtySectors := bits } ∧ bits.length = d.dirtySectors.length ∧
      ∀ s, (markDirtyRange off len d).sectorDirty s = true ↔ d.sectorDirty s = true ∨ Touched off len s := by
  unfold markDirtyRange
  by_cases hlen : len = 0
  · subst hlen
    exact ⟨d.dirtySectors, by simp, rfl, by simp [Touched]⟩
  · have hcond : (!d.hasOverlay || len == 0) = false := by simp [ho, hlen]
    have htouched : ∀ s, s ∈ sectorRange (off / 512) ((off + len - 1) / 512) ↔ Touched off len s := fun s => by
      rw [mem_sectorRange]
      unfold Touched
      omega
    simp only [hcond, Bool.false_eq_true, if_false, u64_of_lt (show off + len - 1 < 2 ^ 64 by omega)]
    simp only [← htouched] at hin ⊢
    exact foldl_markDirty _ ho hbits hin

/-! ### Which calls are refused -/

theorem diskOffset_of_le (op : String) (sector : UInt64) (len : Nat) (hsize : d.diskBytes < 2 ^ 63)
    (h : sector.toNat * 512 + len ≤ d.diskBytes) : d.diskOffset b op sector len = .ok (sector.toNat * 512) := by
  have hmul : sector.toNat * 512 < 2 ^ 64 := by omega
  cases b with
  | hvf =>
    have h1 : sector.toNat ≤ uint64Max / 512 := by unfold uint64Max; omega
    have h2 : sector.toNat * 512 ≤ d.diskBytes ∧ len ≤ d.diskBytes - sector.toNat * 512 := by omega
    have h3 : sector.toNat * 512 ≤ offMax := le_offMax.mpr (by omega)
    have h4 : len = 0 ∨ len - 1 ≤ offMax - sector.toNat * 512 := by
      have : sector.toNat * 512 + (len - 1) ≤ offMax ∨ len = 0 := by
        rw [le_offMax]
        omega
      omega
    simp only [diskOffset, u64_of_lt hmul, h1, h2, h3, h4, and_self, not_true, if_false]
  | _ =>
    simp only [diskOffset, Backend.checkedMul_of_lt hmul, bind, Except.bind, Backend.checkRange_of_le h, pure,
      Except.pure]

theorem diskOffset_of_gt (op : String) {sector : UInt64} {len : Nat}
    (h : d.diskBytes < sector.toNat * 512 + len) :
    ∃ e, d.diskOffset b op sector len = .error e := by
  have hchecked : ∀ b : Backend, ∃ e, (do
      let byteOff ← b.checkedMul sector.toNat 512 ("virtio-blk " ++ op ++ " offset")
      b.checkRange d.diskBytes byteOff len ("virtio-blk " ++ op)
      pure byteOff) = (.error e : Except String Nat) := fun b => by
    by_cases hmul : sector.toNat * 512 < 2 ^ 64
    · obtain ⟨e, he⟩ := Backend.checkRange_of_gt (b := b) ("virtio-blk " ++ op) h
      exact ⟨e, by rw [Backend.checkedMul_of_lt hmul]; simp only [he, bind, Except.bind]⟩
    · obtain ⟨e, he⟩ := Backend.checkedMul_of_ge (b := b) ("virtio-blk " ++ op ++ " offset")
        (show 2 ^ 64 ≤ sector.toNat * 512 by omega)
      exact ⟨e, by simp only [he, bind, Except.bind]⟩
  cases b with
  | hvf =>
    unfold diskOffset
    by_cases h1 : sector.toNat ≤ uint64Max / 512
    · have hmul : sector.toNat * 512 < 2 ^ 64 := by unfold uint64Max at h1; omega
      have h2 : ¬(sector.toNat * 512 ≤ d.diskBytes ∧ len ≤ d.diskBytes - sector.toNat * 512) := by omega
      exact ⟨_, by simp only [h1, not_true, if_false, u64_of_lt hmul, h2, not_false_eq_true, if_true]; rfl⟩
    · exact ⟨_, by simp only [h1, not_false_eq_true, if_true]; rfl⟩
  | kvm => exact hchecked .kvm
  | whp => exact hchecked .whp

/-! ### Host calls that do not fail -/

theorem nextFault_calm (h : d.faults = []) : nextFault d = (.ok none, d) := by
  unfold nextFault
  rw [h]

theorem preadAll_calm (h : d.faults = []) {file : ByteStore} {len off : Nat} (hr : off + len ≤ file.size) :
    preadAll b file len off d = (.ok ⟨file.read off len, none⟩, d) := by
  have havail : min len (file.size - off) = len := by omega
  unfold preadAll
  rw [Exec.bind_of_ok (nextFault_calm h)]
  simp [havail]

theorem pwrite_of_le {file : ByteStore} {off : Nat} {src : List UInt8} (h : off + src.length ≤ file.size) :
    pwrite file off src = file.write off src := by
  unfold pwrite
  split
  · rename_i hnil
    subst hnil
    simp
  · have : max file.size (off + src.length) = file.size := by omega
    simp [this, ByteStore.write]

theorem pwriteAll_calm (h : d.faults = []) {view : Disk → ByteStore} {store : ByteStore → Disk → Disk}
    {src : List UInt8} {off : Nat} :
    pwriteAll b view store src off d = (.ok (), store (pwrite (view d) off src) d) := by
  unfold pwriteAll
  rw [Exec.bind_of_ok (nextFault_calm h)]
  rfl

/-! ### Reads -/

/-- The disk with an overlay on `image` holds the bytes of `flat`. --/
structure Overlaid (image : ByteStore) (d : Disk) (flat : ByteStore) : Prop extends Shape image d where
  flatSize : flat.size = image.size
  bytes : ∀ i < image.size, flat.byte i =
    if d.sectorDirty (i / 512) = true then d.overlayFile.byte i else image.byte i

/-- A piece inside one sector is read from the file that holds the sector. --/
theorem Overlaid.read_piece (h : Overlaid image d flat) (off len : Nat) (hr : off + len ≤ image.size)
    (hin : off % 512 + len ≤ 512) :
    (if d.sectorDirty (off / 512) = true then d.overlayFile else d.base).read off len = flat.read off len := by
  refine read_congr fun i hi => ?_
  obtain ⟨hlo, hhi⟩ := hi
  have hsec : i / 512 = off / 512 := by omega
  rw [h.bytes i (by omega), hsec, h.base]
  split <;> rfl

theorem Overlaid.readSectors (h : Overlaid image d flat) (hsize : image.size < 2 ^ 63) {off len : Nat}
    (hr : off + len ≤ image.size) : ∀ fuel done, done ≤ len → len - done ≤ fuel →
      readSectors b off len fuel done d = (.ok ⟨flat.read (off + done) (len - done), none⟩, d)
  | 0, done, _, hf => by
    have : len - done = 0 := by omega
    rw [this]
    rfl
  | fuel + 1, done, hd, hf => by
    unfold Disk.readSectors
    by_cases hdone : len ≤ done
    · have : len - done = 0 := by omega
      simp [hdone, this]
    · have hu : u64 (off + done) = off + done := u64_of_lt (by omega)
      simp only [hdone, if_false, hu]
      rw [Exec.bind_of_ok Exec.get_apply]
      -- The piece ends at the end of the read or of its sector.
      generalize hchunk : min (len - done) (512 - (off + done) % 512) = chunk
      have hpiece := h.read_piece (off + done) chunk (by omega) (by omega)
      have hfile : (if d.sectorDirty ((off + done) / 512) = true then d.overlayFile else d.base).size =
          image.size := by
        split
        · exact h.overlaySize
        · rw [h.base]
      rw [Exec.bind_of_ok (preadAll_calm h.calm (by omega)), hpiece]
      have hrest := Overlaid.readSectors h hsize hr fuel (done + chunk) (by omega) (by omega)
      show (do
        let rest ← Disk.readSectors b off len fuel (done + chunk)
        pure (⟨flat.read (off + done) chunk ++ rest.bytes, rest.error⟩ : Transfer)) d = _
      rw [Exec.bind_of_ok hrest, Exec.pure_apply]
      have hlen : len - done = chunk + (len - (done + chunk)) := by omega
      rw [hlen, read_add, Nat.add_assoc off done chunk]

theorem Overlaid.readDisk (h : Overlaid image d flat) (hsize : image.size < 2 ^ 63) {sector : UInt64} {len : Nat}
    (hr : sector.toNat * 512 + len ≤ image.size) :
    readDisk b sector len d = (.ok ⟨flat.read (sector.toNat * 512) len, none⟩, d) := by
  have hoff := diskOffset_of_le (b := b) (d := d) "read" sector len
    (by rw [h.diskBytes]; omega) (by rw [h.diskBytes]; exact hr)
  have hread := h.readSectors (b := b) hsize hr len 0 (by omega) (by omega)
  unfold Disk.readDisk
  rw [Exec.bind_of_ok Exec.get_apply, Exec.bind_of_ok (by rw [hoff]; rfl)]
  simpa [h.hasOverlay] using hread

/-! ### Writes -/

/-- A sector that a write of the bytes from `off` to `stop` copies first: clean, and not covered whole. --/
def Copied (d : Disk) (off stop sector : Nat) : Prop :=
  ¬(off ≤ sector * 512 ∧ sector * 512 + 512 ≤ stop) ∧ d.sectorDirty sector = false

theorem sectorDirty_setOverlayFile (h : d.hasOverlay = true) {f : ByteStore} {s : Nat} :
    (setOverlayFile f d).sectorDirty s = d.sectorDirty s := by
  unfold sectorDirty
  rw [h]
  rfl

theorem prepareSector_spec (off stop : Nat) {sector : Nat} (h : Shape image d) (hsize : image.size < 2 ^ 63)
    (hs : sector * 512 + 512 ≤ image.size) : ∃ ov, ov.size = image.size ∧
      prepareSector b off stop sector d = (.ok (), setOverlayFile ov d) ∧
      (∀ i, i / 512 ≠ sector → ov.byte i = d.overlayFile.byte i) ∧
      (Copied d off stop sector → ∀ i, i / 512 = sector → ov.byte i = image.byte i) ∧
      (¬Copied d off stop sector → ∀ i, i / 512 = sector → ov.byte i = d.overlayFile.byte i) := by
  have hu : u64 (sector * 512) = sector * 512 := u64_of_lt (by omega)
  have hu' : u64 (sector * 512 + 512) = sector * 512 + 512 := u64_of_lt (by omega)
  unfold prepareSector
  rw [Exec.bind_of_ok Exec.get_apply]
  simp only [hu, hu']
  by_cases hc : Copied d off stop sector
  · have hcond : (decide (off ≤ sector * 512) && decide (sector * 512 + 512 ≤ stop) || d.sectorDirty sector) =
        false := by
      rw [hc.2]
      simpa using hc.1
    have hbase : sector * 512 + 512 ≤ d.base.size := by rw [h.base]; exact hs
    simp only [hcond, Bool.false_eq_true, if_false]
    rw [Exec.bind_of_ok (preadAll_calm h.calm hbase)]
    refine ⟨d.overlayFile.write (sector * 512) (d.base.read (sector * 512) 512), ?_, ?_, ?_, ?_, ?_⟩
    · exact h.overlaySize
    · dsimp only
      rw [pwriteAll_calm h.calm, pwrite_of_le (by rw [length_read, h.overlaySize]; exact hs)]
    · intro i hi
      refine byte_write_of_not_within fun hw => ?_
      rw [length_read] at hw
      obtain ⟨hlo, hhi⟩ := hw
      omega
    · intro _ i hi
      have hw : Within (sector * 512) 512 i := by
        unfold Within
        omega
      rw [byte_write_read hw, h.base]
    · exact fun hn => absurd hc hn
  · have hcond : (decide (off ≤ sector * 512) && decide (sector * 512 + 512 ≤ stop) || d.sectorDirty sector) =
        true := by
      unfold Copied at hc
      cases hd : d.sectorDirty sector
      · simpa [hd] using hc
      · simp
    have hself : setOverlayFile d.overlayFile d = d := by
      unfold setOverlayFile
      rw [← h.overlay]
    simp only [hcond, if_true]
    exact ⟨d.overlayFile, h.overlaySize, by rw [hself]; rfl, fun _ _ => rfl, fun hn => absurd hn hc,
      fun _ _ _ => rfl⟩

theorem prepareSectors_spec (off stop : Nat) (hsize : image.size < 2 ^ 63) (l : List Nat) :
    ∀ {d : Disk}, Shape image d → (∀ s ∈ l, s * 512 + 512 ≤ image.size) → ∃ ov, ov.size = image.size ∧
      prepareSectors b off stop l d = (.ok (), setOverlayFile ov d) ∧
      ∀ i, (i / 512 ∈ l ∧ Copied d off stop (i / 512) → ov.byte i = image.byte i) ∧
        (¬(i / 512 ∈ l ∧ Copied d off stop (i / 512)) → ov.byte i = d.overlayFile.byte i) := by
  induction l with
  | nil =>
    intro d h _
    refine ⟨d.overlayFile, h.overlaySize, ?_, fun i => ⟨fun hi => by simp at hi, fun _ => rfl⟩⟩
    have hself : setOverlayFile d.overlayFile d = d := by
      unfold setOverlayFile
      rw [← h.overlay]
    rw [hself]
    rfl
  | cons x rest ih =>
    intro d h hl
    obtain ⟨ov, hov, hrun, hother, hcopied, hkept⟩ := prepareSector_spec (b := b) off stop h
      hsize (hl x List.mem_cons_self)
    obtain ⟨ov', hov', hrun', hbytes⟩ := ih (h.setOverlayFile hov) fun s hs => hl s (List.mem_cons_of_mem _ hs)
    have hsame : ∀ s, Copied (setOverlayFile ov d) off stop s ↔ Copied d off stop s := fun s => by
      unfold Copied
      rw [sectorDirty_setOverlayFile h.hasOverlay]
    refine ⟨ov', hov', ?_, fun i => ?_⟩
    · unfold prepareSectors
      rw [Exec.bind_of_ok hrun, hrun']
      rfl
    · obtain ⟨hin, hout⟩ := hbytes i
      rw [hsame] at hin hout
      by_cases hx : i / 512 = x
      · by_cases hc : Copied d off stop (i / 512)
        · refine ⟨fun _ => ?_, fun hn => absurd ⟨by simp [hx], hc⟩ hn⟩
          by_cases hr : i / 512 ∈ rest
          · exact hin ⟨hr, hc⟩
          · rw [hout fun h' => hr h'.1]
            exact hcopied (hx ▸ hc) i hx
        · refine ⟨fun h' => absurd h'.2 hc, fun _ => ?_⟩
          rw [hout fun h' => hc h'.2]
          exact hkept (hx ▸ hc) i hx
      · have hmem : i / 512 ∈ x :: rest ↔ i / 512 ∈ rest := by simp [hx]
        rw [hmem]
        refine ⟨hin, fun hn => ?_⟩
        rw [hout hn]
        exact hother i hx

theorem overlayEnd_of_le (h : Shape image d) (hsize : image.size < 2 ^ 63) {off len : Nat}
    (hr : off + len ≤ image.size) : overlayEnd b d off len = .ok (off + len) := by
  have hlt : off + len < 2 ^ 64 := by omega
  have hr' : off + len ≤ d.diskBytes := by rw [h.diskBytes]; exact hr
  cases b with
  | hvf => simp only [overlayEnd, u64_of_lt hlt]
  | _ => simp only [overlayEnd, Backend.checkRange_of_le hr', Backend.checkedAdd_of_lt hlt, bind, Except.bind]

/-- The copies of a write: afterwards each sector that it touches has its other bytes in the overlay. --/
theorem preparePartial_spec (h : Shape image d) (hsize : image.size < 2 ^ 63) (h512 : 512 ∣ image.size)
    {off len : Nat} (hr : off + len ≤ image.size) : ∃ ov, ov.size = image.size ∧
      preparePartialOverlaySectors b off len d = (.ok (), setOverlayFile ov d) ∧
      ∀ i, (Touched off len (i / 512) ∧ Copied d off (off + len) (i / 512) → ov.byte i = image.byte i) ∧
        (¬(Touched off len (i / 512) ∧ Copied d off (off + len) (i / 512)) →
          ov.byte i = d.overlayFile.byte i) := by
  unfold preparePartialOverlaySectors
  rw [Exec.bind_of_ok Exec.get_apply]
  by_cases hlen : len = 0
  · have hself : setOverlayFile d.overlayFile d = d := by
      unfold setOverlayFile
      rw [← h.overlay]
    refine ⟨d.overlayFile, h.overlaySize, by rw [hself]; simp [hlen], fun i => ⟨fun hi => ?_, fun _ => rfl⟩⟩
    have := hi.1.1
    omega
  · have hcond : (!d.hasOverlay || len == 0) = false := by simp [h.hasOverlay, hlen]
    simp only [hcond, Bool.false_eq_true, if_false]
    rw [Exec.bind_of_ok (by rw [overlayEnd_of_le h hsize hr]; rfl),
      u64_of_lt (show off + len - 1 < 2 ^ 64 by omega)]
    obtain ⟨ov, hov, hrun, hbytes⟩ := prepareSectors_spec (b := b) off (off + len) hsize
      (sectorRange (off / 512) ((off + len - 1) / 512)) h fun s hs => by
        have := (mem_sectorRange.mp hs).2
        omega
    refine ⟨ov, hov, hrun, fun i => ?_⟩
    have hmem : i / 512 ∈ sectorRange (off / 512) ((off + len - 1) / 512) ↔ Touched off len (i / 512) := by
      rw [mem_sectorRange]
      unfold Touched
      omega
    rw [← hmem]
    exact hbytes i

theorem Overlaid.writeDisk (h : Overlaid image d flat) (hsize : image.size < 2 ^ 63) (h512 : 512 ∣ image.size)
    {sector : UInt64} {src : List UInt8} (hr : sector.toNat * 512 + src.length ≤ image.size) :
    ∃ d', writeDisk b sector src d = (.ok (), d') ∧ Overlaid image d' (flat.write (sector.toNat * 512) src) := by
  have hoff := diskOffset_of_le (b := b) (d := d) "write" sector src.length
    (by rw [h.diskBytes]; omega) (by rw [h.diskBytes]; exact hr)
  generalize sector.toNat * 512 = off at hr hoff
  obtain ⟨ov, hov, hprep, hbytes⟩ := preparePartial_spec (b := b) h.toShape hsize h512 hr
  have hshape := h.toShape.setOverlayFile hov
  have hwritten : setWriteFile (pwrite (setOverlayFile ov d).writeFile off src) (setOverlayFile ov d) =
      setOverlayFile (ov.write off src) d := by
    have hfile : (setOverlayFile ov d).writeFile = ov := rfl
    rw [hfile, pwrite_of_le (by omega)]
    rfl
  have hshape' : Shape image (setOverlayFile (ov.write off src) d) := h.toShape.setOverlayFile hov
  obtain ⟨bits, hmarked, hbits, hdirty⟩ := markDirtyRange_spec hshape'.hasOverlay hshape'.bitmap
    (show off + src.length ≤ 2 ^ 64 by omega) fun s hs => by
      rw [hshape'.sectors]
      have := hs.2.2
      have := hs.1
      omega
  have hmarkedFile : (markDirtyRange off src.length (setOverlayFile (ov.write off src) d)).overlayFile =
      ov.write off src := by
    rw [hmarked]
    rfl
  refine ⟨_, ?_, hmarked ▸ hshape'.setDirtySectors hbits, h.flatSize, fun i hi => ?_⟩
  · unfold Disk.writeDisk
    rw [Exec.bind_of_ok Exec.get_apply, h.writable, Bool.not_false, Exec.bind_of_ok (Exec.check_of_true rfl),
      Exec.bind_of_ok (by rw [hoff]; rfl), Exec.bind_of_ok hprep, Exec.bind_of_ok (pwriteAll_calm hshape.calm),
      hwritten]
    rfl
  · have hdirty' := hdirty (i / 512)
    rw [sectorDirty_setOverlayFile h.hasOverlay] at hdirty'
    rw [hmarkedFile]
    show (flat.write off src).byte i = if _ then (ov.write off src).byte i else image.byte i
    have hflat := h.bytes i hi
    by_cases hw : Within off src.length i
    · -- A written byte: its sector is dirty now.
      have : (markDirtyRange off src.length (setOverlayFile (ov.write off src) d)).sectorDirty (i / 512) = true :=
        hdirty'.mpr (Or.inr (by unfold Within at hw; unfold Touched; omega))
      rw [if_pos this, byte_write_of_within hw, byte_write_of_within hw]
    · rw [byte_write_of_not_within hw, byte_write_of_not_within hw, hflat]
      obtain ⟨hcopied, hkept⟩ := hbytes i
      by_cases hd : d.sectorDirty (i / 512) = true
      · have hnc : ¬(Touched off src.length (i / 512) ∧ Copied d off (off + src.length) (i / 512)) := fun hc => by
          rw [hc.2.2] at hd
          cases hd
        rw [if_pos hd, if_pos (hdirty'.mpr (Or.inl hd)), hkept hnc]
      · rw [if_neg hd]
        by_cases ht : Touched off src.length (i / 512)
        · -- A clean sector that the write covers in part: this byte was copied from the base.
          have hc : Copied d off (off + src.length) (i / 512) := by
            refine ⟨fun hfull => hw ?_, by simpa using hd⟩
            unfold Within
            unfold Touched at ht
            omega
          rw [hcopied ⟨ht, hc⟩]
          split <;> rfl
        · have : ¬(markDirtyRange off src.length (setOverlayFile (ov.write off src) d)).sectorDirty (i / 512) =
              true := fun hm => by
            rcases hdirty'.mp hm with h' | h'
            · exact hd h'
            · exact ht h'
          rw [if_neg this]

theorem flatCall_refused {c : DiskCall} (hc : (flatCall flat c).1 = none) : flatCall flat c = (none, flat) := by
  cases c with
  | read sector len =>
    by_cases hle : sector.toNat * 512 + len ≤ flat.size
    · rw [flatCall, if_pos hle] at hc
      cases hc
    · rw [flatCall, if_neg hle]
  | write sector bytes =>
    by_cases hle : sector.toNat * 512 + bytes.length ≤ flat.size
    · rw [flatCall, if_pos hle] at hc
      cases hc
    · rw [flatCall, if_neg hle]

/-- A call out of range throws before it has done anything. --/
theorem call_refused {c : DiskCall} (hc : (flatCall flat c).1 = none)
    (hsize : flat.size = d.diskBytes) : d.call b c = (none, d) := by
  cases c with
  | read sector len =>
    have hgt : d.diskBytes < sector.toNat * 512 + len := by
      by_contra hle
      rw [flatCall, if_pos (by omega)] at hc
      cases hc
    obtain ⟨e, he⟩ := diskOffset_of_gt (b := b) "read" hgt
    have hrun : Disk.readDisk b sector len d = (.error e, d) := by
      unfold Disk.readDisk
      rw [Exec.bind_of_ok Exec.get_apply, Exec.bind_of_error (by rw [he]; rfl)]
    simp only [Disk.call, hrun]
  | write sector bytes =>
    have hgt : d.diskBytes < sector.toNat * 512 + bytes.length := by
      by_contra hle
      rw [flatCall, if_pos (by omega)] at hc
      cases hc
    obtain ⟨e, he⟩ := diskOffset_of_gt (b := b) "write" hgt
    have hrun : ∃ e, Disk.writeDisk b sector bytes d = (.error e, d) := by
      unfold Disk.writeDisk
      rw [Exec.bind_of_ok Exec.get_apply]
      cases hro : d.readOnly
      · exact ⟨e, by rw [Bool.not_false, Exec.bind_of_ok (Exec.check_of_true rfl), Exec.bind_of_error (by rw [he]; rfl)]⟩
      · exact ⟨_, by rw [Bool.not_true, Exec.bind_of_error (Exec.check_of_false rfl)]⟩
    obtain ⟨e, hrun⟩ := hrun
    simp only [Disk.call, hrun]

/-! ### The simulation -/

theorem overlaid_simulation (b : Backend) (hsize : image.size < 2 ^ 63) (h512 : 512 ∣ image.size) :
    Calls.Simulation (Disk.call b) flatCall (Overlaid image) := by
  intro d flat c h
  have hbytes : flat.size = d.diskBytes := by rw [h.flatSize, h.diskBytes]
  cases hc : (flatCall flat c).1 with
  | none =>
    rw [call_refused hc hbytes, flatCall_refused hc]
    exact ⟨rfl, h⟩
  | some answer =>
    cases c with
    | read sector len =>
      have hr : sector.toNat * 512 + len ≤ flat.size := by
        by_contra hgt
        rw [flatCall, if_neg hgt] at hc
        cases hc
      have hflat : flatCall flat (.read sector len) = (some (flat.read (sector.toNat * 512) len), flat) := by
        rw [flatCall, if_pos hr]
      have hrun := h.readDisk (b := b) hsize (h.flatSize ▸ hr)
      rw [← hc, hflat]
      simp only [Disk.call, hrun]
      exact ⟨trivial, h⟩
    | write sector bytes =>
      have hr : sector.toNat * 512 + bytes.length ≤ flat.size := by
        by_contra hgt
        rw [flatCall, if_neg hgt] at hc
        cases hc
      have hflat : flatCall flat (.write sector bytes) = (some [], flat.write (sector.toNat * 512) bytes) := by
        rw [flatCall, if_pos hr]
      obtain ⟨d', hrun, hnext⟩ := h.writeDisk (b := b) hsize h512 (h.flatSize ▸ hr)
      rw [← hc, hflat]
      simp only [Disk.call, hrun]
      exact ⟨trivial, hnext⟩

/-- A disk just opened with an overlay holds the bytes of its image. --/
theorem overlaid_openDisk {path overlayPath : String} {readOnly : Bool} (hov : overlayPath ≠ "")
    (hopen : openDisk path overlayPath image readOnly = .ok d) : Overlaid image d image := by
  have hov' : (overlayPath != "") = true := by simpa using hov
  unfold openDisk at hopen
  simp only [hov', Bool.and_true, Bool.true_and, if_true] at hopen
  split at hopen
  · cases hopen
  · rename_i hro
    split at hopen
    · cases hopen
    · cases hopen
      refine ⟨⟨rfl, rfl, rfl, rfl, rfl, by simp, by simpa using hro, rfl⟩, rfl, fun i hi => ?_⟩
      rw [if_neg]
      rw [sectorDirty_iff]
      rintro ⟨-, -, hbit⟩
      by_cases hlt : i / 512 / 8 < (image.size / 512 + 7) / 8 <;>
        simp [List.getD_eq_getElem?_getD, hlt] at hbit

end

end NodeVmm.Disk
