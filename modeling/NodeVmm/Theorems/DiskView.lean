import NodeVmm.Theorems.DiskOverlay

/-! The bytes that the disk shows to the guest, whatever file holds them, and what calls do to them when the
    host may fail at any point. A read that returns without an error gave the bytes shown; a write of whole
    sectors that returns stored its bytes and changed no others. `Wf` is what every call keeps. -/

namespace NodeVmm.Disk
open ByteStore

/-- The bytes that the guest finds on the disk. --/
def view (d : Disk) : ByteStore where
  size := d.diskBytes
  byte i := if d.sectorDirty (i / 512) then d.overlayFile.byte i else d.base.byte i

/-- What holds of an open disk. --/
structure Wf (d : Disk) : Prop where
  fits : d.diskBytes < 2 ^ 63
  sectors : d.sectors = d.diskBytes / 512
  bitmap : d.hasOverlay = true → d.dirtySectors.length = (d.sectors + 7) / 8

/-- What no call changes. --/
structure Kept (d d' : Disk) : Prop where
  diskBytes : d'.diskBytes = d.diskBytes
  sectors : d'.sectors = d.sectors
  bitmap : d'.dirtySectors.length = d.dirtySectors.length
  hasOverlay : d'.hasOverlay = d.hasOverlay
  readOnly : d'.readOnly = d.readOnly

/-- The disks differ in the coming faults only. --/
def SameFiles (d d' : Disk) : Prop := ∃ f, d' = { d with faults := f }

section
variable {b : Backend} {d d' d'' : Disk} {file : ByteStore} {off len : Nat} {t : Transfer} {src : List UInt8}

theorem Kept.refl (d : Disk) : Kept d d := ⟨rfl, rfl, rfl, rfl, rfl⟩

theorem Kept.trans (h : Kept d d') (h' : Kept d' d'') : Kept d d'' :=
  ⟨h'.diskBytes.trans h.diskBytes, h'.sectors.trans h.sectors, h'.bitmap.trans h.bitmap,
    h'.hasOverlay.trans h.hasOverlay, h'.readOnly.trans h.readOnly⟩

theorem kept_frame : Exec.Frame Kept := ⟨Kept.refl, Kept.trans⟩

theorem Kept.wf (h : Kept d d') (hd : d.Wf) : d'.Wf := by
  refine ⟨h.diskBytes ▸ hd.fits, ?_, fun ho => ?_⟩
  · rw [h.sectors, h.diskBytes, hd.sectors]
  · rw [h.bitmap, h.sectors, hd.bitmap (h.hasOverlay ▸ ho)]

theorem SameFiles.refl (d : Disk) : SameFiles d d := ⟨d.faults, rfl⟩

theorem SameFiles.trans (h : SameFiles d d') (h' : SameFiles d' d'') : SameFiles d d'' := by
  obtain ⟨f, rfl⟩ := h
  obtain ⟨f', rfl⟩ := h'
  exact ⟨f', rfl⟩

theorem SameFiles.kept (h : SameFiles d d') : Kept d d' := by
  obtain ⟨f, rfl⟩ := h
  exact ⟨rfl, rfl, rfl, rfl, rfl⟩

theorem SameFiles.view_eq (h : SameFiles d d') : d'.view = d.view := by
  obtain ⟨f, rfl⟩ := h
  rfl

/-! ### An open disk is well formed -/

theorem wf_openDisk {path overlayPath : String} {image : ByteStore} {readOnly : Bool} (hsize : image.size < 2 ^ 63)
    (hopen : openDisk path overlayPath image readOnly = .ok d) : d.Wf := by
  unfold openDisk at hopen
  dsimp only at hopen
  split at hopen
  · cases hopen
  · split at hopen
    · cases hopen
    · cases hopen
      refine ⟨hsize, rfl, fun ho => ?_⟩
      by_cases hov : (overlayPath != "") = true
      · simp [hov]
      · simp [Disk.hasOverlay, hov] at ho

theorem nextFault_sameFiles {r : Except String (Option Nat)} (h : nextFault d = (r, d')) : SameFiles d d' := by
  unfold nextFault at h
  split at h <;> cases h
  · exact SameFiles.refl d
  · exact ⟨_, rfl⟩

theorem keeps_nextFault : Exec.Keeps Kept nextFault := fun _ => (nextFault_sameFiles rfl).kept

theorem keeps_preadAll : Exec.Keeps Kept (preadAll b file len off) := by
  refine .bind kept_frame keeps_nextFault fun f => ?_
  cases f with
  | none => exact .ite (fun _ => .pure kept_frame) fun _ => .pure kept_frame
  | some k =>
    exact .ite (fun _ => .pure kept_frame) fun _ => .ite (fun _ => .pure kept_frame) fun _ => .pure kept_frame

theorem kept_setOverlayFile (ho : d.hasOverlay = true) (f : ByteStore) : Kept d (setOverlayFile f d) :=
  ⟨rfl, rfl, rfl, ho.symm, rfl⟩

theorem kept_setWriteFile (f : ByteStore) (d : Disk) : Kept d (setWriteFile f d) := by
  unfold setWriteFile
  split
  · exact kept_setOverlayFile ‹_› f
  · exact ⟨rfl, rfl, rfl, rfl, rfl⟩

theorem kept_pwriteAll {file : Disk → ByteStore} {store : ByteStore → Disk → Disk}
    (h : ∀ f d', SameFiles d d' → Kept d' (store f d')) : Kept d (pwriteAll b file store src off d).2 := by
  refine kept_frame.bind (keeps_nextFault d) fun f d' hf => ?_
  have hstore := fun f => h f d' (nextFault_sameFiles hf)
  cases f with
  | none => exact hstore _
  | some k =>
    dsimp only
    split
    · exact hstore _
    · exact hstore _

theorem kept_prepareSector (endOff sector : Nat) (ho : d.hasOverlay = true) :
    Kept d (prepareSector b off endOff sector d).2 := by
  unfold prepareSector
  rw [Exec.bind_of_ok Exec.get_apply]
  split
  · exact Kept.refl d
  · refine kept_frame.bind (keeps_preadAll d) fun part d' hp => ?_
    have hd' : Kept d d' := keeps_preadAll.of_eq hp
    cases part.error with
    | some e => exact Kept.refl d'
    | none =>
      refine kept_pwriteAll fun f e he => kept_setOverlayFile ?_ f
      rw [he.kept.hasOverlay, hd'.hasOverlay, ho]

theorem kept_prepareSectors (endOff : Nat) : ∀ (l : List Nat) {d : Disk}, d.hasOverlay = true →
    Kept d (prepareSectors b off endOff l d).2
  | [], d, _ => Kept.refl d
  | x :: rest, d, ho => by
    refine kept_frame.bind (kept_prepareSector endOff x ho) fun u d' hx => ?_
    have hd' : Kept d (prepareSector b off endOff x d).2 := kept_prepareSector endOff x ho
    rw [hx] at hd'
    exact kept_prepareSectors endOff rest (hd'.hasOverlay.trans ho)

theorem keeps_preparePartial : Exec.Keeps Kept (preparePartialOverlaySectors b off len) := by
  intro d
  unfold preparePartialOverlaySectors
  rw [Exec.bind_of_ok Exec.get_apply]
  split
  · exact Kept.refl d
  · rename_i hcond
    have ho : d.hasOverlay = true := by
      by_contra hno
      simp [hno] at hcond
    refine kept_frame.bind (Kept.refl d) fun endOff d' hend => ?_
    obtain ⟨-, rfl⟩ := Exec.lift_eq_ok hend
    exact kept_prepareSectors endOff _ ho

theorem kept_markDirtyRange : Kept d (markDirtyRange off len d) := by
  have hfold : ∀ (l : List Nat) (d : Disk), Kept d (l.foldl markDirty d) := fun l => by
    induction l with
    | nil => exact Kept.refl
    | cons x rest ih =>
      intro d
      obtain ⟨bits, hx, hbits⟩ := markDirty_eq x d
      have hmarked : Kept d { d with dirtySectors := bits } := ⟨rfl, rfl, hbits, rfl, rfl⟩
      rw [List.foldl_cons, hx]
      exact hmarked.trans (ih _)
  unfold markDirtyRange
  split
  · exact Kept.refl d
  · exact hfold _ d

theorem keeps_readSectors {byteOff : Nat} : ∀ fuel done, Exec.Keeps Kept (readSectors b byteOff len fuel done)
  | 0, _ => .pure kept_frame
  | fuel + 1, done => by
    refine .ite (fun _ => .pure kept_frame) fun _ => .bind kept_frame (.get kept_frame) fun d => ?_
    refine .bind kept_frame keeps_preadAll fun part => ?_
    cases part.error with
    | some e => exact .pure kept_frame
    | none => exact .bind kept_frame (keeps_readSectors fuel _) fun _ => .pure kept_frame

theorem keeps_readDisk {sector : UInt64} : Exec.Keeps Kept (readDisk b sector len) :=
  .bind kept_frame (.get kept_frame) fun _ => .bind kept_frame (.lift kept_frame) fun _ =>
    .ite (fun _ => keeps_preadAll) fun _ => keeps_readSectors len 0

theorem keeps_writeDisk {sector : UInt64} : Exec.Keeps Kept (writeDisk b sector src) := by
  refine .bind kept_frame (.get kept_frame) fun _ => .bind kept_frame (.check kept_frame) fun _ => ?_
  refine .bind kept_frame (.lift kept_frame) fun _ => .bind kept_frame keeps_preparePartial fun _ => ?_
  refine .bind kept_frame (fun _ => kept_pwriteAll fun f d' _ => kept_setWriteFile f d') fun _ => ?_
  exact .modify fun _ => kept_markDirtyRange

theorem keeps_flush : Exec.Keeps Kept (flush b) := by
  refine .bind kept_frame keeps_nextFault fun f => ?_
  cases f with
  | none => exact .pure kept_frame
  | some k => exact .check kept_frame

/-! ### Reads that return -/

theorem preadAll_ok (h : preadAll b file len off d = (.ok t, d')) :
    SameFiles d d' ∧ (t.error = none → t.bytes = file.read off len) := by
  obtain ⟨f, e, hf, hrest⟩ := Exec.bind_eq_ok h
  have hfiles := nextFault_sameFiles hf
  have hend : ∀ {m : String}, (if min len (file.size - off) = len then pure ⟨file.read off len, none⟩
      else pure ⟨file.read off (min len (file.size - off)), some m⟩ : Exec Disk Transfer) e = (.ok t, d') →
      SameFiles d d' ∧ (t.error = none → t.bytes = file.read off len) := fun hend => by
    split at hend
    · cases hend
      exact ⟨hfiles, fun _ => rfl⟩
    · cases hend
      exact ⟨hfiles, fun he => nomatch he⟩
  cases f with
  | none => exact hend hrest
  | some k =>
    dsimp only at hrest
    split at hrest
    · cases hrest
      exact ⟨hfiles, fun he => nomatch he⟩
    · exact hend hrest

/-- A piece inside one sector is read from the file that holds the sector. --/
theorem view_read_piece (d : Disk) (hin : off % 512 + len ≤ 512) :
    (if d.sectorDirty (off / 512) = true then d.overlayFile else d.base).read off len = d.view.read off len := by
  refine read_congr fun i hi => ?_
  obtain ⟨hlo, hhi⟩ := hi
  have hsec : i / 512 = off / 512 := by omega
  simp only [view, hsec]
  split <;> rfl

theorem readSectors_ok (hlt : off + len < 2 ^ 64) : ∀ (fuel : Nat) {done : Nat} {d d' : Disk} {t : Transfer},
    done ≤ len → len - done ≤ fuel → readSectors b off len fuel done d = (.ok t, d') →
    SameFiles d d' ∧ (t.error = none → t.bytes = d.view.read (off + done) (len - done))
  | 0, done, d, d', t, _, hf, h => by
    have hzero : len - done = 0 := by omega
    cases h
    rw [hzero]
    exact ⟨SameFiles.refl d, fun _ => rfl⟩
  | fuel + 1, done, d, d', t, hd, hf, h => by
    unfold readSectors at h
    by_cases hdone : len ≤ done
    · have hzero : len - done = 0 := by omega
      rw [if_pos hdone] at h
      cases h
      rw [hzero]
      exact ⟨SameFiles.refl d, fun _ => rfl⟩
    · have hu : u64 (off + done) = off + done := u64_of_lt (by omega)
      rw [if_neg hdone, Exec.bind_of_ok Exec.get_apply] at h
      simp only [hu] at h
      -- The piece ends at the end of the read or of its sector.
      generalize hchunk : min (len - done) (512 - (off + done) % 512) = chunk at h
      obtain ⟨part, d₁, hpart, hrest⟩ := Exec.bind_eq_ok h
      obtain ⟨hfiles, hbytes⟩ := preadAll_ok hpart
      cases he : part.error with
      | some e =>
        simp only [he] at hrest
        cases hrest
        exact ⟨hfiles, fun hnone => nomatch hnone⟩
      | none =>
        simp only [he] at hrest
        obtain ⟨rest, d₂, hr, hend⟩ := Exec.bind_eq_ok hrest
        obtain ⟨hfiles', hbytes'⟩ := readSectors_ok hlt fuel (by omega) (by omega) hr
        cases hend
        refine ⟨hfiles.trans hfiles', fun hnone => ?_⟩
        have hlen : len - done = chunk + (len - (done + chunk)) := by omega
        show part.bytes ++ rest.bytes = _
        rw [hbytes he, hbytes' hnone, view_read_piece d (by omega), hfiles.view_eq, hlen, read_add, Nat.add_assoc off]

theorem diskOffset_eq_ok (hwf : d.Wf) {op : String} {sector : UInt64} (h : d.diskOffset b op sector len = .ok off) :
    off = sector.toNat * 512 ∧ sector.toNat * 512 + len ≤ d.diskBytes := by
  by_cases hle : sector.toNat * 512 + len ≤ d.diskBytes
  · rw [diskOffset_of_le op sector len hwf.fits hle] at h
    cases h
    exact ⟨rfl, hle⟩
  · obtain ⟨e, he⟩ := diskOffset_of_gt (b := b) op (Nat.lt_of_not_le hle)
    rw [he] at h
    cases h

theorem view_of_no_overlay (ho : d.hasOverlay = false) : d.view = { size := d.diskBytes, byte := d.base.byte } := by
  have hclean : ∀ sector, d.sectorDirty sector = false := fun sector => by simp [sectorDirty, ho]
  simp [view, hclean]

/-- A read that returns without an error was in range and gave the bytes that the disk shows. --/
theorem readDisk_ok (hwf : d.Wf) {sector : UInt64} (h : readDisk b sector len d = (.ok t, d')) :
    SameFiles d d' ∧ sector.toNat * 512 + len ≤ d.diskBytes ∧
      (t.error = none → t.bytes = d.view.read (sector.toNat * 512) len) := by
  unfold readDisk at h
  rw [Exec.bind_of_ok Exec.get_apply] at h
  obtain ⟨off, d₁, hoff, hread⟩ := Exec.bind_eq_ok h
  obtain ⟨hoff, rfl⟩ := Exec.lift_eq_ok hoff
  obtain ⟨rfl, hrange⟩ := diskOffset_eq_ok hwf hoff
  have hfits := hwf.fits
  split at hread
  · rename_i ho
    obtain ⟨hfiles, hbytes⟩ := preadAll_ok hread
    refine ⟨hfiles, hrange, fun hnone => ?_⟩
    rw [hbytes hnone, view_of_no_overlay (by simpa using ho)]
    rfl
  · exact (readSectors_ok (by omega) len (Nat.zero_le len) (Nat.le_refl _) hread).imp_right fun hbytes =>
      ⟨hrange, by simpa using hbytes⟩

/-! ### Writes that return -/

theorem pwriteAll_ok {file : Disk → ByteStore} {store : ByteStore → Disk → Disk} {u : Unit}
    (h : pwriteAll b file store src off d = (.ok u, d')) :
    ∃ e, SameFiles d e ∧ d' = store (pwrite (file e) off src) e := by
  obtain ⟨f, e, hf, hrest⟩ := Exec.bind_eq_ok h
  refine ⟨e, nextFault_sameFiles hf, ?_⟩
  cases f with
  | none =>
    cases hrest
    rfl
  | some k =>
    dsimp only at hrest
    split at hrest
    · obtain ⟨_, _, -, hthrow⟩ := Exec.bind_eq_ok hrest
      cases hthrow
    · cases hrest
      rfl

theorem byte_pwrite (i : Nat) : (pwrite file off src).byte i = (file.write off src).byte i := by
  unfold pwrite
  split
  · rename_i hnil
    rw [hnil, write_nil]
  · rfl

/-- A write of whole sectors covers every sector that it touches, so nothing is copied before it. --/
theorem preparePartial_of_aligned (hwf : d.Wf) (hoff : 512 ∣ off) (hlen : 512 ∣ len) (hr : off + len ≤ d.diskBytes) :
    preparePartialOverlaySectors b off len d = (.ok (), d) := by
  have hfits := hwf.fits
  have hend : overlayEnd b d off len = .ok (off + len) := by
    cases b with
    | hvf => simp only [overlayEnd, u64_of_lt (show off + len < 2 ^ 64 by omega)]
    | _ =>
      simp only [overlayEnd, Backend.checkRange_of_le hr, bind, Except.bind,
        Backend.checkedAdd_of_lt (show off + len < 2 ^ 64 by omega)]
  have hall : ∀ l : List Nat, (∀ s ∈ l, off / 512 ≤ s ∧ s ≤ (off + len - 1) / 512) → 0 < len →
      prepareSectors b off (off + len) l d = (.ok (), d) := fun l hl hpos => by
    induction l with
    | nil => rfl
    | cons s rest ih =>
      obtain ⟨⟨hlo, hhi⟩, hrest⟩ := List.forall_mem_cons.mp hl
      have hcover : off ≤ s * 512 ∧ s * 512 + 512 ≤ off + len := by omega
      have hsector : prepareSector b off (off + len) s d = (.ok (), d) := by
        unfold prepareSector
        rw [Exec.bind_of_ok Exec.get_apply]
        simp [u64_of_lt (show s * 512 < 2 ^ 64 by omega), u64_of_lt (show s * 512 + 512 < 2 ^ 64 by omega), hcover]
      exact (Exec.bind_of_ok hsector).trans (ih hrest)
  unfold preparePartialOverlaySectors
  rw [Exec.bind_of_ok Exec.get_apply]
  split
  · rfl
  · rename_i hcond
    have hpos : 0 < len := by
      by_contra hzero
      simp [show len = 0 by omega] at hcond
    rw [Exec.bind_of_ok (by rw [Exec.lift_apply, hend]), u64_of_lt (show off + len - 1 < 2 ^ 64 by omega)]
    exact hall _ (fun s hs => mem_sectorRange.mp hs) hpos

theorem view_eq {w : ByteStore} (hsize : d.diskBytes = w.size) (h : ∀ i, d.view.byte i = w.byte i) : d.view = w := by
  have hfun : d.view.byte = w.byte := funext h
  exact congrArg₂ ByteStore.mk hsize hfun

theorem view_write_base (ho : d.hasOverlay = false) :
    (markDirtyRange off src.length (setWriteFile (pwrite d.writeFile off src) d)).view = d.view.write off src := by
  have hnone : d.overlay = none := by simpa [Disk.hasOverlay] using ho
  have hwritten : setWriteFile (pwrite d.writeFile off src) d = { d with base := pwrite d.base off src } := by
    simp [setWriteFile, writeFile, ho, hnone]
  have ho' : ({ d with base := pwrite d.base off src } : Disk).hasOverlay = false := ho
  have hmark : markDirtyRange off src.length { d with base := pwrite d.base off src } =
      { d with base := pwrite d.base off src } := by
    simp [markDirtyRange, ho']
  rw [hwritten, hmark]
  refine view_eq rfl fun i => ?_
  rw [view_of_no_overlay ho, view_of_no_overlay ho']
  exact byte_pwrite i

theorem view_write_overlay (hwf : d.Wf) (ho : d.hasOverlay = true) (hoff : 512 ∣ off) (hlen : 512 ∣ src.length)
    (hr : off + src.length ≤ d.diskBytes) :
    (markDirtyRange off src.length (setWriteFile (pwrite d.writeFile off src) d)).view = d.view.write off src := by
  have hfits := hwf.fits
  obtain ⟨f, hsome⟩ := Option.isSome_iff_exists.mp ho
  have hwritten : setWriteFile (pwrite d.writeFile off src) d = setOverlayFile (pwrite d.overlayFile off src) d := by
    simp [setWriteFile, writeFile, overlayFile, setOverlayFile, ho, hsome]
  have hwf' : (setOverlayFile (pwrite d.overlayFile off src) d).Wf := (kept_setOverlayFile ho _).wf hwf
  obtain ⟨bits, hmark, -, hdirty⟩ := markDirtyRange_spec (d := setOverlayFile (pwrite d.overlayFile off src) d) rfl
    (hwf'.bitmap rfl) (show off + src.length ≤ 2 ^ 64 by omega) fun s hs => by
      have := hs.1
      have := hs.2.2
      rw [hwf'.sectors]
      show s < d.diskBytes / 512
      omega
  rw [hwritten]
  refine view_eq (by rw [hmark]; rfl) fun i => ?_
  -- A whole sector is written or none of it, so the bits tell the written bytes.
  have htouched : Touched off src.length (i / 512) ↔ Within off src.length i := by
    unfold Touched Within
    omega
  have hdirty' := hdirty (i / 512)
  rw [sectorDirty_setOverlayFile ho, htouched] at hdirty'
  have hbyte : (markDirtyRange off src.length (setOverlayFile (pwrite d.overlayFile off src) d)).view.byte i =
      if (markDirtyRange off src.length (setOverlayFile (pwrite d.overlayFile off src) d)).sectorDirty (i / 512)
      then (pwrite d.overlayFile off src).byte i else d.base.byte i := by
    rw [hmark]
    rfl
  rw [hbyte, byte_pwrite]
  by_cases hw : Within off src.length i
  · rw [if_pos (hdirty'.mpr (.inr hw)), byte_write_of_within hw, byte_write_of_within hw]
  · rw [byte_write_of_not_within hw, byte_write_of_not_within hw,
      Bool.eq_iff_iff.mpr (hdirty'.trans (or_iff_left hw))]
    rfl

/-- The write of `WriteDisk` and its marks, on whole sectors. --/
theorem view_write (hwf : d.Wf) (hoff : 512 ∣ off) (hlen : 512 ∣ src.length) (hr : off + src.length ≤ d.diskBytes) :
    (markDirtyRange off src.length (setWriteFile (pwrite d.writeFile off src) d)).view = d.view.write off src := by
  cases ho : d.hasOverlay with
  | false => exact view_write_base ho
  | true => exact view_write_overlay hwf ho hoff hlen hr

/-- A write of whole sectors that returns was in range, stored its bytes there and changed no others. --/
theorem writeDisk_ok (hwf : d.Wf) {sector : UInt64} {u : Unit} (hlen : 512 ∣ src.length)
    (h : writeDisk b sector src d = (.ok u, d')) :
    sector.toNat * 512 + src.length ≤ d.diskBytes ∧ d'.view = d.view.write (sector.toNat * 512) src := by
  unfold writeDisk at h
  rw [Exec.bind_of_ok Exec.get_apply] at h
  obtain ⟨_, d₁, hcheck, h⟩ := Exec.bind_eq_ok h
  obtain ⟨-, rfl⟩ := Exec.check_eq_ok hcheck
  obtain ⟨off, d₂, hoff, h⟩ := Exec.bind_eq_ok h
  obtain ⟨hoff, rfl⟩ := Exec.lift_eq_ok hoff
  obtain ⟨rfl, hrange⟩ := diskOffset_eq_ok hwf hoff
  have haligned : 512 ∣ sector.toNat * 512 := Nat.dvd_mul_left 512 _
  rw [Exec.bind_of_ok (preparePartial_of_aligned hwf haligned hlen hrange)] at h
  obtain ⟨_, d₃, hwrite, h⟩ := Exec.bind_eq_ok h
  obtain ⟨e, hfiles, rfl⟩ := pwriteAll_ok hwrite
  cases h
  refine ⟨hrange, ?_⟩
  rw [view_write (hfiles.kept.wf hwf) haligned hlen (hfiles.kept.diskBytes ▸ hrange), hfiles.view_eq]

theorem flush_ok {u : Unit} (h : flush b d = (.ok u, d')) : SameFiles d d' := by
  obtain ⟨f, e, hf, hrest⟩ := Exec.bind_eq_ok h
  cases f with
  | none =>
    cases hrest
    exact nextFault_sameFiles hf
  | some k =>
    obtain ⟨-, rfl⟩ := Exec.check_eq_ok hrest
    exact nextFault_sameFiles hf

end
end NodeVmm.Disk
