import Mathlib.Algebra.GroupWithZero.Nat
import NodeVmm.Theorems.BlkQueue
import NodeVmm.Theorems.DiskView

/-! What a request has done when its status byte is zero: a read has filled its buffers with the bytes of the
    disk, a write has stored its buffers there, and the used element tells the bytes stored. The chain's
    buffers lie in RAM, apart from each other and from the rings. -/

namespace NodeVmm.Blk
open ByteStore

/-! ### Buffers -/

/-- The offset `i` belongs to the descriptor table or to the used ring. --/
def RingByte (b : Backend) (q : Queue) (i : Nat) : Prop :=
  GuestMemory.InDescTable b q i ∨ GuestMemory.InUsedIdx b q i ∨ ∃ position, GuestMemory.InUsedElem b q position i

/-- No byte is in both buffers. --/
def Apart (b : Backend) (d e : Desc) : Prop := Spares b (Touches b e.addr e.len.toNat) d

/-- The buffers of a chain are in RAM, apart from each other and from the rings. --/
structure WellPlaced (b : Backend) (m : GuestMemory) (q : Queue) (chain : List Desc) : Prop where
  inRam : ∀ d ∈ chain, m.InRam b d.addr d.len.toNat
  apart : chain.Pairwise (Apart b)
  spare : ∀ d ∈ chain, Spares b (RingByte b q) d

/-- The number of bytes of the buffers. --/
def dataLen (data : List Desc) : Nat := (data.map fun d => d.len.toNat).sum

/-- The buffers' bytes in the order of the chain. --/
def gather (b : Backend) (m : GuestMemory) (data : List Desc) : List UInt8 :=
  data.flatMap fun d => m.ram.read (b.offset d.addr) d.len.toNat

section
variable {b : Backend} {m m' : GuestMemory} {d e : Desc} {data : List Desc}

@[simp] theorem dataLen_nil : dataLen [] = 0 := rfl

@[simp] theorem dataLen_cons : dataLen (d :: data) = d.len.toNat + dataLen data := List.sum_cons

theorem dataLen_append (init rest : List Desc) : dataLen (init ++ rest) = dataLen init + dataLen rest := by
  simp [dataLen]

@[simp] theorem gather_nil : gather b m [] = [] := rfl

@[simp] theorem gather_cons : gather b m (d :: data) = m.ram.read (b.offset d.addr) d.len.toNat ++ gather b m data :=
  List.flatMap_cons

@[simp] theorem length_gather : (gather b m data).length = dataLen data := by
  induction data with
  | nil => rfl
  | cons d rest ih => simp [ih]

/-- Where the rings are in RAM, the bytes that the device uses of them are theirs. --/
theorem inRings_of_ringByte {q : Queue} {i : Nat} (h : RingsFit b m q) (hi : RingByte b q i) : InRings b q i := by
  rcases hi with hi | hi | ⟨position, hi⟩
  · exact h.inRings_of_inDescTable hi
  · exact .inr (.inr (GuestMemory.touches_of_inUsedIdx h.device hi))
  · exact .inr (.inr (GuestMemory.touches_of_inUsedElem h.device hi))

theorem Apart.symm (h : Apart b d e) : Apart b e d := fun i he hd => h i hd he

theorem apart_of_le (h : d.addr.toNat + d.len.toNat ≤ e.addr.toNat) : Apart b d e := fun i hd he => by
  have := hd.2
  have := he.1
  omega

/-- Memories that agree on the buffers hold the same bytes in them. --/
theorem gather_congr {K : Nat → Prop} (h : AgreeOn K m.ram m'.ram) (hin : ∀ d ∈ data, m.InRam b d.addr d.len.toNat)
    (hK : ∀ d ∈ data, ∀ i, Touches b d.addr d.len.toNat i → K i) : gather b m' data = gather b m data := by
  induction data with
  | nil => rfl
  | cons d rest ih =>
    obtain ⟨hd, hrest⟩ := List.forall_mem_cons.mp hin
    obtain ⟨hKd, hKrest⟩ := List.forall_mem_cons.mp hK
    rw [gather_cons, gather_cons, ih hrest hKrest, h.read_eq fun i hi => hKd i (hd.touches_iff.mp hi)]

/-- Buffers in RAM that share no byte are together no longer than RAM. --/
theorem dataLen_le {chain : List Desc} (hin : ∀ d ∈ chain, m.InRam b d.addr d.len.toNat)
    (hapart : chain.Pairwise (Apart b)) : dataLen chain ≤ m.size := by
  let bytes (d : Desc) : List Nat := List.range' (b.offset d.addr) d.len.toNat
  have hmem : ∀ d ∈ chain, ∀ i, i ∈ bytes d ↔ Touches b d.addr d.len.toNat i := fun d hd i => by
    rw [← (hin d hd).touches_iff]
    exact List.mem_range'_1
  have hnodup : (chain.flatMap bytes).Nodup := by
    refine List.nodup_flatMap.mpr ⟨fun d _ => List.nodup_range', ?_⟩
    refine hapart.imp_of_mem fun {d e} hd he h i hid hie => ?_
    exact h i ((hmem d hd i).mp hid) ((hmem e he i).mp hie)
  have hsub : chain.flatMap bytes ⊆ List.range m.size := fun i hi => by
    obtain ⟨d, hd, hid⟩ := List.mem_flatMap.mp hi
    have hbelow := (hin d hd).2
    have htouches := (hmem d hd i).mp hid
    unfold Touches Within at htouches
    exact List.mem_range.mpr (by omega)
  have hlen : (chain.flatMap bytes).length = dataLen chain := by
    simp [bytes, List.length_flatMap, dataLen]
  have := (List.subperm_of_subset hnodup hsub).length_le
  rwa [hlen, List.length_range] at this

end

/-! ### The disk stays well formed -/

section
variable {b : Backend} {s : Blk}

theorem carried_diskKept (b : Backend) : Carried b fun s t => Disk.Kept s.disk t.disk where
  frame := ⟨fun s => .refl s.disk, Disk.Kept.trans⟩
  store _ _ := fun s => .refl s.disk
  readDisk _ _ := fun s => Disk.keeps_readDisk s.disk
  writeDisk _ _ := fun s => Disk.keeps_writeDisk s.disk
  flush := fun s => Disk.keeps_flush s.disk
  written _ s := .refl s.disk
  publish _ _ := fun s => .refl s.disk

theorem wf_handleQueue (h : s.disk.Wf) : (handleQueue b s).2.disk.Wf :=
  ((carried_diskKept b).keeps_handleQueue (fun s => .refl s.disk) s).wf h

end

/-! ### Requests that return -/

section
variable {b : Backend} {s t : Blk} {data : List Desc} {sector : UInt64}

theorem onDisk_ok {α : Type} {x : Exec Disk α} {a : α} (h : onDisk x s = (.ok a, t)) :
    ∃ d', x s.disk = (.ok a, d') ∧ t = setDisk d' s := by
  obtain ⟨hx, ht⟩ := Prod.mk.inj h
  exact ⟨(x s.disk).2, Prod.ext hx rfl, ht.symm⟩

/-- The sector after a buffer of whole sectors inside the disk. --/
theorem nextSector {len : UInt32} {size : Nat} (h512 : len % 512 = 0) (hsize : size < 2 ^ 63)
    (hr : sector.toNat * 512 + len.toNat ≤ size) :
    (sector + (len / 512).toUInt64).toNat * 512 = sector.toNat * 512 + len.toNat := by
  have hmod : len.toNat % 512 = 0 := by simpa using congrArg UInt32.toNat h512
  simp only [UInt64.toNat_add, UInt32.toNat_toUInt64, UInt32.toNat_div, UInt32.reduceToNat]
  omega

theorem readInto_ok (hwf : s.disk.Wf) {d : Desc} {u : Unit} (h : readInto b sector d s = (.ok u, t)) :
    s.mem.InRam b d.addr d.len.toNat ∧ sector.toNat * 512 + d.len.toNat ≤ s.disk.diskBytes ∧
      Disk.SameFiles s.disk t.disk ∧ t.written = s.written ∧
      t.mem.ram.read (b.offset d.addr) d.len.toNat = s.disk.view.read (sector.toNat * 512) d.len.toNat := by
  obtain ⟨dst, s₁, hdst, h₁⟩ := Exec.bind_eq_ok h
  obtain ⟨hin, rfl, rfl⟩ := ptr_ok hdst
  obtain ⟨part, s₂, hpart, h₂⟩ := Exec.bind_eq_ok h₁
  obtain ⟨d', hread, rfl⟩ := onDisk_ok hpart
  obtain ⟨hfiles, hrange, hbytes⟩ := Disk.readDisk_ok hwf hread
  obtain ⟨_, s₃, hstore, h₃⟩ := Exec.bind_eq_ok h₂
  cases hstore
  cases he : part.error with
  | some e =>
    rw [he] at h₃
    cases h₃
  | none =>
    rw [he] at h₃
    cases h₃
    have hlen : part.bytes.length = d.len.toNat := by rw [hbytes he, length_read]
    have hself : (s₁.mem.ram.write (b.offset d.addr) part.bytes).read (b.offset d.addr) d.len.toNat = part.bytes := by
      rw [← hlen, read_write_self]
    exact ⟨hin, hrange, hfiles, rfl, hself.trans (hbytes he)⟩

/-- The loop of a read that ends without an error has filled the buffers from the disk. --/
theorem readData_ok {u : Unit} : ∀ {data : List Desc} {sector : UInt64} {s t : Blk}, s.disk.Wf →
    data.Pairwise (Apart b) → s.written.toNat + dataLen data < 2 ^ 32 → readData b sector data s = (.ok u, t) →
    Disk.SameFiles s.disk t.disk ∧ t.written.toNat = s.written.toNat + dataLen data ∧
      (data = [] ∨ sector.toNat * 512 + dataLen data ≤ s.disk.diskBytes) ∧
      gather b t.mem data = s.disk.view.read (sector.toNat * 512) (dataLen data)
  | [], sector, s, t, _, _, _, h => by
    cases h
    exact ⟨Disk.SameFiles.refl _, rfl, .inl rfl, rfl⟩
  | d :: rest, sector, s, t, hwf, hapart, hsum, h => by
    obtain ⟨hd, hrest⟩ := List.pairwise_cons.mp hapart
    rw [dataLen_cons] at hsum
    obtain ⟨_, s₁, hwcheck, h₁⟩ := Exec.bind_eq_ok h
    obtain ⟨-, rfl⟩ := Exec.check_eq_ok hwcheck
    obtain ⟨_, s₂, hlcheck, h₂⟩ := Exec.bind_eq_ok h₁
    obtain ⟨h512, rfl⟩ := Exec.check_eq_ok hlcheck
    obtain ⟨_, s₃, hinto, h₃⟩ := Exec.bind_eq_ok h₂
    obtain ⟨hin, hrange, hfiles, hwritten, hfilled⟩ := readInto_ok hwf hinto
    rw [Exec.bind_of_ok Exec.get_apply] at h₃
    obtain ⟨_, s₄, hcheck, h₄⟩ := Exec.bind_eq_ok h₃
    obtain ⟨-, rfl⟩ := Exec.check_eq_ok hcheck
    rw [Exec.bind_of_ok Exec.modify_apply] at h₄
    have hnext := nextSector (by simpa using h512) hwf.fits hrange
    have hadd : (addWritten d.len s₄).written.toNat = s₂.written.toNat + d.len.toNat := by
      show (s₄.written + d.len).toNat = _
      rw [UInt32.toNat_add, hwritten]
      omega
    have hwf' : (addWritten d.len s₄).disk.Wf := hfiles.kept.wf hwf
    obtain ⟨hfiles', hwritten', hrange', hfilled'⟩ := readData_ok hwf' hrest (by rw [hadd]; omega) h₄
    have hview : (addWritten d.len s₄).disk.view = s₂.disk.view := hfiles.view_eq
    rw [hnext, hview] at hfilled'
    rw [hnext] at hrange'
    refine ⟨hfiles.trans hfiles', ?_, .inr ?_, ?_⟩
    · rw [hwritten', hadd, dataLen_cons, Nat.add_assoc]
    · rw [dataLen_cons]
      rcases hrange' with rfl | hrange'
      · simpa using hrange
      · have hsize : (addWritten d.len s₄).disk.diskBytes = s₂.disk.diskBytes := hfiles.kept.diskBytes
        rw [← Nat.add_assoc, ← hsize]
        exact hrange'
    · -- The later buffers are apart from this one, so its bytes stay.
      have hkeep : Same (Touches b d.addr d.len.toNat) (addWritten d.len s₄) t :=
        (keeps_readData fun e he _ => (hd e he).symm).of_eq h₄
      have hstay : t.mem.ram.read (b.offset d.addr) d.len.toNat =
          s₄.mem.ram.read (b.offset d.addr) d.len.toNat :=
        hkeep.ram.read_eq fun i hi => hin.touches_iff.mp hi
      rw [gather_cons, dataLen_cons, read_add, hfilled', hstay, hfilled]

/-- The loop of a write that ends without an error has stored the buffers on the disk. --/
theorem writeData_ok {u : Unit} : ∀ {data : List Desc} {sector : UInt64} {s t : Blk}, s.disk.Wf →
    writeData b sector data s = (.ok u, t) → t = setDisk t.disk s ∧
      (data = [] ∨ sector.toNat * 512 + dataLen data ≤ s.disk.diskBytes) ∧
      t.disk.view = s.disk.view.write (sector.toNat * 512) (gather b s.mem data)
  | [], sector, s, t, _, h => by
    cases h
    exact ⟨rfl, .inl rfl, write_nil.symm⟩
  | d :: rest, sector, s, t, hwf, h => by
    obtain ⟨_, s₁, hwcheck, h₁⟩ := Exec.bind_eq_ok h
    obtain ⟨-, rfl⟩ := Exec.check_eq_ok hwcheck
    obtain ⟨_, s₂, hlcheck, h₂⟩ := Exec.bind_eq_ok h₁
    obtain ⟨h512, rfl⟩ := Exec.check_eq_ok hlcheck
    obtain ⟨_, s₃, hsrc, h₃⟩ := Exec.bind_eq_ok h₂
    obtain ⟨-, rfl, rfl⟩ := ptr_ok hsrc
    rw [Exec.bind_of_ok Exec.get_apply] at h₃
    obtain ⟨_, _, hdisk, h₄⟩ := Exec.bind_eq_ok h₃
    obtain ⟨d', hwrite, rfl⟩ := onDisk_ok hdisk
    have hkept : Disk.Kept s₃.disk d' := Disk.keeps_writeDisk.of_eq hwrite
    have haligned : 512 ∣ (s₃.mem.ram.read (b.offset d.addr) d.len.toNat).length := by
      have h0 : d.len % 512 = 0 := by simpa using h512
      rw [length_read]
      exact Nat.dvd_of_mod_eq_zero (by simpa using congrArg UInt32.toNat h0)
    obtain ⟨hrange, hview⟩ := Disk.writeDisk_ok hwf haligned hwrite
    have hnext := nextSector (by simpa using h512) hwf.fits (by rwa [length_read] at hrange)
    obtain ⟨hstate, hrange', hview'⟩ := writeData_ok (hkept.wf hwf) h₄
    rw [hnext] at hview' hrange'
    refine ⟨hstate, .inr ?_, ?_⟩
    · rw [dataLen_cons]
      rw [length_read] at hrange
      rcases hrange' with rfl | hrange'
      · simpa using hrange
      · rw [← Nat.add_assoc, ← hkept.diskBytes]
        exact hrange'
    · rw [hview']
      show d'.view.write _ (gather b s₃.mem rest) = _
      rw [hview, gather_cons, ← write_append, length_read]

end
/-! ### What a served request has done -/

/-- The first sector of a request. --/
def requestSector (b : Backend) (m : GuestMemory) (header : Desc) : UInt64 := m.ram.readU64 (b.offset header.addr + 8)

/-- The byte that the request's status descriptor points to. --/
def statusByte (b : Backend) (m : GuestMemory) (status : Desc) : UInt8 := m.ram.byte (b.offset status.addr)

/-- The bytes that a request of the type stores before its status byte. --/
def stored (type : UInt32) (data : List Desc) : Nat :=
  if type = 0 then dataLen data
  else if type = 8 then (data.head?.map idLen).getD 0
  else 0

/-- What a request of each type does to the disk and to its data buffers. --/
structure Performed (b : Backend) (s t : Blk) (type : UInt32) (sector : UInt64) (data : List Desc) : Prop where
  supported : type = 0 ∨ type = 1 ∨ type = 4 ∨ type = 8
  read : type = 0 → (data = [] ∨ s.disk.view.InRange (sector.toNat * 512) (dataLen data)) ∧
    gather b t.mem data = s.disk.view.read (sector.toNat * 512) (dataLen data) ∧ t.disk.view = s.disk.view
  write : type = 1 → (data = [] ∨ s.disk.view.InRange (sector.toNat * 512) (dataLen data)) ∧
    t.disk.view = s.disk.view.write (sector.toNat * 512) (gather b s.mem data)
  flush : type = 4 → ((b ≠ .hvf ∧ s.disk.readOnly = true) ∨ ∃ d', Disk.flush b s.disk = (.ok (), d')) ∧
    t.disk.view = s.disk.view
  id : type = 8 → (∀ d ∈ data.head?, t.mem.ram.read (b.offset d.addr) (idLen d) = idBytes.take (idLen d)) ∧
    t.disk.view = s.disk.view

/-- The used ring of `t` has one more element: the chain of `head`, with `n` bytes stored. --/
structure Used (b : Backend) (s t : Blk) (head : UInt16) (n : Nat) : Prop where
  idx : t.mem.usedIdx b s.queue = s.mem.usedIdx b s.queue + 1
  id : t.mem.usedId b s.queue (s.mem.usedIdx b s.queue) = head.toUInt32
  len : (t.mem.usedLen b s.queue (s.mem.usedIdx b s.queue)).toNat = n

/-- The request of `header` and `data` was served between `s` and `t`. --/
structure Completed (b : Backend) (s t : Blk) (head : UInt16) (header : Desc) (data : List Desc) : Prop where
  headerLen : 16 ≤ header.len
  performed : Performed b s t (requestType b s.mem header) (requestSector b s.mem header) data
  used : Used b s t head (stored (requestType b s.mem header) data + 1)

section
variable {b : Backend} {s t u : Blk} {data : List Desc} {sector : UInt64} {type : UInt32}

theorem stored_le (type : UInt32) (data : List Desc) : stored type data ≤ dataLen data := by
  unfold stored
  split
  · exact Nat.le_refl _
  · split
    · cases data with
      | nil => exact Nat.le_refl 0
      | cons d rest =>
        rw [dataLen_cons]
        have : idLen d ≤ d.len.toNat := Nat.min_le_left _ _
        simp
        omega
    · exact Nat.zero_le _

theorem inRange_view {d : Disk} {len : Nat} (h : data = [] ∨ sector.toNat * 512 + len ≤ d.diskBytes) :
    data = [] ∨ d.view.InRange (sector.toNat * 512) len :=
  h.imp_right fun hr => ⟨Nat.le_of_add_right_le hr, Nat.le_sub_of_add_le (Nat.add_comm _ _ ▸ hr)⟩

/-- A request that ends with the status 0. --/
theorem request_ok (hwf : s.disk.Wf) (hapart : data.Pairwise (Apart b)) (h0 : s.written = 0)
    (hsum : dataLen data < 2 ^ 32) (h : request b type sector data s = (.ok 0, t)) :
    Performed b s t type sector data ∧ t.written.toNat = stored type data := by
  have hzero : s.written.toNat = 0 := by rw [h0]; rfl
  unfold request at h
  by_cases htype : type = 0
  · subst htype
    obtain ⟨_, t₁, hread, hpure⟩ := Exec.bind_eq_ok h
    cases hpure
    obtain ⟨hfiles, hwritten, hrange, hfilled⟩ := readData_ok hwf hapart (by omega) hread
    refine ⟨⟨.inl rfl, fun _ => ⟨inRange_view hrange, hfilled, hfiles.view_eq⟩, by simp, by simp, by simp⟩, ?_⟩
    rw [hwritten, hzero, Nat.zero_add]
    rfl
  rw [if_neg htype] at h
  by_cases htype : type = 1
  · subst htype
    obtain ⟨_, t₁, hwrite, hpure⟩ := Exec.bind_eq_ok h
    cases hpure
    obtain ⟨hstate, hrange, hview⟩ := writeData_ok hwf hwrite
    refine ⟨⟨.inr (.inl rfl), by simp, fun _ => ⟨inRange_view hrange, hview⟩, by simp, by simp⟩, ?_⟩
    rw [hstate]
    exact hzero
  rw [if_neg htype] at h
  by_cases htype : type = 4
  · subst htype
    rw [if_pos rfl, Exec.bind_of_ok Exec.get_apply] at h
    split at h
    · rename_i hro
      cases h
      exact ⟨⟨.inr (.inr (.inl rfl)), by simp, by simp, fun _ => ⟨.inl hro, rfl⟩, by simp⟩, hzero⟩
    · obtain ⟨_, t₁, hdisk, hpure⟩ := Exec.bind_eq_ok h
      cases hpure
      obtain ⟨d', hflush, rfl⟩ := onDisk_ok hdisk
      refine ⟨⟨.inr (.inr (.inl rfl)), by simp, by simp, fun _ => ⟨.inr ⟨d', hflush⟩, ?_⟩, by simp⟩, hzero⟩
      exact (Disk.flush_ok hflush).view_eq
  rw [if_neg htype] at h
  by_cases htype : type = 8
  · subst htype
    rw [if_pos rfl] at h
    obtain ⟨_, t₁, hid, hpure⟩ := Exec.bind_eq_ok h
    cases hpure
    rcases getId_run (b := b) (s := s) data with ⟨e, he⟩ | ⟨rfl, he⟩ | ⟨d, rest, rfl, hin, he⟩
    · rw [he] at hid
      cases hid
    · rw [he] at hid
      cases hid
      exact ⟨⟨.inr (.inr (.inr rfl)), by simp, by simp, by simp, fun _ => ⟨by simp, rfl⟩⟩, hzero⟩
    · rw [he] at hid
      cases hid
      have hlt : idLen d < 2 ^ 32 := by
        have : idLen d ≤ idBytes.length := Nat.min_le_right _ _
        have : idBytes.length = 9 := rfl
        omega
      refine ⟨⟨.inr (.inr (.inr rfl)), by simp, by simp, by simp, fun _ => ⟨fun e he => ?_, rfl⟩⟩, ?_⟩
      · cases he
        have hself : (s.mem.ram.write (b.offset d.addr) (idBytes.take (idLen d))).read (b.offset d.addr)
            (idBytes.take (idLen d)).length = idBytes.take (idLen d) := read_write_self
        rw [length_id] at hself
        exact hself
      · show (s.written + UInt32.ofNat (idLen d)).toNat = idLen d
        rw [UInt32.toNat_add, hzero, UInt32.toNat_ofNat']
        omega
  rw [if_neg htype] at h
  cases h

end
/-! ### The whole request -/

section
variable {b : Backend} {s t u : Blk} {head : UInt16} {header status : Desc} {data chain : List Desc}

theorem fulfilChain_ok {x : Unit} (h : fulfilChain b header data status s = (.ok x, t)) :
    16 ≤ header.len ∧ ∃ v w, request b (requestType b s.mem header) (requestSector b s.mem header) data s = (.ok v, w) ∧
      w.mem.InRam b status.addr 1 ∧ t = setMem (w.mem.store (b.offset status.addr) [v]) w := by
  obtain ⟨_, s₁, hcheck, h₁⟩ := Exec.bind_eq_ok h
  obtain ⟨hheader, rfl⟩ := Exec.check_eq_ok hcheck
  obtain ⟨_, s₂, hvalid, h₂⟩ := Exec.bind_eq_ok h₁
  obtain ⟨-, rfl⟩ := Exec.check_eq_ok hvalid
  obtain ⟨_, s₃, hptr, h₃⟩ := Exec.bind_eq_ok h₂
  obtain ⟨-, rfl, rfl⟩ := ptr_ok hptr
  rw [Exec.bind_of_ok Exec.get_apply] at h₃
  obtain ⟨v, w, hreq, h₄⟩ := Exec.bind_eq_ok h₃
  obtain ⟨_, w', hptr, h₅⟩ := Exec.bind_eq_ok h₄
  obtain ⟨hin, rfl, rfl⟩ := ptr_ok hptr
  cases h₅
  exact ⟨by simpa using hheader, v, w', hreq, hin, rfl⟩

/-- A request whose try block reaches the end publishes the bytes stored and the status byte. --/
theorem processRequest_served (hrun : fulfil b head (setWritten 0 s) = (.ok (), u))
    (hcan : u.mem.CanPublish b u.queue) : processRequest b head s =
      (.ok (), setMem (u.mem.published b u.queue head.toUInt32 (u.written + 1)) u) := by
  have hserve : serveRequest b head (setWritten 0 s) = publish b head (u.written + 1) u :=
    (Exec.bind_of_ok hrun).trans (Exec.bind_of_ok Exec.get_apply)
  show (tryCatch (serveRequest b head) fun _ => failRequest b head : Exec Blk Unit) (setWritten 0 s) = _
  rw [Exec.tryCatch_of_ok (hserve.trans (publish_of_canPublish hcan))]

/-- A publication keeps the bytes outside the rings. --/
theorem agreeOn_ringByte {m : GuestMemory} {q : Queue} (id w : UInt32) (h : m.CanPublish b q) :
    AgreeOn (fun i => ¬RingByte b q i) m.ram (m.published b q id w).ram :=
  (GuestMemory.agreeOn_published id w h).mono fun _ hi =>
    ⟨fun hidx => hi (.inr (.inl hidx)), fun helem => hi (.inr (.inr ⟨_, helem⟩))⟩

theorem WellPlaced.same_fulfil (hplaced : WellPlaced b s.mem s.queue chain)
    (hchain : s.mem.walkChain b s.queue head = .ok chain) : Same (RingByte b s.queue) s (fulfil b head s).2 := by
  refine Blk.same_fulfil fun header data status hwalk => ?_
  obtain rfl : chain = header :: (data ++ [status]) := by
    rw [hchain] at hwalk
    exact Except.ok.inj hwalk
  refine ⟨fun d hd _ => hplaced.spare d (List.mem_cons_of_mem _ hd), fun _ d rest hdata => ?_⟩
  exact (hplaced.spare d (by simp [hdata])).idSpares _

/-- The status byte of a well-placed chain. --/
theorem WellPlaced.statusByte (hplaced : WellPlaced b s.mem s.queue chain) (hlast : chain.getLast? = some status)
    (hlen : 1 ≤ status.len) : s.mem.InRam b status.addr 1 ∧ ∀ i, Touches b status.addr 1 i →
      Touches b status.addr status.len.toNat i ∧ ¬RingByte b s.queue i := by
  have hmem : status ∈ chain := List.mem_of_getLast? hlast
  have hlen' : 1 ≤ status.len.toNat := hlen
  have hsub : ∀ i, Touches b status.addr 1 i → Touches b status.addr status.len.toNat i := fun i hi =>
    ⟨hi.1, Nat.lt_of_lt_of_le hi.2 (Nat.add_le_add_left hlen' _)⟩
  exact ⟨(hplaced.inRam status hmem).mono hlen', fun i hi => ⟨hsub i hi, hplaced.spare status hmem i (hsub i hi)⟩⟩

/-- A request that went through the handler ends with the status 1. --/
theorem statusByte_caught (hchain : s.mem.walkChain b s.queue head = .ok chain) (hlast : chain.getLast? = some status)
    (hin : s.mem.InRam b status.addr 1) (ht : Same (RingByte b s.queue) s t)
    (hreport : reportError b head t = (.ok (), u)) : statusByte b u.mem status = 1 ∧ u.queue = s.queue := by
  have hwalk : t.mem.walkChain b t.queue head = .ok chain := by
    rw [ht.queue, GuestMemory.walkChain_congr ht.ram fun _ => Or.inl, hchain]
  have hin' : t.mem.InRam b status.addr 1 := (GuestMemory.inRam_congr ht.size).mpr hin
  rw [reportError_of_chain hwalk hlast, failed, if_pos hin'] at hreport
  cases hreport
  refine ⟨?_, ht.queue⟩
  show (t.mem.ram.write (b.offset status.addr) [1]).byte (b.offset status.addr) = 1
  rw [byte_write_of_within ⟨Nat.le_refl _, Nat.lt_succ_self _⟩, Nat.sub_self]
  rfl

theorem Performed.of_setWritten {type : UInt32} {sector : UInt64} {n : UInt32}
    (h : Performed b (setWritten n s) t type sector data) : Performed b s t type sector data :=
  ⟨h.supported, h.read, h.write, h.flush, h.id⟩

/-- What a request did stays done while its buffers and its disk stay. --/
theorem Performed.congr {type : UInt32} {sector : UInt64} {K : Nat → Prop} (h : Performed b s t type sector data)
    (hdisk : u.disk = t.disk) (hram : AgreeOn K t.mem.ram u.mem.ram)
    (hin : ∀ d ∈ data, t.mem.InRam b d.addr d.len.toNat)
    (hK : ∀ d ∈ data, ∀ i, Touches b d.addr d.len.toNat i → K i) : Performed b s u type sector data := by
  refine ⟨h.supported, fun ht => ?_, fun ht => ?_, fun ht => ?_, fun ht => ?_⟩
  · rw [gather_congr hram hin hK, hdisk]
    exact h.read ht
  · rw [hdisk]
    exact h.write ht
  · rw [hdisk]
    exact h.flush ht
  · obtain ⟨hid, hview⟩ := h.id ht
    rw [hdisk]
    refine ⟨fun d hd => ?_, hview⟩
    have hmem : d ∈ data := List.mem_of_mem_head? hd
    rw [hram.read_eq fun i hi => hK d hmem i ?_, hid d hd]
    have := (hin d hmem).touches_iff.mp hi
    exact ⟨this.1, Nat.lt_of_lt_of_le this.2 (Nat.add_le_add_left (Nat.min_le_left _ _) _)⟩

/-- The used element tells the stored bytes exactly: buffers in 4 GiB of RAM leave no room for a wrap. --/
theorem stored_lt (type : UInt32) (hplaced : WellPlaced b s.mem s.queue (header :: (data ++ [status])))
    (hsize : s.mem.size ≤ 2 ^ 32) (hheader : 16 ≤ header.len) (hlen : 1 ≤ status.len) :
    dataLen data + 1 < 2 ^ 32 ∧ stored type data + 1 < 2 ^ 32 := by
  have hfit := dataLen_le hplaced.inRam hplaced.apart
  have hheader' : 16 ≤ header.len.toNat := hheader
  have hlen' : 1 ≤ status.len.toNat := hlen
  have hstored := stored_le type data
  rw [dataLen_cons, dataLen_append, dataLen_cons, dataLen_nil] at hfit
  omega

/-- A request that reaches its end with the status 0 was served. --/
theorem completed_of_served (hwf : s.disk.Wf) (hsize : s.mem.size ≤ 2 ^ 32) (hlen : 1 ≤ status.len)
    (hplaced : WellPlaced b s.mem s.queue (header :: (data ++ [status])))
    (hchain : s.mem.walkChain b s.queue head = .ok (header :: (data ++ [status])))
    (hrun : fulfil b head (setWritten 0 s) = (.ok (), u)) (hcan : u.mem.CanPublish b u.queue)
    (hstatus : statusByte b (processRequest b head s).2.mem status = 0) :
    Completed b s (processRequest b head s).2 head header data := by
  have hplaced₀ : WellPlaced b (setWritten 0 s).mem (setWritten 0 s).queue (header :: (data ++ [status])) := hplaced
  have hchain₀ : (setWritten 0 s).mem.walkChain b (setWritten 0 s).queue head = .ok (header :: (data ++ [status])) :=
    hchain
  have hu : Same (RingByte b s.queue) (setWritten 0 s) u := by
    have := hplaced₀.same_fulfil hchain₀
    rwa [hrun] at this
  have hq : u.queue = s.queue := hu.queue
  have hlast : (header :: (data ++ [status])).getLast? = some status := by
    rw [← List.cons_append, List.getLast?_concat]
  obtain ⟨hstatusIn, hstatusSpare⟩ := hplaced.statusByte hlast hlen
  rw [processRequest_served hrun hcan] at hstatus ⊢
  rw [hq] at hcan hstatus ⊢
  rw [fulfil_of_chain hchain₀] at hrun
  obtain ⟨hheader, v, w, hreq, hin, rfl⟩ := fulfilChain_ok hrun
  have hpub := agreeOn_ringByte head.toUInt32 (w.written + 1) hcan
  -- The publication keeps the status byte, so the request returned 0.
  have hv : v = 0 := by
    have hkeep := hpub.byte (b.offset status.addr) fun hring =>
      (hstatusSpare _ (hstatusIn.touches_iff.mp ⟨Nat.le_refl _, Nat.lt_succ_self _⟩)).2 hring
    have hstored : (w.mem.ram.write (b.offset status.addr) [v]).byte (b.offset status.addr) = v := by
      rw [byte_write_of_within ⟨Nat.le_refl _, Nat.lt_succ_self _⟩, Nat.sub_self]
      rfl
    exact hstored.symm.trans (hkeep.symm.trans hstatus)
  subst hv
  obtain ⟨hsum, hlt⟩ := stored_lt (requestType b s.mem header) hplaced hsize hheader hlen
  obtain ⟨hdata, -, hlastApart⟩ := List.pairwise_append.mp (List.pairwise_cons.mp hplaced.apart).2
  obtain ⟨hperf, hwritten⟩ := request_ok (s := setWritten 0 s) hwf hdata rfl (by omega) hreq
  -- Neither store after the request reaches a data buffer.
  have hstore : AgreeOn (fun i => ¬Touches b status.addr 1 i ∧ ¬RingByte b s.queue i) w.mem.ram
      (w.mem.store (b.offset status.addr) [0]).ram :=
    AgreeOn.write fun i hi hK => hK.1 (hstatusIn.touches_iff.mp hi)
  have hidx : (w.mem.store (b.offset status.addr) [0]).usedIdx b s.queue = s.mem.usedIdx b s.queue :=
    hu.ram.readU16 fun i hi => .inr (.inl (hcan.1.touches_iff.mp hi))
  have hmem : ∀ d ∈ data, d ∈ header :: (data ++ [status]) := fun d hd => by simp [hd]
  have hsize' : w.mem.size = s.mem.size := hu.size
  refine ⟨hheader, ?_, ?_⟩
  · refine hperf.of_setWritten.congr rfl (hstore.trans (hpub.mono fun i hi => hi.2)) (fun d hd => ?_) fun d hd i hi => ?_
    · exact (GuestMemory.inRam_congr hsize').mpr (hplaced.inRam d (hmem d hd))
    · exact ⟨fun hst => hlastApart d hd status (by simp) i hi (hstatusSpare i hst).1, hplaced.spare d (hmem d hd) i hi⟩
  · have hn : (w.written + 1).toNat = stored (requestType b s.mem header) data + 1 := by
      rw [UInt32.toNat_add, hwritten]
      exact Nat.mod_eq_of_lt hlt
    refine ⟨?_, ?_, ?_⟩
    · rw [← hidx]
      exact GuestMemory.usedIdx_published
    · rw [← hidx]
      exact GuestMemory.usedId_published hcan
    · rw [← hidx, ← hn]
      exact congrArg UInt32.toNat (GuestMemory.usedLen_published hcan)

/-- On KVM, where RAM has at most 4 GiB, a request of a well-placed chain that ends with the status 0 was
    served: a read has filled its buffers, in the order of the chain, with the bytes of the disk from its
    sector on, a write has changed the disk there to its buffers and nowhere else, and the used element tells
    the bytes stored. So a request that was not served ends with another status. --/
theorem request_completed (s : Blk) (head : UInt16) (chain : List Desc) (status : Desc) (hwf : s.disk.Wf)
    (hsize : s.mem.size ≤ 2 ^ 32) (hchain : s.mem.walkChain .kvm s.queue head = .ok chain)
    (hlast : chain.getLast? = some status) (hlen : 1 ≤ status.len) (hplaced : WellPlaced .kvm s.mem s.queue chain)
    (hstatus : statusByte .kvm (processRequest .kvm head s).2.mem status = 0) :
    ∃ header data, chain = header :: (data ++ [status]) ∧
      Completed .kvm s (processRequest .kvm head s).2 head header data := by
  obtain ⟨hin, hspare⟩ := hplaced.statusByte hlast hlen
  obtain ⟨u, hpush, hend⟩ := processRequest_lastPush .kvm head s
  cases hpush with
  | served hrun hcan =>
    obtain ⟨init, rfl⟩ := List.getLast?_eq_some_iff.mp hlast
    cases init with
    | nil =>
      obtain ⟨e, he⟩ := fulfil_of_single (s := setWritten 0 s) hchain
      rw [he] at hrun
      cases hrun
    | cons header data => exact ⟨header, data, rfl, completed_of_served hwf hsize hlen hplaced hchain hrun hcan hstatus⟩
  | caught r t hrun _ hreport =>
    have ht : Same (RingByte .kvm s.queue) (setWritten 0 s) t := by
      have hplaced₀ : WellPlaced .kvm (setWritten 0 s).mem (setWritten 0 s).queue chain := hplaced
      have := hplaced₀.same_fulfil hchain
      rwa [hrun] at this
    obtain ⟨hone, hq⟩ := statusByte_caught (s := setWritten 0 s) hchain hlast hin ht hreport
    have hzero : statusByte .kvm u.mem status = 0 := by
      rcases hend with ⟨hcan, w, hend⟩ | ⟨-, e, hend⟩
      · rw [hend] at hstatus
        have hkeep := (agreeOn_ringByte head.toUInt32 w hcan).byte (Backend.kvm.offset status.addr) fun hring =>
          (hspare _ (hin.touches_iff.mp ⟨Nat.le_refl _, Nat.lt_succ_self _⟩)).2 (hq ▸ hring)
        exact hkeep.symm.trans hstatus
      · rwa [hend] at hstatus
    rw [hone] at hzero
    cases hzero

/-- A device with a queue of four entries and the chain of a read of sector 1: the header at 0x300, a buffer of
    one sector at 0x400 and the status byte at 0x700. --/
def oneRead : Blk where
  mem := ⟨⟨2048, fun i => ([(1, 3), (8, 16), (12, 1), (14, 1), (17, 4), (25, 2), (28, 3), (30, 2), (33, 7), (40, 1),
    (44, 2), (0x308, 1)].lookup i).getD 0⟩, by decide⟩
  queue := fourEntries 0 0x100 0x200
  disk := { base := ⟨1024, fun _ => 7⟩, overlay := none, dirtySectors := [], diskBytes := 1024, sectors := 2,
            readOnly := false, faults := [] }
  written := 0

/-- The three buffers of that chain. --/
def oneReadChain : List Desc := [⟨0x300, 16, 1, 1⟩, ⟨0x400, 512, 3, 2⟩, ⟨0x700, 1, 2, 0⟩]

theorem wellPlaced_oneRead : WellPlaced .kvm oneRead.mem oneRead.queue oneReadChain := by
  have hfit : RingsFit .kvm oneRead.mem oneRead.queue := ⟨by decide, by decide, by decide⟩
  have hrings : ∀ i, RingByte .kvm oneRead.queue i → i < 0x300 := fun i hi => by
    rcases inRings_of_ringByte hfit hi with ⟨-, hi⟩ | ⟨-, hi⟩ | ⟨-, hi⟩
    · have : 0 + i < 0 + 64 := hi
      omega
    · have : 0 + i < 0x100 + 12 := hi
      omega
    · have : 0 + i < 0x200 + 36 := hi
      omega
  have hstart : ∀ d ∈ oneReadChain, 0x300 ≤ d.addr.toNat := by decide
  have horder : oneReadChain.Pairwise fun d e => d.addr.toNat + d.len.toNat ≤ e.addr.toNat := by decide
  refine ⟨by decide, horder.imp apart_of_le, fun d hd i hi hring => ?_⟩
  have h1 : d.addr.toNat ≤ 0 + i := hi.1
  have h2 := hstart d hd
  have h3 := hrings i hring
  omega

/-- The theorem on a read of one sector. --/
theorem request_completed_read : statusByte .kvm (processRequest .kvm 0 oneRead).2.mem ⟨0x700, 1, 2, 0⟩ = 0 ∧
    ∃ header data, oneReadChain = header :: (data ++ [⟨0x700, 1, 2, 0⟩]) ∧
      Completed .kvm oneRead (processRequest .kvm 0 oneRead).2 0 header data := by
  have hstatus : statusByte .kvm (processRequest .kvm 0 oneRead).2.mem ⟨0x700, 1, 2, 0⟩ = 0 := by decide
  have hwf : oneRead.disk.Wf := ⟨by decide, rfl, fun ho => nomatch ho⟩
  exact ⟨hstatus, request_completed oneRead 0 oneReadChain _ hwf (by decide) rfl rfl (by decide) wellPlaced_oneRead hstatus⟩

end
end NodeVmm.Blk
