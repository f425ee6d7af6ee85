import NodeVmm.Theorems.NetFrame
import NodeVmm.WhpNet

/-! What becomes of a head that `deliver_rx_packet_now` takes. It is given back with the number of bytes stored
    exactly when the chain has room for the whole packet and the used ring can be written: the error exits of the
    loop give nothing back, and a chain that ends too early is given back with the length of the packet. -/

namespace NodeVmm.Whp
open ByteStore

section
variable {m : GuestMemory} {gpa : UInt64} {len p : Nat}

theorem ptrOrNull_of_inRam (h : m.InRam .whp gpa len) : ptrOrNull m gpa len = some gpa.toNat := by
  have hsize : gpa.toNat + len ≤ 0 + m.size := h.2
  unfold ptrOrNull
  rw [if_neg (by omega)]

theorem ptrOrNull_of_not_inRam (h : ¬m.InRam .whp gpa len) : ptrOrNull m gpa len = none := by
  unfold ptrOrNull
  rw [if_pos]
  by_contra hin
  exact h ⟨Nat.zero_le _, by show _ ≤ 0 + m.size; omega⟩

theorem ptrOrNull_eq_some : ptrOrNull m gpa len = some p ↔ m.InRam .whp gpa len ∧ p = gpa.toNat := by
  by_cases h : m.InRam .whp gpa len
  · rw [ptrOrNull_of_inRam h]
    simp [h, eq_comm]
  · rw [ptrOrNull_of_not_inRam h]
    simp [h]

end

/-! ### Room in a chain -/

namespace VirtioNet

/-- The descriptor at `current`, as the table holds it. --/
def entryAt (descAddr : UInt64) (current : UInt16) (m : GuestMemory) : Desc :=
  descAt m (descAddr + current.toUInt64 * 16).toNat

/-- The descriptor is in the table, and writable. --/
structure Entry (queueNum : Nat) (descAddr : UInt64) (current : UInt16) (m : GuestMemory) : Prop where
  index : current.toNat < queueNum
  inRam : m.InRam .whp (descAddr + current.toUInt64 * 16) 16
  writable : (entryAt descAddr current m).writable = true

/-- The chain has room for the bytes, within `hops` descriptors; what is stored in its first buffers may change the
    descriptors that follow. --/
inductive Room (queueNum : Nat) (descAddr : UInt64) : Nat → UInt16 → Packet → GuestMemory → Prop
  | last {hops : Nat} {current : UInt16} {bytes : Packet} {m : GuestMemory} (hentry : Entry queueNum descAddr current m)
    (hfits : bytes.length ≤ (entryAt descAddr current m).len.toNat)
    (hbuffer : m.InRam .whp (entryAt descAddr current m).addr bytes.length)
    (hnext : (entryAt descAddr current m).hasNext = true → (entryAt descAddr current m).next.toNat < queueNum) :
    Room queueNum descAddr (hops + 1) current bytes m
  | more {hops : Nat} {current : UInt16} {bytes : Packet} {m : GuestMemory} (hentry : Entry queueNum descAddr current m)
    (hfull : (entryAt descAddr current m).len.toNat < bytes.length)
    (hbuffer : m.InRam .whp (entryAt descAddr current m).addr (entryAt descAddr current m).len.toNat)
    (hnext : (entryAt descAddr current m).hasNext = true) (hindex : (entryAt descAddr current m).next.toNat < queueNum)
    (hrest : Room queueNum descAddr hops (entryAt descAddr current m).next (bytes.drop (entryAt descAddr current m).len.toNat)
      (m.store (entryAt descAddr current m).addr.toNat (bytes.take (entryAt descAddr current m).len.toNat))) :
    Room queueNum descAddr (hops + 1) current bytes m

section
variable {queueNum hops : Nat} {descAddr : UInt64} {current : UInt16} {bytes : Packet} {m : GuestMemory}

theorem copyFrom_nil : (copyFrom queueNum descAddr hops current [] m) = ⟨true, 0, m⟩ := by
  cases hops <;> rfl

/-- The whole packet was copied, and the loop ended well. --/
def Copied.All (c : Copied) : Prop := c.ok = true ∧ c.left = 0

/-- A round of the loop. --/
theorem copyFrom_entry (hne : bytes ≠ []) (hentry : Entry queueNum descAddr current m)
    (hbuffer : m.InRam .whp (entryAt descAddr current m).addr (min (entryAt descAddr current m).len.toNat bytes.length)) :
    copyFrom queueNum descAddr (hops + 1) current bytes m =
      (let d := entryAt descAddr current m
      let m := m.store d.addr.toNat (bytes.take d.len.toNat)
      let bytes := bytes.drop d.len.toNat
      if !d.hasNext then ⟨true, bytes.length, m⟩
      else if queueNum ≤ d.next.toNat then ⟨false, bytes.length, m⟩
      else copyFrom queueNum descAddr hops d.next bytes m) := by
  have hwritable := hentry.writable
  unfold entryAt at *
  rw [copyFrom, if_neg hne, if_neg (Nat.not_le.mpr hentry.index)]
  simp only [ptrOrNull_of_inRam hentry.inRam, hwritable, ptrOrNull_of_inRam hbuffer, Bool.not_true, Bool.false_eq_true,
    if_false]

/-- The loop stops at a descriptor that it cannot use. --/
theorem entry_of_ok (hne : bytes ≠ []) (h : (copyFrom queueNum descAddr (hops + 1) current bytes m).ok = true) :
    Entry queueNum descAddr current m ∧
      m.InRam .whp (entryAt descAddr current m).addr (min (entryAt descAddr current m).len.toNat bytes.length) := by
  unfold copyFrom at h
  rw [if_neg hne] at h
  split at h
  · cases h
  · rename_i hindex
    split at h
    · cases h
    · rename_i desc hdesc
      obtain ⟨hin, rfl⟩ := ptrOrNull_eq_some.mp hdesc
      dsimp only at h
      split at h
      · cases h
      · rename_i hwritable
        split at h
        · cases h
        · rename_i segment hsegment
          rw [Bool.not_eq_true', Bool.not_eq_false] at hwritable
          exact ⟨⟨Nat.lt_of_not_le hindex, hin, hwritable⟩, (ptrOrNull_eq_some.mp hsegment).1⟩

theorem Room.copyFrom (h : Room queueNum descAddr hops current bytes m) (hne : bytes ≠ []) :
    (copyFrom queueNum descAddr hops current bytes m).All := by
  induction h with
  | @last hops current bytes m hentry hfits hbuffer hnext =>
    have hdrop : bytes.drop (entryAt descAddr current m).len.toNat = [] := List.drop_of_length_le hfits
    rw [copyFrom_entry hne hentry (by rwa [Nat.min_eq_right hfits])]
    simp only [hdrop, copyFrom_nil]
    by_cases hlast : (entryAt descAddr current m).hasNext = true
    · rw [if_neg (by rw [hlast]; nofun), if_neg (Nat.not_le.mpr (hnext hlast))]
      exact ⟨rfl, rfl⟩
    · rw [Bool.not_eq_true] at hlast
      rw [if_pos (by rw [hlast]; rfl)]
      exact ⟨rfl, rfl⟩
  | @more hops current bytes m hentry hfull hbuffer hnext hindex hrest ih =>
    rw [copyFrom_entry hne hentry (by rwa [Nat.min_eq_left (Nat.le_of_lt hfull)])]
    dsimp only
    rw [if_neg (by rw [hnext]; nofun), if_neg (Nat.not_le.mpr hindex)]
    refine ih (List.ne_nil_of_length_pos ?_)
    rw [List.length_drop]
    exact Nat.sub_pos_of_lt hfull

theorem room_of_copyFrom : ∀ {hops : Nat} {current : UInt16} {bytes : Packet} {m : GuestMemory}, bytes ≠ [] →
    (copyFrom queueNum descAddr hops current bytes m).All → Room queueNum descAddr hops current bytes m
  | 0, _, bytes, _, hne, h => by
    have hnil : bytes.isEmpty = true := h.1
    exact absurd (List.isEmpty_iff.mp hnil) hne
  | hops + 1, current, bytes, m, hne, h => by
    obtain ⟨hentry, hbuffer⟩ := entry_of_ok hne h.1
    rw [copyFrom_entry hne hentry hbuffer] at h
    dsimp only at h
    rcases Nat.lt_or_ge (entryAt descAddr current m).len.toNat bytes.length with hfull | hfits
    · rw [Nat.min_eq_left (Nat.le_of_lt hfull)] at hbuffer
      have hmore : bytes.drop (entryAt descAddr current m).len.toNat ≠ [] := List.ne_nil_of_length_pos (by
        rw [List.length_drop]
        exact Nat.sub_pos_of_lt hfull)
      split at h
      · exact absurd (List.eq_nil_of_length_eq_zero h.2) hmore
      · rename_i hnext
        split at h
        · cases h.1
        · rename_i hindex
          exact .more hentry hfull hbuffer (by simpa using hnext) (Nat.lt_of_not_le hindex) (room_of_copyFrom hmore h)
    · rw [Nat.min_eq_right hfits] at hbuffer
      refine .last hentry hfits hbuffer fun hnext => ?_
      rw [if_neg (by rw [hnext]; nofun)] at h
      by_contra hindex
      rw [if_pos (Nat.le_of_not_lt hindex)] at h
      cases h.1

/-- The loop copies the whole packet if and only if the chain has room for it. --/
theorem room_iff (hne : bytes ≠ []) :
    Room queueNum descAddr hops current bytes m ↔ (copyFrom queueNum descAddr hops current bytes m).All :=
  ⟨fun h => h.copyFrom hne, room_of_copyFrom hne⟩

/-- The loop keeps the size of RAM. --/
theorem size_copyFrom : ∀ (hops : Nat) (current : UInt16) (bytes : Packet) (m : GuestMemory),
    (copyFrom queueNum descAddr hops current bytes m).mem.size = m.size
  | 0, _, _, _ => rfl
  | hops + 1, current, bytes, m => by
    unfold copyFrom
    split
    · rfl
    · split
      · rfl
      · split
        · rfl
        · dsimp only
          split
          · rfl
          · split
            · rfl
            · split
              · rfl
              · split
                · rfl
                · exact size_copyFrom hops _ _ _

end

/-! ### The used element -/

/-- The element and the index of the used ring are in RAM. --/
structure UsedInRam (q : Queue) (m : GuestMemory) : Prop where
  elem : m.InRam .whp q.usedElem 8
  index : m.InRam .whp q.usedIdx 2

/-- The guest finds a new element at the end of the used ring. --/
structure Visible (q : Queue) (head : UInt16) (len : UInt32) (m : GuestMemory) : Prop where
  inRam : UsedInRam q m
  id : m.ram.readU32 q.usedElem.toNat = head.toUInt32
  len : m.ram.readU32 (q.usedElem.toNat + 4) = len
  index : m.ram.readU16 q.usedIdx.toNat = q.lastUsedIdx + 1

/-- What `publishUsed` stores. --/
def published (q : Queue) (head : UInt16) (len : UInt32) (m : GuestMemory) : GuestMemory :=
  writeU16 q.usedIdx (q.lastUsedIdx + 1) (writeU32 (q.usedElem + 4) len (writeU32 q.usedElem head.toUInt32 m))

section
variable {q : Queue} {head : UInt16} {len : UInt32} {m : GuestMemory} {s : VirtioNet}

theorem usedElem_toNat (hnum : q.num ≠ 0) (h : m.InRam .whp q.usedIdx 2) : q.usedIdx.toNat + 2 ≤ q.usedElem.toNat := by
  have hlt : q.lastUsedIdx.toNat % q.num < 256 := Nat.lt_of_lt_of_le (Nat.mod_lt _ (Nat.pos_of_ne_zero hnum)) q.num_le
  have hslot : (2 + UInt64.ofNat (q.lastUsedIdx.toNat % q.num) * 8).toNat = 2 + 8 * (q.lastUsedIdx.toNat % q.num) := by
    simp only [UInt64.toNat_add, UInt64.toNat_mul, UInt64.toNat_ofNat', UInt64.reduceToNat]
    omega
  have helem : q.usedElem = q.usedIdx + (2 + UInt64.ofNat (q.lastUsedIdx.toNat % q.num) * 8) := by
    unfold Queue.usedElem Queue.usedIdx
    rw [← UInt64.add_assoc]
    congr 1
    rw [UInt64.add_assoc]
    rfl
  rw [helem, h.toNat_add (by rw [hslot]; omega), hslot]
  omega

theorem writeU16_of_inRam {gpa : UInt64} {v : UInt16} (h : m.InRam .whp gpa 2) : writeU16 gpa v m = m.storeU16 gpa.toNat v := by
  rw [writeU16, ptrOrNull_of_inRam h]

theorem writeU32_of_inRam {gpa : UInt64} {v : UInt32} (h : m.InRam .whp gpa 4) : writeU32 gpa v m = m.storeU32 gpa.toNat v := by
  rw [writeU32, ptrOrNull_of_inRam h]

theorem published_of_inRam (h : UsedInRam q m) : published q head len m =
    ((m.storeU32 q.usedElem.toNat head.toUInt32).storeU32 (q.usedElem.toNat + 4) len).storeU16 q.usedIdx.toNat
      (q.lastUsedIdx + 1) := by
  have hadd : (q.usedElem + 4).toNat = q.usedElem.toNat + 4 := h.elem.toNat_add (by decide)
  have hlen : (m.storeU32 q.usedElem.toNat head.toUInt32).InRam .whp (q.usedElem + 4) 4 :=
    (GuestMemory.inRam_congr rfl).mpr (h.elem.add (by decide) (by decide))
  have hindex : ((m.storeU32 q.usedElem.toNat head.toUInt32).storeU32 (q.usedElem.toNat + 4) len).InRam .whp q.usedIdx 2 :=
    (GuestMemory.inRam_congr rfl).mpr h.index
  rw [published, writeU32_of_inRam (h.elem.mono (by decide)), writeU32_of_inRam hlen, hadd, writeU16_of_inRam hindex]

theorem size_published : (published q head len m).size = m.size := by
  unfold published writeU16 writeU32
  split <;> split <;> split <;> rfl

theorem visible_published (hnum : q.num ≠ 0) (h : UsedInRam q m) : Visible q head len (published q head len m) := by
  have hafter := usedElem_toNat hnum h.index
  refine ⟨⟨(GuestMemory.inRam_congr size_published).mpr h.elem, (GuestMemory.inRam_congr size_published).mpr h.index⟩, ?_, ?_, ?_⟩
  · rw [published_of_inRam h]
    refine Eq.trans (readU32_congr fun i hi => ?_) (readU32_writeU32 (s := m.ram) head.toUInt32)
    have h1 := hi.1
    have h2 := hi.2
    refine (byte_write_of_not_within fun hw => ?_).trans (byte_write_of_not_within fun hw => ?_)
    · have hlast : i < q.usedIdx.toNat + 2 := hw.2
      omega
    · have hfirst : q.usedElem.toNat + 4 ≤ i := hw.1
      omega
  · rw [published_of_inRam h]
    refine Eq.trans (readU32_congr fun i hi => ?_) (readU32_writeU32 (s := (m.storeU32 q.usedElem.toNat head.toUInt32).ram) len)
    have h1 := hi.1
    refine byte_write_of_not_within fun hw => ?_
    have hlast : i < q.usedIdx.toNat + 2 := hw.2
    omega
  · rw [published_of_inRam h]
    exact readU16_writeU16 _

end

/-! ### One call -/

/-- The call gives back one element, for this head and this many bytes. --/
structure GivesBack (q : Queue) (head : UInt16) (len : Nat) (before after : VirtioNet) : Prop where
  once : after.usedLog = before.usedLog ++ [(head, UInt32.ofNat len)]
  visible : Visible q head (UInt32.ofNat len) after.mem

section
variable (w : Meanwhile) (frame : Packet) (s : VirtioNet)

/-- The device as the call finds it after it has taken a head. --/
def atFill : VirtioNet := w.afterTake s.bumpLastAvail

/-- The registers of the queue as the used element is written. --/
def atPublish : Queue := w.registers (atFill w s).rx

def packetAt : Packet := framed (atFill w s).driverFeatures frame

/-- The run of the loop over the chain that is taken. --/
def copied : Copied :=
  copyFrom s.rx.num s.rx.descAddr s.rx.num s.availHead (packetAt w frame s) (atFill w s).mem

/-- The bytes that the call has stored in the buffers of the chain. --/
def stored : Nat := (packetAt w frame s).length - (copied w frame s).left

/-- Whenever the call moves `last_avail_idx`, it gives the head back with the number of bytes that it has stored. --/
def Accounted : Prop :=
  (deliverStep frame .take s).2.rx.lastAvailIdx ≠ s.rx.lastAvailIdx →
    GivesBack (atPublish w s) s.availHead (stored w frame s) (atFill w s) (deliverRxPacketNow w frame s).2

/-- The head that is taken is a descriptor, its chain has room for the packet, and the used ring can be written. --/
structure Fits : Prop where
  head : s.availHead.toNat < s.rx.num
  room : Room s.rx.num s.rx.descAddr s.rx.num s.availHead (packetAt w frame s) (atFill w s).mem
  publishable : (atPublish w s).publishable = true
  used : UsedInRam (atPublish w s) (atFill w s).mem

end

section
variable {w : Meanwhile} {frame : Packet} {s : VirtioNet}

theorem length_framed (features : UInt64) : 0 < (framed features frame).length ∧
    (framed features frame).length ≤ 14 + frame.length := by
  have hheader : netHdrLen features = 12 ∨ netHdrLen features = 14 := by
    unfold netHdrLen
    split
    · exact Or.inr rfl
    · exact Or.inl rfl
  have hlen : (framed features frame).length = netHdrLen features + frame.length := by
    unfold framed
    split <;> simp
  rw [hlen]
  omega

theorem takeHead_of_available (h : s.rxAvailable = true) : s.takeHead =
    (if s.availHead.toNat < s.rx.num then .head s.availHead s.rx.num s.rx.descAddr else .skipped, s.bumpLastAvail) := by
  unfold takeHead
  rw [if_neg (by rw [h]; nofun)]
  split <;> rfl

theorem deliverStep_take (hlen : frame.length ≤ maxFrame) (havail : s.rxAvailable = true) :
    deliverStep frame .take s = (if s.availHead.toNat < s.rx.num then .goto (.fill s.availHead s.rx.num s.rx.descAddr)
      else .done true, s.bumpLastAvail) := by
  rw [deliverStep, if_neg (Nat.not_lt.mpr hlen), takeHead_of_available havail]
  by_cases hhead : s.availHead.toNat < s.rx.num
  · simp only [if_pos hhead]
  · simp only [if_neg hhead]

theorem deliverStep_take_of_unavailable (h : ¬(frame.length ≤ maxFrame ∧ s.rxAvailable = true)) :
    (deliverStep frame .take s).2 = s := by
  rw [deliverStep]
  split
  · rfl
  · rename_i hlong
    have havail : s.rxAvailable = false := Bool.eq_false_iff.mpr fun havail => h ⟨Nat.le_of_not_lt hlong, havail⟩
    rw [takeHead, if_pos (by rw [havail]; rfl)]

theorem lastAvail_bump : s.bumpLastAvail.rx.lastAvailIdx ≠ s.rx.lastAvailIdx := by
  intro heq
  have hnat := congrArg UInt16.toNat heq
  have hlt := s.rx.lastAvailIdx.toNat_lt
  rw [show s.bumpLastAvail.rx.lastAvailIdx = s.rx.lastAvailIdx + 1 from rfl, UInt16.toNat_add,
    show (1 : UInt16).toNat = 1 from rfl] at hnat
  omega

/-- When the call moves `last_avail_idx`. --/
theorem advances_iff : (deliverStep frame .take s).2.rx.lastAvailIdx ≠ s.rx.lastAvailIdx ↔
    frame.length ≤ maxFrame ∧ s.rxAvailable = true := by
  by_cases h : frame.length ≤ maxFrame ∧ s.rxAvailable = true
  · rw [deliverStep_take h.1 h.2]
    exact ⟨fun _ => h, fun _ => lastAvail_bump⟩
  · rw [deliverStep_take_of_unavailable h]
    exact ⟨fun hne => absurd rfl hne, fun h' => absurd h' h⟩

theorem raiseUsedBufferIrq_keeps : s.raiseUsedBufferIrq.mem = s.mem ∧ s.raiseUsedBufferIrq.usedLog = s.usedLog := by
  unfold raiseUsedBufferIrq
  split
  · exact ⟨rfl, rfl⟩
  · split <;> exact ⟨rfl, rfl⟩

/-- What is left of a call that has taken a descriptor. --/
theorem deliver_of_head (hlen : frame.length ≤ maxFrame) (havail : s.rxAvailable = true) (hhead : s.availHead.toNat < s.rx.num) :
    (deliverRxPacketNow w frame s).2 =
      if (copied w frame s).ok then
        if (atPublish w s).publishable then
          (publishUsed s.availHead (packetAt w frame s).length
            (w.afterFill { atFill w s with mem := (copied w frame s).mem })).2.raiseUsedBufferIrq
        else w.afterFill { atFill w s with mem := (copied w frame s).mem }
      else { atFill w s with mem := (copied w frame s).mem } := by
  unfold deliverRxPacketNow
  rw [deliverStep_take hlen havail, if_pos hhead]
  have hfill : deliverStep frame (.fill s.availHead s.rx.num s.rx.descAddr) (w.afterTake s.bumpLastAvail) =
      (if (copied w frame s).ok then .goto (.publish s.availHead (packetAt w frame s).length) else .done true,
        { atFill w s with mem := (copied w frame s).mem }) := rfl
  dsimp only
  rw [hfill]
  cases hok : (copied w frame s).ok with
  | false => rfl
  | true =>
    simp only [if_true]
    have hpub : (w.afterFill { atFill w s with mem := (copied w frame s).mem }).rx = atPublish w s := rfl
    rw [deliverStep, publishUsed, hpub]
    cases hready : (atPublish w s).publishable <;> rfl

/-- The element is written with the length of the packet. --/
theorem givesBack_publish (t : VirtioNet) (head : UInt16) {size : Nat} (left : Nat) (hsize : 0 < size) (hlt : size < 2 ^ 32)
    (hpub : t.rx.publishable = true) :
    GivesBack t.rx head (size - left) t (publishUsed head size t).2.raiseUsedBufferIrq ↔ left = 0 ∧ UsedInRam t.rx t.mem := by
  have hnum : t.rx.num ≠ 0 := by
    intro hzero
    rw [Queue.publishable, hzero] at hpub
    simp at hpub
  have hmem : (publishUsed head size t).2.raiseUsedBufferIrq.mem = published t.rx head (UInt32.ofNat size) t.mem := by
    rw [raiseUsedBufferIrq_keeps.1, publishUsed, if_pos hpub]
    rfl
  have hlog : (publishUsed head size t).2.raiseUsedBufferIrq.usedLog = t.usedLog ++ [(head, UInt32.ofNat size)] := by
    rw [raiseUsedBufferIrq_keeps.2, publishUsed, if_pos hpub]
  constructor
  · rintro ⟨honce, hvisible⟩
    have heq : UInt32.ofNat size = UInt32.ofNat (size - left) := by
      rw [hlog] at honce
      have hpair := List.append_cancel_left honce
      simpa using hpair
    have hnat := congrArg UInt32.toNat heq
    rw [UInt32.toNat_ofNat', UInt32.toNat_ofNat', Nat.mod_eq_of_lt hlt, Nat.mod_eq_of_lt (by omega)] at hnat
    refine ⟨by omega, ?_⟩
    rw [hmem] at hvisible
    exact ⟨(GuestMemory.inRam_congr size_published).mp hvisible.inRam.elem,
      (GuestMemory.inRam_congr size_published).mp hvisible.inRam.index⟩
  · rintro ⟨hleft, hused⟩
    rw [hleft, Nat.sub_zero]
    exact ⟨hlog, hmem ▸ visible_published hnum hused⟩

/-- A call that writes no element. --/
theorem not_givesBack {q : Queue} {head : UInt16} {len : Nat} {before after : VirtioNet} (hlog : after.usedLog <+: before.usedLog) :
    ¬GivesBack q head len before after := by
  intro h
  have hle := hlog.length_le
  rw [h.once, List.length_append, List.length_singleton] at hle
  omega

theorem givesBack_iff (hlen : frame.length ≤ maxFrame) (havail : s.rxAvailable = true) :
    GivesBack (atPublish w s) s.availHead (stored w frame s) (atFill w s) (deliverRxPacketNow w frame s).2 ↔ Fits w frame s := by
  have hbytes : packetAt w frame s ≠ [] := List.ne_nil_of_length_pos (length_framed _).1
  have hroom : Room s.rx.num s.rx.descAddr s.rx.num s.availHead (packetAt w frame s) (atFill w s).mem ↔
      (copied w frame s).All := room_iff hbytes
  by_cases hhead : s.availHead.toNat < s.rx.num
  · rw [deliver_of_head hlen havail hhead]
    cases hok : (copied w frame s).ok with
    | false =>
      refine ⟨fun h => absurd h (not_givesBack List.prefix_rfl), fun h => ?_⟩
      exact absurd (hok.symm.trans (hroom.mp h.room).1) nofun
    | true =>
      rw [if_pos rfl]
      cases hpub : (atPublish w s).publishable with
      | false =>
        refine ⟨fun h => absurd h (not_givesBack List.prefix_rfl), fun h => ?_⟩
        exact absurd (hpub.symm.trans h.publishable) nofun
      | true =>
        rw [if_pos rfl]
        have hshort : (packetAt w frame s).length < 2 ^ 32 := by
          have hle : (framed (atFill w s).driverFeatures frame).length ≤ 14 + frame.length := (length_framed _).2
          have hmax : maxFrame = 1518 := rfl
          rw [packetAt]
          omega
        have hsame : ((w.guest (copied w frame s).mem)).size = (atFill w s).mem.size :=
          (w.size_guest _).trans (size_copyFrom ..)
        have hgives := givesBack_publish (w.afterFill { atFill w s with mem := (copied w frame s).mem }) s.availHead
          (copied w frame s).left (List.length_pos_of_ne_nil hbytes) hshort hpub
        refine Iff.trans ⟨fun h => ⟨h.once, h.visible⟩, fun h => ⟨h.once, h.visible⟩⟩ (hgives.trans ?_)
        constructor
        · rintro ⟨hleft, hused⟩
          exact ⟨hhead, hroom.mpr ⟨hok, hleft⟩, hpub,
            ⟨(GuestMemory.inRam_congr hsame).mp hused.elem, (GuestMemory.inRam_congr hsame).mp hused.index⟩⟩
        · intro h
          exact ⟨(hroom.mp h.room).2, (GuestMemory.inRam_congr hsame).mpr h.used.elem,
            (GuestMemory.inRam_congr hsame).mpr h.used.index⟩
  · refine ⟨fun h => absurd h (not_givesBack ?_), fun h => absurd h.head hhead⟩
    unfold deliverRxPacketNow
    rw [deliverStep_take hlen havail, if_neg hhead]
    exact w.log_afterTake s.bumpLastAvail

/-- Over all calls, frames, devices and memories, whatever happens while the lock is dropped. --/
theorem accounted_iff (w : Meanwhile) (frame : Packet) (s : VirtioNet) :
    Accounted w frame s ↔ (frame.length ≤ maxFrame ∧ s.rxAvailable = true → Fits w frame s) := by
  unfold Accounted
  rw [advances_iff]
  exact ⟨fun h hadv => (givesBack_iff hadv.1 hadv.2).mp (h hadv), fun h hadv => (givesBack_iff hadv.1 hadv.2).mpr (h hadv)⟩

end

/-! ### Two chains -/

/-- Nobody does anything while the lock is dropped. --/
def undisturbed : Meanwhile where
  afterTake s := s
  log_afterTake _ := List.prefix_rfl
  registers q := q
  guest m := m
  size_guest _ := rfl

/-- An RX queue of four entries: descriptors at 0x40, the avail ring at 0x100, the used ring at 0x200. --/
def sampleQueue : Queue where
  ready := true
  num := 4
  num_le := by decide
  descAddr := 0x40
  driverAddr := 0x100
  deviceAddr := 0x200
  lastAvailIdx := 0
  lastUsedIdx := 0

def sampleDevice (ram : Nat → UInt8) : VirtioNet where
  mem := oneKiB ram
  rx := sampleQueue
  driverFeatures := 0
  interruptStatus := 0
  irqRequests := 0
  rxFlushActive := false
  rxBacklog := []
  usedLog := []

/-- One head is available: a buffer of `len` bytes at 0x300, with these flags. --/
def oneBuffer (len flags : UInt8) (i : Nat) : UInt8 :=
  if i = 0x41 then 3 else if i = 0x48 then len else if i = 0x4C then flags else if i = 0x102 then 1 else 0

/-- The shortest frame that libslirp hands on. --/
def paddedFrame : Packet := List.replicate 60 0

theorem not_accounted_of_not_all {ram : Nat → UInt8} (havail : (sampleDevice ram).rxAvailable = true)
    (hall : ¬(copied undisturbed paddedFrame (sampleDevice ram)).All) : ¬Accounted undisturbed paddedFrame (sampleDevice ram) := by
  intro h
  have hshort : paddedFrame.length ≤ maxFrame := by decide
  have hfits := (givesBack_iff hshort havail).mp (h (advances_iff.mpr ⟨hshort, havail⟩))
  exact hall ((room_iff (List.ne_nil_of_length_pos (length_framed _).1)).mp hfits.room)

/-- A buffer of 20 bytes takes 20 bytes of a packet of 72 and is given back with 72; a buffer that the device may not
    write is taken, and not given back. --/
theorem not_accounted_short_or_readable : ¬Accounted undisturbed paddedFrame (sampleDevice (oneBuffer 20 2)) ∧
    ¬Accounted undisturbed paddedFrame (sampleDevice (oneBuffer 80 0)) := by
  refine ⟨not_accounted_of_not_all (by decide +kernel) fun h => ?_, not_accounted_of_not_all (by decide +kernel) fun h => ?_⟩
  · have hleft : (copied undisturbed paddedFrame (sampleDevice (oneBuffer 20 2))).left = 52 := by decide +kernel
    exact absurd (hleft.symm.trans h.2) (by decide)
  · have hok : (copied undisturbed paddedFrame (sampleDevice (oneBuffer 80 0))).ok = false := by decide +kernel
    exact absurd (hok.symm.trans h.1) nofun

end VirtioNet
end NodeVmm.Whp
