import NodeVmm.Theorems.WhpDeliver
import NodeVmm.WhpTx

/-! What the network gets from the TX queue, and what the guest gets back. Every head whose chain is in order goes out
    as one frame and comes back as one used element. A chain that breaks off, or has a writable descriptor or a buffer
    outside RAM, goes out without that part, and a head that is no descriptor never comes back. -/

namespace NodeVmm.Whp
open ByteStore

/-! ### What a chain holds -/

/-- The descriptors that the walk comes to, and whether it ends by itself. --/
structure Walk where
  descs : List Desc
  ended : Bool

def walk (m : GuestMemory) (queueNum : Nat) (descAddr : UInt64) : Nat → UInt16 → Walk
  | 0, _ => ⟨[], false⟩
  | hops + 1, current =>
    if queueNum ≤ current.toNat then ⟨[], false⟩
    else
      match ptrOrNull m (descAddr + current.toUInt64 * 16) 16 with
      | none => ⟨[], false⟩
      | some p =>
        if !(descAt m p).hasNext then ⟨[descAt m p], true⟩
        else
          let rest := walk m queueNum descAddr hops (descAt m p).next
          ⟨descAt m p :: rest.descs, rest.ended⟩

/-- The device may read the buffer. --/
def Readable (m : GuestMemory) (d : Desc) : Prop := d.writable = false ∧ m.InRam .whp d.addr d.len.toNat

instance (m : GuestMemory) (d : Desc) : Decidable (Readable m d) := inferInstanceAs (Decidable (_ ∧ _))

/-- No descriptor of the chain is invalid: the walk ends by itself, and every buffer may be read. --/
def Walk.Valid (m : GuestMemory) (w : Walk) : Prop := w.ended = true ∧ ∀ d ∈ w.descs, Readable m d

instance (m : GuestMemory) (w : Walk) : Decidable (w.Valid m) := inferInstanceAs (Decidable (_ ∧ _))

/-- The buffers on the way that may be read. --/
def Walk.readable (m : GuestMemory) (w : Walk) : List Desc := w.descs.filter fun d => decide (Readable m d)

section
variable {m : GuestMemory} {queueNum hops : Nat} {descAddr : UInt64} {current : UInt16} {d : Desc} {w : Walk} {ds : List Desc}

theorem segment_eq : segment m d = if Readable m d then m.ram.read d.addr.toNat d.len.toNat else [] := by
  unfold segment
  by_cases hw : d.writable = true
  · have hnot : ¬Readable m d := fun h => by
      rw [h.1] at hw
      cases hw
    rw [if_pos hw, if_neg hnot]
  · rw [if_neg hw]
    rw [Bool.not_eq_true] at hw
    by_cases hin : m.InRam .whp d.addr d.len.toNat
    · rw [if_pos ⟨hw, hin⟩, ptrOrNull_of_inRam hin]
    · rw [if_neg fun h => hin h.2, ptrOrNull_of_not_inRam hin]

/-- One more descriptor. --/
theorem contents_filter_cons : contents .whp m ((d :: ds).filter fun d => decide (Readable m d)) =
    segment m d ++ contents .whp m (ds.filter fun d => decide (Readable m d)) := by
  rw [segment_eq]
  by_cases hread : Readable m d
  · rw [List.filter_cons_of_pos (by simpa using hread), if_pos hread]
    rfl
  · rw [List.filter_cons_of_neg (by simpa using hread), if_neg hread, List.nil_append]

/-- The packet is what the buffers hold that may be read, whatever lies between them. --/
theorem collectFrom_packet : ∀ hops current, (collectFrom m queueNum descAddr hops current).packet =
    contents .whp m ((walk m queueNum descAddr hops current).readable m)
  | 0, _ => rfl
  | hops + 1, current => by
    unfold collectFrom walk Walk.readable
    by_cases hindex : queueNum ≤ current.toNat
    · rw [if_pos hindex, if_pos hindex]
      rfl
    · rw [if_neg hindex, if_neg hindex]
      cases ptrOrNull m (descAddr + current.toUInt64 * 16) 16 with
      | none => rfl
      | some p =>
        simp only
        generalize descAt m p = d
        have hone : segment m d = contents .whp m ([d].filter fun d => decide (Readable m d)) := by
          rw [contents_filter_cons]
          exact (List.append_nil _).symm
        by_cases hlast : (!d.hasNext) = true
        · rw [if_pos hlast, if_pos hlast]
          exact hone
        · rw [if_neg hlast, if_neg hlast]
          by_cases hnext : queueNum ≤ d.next.toNat
          · have hstop : (walk m queueNum descAddr hops d.next).descs = [] := by
              cases hops with
              | zero => rfl
              | succ hops =>
                unfold walk
                rw [if_pos hnext]
            rw [if_pos hnext, hstop]
            exact hone
          · rw [if_neg hnext, contents_filter_cons]
            exact congrArg (segment m d ++ ·) (collectFrom_packet hops d.next)

theorem Walk.Valid.readable_eq (h : w.Valid m) : w.readable m = w.descs := by
  refine List.filter_eq_self.mpr fun d hd => ?_
  simpa using h.2 d hd

end

/-! ### Rings in RAM -/

/-- The rings of the queue are in RAM. --/
structure RingsIn (q : Queue) (m : GuestMemory) : Prop where
  desc : m.InRam .whp q.descAddr (16 * q.num)
  driver : m.InRam .whp q.driverAddr (4 + 2 * q.num)
  device : m.InRam .whp q.deviceAddr (4 + 8 * q.num)

/-- The used ring shares no byte with the avail ring. --/
def RingsApart (q : Queue) : Prop :=
  ∀ i, Touches .whp q.deviceAddr (4 + 8 * q.num) i → ¬Touches .whp q.driverAddr (4 + 2 * q.num) i

/-- The queue as the other devices have it. --/
def Queue.view (q : Queue) (h : 0 < q.num) : NodeVmm.Queue :=
  ⟨q.num, h, q.num_le, q.ready, q.lastAvailIdx, q.descAddr, q.driverAddr, q.deviceAddr⟩

section
variable {q : Queue} {m m' : GuestMemory} {gpa : UInt64} {k : UInt64} {len n i : Nat} {head : UInt16}

theorem RingsIn.congr (h : RingsIn q m) (hm : m'.size = m.size) : RingsIn q m' :=
  ⟨(GuestMemory.inRam_congr hm).mpr h.desc, (GuestMemory.inRam_congr hm).mpr h.driver,
    (GuestMemory.inRam_congr hm).mpr h.device⟩

theorem RingsIn.usedInRam (h : RingsIn q m) (hnum : 0 < q.num) : VirtioNet.UsedInRam q m :=
  ⟨GuestMemory.usedEntry_inRam (q := q.view hnum) h.device q.lastUsedIdx,
    GuestMemory.usedIdx_inRam (q := q.view hnum) h.device⟩

/-- A part of a range in RAM. --/
theorem touches_of_add (h : m.InRam .whp gpa len) (hk : k.toNat < 2 ^ 32) (hn : k.toNat + n ≤ len)
    (hi : Touches .whp (gpa + k) n i) : Touches .whp gpa len i := by
  have hadd := h.toNat_add hk
  have h1 := hi.1
  have h2 := hi.2
  constructor <;> omega

/-- A word reads the same where its bytes are the same. --/
theorem readU16_of_agreeOn {K : Nat → Prop} (h : m.InRam .whp gpa 2) (hram : AgreeOn K m.ram m'.ram)
    (hK : ∀ i, Touches .whp gpa 2 i → K i) : readU16 m' gpa = readU16 m gpa := by
  have h' : m'.InRam .whp gpa 2 := (GuestMemory.inRam_congr hram.size).mpr h
  rw [readU16, readU16, ptrOrNull_of_inRam h, ptrOrNull_of_inRam h']
  exact hram.readU16 fun i hi => hK i (h.touches_iff.mp hi)

/-- What `publishUsed` leaves alone. --/
theorem agreeOn_published (h : VirtioNet.UsedInRam q m) {len : UInt32} :
    AgreeOn (fun i => ¬Touches .whp q.usedIdx 2 i ∧ ¬Touches .whp q.usedElem 8 i) m.ram
      (VirtioNet.published q head len m).ram := by
  rw [VirtioNet.published_of_inRam h]
  have hsub : ∀ off i, q.usedElem.toNat ≤ off → off ≤ q.usedElem.toNat + 4 → Within off 4 i → Touches .whp q.usedElem 8 i := by
    intro off i h1 h2 hi
    refine h.elem.touches_iff.mp ?_
    show Within (q.usedElem.toNat - 0) 8 i
    unfold Within at hi ⊢
    omega
  refine ((AgreeOn.writeU32 fun i hi hK => hK.2 (hsub _ i ?_ ?_ hi)).trans
    (AgreeOn.writeU32 fun i hi hK => hK.2 (hsub _ i ?_ ?_ hi))).trans
    (AgreeOn.writeU16 fun i hi hK => hK.1 (h.index.touches_iff.mp hi))
  · exact Nat.le_refl _
  · exact Nat.le_add_right _ _
  · exact Nat.le_add_right _ _
  · exact Nat.le_refl _

end

namespace NetTx

/-- The chain of a head. --/
def chain (head : UInt16) (s : NetTx) : Walk := walk s.mem s.tx.num s.tx.descAddr s.tx.num head

/-- The frame of a chain without its header; there is none when the chain holds no more than that. --/
def frame (s : NetTx) (ds : List Desc) : List Packet :=
  if capacity ds ≤ s.regs.hdrLen then [] else [(contents .whp s.mem ds).drop s.regs.hdrLen]

/-- What the network has to get for a head: the frame of its chain, and nothing for an invalid one. --/
def handed (head : UInt16) (s : NetTx) : List Packet :=
  if (s.chain head).Valid s.mem then s.frame (s.chain head).descs else []

/-- The next head is taken and comes back at the next used element, and the network gets its frame. --/
structure Sends (s t : NetTx) : Prop where
  queue : t.tx = { s.tx with lastAvailIdx := s.tx.lastAvailIdx + 1, lastUsedIdx := s.tx.lastUsedIdx + 1 }
  visible : VirtioNet.Visible s.tx s.availHead 0 t.mem
  others : AgreeOn (fun i => ¬Touches .whp s.tx.usedIdx 2 i ∧ ¬Touches .whp s.tx.usedElem 8 i) s.mem.ram t.mem.ram
  sent : t.sent = s.sent ++ s.handed s.availHead

/-- The head is a descriptor, and its chain is valid or holds no more than a header in front of what is left out. --/
def Fits (s : NetTx) : Prop :=
  s.availHead.toNat < s.tx.num ∧
    ((s.chain s.availHead).Valid s.mem ∨ capacity ((s.chain s.availHead).readable s.mem) ≤ s.regs.hdrLen)

section
variable {s t : NetTx} {q : Queue} {head : UInt16}

@[simp] theorem tx_setTx : (s.setTx q).tx = q := by simp [tx, setTx]

@[simp] theorem mem_setTx : (s.setTx q).mem = s.mem := rfl

@[simp] theorem hdrLen_setTx : (s.setTx q).regs.hdrLen = s.regs.hdrLen := rfl

@[simp] theorem sent_setTx : (s.setTx q).sent = s.sent := rfl

/-! ### One pass -/

theorem length_collect : (s.collect head).packet.length = capacity ((s.chain head).readable s.mem) := by
  rw [collect, collectFrom_packet, length_contents]
  rfl

/-- What a pass hands over: what may be read of the chain, without a header. --/
theorem inputPacket_collect (head : UInt16) (u : NetTx) (hregs : u.regs.hdrLen = s.regs.hdrLen) :
    (inputPacket (s.collect head).packet u).sent = u.sent ++ s.frame ((s.chain head).readable s.mem) := by
  unfold inputPacket frame
  rw [hregs, length_collect]
  by_cases hlen : capacity ((s.chain head).readable s.mem) ≤ s.regs.hdrLen
  · rw [if_pos hlen, if_neg (Nat.not_lt.mpr hlen), List.append_nil]
  · rw [if_neg hlen, if_pos (Nat.lt_of_not_le hlen), collect, collectFrom_packet]
    rfl

theorem inputPacket_keeps (packet : Packet) (u : NetTx) : (inputPacket packet u).mem = u.mem ∧
    (inputPacket packet u).regs = u.regs := by
  unfold inputPacket
  split <;> exact ⟨rfl, rfl⟩

/-- A pass over a head that is a descriptor. --/
theorem round_of_head (husable : s.tx.usable = true) (hhead : s.availHead.toNat < s.tx.num) : s.round.1 = true ∧
    s.round.2.tx = { s.tx with lastAvailIdx := s.tx.lastAvailIdx + 1, lastUsedIdx := s.tx.lastUsedIdx + 1 } ∧
    s.round.2.mem = VirtioNet.published s.tx s.availHead 0 s.mem ∧
    s.round.2.sent = s.sent ++ s.frame ((s.chain s.availHead).readable s.mem) := by
  have hsent := inputPacket_collect (s := s) s.availHead s.bumpLastAvail rfl
  obtain ⟨hmem, hregs⟩ := inputPacket_keeps (s.collect s.availHead).packet s.bumpLastAvail
  unfold round
  rw [if_pos hhead]
  generalize inputPacket (s.collect s.availHead).packet s.bumpLastAvail = u at hsent hmem hregs
  have htx : u.tx = { s.tx with lastAvailIdx := s.tx.lastAvailIdx + 1 } := by
    rw [tx, hregs]
    exact tx_setTx
  have hpub : u.tx.publishable = true := by
    rw [htx]
    simp only [Queue.usable, Bool.and_eq_true] at husable
    simp only [Queue.publishable, Bool.and_eq_true]
    exact ⟨⟨husable.1.1.1.1, husable.1.1.1.2⟩, husable.2⟩
  unfold publishUsed
  rw [if_pos hpub]
  refine ⟨rfl, ?_, ?_, hsent⟩
  · show (u.setTx _).tx = _
    rw [tx_setTx, htx]
  · rw [htx, hmem]
    rfl

theorem handed_of_small (hsmall : capacity ((s.chain head).readable s.mem) ≤ s.regs.hdrLen) :
    s.handed head = s.frame ((s.chain head).readable s.mem) := by
  unfold handed
  split
  · next hvalid => rw [hvalid.readable_eq]
  · exact (if_pos hsmall).symm

/-- A pass does what it should exactly when the head and its chain fit. --/
theorem sends_iff (husable : s.tx.usable = true) (hnum : 0 < s.tx.num) (hfit : RingsIn s.tx s.mem) :
    Sends s s.round.2 ↔ s.Fits := by
  by_cases hhead : s.availHead.toNat < s.tx.num
  · obtain ⟨-, htx, hmem, hsent⟩ := round_of_head husable hhead
    constructor
    · intro h
      refine ⟨hhead, ?_⟩
      by_cases hvalid : (s.chain s.availHead).Valid s.mem
      · exact Or.inl hvalid
      · have hframe := List.append_cancel_left (hsent.symm.trans h.sent)
        rw [handed, if_neg hvalid, frame] at hframe
        refine Or.inr ?_
        by_contra hlong
        rw [if_neg hlong] at hframe
        cases hframe
    · intro h
      refine ⟨htx, ?_, ?_, ?_⟩
      · rw [hmem]
        exact VirtioNet.visible_published (Nat.pos_iff_ne_zero.mp hnum) (hfit.usedInRam hnum)
      · rw [hmem]
        exact agreeOn_published (hfit.usedInRam hnum)
      · rw [hsent]
        rcases h.2 with hvalid | hsmall
        · rw [handed, if_pos hvalid, hvalid.readable_eq]
        · rw [handed_of_small hsmall]
  · have hround : s.round.2 = s.bumpLastAvail := by
      unfold round
      rw [if_neg hhead]
    constructor
    · intro h
      have hqueue := h.queue
      rw [hround, bumpLastAvail, tx_setTx] at hqueue
      have hused : s.tx.lastUsedIdx = s.tx.lastUsedIdx + 1 := congrArg Queue.lastUsedIdx hqueue
      simp at hused
    · intro h
      exact absurd h.1 hhead

end

/-! ### One notify -/

/-- What a pass makes of the state, if the queue is usable. --/
def pass (s : NetTx) : NetTx := if s.tx.usable then s.round.2 else s

/-- The state in which pass `j` starts, counted from 0. --/
def roundState (s : NetTx) : Nat → NetTx
  | 0 => s
  | j + 1 => (roundState s j).pass

/-- The number of heads between `last_avail_idx` and the avail index, modulo 2^16. --/
def pending (s : NetTx) : Nat := (s.availIdx - s.tx.lastAvailIdx).toNat

/-- The head number `j` that is pending, counted from 0. --/
def headAt (s : NetTx) (j : Nat) : UInt16 :=
  readU16 s.mem (s.tx.driverAddr + 4 + UInt64.ofNat ((s.tx.lastAvailIdx + UInt16.ofNat j).toNat % s.tx.num) * 2)

/-- The element of the used ring at `position`. --/
def usedAt (s : NetTx) (position : UInt16) : UInt64 :=
  s.tx.deviceAddr + 4 + UInt64.ofNat (position.toNat % s.tx.num) * 8

/-- The state at the end, with an interrupt if there was a head. --/
def finished (s : NetTx) : NetTx :=
  if pending s = 0 then s else (roundState s (pending s)).raiseUsedBufferIrq

/-- A notify returns after one pass for each pending head. Pass `j` takes the head number `j`, gives it back and hands
    its frame over; the last used elements, as many as the ring has, are there at the end. --/
structure Transmits (s : NetTx) : Prop where
  returns : ∃ passes, ∀ fuel ≥ passes, processTxQueue fuel s = some (finished s)
  sends : ∀ j < pending s, Sends (roundState s j) (roundState s (j + 1))
  heads : ∀ j < pending s, (roundState s j).availHead = headAt s j
  queue : (roundState s (pending s)).tx = { s.tx with
    lastAvailIdx := s.availIdx, lastUsedIdx := s.tx.lastUsedIdx + UInt16.ofNat (pending s) }
  visible : ∀ j < pending s, pending s ≤ j + s.tx.num →
    (roundState s (pending s)).mem.ram.readU32 (usedAt s (s.tx.lastUsedIdx + UInt16.ofNat j)).toNat = (headAt s j).toUInt32 ∧
      (roundState s (pending s)).mem.ram.readU32 ((usedAt s (s.tx.lastUsedIdx + UInt16.ofNat j)).toNat + 4) = 0

/-- The rings are where `process_tx_queue` looks for them. --/
def Placed (q : Queue) : Prop := q.driverAddr ≠ 0 ∧ q.descAddr ≠ 0 ∧ q.deviceAddr ≠ 0

section
variable {s t : NetTx} {n j : Nat}

theorem usable_iff (hready : s.tx.ready = true) (hnum : 0 < s.tx.num) : s.tx.usable = true ↔ Placed s.tx := by
  simp [Queue.usable, Placed, hready, Nat.pos_iff_ne_zero.mp hnum, and_assoc]

theorem pass_of_usable (h : s.tx.usable = true) : s.pass = s.round.2 := if_pos h

theorem roundState_succ (s : NetTx) : ∀ j, roundState s (j + 1) = roundState s.pass j
  | 0 => rfl
  | j + 1 => congrArg pass (roundState_succ s j)

/-- What the passes leave in order: the registers of the queue, but its indices, the avail ring, and the size. --/
structure Moved (s : NetTx) (j : Nat) (t : NetTx) : Prop where
  queue : t.tx = { s.tx with
    lastAvailIdx := s.tx.lastAvailIdx + UInt16.ofNat j, lastUsedIdx := s.tx.lastUsedIdx + UInt16.ofNat j }
  avail : AgreeOn (Touches .whp s.tx.driverAddr (4 + 2 * s.tx.num)) s.mem.ram t.mem.ram

theorem Moved.refl (s : NetTx) : Moved s 0 s := by
  refine ⟨?_, AgreeOn.refl _ _⟩
  show s.tx = { s.tx with lastAvailIdx := s.tx.lastAvailIdx + 0, lastUsedIdx := s.tx.lastUsedIdx + 0 }
  rw [UInt16.add_zero, UInt16.add_zero]

theorem Moved.ringsIn (h : Moved s j t) (hfit : RingsIn s.tx s.mem) : RingsIn t.tx t.mem := by
  obtain ⟨h1, h2, h3⟩ := hfit.congr h.avail.size
  rw [h.queue]
  exact ⟨h1, h2, h3⟩

theorem Moved.usable (h : Moved s j t) : t.tx.usable = s.tx.usable := by
  rw [h.queue]
  rfl

theorem Moved.hnum (h : Moved s j t) : t.tx.num = s.tx.num := by rw [h.queue]

theorem Moved.availIdx (h : Moved s j t) (hfit : RingsIn s.tx s.mem) : t.availIdx = s.availIdx := by
  have hin : s.mem.InRam .whp (s.tx.driverAddr + 2) 2 := hfit.driver.add (by decide) (by show 2 + 2 ≤ 4 + 2 * s.tx.num; omega)
  unfold NetTx.availIdx
  rw [h.queue]
  exact readU16_of_agreeOn hin h.avail fun i hi =>
    touches_of_add hfit.driver (by decide) (by show 2 + 2 ≤ 4 + 2 * s.tx.num; omega) hi

theorem Moved.availHead (h : Moved s j t) (hfit : RingsIn s.tx s.mem) (hnum : 0 < s.tx.num) : t.availHead = headAt s j := by
  have hlt := Nat.mod_lt (s.tx.lastAvailIdx + UInt16.ofNat j).toNat hnum
  have hle : s.tx.num ≤ 256 := s.tx.num_le
  have hk : (4 + UInt64.ofNat ((s.tx.lastAvailIdx + UInt16.ofNat j).toNat % s.tx.num) * 2).toNat =
      4 + 2 * ((s.tx.lastAvailIdx + UInt16.ofNat j).toNat % s.tx.num) := by
    simp only [UInt64.toNat_add, UInt64.toNat_mul, UInt64.toNat_ofNat', UInt64.reduceToNat]
    omega
  have hin := hfit.driver.add (k := 4 + UInt64.ofNat ((s.tx.lastAvailIdx + UInt16.ofNat j).toNat % s.tx.num) * 2) (n := 2)
    (by omega) (by omega)
  have hsame := readU16_of_agreeOn hin h.avail fun i hi => touches_of_add hfit.driver (by omega) (by omega) hi
  rw [← UInt64.add_assoc] at hsame
  unfold NetTx.availHead
  rw [h.queue]
  exact hsame

/-- One more pass. --/
theorem Moved.sends {u : NetTx} (h : Moved s j t) (hsends : Sends t u) (hfit : RingsIn s.tx s.mem) (hnum : 0 < s.tx.num)
    (hapart : RingsApart s.tx) : Moved s (j + 1) u := by
  refine ⟨?_, h.avail.trans (hsends.others.mono fun i hi => ⟨?_, ?_⟩)⟩
  · rw [hsends.queue, h.queue, Words.add_ofNat_succ, Words.add_ofNat_succ]
  · rw [h.queue]
    intro hidx
    exact hapart i (GuestMemory.touches_of_inUsedIdx (q := s.tx.view hnum) hfit.device hidx) hi
  · rw [h.queue]
    intro helem
    have helem : GuestMemory.InUsedElem .whp (s.tx.view hnum) (s.tx.lastUsedIdx + UInt16.ofNat j) i := helem
    exact hapart i (GuestMemory.touches_of_inUsedElem (q := s.tx.view hnum) hfit.device helem) hi

theorem moved_of_sends (hfit : RingsIn s.tx s.mem) (hnum : 0 < s.tx.num) (hapart : RingsApart s.tx)
    (h : ∀ j < n, Sends (roundState s j) (roundState s (j + 1))) : ∀ j ≤ n, Moved s j (roundState s j)
  | 0, _ => Moved.refl s
  | j + 1, hj => (moved_of_sends hfit hnum hapart h j (Nat.le_of_succ_le hj)).sends (h j hj) hfit hnum hapart

/-- The passes with a head to take, until there is none. --/
theorem processFrom_run : ∀ (n fuel : Nat) {s : NetTx} (processed : Bool), n < fuel →
    (∀ j ≤ n, (roundState s j).tx.usable = true ∧
      ((roundState s j).availIdx - (roundState s j).tx.lastAvailIdx).toNat = n - j) →
    (∀ j < n, (roundState s j).round.1 = true) →
    processFrom fuel processed s =
      some (if processed || n != 0 then (roundState s n).raiseUsedBufferIrq else roundState s n)
  | n, 0, _, _, hfuel, _, _ => absurd hfuel (Nat.not_lt_zero n)
  | 0, fuel + 1, s, processed, _, hlive, _ => by
    obtain ⟨husable, hleft⟩ := hlive 0 (Nat.le_refl 0)
    have husable : s.tx.usable = true := husable
    have heq : s.tx.lastAvailIdx = s.availIdx := Words.eq_of_sub_eq_zero hleft
    have hor : (processed || (0 != 0)) = processed := Bool.or_false processed
    rw [processFrom, husable, if_neg (by simp), if_pos heq, hor]
    rfl
  | n + 1, fuel + 1, s, processed, hfuel, hlive, hpub => by
    obtain ⟨husable, hleft⟩ := hlive 0 (Nat.zero_le _)
    have husable : s.tx.usable = true := husable
    have hleft : (s.availIdx - s.tx.lastAvailIdx).toNat = n + 1 := hleft
    have hne : ¬s.tx.lastAvailIdx = s.availIdx := by
      intro heq
      rw [heq, UInt16.sub_self] at hleft
      cases hleft
    have hpass : s.round.2 = s.pass := (pass_of_usable husable).symm
    have hfirst : s.round.1 = true := hpub 0 (Nat.succ_pos n)
    have hrest := processFrom_run n fuel (s := s.pass) true (Nat.lt_of_succ_lt_succ hfuel)
      (fun j hj => by
        rw [← roundState_succ]
        have hj' := hlive (j + 1) (Nat.succ_le_succ hj)
        rwa [Nat.succ_sub_succ] at hj')
      (fun j hj => by
        rw [← roundState_succ]
        exact hpub (j + 1) (Nat.succ_lt_succ hj))
    have hor : (processed || (n + 1 != 0)) = (true || (n != 0)) := by simp
    rw [processFrom, husable, if_neg (by simp), if_neg hne, hpass, hfirst, Bool.or_true, hrest, hor, roundState_succ]

/-- An element stays until the ring comes round. --/
theorem element_kept (hfit : RingsIn s.tx s.mem) (hnum : 0 < s.tx.num) (hdvd : s.tx.num ∣ 2 ^ 16) (hapart : RingsApart s.tx)
    (h : ∀ j < n, Sends (roundState s j) (roundState s (j + 1))) (hn : n ≤ j + s.tx.num) : ∀ k, j + 1 ≤ k → k ≤ n →
    AgreeOn (GuestMemory.InUsedElem .whp (s.tx.view hnum) (s.tx.lastUsedIdx + UInt16.ofNat j)) (roundState s (j + 1)).mem.ram
      (roundState s k).mem.ram := by
  intro k hjk
  induction hjk with
  | refl => exact fun _ => AgreeOn.refl _ _
  | @step k hjk ih =>
    intro hk
    have hlt : j < k := hjk
    have hmoved := moved_of_sends hfit hnum hapart h k (Nat.le_of_succ_le hk)
    refine (ih (Nat.le_of_succ_le hk)).trans ((h k hk).others.mono fun i hi => ⟨?_, ?_⟩)
    · rw [hmoved.queue]
      exact GuestMemory.usedElem_apart_idx (q := s.tx.view hnum) hfit.device hi
    · rw [hmoved.queue]
      show ¬GuestMemory.InUsedElem .whp (s.tx.view hnum) (s.tx.lastUsedIdx + UInt16.ofNat k) i
      exact GuestMemory.usedElem_apart hfit.device (Words.slot_ne hdvd hlt (Nat.lt_of_lt_of_le hk hn)) hi

/-- Passes whose heads and chains fit do what they should. --/
theorem sends_of_fits (husable : s.tx.usable = true) (hnum : 0 < s.tx.num) (hfit : RingsIn s.tx s.mem)
    (hapart : RingsApart s.tx) (hfits : ∀ j < n, (roundState s j).Fits) :
    ∀ j ≤ n, ∀ i < j, Sends (roundState s i) (roundState s (i + 1))
  | 0, _, i, hi => absurd hi (Nat.not_lt_zero i)
  | j + 1, hj, i, hi => by
    have hbefore := sends_of_fits husable hnum hfit hapart hfits j (Nat.le_of_succ_le hj)
    rcases Nat.lt_succ_iff_lt_or_eq.mp hi with hlt | rfl
    · exact hbefore i hlt
    · have hmoved := moved_of_sends hfit hnum hapart hbefore i (Nat.le_refl i)
      have husable' : (roundState s i).tx.usable = true := hmoved.usable.trans husable
      have hpass : roundState s (i + 1) = (roundState s i).round.2 := pass_of_usable husable'
      rw [hpass]
      exact (sends_iff husable' (hmoved.hnum ▸ hnum) (hmoved.ringsIn hfit)).mpr (hfits i hj)

/-- Without a usable queue nothing is sent. --/
theorem usable_of_sends (h : Sends s s.pass) : s.tx.usable = true := by
  by_contra hnot
  have hpass : s.pass = s := if_neg hnot
  have hqueue := h.queue
  rw [hpass] at hqueue
  have hused : s.tx.lastUsedIdx = s.tx.lastUsedIdx + 1 := congrArg Queue.lastUsedIdx hqueue
  simp at hused

theorem returns_of_sends (hattached : s.attached = true) (hready : s.tx.ready = true) (hnum : 0 < s.tx.num)
    (hfit : RingsIn s.tx s.mem) (hapart : RingsApart s.tx) (hplaced : pending s = 0 ∨ Placed s.tx)
    (h : ∀ j < pending s, Sends (roundState s j) (roundState s (j + 1))) :
    ∃ passes, ∀ fuel ≥ passes, processTxQueue fuel s = some (finished s) := by
  refine ⟨pending s + 1, fun fuel hfuel => ?_⟩
  rw [processTxQueue, if_pos hattached]
  by_cases husable : s.tx.usable = true
  · have hmoved := moved_of_sends hfit hnum hapart h
    have hrun := processFrom_run (pending s) fuel (s := s) false hfuel
      (fun j hj => by
        refine ⟨(hmoved j hj).usable.trans husable, ?_⟩
        rw [(hmoved j hj).availIdx hfit, (hmoved j hj).queue]
        exact Words.sub_add_ofNat hj)
      (fun j hj => by
        have hmoved := hmoved j (Nat.le_of_lt hj)
        have husable' : (roundState s j).tx.usable = true := hmoved.usable.trans husable
        have hnum' : 0 < (roundState s j).tx.num := hmoved.hnum ▸ hnum
        have hpass : roundState s (j + 1) = (roundState s j).round.2 := pass_of_usable husable'
        have hfits := (sends_iff husable' hnum' (hmoved.ringsIn hfit)).mp (hpass ▸ h j hj)
        exact (round_of_head husable' hfits.1).1)
    rw [hrun, finished]
    by_cases hnone : pending s = 0
    · rw [if_pos hnone, hnone]
      rfl
    · rw [if_neg hnone, if_pos (by simpa using hnone)]
  · have hnone : pending s = 0 := hplaced.resolve_right fun hp => husable ((usable_iff hready hnum).mpr hp)
    obtain ⟨rest, rfl⟩ := Nat.exists_eq_add_of_le' (Nat.le_trans (Nat.le_add_left 1 _) hfuel)
    rw [finished, if_pos hnone, processFrom, if_pos (by simpa using husable)]

/-- The network gets what it should for every pending head, and the guest every head back, exactly when no part of the
    queue is at the address 0, every head is a descriptor, and every chain is valid or goes no further than a header. --/
theorem transmits_iff (s : NetTx) (hattached : s.attached = true) (hready : s.tx.ready = true)
    (hpow : s.tx.num.isPowerOfTwo) (hfit : RingsIn s.tx s.mem) (hapart : RingsApart s.tx) :
    Transmits s ↔ (pending s = 0 ∨ Placed s.tx) ∧ ∀ j < pending s, (roundState s j).Fits := by
  have hnum : 0 < s.tx.num := Nat.pos_of_isPowerOfTwo hpow
  constructor
  · intro h
    by_cases hnone : pending s = 0
    · exact ⟨Or.inl hnone, fun j hj => absurd hj (by omega)⟩
    · have husable := usable_of_sends (h.sends 0 (Nat.pos_of_ne_zero hnone))
      have husable : s.tx.usable = true := husable
      refine ⟨Or.inr ((usable_iff hready hnum).mp husable), fun j hj => ?_⟩
      have hmoved := moved_of_sends hfit hnum hapart h.sends j (Nat.le_of_lt hj)
      have husable' : (roundState s j).tx.usable = true := hmoved.usable.trans husable
      have hpass : roundState s (j + 1) = (roundState s j).round.2 := pass_of_usable husable'
      exact (sends_iff husable' (hmoved.hnum ▸ hnum) (hmoved.ringsIn hfit)).mp (hpass ▸ h.sends j hj)
  · intro ⟨hplaced, hfits⟩
    have hsends : ∀ j < pending s, Sends (roundState s j) (roundState s (j + 1)) := by
      intro j hj
      have husable := (usable_iff hready hnum).mpr (hplaced.resolve_left (by omega))
      exact sends_of_fits husable hnum hfit hapart hfits (pending s) (Nat.le_refl _) j hj
    have hmoved := moved_of_sends hfit hnum hapart hsends
    refine ⟨returns_of_sends hattached hready hnum hfit hapart hplaced hsends, hsends,
      fun j hj => (hmoved j (Nat.le_of_lt hj)).availHead hfit hnum, ?_, fun j hj hn => ?_⟩
    · rw [(hmoved _ (Nat.le_refl _)).queue]
      have hlast : s.tx.lastAvailIdx + UInt16.ofNat (pending s) = s.availIdx := by
        rw [pending, UInt16.ofNat_toNat, Words.add_sub_self]
      rw [hlast]
    · have hdvd := Words.dvd_of_isPowerOfTwo hpow (Nat.le_trans s.tx.num_le (by decide))
      have hkept := element_kept hfit hnum hdvd hapart hsends hn (pending s) hj (Nat.le_refl _)
      have hdevice := (hfit.congr (hmoved (j + 1) hj).avail.size).device
      obtain ⟨hid, hlen⟩ := GuestMemory.usedElem_congr (q := s.tx.view hnum) hdevice hkept
      have hvisible := (hsends j hj).visible
      rw [(hmoved j (Nat.le_of_lt hj)).availHead hfit hnum, (hmoved j (Nat.le_of_lt hj)).queue] at hvisible
      exact ⟨hid.trans hvisible.id, hlen.trans hvisible.len⟩

end

/-! ### The registers -/

section
variable {s t : NetTx}

theorem work_tx (q : Queue) (hq : ∃ avail used, q = { s.tx with lastAvailIdx := avail, lastUsedIdx := used }) :
    ∃ avail used, (s.setTx q).regs = s.regs.work 1 avail used false := by
  obtain ⟨avail, used, rfl⟩ := hq
  exact ⟨avail, used, rfl⟩

/-- A pass is `work` on the TX queue, as far as the registers go. --/
theorem round_work (s : NetTx) : ∃ avail used, s.round.2.regs = s.regs.work 1 avail used false := by
  have hbump : ∃ avail used, s.bumpLastAvail.regs = s.regs.work 1 avail used false := work_tx _ ⟨_, _, rfl⟩
  unfold round
  split
  · obtain ⟨-, hregs⟩ := inputPacket_keeps (s.collect s.availHead).packet s.bumpLastAvail
    generalize inputPacket (s.collect s.availHead).packet s.bumpLastAvail = u at hregs
    unfold publishUsed
    split
    · refine ⟨s.tx.lastAvailIdx + 1, s.tx.lastUsedIdx + 1, ?_⟩
      have htx : u.tx = { s.tx with lastAvailIdx := s.tx.lastAvailIdx + 1 } := by
        rw [tx, hregs]
        exact tx_setTx
      show (u.setTx { u.tx with lastUsedIdx := u.tx.lastUsedIdx + 1 }).regs = _
      rw [setTx, htx, hregs]
      simp [bumpLastAvail, setTx, NetRegs.work, tx]
    · rw [hregs]
      exact hbump
  · exact hbump

theorem work_work (r : NetRegs) (i : Fin 2) (a b c d : UInt16) (raised : Bool) :
    (r.work i a b false).work i c d raised = r.work i c d raised := by
  simp [NetRegs.work]

/-- What `process_tx_queue` does to the registers is `work` on the TX queue. --/
theorem processFrom_work : ∀ {fuel : Nat} {processed : Bool} {s : NetTx}, processFrom fuel processed s = some t →
    ∃ avail used raised, t.regs = s.regs.work 1 avail used raised
  | 0, _, _, h => nomatch h
  | fuel + 1, processed, s, h => by
    have hstill : s.regs = s.regs.work 1 s.tx.lastAvailIdx s.tx.lastUsedIdx false := by
      have hqueue : s.regs.queues = Function.update s.regs.queues 1 (s.regs.queues 1) := (Function.update_eq_self 1 _).symm
      simp only [NetRegs.work, tx, Bool.false_eq_true, if_false]
      rw [← hqueue]
    unfold processFrom at h
    split at h
    · cases h
      exact ⟨_, _, false, hstill⟩
    · split at h
      · cases h
        split
        · unfold raiseUsedBufferIrq
          split
          · exact ⟨_, _, false, hstill⟩
          · split
            · exact ⟨_, _, false, hstill⟩
            · refine ⟨s.tx.lastAvailIdx, s.tx.lastUsedIdx, true, ?_⟩
              conv => lhs; rw [hstill]
              rfl
        · exact ⟨_, _, false, hstill⟩
      · obtain ⟨avail, used, raised, hrest⟩ := processFrom_work h
        obtain ⟨avail', used', hround⟩ := round_work s
        rw [hround, work_work] at hrest
        exact ⟨avail, used, raised, hrest⟩

end

/-! ### A chain of three buffers -/

/-- One pending head: 16, 4 and 4 bytes at 0x400, 0x500 and 0x600; the flags are those of the second descriptor. The
    table is at 0x100, the avail ring at 0x200 and the used ring at 0x300. --/
def threeBuffers (flags : UInt8) (i : Nat) : UInt8 :=
  if i = 0x101 then 4 else if i = 0x108 then 16 else if i = 0x10C ∨ i = 0x10E then 1
  else if i = 0x111 then 5 else if i = 0x118 then 4 else if i = 0x11C then flags else if i = 0x11E then 2
  else if i = 0x121 then 6 else if i = 0x128 then 4
  else if i = 0x202 then 1 else 0

def threeSegments (flags : UInt8) : NetTx where
  mem := ⟨⟨2048, threeBuffers flags⟩, by show 2048 < 2 ^ 52; decide⟩
  regs := { NetRegs.powerOn with queues := fun _ =>
    { VirtioNet.sampleQueue with descAddr := 0x100, driverAddr := 0x200, deviceAddr := 0x300 } }
  irqRequests := 0
  attached := true
  sent := []

instance (s : NetTx) : Decidable s.Fits := inferInstanceAs (Decidable (_ ∧ (_ ∨ _)))

theorem ringsApart_threeSegments (flags : UInt8) : RingsApart (threeSegments flags).tx := by
  intro i hi hdriver
  have h1 : 0x300 ≤ 0 + i := hi.1
  have h2 : 0 + i < 0x200 + 12 := hdriver.2
  omega

theorem transmits_three : Transmits (threeSegments 1) :=
  (transmits_iff (threeSegments 1) rfl rfl ⟨2, rfl⟩ ⟨by decide, by decide, by decide⟩ (ringsApart_threeSegments 1)).mpr
    ⟨Or.inr ⟨by decide, by decide, by decide⟩, fun j hj => by
      have hone : pending (threeSegments 1) = 1 := by decide
      have hzero : j = 0 := by omega
      subst hzero
      exact (by decide : (threeSegments 1).Fits)⟩

/-- The second buffer is writable: the network gets a frame without it. --/
theorem middle_left_out : ¬Transmits (threeSegments 3) ∧
    ((roundState (threeSegments 3) 1).sent.map List.length) = [8] := by
  refine ⟨fun h => ?_, by decide⟩
  have hsends := h.sends 0 (by decide)
  have husable : (threeSegments 3).tx.usable = true := by decide
  have hpass : roundState (threeSegments 3) 1 = (threeSegments 3).round.2 := pass_of_usable husable
  rw [hpass] at hsends
  have hfits := (sends_iff husable (by decide) ⟨by decide, by decide, by decide⟩).mp hsends
  exact absurd hfits (by decide)

end NetTx
end NodeVmm.Whp
