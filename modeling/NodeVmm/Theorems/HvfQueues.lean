import NodeVmm.HvfNet
import NodeVmm.Lib.Runs
import NodeVmm.Theorems.NetFrame

/-! Ready queues on HVF. `ValidVirtQueue` is asked once, when the guest sets the ready flag; as long as no write gives a
    ready queue a size or an address that it would refuse, every ready queue stays well formed, and no access to its
    rings can throw. -/

namespace NodeVmm.Hvf
open ByteStore

/-! ### Well-formed queues -/

/-- What `ValidVirtQueue` checks. --/
structure WellFormed (m : GuestMemory) (q : Queue) : Prop where
  size : ∃ k, q.size = 2 ^ k
  size_le : q.size ≤ Backend.maxQueueSize
  aligned : q.descAddr % 16 = 0 ∧ q.driverAddr % 2 = 0 ∧ q.deviceAddr % 4 = 0
  desc : m.InRam .hvf q.descAddr (16 * q.size)
  driver : m.InRam .hvf q.driverAddr (6 + 2 * q.size)
  device : m.InRam .hvf q.deviceAddr (6 + 8 * q.size)

/-- No access to the rings throws. --/
structure RingsAnswer (m : GuestMemory) (q : Queue) : Prop where
  availIdx : ∃ p, m.ptr .hvf q.availIdxAddr 2 = .ok p
  availEntry : ∀ position, ∃ p, m.ptr .hvf (q.availEntry position) 2 = .ok p
  readDesc : ∀ idx, idx.toNat < q.size → ∃ d, m.readDesc .hvf q idx = .ok d
  pushUsed : ∀ id written, (GuestMemory.pushUsed .hvf q id written m).1 = .ok ()

section
variable {m m' : GuestMemory} {q q' : Queue} {gpa : UInt64} {len : Nat}

theorem isPowerOfTwo_iff : ∀ n ≤ Backend.maxQueueSize, isPowerOfTwo n = true ↔ ∃ k ≤ 8, n = 2 ^ k := by decide +kernel

theorem containsGuestRange_iff : containsGuestRange m gpa len = true ↔ m.InRam .hvf gpa len := by
  unfold containsGuestRange GuestMemory.InRam
  simp only [Bool.and_eq_true, decide_eq_true_eq]
  omega

theorem validVirtQueue_iff : validVirtQueue m q = true ↔ WellFormed m q := by
  have hmod : ∀ x y : UInt64, (x % y == 0) = true ↔ x % y = 0 := fun _ _ => beq_iff_eq
  unfold validVirtQueue
  simp only [Bool.and_eq_true, decide_eq_true_eq, containsGuestRange_iff, hmod]
  constructor
  · rintro ⟨⟨⟨⟨⟨hpow, hle⟩, ⟨h16, h2⟩, h4⟩, hdesc⟩, hdriver⟩, hdevice⟩
    obtain ⟨k, -, hk⟩ := (isPowerOfTwo_iff q.size hle).mp hpow
    exact ⟨⟨k, hk⟩, hle, ⟨h16, h2, h4⟩, by rwa [Nat.mul_comm], by rwa [Nat.mul_comm], by rwa [Nat.mul_comm]⟩
  · rintro ⟨⟨k, hk⟩, hle, ⟨h16, h2, h4⟩, hdesc, hdriver, hdevice⟩
    have hk8 : k ≤ 8 := by
      by_contra hgt
      have hbig : 2 ^ 9 ≤ 2 ^ k := Nat.pow_le_pow_right (by decide) (by omega)
      have : q.size ≤ 256 := hle
      omega
    exact ⟨⟨⟨⟨⟨(isPowerOfTwo_iff q.size hle).mpr ⟨k, hk8, hk⟩, hle⟩, ⟨h16, h2⟩, h4⟩, by rwa [Nat.mul_comm]⟩,
      by rwa [Nat.mul_comm]⟩, by rwa [Nat.mul_comm]⟩

theorem WellFormed.ringsFit (h : WellFormed m q) : RingsFit .hvf m q :=
  ⟨h.desc, ⟨h.driver.1, by have := h.driver.2; omega⟩, ⟨h.device.1, by have := h.device.2; omega⟩⟩

theorem ringsAnswer_of_ringsFit (h : RingsFit .hvf m q) : RingsAnswer m q := by
  refine ⟨⟨_, GuestMemory.ptr_of_inRam h.availIdx_inRam⟩, fun p => ⟨_, GuestMemory.ptr_of_inRam (h.availEntry_inRam p)⟩,
    fun idx hidx => ?_, fun id written => by rw [GuestMemory.pushUsed_of_canPublish h.canPublish]⟩
  have hk : (idx.toUInt64 * 16).toNat = 16 * idx.toNat := by
    have := idx.toNat_lt
    simp only [UInt64.toNat_mul, UInt16.toNat_toUInt64, UInt64.reduceToNat]
    omega
  have hentry : m.InRam .hvf (q.descEntry idx) 16 := h.desc.add (by have := idx.toNat_lt; omega) (by omega)
  unfold GuestMemory.readDesc
  rw [if_neg (not_not.mpr hidx), GuestMemory.ptr_of_inRam hentry]
  exact ⟨_, rfl⟩

/-- The queue is where it was; only its position has moved. --/
def SameRings (q q' : Queue) : Prop := q' = { q with lastAvail := q'.lastAvail }

theorem SameRings.refl (q : Queue) : SameRings q q := rfl

theorem SameRings.trans {q₁ q₂ q₃ : Queue} (h : SameRings q₁ q₂) (h' : SameRings q₂ q₃) : SameRings q₁ q₃ := by
  unfold SameRings at *
  rw [h', h]

theorem SameRings.ready (h : SameRings q q') : q'.ready = q.ready := by
  rw [h]

theorem WellFormed.congr (h : WellFormed m q) (hq : SameRings q q') (hm : m'.size = m.size) : WellFormed m' q' := by
  rw [hq]
  exact ⟨h.size, h.size_le, h.aligned, (GuestMemory.inRam_congr hm).mpr h.desc, (GuestMemory.inRam_congr hm).mpr h.driver,
    (GuestMemory.inRam_congr hm).mpr h.device⟩

end

/-! ### Registers -/

/-- Every ready queue of the device is well formed. --/
def Safe {n : Nat} (m : GuestMemory) (t : Transport n) : Prop :=
  ∀ i, (t.queues i).ready = true → WellFormed m (t.queues i)

/-- The registers that give the selected queue its size and addresses. --/
def Reg.describesQueue : Reg → Bool
  | .queueNum | .descLow | .descHigh | .driverLow | .driverHigh | .deviceLow | .deviceHigh => true
  | _ => false

/-- The write does not give a ready queue a size or an address that the ready register would refuse. --/
def KeepsValid {n : Nat} (m : GuestMemory) (t : Transport n) (reg : Reg) (value : UInt32) : Prop :=
  reg.describesQueue = true → t.selected.ready = true → validVirtQueue m (writeQueue reg value t.selected) = true

section
variable {n : Nat} {m : GuestMemory} {t : Transport n} {reg : Reg} {value : UInt32} {q : Queue}

theorem Safe.setSelected (h : Safe m t) (hq : q.ready = true → WellFormed m q) : Safe m (t.setSelected q) := by
  intro i hready
  rcases eq_or_ne i t.queueSel with rfl | hne
  · have hself : (t.setSelected q).queues t.queueSel = q := Function.update_self ..
    rw [hself] at hready ⊢
    exact hq hready
  · have hother : (t.setSelected q).queues i = t.queues i := Function.update_of_ne hne ..
    rw [hother] at hready ⊢
    exact h i hready

theorem ready_writeQueue : (writeQueue reg value q).ready = q.ready := by
  cases reg with
  | queueNum =>
    unfold writeQueue
    dsimp only
    split <;> rfl
  | _ => rfl

theorem Safe.writeReady (h : Safe m t) : Safe m (t.writeReady m value) := by
  unfold Transport.writeReady
  split
  · exact h.setSelected fun hready => absurd hready Bool.false_ne_true
  · split
    · rename_i hvalid
      refine h.setSelected fun _ => ?_
      have hwell := validVirtQueue_iff.mp hvalid
      exact ⟨hwell.size, hwell.size_le, hwell.aligned, hwell.desc, hwell.driver, hwell.device⟩
    · exact h.setSelected fun hready => absurd hready Bool.false_ne_true

theorem Safe.write (h : Safe m t) (hok : KeepsValid m t reg value) : Safe m (t.write m reg value) := by
  have hdescribe : reg.describesQueue = true → Safe m (t.setSelected (writeQueue reg value t.selected)) := fun hreg =>
    h.setSelected fun hready => validVirtQueue_iff.mp (hok hreg (ready_writeQueue.symm.trans hready))
  cases reg with
  | queueSel =>
    show Safe m (if h : value.toNat < n then { t with queueSel := ⟨value.toNat, h⟩ } else t)
    split
    · exact h
    · exact h
  | queueReady => exact h.writeReady
  | status =>
    show Safe m (if value = 0 then t.reset else { t with status := value })
    split
    · exact fun _ hready => nomatch hready
    · exact h
  | queueNum | descLow | descHigh | driverLow | driverHigh | deviceLow | deviceHigh => exact hdescribe rfl
  | _ => exact h

end

/-! ### Work on the queues -/

/-- Work on one queue keeps its size, its addresses and its ready flag. --/
structure RingKept (r r' : Ring) : Prop where
  queue : SameRings r.queue r'.queue
  size : r'.mem.size = r.mem.size

theorem ringKept_frame : Exec.Frame RingKept where
  refl r := ⟨.refl r.queue, rfl⟩
  trans h h' := ⟨h.queue.trans h'.queue, h'.size.trans h.size⟩

namespace RingKept

theorem onMem {α : Type} {x : Exec GuestMemory α} (h : Exec.Keeps (fun m m' => m'.size = m.size) x) :
    Exec.Keeps RingKept (Ring.onMem x) := fun r => ⟨.refl r.queue, h r.mem⟩

theorem size_frame : Exec.Frame fun m m' : GuestMemory => m'.size = m.size := ⟨fun _ => rfl, fun h h' => h'.trans h⟩

theorem pushUsed {id written : UInt32} {q : Queue} :
    Exec.Keeps (fun m m' : GuestMemory => m'.size = m.size) (GuestMemory.pushUsed .hvf q id written) := by
  have hF := size_frame
  refine Exec.Keeps.bind hF (Exec.Keeps.get hF) fun _ => Exec.Keeps.bind hF (Exec.Keeps.lift hF) fun _ => ?_
  refine Exec.Keeps.bind hF (Exec.Keeps.lift hF) fun _ => Exec.Keeps.bind hF (Exec.Keeps.modify fun _ => rfl) fun _ => ?_
  refine Exec.Keeps.bind hF (Exec.Keeps.lift hF) fun _ => Exec.Keeps.bind hF (Exec.Keeps.modify fun _ => rfl) fun _ => ?_
  exact Exec.Keeps.modify fun _ => rfl

theorem fill {frame : Packet} : ∀ (chain : List Desc) (offset : Nat),
    Exec.Keeps (fun m m' : GuestMemory => m'.size = m.size) (Ring.fill .hvf frame chain offset)
  | [], _ => Exec.Keeps.pure size_frame
  | d :: rest, offset => by
    have hF := size_frame
    refine Exec.Keeps.bind hF ?_ fun offset => Exec.Keeps.ite (fun _ => Exec.Keeps.pure hF) fun _ => fill rest offset
    refine Exec.Keeps.bind hF (Exec.Keeps.check hF) fun _ => Exec.Keeps.bind hF (Exec.Keeps.get hF) fun _ => ?_
    refine Exec.Keeps.bind hF (Exec.Keeps.lift hF) fun _ => Exec.Keeps.bind hF (Exec.Keeps.modify fun _ => rfl) fun _ => ?_
    exact Exec.Keeps.bind hF (Exec.Keeps.modify fun _ => rfl) fun _ => Exec.Keeps.pure hF

theorem takeHead : Exec.Keeps RingKept (Ring.takeHead .hvf) := by
  have hF := ringKept_frame
  refine Exec.Keeps.bind hF (Exec.Keeps.get hF) fun _ => Exec.Keeps.bind hF (Exec.Keeps.lift hF) fun _ => ?_
  exact Exec.Keeps.bind hF (Exec.Keeps.modify fun _ => ⟨rfl, rfl⟩) fun _ => Exec.Keeps.pure hF

theorem walkChain {head : UInt16} : Exec.Keeps RingKept (Ring.walkChain .hvf head) :=
  Exec.Keeps.bind ringKept_frame (Exec.Keeps.get ringKept_frame) fun _ => Exec.Keeps.lift ringKept_frame

theorem publish {head : UInt16} {written : UInt32} : Exec.Keeps RingKept (Ring.pushUsed .hvf head written) :=
  Exec.Keeps.bind ringKept_frame (Exec.Keeps.get ringKept_frame) fun _ => onMem pushUsed

theorem hasRxBuffer : Exec.Keeps RingKept (Ring.hasRxBuffer .hvf) := by
  have hF := ringKept_frame
  refine Exec.Keeps.bind hF (Exec.Keeps.get hF) fun _ => Exec.Keeps.ite (fun _ => ?_) fun _ => Exec.Keeps.pure hF
  exact Exec.Keeps.bind hF (Exec.Keeps.lift hF) fun _ => Exec.Keeps.pure hF

theorem injectFrame {frame : Packet} : Exec.Keeps RingKept (Ring.injectFrame .hvf frame) := by
  have hF := ringKept_frame
  refine Exec.Keeps.bind hF takeHead fun _ => Exec.Keeps.bind hF walkChain fun chain => ?_
  refine Exec.Keeps.bind hF (onMem (fill chain 0)) fun _ => Exec.Keeps.ite (fun _ => Exec.Keeps.pure hF) fun _ => ?_
  exact Exec.Keeps.bind hF publish fun _ => Exec.Keeps.pure hF

end RingKept

/-! ### Devices -/

/-- What a device does between two register writes keeps its queues and the size of RAM. --/
structure QueuesKept {n : Nat} (m : GuestMemory) (t : Transport n) (m' : GuestMemory) (t' : Transport n) : Prop where
  queues : ∀ i, SameRings (t.queues i) (t'.queues i)
  size : m'.size = m.size

section
variable {n : Nat} {m m' : GuestMemory} {t t' : Transport n} {q : Queue} {i : Fin n}

theorem Safe.kept (h : Safe m t) (hk : QueuesKept m t m' t') : Safe m' t' := fun i hready =>
  (h i ((hk.queues i).ready.symm.trans hready)).congr (hk.queues i) hk.size

theorem QueuesKept.update (hq : SameRings (t.queues i) q) (hm : m'.size = m.size) :
    QueuesKept m t m' { t with queues := Function.update t.queues i q } := by
  refine ⟨fun j => ?_, hm⟩
  show SameRings (t.queues j) (Function.update t.queues i q j)
  rcases eq_or_ne j i with rfl | hne
  · rw [Function.update_self]
    exact hq
  · rw [Function.update_of_ne hne]
    exact .refl _

end

namespace BlkDevice

def Kept (s t : BlkDevice) : Prop := QueuesKept s.mem s.regs t.mem t.regs

theorem kept_frame : Exec.Frame Kept where
  refl _ := ⟨fun _ => .refl _, rfl⟩
  trans h h' := ⟨fun i => (h.queues i).trans (h'.queues i), h'.size.trans h.size⟩

/-- The same for the state of a request. --/
structure BlkKept (s t : Blk) : Prop where
  queue : SameRings s.queue t.queue
  size : t.mem.size = s.mem.size

theorem blkKept_frame : Exec.Frame BlkKept where
  refl s := ⟨.refl s.queue, rfl⟩
  trans h h' := ⟨h.queue.trans h'.queue, h'.size.trans h.size⟩

theorem carried_blkKept : Blk.Carried .hvf BlkKept where
  frame := blkKept_frame
  store _ _ := fun s => ⟨.refl s.queue, rfl⟩
  readDisk _ _ := fun s => ⟨.refl s.queue, rfl⟩
  writeDisk _ _ := fun s => ⟨.refl s.queue, rfl⟩
  flush := fun s => ⟨.refl s.queue, rfl⟩
  written _ s := ⟨.refl s.queue, rfl⟩
  publish _ _ := .bind blkKept_frame (.get blkKept_frame) fun _ s =>
    ⟨.refl s.queue, RingKept.pushUsed s.mem⟩

theorem keeps_handleQueue (i : Fin 8) : Exec.Keeps Kept (handleQueue i) := fun s => by
  have hqueue : Exec.Keeps BlkKept (Blk.handleQueue .hvf) := carried_blkKept.keeps_handleQueue fun s => ⟨rfl, rfl⟩
  have hkept := hqueue (queueView i s)
  exact QueuesKept.update hkept.queue hkept.size

theorem keeps_notify {value : UInt32} : Exec.Keeps Kept (notify value) := by
  have hF := kept_frame
  refine Exec.Keeps.bind hF (Exec.Keeps.get hF) fun s => ?_
  split
  · refine Exec.Keeps.ite (fun _ => ?_) fun _ => Exec.Keeps.pure hF
    exact Exec.Keeps.bind hF (keeps_handleQueue _) fun _ => Exec.Keeps.modify fun _ => ⟨fun _ => .refl _, rfl⟩
  · exact Exec.Keeps.pure hF

end BlkDevice

namespace NetDevice

def Kept (s t : NetDevice) : Prop := QueuesKept s.mem s.regs t.mem t.regs

theorem kept_frame : Exec.Frame Kept where
  refl _ := ⟨fun _ => .refl _, rfl⟩
  trans h h' := ⟨fun i => (h.queues i).trans (h'.queues i), h'.size.trans h.size⟩

theorem kept_of_eq {s t : NetDevice} (hm : t.mem = s.mem) (hq : t.regs.queues = s.regs.queues) : Kept s t :=
  ⟨fun i => by rw [hq]; exact .refl _, congrArg GuestMemory.size hm⟩

theorem keeps_onRing {α : Type} {i : Fin 2} {x : Exec Ring α} (h : Exec.Keeps RingKept x) : Exec.Keeps Kept (onRing i x) :=
  fun s => QueuesKept.update (h (ring i s)).queue (h (ring i s)).size

theorem keeps_modify {f : NetDevice → NetDevice} (hm : ∀ s, (f s).mem = s.mem)
    (hq : ∀ s, (f s).regs.queues = s.regs.queues) : Exec.Keeps Kept (Exec.modify f) := fun s => kept_of_eq (hm s) (hq s)

theorem pollSlirp_same (s : NetDevice) : (pollSlirp s).mem = s.mem ∧ (pollSlirp s).regs = s.regs := by
  unfold pollSlirp
  split
  · have hloop : ∀ (frames : List Packet) (u : NetDevice),
        (frames.foldl (fun s frame => notifyHost (readFrame frame s)) u).mem = u.mem ∧
          (frames.foldl (fun s frame => notifyHost (readFrame frame s)) u).regs = u.regs := by
      intro frames
      induction frames with
      | nil => exact fun _ => ⟨rfl, rfl⟩
      | cons frame rest ih =>
        intro u
        have hone : (notifyHost (readFrame frame u)).mem = u.mem ∧ (notifyHost (readFrame frame u)).regs = u.regs := by
          unfold notifyHost
          split <;> exact ⟨rfl, rfl⟩
        exact ⟨(ih _).1.trans hone.1, (ih _).2.trans hone.2⟩
    exact hloop _ _
  · exact ⟨rfl, rfl⟩

theorem keeps_injectRxFrame {frame : Packet} : Exec.Keeps Kept (injectRxFrame frame) := by
  have hF := kept_frame
  refine Exec.Keeps.bind hF (Exec.Keeps.check hF) fun _ => Exec.Keeps.bind hF (keeps_onRing RingKept.injectFrame) fun _ => ?_
  exact Exec.Keeps.ite (fun _ => keeps_modify (fun _ => rfl) fun _ => rfl) fun _ => Exec.Keeps.pure hF

theorem keeps_pollRounds : ∀ rounds, Exec.Keeps Kept (pollRounds rounds)
  | 0 => Exec.Keeps.pure kept_frame
  | rounds + 1 => by
    have hF := kept_frame
    refine Exec.Keeps.bind hF (keeps_onRing RingKept.hasRxBuffer) fun _ => Exec.Keeps.ite (fun _ => ?_) fun _ => Exec.Keeps.pure hF
    refine Exec.Keeps.bind hF (Exec.Keeps.get hF) fun s => ?_
    rcases s.rxFrames with _ | ⟨frame, rest⟩
    · exact Exec.Keeps.pure hF
    · refine Exec.Keeps.bind hF (keeps_modify (fun _ => rfl) fun _ => rfl) fun _ => ?_
      refine Exec.Keeps.ite (fun _ => keeps_pollRounds rounds) fun _ => ?_
      exact Exec.Keeps.bind hF keeps_injectRxFrame fun _ => keeps_pollRounds rounds

theorem keeps_pollRx : Exec.Keeps Kept pollRx := by
  have hF := kept_frame
  refine Exec.Keeps.bind hF (Exec.Keeps.get hF) fun _ => Exec.Keeps.ite (fun _ => ?_) fun _ => Exec.Keeps.pure hF
  refine Exec.Keeps.bind hF (keeps_modify (fun _ => rfl) fun _ => rfl) fun _ => ?_
  refine Exec.Keeps.bind hF (keeps_modify (fun s => (pollSlirp_same s).1) fun s => ?_) fun _ => keeps_pollRounds _
  rw [(pollSlirp_same s).2]

theorem keeps_pollDevices : Exec.Keeps Kept pollDevices :=
  Exec.Keeps.bind kept_frame (Exec.Keeps.get kept_frame) fun _ =>
    Exec.Keeps.ite (fun _ => keeps_pollRx) fun _ => Exec.Keeps.pure kept_frame

theorem keeps_processTx {head : UInt16} : Exec.Keeps Kept (processTx head) := by
  have hF := kept_frame
  have hsend : ∀ (frame : Packet) (s : NetDevice), Kept s (send frame s) := fun frame s => by
    unfold send
    split
    · exact kept_of_eq rfl rfl
    · exact hF.refl s
  refine Exec.Keeps.bind hF (keeps_onRing RingKept.walkChain) fun _ => Exec.Keeps.bind hF (Exec.Keeps.get hF) fun _ => ?_
  refine Exec.Keeps.bind hF (Exec.Keeps.lift hF) fun frame => Exec.Keeps.bind hF (Exec.Keeps.modify (hsend frame)) fun _ => ?_
  exact Exec.Keeps.bind hF (keeps_onRing RingKept.publish) fun _ => keeps_modify (fun _ => rfl) fun _ => rfl

theorem keeps_serveTx {availIdx : UInt16} : ∀ fuel, Exec.Keeps Kept (serveTx availIdx fuel)
  | 0 => Exec.Keeps.pure kept_frame
  | fuel + 1 => by
    have hF := kept_frame
    refine Exec.Keeps.bind hF (Exec.Keeps.get hF) fun _ => Exec.Keeps.ite (fun _ => Exec.Keeps.pure hF) fun _ => ?_
    refine Exec.Keeps.bind hF (keeps_onRing RingKept.takeHead) fun _ => ?_
    exact Exec.Keeps.bind hF keeps_processTx fun _ => keeps_serveTx fuel

theorem keeps_notify {value : UInt32} : Exec.Keeps Kept (notify value) := by
  have hF := kept_frame
  refine Exec.Keeps.bind hF (Exec.Keeps.get hF) fun _ => Exec.Keeps.ite (fun _ => keeps_pollRx) fun _ => ?_
  refine Exec.Keeps.ite (fun _ => ?_) fun _ => Exec.Keeps.pure hF
  refine Exec.Keeps.bind hF (Exec.Keeps.get hF) fun _ => Exec.Keeps.bind hF (Exec.Keeps.lift hF) fun _ => ?_
  exact Exec.Keeps.bind hF (keeps_serveTx _) fun _ => keeps_pollRx

end NetDevice

/-! ### Runs -/

/-- A register write, or the guest and the host at work between two of them. --/
inductive Event where
  | write (off len : Nat) (value : UInt32)
  | guest (bytes : Nat → UInt8)
  /-- The socket reader, libslirp or vmnet has a frame. --/
  | frame (frame : Packet)
  | notifyHost
  | poll

/-- The write, if it is one that a register takes, does not make a ready queue invalid. --/
def WritesValid {n : Nat} (m : GuestMemory) (t : Transport n) : Event → Prop
  | .write off 4 value => ∀ reg, off < 0x100 → Reg.ofOffset off = some reg → KeepsValid m t reg value
  | _ => True

def setBytes (bytes : Nat → UInt8) (m : GuestMemory) : GuestMemory := ⟨⟨m.ram.size, bytes⟩, m.fits⟩

namespace BlkDevice

/-- The device after an event, also after one that throws. --/
def step (s : BlkDevice) : Event → Option BlkDevice
  | .write off len value => some (writeMmio off len value s).2
  | .guest bytes => some { s with mem := setBytes bytes s.mem }
  | _ => some s

theorem safe_writeMmio {off len : Nat} {value : UInt32} {s : BlkDevice} (h : Safe s.mem s.regs)
    (hok : WritesValid s.mem s.regs (.write off len value)) :
    Safe (writeMmio off len value s).2.mem (writeMmio off len value s).2.regs := by
  unfold writeMmio
  split
  · exact h
  · rename_i hin
    obtain ⟨hoff, hlen⟩ := not_or.mp hin
    rw [not_not] at hlen
    subst hlen
    cases hreg : Reg.ofOffset off with
    | none => exact h
    | some reg =>
      have hkeeps := hok reg (Nat.lt_of_not_le hoff) hreg
      show Safe (writeReg reg value s).2.mem (writeReg reg value s).2.regs
      unfold writeReg
      rw [Exec.bind_of_ok Exec.get_apply]
      split
      · exact h.kept (keeps_notify s)
      · exact h.write hkeeps

theorem step_safe {s t : BlkDevice} {e : Event} (h : Safe s.mem s.regs) (hok : WritesValid s.mem s.regs e)
    (hstep : step s e = some t) : Safe t.mem t.regs := by
  cases e with
  | write off len value =>
    cases hstep
    exact safe_writeMmio h hok
  | guest bytes =>
    cases hstep
    exact h.kept ⟨fun _ => .refl _, rfl⟩
  | frame _ | notifyHost | poll =>
    cases hstep
    exact h

end BlkDevice

namespace NetDevice

/-- The device after an event, also after one that throws. --/
def step (s : NetDevice) : Event → Option NetDevice
  | .write off len value => some (writeMmio off len value s).2
  | .guest bytes => some { s with mem := setBytes bytes s.mem }
  | .frame frame => some (if s.link = some .slirp then { s with host := s.host ++ [frame] } else readFrame frame s)
  | .notifyHost => some (notifyHost s)
  | .poll => some (pollDevices s).2

theorem safe_writeMmio {off len : Nat} {value : UInt32} {s : NetDevice} (h : Safe s.mem s.regs)
    (hok : WritesValid s.mem s.regs (.write off len value)) :
    Safe (writeMmio off len value s).2.mem (writeMmio off len value s).2.regs := by
  unfold writeMmio
  split
  · exact h
  · rename_i hin
    obtain ⟨hoff, hlen⟩ := not_or.mp hin
    rw [not_not] at hlen
    subst hlen
    cases hreg : Reg.ofOffset off with
    | none => exact h
    | some reg =>
      have hkeeps := hok reg (Nat.lt_of_not_le hoff) hreg
      show Safe (writeReg reg value s).2.mem (writeReg reg value s).2.regs
      unfold writeReg
      rw [Exec.bind_of_ok Exec.get_apply]
      split
      · exact h.kept (keeps_notify s)
      · exact h.write hkeeps

theorem step_safe {s t : NetDevice} {e : Event} (h : Safe s.mem s.regs) (hok : WritesValid s.mem s.regs e)
    (hstep : step s e = some t) : Safe t.mem t.regs := by
  cases e with
  | write off len value =>
    cases hstep
    exact safe_writeMmio h hok
  | guest bytes =>
    cases hstep
    exact h.kept ⟨fun _ => .refl _, rfl⟩
  | frame frame =>
    cases hstep
    split <;> exact h
  | notifyHost =>
    cases hstep
    unfold notifyHost
    split <;> exact h
  | poll =>
    cases hstep
    exact h.kept (keeps_pollDevices s)

end NetDevice

/-- No queue is ready, as after a reset. --/
def NoneReady {n : Nat} (t : Transport n) : Prop := ∀ i, (t.queues i).ready = false

/-- Every ready queue is well formed, and its rings answer. --/
def ReadyValid {n : Nat} (m : GuestMemory) (t : Transport n) : Prop :=
  ∀ i, (t.queues i).ready = true → WellFormed m (t.queues i) ∧ RingsAnswer m (t.queues i)

theorem Safe.readyValid {n : Nat} {m : GuestMemory} {t : Transport n} (h : Safe m t) : ReadyValid m t := fun i hready =>
  ⟨h i hready, ringsAnswer_of_ringsFit (h i hready).ringsFit⟩

theorem NoneReady.safe {n : Nat} {m : GuestMemory} {t : Transport n} (h : NoneReady t) : Safe m t := fun i hready =>
  absurd ((h i).symm.trans hready) nofun

/-- Over every run of either device whose writes leave ready queues valid, every ready queue is valid. --/
theorem ready_valid (blk : BlkDevice) (net : NetDevice) (es : List Event) :
    (NoneReady blk.regs → ∀ t, Runs.Under BlkDevice.step (fun u e => WritesValid u.mem u.regs e) blk es t →
      ReadyValid t.mem t.regs) ∧
    (NoneReady net.regs → ∀ t, Runs.Under NetDevice.step (fun u e => WritesValid u.mem u.regs e) net es t →
      ReadyValid t.mem t.regs) := by
  refine ⟨fun hnone t hrun => Safe.readyValid ?_, fun hnone t hrun => Safe.readyValid ?_⟩
  · exact hrun.invariant (P := fun u => Safe u.mem u.regs) (fun _ _ _ h hok hstep => BlkDevice.step_safe h hok hstep) hnone.safe
  · exact hrun.invariant (P := fun u => Safe u.mem u.regs) (fun _ _ _ h hok hstep => NetDevice.step_safe h hok hstep) hnone.safe

/-! ### Both devices in one small guest -/

def newRegs (n : Nat) (sel : Fin n) : Transport n where
  status := 0
  drvFeatures := 0
  devFeaturesSel := 0
  drvFeaturesSel := 0
  queueSel := sel
  interruptStatus := 0
  queues _ := newQueue
  irq := false

def newBlk : BlkDevice where
  mem := oneKiB fun _ => 0
  disk := { base := ⟨0, fun _ => 0⟩, overlay := none, dirtySectors := [], diskBytes := 0, sectors := 0,
            readOnly := false, faults := [] }
  regs := newRegs 8 (Fin.last 7)

def newNet : NetDevice where
  mem := oneKiB fun _ => 0
  regs := newRegs 2 NetDevice.rxq
  link := some .socket
  rxFrames := []
  host := []
  notifyPending := false
  pipe := 0
  sent := []

/-- The driver gives queue 0 four entries and its rings, and sets it ready. --/
def setUp : List Event :=
  [.write 0x030 4 0, .write 0x038 4 4, .write 0x080 4 0x40000000, .write 0x090 4 0x40000100, .write 0x0A0 4 0x40000200,
    .write 0x044 4 1]

/-- While the queue is not ready, every write is allowed. --/
theorem writesValid_of_not_ready {n : Nat} {m : GuestMemory} {t : Transport n} {off : Nat} {value : UInt32}
    (h : t.selected.ready = false) : WritesValid m t (.write off 4 value) :=
  fun _ _ _ _ hready => absurd (h.symm.trans hready) nofun

/-- The theorem on the set-up of queue 0 of each device. --/
theorem ready_valid_setUp :
    (∃ t, Runs.Under BlkDevice.step (fun u e => WritesValid u.mem u.regs e) newBlk setUp t ∧
      (t.regs.queues 0).ready = true ∧ ReadyValid t.mem t.regs) ∧
    (∃ t, Runs.Under NetDevice.step (fun u e => WritesValid u.mem u.regs e) newNet setUp t ∧
      (t.regs.queues 0).ready = true ∧ ReadyValid t.mem t.regs) := by
  have hblk : Runs.Under BlkDevice.step (fun u e => WritesValid u.mem u.regs e) newBlk setUp _ :=
    .cons (writesValid_of_not_ready (by decide +kernel)) rfl <| .cons (writesValid_of_not_ready (by decide +kernel)) rfl <|
    .cons (writesValid_of_not_ready (by decide +kernel)) rfl <| .cons (writesValid_of_not_ready (by decide +kernel)) rfl <|
    .cons (writesValid_of_not_ready (by decide +kernel)) rfl <| .cons (writesValid_of_not_ready (by decide +kernel)) rfl .nil
  have hnet : Runs.Under NetDevice.step (fun u e => WritesValid u.mem u.regs e) newNet setUp _ :=
    .cons (writesValid_of_not_ready (by decide +kernel)) rfl <| .cons (writesValid_of_not_ready (by decide +kernel)) rfl <|
    .cons (writesValid_of_not_ready (by decide +kernel)) rfl <| .cons (writesValid_of_not_ready (by decide +kernel)) rfl <|
    .cons (writesValid_of_not_ready (by decide +kernel)) rfl <| .cons (writesValid_of_not_ready (by decide +kernel)) rfl .nil
  exact ⟨⟨_, hblk, by decide +kernel, (ready_valid newBlk newNet setUp).1 (fun _ => rfl) _ hblk⟩,
    ⟨_, hnet, by decide +kernel, (ready_valid newBlk newNet setUp).2 (fun _ => rfl) _ hnet⟩⟩

/-- The upper half of the avail ring's address is written while the queue is ready: the ring is outside RAM, and the next
    notify throws. --/
theorem not_ready_valid_moved :
    (∃ t, Runs.Under BlkDevice.step (fun _ _ => True) newBlk (setUp ++ [.write 0x094 4 1]) t ∧ ¬ReadyValid t.mem t.regs ∧
      ∃ e u, BlkDevice.writeMmio 0x050 4 0 t = (.error e, u)) ∧
    (∃ t, Runs.Under NetDevice.step (fun _ _ => True) newNet (setUp ++ [.write 0x094 4 1]) t ∧ ¬ReadyValid t.mem t.regs ∧
      ∃ e u, NetDevice.writeMmio 0x050 4 0 t = (.error e, u)) := by
  have hblk : Runs.Under BlkDevice.step (fun _ _ => True) newBlk (setUp ++ [.write 0x094 4 1]) _ :=
    .cons trivial rfl <| .cons trivial rfl <| .cons trivial rfl <| .cons trivial rfl <| .cons trivial rfl <|
    .cons trivial rfl <| .cons trivial rfl .nil
  have hnet : Runs.Under NetDevice.step (fun _ _ => True) newNet (setUp ++ [.write 0x094 4 1]) _ :=
    .cons trivial rfl <| .cons trivial rfl <| .cons trivial rfl <| .cons trivial rfl <| .cons trivial rfl <|
    .cons trivial rfl <| .cons trivial rfl .nil
  refine ⟨⟨_, hblk, fun h => ?_, Exec.exists_error (by decide +kernel)⟩,
    ⟨_, hnet, fun h => ?_, Exec.exists_error (by decide +kernel)⟩⟩
  · exact absurd (h 0 (by decide +kernel)).1.driver (by decide +kernel)
  · exact absurd (h 0 (by decide +kernel)).1.driver (by decide +kernel)

end NodeVmm.Hvf
