import NodeVmm.HvfNetPath
import NodeVmm.Lib.Runs
import NodeVmm.Theorems.NetRounds

/-! Frames from the socket to the guest on HVF. A poll empties the notification pipe and then gives at most 32 frames to
    the guest. As long as each frame that meets a buffer is small enough for the device and for the buffer, and a
    batch is enough for the frames or the buffers that a poll starts with, no poll throws, the frames go to the guest
    once and in order, and a frame that has to wait for more than a buffer is going to be announced. -/

namespace NodeVmm.Hvf
open ByteStore

namespace NetDevice

def rxRing (s : NetDevice) : Ring := s.ring rxq

/-- The device has a buffer to fill. --/
def available (s : NetDevice) : Prop :=
  (s.regs.queues rxq).ready = true ∧ (s.regs.queues rxq).lastAvail ≠ availIdx .hvf s.mem (s.regs.queues rxq)

/-- The number of heads that the device may take. --/
def buffers (s : NetDevice) : Nat :=
  if (s.regs.queues rxq).ready then (availIdx .hvf s.mem (s.regs.queues rxq) - (s.regs.queues rxq).lastAvail).toNat else 0

/-- The rings of the RX queue are in RAM, the device's apart from the driver's, and the chain that meets the next frame
    can be filled, spares the rings, and is in `P`. --/
structure Finds (P : Packet → List Desc → Prop) (s : NetDevice) : Prop where
  fits : (s.regs.queues rxq).ready = true → RingsFit .hvf s.mem (s.regs.queues rxq)
  apart : (s.regs.queues rxq).ready = true → ∀ i, Touches .hvf (s.regs.queues rxq).driverAddr (4 + 2 * (s.regs.queues rxq).size) i →
    ¬Touches .hvf (s.regs.queues rxq).deviceAddr (4 + 8 * (s.regs.queues rxq).size) i
  next : available s → ∀ frame rest, s.rxFrames = frame :: rest →
    ∃ chain, s.rxRing.CanTake .hvf chain ∧ (∀ d ∈ chain, Blk.Spares .hvf (InRings .hvf (s.regs.queues rxq)) d) ∧ P frame chain

/-- The frame is no larger than `kMaxFrameSize`, and the chain has room for it. --/
def Deliverable (frame : Packet) (chain : List Desc) : Prop :=
  frame.length ≤ maxFrameSize ∧ 12 + frame.length ≤ capacity chain

/-- Work on the queues leaves the frames and the pipe as they are. --/
structure SameFrames (s t : NetDevice) : Prop where
  link : t.link = s.link
  frames : t.rxFrames = s.rxFrames
  pending : t.notifyPending = s.notifyPending
  pipe : t.pipe = s.pipe

theorem sameFrames_frame : Exec.Frame SameFrames where
  refl _ := ⟨rfl, rfl, rfl, rfl⟩
  trans h h' := ⟨h'.link.trans h.link, h'.frames.trans h.frames, h'.pending.trans h.pending, h'.pipe.trans h.pipe⟩

section
variable {s t : NetDevice} {frame : Packet} {P : Packet → List Desc → Prop}

theorem ring_putRing (i : Fin 2) (s : NetDevice) : putRing i (ring i s) s = s := by
  simp [putRing, ring]

theorem ring_of_putRing (i : Fin 2) (r : Ring) (s : NetDevice) : ring i (putRing i r s) = r := by
  simp [putRing, ring]

theorem buffers_eq_zero_iff : buffers s = 0 ↔ ¬available s := by
  unfold buffers available
  split
  · rename_i hready
    simp only [hready, true_and, ne_eq, not_not]
    rw [← UInt16.toNat_zero, UInt16.toNat_inj, UInt16.sub_eq_iff_eq_add, UInt16.zero_add, eq_comm]
  · rename_i hready
    simp [hready]

/-! ### Parts of a poll -/

theorem sameFrames_onRing {α : Type} {i : Fin 2} {x : Exec Ring α} : Exec.Keeps SameFrames (onRing i x) :=
  fun _ => ⟨rfl, rfl, rfl, rfl⟩

theorem sameFrames_serveTx {availIdx : UInt16} : ∀ fuel, Exec.Keeps SameFrames (serveTx availIdx fuel)
  | 0 => Exec.Keeps.pure sameFrames_frame
  | fuel + 1 => by
    have hF := sameFrames_frame
    have hsend : ∀ (packet : Packet) (s : NetDevice), SameFrames s (send packet s) := by
      intro packet s
      unfold send
      split
      · exact ⟨rfl, rfl, rfl, rfl⟩
      · exact hF.refl s
    refine Exec.Keeps.bind hF (Exec.Keeps.get hF) fun _ => Exec.Keeps.ite (fun _ => Exec.Keeps.pure hF) fun _ => ?_
    refine Exec.Keeps.bind hF sameFrames_onRing fun head => Exec.Keeps.bind hF ?_ fun _ => sameFrames_serveTx fuel
    refine Exec.Keeps.bind hF sameFrames_onRing fun _ => Exec.Keeps.bind hF (Exec.Keeps.get hF) fun _ => ?_
    refine Exec.Keeps.bind hF (Exec.Keeps.lift hF) fun _ => Exec.Keeps.bind hF (Exec.Keeps.modify (hsend _)) fun _ => ?_
    exact Exec.Keeps.bind hF sameFrames_onRing fun _ => Exec.Keeps.modify fun _ => ⟨rfl, rfl, rfl, rfl⟩

theorem sameFrames_serveTxQueue : Exec.Keeps SameFrames serveTxQueue := by
  have hF := sameFrames_frame
  refine Exec.Keeps.bind hF (Exec.Keeps.get hF) fun _ => Exec.Keeps.bind hF (Exec.Keeps.lift hF) fun _ => ?_
  exact sameFrames_serveTx _

theorem hasRxBuffer_apply (hfit : (s.regs.queues rxq).ready = true → RingsFit .hvf s.mem (s.regs.queues rxq)) :
    ∃ yes : Bool, onRing rxq (Ring.hasRxBuffer .hvf) s = (.ok yes, s) ∧ (yes = true ↔ available s) := by
  have hring := Ring.hasRxBuffer_of_inRam (b := .hvf) (s := s.rxRing) fun hready => (hfit hready).availIdx_inRam
  refine ⟨(s.regs.queues rxq).ready && (s.regs.queues rxq).lastAvail != availIdx .hvf s.mem (s.regs.queues rxq), ?_, ?_⟩
  · show ((Ring.hasRxBuffer .hvf s.rxRing).1, putRing rxq (Ring.hasRxBuffer .hvf s.rxRing).2 s) = _
    rw [hring]
    exact congrArg _ (ring_putRing rxq s)
  · rw [Bool.and_eq_true, bne_iff_ne]
    rfl

/-- A frame that fits is published in one round. --/
theorem injectRxFrame_of_room {chain : List Desc} (hfit : RingsFit .hvf s.mem (s.regs.queues rxq))
    (hroom : Ring.RoomFor .hvf s.rxRing frame chain) (hsize : frame.length ≤ maxFrameSize) :
    ∃ head t, injectRxFrame frame s = (.ok (), t) ∧ Ring.Round .hvf s.rxRing head frame t.rxRing ∧ SameFrames s t := by
  obtain ⟨r, hinject, hround⟩ := Ring.round_of_room hfit hroom
  have hon : onRing rxq (Ring.injectFrame .hvf frame) s = (.ok true, putRing rxq r s) := by
    show ((Ring.injectFrame .hvf frame s.rxRing).1, putRing rxq (Ring.injectFrame .hvf frame s.rxRing).2 s) = _
    rw [hinject]
  have hring : rxRing (signalNet (putRing rxq r s)) = r := ring_of_putRing rxq r s
  refine ⟨_, signalNet (putRing rxq r s), ?_, hring ▸ hround, ⟨rfl, rfl, rfl, rfl⟩⟩
  unfold injectRxFrame
  rw [Exec.bind_of_ok (Exec.check_of_true (decide_eq_true hsize)), Exec.bind_of_ok hon, if_pos rfl]
  rfl

theorem toNat_sub_succ {x y : UInt16} (h : x ≠ y) : (x - (y + 1)).toNat + 1 = (x - y).toNat := by
  have hne : x.toNat ≠ y.toNat := fun heq => h (UInt16.toNat_inj.mp heq)
  have hx := x.toNat_lt
  have hy := y.toNat_lt
  simp only [UInt16.toNat_sub, UInt16.toNat_add, UInt16.reduceToNat]
  omega

/-- A round takes one of the buffers that are there. --/
theorem buffers_of_round {head : UInt16} (h : Finds P s) (hyes : available s)
    (hround : Ring.Round .hvf s.rxRing head frame t.rxRing) : buffers t + 1 = buffers s := by
  have hfit := h.fits hyes.1
  have hqueue : t.regs.queues rxq = s.rxRing.bumpLastAvail.queue := hround.queue
  -- the avail ring is apart from what the round stores in the used ring
  have hidx : availIdx .hvf t.mem (t.regs.queues rxq) = availIdx .hvf s.mem (s.regs.queues rxq) := by
    rw [hqueue]
    refine hround.others.readU16 fun i hi => ?_
    have hadd : (s.regs.queues rxq).availIdxAddr.toNat = (s.regs.queues rxq).driverAddr.toNat + 2 :=
      hfit.driver.toNat_add (by decide)
    have htouch : Touches .hvf (s.regs.queues rxq).driverAddr (4 + 2 * (s.regs.queues rxq).size) i := by
      obtain ⟨h1, h2⟩ := hfit.availIdx_inRam.touches_iff.mp hi
      constructor <;> omega
    refine ⟨Or.inr (Or.inl htouch), fun hu => ?_, fun hu => ?_⟩
    · exact h.apart hyes.1 i htouch (GuestMemory.touches_of_inUsedIdx hfit.device hu)
    · exact h.apart hyes.1 i htouch (GuestMemory.touches_of_inUsedElem hfit.device hu)
  have hready : (t.regs.queues rxq).ready = true := by
    rw [hqueue]
    exact hyes.1
  have hlast : (t.regs.queues rxq).lastAvail = (s.regs.queues rxq).lastAvail + 1 := by
    rw [hqueue]
    rfl
  unfold buffers
  rw [if_pos hready, if_pos hyes.1, hidx, hlast]
  exact toNat_sub_succ (Ne.symm hyes.2)

/-! ### One round -/

/-- A round finds no buffer, or no frame, or gives the first frame to the guest. --/
inductive Served (s : NetDevice) : Bool → NetDevice → Prop
  | dry (hno : buffers s = 0 ∨ s.rxFrames = []) : Served s false s
  | frame {t : NetDevice} {head : UInt16} {frame : Packet} (hround : Ring.Round .hvf s.rxRing head frame t.rxRing)
    (hframes : s.rxFrames = frame :: t.rxFrames) (hbuffers : buffers t + 1 = buffers s) (hlink : t.link = s.link)
    (hpending : t.notifyPending = s.notifyPending) (hpipe : t.pipe = s.pipe) : Served s true t

theorem pollRound_served (h : Finds Deliverable s) (hframes : ∀ frame ∈ s.rxFrames, frame ≠ []) :
    ∃ more t, pollRound s = (.ok more, t) ∧ Served s more t := by
  obtain ⟨yes, hbuffer, hiff⟩ := hasRxBuffer_apply h.fits
  unfold pollRound
  rw [Exec.bind_of_ok hbuffer]
  by_cases hyes : available s
  · rw [if_pos (hiff.mpr hyes), Exec.bind_of_ok Exec.get_apply]
    rcases hqueue : s.rxFrames with _ | ⟨frame, rest⟩
    · exact ⟨false, s, rfl, .dry (Or.inr hqueue)⟩
    · obtain ⟨chain, htake, hspares, hsize, hroom⟩ := h.next hyes frame rest hqueue
      have hne : frame ≠ [] := hframes frame (hqueue ▸ List.mem_cons_self)
      obtain ⟨head, t, hrun, hround, hsame⟩ :=
        injectRxFrame_of_room (s := popFrame s) (h.fits hyes.1) ⟨htake, hspares, hroom⟩ hsize
      have hrest : s.rxFrames = frame :: t.rxFrames := by
        rw [hsame.frames, hqueue]
        simp [popFrame, hqueue]
      refine ⟨true, t, ?_, .frame hround hrest (buffers_of_round h hyes hround) hsame.link hsame.pending hsame.pipe⟩
      dsimp only
      rw [Exec.bind_of_ok Exec.modify_apply, if_neg fun hempty => hne hempty.1, Exec.bind_of_ok hrun]
      rfl
  · rw [if_neg fun hno => hyes (hiff.mp hno)]
    exact ⟨false, s, rfl, .dry (Or.inl (buffers_eq_zero_iff.mpr hyes))⟩

/-- The loop of `poll_rx` is its rounds, one after the other. --/
theorem pollRounds_succ (rounds : Nat) (s : NetDevice) :
    pollRounds (rounds + 1) s = (do if ← pollRound then pollRounds rounds else pure ()) s := by
  unfold pollRound
  rw [pollRounds]
  simp only [Exec.bind_apply]
  rcases onRing rxq (Ring.hasRxBuffer .hvf) s with ⟨e | yes, t⟩
  · rfl
  · cases yes with
    | false => rfl
    | true =>
      simp only [if_true, Exec.bind_apply, Exec.get_apply]
      rcases t.rxFrames with _ | ⟨frame, rest⟩
      · rfl
      · simp only [Exec.bind_apply, Exec.modify_apply]
        split
        · rfl
        · simp only [Exec.bind_apply]
          rcases injectRxFrame frame (popFrame t) with ⟨e | u, v⟩
          · rfl
          · rfl

end
end NetDevice

namespace NetPath
open NetDevice

/-! ### Runs -/

/-- The frames that the reader takes in the run. --/
def arrivals : List Event → List Packet
  | [] => []
  | .frame frame :: rest => frame :: arrivals rest
  | _ :: rest => arrivals rest

/-- Another poll is on its way: the pipe is readable, or the reader is about to write to it, or the guest is about to
    notify the queue that it has changed. --/
def Announced (s : NetPath) : Prop := s.dev.notifyReadable = true ∨ s.queued = true ∨ s.changed = true

/-- The frame that a round gives to the guest meets a chain with room. A poll starts with at most as many frames, or
    buffers, as a batch has rounds, or with another poll on its way. --/
def Roomy (s : NetPath) : Event → Prop
  | .start => s.dev.rxFrames.length ≤ pollBatch ∨ buffers s.dev ≤ pollBatch ∨ s.queued = true ∨ s.changed = true
  | .round => Finds Deliverable s.dev
  | _ => True

/-- The run with the rounds of its polls: each head that a round takes is published by it, with a frame. --/
inductive Ledger : NetPath → List Event → List (UInt16 × Packet) → NetPath → Prop
  | nil {s : NetPath} : Ledger s [] [] s
  | quiet {s u t : NetPath} {e : Event} {es : List Event} {done : List (UInt16 × Packet)} (hstep : step s e = some u)
    (hsame : e = .round → u.dev = s.dev) (rest : Ledger u es done t) : Ledger s (e :: es) done t
  | round {s u t : NetPath} {es : List Event} {head : UInt16} {frame : Packet} {done : List (UInt16 × Packet)}
    (hstep : step s .round = some u) (hround : Ring.Round .hvf s.dev.rxRing head frame u.dev.rxRing)
    (rest : Ledger u es done t) : Ledger s (.round :: es) ((head, frame) :: done) t

/-- No round throws. The frames go to the guest once and in order, or are queued. Between two polls, a frame is queued
    only for want of a buffer, or another poll is on its way. --/
structure Delivered (s : NetPath) (es : List Event) (t : NetPath) : Prop where
  alive : t.phase ≠ .ended
  frames : ∃ done, Ledger s es done t ∧ s.dev.rxFrames ++ arrivals es = done.map Prod.snd ++ t.dev.rxFrames
  announced : t.phase = .idle → t.dev.rxFrames = [] ∨ ¬available t.dev ∨ Announced t

/-! ### The invariant -/

/-- `n` rounds are enough for the frames or for the buffers, or another poll is on its way. --/
def Covered (s : NetPath) (n : Nat) : Prop := s.dev.rxFrames.length ≤ n ∨ buffers s.dev ≤ n ∨ Announced s

def PhaseInv (s : NetPath) : Phase → Prop
  | .idle => Covered s 0
  | .entered => True
  | .rounds left => Covered s left
  | .ended => False

structure Inv (s : NetPath) : Prop where
  link : s.dev.link = some .socket
  pipe : s.dev.notifyPending = true → 0 < s.dev.pipe
  frames : ∀ frame ∈ s.dev.rxFrames, frame ≠ []
  phase : PhaseInv s s.phase

/-- What a step does with the frames that are queued. --/
inductive Moves (s : NetPath) : Event → Option (UInt16 × Packet) → NetPath → Prop
  | quiet {e : Event} {u : NetPath} (hframes : u.dev.rxFrames = s.dev.rxFrames ++ arrivals [e])
    (hsame : e = .round → u.dev = s.dev) : Moves s e none u
  | round {u : NetPath} {head : UInt16} {frame : Packet} (hround : Ring.Round .hvf s.dev.rxRing head frame u.dev.rxRing)
    (hframes : s.dev.rxFrames = frame :: u.dev.rxFrames) : Moves s .round (some (head, frame)) u

section
variable {s t u : NetPath} {e : Event} {n : Nat}

theorem PhaseInv.mono (h : PhaseInv s s.phase) (hcovered : ∀ n, Covered s n → Covered u n) (hphase : u.phase = s.phase) :
    PhaseInv u u.phase := by
  rw [hphase]
  cases hp : s.phase with
  | idle | rounds left =>
    rw [hp] at h
    exact hcovered _ h
  | entered => trivial
  | ended =>
    rw [hp] at h
    exact h.elim

theorem Announced.phase (h : Announced u) (hs : PhaseInv s s.phase) (hphase : u.phase = s.phase) : PhaseInv u u.phase :=
  hs.mono (fun _ _ => Or.inr (Or.inr h)) hphase

/-! ### Steps -/

theorem readable_notifyHost {dev : NetDevice} (h : dev.notifyPending = true → 0 < dev.pipe) :
    0 < dev.notifyHost.pipe ∧ dev.notifyHost.link = dev.link ∧ dev.notifyHost.rxFrames = dev.rxFrames := by
  unfold NetDevice.notifyHost
  split
  · rename_i hpending
    exact ⟨h hpending, rfl, rfl⟩
  · exact ⟨Nat.succ_pos _, rfl, rfl⟩

/-- The guest's register writes leave the frames alone. --/
theorem write_cases {off len : Nat} {value : UInt32} (h : s.write off len value = some u) :
    SameFrames s.dev u.dev ∧ (u = s ∨ u.phase = .entered ∨ u.phase = s.phase ∧ u.changed = true) := by
  unfold write at h
  split at h
  · cases h
    exact ⟨sameFrames_frame.refl _, Or.inl rfl⟩
  · split at h
    · rename_i reg _
      by_cases hreg : reg = .queueNotify
      · rw [if_pos hreg] at h
        unfold notify at h
        split at h
        · cases h
          exact ⟨sameFrames_frame.refl _, Or.inr (Or.inl rfl)⟩
        · split at h
          · have hsame := sameFrames_serveTxQueue s.dev
            rcases hrun : serveTxQueue s.dev with ⟨e | ⟨⟩, dev⟩
            · rw [hrun] at h
              cases h
            · rw [hrun] at h hsame
              cases h
              exact ⟨hsame, Or.inr (Or.inl rfl)⟩
          · cases h
            exact ⟨sameFrames_frame.refl _, Or.inl rfl⟩
      · rw [if_neg hreg] at h
        cases h
        exact ⟨⟨rfl, rfl, rfl, rfl⟩, Or.inr (Or.inr ⟨rfl, rfl⟩)⟩
    · cases h
      exact ⟨sameFrames_frame.refl _, Or.inl rfl⟩

theorem Inv.of_sameFrames (h : Inv s) (hsame : SameFrames s.dev u.dev) (hphase : PhaseInv u u.phase) : Inv u := by
  refine ⟨hsame.link.trans h.link, fun hpending => ?_, fun frame hframe => ?_, hphase⟩
  · rw [hsame.pipe]
    exact h.pipe (hsame.pending ▸ hpending)
  · exact h.frames frame (hsame.frames ▸ hframe)

theorem start_of_inv (h : Inv s) (hok : Roomy s .start) :
    Inv s.start ∧ s.start.dev.rxFrames = s.dev.rxFrames := by
  have henabled : s.dev.enabled = true := by
    rw [NetDevice.enabled, h.link]
    rfl
  unfold start
  rw [henabled, Bool.true_and]
  split
  · have hdev : s.dev.drainNotify.pollSlirp = s.dev.drainNotify := by
      unfold NetDevice.pollSlirp
      rw [if_neg (by simp [drainNotify, h.link])]
    rw [hdev]
    refine ⟨⟨h.link, fun hpending => ?_, h.frames, ?_⟩, rfl⟩
    · cases hpending
    · rcases hok with hfew | hfew | hqueued | hchanged
      · exact Or.inl hfew
      · exact Or.inr (Or.inl hfew)
      · exact Or.inr (Or.inr (Or.inr (Or.inl hqueued)))
      · exact Or.inr (Or.inr (Or.inr (Or.inr hchanged)))
  · rename_i hready
    exact ⟨h.of_sameFrames (sameFrames_frame.refl _) (Or.inr (Or.inl (Nat.le_of_eq (if_neg hready)))), rfl⟩

/-- A round uses up one of the rounds that are left, and a frame or a buffer. --/
theorem round_of_inv {left : Nat} (h : Inv s) (hphase : s.phase = .rounds (left + 1)) (hok : Finds Deliverable s.dev) :
    Inv (s.round left) ∧ ∃ d, Moves s .round d (s.round left) := by
  obtain ⟨more, dev, hrun, hserved⟩ := pollRound_served hok h.frames
  have hleft : Covered s (left + 1) := by
    have hinv := h.phase
    rw [hphase] at hinv
    exact hinv
  have hround : s.round left = { s with dev := dev, phase := if more ∧ 0 < left then .rounds left else .idle } := by
    unfold round
    rw [hrun]
  rw [hround]
  cases hserved with
  | dry hno =>
    refine ⟨⟨h.link, h.pipe, h.frames, ?_⟩, none, .quiet (List.append_nil _).symm fun _ => rfl⟩
    show Covered _ 0
    rcases hno with hno | hno
    · exact Or.inr (Or.inl (Nat.le_of_eq hno))
    · exact Or.inl (Nat.le_of_eq (congrArg List.length hno))
  | frame hring hframes hbuffers hlink hpending hpipe =>
    have hcovered : Covered { s with dev := dev, phase := if (true : Bool) ∧ 0 < left then .rounds left else .idle } left := by
      rcases hleft with hfew | hfew | hreadable | hother
      · rw [hframes, List.length_cons] at hfew
        exact Or.inl (Nat.le_of_succ_le_succ hfew)
      · exact Or.inr (Or.inl (Nat.le_of_succ_le_succ (hbuffers.trans_le hfew)))
      · refine Or.inr (Or.inr (Or.inl ?_))
        rw [NetDevice.notifyReadable, hpipe]
        exact hreadable
      · exact Or.inr (Or.inr (Or.inr hother))
    refine ⟨⟨hlink.trans h.link, fun hp => ?_, fun frame hframe => ?_, ?_⟩, _, .round hring hframes⟩
    · rw [hpipe]
      exact h.pipe (hpending ▸ hp)
    · exact h.frames frame (hframes ▸ List.mem_cons_of_mem _ hframe)
    · rcases Nat.eq_zero_or_pos left with rfl | hpos
      · exact hcovered
      · simp only [hpos, and_true, if_true]
        simp only [hpos, and_true, if_true] at hcovered
        exact hcovered

theorem step_inv (h : Inv s) (hok : Roomy s e) (hstep : step s e = some u) : Inv u ∧ ∃ d, Moves s e d u := by
  cases e with
  | frame frame =>
    obtain ⟨⟨-, hpos, -⟩, heq⟩ := Option.ite_none_right_eq_some.mp hstep
    cases heq
    refine ⟨⟨h.link, h.pipe, fun other hother => ?_, ?_⟩, none, .quiet rfl nofun⟩
    · rcases List.mem_append.mp hother with hother | hother
      · exact h.frames other hother
      · rw [List.mem_singleton.mp hother]
        exact List.ne_nil_of_length_pos hpos
    · exact Announced.phase (s := s) (Or.inr (Or.inl rfl)) h.phase rfl
  | notifyHost =>
    obtain ⟨-, heq⟩ := Option.ite_none_right_eq_some.mp hstep
    cases heq
    obtain ⟨hpipe, hlink, hframes⟩ := readable_notifyHost h.pipe
    refine ⟨⟨hlink.trans h.link, fun _ => hpipe, fun frame hframe => h.frames frame (hframes ▸ hframe), ?_⟩, none,
      .quiet (by simp [hframes, arrivals]) nofun⟩
    exact Announced.phase (s := s) (Or.inl (decide_eq_true hpipe)) h.phase rfl
  | guest bytes =>
    cases hstep
    refine ⟨⟨h.link, h.pipe, h.frames, ?_⟩, none, .quiet (List.append_nil _).symm nofun⟩
    exact Announced.phase (s := s) (Or.inr (Or.inr rfl)) h.phase rfl
  | write off len value =>
    obtain ⟨-, hwrite⟩ := Option.ite_none_right_eq_some.mp hstep
    obtain ⟨hsame, hcase⟩ := write_cases hwrite
    refine ⟨h.of_sameFrames hsame ?_, none, .quiet (by simp [hsame.frames, arrivals]) nofun⟩
    rcases hcase with rfl | hentered | ⟨hphase, hchanged⟩
    · exact h.phase
    · rw [hentered]
      trivial
    · exact Announced.phase (Or.inr (Or.inr hchanged)) h.phase hphase
  | poll =>
    obtain ⟨-, heq⟩ := Option.ite_none_right_eq_some.mp hstep
    cases heq
    unfold poll
    split
    · exact ⟨h.of_sameFrames (sameFrames_frame.refl _) trivial, none, .quiet (List.append_nil _).symm nofun⟩
    · exact ⟨h, none, .quiet (List.append_nil _).symm nofun⟩
  | start =>
    obtain ⟨-, heq⟩ := Option.ite_none_right_eq_some.mp hstep
    cases heq
    obtain ⟨hinv, hframes⟩ := start_of_inv h hok
    exact ⟨hinv, none, .quiet (by simp [hframes, arrivals]) nofun⟩
  | round =>
    simp only [step] at hstep
    split at hstep
    · rename_i left hphase
      cases hstep
      exact round_of_inv h hphase hok
    · cases hstep

theorem inv_started (mem : GuestMemory) (regs : Transport 2) : Inv (started mem regs) :=
  ⟨rfl, nofun, nofun, Or.inl (Nat.le_refl 0)⟩

theorem arrivals_cons (e : Event) (es : List Event) : arrivals (e :: es) = arrivals [e] ++ arrivals es := by
  cases e <;> rfl

theorem delivered_of_inv {es : List Event} (hrun : Runs.Under step Roomy s es t) (hs : Inv s) :
    Inv t ∧ ∃ done, Ledger s es done t ∧ s.dev.rxFrames ++ arrivals es = done.map Prod.snd ++ t.dev.rxFrames := by
  induction hrun with
  | nil => exact ⟨hs, [], .nil, List.append_nil _⟩
  | @cons s u t e es hok hstep _ ih =>
    obtain ⟨hu, d, hmoves⟩ := step_inv hs hok hstep
    obtain ⟨ht, done, hledger, hsplit⟩ := ih hu
    cases hmoves with
    | quiet hframes hsame =>
      refine ⟨ht, done, .quiet hstep hsame hledger, ?_⟩
      rw [arrivals_cons, ← List.append_assoc, ← hframes, hsplit]
    | @round _ head frame hround hframes =>
      refine ⟨ht, (head, frame) :: done, .round hstep hround hledger, ?_⟩
      rw [hframes, List.cons_append, List.map_cons, List.cons_append, ← hsplit]
      rfl

/-- Left alone, the rounds of a poll are `poll_rx`. --/
theorem rounds_run {dev : NetDevice} : ∀ (left : Nat) {s : NetPath}, s.phase = .rounds (left + 1) →
    pollRounds (left + 1) s.dev = (.ok (), dev) → ∃ n u,
      Runs.Under step (fun _ _ => True) s (List.replicate n .round) u ∧ u.dev = dev ∧ u.phase = .idle := by
  intro left
  induction left with
  | zero =>
    intro s hphase hpoll
    rw [pollRounds_succ] at hpoll
    obtain ⟨more, d, hround, hrest⟩ := Exec.bind_eq_ok hpoll
    have hd : d = dev := by
      cases more <;> exact (Prod.mk.inj hrest).2
    refine ⟨1, s.round 0, .cons trivial (by simp [step, hphase]) .nil, ?_, ?_⟩
    · simp [round, hround, hd]
    · simp [round, hround]
  | succ left ih =>
    intro s hphase hpoll
    rw [pollRounds_succ] at hpoll
    obtain ⟨more, d, hround, hrest⟩ := Exec.bind_eq_ok hpoll
    have hstep : step s .round = some (s.round (left + 1)) := by simp [step, hphase]
    cases more with
    | false =>
      have hd : d = dev := (Prod.mk.inj hrest).2
      refine ⟨1, _, .cons trivial hstep .nil, ?_, ?_⟩
      · simp [round, hround, hd]
      · simp [round, hround]
    | true =>
      obtain ⟨n, u, hrun, hdev, hidle⟩ := ih (s := s.round (left + 1)) (by simp [round, hround]) (by
        simp only [round, hround]
        exact hrest)
      exact ⟨n + 1, u, .cons trivial hstep hrun, hdev, hidle⟩

theorem pollRx_run {dev : NetDevice} (hphase : s.phase = .entered) (hpoll : pollRx s.dev = (.ok (), dev)) :
    ∃ n u, Runs.Under step (fun _ _ => True) s (.start :: List.replicate n .round) u ∧ u.dev = dev ∧ u.phase = .idle := by
  have hstep : step s .start = some s.start := by simp [step, hphase]
  unfold pollRx at hpoll
  rw [Exec.bind_of_ok Exec.get_apply] at hpoll
  by_cases hready : (s.dev.enabled && (s.dev.regs.queues rxq).ready) = true
  · rw [if_pos hready, Exec.bind_of_ok Exec.modify_apply, Exec.bind_of_ok Exec.modify_apply] at hpoll
    obtain ⟨n, u, hrun, hdev, hidle⟩ := rounds_run 31 (s := s.start) (by rw [start, if_pos hready]; rfl) (by
      rw [start, if_pos hready]
      exact hpoll)
    exact ⟨n, u, .cons trivial hstep hrun, hdev, hidle⟩
  · rw [if_neg hready] at hpoll
    refine ⟨0, _, .cons trivial hstep .nil, ?_, ?_⟩
    · rw [start, if_neg hready]
      exact (Prod.mk.inj hpoll).2
    · rw [start, if_neg hready]

end

/-- A RAM of 4 KiB with a buffer of 2 KiB at 0x40000300, which the avail ring offers. --/
def bufferRam : GuestMemory :=
  ⟨⟨4096, fun i => if i = 1 then 3 else if i = 3 then 0x40 else if i = 9 then 8 else if i = 12 then 2
    else if i = 0x102 then 1 else 0⟩, by decide⟩

def bufferQueue : Queue := fourEntries 0x40000000 0x40000100 0x40000200

def bufferRegs : Transport 2 where
  status := 0
  drvFeatures := 0
  devFeaturesSel := 0
  drvFeaturesSel := 0
  queueSel := rxq
  interruptStatus := 0
  queues _ := bufferQueue
  irq := false

/-- A frame is read and announced, and the run loop polls. --/
def oneFrame (frame : Packet) : List Event := [.frame frame, .notifyHost, .poll, .start, .round]

/-- The state in which the poll starts its only round. --/
def polling (frame : Packet) : NetPath where
  dev := { mem := bufferRam, regs := bufferRegs, link := some .socket, rxFrames := [frame], host := [], notifyPending := false,
           pipe := 0, sent := [] }
  phase := .rounds pollBatch
  queued := false
  changed := false

theorem ringsFit_buffer : RingsFit .hvf bufferRam bufferQueue := ⟨by decide, by decide, by decide⟩

theorem canTake_buffer : Ring.CanTake .hvf ⟨bufferRam, bufferQueue⟩ [⟨0x40000300, 0x800, 2, 0⟩] := by
  refine ⟨by decide, rfl, fun d hd => ?_⟩
  rcases List.mem_singleton.mp hd with rfl
  exact ⟨(by decide : ((2 : UInt16) &&& 2 != 0) = true), by decide⟩

theorem finds_polling {P : Packet → List Desc → Prop} {frame : Packet} (h : P frame [⟨0x40000300, 0x800, 2, 0⟩]) :
    Finds P (polling frame).dev := by
  refine ⟨fun _ => ringsFit_buffer, fun _ i h1 h2 => ?_, fun _ other rest heq => ?_⟩
  · have hlow : 0x40000200 ≤ 0x40000000 + i := h2.1
    have hhigh : 0x40000000 + i < 0x40000100 + 12 := h1.2
    omega
  · cases heq
    refine ⟨_, canTake_buffer, fun d hd i hi => ?_, h⟩
    rcases List.mem_singleton.mp hd with rfl
    have hlow : 0x40000300 ≤ 0x40000000 + i := hi.1
    rintro (⟨-, h2⟩ | ⟨-, h2⟩ | ⟨-, h2⟩)
    · have : 0x40000000 + i < 0x40000000 + 64 := h2
      omega
    · have : 0x40000000 + i < 0x40000100 + 12 := h2
      omega
    · have : 0x40000000 + i < 0x40000200 + 36 := h2
      omega

theorem under_oneFrame {frame : Packet} {ok : NetPath → Event → Prop} (hpos : 0 < frame.length)
    (hle : frame.length ≤ maxSocketFrame) (hok : ∀ s e, s = polling frame ∨ s.dev.rxFrames.length ≤ 1 ∧ e ≠ .round → ok s e) :
    Runs.Under step ok (started bufferRam bufferRegs) (oneFrame frame) ((polling frame).round 31) :=
  .cons (hok _ _ (Or.inr ⟨Nat.zero_le 1, nofun⟩)) (if_pos ⟨rfl, hpos, hle⟩) <|
  .cons (hok _ _ (Or.inr ⟨Nat.le_refl 1, nofun⟩)) rfl <|
  .cons (hok _ _ (Or.inr ⟨Nat.le_refl 1, nofun⟩)) rfl <|
  .cons (hok _ _ (Or.inr ⟨Nat.le_refl 1, nofun⟩)) rfl <|
  .cons (hok _ _ (Or.inl rfl)) rfl .nil

theorem round_of_large {frame : Packet} (hlarge : maxFrameSize < frame.length) :
    ((polling frame).round 31).phase = .ended := by
  obtain ⟨yes, hbuffer, hiff⟩ := hasRxBuffer_apply (s := (polling frame).dev) fun _ => ringsFit_buffer
  have hidx : (fourEntries 0x40000000 0x40000100 0x40000200).lastAvail ≠ availIdx .hvf bufferRam bufferQueue := by decide
  have hyes : yes = true := hiff.mpr ⟨rfl, hidx⟩
  subst hyes
  have hne : frame ≠ [] := List.ne_nil_of_length_pos (Nat.zero_lt_of_lt hlarge)
  have hthrow : pollRound (polling frame).dev = (.error "virtio-net rx frame too large", popFrame (polling frame).dev) := by
    unfold pollRound
    rw [Exec.bind_of_ok hbuffer, if_pos rfl, Exec.bind_of_ok Exec.get_apply]
    show (Exec.modify popFrame >>= fun _ => if frame = [] ∧ _ then _ else _) _ = _
    rw [Exec.bind_of_ok Exec.modify_apply, if_neg fun h => hne h.1]
    exact Exec.bind_of_error (Exec.bind_of_error (Exec.check_of_false (decide_eq_false (Nat.not_le_of_lt hlarge))))
  unfold round
  rw [hthrow]

end NetPath
end NodeVmm.Hvf
