import NodeVmm.Lib.Words
import NodeVmm.Theorems.NetFrame

/-! RX accounting. One injection that finds room takes one head and publishes it (`Round`); a poll or a whole run is
    a list of such rounds (`Rounds`), which moves the avail position and the used index by the same amount. -/

namespace NodeVmm.Ring
open ByteStore

/-! ### One round -/

/-- The head at the next position is taken, its chain gets the frame, and it is published with the frame's length. --/
structure Round (b : Backend) (r : Ring) (head : UInt16) (frame : Packet) (r' : Ring) : Prop where
  taken : head = availHead b r.mem r.queue
  queue : r'.queue = r.bumpLastAvail.queue
  usedIdx : r'.mem.usedIdx b r.queue = r.mem.usedIdx b r.queue + 1
  usedId : r'.mem.usedId b r.queue (r.mem.usedIdx b r.queue) = head.toUInt32
  usedLen : r'.mem.usedLen b r.queue (r.mem.usedIdx b r.queue) = UInt32.ofNat (12 + frame.length)
  filled : ∃ chain, r.mem.walkChain b r.queue head = .ok chain ∧
    contents b r'.mem chain = contents b (spread b (packetOf frame) chain r.mem) chain
  others : AgreeOn (fun i => InRings b r.queue i ∧ ¬GuestMemory.InUsedIdx b r.queue i ∧
    ¬GuestMemory.InUsedElem b r.queue (r.mem.usedIdx b r.queue) i) r.mem.ram r'.mem.ram

/-- The chain of the next head can be filled, spares the rings, and has room for the frame. --/
structure RoomFor (b : Backend) (r : Ring) (frame : Packet) (chain : List Desc) : Prop extends CanTake b r chain where
  spares : ∀ d ∈ chain, Blk.Spares b (InRings b r.queue) d
  room : 12 + frame.length ≤ capacity chain

section
variable {b : Backend} {r r' : Ring} {frame : Packet} {chain : List Desc} {head : UInt16}

theorem Round.size (h : Round b r head frame r') : r'.mem.size = r.mem.size := h.others.size

theorem Round.ringsFit (h : Round b r head frame r') (hfit : RingsFit b r.mem r.queue) : RingsFit b r'.mem r'.queue := by
  rw [h.queue]
  obtain ⟨h1, h2, h3⟩ := hfit.congr h.size
  exact ⟨h1, h2, h3⟩

theorem round_of_room (hfit : RingsFit b r.mem r.queue) (h : RoomFor b r frame chain) :
    ∃ r', injectFrame b frame r = (.ok true, r') ∧ Round b r (availHead b r.mem r.queue) frame r' := by
  have hrings : AgreeOn (InRings b r.queue) r.mem.ram (spread b (packetOf frame) chain r.mem).ram :=
    agreeOn_spread fun d hd i hi hr => h.spares d hd i ((h.fillable d hd).inRam.touches_iff.mp hi) hr
  have hcan : (spread b (packetOf frame) chain r.mem).CanPublish b r.queue :=
    GuestMemory.canPublish_of_inRam ((GuestMemory.inRam_congr (size_spread chain)).mpr hfit.device)
  have hidx : (spread b (packetOf frame) chain r.mem).usedIdx b r.queue = r.mem.usedIdx b r.queue :=
    hrings.readU16 fun i hi => Or.inr (Or.inr (GuestMemory.touches_of_inUsedIdx hfit.device
      ((GuestMemory.usedIdx_inRam hfit.device).touches_iff.mp hi)))
  have hpub := GuestMemory.agreeOn_published (availHead b r.mem r.queue).toUInt32 (UInt32.ofNat (12 + frame.length)) hcan
  refine ⟨_, injectFrame_of_room h.toCanTake h.room hfit.device, rfl, rfl, ?_, ?_, ?_, ⟨chain, h.walk, ?_⟩, ?_⟩
  · exact GuestMemory.usedIdx_published.trans (congrArg (· + 1) hidx)
  · rw [← hidx]
    exact GuestMemory.usedId_published hcan
  · rw [← hidx]
    exact GuestMemory.usedLen_published hcan
  · refine contents_congr fun d hd i hi => hpub.byte i ?_
    have hin := h.spares d hd i ((h.fillable d hd).inRam.touches_iff.mp hi)
    exact ⟨fun hu => hin (Or.inr (Or.inr (GuestMemory.touches_of_inUsedIdx hfit.device hu))),
      fun hu => hin (Or.inr (Or.inr (GuestMemory.touches_of_inUsedElem hfit.device hu)))⟩
  · rw [hidx] at hpub
    exact (hrings.mono fun i hi => hi.1).trans (hpub.mono fun i hi => hi.2)

end

/-! ### Many rounds -/

/-- The rounds of a list of frames, with the heads that they took. --/
inductive Rounds (b : Backend) : Ring → List (UInt16 × Packet) → Ring → Prop
  | nil {r : Ring} : Rounds b r [] r
  | cons {r r₁ r' : Ring} {head : UInt16} {frame : Packet} {rest : List (UInt16 × Packet)}
    (first : Round b r head frame r₁) (others : Rounds b r₁ rest r') : Rounds b r ((head, frame) :: rest) r'

section
variable {b : Backend} {r r₁ r' : Ring} {done more : List (UInt16 × Packet)}

theorem Rounds.append (h : Rounds b r done r₁) (h' : Rounds b r₁ more r') : Rounds b r (done ++ more) r' := by
  induction h with
  | nil => exact h'
  | cons first _ ih => exact .cons first (ih h')

/-- Rounds take and publish equally many heads. --/
theorem Rounds.moves (h : Rounds b r done r') :
    r'.queue = { r.queue with lastAvail := r.queue.lastAvail + UInt16.ofNat done.length } ∧
      r'.mem.usedIdx b r.queue = r.mem.usedIdx b r.queue + UInt16.ofNat done.length ∧ r'.mem.size = r.mem.size := by
  induction h with
  | nil => simp
  | @cons r r₁ r' head frame rest first _ ih =>
    obtain ⟨hqueue, hidx, hsize⟩ := ih
    have hused : ∀ m : GuestMemory, m.usedIdx b r₁.queue = m.usedIdx b r.queue := fun m => by
      rw [first.queue]
      rfl
    refine ⟨?_, ?_, hsize.trans first.size⟩
    · rw [hqueue, first.queue, List.length_cons, ← Words.succ_add_ofNat]
      rfl
    · rw [← hused, hidx, hused, first.usedIdx, List.length_cons, ← Words.succ_add_ofNat]

theorem Rounds.ringsFit (h : Rounds b r done r') (hfit : RingsFit b r.mem r.queue) : RingsFit b r'.mem r'.queue := by
  induction h with
  | nil => exact hfit
  | cons first _ ih => exact ih (first.ringsFit hfit)

end
end NodeVmm.Ring
