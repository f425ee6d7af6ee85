import NodeVmm.Lib.Runs
import NodeVmm.Theorems.KvmFraming
import NodeVmm.Theorems.NetRounds

/-! Runs of the KVM device: frames arrive, the guest rewrites its RAM, and polls bring the two together. As long as
    each chain that a poll takes has room for its frame, each head that is taken is published, and each frame goes
    to the guest once and in order. The device takes the head before it knows that the chain has room, and
    nothing gives it back. -/

namespace NodeVmm.Kvm.VirtioNet
open ByteStore

/-! ### Runs -/

inductive Event where
  /-- The host has frames for the guest. --/
  | arrive (frames : List Packet)
  /-- The guest rewrites its RAM. --/
  | guest (bytes : Nat → UInt8)
  /-- The guest notifies the RX queue, or the run loop polls. --/
  | poll

def setRam (bytes : Nat → UInt8) (s : VirtioNet) : VirtioNet := { s with mem := ⟨⟨s.mem.ram.size, bytes⟩, s.mem.fits⟩ }

def arrive (frames : List Packet) (s : VirtioNet) : VirtioNet := { s with host := s.host ++ frames }

/-- A poll that throws ends the VM. --/
def step (s : VirtioNet) : Event → Option VirtioNet
  | .arrive frames => some (arrive frames s)
  | .guest bytes => some (setRam bytes s)
  | .poll => match pollRx s with
    | (.ok (), t) => some t
    | (.error _, _) => none

/-- The frames that arrive in the run. --/
def arrivals : List Event → List Packet
  | [] => []
  | .arrive frames :: rest => frames ++ arrivals rest
  | _ :: rest => arrivals rest

/-- The frames that wait for the guest. libslirp sends no empty one. --/
def waiting (s : VirtioNet) : List Packet := s.slirpRxFrames ++ s.host.filter (· ≠ [])

/-- The device has a buffer to fill. --/
def available (s : VirtioNet) : Prop := s.rx.ready = true ∧ s.rx.lastAvail ≠ availIdx .kvm s.mem s.rx

/-! ### What a poll needs -/

/-- The next chain, if there is one, can be filled and spares the rings. --/
def NextChain (s : VirtioNet) (P : List Desc → Prop) : Prop :=
  available s → ∃ chain, s.rxRing.CanTake .kvm chain ∧ (∀ d ∈ chain, Blk.Spares .kvm (InRings .kvm s.rx) d) ∧ P chain

/-- `P` of the frame and of the chain that it meets, for each of the frames that `flush_slirp_rx` gets to. --/
def EachFlushed (P : Packet → List Desc → Prop) : List Packet → VirtioNet → Prop
  | [], _ => True
  | frame :: rest, s => NextChain s (P frame) ∧
      ∀ t, injectRxFrame frame s = (.ok true, t) → EachFlushed P rest (popFrame t)

/-- The same for the rounds of `poll_rx` over a tap. --/
def EachRead (P : Packet → List Desc → Prop) : Nat → VirtioNet → Prop
  | 0, _ => True
  | rounds + 1, s => ∀ frame rest, s.host = frame :: rest → frame ≠ [] →
      NextChain s (P (frame.take tapBuffer)) ∧
        ∀ r t, injectRxFrame (frame.take tapBuffer) (popTap s) = (.ok r, t) → EachRead P rounds t

/-- The rings are in RAM, and `P` holds of each frame and the chain that it meets in a poll. --/
structure PollFinds (P : Packet → List Desc → Prop) (s : VirtioNet) : Prop where
  fits : s.rx.ready = true → RingsFit .kvm s.mem s.rx
  slirp : s.slirp = true → EachFlushed P (waiting s) (pollSlirp s)
  tap : s.slirp = false → s.rx.ready = true → EachRead P 16 s

/-- Each chain that the device takes has room for the frame and its header. --/
def Roomy (s : VirtioNet) : Event → Prop
  | .poll => PollFinds (fun frame chain => 12 + frame.length ≤ capacity chain) s
  | _ => True

/-! ### One poll -/

section
variable {s t : VirtioNet} {frame : Packet}

theorem hasRxBuffer_apply (hfit : s.rx.ready = true → RingsFit .kvm s.mem s.rx) :
    ∃ yes : Bool, onRx (Ring.hasRxBuffer .kvm) s = (.ok yes, s) ∧ (yes = true ↔ available s) := by
  have hring := Ring.hasRxBuffer_of_inRam (b := .kvm) (s := s.rxRing) fun hready => (hfit hready).availIdx_inRam
  refine ⟨s.rx.ready && s.rx.lastAvail != availIdx .kvm s.mem s.rx, ?_, ?_⟩
  · show ((Ring.hasRxBuffer .kvm s.rxRing).1, putRx (Ring.hasRxBuffer .kvm s.rxRing).2 s) = _
    rw [hring]
    rfl
  · rw [Bool.and_eq_true, bne_iff_ne]
    rfl

/-- Without a buffer the injection changes nothing. --/
theorem injectRxFrame_of_none (hfit : s.rx.ready = true → RingsFit .kvm s.mem s.rx) (hno : ¬available s) :
    injectRxFrame frame s = (.ok false, s) := by
  obtain ⟨yes, hrun, hyes⟩ := hasRxBuffer_apply hfit
  unfold injectRxFrame
  rw [Exec.bind_of_ok hrun, if_neg fun h => hno (hyes.mp h)]
  rfl

/-- The queues of frames stay as they are. --/
structure SameFrames (s t : VirtioNet) : Prop where
  slirp : t.slirp = s.slirp
  host : t.host = s.host
  frames : t.slirpRxFrames = s.slirpRxFrames

theorem injectRxFrame_of_available (hfit : s.rx.ready = true → RingsFit .kvm s.mem s.rx) (hyes : available s)
    (hnext : NextChain s fun chain => 12 + frame.length ≤ capacity chain) :
    ∃ head t, injectRxFrame frame s = (.ok true, t) ∧ Ring.Round .kvm s.rxRing head frame t.rxRing ∧ SameFrames s t := by
  obtain ⟨chain, htake, hspares, hroom⟩ := hnext hyes
  obtain ⟨yes, hrun, hiff⟩ := hasRxBuffer_apply hfit
  obtain ⟨r, hinject, hround⟩ := Ring.round_of_room (hfit hyes.1) ⟨htake, hspares, hroom⟩
  have hon : onRx (Ring.injectFrame .kvm frame) s = (.ok true, putRx r s) := by
    show ((Ring.injectFrame .kvm frame s.rxRing).1, putRx (Ring.injectFrame .kvm frame s.rxRing).2 s) = _
    rw [hinject]
  refine ⟨_, signalQueue (putRx r s), ?_, hround, rfl, rfl, rfl⟩
  unfold injectRxFrame
  rw [Exec.bind_of_ok hrun, if_pos (hiff.mpr hyes), Exec.bind_of_ok hon, if_pos rfl, Exec.bind_of_ok Exec.modify_apply]
  rfl

theorem ringsFit_of_round {head : UInt16} (hfit : s.rx.ready = true → RingsFit .kvm s.mem s.rx)
    (h : Ring.Round .kvm s.rxRing head frame t.rxRing) : t.rx.ready = true → RingsFit .kvm t.mem t.rx := fun hready => by
  have hsame : t.rx.ready = s.rx.ready := by
    show t.rxRing.queue.ready = s.rxRing.queue.ready
    rw [h.queue]
    rfl
  exact h.ringsFit (hfit (hsame ▸ hready))

/-- The flush delivers the first frames, and stops only without a buffer. --/
theorem flushFrames_rounds : ∀ {frames : List Packet} {s : VirtioNet}, s.slirpRxFrames = frames →
    (s.rx.ready = true → RingsFit .kvm s.mem s.rx) →
    EachFlushed (fun frame chain => 12 + frame.length ≤ capacity chain) frames s →
    ∃ done t, flushFrames frames s = (.ok (), t) ∧ Ring.Rounds .kvm s.rxRing done t.rxRing ∧
      frames = done.map Prod.snd ++ t.slirpRxFrames ∧ t.slirp = s.slirp ∧ t.host = s.host ∧
      (t.slirpRxFrames = [] ∨ ¬available t)
  | [], s, hs, _, _ => ⟨[], s, rfl, .nil, hs.symm, rfl, rfl, Or.inl hs⟩
  | frame :: rest, s, hs, hfit, heach => by
    obtain ⟨hnext, hothers⟩ := heach
    by_cases hyes : available s
    · obtain ⟨head, t, hrun, hround, hsame⟩ := injectRxFrame_of_available hfit hyes hnext
      have hpop : (popFrame t).slirpRxFrames = rest := by
        show t.slirpRxFrames.tail = rest
        rw [hsame.frames, hs]
        rfl
      obtain ⟨done, u, hflush, hrounds, hsplit, hslirp, hhost, hend⟩ :=
        flushFrames_rounds hpop (ringsFit_of_round hfit hround) (hothers t hrun)
      refine ⟨(head, frame) :: done, u, ?_, .cons hround hrounds, congrArg (frame :: ·) hsplit,
        hslirp.trans hsame.slirp, hhost.trans hsame.host, hend⟩
      unfold flushFrames
      rw [Exec.bind_of_ok hrun, if_pos rfl, Exec.bind_of_ok Exec.modify_apply]
      exact hflush
    · refine ⟨[], s, ?_, .nil, hs.symm, rfl, rfl, Or.inr hyes⟩
      unfold flushFrames
      rw [Exec.bind_of_ok (injectRxFrame_of_none hfit hyes), if_neg nofun]
      rfl

/-- The rounds over a tap deliver frames in order; what they read and do not deliver is gone. --/
theorem pollTap_rounds : ∀ (rounds : Nat) {s : VirtioNet}, (s.rx.ready = true → RingsFit .kvm s.mem s.rx) →
    EachRead (fun frame chain => 12 + frame.length ≤ capacity chain) rounds s →
    ∃ done t read, pollTap rounds s = (.ok (), t) ∧ Ring.Rounds .kvm s.rxRing done t.rxRing ∧ s.host = read ++ t.host ∧
      done.map Prod.snd = (read.filter (· ≠ [])).map (List.take tapBuffer) ∧ t.slirp = s.slirp ∧
      t.slirpRxFrames = s.slirpRxFrames
  | 0, s, _, _ => ⟨[], s, [], rfl, .nil, rfl, rfl, rfl, rfl⟩
  | rounds + 1, s, hfit, heach => by
    obtain ⟨yes, hbuffer, hiff⟩ := hasRxBuffer_apply hfit
    unfold pollTap
    rw [Exec.bind_of_ok hbuffer]
    by_cases hyes : available s
    · rw [if_pos (hiff.mpr hyes), Exec.bind_of_ok Exec.get_apply]
      rcases hhost : s.host with _ | ⟨frame, rest⟩
      · exact ⟨[], s, [], rfl, .nil, by rw [hhost]; rfl, rfl, rfl, rfl⟩
      · dsimp only
        rw [Exec.bind_of_ok Exec.modify_apply]
        have htail : (popTap s).host = rest := by
          show s.host.tail = rest
          rw [hhost]
          rfl
        by_cases hempty : frame = []
        · subst hempty
          rw [if_pos rfl]
          exact ⟨[], popTap s, [[]], rfl, .nil, by rw [htail]; rfl, rfl, rfl, rfl⟩
        · obtain ⟨hnext, hothers⟩ := heach frame rest hhost hempty
          have hroom : NextChain (popTap s) fun chain => 12 + (frame.take tapBuffer).length ≤ capacity chain := hnext
          obtain ⟨head, t, hrun, hround, hsame⟩ := injectRxFrame_of_available (s := popTap s) hfit hyes hroom
          rw [if_neg hempty, Exec.bind_of_ok hrun]
          obtain ⟨done, u, read, hpoll, hrounds, hread, hdone, hslirp, hframes⟩ :=
            pollTap_rounds rounds (ringsFit_of_round (s := popTap s) hfit hround) (hothers true t hrun)
          refine ⟨(head, frame.take tapBuffer) :: done, u, frame :: read, hpoll, .cons hround hrounds, ?_, ?_,
            hslirp.trans hsame.slirp, hframes.trans hsame.frames⟩
          · rw [List.cons_append, ← hread, hsame.host, htail]
          · have hkeep : (frame :: read).filter (· ≠ []) = frame :: read.filter (· ≠ []) :=
              List.filter_cons_of_pos (decide_eq_true hempty)
            rw [List.map_cons, hdone, hkeep, List.map_cons]
    · rw [if_neg fun h => hyes (hiff.mp h)]
      exact ⟨[], s, [], rfl, .nil, rfl, rfl, rfl, rfl⟩

end

/-- What a poll does to the frames that wait. --/
structure PollEnds (s : VirtioNet) (done : List (UInt16 × Packet)) (t : VirtioNet) : Prop where
  rounds : Ring.Rounds .kvm s.rxRing done t.rxRing
  link : t.slirp = s.slirp
  slirp : s.slirp = true → waiting s = done.map Prod.snd ++ waiting t
  tap : s.slirp = false → ∃ gone, s.host = gone ++ t.host ∧
    (done.map Prod.snd).Sublist ((gone.filter (· ≠ [])).map (List.take tapBuffer))
  stops : s.slirp = true → waiting t = [] ∨ ¬available t

theorem pollRx_ends {s : VirtioNet} (h : PollFinds (fun frame chain => 12 + frame.length ≤ capacity chain) s) :
    ∃ done t, pollRx s = (.ok (), t) ∧ PollEnds s done t := by
  unfold pollRx
  rw [Exec.bind_of_ok Exec.get_apply]
  cases hlink : s.slirp with
  | true =>
    obtain ⟨done, t, hrun, hrounds, hsplit, hslirp, hhost, hend⟩ :=
      flushFrames_rounds (s := pollSlirp s) rfl h.fits (h.slirp hlink)
    have hwait : waiting t = t.slirpRxFrames := by
      rw [waiting, hhost]
      exact List.append_nil _
    refine ⟨done, t, ?_, hrounds, hslirp, fun _ => ?_, fun hs => absurd (hs.symm.trans hlink) nofun, fun _ => ?_⟩
    · rw [if_pos rfl, Exec.bind_of_ok Exec.modify_apply]
      exact hrun
    · rw [hwait]
      exact hsplit
    · rw [hwait]
      exact hend
  | false =>
    rw [if_neg nofun]
    cases hready : s.rx.ready with
    | true =>
      obtain ⟨done, t, read, hrun, hrounds, hread, hdone, hslirp, -⟩ := pollTap_rounds 16 h.fits (h.tap hlink hready)
      rw [if_pos rfl]
      exact ⟨done, t, hrun, hrounds, hslirp, fun hs => absurd (hs.symm.trans hlink) nofun,
        fun _ => ⟨read, hread, by rw [hdone]⟩, fun hs => absurd (hs.symm.trans hlink) nofun⟩
    | false =>
      rw [if_neg nofun]
      exact ⟨[], drainTap s, rfl, .nil, rfl, fun hs => absurd (hs.symm.trans hlink) nofun,
        fun _ => ⟨s.host, (List.append_nil _).symm, List.nil_sublist _⟩, fun hs => absurd (hs.symm.trans hlink) nofun⟩

/-! ### A whole run -/

/-- The run with the rounds of its polls: each head that a poll takes is published by it, with a frame. --/
inductive Ledger : VirtioNet → List Event → List (UInt16 × Packet) → VirtioNet → Prop
  | nil {s : VirtioNet} : Ledger s [] [] s
  | arrive {s t : VirtioNet} {frames : List Packet} {es : List Event} {done : List (UInt16 × Packet)}
    (rest : Ledger (arrive frames s) es done t) : Ledger s (.arrive frames :: es) done t
  | guest {s t : VirtioNet} {bytes : Nat → UInt8} {es : List Event} {done : List (UInt16 × Packet)}
    (rest : Ledger (setRam bytes s) es done t) : Ledger s (.guest bytes :: es) done t
  | poll {s u t : VirtioNet} {es : List Event} {now done : List (UInt16 × Packet)} (run : pollRx s = (.ok (), u))
    (ends : PollEnds s now u) (rest : Ledger u es done t) : Ledger s (.poll :: es) (now ++ done) t

/-- The heads that the run takes are those that it publishes, each with the next frame of the host. libslirp's frames go
    to the guest or wait; frames of the tap may be lost while the queue is not ready. --/
structure Accounted (s : VirtioNet) (es : List Event) (t : VirtioNet) (done : List (UInt16 × Packet)) : Prop where
  ledger : Ledger s es done t
  taken : t.rx.lastAvail = s.rx.lastAvail + UInt16.ofNat done.length
  slirp : s.slirp = true → waiting s ++ (arrivals es).filter (· ≠ []) = done.map Prod.snd ++ waiting t
  tap : s.slirp = false →
    (done.map Prod.snd).Sublist (((s.host ++ arrivals es).filter (· ≠ [])).map (List.take tapBuffer))

section
variable {s t u : VirtioNet} {es : List Event} {now done : List (UInt16 × Packet)}

theorem Accounted.arrive {frames : List Packet} (h : Accounted (arrive frames s) es t done) :
    Accounted s (.arrive frames :: es) t done := by
  refine ⟨.arrive h.ledger, h.taken, fun hs => ?_, fun hs => ?_⟩
  · have hwait : waiting (VirtioNet.arrive frames s) = waiting s ++ frames.filter (· ≠ []) := by
      simp only [waiting, VirtioNet.arrive, List.filter_append, List.append_assoc]
    rw [← h.slirp hs, hwait, arrivals, List.filter_append, List.append_assoc]
  · have htap := h.tap hs
    rw [VirtioNet.arrive, List.append_assoc] at htap
    exact htap

theorem Accounted.poll (hrun : pollRx s = (.ok (), u)) (hends : PollEnds s now u) (h : Accounted u es t done) :
    Accounted s (.poll :: es) t (now ++ done) := by
  refine ⟨.poll hrun hends h.ledger, ?_, fun hs => ?_, fun hs => ?_⟩
  · have hmoved : u.rx.lastAvail = s.rx.lastAvail + UInt16.ofNat now.length :=
      congrArg Queue.lastAvail hends.rounds.moves.1
    rw [h.taken, hmoved, List.length_append, UInt16.ofNat_add, UInt16.add_assoc]
  · rw [hends.slirp hs, List.append_assoc, List.map_append, List.append_assoc]
    exact congrArg _ (h.slirp (hends.link.trans hs))
  · obtain ⟨gone, hgone, hsub⟩ := hends.tap hs
    rw [hgone, List.map_append, List.append_assoc, List.filter_append, List.map_append]
    exact hsub.append (h.tap (hends.link.trans hs))

end

/-- A frame of three bytes arrives, and the device polls. --/
def oneFrame : List Event := [.arrive [[1, 2, 3]], .poll]

theorem nextChain_twoBuffers : NextChain (pollSlirp (arrive [[1, 2, 3]] (sampleDevice (sampleRam 5 0x10))))
    fun chain => 12 + [1, 2, 3].length ≤ capacity chain := by
  refine fun _ => ⟨twoBuffers 5 0x10, ⟨by decide, rfl, fillable_twoBuffers (by decide) (by decide)⟩, fun d hd i hi => ?_, by decide⟩
  have hlow : 0x300 ≤ 0 + i := by
    rcases List.mem_cons.mp hd with rfl | hd
    · exact hi.1
    · rcases List.mem_singleton.mp hd with rfl
      exact Nat.le_trans (by decide) hi.1
  rintro (⟨-, h2⟩ | ⟨-, h2⟩ | ⟨-, h2⟩)
  · have : 0 + i < 0 + 64 := h2
    omega
  · have : 0 + i < 0x100 + 12 := h2
    omega
  · have : 0 + i < 0x200 + 36 := h2
    omega

/-- A chain of one buffer with ten bytes at 0x300. --/
def smallRam (i : Nat) : UInt8 :=
  if i = 1 then 3 else if i = 8 then 10 else if i = 12 then 2 else if i = 0x102 then 1 else 0

end NodeVmm.Kvm.VirtioNet
