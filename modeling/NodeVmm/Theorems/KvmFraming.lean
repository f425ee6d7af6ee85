import NodeVmm.Theorems.NetFrame

/-! Framing on the KVM device. A frame that fits is laid out as twelve zero bytes and the frame, over buffers that do
    not overlap; a packet of the guest goes out without its first twelve bytes, the same through the tap and
    through libslirp; and what one direction lays out the other takes apart. -/

namespace NodeVmm.Kvm
open ByteStore

/-! ### Gathering a packet -/

section
variable {m : GuestMemory} {d : Desc} {chain rest : List Desc} {g : Gather}

/-- The descriptor is readable and its buffer is in RAM. --/
structure Sendable (m : GuestMemory) (d : Desc) : Prop where
  readable : d.writable = false
  inRam : m.InRam .kvm d.addr d.len.toNat

/-- The bytes that the loop has collected. --/
def Gather.bytes (m : GuestMemory) (g : Gather) : Packet := g.packet ++ g.iov.flatMap fun v => m.ram.read v.1 v.2

/-- What one round makes of the locals. --/
structure GatherRound (slirp : Bool) (m : GuestMemory) (d : Desc) (g g' : Gather) : Prop where
  skip : g'.skip = g.skip - d.len.toNat
  bytes : g'.bytes m = g.bytes m ++ (m.ram.read (Backend.kvm.offset d.addr) d.len.toNat).drop g.skip
  count : g'.iov.length ≤ g.iov.length + 1
  filled : (∀ v ∈ g.iov, 0 < v.2) → ∀ v ∈ g'.iov, 0 < v.2
  packet : slirp = false → g'.packet = g.packet
  iov : slirp = true → g'.iov = g.iov

theorem gatherDesc_of_sendable {slirp : Bool} (h : Sendable m d) (hcount : g.iov.length < iovSize)
    (hside : if slirp then g.iov = [] else g.packet = []) :
    ∃ g', gatherDesc slirp m g d = .ok g' ∧ GatherRound slirp m d g g' := by
  unfold gatherDesc
  rw [if_neg (by rw [h.readable]; nofun)]
  by_cases hskip : d.len.toNat ≤ g.skip
  · rw [if_pos hskip]
    refine ⟨_, rfl, rfl, ?_, Nat.le_succ _, fun hf => hf, fun _ => rfl, fun _ => rfl⟩
    rw [List.drop_of_length_le (by rw [length_read]; exact hskip), List.append_nil]
    rfl
  · have hlt : g.skip < d.len.toNat := Nat.lt_of_not_le hskip
    have hlen : d.len.toNat < 2 ^ 32 := d.len.toNat_lt
    have hofNat : (UInt64.ofNat g.skip).toNat = g.skip := by
      rw [UInt64.toNat_ofNat']
      omega
    have hpart : m.InRam .kvm (d.addr + UInt64.ofNat g.skip) (d.len.toNat - g.skip) :=
      h.inRam.add (by omega) (by omega)
    have hoff : Backend.kvm.offset (d.addr + UInt64.ofNat g.skip) = Backend.kvm.offset d.addr + g.skip := by
      rw [h.inRam.offset_add (by omega), hofNat]
    rw [if_neg hskip, if_pos ⟨hlt, hcount⟩, GuestMemory.ptr_of_inRam hpart, hoff]
    have hzero : 0 = g.skip - d.len.toNat := by omega
    cases slirp with
    | true =>
      have hnil : g.iov = [] := hside
      refine ⟨_, rfl, hzero, ?_, Nat.le_succ _, fun hf => hf, nofun, fun _ => rfl⟩
      rw [drop_read]
      simp [Gather.bytes, hnil]
    | false =>
      refine ⟨_, rfl, hzero, ?_, by simp, fun hf v hv => ?_, fun _ => rfl, nofun⟩
      · rw [drop_read]
        simp [Gather.bytes]
      · rcases List.mem_append.mp hv with hv | hv
        · exact hf v hv
        · rw [List.mem_singleton.mp hv]
          exact Nat.sub_pos_of_lt hlt

/-- The loop collects the contents of the chain after the bytes to skip. --/
theorem gather_of_sendable {slirp : Bool} : ∀ {chain : List Desc} {g : Gather}, (∀ d ∈ chain, Sendable m d) →
    g.iov.length + chain.length ≤ iovSize → (if slirp then g.iov = [] else g.packet = []) →
    (∀ v ∈ g.iov, 0 < v.2) →
    ∃ g', chain.foldlM (gatherDesc slirp m) g = .ok g' ∧ g'.bytes m = g.bytes m ++ (contents .kvm m chain).drop g.skip ∧
      (if slirp then g'.iov = [] else g'.packet = []) ∧ ∀ v ∈ g'.iov, 0 < v.2
  | [], g, _, _, hside, hpos => ⟨g, rfl, by simp [contents], hside, hpos⟩
  | d :: rest, g, hsend, hcount, hside, hpos => by
    rw [List.length_cons] at hcount
    obtain ⟨g₁, hrun, hround⟩ := gatherDesc_of_sendable (hsend d List.mem_cons_self) (by omega) hside
    have hside₁ : if slirp then g₁.iov = [] else g₁.packet = [] := by
      cases slirp with
      | true => exact (hround.iov rfl).trans hside
      | false => exact (hround.packet rfl).trans hside
    obtain ⟨g', hrest, hbytes, hside', hpos'⟩ := gather_of_sendable (fun e he => hsend e (List.mem_cons_of_mem _ he))
      (by have := hround.count; omega) hside₁ (hround.filled hpos)
    refine ⟨g', ?_, ?_, hside', hpos'⟩
    · rw [List.foldlM_cons, hrun]
      exact hrest
    · have hcons : contents .kvm m (d :: rest) =
          m.ram.read (Backend.kvm.offset d.addr) d.len.toNat ++ contents .kvm m rest := rfl
      rw [hbytes, hround.bytes, hround.skip, hcons, List.drop_append, length_read, List.append_assoc]

end

/-! ### Sending -/

/-- What went out for a packet of these bytes, if any. An `int` holds the length below 2^31. --/
def SentAs (slirp : Bool) (bytes : Packet) : List Sent → Prop
  | [] => bytes = []
  | [.tap buffers] => slirp = false ∧ bytes ≠ [] ∧ buffers.flatten = bytes
  | [.slirp packet len] => slirp = true ∧ bytes ≠ [] ∧ packet = bytes ∧ (bytes.length < 2 ^ 31 → len.toInt = bytes.length)
  | _ => False

namespace VirtioNet
variable {s t : VirtioNet} {chain : List Desc} {head : UInt16} {frame : Packet}

theorem keepsSent_frame : Exec.Frame fun s t : VirtioNet => t.sent = s.sent := ⟨fun _ => rfl, fun h h' => h'.trans h⟩

theorem keepsSent_injectRxFrame (frame : Packet) : Exec.Keeps (fun s t => t.sent = s.sent) (injectRxFrame frame) := by
  have hF := keepsSent_frame
  have hrx : ∀ {α : Type} (x : Exec Ring α), Exec.Keeps (fun s t : VirtioNet => t.sent = s.sent) (onRx x) :=
    fun _ _ => rfl
  refine Exec.Keeps.bind hF (hrx _) fun _ => Exec.Keeps.ite (fun _ => ?_) fun _ => Exec.Keeps.pure hF
  refine Exec.Keeps.bind hF (hrx _) fun _ => Exec.Keeps.ite (fun _ => ?_) fun _ => Exec.Keeps.pure hF
  exact Exec.Keeps.bind hF (Exec.Keeps.modify fun _ => rfl) fun _ => Exec.Keeps.pure hF

theorem keepsSent_flushFrames : ∀ frames : List Packet, Exec.Keeps (fun s t => t.sent = s.sent) (flushFrames frames)
  | [] => Exec.Keeps.pure keepsSent_frame
  | frame :: rest => by
    have hF := keepsSent_frame
    refine Exec.Keeps.bind hF (keepsSent_injectRxFrame frame) fun _ => Exec.Keeps.ite (fun _ => ?_) fun _ => Exec.Keeps.pure hF
    exact Exec.Keeps.bind hF (Exec.Keeps.modify fun _ => rfl) fun _ => keepsSent_flushFrames rest

/-- The chain of a packet of the guest: readable buffers in RAM. --/
structure TxReady (s : VirtioNet) (head : UInt16) (chain : List Desc) : Prop where
  walk : s.mem.walkChain .kvm s.tx head = .ok chain
  sendable : ∀ d ∈ chain, Sendable s.mem d

/-- The packet goes out without its first twelve bytes. --/
def Sends (s : VirtioNet) (head : UInt16) (chain : List Desc) : Prop :=
  ∃ out, (processTx head s).2.sent = s.sent ++ out ∧ SentAs s.slirp ((contents .kvm s.mem chain).drop 12) out

theorem transmit_sent (hsend : ∀ d ∈ chain, Sendable s.mem d) (hlen : chain.length ≤ iovSize) :
    ∃ out, (transmit chain s).2.sent = s.sent ++ out ∧ SentAs s.slirp ((contents .kvm s.mem chain).drop 12) out := by
  have hstart : if s.slirp then (⟨12, [], []⟩ : Gather).iov = [] else (⟨12, [], []⟩ : Gather).packet = [] := by
    split <;> rfl
  obtain ⟨g, hrun, hbytes, hside, hpos⟩ := gather_of_sendable hsend (by rw [List.length_nil]; omega) hstart
    (fun v hv => nomatch hv)
  have hbytes : g.bytes s.mem = (contents .kvm s.mem chain).drop 12 := hbytes
  have hF := keepsSent_frame
  unfold transmit
  rw [Exec.bind_of_ok Exec.get_apply, Exec.bind_of_ok (by rw [Exec.lift_apply]; exact congrArg (·, s) hrun), ← hbytes]
  cases hslirp : s.slirp with
  | true =>
    rw [hslirp, if_pos rfl] at hside
    have hpacket : g.bytes s.mem = g.packet := by simp [Gather.bytes, hside]
    have hflush : ∀ u : VirtioNet, ((do Exec.modify pollSlirp; flushSlirpRx : Exec VirtioNet Unit) u).2.sent = u.sent :=
      Exec.Keeps.bind hF (Exec.Keeps.modify fun _ => rfl) fun _ =>
        Exec.Keeps.bind hF (Exec.Keeps.get hF) fun v => keepsSent_flushFrames v.slirpRxFrames
    rw [if_pos rfl, hpacket]
    unfold inputSlirpPacket
    by_cases hnil : 0 < g.packet.length
    · refine ⟨[.slirp g.packet (Int32.ofNat g.packet.length)], ?_, rfl, List.ne_nil_of_length_pos hnil, rfl, fun hlt => ?_⟩
      · rw [if_pos hnil, Exec.bind_of_ok Exec.modify_apply]
        exact hflush _
      · exact Int32.toInt_ofNat_of_lt hlt
    · refine ⟨[], ?_, List.eq_nil_of_length_eq_zero (by omega)⟩
      rw [if_neg hnil, Exec.bind_of_ok Exec.pure_apply, List.append_nil]
      exact hflush s
  | false =>
    rw [hslirp, if_neg nofun] at hside
    have hiov : g.bytes s.mem = g.iov.flatMap fun v => s.mem.ram.read v.1 v.2 := by simp [Gather.bytes, hside]
    rw [if_neg nofun, hiov]
    unfold writeTap
    by_cases hnil : 0 < g.iov.length
    · refine ⟨[.tap (g.iov.map fun v => s.mem.ram.read v.1 v.2)], by rw [if_pos hnil]; rfl, rfl, ?_, rfl⟩
      obtain ⟨v, rest, hv⟩ := List.exists_cons_of_length_pos hnil
      rw [hv]
      have hv0 : 0 < v.2 := hpos v (by rw [hv]; exact List.mem_cons_self)
      refine List.ne_nil_of_length_pos ?_
      rw [List.flatMap_cons, List.length_append, length_read]
      omega
    · refine ⟨[], by rw [if_neg hnil, List.append_nil]; rfl, ?_⟩
      rw [List.eq_nil_of_length_eq_zero (by omega : g.iov.length = 0)]
      rfl

theorem sends (h : TxReady s head chain) : Sends s head chain := by
  have hF := keepsSent_frame
  obtain ⟨out, hsent, hout⟩ := transmit_sent h.sendable (GuestMemory.walkChain_length h.walk)
  have hwalk : onTx (Ring.walkChain .kvm head) s = (.ok chain, s) := by
    show ((Ring.walkChain .kvm head s.txRing).1, putTx (Ring.walkChain .kvm head s.txRing).2 s) = _
    rw [Ring.walkChain_of_ok h.walk]
    rfl
  refine ⟨out, ?_, hout⟩
  unfold processTx
  rw [Exec.bind_of_ok hwalk, ← hsent]
  have hlast : Exec.Keeps (fun s t : VirtioNet => t.sent = s.sent) (do
      onTx (Ring.pushUsed .kvm head 0)
      Exec.modify signalQueue) := Exec.Keeps.bind hF (fun _ => rfl) fun _ => Exec.Keeps.modify fun _ => rfl
  rcases htransmit : transmit chain s with ⟨e | u, t⟩
  · rw [Exec.bind_of_error htransmit]
  · rw [Exec.bind_of_ok htransmit]
    exact hlast t

/-! ### Receiving -/

/-- The device finds a buffer, whose chain can be filled, and its used ring is in RAM. --/
structure RxReady (s : VirtioNet) (chain : List Desc) : Prop where
  available : s.rx.ready = true ∧ s.rx.lastAvail ≠ availIdx .kvm s.mem s.rx
  index : s.mem.InRam .kvm s.rx.availIdxAddr 2
  take : s.rxRing.CanTake .kvm chain
  used : s.mem.InRam .kvm s.rx.deviceAddr (4 + 8 * s.rx.size)

/-- The buffers share no byte with one another or with the used ring. --/
structure NoOverlap (s : VirtioNet) (chain : List Desc) : Prop where
  buffers : chain.Pairwise (Desc.Apart .kvm)
  used : ∀ d ∈ chain, ∀ i, Touches .kvm d.addr d.len.toNat i → ¬Touches .kvm s.rx.deviceAddr (4 + 8 * s.rx.size) i

/-- The frame is in the chain, and the used ring says so. --/
structure RxFramed (frame : Packet) (chain : List Desc) (s t : VirtioNet) : Prop where
  contents : contents .kvm t.mem chain = Ring.netHeader ++ frame ++ (contents .kvm s.mem chain).drop (12 + frame.length)
  usedIdx : t.mem.usedIdx .kvm s.rx = s.mem.usedIdx .kvm s.rx + 1
  usedId : t.mem.usedId .kvm s.rx (s.mem.usedIdx .kvm s.rx) = (availHead .kvm s.mem s.rx).toUInt32
  usedLen : t.mem.usedLen .kvm s.rx (s.mem.usedIdx .kvm s.rx) = UInt32.ofNat (12 + frame.length)

/-- The first `n` bytes of the chain, as buffers with address and length. --/
def filled : Nat → List Desc → List (UInt64 × Nat)
  | _, [] => []
  | n, d :: rest => (d.addr, min n d.len.toNat) :: filled (n - d.len.toNat) rest

/-- A device that sends the filled buffers sends the frame, whatever else has changed. --/
def SendsBack (frame : Packet) (chain : List Desc) (t : VirtioNet) : Prop :=
  ∀ (u : VirtioNet) (head : UInt16) (back : List Desc), TxReady u head back →
    (back.map fun d => (d.addr, d.len.toNat)) = filled (12 + frame.length) chain →
    (∀ d ∈ chain, ∀ i, Within (Backend.kvm.offset d.addr) d.len.toNat i → u.mem.ram.byte i = t.mem.ram.byte i) →
    ∃ out, (processTx head u).2.sent = u.sent ++ out ∧ SentAs u.slirp frame out

/-- A frame that fits is received, and can be sent back. --/
def Framed (s : VirtioNet) (frame : Packet) (chain : List Desc) : Prop :=
  ∃ t, injectRxFrame frame s = (.ok true, t) ∧ RxFramed frame chain s t ∧ SendsBack frame chain t

theorem hasRxBuffer_of_ready (h : RxReady s chain) : onRx (Ring.hasRxBuffer .kvm) s = (.ok true, s) := by
  have hring : Ring.hasRxBuffer .kvm s.rxRing = (.ok true, s.rxRing) := by
    rw [Ring.hasRxBuffer_of_inRam fun _ => h.index]
    have hready : s.rxRing.queue.ready = true := h.available.1
    have hne : (s.rxRing.queue.lastAvail != availIdx .kvm s.rxRing.mem s.rxRing.queue) = true := bne_iff_ne.mpr h.available.2
    rw [hready, hne]
    rfl
  show ((Ring.hasRxBuffer .kvm s.rxRing).1, putRx (Ring.hasRxBuffer .kvm s.rxRing).2 s) = _
  rw [hring]
  rfl

/-- The device after it has received a frame. --/
def received (s : VirtioNet) (frame : Packet) (chain : List Desc) : VirtioNet :=
  signalQueue (putRx (Ring.setMem ((spread .kvm (packetOf frame) chain s.mem).published .kvm s.rx
    (availHead .kvm s.mem s.rx).toUInt32 (UInt32.ofNat (12 + frame.length))) s.rxRing.bumpLastAvail) s)

theorem injectRxFrame_of_room (h : RxReady s chain) (hroom : 12 + frame.length ≤ capacity chain) :
    injectRxFrame frame s = (.ok true, received s frame chain) := by
  have hinject : onRx (Ring.injectFrame .kvm frame) s = (.ok true, putRx (Ring.setMem
      ((spread .kvm (packetOf frame) chain s.mem).published .kvm s.rx (availHead .kvm s.mem s.rx).toUInt32
        (UInt32.ofNat (12 + frame.length))) s.rxRing.bumpLastAvail) s) := by
    show ((Ring.injectFrame .kvm frame s.rxRing).1, putRx (Ring.injectFrame .kvm frame s.rxRing).2 s) = _
    rw [Ring.injectFrame_of_room h.take hroom h.used]
    rfl
  unfold injectRxFrame
  rw [Exec.bind_of_ok (hasRxBuffer_of_ready h), if_pos rfl, Exec.bind_of_ok hinject, if_pos rfl,
    Exec.bind_of_ok Exec.modify_apply]
  rfl

theorem rxFramed (h : RxReady s chain) (hover : NoOverlap s chain) (hroom : 12 + frame.length ≤ capacity chain) :
    RxFramed frame chain s (received s frame chain) := by
  have hcan : (spread .kvm (packetOf frame) chain s.mem).CanPublish .kvm s.rx :=
    GuestMemory.canPublish_of_inRam ((GuestMemory.inRam_congr (size_spread chain)).mpr h.used)
  have hidx : (spread .kvm (packetOf frame) chain s.mem).usedIdx .kvm s.rx = s.mem.usedIdx .kvm s.rx := by
    refine AgreeOn.readU16 (agreeOn_spread (K := Touches .kvm s.rx.deviceAddr (4 + 8 * s.rx.size)) fun d hd i hi hu => ?_)
      fun i hi => GuestMemory.touches_of_inUsedIdx h.used ((GuestMemory.usedIdx_inRam h.used).touches_iff.mp hi)
    exact hover.used d hd i ((h.take.fillable d hd).inRam.touches_iff.mp hi) hu
  have hpublished := GuestMemory.agreeOn_published (availHead .kvm s.mem s.rx).toUInt32
    (UInt32.ofNat (12 + frame.length)) hcan
  refine ⟨?_, ?_, ?_, ?_⟩
  · have hkeep : NodeVmm.contents .kvm (received s frame chain).mem chain =
        NodeVmm.contents .kvm (spread .kvm (packetOf frame) chain s.mem) chain :=
      contents_congr fun d hd i hi => hpublished.byte i ⟨fun hu => ?_, fun hu => ?_⟩
    · rw [hkeep, contents_spread hover.buffers, List.take_of_length_le (by rw [length_packetOf]; exact hroom),
        length_packetOf]
      rfl
    · exact hover.used d hd i ((h.take.fillable d hd).inRam.touches_iff.mp hi) (GuestMemory.touches_of_inUsedIdx h.used hu)
    · exact hover.used d hd i ((h.take.fillable d hd).inRam.touches_iff.mp hi) (GuestMemory.touches_of_inUsedElem h.used hu)
  · exact GuestMemory.usedIdx_published.trans (congrArg (· + 1) hidx)
  · rw [← hidx]
    exact GuestMemory.usedId_published hcan
  · rw [← hidx]
    exact GuestMemory.usedLen_published hcan

/-- The first bytes of a chain. --/
theorem read_filled (m : GuestMemory) : ∀ (n : Nat) (chain : List Desc),
    ((filled n chain).flatMap fun v => m.ram.read (Backend.kvm.offset v.1) v.2) = (contents .kvm m chain).take n
  | n, [] => by simp [filled, contents]
  | n, d :: rest => by
    have hcons : contents .kvm m (d :: rest) =
        m.ram.read (Backend.kvm.offset d.addr) d.len.toNat ++ contents .kvm m rest := rfl
    rw [filled, List.flatMap_cons, read_filled m (n - d.len.toNat) rest, hcons, List.take_append, length_read]
    congr 1
    rcases Nat.le_total n d.len.toNat with hle | hle
    · obtain ⟨k, hk⟩ := Nat.exists_eq_add_of_le hle
      rw [Nat.min_eq_left hle, hk, read_add, List.take_left' length_read]
    · rw [Nat.min_eq_right hle, List.take_of_length_le (by rw [length_read]; exact hle)]

theorem sendsBack (hframed : RxFramed frame chain s t) : SendsBack frame chain t := by
  intro u head back htx hback hsame
  obtain ⟨out, hsent, hout⟩ := sends htx
  refine ⟨out, hsent, ?_⟩
  have hcontents : contents .kvm u.mem back = (contents .kvm u.mem chain).take (12 + frame.length) := by
    rw [← read_filled, ← hback, List.flatMap_map]
    rfl
  rw [hcontents, contents_congr hsame, hframed.contents, List.take_left' (by rw [← packetOf, length_packetOf])] at hout
  exact hout

/-- The framing of the device, in both directions. --/
theorem framing : (∀ s frame chain, RxReady s chain → NoOverlap s chain → 12 + frame.length ≤ capacity chain →
      Framed s frame chain) ∧
    ∀ s head chain, TxReady s head chain → Sends s head chain :=
  ⟨fun s frame chain h hover hroom => ⟨received s frame chain, injectRxFrame_of_room h hroom, rxFramed h hover hroom,
    sendsBack (rxFramed h hover hroom)⟩, fun _ _ _ h => sends h⟩

/-- A device whose queues have four entries: descriptors at 0 and 0x40, avail rings at 0x100 and 0x180, used rings
    at 0x200 and 0x280. --/
def sampleDevice (ram : Nat → UInt8) : VirtioNet where
  mem := oneKiB ram
  rx := fourEntries 0 0x100 0x200
  tx := fourEntries 0x40 0x180 0x280
  slirp := true
  host := []
  slirpRxFrames := []
  interruptStatus := 0
  irq := false
  sent := []

/-- One head is available on each queue: a chain of two buffers of `len` and 20 bytes at 0x300 and 0x300 + `next`, and
    a packet of 16 bytes at 0x340. --/
def sampleRam (len next : UInt8) (i : Nat) : UInt8 :=
  if i = 1 then 3 else if i = 8 then len else if i = 12 then 3 else if i = 14 then 1
  else if i = 16 then next else if i = 17 then 3 else if i = 24 then 20 else if i = 28 then 2
  else if i = 64 then 0x40 else if i = 65 then 3 else if i = 72 then 16 else if i = 0x102 then 1
  else if 0x340 ≤ i ∧ i < 0x350 then 7 else 0

def twoBuffers (len : UInt32) (next : UInt64) : List Desc := [⟨0x300, len, 3, 1⟩, ⟨0x300 + next, 20, 2, 0⟩]

theorem fillable_twoBuffers {ram : Nat → UInt8} {len : UInt32} {next : UInt64}
    (hlen : (sampleDevice ram).mem.InRam .kvm 0x300 len.toNat) (hnext : (sampleDevice ram).mem.InRam .kvm (0x300 + next) 20) :
    ∀ d ∈ twoBuffers len next, d.Fillable .kvm (sampleDevice ram).mem := by
  intro d hd
  rcases List.mem_cons.mp hd with rfl | hd
  · exact ⟨(by decide : ((3 : UInt16) &&& 2 != 0) = true), hlen⟩
  · rcases List.mem_singleton.mp hd with rfl
    exact ⟨(by decide : ((2 : UInt16) &&& 2 != 0) = true), hnext⟩

/-- The theorem on a header that straddles two buffers, and on a packet of one buffer. --/
theorem framing_sample : Framed (sampleDevice (sampleRam 5 0x10)) [1, 2, 3] (twoBuffers 5 0x10) ∧
    Sends (sampleDevice (sampleRam 5 0x10)) 0 [⟨0x340, 16, 0, 0⟩] := by
  refine ⟨framing.1 _ _ _ ⟨⟨rfl, by decide⟩, by decide, ⟨by decide, rfl, fillable_twoBuffers (by decide) (by decide)⟩, by decide⟩
    ⟨?_, ?_⟩ (by decide), framing.2 _ _ _ ⟨rfl, fun d hd => ?_⟩⟩
  · refine List.pairwise_cons.mpr ⟨fun d hd i hi hj => ?_, List.pairwise_singleton _ _⟩
    rcases List.mem_singleton.mp hd with rfl
    have h1 : i < 0x300 + 5 := hi.2
    have h2 : 0x310 ≤ i := hj.1
    omega
  · intro d hd i hi hj
    have h1 : 0 + i < 0x200 + 36 := hj.2
    rcases List.mem_cons.mp hd with rfl | hd
    · have h2 : 0x300 ≤ 0 + i := hi.1
      omega
    · rcases List.mem_singleton.mp hd with rfl
      have h2 : 0x310 ≤ 0 + i := hi.1
      omega
  · rcases List.mem_singleton.mp hd with rfl
    exact ⟨rfl, by decide⟩

theorem not_framed {s : VirtioNet} (h : RxReady s chain) (hroom : 12 + frame.length ≤ capacity chain)
    (hne : contents .kvm (received s frame chain).mem chain ≠
      Ring.netHeader ++ frame ++ (contents .kvm s.mem chain).drop (12 + frame.length)) : ¬Framed s frame chain := by
  rintro ⟨t, hrun, hframed, -⟩
  cases (injectRxFrame_of_room h hroom).symm.trans hrun
  exact hne hframed.contents

/-- A second buffer that begins in the first one takes the frame's last byte over its first; a buffer over the used ring
    gets the used element of its own chain. --/
theorem not_framed_overlap :
    (RxReady (sampleDevice (sampleRam 14 12)) (twoBuffers 14 12) ∧ ¬Framed (sampleDevice (sampleRam 14 12)) [1, 2, 3] (twoBuffers 14 12)) ∧
    (RxReady { sampleDevice (sampleRam 14 0x20) with rx := { (sampleDevice (sampleRam 14 0x20)).rx with deviceAddr := 0x300 } }
        (twoBuffers 14 0x20) ∧
      ¬Framed { sampleDevice (sampleRam 14 0x20) with rx := { (sampleDevice (sampleRam 14 0x20)).rx with deviceAddr := 0x300 } }
        [1, 2, 3] (twoBuffers 14 0x20)) := by
  have h₁ : RxReady (sampleDevice (sampleRam 14 12)) (twoBuffers 14 12) :=
    ⟨⟨rfl, by decide⟩, by decide, ⟨by decide, rfl, fillable_twoBuffers (by decide) (by decide)⟩, by decide⟩
  have h₂ : RxReady { sampleDevice (sampleRam 14 0x20) with
      rx := { (sampleDevice (sampleRam 14 0x20)).rx with deviceAddr := 0x300 } } (twoBuffers 14 0x20) :=
    ⟨⟨rfl, by decide⟩, by decide, ⟨by decide, rfl, fillable_twoBuffers (by decide) (by decide)⟩, by decide⟩
  exact ⟨⟨h₁, not_framed h₁ (by decide) (by decide +kernel)⟩, h₂, not_framed h₂ (by decide) (by decide +kernel)⟩

end VirtioNet
end NodeVmm.Kvm
