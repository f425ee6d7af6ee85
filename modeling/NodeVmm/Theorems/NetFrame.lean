import NodeVmm.Theorems.BlkQueue
import NodeVmm.VirtioNet

/-! How a frame lies in a chain. The twelve header bytes and the frame are one packet, and `inject_rx_frame`
    spreads it over the buffers in chain order, wherever the borders of the buffers fall. Read back in the same
    order, buffers that do not overlap give the packet, followed by what they held past its end. -/

namespace NodeVmm
open ByteStore

theorem GuestMemory.ext {m m' : GuestMemory} (h : m.ram = m'.ram) : m = m' := by
  cases m
  cases m'
  cases h
  rfl

/-! ### Buffers of a chain -/

/-- What the buffers of the chain hold, one after the other. --/
def contents (b : Backend) (m : GuestMemory) (chain : List Desc) : Packet :=
  chain.flatMap fun d => m.ram.read (b.offset d.addr) d.len.toNat

def capacity (chain : List Desc) : Nat := chain.foldr (fun d n => d.len.toNat + n) 0

/-- The packet that a frame arrives in. --/
def packetOf (frame : Packet) : Packet := Ring.netHeader ++ frame

/-- No byte of RAM is in both buffers. --/
def Desc.Apart (b : Backend) (d e : Desc) : Prop :=
  ∀ i, Within (b.offset d.addr) d.len.toNat i → ¬Within (b.offset e.addr) e.len.toNat i

/-- The memory with the bytes spread over the buffers. --/
def spread (b : Backend) : Packet → List Desc → GuestMemory → GuestMemory
  | _, [], m => m
  | bytes, d :: rest, m =>
    spread b (bytes.drop d.len.toNat) rest (m.store (b.offset d.addr) (bytes.take d.len.toNat))

section
variable {b : Backend} {m : GuestMemory} {K : Nat → Prop} {bytes frame : Packet} {chain rest : List Desc} {d : Desc}

theorem length_packetOf : (packetOf frame).length = 12 + frame.length := by
  rw [packetOf, List.length_append]
  rfl

theorem length_contents : (contents b m chain).length = capacity chain := by
  induction chain with
  | nil => rfl
  | cons d rest ih =>
    rw [contents, List.flatMap_cons, List.length_append, length_read]
    exact congrArg _ ih

theorem spread_nil : ∀ {chain : List Desc} {m : GuestMemory}, spread b [] chain m = m
  | [], _ => rfl
  | d :: rest, m => by
    have hstore : m.store (b.offset d.addr) [] = m := GuestMemory.ext write_nil
    simp only [spread, List.drop_nil, List.take_nil, hstore, spread_nil]

theorem size_spread : ∀ (chain : List Desc) {bytes : Packet} {m : GuestMemory}, (spread b bytes chain m).size = m.size
  | [], _, _ => rfl
  | _ :: rest, _, _ => size_spread rest

/-- Spreading bytes over buffers keeps the bytes outside them. --/
theorem agreeOn_spread : ∀ {chain : List Desc} {bytes : Packet} {m : GuestMemory},
    (∀ d ∈ chain, ∀ i, Within (b.offset d.addr) d.len.toNat i → ¬K i) →
    AgreeOn K m.ram (spread b bytes chain m).ram
  | [], _, m, _ => AgreeOn.refl K m.ram
  | d :: rest, bytes, m, h => by
    have hd : AgreeOn K m.ram (m.store (b.offset d.addr) (bytes.take d.len.toNat)).ram := AgreeOn.write fun i hi =>
      h d List.mem_cons_self i ⟨hi.1, Nat.lt_of_lt_of_le hi.2 (Nat.add_le_add_left (List.length_take_le _ _) _)⟩
    exact hd.trans (agreeOn_spread fun e he => h e (List.mem_cons_of_mem _ he))

/-- The buffers hold what agrees on them. --/
theorem contents_congr {m' : GuestMemory}
    (h : ∀ d ∈ chain, ∀ i, Within (b.offset d.addr) d.len.toNat i → m'.ram.byte i = m.ram.byte i) :
    contents b m' chain = contents b m chain := by
  unfold contents
  induction chain with
  | nil => rfl
  | cons d rest ih =>
    rw [List.flatMap_cons, List.flatMap_cons, read_congr (h d List.mem_cons_self),
      ih fun e he => h e (List.mem_cons_of_mem _ he)]

/-- Read back, the buffers give the bytes that were spread over them, then what they held past these. --/
theorem contents_spread : ∀ {chain : List Desc} {bytes : Packet} {m : GuestMemory}, chain.Pairwise (Desc.Apart b) →
    contents b (spread b bytes chain m) chain = bytes.take (capacity chain) ++ (contents b m chain).drop bytes.length
  | [], bytes, m, _ => by simp [contents, capacity]
  | d :: rest, bytes, m, h => by
    obtain ⟨hd, hrest⟩ := List.pairwise_cons.mp h
    have hfirst : (spread b bytes (d :: rest) m).ram.read (b.offset d.addr) d.len.toNat =
        bytes.take d.len.toNat ++ (m.ram.read (b.offset d.addr) d.len.toNat).drop bytes.length := by
      have hkeep : AgreeOn (Within (b.offset d.addr) d.len.toNat) (m.store (b.offset d.addr) (bytes.take d.len.toNat)).ram
          (spread b bytes (d :: rest) m).ram := agreeOn_spread fun e he i hi hdi => hd e he i hdi hi
      refine (hkeep.read_eq fun i hi => hi).trans ((read_write_of_le (List.length_take_le d.len.toNat bytes)).trans ?_)
      congr 1
      rcases Nat.le_total d.len.toNat bytes.length with hle | hle
      · rw [List.length_take, Nat.min_eq_left hle, List.drop_of_length_le (Nat.le_of_eq length_read),
          List.drop_of_length_le (by rw [length_read]; exact hle)]
      · rw [List.length_take, Nat.min_eq_right hle]
    have hothers : contents b (m.store (b.offset d.addr) (bytes.take d.len.toNat)) rest = contents b m rest :=
      contents_congr fun e he i hi => byte_write_of_not_within fun hw => hd e he i
        ⟨hw.1, Nat.lt_of_lt_of_le hw.2 (Nat.add_le_add_left (List.length_take_le _ _) _)⟩ hi
    have hcap : capacity (d :: rest) = d.len.toNat + capacity rest := rfl
    show (spread b bytes (d :: rest) m).ram.read _ _ ++ contents b (spread b bytes (d :: rest) m) rest = _
    rw [hfirst]
    show _ ++ contents b (spread b (bytes.drop d.len.toNat) rest _) rest = _
    rw [contents_spread hrest, hothers, hcap, List.length_drop]
    show _ = _ ++ (m.ram.read (b.offset d.addr) d.len.toNat ++ contents b m rest).drop bytes.length
    rcases Nat.le_total d.len.toNat bytes.length with hle | hle
    · rw [List.drop_append, length_read, List.take_add]
      simp only [List.append_assoc]
      rw [List.drop_of_length_le (by rw [length_read]; exact hle)]
      simp
    · rw [List.drop_append, length_read, Nat.sub_eq_zero_of_le hle, List.drop_of_length_le hle, List.take_nil,
        List.take_of_length_le hle, List.take_of_length_le (Nat.le_trans hle (Nat.le_add_right _ _))]
      simp

end

/-! ### Filling a chain -/

/-- The descriptor is writable and its buffer is in RAM. --/
structure Desc.Fillable (b : Backend) (m : GuestMemory) (d : Desc) : Prop where
  writable : d.writable = true
  inRam : m.InRam b d.addr d.len.toNat

namespace Ring
variable {b : Backend} {m : GuestMemory} {frame : Packet} {d : Desc} {offset : Nat} {chain : List Desc}

/-- The two copies of a round are one store of the next bytes of the packet. --/
theorem packet_parts (hoff : offset ≤ 12 + frame.length) :
    (netHeader.drop offset).take (headerPart d offset) ++
        (frame.drop (offset + headerPart d offset - 12)).take (framePart frame d (headerPart d offset) (offset + headerPart d offset)) =
      ((packetOf frame).drop offset).take d.len.toNat ∧
    ((netHeader.drop offset).take (headerPart d offset)).length = headerPart d offset ∧
    offset + headerPart d offset + framePart frame d (headerPart d offset) (offset + headerPart d offset) =
      min (12 + frame.length) (offset + d.len.toNat) := by
  have hlen : netHeader.length = 12 := rfl
  by_cases h12 : offset < 12
  · have hdrop : (packetOf frame).drop offset = netHeader.drop offset ++ frame :=
      List.drop_append_of_le_length (by rw [hlen]; omega)
    have hnd : (netHeader.drop offset).length = 12 - offset := by rw [List.length_drop, hlen]
    by_cases hd : d.len.toNat < 12 - offset
    · have hn : headerPart d offset = d.len.toNat := by
        unfold headerPart
        split <;> omega
      have hk : framePart frame d (headerPart d offset) (offset + headerPart d offset) = 0 := by
        unfold framePart
        split <;> omega
      refine ⟨?_, by rw [List.length_take, hnd, hn]; omega, by omega⟩
      rw [hk, hn, hdrop, List.take_zero, List.append_nil, List.take_append_of_le_length (by omega)]
    · have hn : headerPart d offset = 12 - offset := by
        unfold headerPart
        split <;> omega
      have hk : framePart frame d (headerPart d offset) (offset + headerPart d offset) =
          min (d.len.toNat - (12 - offset)) frame.length := by
        unfold framePart
        rw [hn]
        split <;> omega
      refine ⟨?_, by rw [List.length_take, hnd, hn]; omega, by omega⟩
      have hzero : offset + (12 - offset) - 12 = 0 := by omega
      rw [hk, hn, hdrop, hzero, List.drop_zero, List.take_of_length_le (Nat.le_of_eq hnd), List.take_append, hnd,
        List.take_of_length_le (l := netHeader.drop offset) (by omega), ← List.take_eq_take_min]
  · have hdrop : (packetOf frame).drop offset = frame.drop (offset - 12) := by
      rw [packetOf, List.drop_append, List.drop_of_length_le (by omega), hlen, List.nil_append]
    have hn : headerPart d offset = 0 := by
      unfold headerPart
      split <;> omega
    have hk : framePart frame d (headerPart d offset) (offset + headerPart d offset) =
        min d.len.toNat (frame.length - (offset - 12)) := by
      unfold framePart
      rw [hn]
      split <;> omega
    refine ⟨?_, by rw [hn]; rfl, by omega⟩
    rw [hk, hn, hdrop, Nat.add_zero, List.take_zero, List.nil_append, ← List.length_drop, ← List.take_eq_take_min]

theorem fillDesc_of_fillable (h : d.Fillable b m) (hoff : offset ≤ 12 + frame.length) :
    fillDesc b frame d offset m = (.ok (min (12 + frame.length) (offset + d.len.toNat)),
      m.store (b.offset d.addr) (((packetOf frame).drop offset).take d.len.toNat)) := by
  obtain ⟨hbytes, hlen, hsum⟩ := packet_parts (d := d) hoff
  unfold fillDesc
  rw [Exec.bind_of_ok (Exec.check_of_true h.writable), Exec.bind_of_ok Exec.get_apply,
    Exec.bind_of_ok (by rw [Exec.lift_apply, GuestMemory.ptr_of_inRam h.inRam]), Exec.bind_of_ok Exec.modify_apply,
    Exec.bind_of_ok Exec.modify_apply]
  refine Prod.ext (congrArg Except.ok hsum) (GuestMemory.ext ?_)
  rw [← hbytes]
  refine Eq.trans ?_ write_append
  rw [hlen]
  rfl

/-- The loop stores as much of the packet as the chain has room for. --/
theorem fill_of_fillable : ∀ {chain : List Desc} {offset : Nat} {m : GuestMemory}, (∀ d ∈ chain, d.Fillable b m) →
    offset ≤ 12 + frame.length → fill b frame chain offset m =
      (.ok (min (12 + frame.length) (offset + capacity chain)), spread b ((packetOf frame).drop offset) chain m)
  | [], offset, m, _, hoff => by
    have hmin : min (12 + frame.length) (offset + capacity []) = offset := Nat.min_eq_right hoff
    rw [hmin]
    rfl
  | d :: rest, offset, m, h, hoff => by
    have hcap : capacity (d :: rest) = d.len.toNat + capacity rest := rfl
    unfold fill
    rw [Exec.bind_of_ok (fillDesc_of_fillable (h d List.mem_cons_self) hoff)]
    split
    · rename_i hfull
      have hlast : ((packetOf frame).drop offset).drop d.len.toNat = [] := by
        rw [List.drop_drop, List.drop_of_length_le (by rw [length_packetOf]; omega)]
      have hmin : min (12 + frame.length) (offset + capacity (d :: rest)) =
          min (12 + frame.length) (offset + d.len.toNat) := by omega
      rw [hmin, spread, hlast, spread_nil]
      rfl
    · rename_i hmore
      have hnext : min (12 + frame.length) (offset + d.len.toNat) = offset + d.len.toNat := by omega
      rw [hnext]
      refine (fill_of_fillable (fun e he => ?_) (by omega)).trans ?_
      · exact ⟨(h e (List.mem_cons_of_mem _ he)).writable, (h e (List.mem_cons_of_mem _ he)).inRam⟩
      · rw [hcap, spread, List.drop_drop, Nat.add_assoc]

/-! ### Injecting a frame -/

section
variable {s : Ring}

/-- The next head of the avail ring names this chain, and all of its buffers can be filled. --/
structure CanTake (b : Backend) (s : Ring) (chain : List Desc) : Prop where
  avail : s.mem.InRam b (s.queue.availEntry s.queue.lastAvail) 2
  walk : s.mem.walkChain b s.queue (availHead b s.mem s.queue) = .ok chain
  fillable : ∀ d ∈ chain, d.Fillable b s.mem

theorem hasRxBuffer_of_inRam (h : s.queue.ready = true → s.mem.InRam b s.queue.availIdxAddr 2) :
    hasRxBuffer b s = (.ok (s.queue.ready && s.queue.lastAvail != availIdx b s.mem s.queue), s) := by
  unfold hasRxBuffer
  rw [Exec.bind_of_ok Exec.get_apply]
  cases hready : s.queue.ready with
  | false => rfl
  | true =>
    rw [if_pos rfl, Exec.bind_of_ok (by rw [Exec.lift_apply, GuestMemory.ptr_of_inRam (h hready)])]
    rfl

theorem takeHead_of_inRam (h : s.mem.InRam b (s.queue.availEntry s.queue.lastAvail) 2) :
    takeHead b s = (.ok (availHead b s.mem s.queue), s.bumpLastAvail) := by
  unfold takeHead
  rw [Exec.bind_of_ok Exec.get_apply, Exec.bind_of_ok (by rw [Exec.lift_apply, GuestMemory.ptr_of_inRam h]),
    Exec.bind_of_ok Exec.modify_apply]
  rfl

theorem walkChain_of_ok {head : UInt16} (h : s.mem.walkChain b s.queue head = .ok chain) :
    walkChain b head s = (.ok chain, s) := by
  unfold walkChain
  rw [Exec.bind_of_ok Exec.get_apply, Exec.lift_apply, h]
  rfl

theorem pushUsed_of_canPublish {head : UInt16} {written : UInt32} (h : s.mem.CanPublish b s.queue) :
    pushUsed b head written s = (.ok (), setMem (s.mem.published b s.queue head.toUInt32 written) s) := by
  unfold pushUsed
  rw [Exec.bind_of_ok Exec.get_apply]
  show ((GuestMemory.pushUsed b s.queue _ _ s.mem).1, setMem (GuestMemory.pushUsed b s.queue _ _ s.mem).2 s) = _
  rw [GuestMemory.pushUsed_of_canPublish h]

/-- The frame is stored as far as there is room, whatever comes of it. --/
theorem injectFrame_fill (h : CanTake b s chain) : injectFrame b frame s =
    (if min (12 + frame.length) (capacity chain) < 12 + frame.length then (pure false : Exec Ring Bool)
    else do
      pushUsed b (availHead b s.mem s.queue) (UInt32.ofNat (12 + frame.length))
      pure true) (setMem (spread b (packetOf frame) chain s.mem) s.bumpLastAvail) := by
  have hwalk : s.bumpLastAvail.mem.walkChain b s.bumpLastAvail.queue (availHead b s.mem s.queue) = .ok chain :=
    (Blk.walkChain_bump _ _ _ _).trans h.walk
  have hfill := fill_of_fillable h.fillable (Nat.zero_le (12 + frame.length))
  rw [Nat.zero_add, List.drop_zero] at hfill
  unfold injectFrame
  rw [Exec.bind_of_ok (takeHead_of_inRam h.avail), Exec.bind_of_ok (walkChain_of_ok hwalk)]
  refine Exec.bind_of_ok ?_
  show ((fill b frame chain 0 s.mem).1, setMem (fill b frame chain 0 s.mem).2 s.bumpLastAvail) = _
  rw [hfill]

/-- A chain without room: its head is taken, and not published. --/
theorem injectFrame_of_short (h : CanTake b s chain) (hshort : capacity chain < 12 + frame.length) :
    injectFrame b frame s = (.ok false, setMem (spread b (packetOf frame) chain s.mem) s.bumpLastAvail) := by
  rw [injectFrame_fill h, if_pos (Nat.lt_of_le_of_lt (Nat.min_le_right _ _) hshort)]
  rfl

/-- A chain with room is published with the length of the packet. --/
theorem injectFrame_of_room (h : CanTake b s chain) (hroom : 12 + frame.length ≤ capacity chain)
    (hused : s.mem.InRam b s.queue.deviceAddr (4 + 8 * s.queue.size)) : injectFrame b frame s =
      (.ok true, setMem ((spread b (packetOf frame) chain s.mem).published b s.queue
        (availHead b s.mem s.queue).toUInt32 (UInt32.ofNat (12 + frame.length))) s.bumpLastAvail) := by
  have hcan : (setMem (spread b (packetOf frame) chain s.mem) s.bumpLastAvail).mem.CanPublish b
      (setMem (spread b (packetOf frame) chain s.mem) s.bumpLastAvail).queue :=
    GuestMemory.canPublish_of_inRam ((GuestMemory.inRam_congr (size_spread chain)).mpr hused)
  rw [injectFrame_fill h, if_neg (by omega), Exec.bind_of_ok (pushUsed_of_canPublish hcan)]
  rfl

end
end Ring

/-! ### A small guest -/

/-- A guest with a RAM of 1 KiB. --/
def oneKiB (ram : Nat → UInt8) : GuestMemory := ⟨⟨1024, ram⟩, (by decide : 1024 < 2 ^ 52)⟩

end NodeVmm
