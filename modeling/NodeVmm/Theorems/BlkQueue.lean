import NodeVmm.Lib.Words
import NodeVmm.Theorems.BlkFrame

/-! Queue accounting: every head that a notify finds in the avail ring gives exactly one used element, in
    order, whatever the descriptors say. One round of the loop publishes one element (`Publishes`); a call of
    `handle_queue` is as many rounds as there are pending heads (`Accounted`); over a run of notifies, between
    which the guest rewrites its RAM, the rounds take the positions of the avail ring one after the other.

    The catch path breaks this: it stores its status byte at the address of the last descriptor, also when
    that descriptor is empty and so covers no byte. -/

namespace NodeVmm
open ByteStore

/-! ### Rings in RAM -/

/-- The offset `i` belongs to one of the three rings of the queue. --/
def InRings (b : Backend) (q : Queue) (i : Nat) : Prop :=
  Touches b q.descAddr (16 * q.size) i ∨ Touches b q.driverAddr (4 + 2 * q.size) i ∨
    Touches b q.deviceAddr (4 + 8 * q.size) i

/-- The rings of the queue are in RAM. --/
structure RingsFit (b : Backend) (m : GuestMemory) (q : Queue) : Prop where
  desc : m.InRam b q.descAddr (16 * q.size)
  driver : m.InRam b q.driverAddr (4 + 2 * q.size)
  device : m.InRam b q.deviceAddr (4 + 8 * q.size)

/-- `available->idx`. --/
def availIdx (b : Backend) (m : GuestMemory) (q : Queue) : UInt16 := m.ram.readU16 (b.offset q.availIdxAddr)

/-- The head at the position that the device takes next. --/
def availHead (b : Backend) (m : GuestMemory) (q : Queue) : UInt16 :=
  m.ram.readU16 (b.offset (q.availEntry q.lastAvail))

namespace RingsFit
variable {b : Backend} {m m' : GuestMemory} {q q' : Queue} {i : Nat}

theorem congr (h : RingsFit b m q) (hm : m'.size = m.size) : RingsFit b m' q :=
  ⟨(GuestMemory.inRam_congr hm).mpr h.desc, (GuestMemory.inRam_congr hm).mpr h.driver,
    (GuestMemory.inRam_congr hm).mpr h.device⟩

theorem availIdx_inRam (h : RingsFit b m q) : m.InRam b q.availIdxAddr 2 :=
  h.driver.add (by decide) (by show 2 + 2 ≤ 4 + 2 * q.size; omega)

theorem availEntry_inRam (h : RingsFit b m q) (position : UInt16) : m.InRam b (q.availEntry position) 2 := by
  have hlt := Nat.mod_lt position.toNat q.size_pos
  have hsize : q.size ≤ 256 := q.size_le
  have hk : (4 + UInt64.ofNat (position.toNat % q.size) * 2).toNat = 4 + 2 * (position.toNat % q.size) := by
    simp only [UInt64.toNat_add, UInt64.toNat_mul, UInt64.toNat_ofNat', UInt64.reduceToNat]
    omega
  unfold Queue.availEntry
  rw [UInt64.add_assoc]
  exact h.driver.add (by omega) (by omega)

theorem canPublish (h : RingsFit b m q) : m.CanPublish b q := GuestMemory.canPublish_of_inRam h.device

/-- The entries of the descriptor table are in the rings. --/
theorem inRings_of_inDescTable (h : RingsFit b m q) (hi : GuestMemory.InDescTable b q i) : InRings b q i := by
  obtain ⟨idx, hidx, hi⟩ := hi
  have hk : (idx.toUInt64 * 16).toNat = 16 * idx.toNat := by
    have := idx.toNat_lt
    simp only [UInt64.toNat_mul, UInt16.toNat_toUInt64, UInt64.reduceToNat]
    omega
  have hadd := h.desc.toNat_add (k := idx.toUInt64 * 16) (by have := idx.toNat_lt; omega)
  unfold Queue.descEntry Touches Within at hi
  refine Or.inl ⟨?_, ?_⟩ <;> omega

end RingsFit

/-! ### One round -/

namespace Blk
variable {b : Backend} {s t : Blk} {head : UInt16}

/-- The `j`-th round, counted from 0, starts in this state. --/
def roundState (b : Backend) (s : Blk) : Nat → Blk
  | 0 => s
  | j + 1 => (serveOne b (roundState b s j)).2

/-- What one round does to the rings: it publishes the head that it took, at the next element. --/
structure Publishes (b : Backend) (s t : Blk) : Prop where
  queue : t.queue = s.bumpLastAvail.queue
  usedIdx : t.mem.usedIdx b s.queue = s.mem.usedIdx b s.queue + 1
  usedId : t.mem.usedId b s.queue (s.mem.usedIdx b s.queue) = (availHead b s.mem s.queue).toUInt32
  others : AgreeOn (fun i => InRings b s.queue i ∧ ¬GuestMemory.InUsedIdx b s.queue i ∧
    ¬GuestMemory.InUsedElem b s.queue (s.mem.usedIdx b s.queue) i) s.mem.ram t.mem.ram

/-- No buffer of the chain that the next head names overlaps a ring. --/
def BuffersSpareRings (b : Backend) (s : Blk) : Prop :=
  ∀ chain, s.mem.walkChain b s.queue (availHead b s.mem s.queue) = .ok chain →
    ∀ d ∈ chain, Spares b (InRings b s.queue) d

/-- The chain that the next head names does not end in an empty descriptor whose address is in a ring. --/
def LastByteSparesRings (b : Backend) (s : Blk) : Prop :=
  ∀ chain last, s.mem.walkChain b s.queue (availHead b s.mem s.queue) = .ok chain →
    chain.getLast? = some last → last.len = 0 → ∀ i, Touches b last.addr 1 i → ¬InRings b s.queue i

/-- The registers that a walk reads do not change in a run. --/
theorem walkChain_bump (m : GuestMemory) (q : Queue) (position head : UInt16) :
    m.walkChain b { q with lastAvail := position } head = m.walkChain b q head := by
  have hdesc : ∀ idx, m.readDesc b { q with lastAvail := position } idx = m.readDesc b q idx := fun _ => rfl
  have hwalk : ∀ fuel seen idx,
      m.walkFrom b { q with lastAvail := position } fuel seen idx = m.walkFrom b q fuel seen idx := by
    intro fuel
    induction fuel with
    | zero => intros; rfl
    | succ fuel ih =>
      intro seen idx
      simp only [GuestMemory.walkFrom, hdesc, ih]
  exact hwalk _ _ _

section
variable (hfit : RingsFit b s.mem s.queue)
include hfit

/-- The handler finds the chain that the try block found, and its status byte keeps the rings. --/
theorem same_reportError (ht : Same (InRings b s.queue) s t)
    (hlast : ∀ chain last, s.mem.walkChain b s.queue head = .ok chain → chain.getLast? = some last →
      ∀ i, Touches b last.addr 1 i → ¬InRings b s.queue i) : Same (InRings b s.queue) s (reportError b head t).2 := by
  have hwalk : t.mem.walkChain b t.queue head = s.mem.walkChain b s.queue head := by
    rw [ht.queue]
    exact GuestMemory.walkChain_congr ht.ram (fun i => hfit.inRings_of_inDescTable) head
  cases hc : s.mem.walkChain b s.queue head with
  | error e =>
    rw [reportError_of_error (hwalk.trans hc)]
    exact ht
  | ok chain =>
    obtain ⟨last, hl⟩ := GuestMemory.walkChain_last hc
    rw [reportError_of_chain (hwalk.trans hc) hl]
    exact ht.trans (same_failed (hlast chain _ hc hl))

/-- A request whose stores keep the rings publishes its head, whether it is served or fails. --/
theorem processRequest_publishes (head : UInt16)
    (hspare : ∀ chain, s.mem.walkChain b s.queue head = .ok chain → ∀ d ∈ chain, Spares b (InRings b s.queue) d)
    (hlast : ∀ chain last, s.mem.walkChain b s.queue head = .ok chain → chain.getLast? = some last →
      ∀ i, Touches b last.addr 1 i → ¬InRings b s.queue i) :
    ∃ t w, Same (InRings b s.queue) s t ∧
      processRequest b head s = (.ok (), setMem (t.mem.published b s.queue head.toUInt32 w) t) := by
  have hful : Same (InRings b s.queue) (setWritten 0 s) (fulfil b head (setWritten 0 s)).2 :=
    same_fulfil (s := setWritten 0 s) fun header data status hc => by
      have hspare := hspare _ hc
      exact ⟨fun d hd _ => hspare d (List.mem_cons_of_mem _ hd),
        fun _ d rest hd => (hspare d (by simp [hd])).idSpares _⟩
  obtain ⟨u, hlp, hend⟩ := processRequest_lastPush b head s
  have hu : Same (InRings b s.queue) s u := by
    cases hlp with
    | served hrun _ =>
      rw [hrun] at hful
      exact ⟨hful.queue, hful.ram⟩
    | caught r t hrun _ hreport =>
      rw [hrun] at hful
      have := same_reportError hfit ⟨hful.queue, hful.ram⟩ hlast
      rwa [hreport] at this
  have hcan : u.mem.CanPublish b u.queue := by
    rw [hu.queue]
    exact (hfit.congr hu.size).canPublish
  rcases hend with ⟨-, w, hend⟩ | ⟨hno, -⟩
  · rw [hu.queue] at hend
    exact ⟨u, w, hu, hend⟩
  · exact absurd hcan hno

/-- One round returns, and publishes one element. --/
theorem serveOne_publishes (hspare : BuffersSpareRings b s) (hlast : LastByteSparesRings b s) : ∃ t, serveOne b s = (.ok (), t) ∧ Publishes b s t := by
  have hbyte : ∀ chain last, s.mem.walkChain b s.queue (availHead b s.mem s.queue) = .ok chain →
      chain.getLast? = some last → ∀ i, Touches b last.addr 1 i → ¬InRings b s.queue i := by
    intro chain last hc hl i hi
    by_cases h0 : last.len = 0
    · exact hlast chain last hc hl h0 i hi
    · refine hspare chain hc last (List.mem_of_getLast? hl) i ⟨hi.1, ?_⟩
      have hpos : 0 < last.len.toNat := Nat.pos_of_ne_zero fun h => h0 (UInt32.toNat_inj.mp h)
      have := hi.2
      omega
  obtain ⟨t, w, ht, hrun⟩ := processRequest_publishes (s := s.bumpLastAvail)
    ⟨hfit.desc, hfit.driver, hfit.device⟩ (availHead b s.mem s.queue) (fun chain hc => hspare chain ((walkChain_bump _ _ _ _).symm.trans hc))
    (fun chain last hc => hbyte chain last ((walkChain_bump _ _ _ _).symm.trans hc))
  have hram : AgreeOn (InRings b s.queue) s.mem.ram t.mem.ram := ht.ram
  have hcan : t.mem.CanPublish b s.queue := (hfit.congr ht.size).canPublish
  have hidx : t.mem.usedIdx b s.queue = s.mem.usedIdx b s.queue :=
    hram.readU16 fun i hi => Or.inr (Or.inr (GuestMemory.touches_of_inUsedIdx hfit.device
      ((GuestMemory.usedIdx_inRam hfit.device).touches_iff.mp hi)))
  have hserve : serveOne b s = (.ok (), setMem (t.mem.published b s.queue
      (availHead b s.mem s.queue).toUInt32 w) t) := by
    unfold serveOne
    rw [Exec.bind_of_ok Exec.get_apply,
      Exec.bind_of_ok (ptr_run.trans (congrArg (·, s) (GuestMemory.ptr_of_inRam (hfit.availEntry_inRam _)))),
      Exec.bind_of_ok Exec.modify_apply]
    exact hrun
  have hpub := GuestMemory.agreeOn_published (availHead b s.mem s.queue).toUInt32 w hcan
  rw [hidx] at hpub
  refine ⟨_, hserve, ht.queue, ?_, ?_, (hram.mono fun i hi => hi.1).trans (hpub.mono fun i hi => hi.2)⟩
  · show (t.mem.published b s.queue _ w).usedIdx b s.queue = _
    rw [GuestMemory.usedIdx_published, hidx]
  · show (t.mem.published b s.queue _ w).usedId b s.queue _ = _
    rw [← hidx, GuestMemory.usedId_published hcan]

end

/-! ### One call of `handle_queue` -/

/-- The number of heads between `last_avail` and the avail index, modulo 2^16. --/
def pending (b : Backend) (s : Blk) : Nat := (availIdx b s.mem s.queue - s.queue.lastAvail).toNat

/-- One call of `handle_queue` returns after one round for each pending head: its loop ends by its own test,
    however many more rounds it may take. Round `j` takes the head at the position `last_avail + j` and
    publishes it at the used index plus `j`. --/
structure Accounted (b : Backend) (s : Blk) : Prop where
  returns : handleQueue b s = (.ok (), roundState b s (pending b s))
  ends : ∀ rounds ≥ pending b s,
    serveUntil b (availIdx b s.mem s.queue) rounds s = (.ok (), roundState b s (pending b s))
  publishes : ∀ j < pending b s, Publishes b (roundState b s j) (roundState b s (j + 1))
  position : ∀ j ≤ pending b s, (roundState b s j).queue.lastAvail = s.queue.lastAvail + UInt16.ofNat j
  usedIdx : ∀ j ≤ pending b s,
    (roundState b s j).mem.usedIdx b s.queue = s.mem.usedIdx b s.queue + UInt16.ofNat j
  lastAvail : (roundState b s (pending b s)).queue.lastAvail = availIdx b s.mem s.queue

/-- The condition on the states in which the rounds of a call start. --/
def EachRound (P : Blk → Prop) (b : Backend) (s : Blk) : Prop := ∀ j < pending b s, P (roundState b s j)

theorem roundState_succ (b : Backend) (s : Blk) : ∀ j, roundState b s (j + 1) = roundState b (serveOne b s).2 j
  | 0 => rfl
  | j + 1 => congrArg (fun t => (serveOne b t).2) (roundState_succ b s j)

theorem Publishes.size (h : Publishes b s t) : t.mem.size = s.mem.size := h.others.size

theorem Publishes.ringsFit (h : Publishes b s t) (hfit : RingsFit b s.mem s.queue) : RingsFit b t.mem t.queue := by
  rw [h.queue]
  obtain ⟨h1, h2, h3⟩ := hfit.congr h.size
  exact ⟨h1, h2, h3⟩

/-- Rounds that publish move the registers and the used index by one each. --/
theorem queue_of_publishes : ∀ {n : Nat}, (∀ j < n, Publishes b (roundState b s j) (roundState b s (j + 1))) →
    (roundState b s n).queue = { s.queue with lastAvail := s.queue.lastAvail + UInt16.ofNat n } ∧
      (roundState b s n).mem.usedIdx b s.queue = s.mem.usedIdx b s.queue + UInt16.ofNat n
  | 0, _ => by
    constructor
    · show s.queue = _
      simp
    · show s.mem.usedIdx b s.queue = _
      simp
  | n + 1, h => by
    obtain ⟨hq, hu⟩ := queue_of_publishes fun j hj => h j (Nat.lt_succ_of_lt hj)
    have hlast := h n (Nat.lt_succ_self n)
    have hidx := hlast.usedIdx
    rw [hq] at hidx
    refine ⟨hlast.queue.trans ?_, hidx.trans ?_⟩
    · show { (roundState b s n).queue with lastAvail := (roundState b s n).queue.lastAvail + 1 } = _
      rw [hq, Words.add_ofNat_succ]
    · rw [Words.add_ofNat_succ, ← hu]
      rfl

/-- The loop takes exactly the pending heads. --/
theorem serveUntil_run (target : UInt16) : ∀ (n fuel : Nat) {s : Blk}, RingsFit b s.mem s.queue →
    (target - s.queue.lastAvail).toNat = n → n ≤ fuel →
    (∀ j < n, BuffersSpareRings b (roundState b s j) ∧ LastByteSparesRings b (roundState b s j)) →
    serveUntil b target fuel s = (.ok (), roundState b s n) ∧
      ∀ j < n, Publishes b (roundState b s j) (roundState b s (j + 1))
  | 0, fuel, s, _, hn, _, _ => by
    have heq : s.queue.lastAvail = target := Words.eq_of_sub_eq_zero hn
    refine ⟨?_, fun j hj => absurd hj (Nat.not_lt_zero j)⟩
    cases fuel with
    | zero => rfl
    | succ fuel =>
      unfold serveUntil
      rw [Exec.bind_of_ok Exec.get_apply, if_pos heq]
      rfl
  | n + 1, 0, _, _, _, hf, _ => absurd hf (by omega)
  | n + 1, fuel + 1, s, hfit, hn, hf, hround => by
    have hne : ¬s.queue.lastAvail = target := by
      rintro h
      rw [h, UInt16.sub_self] at hn
      cases hn
    obtain ⟨t, hrun, hpub⟩ := serveOne_publishes hfit (hround 0 (by omega)).1 (hround 0 (by omega)).2
    have hshift : ∀ j, roundState b s (j + 1) = roundState b t j := fun j => by rw [roundState_succ, hrun]
    have hn' : (target - t.queue.lastAvail).toNat = n := by
      have hq : t.queue.lastAvail = s.queue.lastAvail + 1 := congrArg Queue.lastAvail hpub.queue
      rw [hq]
      exact Words.sub_succ hn
    obtain ⟨hloop, hpubs⟩ := serveUntil_run target n fuel (hpub.ringsFit hfit) hn' (by omega) fun j hj => by
      rw [← hshift]
      exact hround (j + 1) (by omega)
    constructor
    · unfold serveUntil
      rw [Exec.bind_of_ok Exec.get_apply, if_neg hne, Exec.bind_of_ok hrun, hloop, hshift]
    · intro j hj
      cases j with
      | zero =>
        rw [hshift]
        exact hpub
      | succ j =>
        rw [hshift, hshift]
        exact hpubs j (by omega)

theorem handleQueue_accounted (hfit : RingsFit b s.mem s.queue) (hspare : EachRound (BuffersSpareRings b) b s)
    (hlast : EachRound (LastByteSparesRings b) b s) : Accounted b s := by
  have hlt : pending b s < 2 ^ 16 := UInt16.toNat_lt _
  have hloop : ∀ fuel ≥ pending b s, _ := fun fuel hf =>
    serveUntil_run (availIdx b s.mem s.queue) (pending b s) fuel hfit rfl hf fun j hj => ⟨hspare j hj, hlast j hj⟩
  obtain ⟨hrun, hpub⟩ := hloop (2 ^ 16) (Nat.le_of_lt hlt)
  have hqueue : ∀ j ≤ pending b s, _ := fun j hj =>
    queue_of_publishes (b := b) (s := s) (n := j) fun k hk => hpub k (Nat.lt_of_lt_of_le hk hj)
  refine ⟨?_, fun fuel hf => (hloop fuel hf).1, hpub, fun j hj => congrArg Queue.lastAvail (hqueue j hj).1, fun j hj => (hqueue j hj).2, ?_⟩
  · unfold handleQueue
    rw [Exec.bind_of_ok Exec.get_apply,
      Exec.bind_of_ok (ptr_run.trans (congrArg (·, s) (GuestMemory.ptr_of_inRam hfit.availIdx_inRam)))]
    exact hrun
  · rw [congrArg Queue.lastAvail (hqueue _ (Nat.le_refl _)).1]
    unfold pending
    rw [UInt16.ofNat_toNat]
    exact Words.add_sub_self s.queue.lastAvail (availIdx b s.mem s.queue)

/-! ### A run of notifies -/

/-- The guest rewrites its RAM. --/
def setRam (bytes : Nat → UInt8) (s : Blk) : Blk := setMem ⟨⟨s.mem.ram.size, bytes⟩, s.mem.fits⟩ s

/-- The state after the notifies, before each of which the guest rewrites its RAM. --/
def afterNotifies (b : Backend) (s : Blk) (notifies : List (Nat → UInt8)) : Blk :=
  notifies.foldl (fun s bytes => (handleQueue b (setRam bytes s)).2) s

/-- The number of heads that the notifies find pending. --/
def served (b : Backend) : Blk → List (Nat → UInt8) → Nat
  | _, [] => 0
  | s, bytes :: rest => pending b (setRam bytes s) + served b (handleQueue b (setRam bytes s)).2 rest

/-- `P` holds of every state in which a notify of the run finds the device. --/
def EachNotify (P : Blk → Prop) (b : Backend) (s : Blk) (notifies : List (Nat → UInt8)) : Prop :=
  ∀ before bytes, before ++ [bytes] <+: notifies → P (setRam bytes (afterNotifies b s before))

/-- Every notify of a run is accounted for, and the next one goes on at the position where it stopped. --/
def RunAccounted (b : Backend) (s : Blk) (notifies : List (Nat → UInt8)) : Prop :=
  EachNotify (Accounted b) b s notifies ∧
  ∀ before, before <+: notifies →
    (afterNotifies b s before).queue.lastAvail = s.queue.lastAvail + UInt16.ofNat (served b s before)

theorem EachNotify.first {P : Blk → Prop} {bytes : Nat → UInt8} {rest : List (Nat → UInt8)}
    (h : EachNotify P b s (bytes :: rest)) : P (setRam bytes s) := h [] bytes (by simp)

theorem EachNotify.others {P : Blk → Prop} {bytes : Nat → UInt8} {rest : List (Nat → UInt8)}
    (h : EachNotify P b s (bytes :: rest)) : EachNotify P b (handleQueue b (setRam bytes s)).2 rest :=
  fun before bytes' hp => h (bytes :: before) bytes' (List.cons_prefix_cons.mpr ⟨rfl, hp⟩)

/-- Over every run of notifies each pending head gives one used element, in order, as long as no chain ends
    in an empty descriptor whose address is in a ring. --/
theorem run_accounted (b : Backend) : ∀ (s : Blk) (notifies : List (Nat → UInt8)), RingsFit b s.mem s.queue →
    EachNotify (EachRound (BuffersSpareRings b) b) b s notifies →
    EachNotify (EachRound (LastByteSparesRings b) b) b s notifies → RunAccounted b s notifies
  | s, [], _, _, _ => by
    refine ⟨fun before bytes hp => ?_, fun before hp => ?_⟩
    · simp at hp
    · rw [List.prefix_nil.mp hp]
      simp [afterNotifies, served]
  | s, bytes :: rest, hfit, hspare, hlast => by
    have hacc : Accounted b (setRam bytes s) := handleQueue_accounted ⟨hfit.desc, hfit.driver, hfit.device⟩
      hspare.first hlast.first
    have hend := (queue_of_publishes hacc.publishes).1
    have hq : (handleQueue b (setRam bytes s)).2.queue = { s.queue with
        lastAvail := s.queue.lastAvail + UInt16.ofNat (pending b (setRam bytes s)) } := by
      rw [hacc.returns]
      exact hend
    have hsize : (handleQueue b (setRam bytes s)).2.mem.size = s.mem.size := by
      have : ∀ n ≤ pending b (setRam bytes s), (roundState b (setRam bytes s) n).mem.size = s.mem.size := by
        intro n hn
        induction n with
        | zero => rfl
        | succ n ih => rw [(hacc.publishes n hn).size, ih (Nat.le_of_succ_le hn)]
      rw [hacc.returns, this _ (Nat.le_refl _)]
    have hfit' : RingsFit b (handleQueue b (setRam bytes s)).2.mem (handleQueue b (setRam bytes s)).2.queue := by
      rw [hq]
      obtain ⟨h1, h2, h3⟩ := hfit.congr hsize
      exact ⟨h1, h2, h3⟩
    obtain ⟨hrest, hpos⟩ := run_accounted b (handleQueue b (setRam bytes s)).2 rest hfit' hspare.others hlast.others
    refine ⟨fun before bytes' hp => ?_, fun before hp => ?_⟩
    · cases before with
      | nil =>
        obtain ⟨rfl, -⟩ := List.cons_prefix_cons.mp hp
        exact hacc
      | cons x before =>
        obtain ⟨rfl, hp'⟩ := List.cons_prefix_cons.mp hp
        exact hrest before bytes' hp'
    · cases before with
      | nil => simp [afterNotifies, served]
      | cons x before =>
        obtain ⟨rfl, hp'⟩ := List.cons_prefix_cons.mp hp
        have := hpos before hp'
        rw [hq] at this
        show (afterNotifies b (handleQueue b (setRam x s)).2 before).queue.lastAvail = _
        rw [this, served, UInt16.ofNat_add]
        show s.queue.lastAvail + _ + _ = _
        rw [UInt16.add_assoc]

/-- A device with a queue of one entry: descriptors at 0, avail ring at 0x100, used ring at 0x200. --/
def oneEntry : Blk where
  mem := ⟨⟨1024, fun _ => 0⟩, by decide⟩
  queue := { size := 1, size_pos := by decide, size_le := by decide, ready := true, lastAvail := 0,
             descAddr := 0, driverAddr := 0x100, deviceAddr := 0x200 }
  disk := { base := ⟨0, fun _ => 0⟩, overlay := none, dirtySectors := [], diskBytes := 0, sectors := 0,
            readOnly := false, faults := [] }
  written := 0

/-- One pending head, for a descriptor of `len` bytes at the address 0x200 + `low`. --/
def oneHead (low len flags : UInt8) (i : Nat) : UInt8 :=
  if i = 0 then low else if i = 1 then 2 else if i = 8 then len else if i = 12 then flags
  else if i = 0x102 then 1 else 0

/-- In a run of one notify with one pending head there is one round. --/
theorem eachNotify_one {P : Blk → Prop} {bytes : Nat → UInt8} (hp : pending b (setRam bytes s) = 1)
    (h : P (setRam bytes s)) : EachNotify (EachRound P b) b s [bytes] := by
  intro before bytes' hpre j hj
  cases before with
  | nil =>
    obtain ⟨rfl, -⟩ := List.cons_prefix_cons.mp hpre
    have hj' : j < 1 := hp ▸ hj
    obtain rfl : j = 0 := by omega
    exact h
  | cons x before =>
    have := hpre.length_le
    simp at this

/-- The theorem on a notify whose chain is one readable descriptor outside the rings. --/
theorem run_accounted_short_chain : RunAccounted .whp oneEntry [oneHead 0x40 16 0] := by
  have hwalk : (setRam (oneHead 0x40 16 0) oneEntry).mem.walkChain .whp oneEntry.queue 0 = .ok [⟨0x240, 16, 0, 0⟩] := rfl
  refine run_accounted .whp oneEntry [oneHead 0x40 16 0] ⟨by decide, by decide, by decide⟩
    (eachNotify_one (by decide) fun chain hc d hd i hi => ?_) (eachNotify_one (by decide) fun chain last hc hl h0 => ?_)
  · obtain rfl := Except.ok.inj (hwalk.symm.trans hc)
    obtain rfl := List.mem_singleton.mp hd
    have h1 : 0x240 ≤ 0 + i := hi.1
    rintro (⟨-, h2⟩ | ⟨-, h2⟩ | ⟨-, h2⟩)
    · have : 0 + i < 0 + 16 := h2
      omega
    · have : 0 + i < 0x100 + 6 := h2
      omega
    · have : 0 + i < 0x200 + 12 := h2
      omega
  · obtain rfl := Except.ok.inj (hwalk.symm.trans hc)
    obtain rfl := Option.some.inj hl
    cases h0

/-- The claim fails on a chain of one empty descriptor at the address of the used index: the status byte
    makes that index 1 before the element is published, so one head moves it by two. --/
theorem run_accounted_fails_on_empty_status : RingsFit .kvm oneEntry.mem oneEntry.queue ∧
    EachNotify (EachRound (BuffersSpareRings .kvm) .kvm) .kvm oneEntry [oneHead 2 0 0] ∧
    ¬RunAccounted .kvm oneEntry [oneHead 2 0 0] := by
  have hwalk : (setRam (oneHead 2 0 0) oneEntry).mem.walkChain .kvm oneEntry.queue 0 = .ok [⟨0x202, 0, 0, 0⟩] := rfl
  refine ⟨⟨by decide, by decide, by decide⟩, eachNotify_one (by decide) fun chain hc d hd i hi => ?_, fun h => ?_⟩
  · obtain rfl := Except.ok.inj (hwalk.symm.trans hc)
    obtain rfl := List.mem_singleton.mp hd
    have h1 : 0x202 ≤ 0 + i := hi.1
    have h2 : 0 + i < 0x202 + 0 := hi.2
    omega
  · have hidx : (roundState .kvm (setRam (oneHead 2 0 0) oneEntry) 1).mem.usedIdx .kvm oneEntry.queue = 1 :=
      h.1.first.usedIdx 1 (by decide)
    exact absurd hidx (by decide)

end Blk

/-- A queue of four entries that is ready. --/
def fourEntries (descAddr driverAddr deviceAddr : UInt64) : Queue where
  size := 4
  size_pos := by decide
  size_le := by decide
  ready := true
  lastAvail := 0
  descAddr := descAddr
  driverAddr := driverAddr
  deviceAddr := deviceAddr

end NodeVmm
