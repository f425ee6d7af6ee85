import NodeVmm.Theorems.WhpDeliver
import NodeVmm.WhpRng

/-! The queue of the entropy device. A chain is followed as far as its indices are new and in the table; the device
    fills the writable buffers on the way, and gives the head back with the number of bytes that it stored, whatever
    the descriptors say. A queue with a part at the address 0 is not served. -/

namespace NodeVmm.Whp.VirtioRng
open ByteStore

/-! ### What a chain holds -/

/-- The descriptors that `service_chain` comes to, in a memory that does not change. --/
def visited (m : GuestMemory) (q : NodeVmm.Queue) : Nat → List UInt16 → UInt16 → List Desc
  | 0, _, _ => []
  | hops + 1, seen, idx =>
    if q.size ≤ idx.toNat ∨ idx ∈ seen then []
    else
      match ptrOrNull m (q.descEntry idx) 16 with
      | none => []
      | some p => descAt m p ::
        if (descAt m p).hasNext then visited m q hops (idx :: seen) (descAt m p).next else []

/-- The buffer is one that the device may store into. --/
def Fillable (m : GuestMemory) (d : Desc) : Prop := d.writable = true ∧ m.InRam .whp d.addr d.len.toNat

instance (m : GuestMemory) (d : Desc) : Decidable (Fillable m d) := inferInstanceAs (Decidable (_ ∧ _))

def fillables (m : GuestMemory) (chain : List Desc) : List Desc := chain.filter fun d => decide (Fillable m d)

/-- The buffers of the chain that the next head names. --/
def buffers (s : VirtioRng) : List Desc :=
  fillables s.mem (visited s.mem s.queue s.queue.size [] (availHead .whp s.mem s.queue))

/-- The offset `i` belongs to one of the buffers. --/
def InBuffers (ds : List Desc) (i : Nat) : Prop := ∃ d ∈ ds, Touches .whp d.addr d.len.toNat i

/-- The buffers were filled, and nothing else changed that a walk depends on. --/
structure Fills (ds : List Desc) (s t : VirtioRng) : Prop where
  queue : t.queue = s.queue
  drawn : t.drawn = s.drawn + capacity ds
  ram : AgreeOn (fun i => ¬InBuffers ds i) s.mem.ram t.mem.ram

section
variable {m m' : GuestMemory} {q : NodeVmm.Queue} {s t u : VirtioRng} {ds es : List Desc} {d : Desc} {K : Nat → Prop}

theorem capacity_append : capacity (ds ++ es) = capacity ds + capacity es := by
  induction ds with
  | nil => exact (Nat.zero_add _).symm
  | cons d ds ih =>
    show d.len.toNat + capacity (ds ++ es) = d.len.toNat + capacity ds + capacity es
    rw [ih, Nat.add_assoc]

theorem fillables_cons (d : Desc) (ds : List Desc) : fillables m (d :: ds) = fillables m [d] ++ fillables m ds :=
  List.filter_append [d] ds

theorem fillables_congr (h : m'.size = m.size) : fillables m' ds = fillables m ds :=
  List.filter_congr fun _ _ => decide_eq_decide.mpr (and_congr_right fun _ => GuestMemory.inRam_congr h)

theorem inBuffers_append {i : Nat} : InBuffers (ds ++ es) i ↔ InBuffers ds i ∨ InBuffers es i := by
  simp [InBuffers, or_and_right, exists_or]

theorem Fills.refl (s : VirtioRng) (h : capacity ds = 0) : Fills ds s s := ⟨rfl, by rw [h, Nat.add_zero], AgreeOn.refl _ _⟩

theorem Fills.trans (h : Fills ds s t) (h' : Fills es t u) : Fills (ds ++ es) s u where
  queue := h'.queue.trans h.queue
  drawn := by rw [h'.drawn, h.drawn, capacity_append, Nat.add_assoc]
  ram := by
    refine (h.ram.mono ?_).trans (h'.ram.mono ?_)
    · intro i hi hin
      exact hi (inBuffers_append.mpr (Or.inl hin))
    · intro i hi hin
      exact hi (inBuffers_append.mpr (Or.inr hin))

theorem Fills.size (h : Fills ds s t) : t.mem.size = s.mem.size := h.ram.size

/-- Buffers that spare `K` leave it as it is. --/
theorem Fills.agreeOn (h : Fills ds s t) (hspare : ∀ d ∈ ds, Blk.Spares .whp K d) : AgreeOn K s.mem.ram t.mem.ram :=
  h.ram.mono fun i hi ⟨d, hd, hin⟩ => hspare d hd i hin hi

/-- A walk reads the descriptor table and nothing else. --/
theorem visited_congr (h : AgreeOn (GuestMemory.InDescTable .whp q) m.ram m'.ram) :
    ∀ hops seen idx, visited m' q hops seen idx = visited m q hops seen idx
  | 0, _, _ => rfl
  | hops + 1, seen, idx => by
    unfold visited
    by_cases hstop : q.size ≤ idx.toNat ∨ idx ∈ seen
    · rw [if_pos hstop, if_pos hstop]
    · rw [if_neg hstop, if_neg hstop]
      have hptr : ptrOrNull m' (q.descEntry idx) 16 = ptrOrNull m (q.descEntry idx) 16 := by
        unfold ptrOrNull GuestMemory.size
        rw [h.size]
      rw [hptr]
      cases hp : ptrOrNull m (q.descEntry idx) 16 with
      | none => rfl
      | some p =>
        obtain ⟨hin, rfl⟩ := ptrOrNull_eq_some.mp hp
        have hidx : idx.toNat < q.size := Nat.lt_of_not_le fun hle => hstop (Or.inl hle)
        have hword : ∀ a n i, a + n ≤ 16 → Within ((q.descEntry idx).toNat + a) n i → GuestMemory.InDescTable .whp q i := by
          intro a n i han hi
          refine ⟨idx, hidx, hin.touches_iff.mp ?_⟩
          show Within ((q.descEntry idx).toNat - 0) 16 i
          unfold Within at hi ⊢
          omega
        have hdesc : descAt m' (q.descEntry idx).toNat = descAt m (q.descEntry idx).toNat := by
          unfold descAt
          rw [h.readU64 fun i (hi : Within (q.descEntry idx).toNat 8 i) => hword 0 8 i (by omega) hi,
            h.readU32 fun i => hword 8 4 i (by omega), h.readU16 fun i => hword 12 2 i (by omega),
            h.readU16 fun i => hword 14 2 i (by omega)]
        simp only [hdesc, visited_congr h hops]

end

/-! ### Filling -/

section
variable {g : Generator} {s : VirtioRng} {hops : Nat} {seen : List UInt16} {idx : UInt16} {written : UInt32}
variable (hg : ∀ i, g.fails i = false)
include hg

theorem genRandom_run (dst chunk : Nat) : genRandom g dst chunk s = (.ok (), draw g dst chunk (countCall s)) := by
  unfold genRandom
  rw [Exec.bind_of_ok Exec.get_apply, Exec.bind_of_ok Exec.modify_apply, Exec.bind_of_ok (Exec.check_of_true (by simp [hg]))]
  rfl

theorem fillFrom_run : ∀ (fuel dst len : Nat) {s : VirtioRng}, len ≤ fuel →
    ∃ t, fillFrom g fuel dst len s = (.ok (), t) ∧ t.queue = s.queue ∧ t.drawn = s.drawn + len ∧
      AgreeOn (fun i => ¬Within dst len i) s.mem.ram t.mem.ram
  | 0, dst, len, s, hfuel => by
    obtain rfl : len = 0 := Nat.le_zero.mp hfuel
    exact ⟨s, rfl, rfl, rfl, AgreeOn.refl _ _⟩
  | fuel + 1, dst, len, s, hfuel => by
    unfold fillFrom
    by_cases hlen : len = 0
    · subst hlen
      exact ⟨s, rfl, rfl, rfl, AgreeOn.refl _ _⟩
    · have hchunk : 0 < min len maxChunk := Nat.lt_min.mpr ⟨Nat.pos_of_ne_zero hlen, by decide⟩
      have hle : min len maxChunk ≤ len := Nat.min_le_left _ _
      obtain ⟨t, hrun, hqueue, hdrawn, hram⟩ := fillFrom_run fuel (dst + min len maxChunk)
        (len - min len maxChunk) (s := draw g dst (min len maxChunk) (countCall s)) (by omega)
      refine ⟨t, ?_, hqueue, ?_, ?_⟩
      · rw [if_neg hlen, Exec.bind_of_ok (genRandom_run hg dst (min len maxChunk)), hrun]
      · rw [hdrawn]
        show s.drawn + min len maxChunk + (len - min len maxChunk) = s.drawn + len
        omega
      · have hfirst : AgreeOn (fun i => ¬Within dst len i) s.mem.ram
            (draw g dst (min len maxChunk) (countCall s)).mem.ram := by
          refine AgreeOn.write fun i hi hout => hout ?_
          rw [List.length_map, List.length_range] at hi
          exact ⟨hi.1, Nat.lt_of_lt_of_le hi.2 (by omega)⟩
        refine hfirst.trans (hram.mono ?_)
        intro i hi hin
        refine hi ?_
        unfold Within at hin ⊢
        omega

/-- What one descriptor adds. --/
theorem serviceDesc_run (d : Desc) (written : UInt32) : ∃ t, serviceDesc g d written s =
    (.ok (written + UInt32.ofNat (capacity (fillables s.mem [d]))), t) ∧ Fills (fillables s.mem [d]) s t := by
  unfold serviceDesc
  rw [Exec.bind_of_ok Exec.get_apply]
  by_cases hfill : Fillable s.mem d
  · have hone : fillables s.mem [d] = [d] := by simp [fillables, hfill]
    rw [hone]
    by_cases hlen : d.len = 0
    · have hzero : capacity [d] = 0 := by simp [capacity, hlen]
      refine ⟨s, ?_, Fills.refl s hzero⟩
      simp [hlen, hzero]
    · have hif : (d.writable && d.len != 0) = true := by simp [hfill.1, hlen]
      obtain ⟨t, hrun, hqueue, hdrawn, hram⟩ := fillFrom_run hg d.len.toNat d.addr.toNat d.len.toNat (s := s)
        (Nat.le_refl _)
      have hrandom : fillRandom g d.addr.toNat d.len.toNat s = (.ok (), t) := hrun
      refine ⟨t, ?_, hqueue, hdrawn, hram.mono ?_⟩
      · rw [if_pos hif, ptrOrNull_of_inRam hfill.2]
        exact (Exec.bind_of_ok hrandom).trans (by simp [capacity])
      · intro i hi hin
        exact hi ⟨d, List.mem_singleton_self d, hfill.2.touches_iff.mp hin⟩
  · have hnone : fillables s.mem [d] = [] := by simp [fillables, hfill]
    rw [hnone]
    refine ⟨s, ?_, Fills.refl s rfl⟩
    have hadd : written + UInt32.ofNat (capacity []) = written := UInt32.add_zero written
    rw [hadd]
    by_cases hif : (d.writable && d.len != 0) = true
    · have hw : d.writable = true := (Bool.and_eq_true_iff.mp hif).1
      rw [if_pos hif, ptrOrNull_of_not_inRam fun hin => hfill ⟨hw, hin⟩]
      rfl
    · rw [if_neg hif]
      rfl

/-- A walk returns with the bytes of the buffers that it filled. --/
theorem serviceFrom_run : ∀ (hops : Nat) (seen : List UInt16) (idx : UInt16) (written : UInt32) {s : VirtioRng},
    (∀ d ∈ fillables s.mem (visited s.mem s.queue hops seen idx),
      Blk.Spares .whp (GuestMemory.InDescTable .whp s.queue) d) →
    ∃ t, serviceFrom g hops seen idx written s =
      (.ok (written + UInt32.ofNat (capacity (fillables s.mem (visited s.mem s.queue hops seen idx)))), t) ∧
      Fills (fillables s.mem (visited s.mem s.queue hops seen idx)) s t
  | 0, _, _, written, s, _ => ⟨s, by
      show (Except.ok written, s) = (.ok (written + 0), s)
      rw [UInt32.add_zero], Fills.refl s rfl⟩
  | hops + 1, seen, idx, written, s, hspare => by
    have hend : ∀ w : UInt32, w = w + UInt32.ofNat (capacity []) := fun w => (UInt32.add_zero w).symm
    unfold serviceFrom
    rw [Exec.bind_of_ok Exec.get_apply]
    unfold visited at hspare ⊢
    by_cases hstop : s.queue.size ≤ idx.toNat ∨ idx ∈ seen
    · rw [if_pos hstop, if_pos hstop]
      exact ⟨s, congrArg (fun w => (Except.ok w, s)) (hend written), Fills.refl s rfl⟩
    · rw [if_neg hstop] at hspare
      rw [if_neg hstop, if_neg hstop]
      cases hp : ptrOrNull s.mem (s.queue.descEntry idx) 16 with
      | none => exact ⟨s, congrArg (fun w => (Except.ok w, s)) (hend written), Fills.refl s rfl⟩
      | some p =>
        rw [hp] at hspare
        simp only at hspare ⊢
        generalize descAt s.mem p = d at hspare ⊢
        obtain ⟨t, hdesc, hfills⟩ := serviceDesc_run hg (s := s) d written
        rw [Exec.bind_of_ok hdesc]
        by_cases hnext : d.hasNext = true
        · rw [if_pos hnext] at hspare
          rw [if_pos hnext, if_pos hnext]
          have hcons := fillables_cons (m := s.mem) d (visited s.mem s.queue hops (idx :: seen) d.next)
          rw [hcons] at hspare ⊢
          have htable : AgreeOn (GuestMemory.InDescTable .whp s.queue) s.mem.ram t.mem.ram :=
            hfills.agreeOn fun e he => hspare e (List.mem_append_left _ he)
          have hsame : fillables t.mem (visited t.mem t.queue hops (idx :: seen) d.next) =
              fillables s.mem (visited s.mem s.queue hops (idx :: seen) d.next) := by
            rw [fillables_congr hfills.size, hfills.queue, visited_congr htable]
          obtain ⟨u, hrun, hrest⟩ := serviceFrom_run hops (idx :: seen) d.next
            (written + UInt32.ofNat (capacity (fillables s.mem [d]))) (s := t) (by
              rw [hsame, hfills.queue]
              exact fun e he => hspare e (List.mem_append_right _ he))
          rw [hsame] at hrun hrest
          refine ⟨u, ?_, hfills.trans hrest⟩
          rw [hrun, capacity_append, UInt32.ofNat_add, UInt32.add_assoc]
        · rw [if_neg hnext, if_neg hnext]
          exact ⟨t, rfl, hfills⟩

end

/-! ### One round -/

/-- The state in which round `j` starts, counted from 0. --/
def roundState (g : Generator) (s : VirtioRng) : Nat → VirtioRng
  | 0 => s
  | j + 1 => (serveOne g (roundState g s j)).2

/-- The next head is taken and given back at the next used element, with the number of bytes stored. Nothing changes
    but the buffers of its chain, that element and the used index. --/
structure Serves (s t : VirtioRng) : Prop where
  queue : t.queue = s.bumpLastAvail.queue
  usedIdx : t.mem.usedIdx .whp s.queue = s.mem.usedIdx .whp s.queue + 1
  usedId : t.mem.usedId .whp s.queue (s.mem.usedIdx .whp s.queue) = (availHead .whp s.mem s.queue).toUInt32
  usedLen : t.drawn = s.drawn + (t.mem.usedLen .whp s.queue (s.mem.usedIdx .whp s.queue)).toNat
  others : AgreeOn (fun i => ¬InBuffers (buffers s) i ∧ ¬GuestMemory.InUsedIdx .whp s.queue i ∧
    ¬GuestMemory.InUsedElem .whp s.queue (s.mem.usedIdx .whp s.queue) i) s.mem.ram t.mem.ram

/-- No buffer of the next chain overlaps a ring. --/
def BuffersSpareRings (s : VirtioRng) : Prop := ∀ d ∈ buffers s, Blk.Spares .whp (InRings .whp s.queue) d

/-- The lengths of its buffers sum to less than 2^32. --/
def LengthsFit (s : VirtioRng) : Prop := capacity (buffers s) < 2 ^ 32

section
variable {g : Generator} {s t : VirtioRng}

theorem visited_bump (m : GuestMemory) (q : NodeVmm.Queue) (position : UInt16) : ∀ hops seen idx,
    visited m { q with lastAvail := position } hops seen idx = visited m q hops seen idx
  | 0, _, _ => rfl
  | hops + 1, seen, idx => by
    have hentry : ({ q with lastAvail := position } : NodeVmm.Queue).descEntry idx = q.descEntry idx := rfl
    simp only [visited, hentry, visited_bump m q position hops]

theorem pushUsed_of_canPublish {q : NodeVmm.Queue} {id : UInt16} {written : UInt32} (hq : s.queue = q)
    (h : s.mem.CanPublish .whp q) : pushUsed id written s = { s with mem := s.mem.published .whp q id.toUInt32 written } := by
  subst hq
  have helem : ptrOrNull s.mem (s.queue.usedEntry (s.mem.ram.readU16 s.queue.usedIdxAddr.toNat)) 8 = some _ :=
    ptrOrNull_of_inRam h.2
  unfold pushUsed
  rw [ptrOrNull_of_inRam h.1]
  simp only [helem]
  rfl

theorem serveOne_serves (hg : ∀ i, g.fails i = false) (hfit : RingsFit .whp s.mem s.queue)
    (hspare : BuffersSpareRings s) (hlen : LengthsFit s) : ∃ t, serveOne g s = (.ok true, t) ∧ Serves s t := by
  have hchain : fillables s.bumpLastAvail.mem (visited s.bumpLastAvail.mem s.bumpLastAvail.queue s.queue.size []
      (availHead .whp s.mem s.queue)) = buffers s :=
    congrArg (fillables s.mem) (visited_bump s.mem s.queue (s.queue.lastAvail + 1) s.queue.size [] _)
  obtain ⟨t, hrun, hfills⟩ := serviceFrom_run hg s.queue.size [] (availHead .whp s.mem s.queue) 0 (s := s.bumpLastAvail) (by
      intro d hd i hi htable
      exact hspare d (hchain ▸ hd) i hi (hfit.inRings_of_inDescTable htable))
  rw [hchain, UInt32.zero_add] at hrun
  rw [hchain] at hfills
  have hrings : AgreeOn (InRings .whp s.queue) s.mem.ram t.mem.ram := hfills.agreeOn hspare
  have hcan : t.mem.CanPublish .whp s.queue := (hfit.congr hfills.size).canPublish
  have hidx : t.mem.usedIdx .whp s.queue = s.mem.usedIdx .whp s.queue := by
    refine hrings.readU16 fun i hi => Or.inr (Or.inr ?_)
    exact GuestMemory.touches_of_inUsedIdx hfit.device ((GuestMemory.usedIdx_inRam hfit.device).touches_iff.mp hi)
  have hpub := GuestMemory.agreeOn_published (availHead .whp s.mem s.queue).toUInt32
    (UInt32.ofNat (capacity (buffers s))) hcan
  have hserve : serveOne g s = (.ok true, { t with
      mem := t.mem.published .whp s.queue (availHead .whp s.mem s.queue).toUInt32 (.ofNat (capacity (buffers s))) }) := by
    unfold serveOne
    rw [Exec.bind_of_ok Exec.get_apply, ptrOrNull_of_inRam (hfit.availEntry_inRam _)]
    have hservice : serviceChain g (availHead .whp s.mem s.queue) s.bumpLastAvail =
        (.ok (UInt32.ofNat (capacity (buffers s))), t) := hrun
    refine (Exec.bind_of_ok Exec.modify_apply).trans ((Exec.bind_of_ok hservice).trans ?_)
    rw [Exec.bind_of_ok Exec.modify_apply, pushUsed_of_canPublish hfills.queue hcan]
    rfl
  refine ⟨_, hserve, hfills.queue, ?_, ?_, ?_, ?_⟩
  · exact GuestMemory.usedIdx_published.trans (congrArg (· + 1) hidx)
  · rw [← hidx]
    exact GuestMemory.usedId_published hcan
  · rw [← hidx, GuestMemory.usedLen_published hcan, UInt32.toNat_ofNat', Nat.mod_eq_of_lt hlen]
    exact hfills.drawn
  · rw [hidx] at hpub
    exact (hfills.ram.mono fun i hi => hi.1).trans (hpub.mono fun i hi => hi.2)

theorem Serves.size (h : Serves s t) : t.mem.size = s.mem.size := h.others.size

theorem Serves.ringsFit (h : Serves s t) (hfit : RingsFit .whp s.mem s.queue) : RingsFit .whp t.mem t.queue := by
  rw [h.queue]
  obtain ⟨h1, h2, h3⟩ := hfit.congr h.size
  exact ⟨h1, h2, h3⟩

end

/-! ### One notify -/

/-- The number of heads between `last_avail` and the avail index, modulo 2^16. --/
def pending (s : VirtioRng) : Nat := (availIdx .whp s.mem s.queue - s.queue.lastAvail).toNat

/-- The condition on the states in which the rounds of a notify start. --/
def EachRound (P : VirtioRng → Prop) (g : Generator) (s : VirtioRng) : Prop := ∀ j < pending s, P (roundState g s j)

/-- The used index after `j` rounds, where round `j` puts its element. --/
def slot (s : VirtioRng) (j : Nat) : UInt16 := s.mem.usedIdx .whp s.queue + UInt16.ofNat j

/-- A notify returns after one round for each pending head, with an interrupt if there was one, and its loop ends by
    its own test, however many more rounds it may take. Round `j` takes the head at the position `last_avail + j` and
    puts its element at the used index plus `j`; the last elements, as many as the ring has, are there at the end. --/
structure Served (g : Generator) (s : VirtioRng) : Prop where
  returns : notify g 0 s = (.ok (), if pending s = 0 then s else (roundState g s (pending s)).signal)
  ends : ∀ rounds ≥ pending s, serveUntil g (availIdx .whp s.mem s.queue) rounds false s =
    (.ok (pending s != 0), roundState g s (pending s))
  serves : ∀ j < pending s, Serves (roundState g s j) (roundState g s (j + 1))
  position : ∀ j ≤ pending s, (roundState g s j).queue.lastAvail = s.queue.lastAvail + UInt16.ofNat j
  usedIdx : ∀ j ≤ pending s, (roundState g s j).mem.usedIdx .whp s.queue = slot s j
  lastAvail : (roundState g s (pending s)).queue.lastAvail = availIdx .whp s.mem s.queue
  visible : ∀ j < pending s, pending s ≤ j + s.queue.size →
    (roundState g s (pending s)).mem.usedId .whp s.queue (slot s j) =
        (availHead .whp (roundState g s j).mem (roundState g s j).queue).toUInt32 ∧
      (roundState g s (pending s)).mem.usedLen .whp s.queue (slot s j) =
        (roundState g s (j + 1)).mem.usedLen .whp s.queue (slot s j)

section
variable {g : Generator} {s t : VirtioRng} {n : Nat}

theorem roundState_succ (g : Generator) (s : VirtioRng) : ∀ j, roundState g s (j + 1) = roundState g (serveOne g s).2 j
  | 0 => rfl
  | j + 1 => congrArg (fun t => (serveOne g t).2) (roundState_succ g s j)

/-- The loop takes exactly the pending heads. --/
theorem serveUntil_run (hg : ∀ i, g.fails i = false) (target : UInt16) : ∀ (n fuel : Nat) {s : VirtioRng} (processed : Bool),
    RingsFit .whp s.mem s.queue → (target - s.queue.lastAvail).toNat = n → n ≤ fuel →
    (∀ j < n, BuffersSpareRings (roundState g s j) ∧ LengthsFit (roundState g s j)) →
    serveUntil g target fuel processed s = (.ok (processed || n != 0), roundState g s n) ∧
      ∀ j < n, Serves (roundState g s j) (roundState g s (j + 1))
  | 0, fuel, s, processed, _, hn, _, _ => by
    have heq : s.queue.lastAvail = target := Words.eq_of_sub_eq_zero hn
    refine ⟨?_, fun j hj => absurd hj (Nat.not_lt_zero j)⟩
    have hor : (processed || (0 != 0)) = processed := Bool.or_false processed
    rw [hor]
    cases fuel with
    | zero => rfl
    | succ fuel =>
      unfold serveUntil
      rw [Exec.bind_of_ok Exec.get_apply, if_pos heq]
      rfl
  | n + 1, 0, _, _, _, _, hf, _ => absurd hf (Nat.not_succ_le_zero n)
  | n + 1, fuel + 1, s, processed, hfit, hn, hf, hround => by
    have hne : ¬s.queue.lastAvail = target := by
      intro heq
      rw [heq, UInt16.sub_self] at hn
      cases hn
    obtain ⟨t, hrun, hserves⟩ := serveOne_serves hg hfit (hround 0 (Nat.succ_pos n)).1 (hround 0 (Nat.succ_pos n)).2
    have hshift : ∀ j, roundState g s (j + 1) = roundState g t j := fun j => by rw [roundState_succ, hrun]
    have hlast : t.queue.lastAvail = s.queue.lastAvail + 1 := congrArg NodeVmm.Queue.lastAvail hserves.queue
    obtain ⟨hloop, hrest⟩ := serveUntil_run hg target n fuel (s := t) true (hserves.ringsFit hfit)
      (by rw [hlast]; exact Words.sub_succ hn) (Nat.le_of_succ_le_succ hf) fun j hj => by
        rw [← hshift]
        exact hround (j + 1) (Nat.succ_lt_succ hj)
    constructor
    · have hor : (processed || (n + 1 != 0)) = (true || (n != 0)) := by simp
      unfold serveUntil
      rw [Exec.bind_of_ok Exec.get_apply, if_neg hne, Exec.bind_of_ok hrun, if_pos rfl, hloop, hshift, hor]
    · intro j hj
      cases j with
      | zero =>
        rw [hshift]
        exact hserves
      | succ j =>
        rw [hshift, hshift]
        exact hrest j (Nat.lt_of_succ_lt_succ hj)

/-- Rounds move the registers and the used index by one each. --/
theorem moved_of_serves (h : ∀ j < n, Serves (roundState g s j) (roundState g s (j + 1))) {j : Nat} (hj : j ≤ n) :
    (roundState g s j).queue = { s.queue with lastAvail := s.queue.lastAvail + UInt16.ofNat j } ∧
      (roundState g s j).mem.usedIdx .whp s.queue = slot s j ∧ (roundState g s j).mem.size = s.mem.size := by
  induction j with
  | zero =>
    refine ⟨?_, (UInt16.add_zero _).symm, rfl⟩
    show s.queue = { s.queue with lastAvail := s.queue.lastAvail + 0 }
    rw [UInt16.add_zero]
  | succ j ih =>
    obtain ⟨hqueue, hidx, hsize⟩ := ih (Nat.le_of_succ_le hj)
    have hserves := h j hj
    have hmoved := hserves.usedIdx
    rw [hqueue] at hmoved
    refine ⟨?_, ?_, hserves.size.trans hsize⟩
    · rw [hserves.queue, bumpLastAvail, Words.add_ofNat_succ]
      simp only [hqueue]
    · rw [slot, Words.add_ofNat_succ]
      exact hmoved.trans (congrArg (· + 1) hidx)

/-- An element stays until the ring comes round. --/
theorem element_kept (hfit : RingsFit .whp s.mem s.queue) (hpow : s.queue.size ∣ 2 ^ 16)
    (hspare : ∀ j < n, BuffersSpareRings (roundState g s j))
    (h : ∀ j < n, Serves (roundState g s j) (roundState g s (j + 1))) {j : Nat} (hn : n ≤ j + s.queue.size) :
    ∀ k, j + 1 ≤ k → k ≤ n → AgreeOn (GuestMemory.InUsedElem .whp s.queue (slot s j)) (roundState g s (j + 1)).mem.ram
      (roundState g s k).mem.ram := by
  intro k hjk
  induction hjk with
  | refl => exact fun _ => AgreeOn.refl _ _
  | @step k hjk ih =>
    intro hk
    have hlt : j < k := hjk
    obtain ⟨hqueue, hidx, -⟩ := moved_of_serves h (Nat.le_of_succ_le hk)
    refine (ih (Nat.le_of_succ_le hk)).trans ((h k hk).others.mono fun i hi => ⟨?_, ?_, ?_⟩)
    · rintro ⟨d, hd, hin⟩
      have hring : InRings .whp s.queue i := Or.inr (Or.inr (GuestMemory.touches_of_inUsedElem hfit.device hi))
      refine hspare k hk d hd i hin ?_
      rw [hqueue]
      exact hring
    · rw [hqueue]
      exact GuestMemory.usedElem_apart_idx hfit.device hi
    · rw [hqueue]
      show ¬GuestMemory.InUsedElem .whp s.queue ((roundState g s k).mem.usedIdx .whp s.queue) i
      rw [hidx]
      exact GuestMemory.usedElem_apart hfit.device (Words.slot_ne hpow (by omega) (by omega)) hi

/-- With a generator that works, a notify serves every pending head of a queue whose parts are not at the address 0. --/
theorem notify_served (g : Generator) (s : VirtioRng) (hg : ∀ i, g.fails i = false) (hready : s.queue.ready = true)
    (hpow : s.queue.size.isPowerOfTwo) (hdesc : s.queue.descAddr ≠ 0) (hdriver : s.queue.driverAddr ≠ 0)
    (hdevice : s.queue.deviceAddr ≠ 0) (hfit : RingsFit .whp s.mem s.queue) (hspare : EachRound BuffersSpareRings g s)
    (hlen : EachRound LengthsFit g s) : Served g s := by
  have hlt : pending s < 2 ^ 16 := UInt16.toNat_lt _
  have hloop : ∀ rounds ≥ pending s, _ := fun rounds hr =>
    serveUntil_run hg (availIdx .whp s.mem s.queue) (pending s) rounds false hfit rfl hr fun j hj => ⟨hspare j hj, hlen j hj⟩
  obtain ⟨hrun, hserves⟩ := hloop (2 ^ 16) (Nat.le_of_lt hlt)
  have hposition : ∀ j ≤ pending s, (roundState g s j).queue.lastAvail = s.queue.lastAvail + UInt16.ofNat j :=
    fun j hj => congrArg NodeVmm.Queue.lastAvail (moved_of_serves hserves hj).1
  refine ⟨?_, fun rounds hr => (hloop rounds hr).1, hserves, hposition, fun j hj => (moved_of_serves hserves hj).2.1, ?_, ?_⟩
  · have husable : s.usable = true := by simp [usable, hready, hdesc, hdriver, hdevice]
    show handleQueue g s = _
    unfold handleQueue
    rw [Exec.bind_of_ok Exec.get_apply, if_pos husable, ptrOrNull_of_inRam hfit.availIdx_inRam]
    refine (Exec.bind_of_ok hrun).trans ?_
    by_cases hnone : pending s = 0
    · rw [if_pos hnone, hnone]
      rfl
    · rw [if_neg hnone, if_pos (by simpa using hnone)]
      rfl
  · rw [hposition _ (Nat.le_refl _), pending, UInt16.ofNat_toNat, Words.add_sub_self]
  · intro j hj hn
    obtain ⟨hqueue, hidx, hsize⟩ := moved_of_serves hserves (Nat.le_of_lt hj)
    have hsize' := (moved_of_serves hserves (Nat.succ_le_of_lt hj)).2.2
    have hdvd := Words.dvd_of_isPowerOfTwo hpow (Nat.le_trans s.size_le (by decide))
    have hkept := element_kept hfit hdvd hspare hserves hn (pending s) hj (Nat.le_refl _)
    obtain ⟨hid, hcount⟩ := GuestMemory.usedElem_congr ((GuestMemory.inRam_congr hsize').mpr hfit.device) hkept
    have hround := (hserves j hj).usedId
    refine ⟨?_, hcount⟩
    rw [hid, ← hround, ← hidx, hqueue]
    rfl

end

/-! ### A queue of one entry -/

/-- A generator that gives sevens. --/
def sevens : Generator := ⟨fun _ => 7, fun _ => false⟩

/-- One pending head: its descriptor, at 0 and at 0x100, is a writable buffer of 4 bytes at 0x40. The avail ring is at
    0x200 and the used ring at 0x300. --/
def oneBuffer (i : Nat) : UInt8 :=
  if i = 0 ∨ i = 0x100 then 0x40 else if i = 8 ∨ i = 0x108 then 4 else if i = 12 ∨ i = 0x10C then 2
  else if i = 0x202 then 1 else 0

def oneEntry (descAddr : UInt64) : VirtioRng where
  mem := ⟨⟨1024, oneBuffer⟩, by decide⟩
  queue := { Blk.oneEntry.queue with descAddr := descAddr, driverAddr := 0x200, deviceAddr := 0x300 }
  size_le := Nat.le_add_left 1 63
  interruptStatus := 0
  irqRequests := 0
  calls := 0
  drawn := 0

theorem eachRound_one {P : VirtioRng → Prop} {g : Generator} {s : VirtioRng} (hp : pending s = 1) (h : P s) :
    EachRound P g s := by
  intro j hj
  have hzero : j = 0 := by omega
  subst hzero
  exact h

/-- A buffer at 0x40 of four bytes is below the avail ring and the used ring. --/
theorem spares_of_buffer {descAddr : UInt64} (hbuffers : buffers (oneEntry descAddr) = [⟨0x40, 4, 2, 0⟩])
    (htable : descAddr.toNat + 16 ≤ 0x40 ∨ 0x44 ≤ descAddr.toNat) : BuffersSpareRings (oneEntry descAddr) := by
  intro d hd i hi hring
  rw [hbuffers] at hd
  obtain rfl := List.mem_singleton.mp hd
  have h1 : 0x40 ≤ 0 + i := hi.1
  have h2 : 0 + i < 0x40 + 4 := hi.2
  rcases hring with ⟨h3, h4⟩ | ⟨h3, -⟩ | ⟨h3, -⟩
  · have h3' : descAddr.toNat ≤ 0 + i := h3
    have h4' : 0 + i < descAddr.toNat + 16 := h4
    omega
  · have h3' : 0x200 ≤ 0 + i := h3
    omega
  · have h3' : 0x300 ≤ 0 + i := h3
    omega

theorem notify_served_one : Served sevens (oneEntry 0x100) :=
  have hbuffers : buffers (oneEntry 0x100) = [⟨0x40, 4, 2, 0⟩] := rfl
  notify_served sevens (oneEntry 0x100) (fun _ => rfl) rfl ⟨0, rfl⟩ (by decide) (by decide) (by decide)
    ⟨by decide, by decide, by decide⟩ (eachRound_one (by decide) (spares_of_buffer hbuffers (Or.inr (by decide))))
    (eachRound_one (by decide) (by unfold LengthsFit; rw [hbuffers]; decide))

theorem signal_queue {s : VirtioRng} : s.signal.queue = s.queue := by
  unfold signal
  split <;> rfl

/-- A descriptor table at the address 0: the notify does nothing. --/
theorem zero_table_unserved : (oneEntry 0).queue.ready = true ∧ (oneEntry 0).queue.size.isPowerOfTwo ∧
    RingsFit .whp (oneEntry 0).mem (oneEntry 0).queue ∧ EachRound BuffersSpareRings sevens (oneEntry 0) ∧
    EachRound LengthsFit sevens (oneEntry 0) ∧ ¬Served sevens (oneEntry 0) := by
  have hbuffers : buffers (oneEntry 0) = [⟨0x40, 4, 2, 0⟩] := rfl
  have hpending : pending (oneEntry 0) = 1 := by decide
  refine ⟨rfl, ⟨0, rfl⟩, ⟨by decide, by decide, by decide⟩,
    eachRound_one hpending (spares_of_buffer hbuffers (Or.inl (by decide))),
    eachRound_one hpending (by unfold LengthsFit; rw [hbuffers]; decide), fun h => ?_⟩
  have hreturns := h.returns
  rw [hpending, if_neg Nat.one_ne_zero] at hreturns
  have hidle : notify sevens 0 (oneEntry 0) = (.ok (), oneEntry 0) := rfl
  rw [hidle] at hreturns
  have hqueue := congrArg (fun r => r.2.queue.lastAvail) hreturns
  simp only [signal_queue] at hqueue
  rw [h.position 1 (Nat.le_of_eq hpending.symm)] at hqueue
  exact absurd hqueue (by decide)

end NodeVmm.Whp.VirtioRng
