import Mathlib.Data.Fintype.Basic
import NodeVmm.IoApic
import NodeVmm.Lib.Masks
import NodeVmm.Lib.Runs

/-! Level interrupts of the I/O APIC. Remote IRR is to be set exactly while an interrupt of the pin is queued or in service.
    The invariant is a statement about each pin (`Good`); an operation on one pin leaves what the others are asked
    (`SamePin`). What breaks it: the queue is full, an entry becomes level-triggered under a high line without
    a request, or an EOI meets an entry whose vector has changed since its interrupt was queued. -/

namespace NodeVmm.Whp.IoApic
open Masks

/-! ### One pin -/

/-- The level interrupts of the pin that are queued, or in service. --/
def outstanding (s : IoApic) (i : Pin) : Nat := (s.inService ++ s.pending).countP fun c => c.level && c.pin == i

/-- An unmasked level-triggered pin with a high line has remote IRR. --/
def Asserted (s : IoApic) (i : Pin) : Prop :=
  s.masked i = false → s.levelTriggered i = true → s.lineLevel i = true → s.remoteIrr i = true

/-- Remote IRR stands for one interrupt; without it there may be an old one. --/
structure Counted (s : IoApic) (i : Pin) : Prop where
  level : s.remoteIrr i = true → s.levelTriggered i = true
  one : s.remoteIrr i = true → s.outstanding i = 1
  once : s.outstanding i ≤ 1

structure Good (s : IoApic) (i : Pin) : Prop extends Counted s i where
  asserted : s.Asserted i

/-- The two states are the same for the pin. --/
structure SamePin (s t : IoApic) (i : Pin) : Prop where
  masked : t.masked i = s.masked i
  levelTriggered : t.levelTriggered i = s.levelTriggered i
  remoteIrr : t.remoteIrr i = s.remoteIrr i
  vectorForIrq : t.vectorForIrq i = s.vectorForIrq i
  line : t.lineLevel i = s.lineLevel i
  outstanding : t.outstanding i = s.outstanding i

/-- A request for the pin that is not refused by its entry finds room in the queue, and no old interrupt. --/
def RequestOk (s : IoApic) (i : Pin) : Prop :=
  s.masked i = false → s.levelTriggered i = true → s.remoteIrr i = false → s.pending.length ≤ 64 ∧ s.outstanding i = 0

section
variable {s t u : IoApic} {i j : Pin} {accept : Nat} {vector : UInt32} {entry : UInt64}

namespace SamePin

theorem refl (s : IoApic) (i : Pin) : SamePin s s i := ⟨rfl, rfl, rfl, rfl, rfl, rfl⟩

theorem trans (h : SamePin s t i) (h' : SamePin t u i) : SamePin s u i :=
  ⟨h'.masked.trans h.masked, h'.levelTriggered.trans h.levelTriggered, h'.remoteIrr.trans h.remoteIrr,
    h'.vectorForIrq.trans h.vectorForIrq, h'.line.trans h.line, h'.outstanding.trans h.outstanding⟩

/-- All that is asked of an entry is in its low half. --/
theorem of_low (hentry : ∀ m : UInt64, m &&& (0xFFFFFFFF : UInt64) = m → t.redir i &&& m = s.redir i &&& m)
    (hline : t.lineLevel i = s.lineLevel i) (hout : t.outstanding i = s.outstanding i) : SamePin s t i := by
  refine ⟨?_, ?_, ?_, ?_, hline, hout⟩
  · rw [IoApic.masked, hentry _ rfl]
    rfl
  · rw [IoApic.levelTriggered, hentry _ rfl]
    rfl
  · rw [IoApic.remoteIrr, hentry _ rfl]
    rfl
  · rw [IoApic.vectorForIrq, hentry _ rfl]
    rfl

theorem of_entry (hentry : t.redir i = s.redir i) (hline : t.lineLevel i = s.lineLevel i)
    (hout : t.outstanding i = s.outstanding i) : SamePin s t i := of_low (fun _ _ => by rw [hentry]) hline hout

theorem counted (h : SamePin s t i) (hs : Counted s i) : Counted t i := by
  refine ⟨?_, ?_, h.outstanding.trans_le hs.once⟩
  · rw [h.remoteIrr, h.levelTriggered]
    exact hs.level
  · rw [h.remoteIrr, h.outstanding]
    exact hs.one

theorem asserted (h : SamePin s t i) (hs : s.Asserted i) : t.Asserted i := by
  unfold Asserted
  rw [h.masked, h.levelTriggered, h.line, h.remoteIrr]
  exact hs

theorem good (h : SamePin s t i) (hs : Good s i) : Good t i := ⟨h.counted hs.toCounted, h.asserted hs.asserted⟩

end SamePin

/-! ### The queue -/

theorem samePin_setEntry (h : j ≠ i) : SamePin s (setEntry i entry s) j :=
  .of_entry (Function.update_of_ne h ..) rfl rfl

@[simp] theorem redir_setEntry : (setEntry i entry s).redir i = entry := Function.update_self ..

/-- What leaves the queue is in service. --/
theorem samePin_drainPending : SamePin s (drainPending accept s) j := by
  refine .of_entry rfl rfl ?_
  unfold outstanding drainPending
  rw [List.append_assoc, List.take_append_drop]

theorem outstanding_enqueue :
    (enqueue i s).outstanding j = s.outstanding j + if s.levelTriggered i = true ∧ i = j then 1 else 0 := by
  unfold outstanding enqueue
  rw [← List.append_assoc, List.countP_append, List.countP_singleton]
  congr 1
  simp [controlFor]

theorem samePin_enqueue (h : j ≠ i) : SamePin s (enqueue i s) j := by
  refine .of_entry ?_ rfl ?_
  · unfold enqueue
    split
    · exact Function.update_of_ne h ..
    · rfl
  · rw [outstanding_enqueue, if_neg fun hi => h hi.2.symm, Nat.add_zero]

theorem samePin_requestIrqLocked (h : j ≠ i) : SamePin s (requestIrqLocked i accept s) j := by
  unfold requestIrqLocked
  split
  · exact .refl s j
  · split
    · exact .refl s j
    · split
      · exact .refl s j
      · exact (samePin_enqueue h).trans samePin_drainPending

/-- A request that is queued for a level-triggered pin sets remote IRR. --/
theorem remoteIrr_enqueue (h : s.levelTriggered i = true) :
    (enqueue i s).remoteIrr i = true ∧ (enqueue i s).levelTriggered i = true := by
  have hentry : (enqueue i s).redir i = s.redir i ||| rteRemoteIrr := by
    unfold enqueue
    rw [if_pos h]
    exact Function.update_self ..
  constructor
  · rw [remoteIrr, hentry, or_and_self]
    rfl
  · rw [levelTriggered, hentry, or_and_of_disjoint rfl]
    exact h

/-- A request leaves the pin good. --/
theorem good_requestIrqLocked (h : Counted s i) (hok : RequestOk s i) : Good (requestIrqLocked i accept s) i := by
  unfold requestIrqLocked
  split
  · rename_i hmasked
    exact ⟨h, fun hunmasked => absurd (hunmasked.symm.trans hmasked) nofun⟩
  · rename_i hmasked
    rw [Bool.not_eq_true] at hmasked
    split
    · rename_i hirr
      rw [Bool.and_eq_true] at hirr
      exact ⟨h, fun _ _ _ => hirr.2⟩
    · rename_i hirr
      cases hlevel : s.levelTriggered i with
      | true =>
        have hclear : s.remoteIrr i = false := by
          rw [hlevel, Bool.true_and, Bool.not_eq_true] at hirr
          exact hirr
        obtain ⟨hroom, hnone⟩ := hok hmasked hlevel hclear
        obtain ⟨hset, hstill⟩ := remoteIrr_enqueue hlevel
        have hone : (enqueue i s).outstanding i = 1 := by
          rw [outstanding_enqueue, if_pos ⟨hlevel, rfl⟩, hnone]
        rw [if_neg (Nat.not_lt_of_le hroom)]
        exact samePin_drainPending.good ⟨⟨fun _ => hstill, fun _ => hone, Nat.le_of_eq hone⟩, fun _ _ _ => hset⟩
      | false =>
        have hsame : SamePin s (enqueue i s) i := by
          refine .of_entry ?_ rfl ?_
          · simp [enqueue, hlevel]
          · rw [outstanding_enqueue, hlevel]
            rfl
        have hgood : Good s i := ⟨h, fun _ hedge => absurd (hedge.symm.trans hlevel) nofun⟩
        split
        · exact hgood
        · exact samePin_drainPending.good (hsame.good hgood)

/-! ### Register writes -/

/-- A write to the low half keeps remote IRR for a level-triggered entry, and clears it for another. --/
theorem remoteIrr_writeEntry {old : UInt64} {value : UInt32} : (writeEntry old value &&& rteRemoteIrr != 0) =
    ((writeEntry old value &&& rteTriggerMode != 0) && (old &&& rteRemoteIrr != 0)) := by
  have hkeep : ∀ x : UInt64, (x &&& ~~~rteRemoteIrr ||| old &&& rteRemoteIrr) &&& rteRemoteIrr = old &&& rteRemoteIrr :=
    fun x => by
      rw [UInt64.or_comm, or_and_of_disjoint (and_and_of_disjoint rfl), UInt64.and_assoc, UInt64.and_self]
  unfold writeEntry
  dsimp only
  split
  · rename_i hedge
    rw [and_and_of_disjoint rfl, and_and_of_sub rfl, hedge]
    rfl
  · rename_i hlevel
    rw [hkeep, bne_iff_ne.mpr hlevel, Bool.true_and]

/-- The write leaves the pin masked, edge-triggered or with a low line; or it unmasks it, which is a request; or it finds
    it level-triggered. --/
def WriteOk (i : Pin) (value : UInt32) (s : IoApic) : Prop :=
  let t := s.setEntry i (writeEntry (s.redir i) value)
  s.lineLevel i = true → t.masked i = false → t.levelTriggered i = true →
    if s.masked i then RequestOk t i else s.levelTriggered i = true

theorem good_writeLow {value : UInt32} (h : ∀ j, Good s j) (hok : WriteOk i value s) (j : Pin) :
    Good (writeLow i value accept s) j := by
  unfold writeLow
  unfold WriteOk at hok
  dsimp only at hok ⊢
  have hset : ∀ j ≠ i, SamePin s (s.setEntry i (writeEntry (s.redir i) value)) j := fun j hj => samePin_setEntry hj
  have hirr : (s.setEntry i (writeEntry (s.redir i) value)).remoteIrr i =
      ((s.setEntry i (writeEntry (s.redir i) value)).levelTriggered i && s.remoteIrr i) := by
    unfold remoteIrr levelTriggered
    rw [redir_setEntry]
    exact remoteIrr_writeEntry
  have hline : (s.setEntry i (writeEntry (s.redir i) value)).lineLevel i = s.lineLevel i := rfl
  have hout : (s.setEntry i (writeEntry (s.redir i) value)).outstanding i = s.outstanding i := rfl
  generalize s.setEntry i (writeEntry (s.redir i) value) = u at hok hset hirr hline hout ⊢
  have hcounted : Counted u i := by
    refine ⟨fun hr => ?_, fun hr => ?_, hout.trans_le (h i).once⟩
    · rw [hirr, Bool.and_eq_true] at hr
      exact hr.1
    · rw [hirr, Bool.and_eq_true] at hr
      exact hout.trans ((h i).one hr.2)
  split
  · rename_i hunmask
    simp only [Bool.and_eq_true, Bool.not_eq_true'] at hunmask
    obtain ⟨⟨hmasked, hclear⟩, hhigh⟩ := hunmask
    by_cases hj : j = i
    · subst hj
      refine good_requestIrqLocked hcounted fun hm hl hr => ?_
      have hreq := hok hhigh hm hl
      rw [if_pos hmasked] at hreq
      exact hreq hm hl hr
    · exact (samePin_requestIrqLocked hj).good ((hset j hj).good (h j))
  · rename_i hno
    by_cases hj : j = i
    · subst hj
      refine ⟨hcounted, fun hm hl hhigh => ?_⟩
      rw [hline] at hhigh
      have hwas : s.masked j = false := by
        by_contra hmasked
        exact hno (by simp [hm, hhigh, Bool.eq_true_of_not_eq_false hmasked])
      have hlevel := hok hhigh hm hl
      rw [hwas, if_neg Bool.false_ne_true] at hlevel
      rw [hirr, hl, Bool.true_and]
      exact (h j).asserted hwas hlevel hhigh
    · exact (hset j hj).good (h j)

theorem samePin_writeHigh {value : UInt32} : SamePin s (writeHigh i value s) j := by
  by_cases hj : j = i
  · subst hj
    refine .of_low (fun m hm => ?_) rfl rfl
    unfold writeHigh
    rw [redir_setEntry, or_and_of_disjoint (shiftLeft_and_low hm), UInt64.and_assoc, UInt64.and_comm _ m, hm]
  · exact samePin_setEntry hj

/-! ### EOI -/

/-- The EOI of a vector is going to clear remote IRR of the pin, or it stands for one interrupt. --/
structure Ending (vector : UInt32) (s : IoApic) (i : Pin) : Prop where
  level : s.remoteIrr i = true → s.levelTriggered i = true
  one : s.remoteIrr i = true → s.outstanding i = 1 ∨ s.vectorForIrq i = vector &&& 0xFF
  once : s.outstanding i ≤ 1
  asserted : s.Asserted i

theorem SamePin.ending (h : SamePin s t i) (hs : Ending vector s i) : Ending vector t i := by
  refine ⟨?_, ?_, h.outstanding.trans_le hs.once, h.asserted hs.asserted⟩
  · rw [h.remoteIrr, h.levelTriggered]
    exact hs.level
  · rw [h.remoteIrr, h.outstanding, h.vectorForIrq]
    exact hs.one

/-- Each request of the loop is one that can be queued. --/
def EachOk (vector : UInt32) (accept : Pin → Nat) : List Pin → IoApic → Prop
  | [], _ => True
  | i :: rest, s => (s.acknowledges vector i = true → s.lineLevel i = true → RequestOk (clearRemoteIrr i s) i) ∧
      EachOk vector accept rest (eoiPin vector (accept i) i s)

theorem remoteIrr_clearRemoteIrr : (clearRemoteIrr i s).remoteIrr i = false := by
  unfold clearRemoteIrr remoteIrr
  rw [redir_setEntry, and_and_of_disjoint rfl]
  rfl

theorem masked_clearRemoteIrr : (clearRemoteIrr i s).masked i = s.masked i := by
  unfold clearRemoteIrr masked
  rw [redir_setEntry, and_and_of_sub rfl]

theorem samePin_eoiPin (h : j ≠ i) : SamePin s (eoiPin vector accept i s) j := by
  unfold eoiPin
  split
  · split
    · exact (samePin_setEntry h).trans (samePin_requestIrqLocked h)
    · exact samePin_setEntry h
  · exact .refl s j

theorem good_eoiPin (h : Ending vector s i)
    (hok : s.acknowledges vector i = true → s.lineLevel i = true → RequestOk (clearRemoteIrr i s) i) :
    Good (eoiPin vector accept i s) i := by
  unfold eoiPin
  have hcounted : Counted (clearRemoteIrr i s) i := by
    refine ⟨?_, ?_, h.once⟩ <;> simp [remoteIrr_clearRemoteIrr]
  split
  · rename_i hack
    split
    · rename_i hagain
      rw [Bool.and_eq_true] at hagain
      exact good_requestIrqLocked hcounted (hok hack hagain.1)
    · rename_i hagain
      refine ⟨hcounted, fun hm hl hhigh => absurd ?_ hagain⟩
      rw [masked_clearRemoteIrr] at hm
      rw [hm, Bool.not_false, Bool.and_true]
      exact hhigh
  · rename_i hack
    refine ⟨⟨h.level, fun hr => ?_, h.once⟩, h.asserted⟩
    rcases h.one hr with hone | hvector
    · exact hone
    · exact absurd (by simp [acknowledges, h.level hr, hr, hvector]) hack

theorem good_eoiPins {accept : Pin → Nat} : ∀ {pins : List Pin} {s : IoApic}, pins.Nodup → EachOk vector accept pins s →
    (∀ j, j ∉ pins → Good s j) → (∀ j ∈ pins, Ending vector s j) → ∀ j, Good (eoiPins vector accept pins s) j := by
  intro pins
  induction pins with
  | nil => exact fun _ _ hgood _ j => hgood j List.not_mem_nil
  | cons i rest ih =>
    intro s hnodup heach hgood hending
    obtain ⟨hi, hrest⟩ := List.nodup_cons.mp hnodup
    refine ih hrest heach.2 (fun j hj => ?_) fun j hj => ?_
    · by_cases heq : j = i
      · subst heq
        exact good_eoiPin (hending j List.mem_cons_self) heach.1
      · exact (samePin_eoiPin heq).good (hgood j fun hmem => (List.mem_cons.mp hmem).elim heq hj)
    · have hne : j ≠ i := fun heq => hi (heq ▸ hj)
      exact (samePin_eoiPin hne).ending (hending j (List.mem_cons_of_mem _ hj))

/-- An EOI that ends an interrupt of a pin with remote IRR finds its vector in the entry; and each request that follows can
    be queued. --/
structure EoiOk (vector : UInt32) (accept : Pin → Nat) (s : IoApic) : Prop where
  found : ∀ c ∈ s.inService, c.level = true → c.vector = vector &&& 0xFF → s.remoteIrr c.pin = true →
    s.vectorForIrq c.pin = vector &&& 0xFF
  each : EachOk vector accept (List.finRange ioApicPins) (s.acknowledge vector)

theorem ending_acknowledge (h : Good s i) (hok : ∀ c ∈ s.inService, c.level = true → c.vector = vector &&& 0xFF →
    s.remoteIrr c.pin = true → s.vectorForIrq c.pin = vector &&& 0xFF) : Ending vector (s.acknowledge vector) i := by
  have hle : (s.acknowledge vector).outstanding i ≤ s.outstanding i := by
    unfold outstanding acknowledge
    rw [List.countP_append, List.countP_append]
    exact Nat.add_le_add_right (List.Sublist.countP_le List.filter_sublist) _
  refine ⟨h.level, fun hr => ?_, hle.trans h.once, h.asserted⟩
  by_cases hended : ∃ c ∈ s.inService, c.level = true ∧ c.pin = i ∧ c.vector = vector &&& 0xFF
  · obtain ⟨c, hc, hlevel, rfl, hvector⟩ := hended
    exact Or.inr (hok c hc hlevel hvector hr)
  · refine Or.inl (Eq.trans ?_ (h.one hr))
    unfold outstanding acknowledge
    rw [List.countP_append, List.countP_append, List.countP_filter]
    congr 1
    refine List.countP_congr fun c hc => ?_
    simp only [Bool.and_eq_true, beq_iff_eq, decide_eq_true_eq, ne_eq]
    constructor
    · exact fun hp => hp.1
    · exact fun hp => ⟨hp, fun hv => hended ⟨c, hc, hp.1, hp.2, hv⟩⟩

theorem good_eoi {accept : Pin → Nat} {last : Nat} (h : ∀ j, Good s j) (hok : EoiOk vector accept s) (j : Pin) :
    Good ((s.acknowledge vector).eoi vector accept last) j := by
  refine samePin_drainPending.good (good_eoiPins (List.nodup_finRange _) hok.each (fun i hi => ?_) (fun i _ => ?_) j)
  · exact absurd (List.mem_finRange i) hi
  · exact ending_acknowledge (h i) hok.found

end

/-! ### Runs -/

/-- What an operation needs. --/
def Ok (s : IoApic) : Event → Prop
  | .setIrq irq level _ => level = true → ∀ i ∈ pin? irq, RequestOk s i
  | .requestIrq irq _ => ∀ i ∈ pin? irq, RequestOk s i
  | .writeMmio off len value _ => off = 0x10 → len = 4 → (s.selected - 0x10) &&& 1 = 0 → ∀ i ∈ entryOf s.selected, WriteOk i value s
  | .eoi vector accept _ => EoiOk vector accept s
  | .drainPending _ => True

/-- No asserted level interrupt is lost, and none is there twice. --/
structure Faithful (s : IoApic) : Prop where
  asserted : ∀ i, s.Asserted i
  one : ∀ i, s.remoteIrr i = true → s.outstanding i = 1
  once : ∀ i, s.outstanding i ≤ 1

theorem good_setIrq {s : IoApic} {irq : UInt32} {level : Bool} {accept : Nat} (h : ∀ j, Good s j)
    (hok : level = true → ∀ i ∈ pin? irq, RequestOk s i) (j : Pin) : Good (s.setIrq irq level accept) j := by
  unfold setIrq
  split
  · rename_i i hi
    have hother : j ≠ i → SamePin s (setLine i level s) j := fun hj =>
      ⟨rfl, rfl, rfl, rfl, Function.update_of_ne hj .., rfl⟩
    split
    · rename_i hlevel
      by_cases hj : j = i
      · subst hj
        exact good_requestIrqLocked ⟨(h j).level, (h j).one, (h j).once⟩ (hok hlevel j hi)
      · exact ((hother hj).trans (samePin_requestIrqLocked hj)).good (h j)
    · rename_i hlevel
      by_cases hj : j = i
      · subst hj
        refine ⟨⟨(h j).level, (h j).one, (h j).once⟩, fun _ _ hhigh => absurd ?_ hlevel⟩
        simpa [setLine] using hhigh
      · exact (hother hj).good (h j)
  · exact h j

theorem good_step {s t : IoApic} {e : Event} (h : ∀ j, Good s j) (hok : Ok s e) (hstep : step s e = some t) :
    ∀ j, Good t j := by
  intro j
  cases e with
  | setIrq irq level accept =>
    cases hstep
    exact good_setIrq h hok j
  | requestIrq irq accept =>
    cases hstep
    unfold requestIrq
    split
    · rename_i i hi
      by_cases hj : j = i
      · subst hj
        exact good_requestIrqLocked (h j).toCounted (hok j hi)
      · exact (samePin_requestIrqLocked hj).good (h j)
    · exact h j
  | writeMmio off len value accept =>
    cases hstep
    unfold writeMmio
    split
    · exact h j
    · rename_i hlen
      split
      · have hsame : SamePin s { s with selected := value &&& 0xFF } j := .of_entry rfl rfl rfl
        exact hsame.good (h j)
      · split
        · rename_i hoff
          unfold writeReg
          split
          · rename_i i hi
            split
            · exact samePin_writeHigh.good (h j)
            · rename_i heven
              exact good_writeLow h (hok hoff (not_not.mp hlen) (by simpa using heven) i hi) j
          · exact h j
        · exact h j
  | eoi vector accept last =>
    cases hstep
    exact good_eoi h hok j
  | drainPending accept =>
    cases hstep
    exact samePin_drainPending.good (h j)

theorem good_reset (i : Pin) : Good reset i := by
  have hmasked : reset.masked i = true := (by decide : (rteMask &&& rteMask != 0) = true)
  have hirr : reset.remoteIrr i = false := (by decide : (rteMask &&& rteRemoteIrr != 0) = false)
  refine ⟨⟨?_, ?_, Nat.zero_le 1⟩, fun hm => absurd (hm.symm.trans hmasked) nofun⟩ <;> simp [hirr]

/-- Over every run whose operations find what they need, level interrupts are neither lost nor there twice. --/
theorem level_interrupts {es : List Event} {t : IoApic} (hrun : Runs.Under step Ok reset es t) : Faithful t := by
  have hgood := hrun.invariant (P := fun u => ∀ i, Good u i) (fun _ _ _ h hok hstep => good_step h hok hstep) good_reset
  exact ⟨fun i => (hgood i).asserted, fun i => (hgood i).one, fun i => (hgood i).once⟩

/-! ### Pin 2 -/

instance (s : IoApic) (i : Pin) : Decidable (RequestOk s i) :=
  inferInstanceAs (Decidable (_ → _ → _ → _ ∧ _))

/-- With every line low, an EOI makes no request. --/
theorem eachOk_of_low {vector : UInt32} {accept : Pin → Nat} : ∀ {pins : List Pin} {s : IoApic},
    (∀ i, s.lineLevel i = false) → EachOk vector accept pins s := by
  intro pins
  induction pins with
  | nil => exact fun _ => trivial
  | cons i rest ih =>
    intro s hlow
    refine ⟨fun _ hhigh => absurd (hhigh.symm.trans (hlow i)) nofun, ih fun j => ?_⟩
    unfold eoiPin
    simp only [hlow, Bool.false_and]
    split <;> exact hlow j

/-- The guest makes pin 2 level-triggered with the vector 0x22, its line goes up and down, and the guest ends the
    interrupt. --/
def oneInterrupt : List Event :=
  [.writeMmio 0x00 4 0x14 0, .writeMmio 0x10 4 0x8022 0, .setIrq 2 true 1, .setIrq 2 false 0, .eoi 0x22 (fun _ => 0) 0]

/-- The theorem on one interrupt. --/
theorem level_interrupts_sample : ∃ t, Runs.Under step Ok reset oneInterrupt t ∧ Faithful t := by
  obtain ⟨t, hrun⟩ : ∃ t, Runs.Under step Ok reset oneInterrupt t := by
    refine ⟨_, .cons (fun hoff => absurd hoff (by decide)) rfl <| .cons (fun _ _ _ i _ hhigh => absurd hhigh ?_) rfl <|
      .cons (fun _ i hi => ?_) rfl <| .cons nofun rfl <| .cons ⟨?_, eachOk_of_low ?_⟩ rfl .nil⟩
    · exact Bool.false_ne_true
    · cases Option.some.inj hi
      decide +kernel
    · decide +kernel
    · decide +kernel
  exact ⟨t, hrun, level_interrupts hrun⟩

/-- The line of pin 2 goes up while it is edge-triggered, and then the guest makes it level-triggered. --/
def lateLevel : List Event :=
  [.writeMmio 0x00 4 0x14 0, .writeMmio 0x10 4 0x22 0, .setIrq 2 true 1, .writeMmio 0x10 4 0x8022 0]

/-- The line is high, and the pin unmasked and level-triggered, but no interrupt of it is queued or in service. --/
theorem not_faithful_late_level : ∃ t, Runs.Under step (fun _ _ => True) reset lateLevel t ∧ ¬Faithful t := by
  refine ⟨_, .cons trivial rfl <| .cons trivial rfl <| .cons trivial rfl <| .cons trivial rfl .nil, fun h => ?_⟩
  have hirr := h.asserted ⟨2, by decide⟩ (by decide +kernel) (by decide +kernel) (by decide +kernel)
  exact absurd hirr (by decide +kernel)

end NodeVmm.Whp.IoApic
