import Mathlib.Data.Nat.Bitwise
import NodeVmm.Hpet
import NodeVmm.Lib.Masks
import NodeVmm.Lib.Runs

/-! The pins that the HPET holds high. A pin is released when the ISR bit of a timer that drove it is cleared, from the
    record of that timer alone: another timer on the pin, and the pin of an earlier route, are forgotten. -/

namespace NodeVmm.Whp
namespace Hpet
variable {h h' : Hpet} {i j : TimerId} {w m : UInt64} {p : UInt32} {irqs : List Irq} {pins : List UInt32}

/-! ### Bits -/

theorem hasBit_eq : hasBit w i = w.toBitVec.getLsbD i.val := by
  have hbit : ∀ i : TimerId, (timerBit i).toNat = 2 ^ i.val := by decide
  have hand : (w &&& timerBit i).toNat = (w.toNat.testBit i.val).toNat * 2 ^ i.val := by
    rw [UInt64.toNat_and, hbit, Nat.and_two_pow]
  have hzero : w &&& timerBit i = 0 ↔ w.toNat.testBit i.val = false := by
    rw [← UInt64.toNat_inj, hand, UInt64.toNat_zero]
    cases w.toNat.testBit i.val <;> simp
  have hiff : hasBit w i = true ↔ w.toNat.testBit i.val = true := by
    rw [hasBit, bne_iff_ne, ne_eq, hzero, Bool.not_eq_false]
  exact (Bool.eq_iff_iff.mpr hiff).trans (BitVec.testBit_toNat _)

theorem hasBit_and : hasBit (w &&& m) i = (hasBit w i && hasBit m i) := by
  simp only [hasBit_eq, UInt64.toBitVec_and, BitVec.getLsbD_and]

theorem hasBit_or : hasBit (w ||| m) i = (hasBit w i || hasBit m i) := by
  simp only [hasBit_eq, UInt64.toBitVec_or, BitVec.getLsbD_or]

theorem hasBit_not : hasBit (~~~m) i = !hasBit m i := by
  have hlt : i.val < 64 := Nat.lt_trans i.isLt (by decide)
  simp only [hasBit_eq, UInt64.toBitVec_not, BitVec.getLsbD_not, hlt, decide_true, Bool.true_and]

theorem hasBit_timerBit : ∀ i j : TimerId, hasBit (timerBit j) i = decide (i = j) := by decide

theorem hasBit_zero : hasBit 0 i = false := by
  revert i
  decide

/-! ### Interrupts that end -/

/-- The pin of the interrupt on record for a timer. --/
def pinOf (h : Hpet) (i : TimerId) : Option UInt32 := (h.assertedIrqs i).map Irq.ioapicPin

/-- The pin is on record, for some of the timers. --/
def Recorded (h : Hpet) (P : TimerId → Prop) (p : UInt32) : Prop := ∃ i, P i ∧ h.pinOf i = some p

/-- A round without the timer's bit does nothing; one with it takes the record and lowers its pin. --/
theorem deassertCleared_skip {s : Hpet × List UInt32} (hbit : hasBit m i = false) : deassertCleared m s i = s :=
  if_pos (by rw [hbit]; exact Bool.false_ne_true)

/-- The record of a timer, taken. --/
def forget (i : TimerId) (h : Hpet) : Hpet := { h with assertedIrqs := Function.update h.assertedIrqs i none }

theorem deassertCleared_take {irq : Irq} (hbit : hasBit m i = true) (hirq : h.assertedIrqs i = some irq)
    (hlevel : irq.level = true) :
    deassertCleared m (h, pins) i = (h.forget i, if irq.ioapicPin < 24 then pins ++ [irq.ioapicPin] else pins) := by
  rw [deassertCleared, if_neg (not_not.mpr hbit), hirq]
  simp only [Option.getD_some, hlevel, true_and]
  rfl

theorem forget_self : (h.forget i).assertedIrqs i = none := Function.update_self _ _ _

theorem forget_of_ne (hij : j ≠ i) : (h.forget i).assertedIrqs j = h.assertedIrqs j := Function.update_of_ne hij _ _

/-- The record of a timer, and those of the timers after it. --/
theorem recorded_cons {k : TimerId} {l : List TimerId} {irq : Irq} (hk : k ∉ l) (hbit : hasBit m k = true)
    (hirq : h.assertedIrqs k = some irq) : h.Recorded (fun i => i ∈ k :: l ∧ hasBit m i = true) p ↔
      irq.ioapicPin = p ∨ (h.forget k).Recorded (fun i => i ∈ l ∧ hasBit m i = true) p := by
  have hpin : h.pinOf k = some irq.ioapicPin := by rw [pinOf, hirq, Option.map_some]
  have hother : ∀ i ∈ l, (h.forget k).pinOf i = h.pinOf i := fun i hi => by
    rw [pinOf, forget_of_ne (ne_of_mem_of_not_mem hi hk), pinOf]
  constructor
  · rintro ⟨i, ⟨hi, hb⟩, hp⟩
    rcases List.mem_cons.mp hi with rfl | hi
    · rw [hpin] at hp
      exact Or.inl (Option.some.inj hp)
    · exact Or.inr ⟨i, ⟨hi, hb⟩, (hother i hi).trans hp⟩
  · rintro (hp | ⟨i, ⟨hi, hb⟩, hp⟩)
    · exact ⟨k, ⟨List.mem_cons_self, hbit⟩, hpin.trans (congrArg some hp)⟩
    · exact ⟨i, ⟨List.mem_cons_of_mem k hi, hb⟩, (hother i hi).symm.trans hp⟩

/-- The rounds take the records of the timers whose bit is cleared, and lower their pins. --/
theorem deassert_rounds {l : List TimerId} (hl : l.Nodup) : ∀ {h : Hpet} {pins : List UInt32},
    (∀ i ∈ l, hasBit m i = true → ∃ irq, h.assertedIrqs i = some irq ∧ irq.level = true) →
    (l.foldl (deassertCleared m) (h, pins)).1.isr = h.isr ∧
    (∀ i, (l.foldl (deassertCleared m) (h, pins)).1.assertedIrqs i =
      if i ∈ l ∧ hasBit m i = true then none else h.assertedIrqs i) ∧
    (∀ p, p ∈ (l.foldl (deassertCleared m) (h, pins)).2 ↔
      p ∈ pins ∨ (p < 24 ∧ h.Recorded (fun i => i ∈ l ∧ hasBit m i = true) p)) := by
  induction l with
  | nil =>
    intro h pins _
    simp [Recorded]
  | cons k l ih =>
    intro h pins hrec
    obtain ⟨hk, hl⟩ := List.nodup_cons.mp hl
    rw [List.foldl_cons]
    cases hbit : hasBit m k with
    | false =>
      rw [deassertCleared_skip hbit]
      have hmem : ∀ i, (i ∈ k :: l ∧ hasBit m i = true) ↔ (i ∈ l ∧ hasBit m i = true) := by
        intro i
        rw [List.mem_cons]
        refine and_congr_left fun hi => or_iff_right fun hik => ?_
        rw [hik, hbit] at hi
        exact Bool.false_ne_true hi
      simp only [hmem]
      exact ih hl fun i hi => hrec i (List.mem_cons_of_mem k hi)
    | true =>
      obtain ⟨irq, hirq, hlevel⟩ := hrec k List.mem_cons_self hbit
      rw [deassertCleared_take hbit hirq hlevel]
      have hrest : ∀ i ∈ l, hasBit m i = true → ∃ irq, (h.forget k).assertedIrqs i = some irq ∧ irq.level = true := by
        intro i hi hb
        rw [forget_of_ne (ne_of_mem_of_not_mem hi hk)]
        exact hrec i (List.mem_cons_of_mem k hi) hb
      obtain ⟨hisr, hasserted, hlowered⟩ := ih hl hrest
      refine ⟨hisr, fun i => ?_, fun p => ?_⟩
      · rw [hasserted]
        rcases eq_or_ne i k with rfl | hik
        · rw [forget_self, ite_self, if_pos ⟨List.mem_cons_self, hbit⟩]
        · simp only [forget_of_ne hik, List.mem_cons, hik, false_or]
      · rw [hlowered, recorded_cons hk hbit hirq]
        have hpins : p ∈ (if irq.ioapicPin < 24 then pins ++ [irq.ioapicPin] else pins) ↔
            p ∈ pins ∨ (p < 24 ∧ irq.ioapicPin = p) := by
          split
          · rename_i hlt
            rw [List.mem_append, List.mem_singleton]
            exact or_congr_right ⟨fun hp => ⟨hp ▸ hlt, hp.symm⟩, fun hp => hp.2.symm⟩
          · rename_i hge
            exact ⟨Or.inl, fun hp => hp.elim id fun hp => absurd (hp.2 ▸ hp.1) hge⟩
        rw [hpins, or_assoc, ← and_or_left]

/-- What is left of the interrupts when some bits of ISR are cleared, and the pins that are lowered for them. --/
structure Cleared (clear : UInt64) (h : Hpet) (s : Hpet × List UInt32) : Prop where
  isr : ∀ i, hasBit s.1.isr i = (hasBit h.isr i && !hasBit clear i)
  asserted : ∀ i, s.1.assertedIrqs i = if hasBit h.isr i && hasBit clear i then none else h.assertedIrqs i
  lowered : ∀ p, p ∈ s.2 ↔ p < 24 ∧ h.Recorded (fun i => (hasBit h.isr i && hasBit clear i) = true) p

/-- The timers with an ISR bit have a level interrupt on record, and the I/O APIC has its pin. --/
def Sound (h : Hpet) : Prop :=
  ∀ i, hasBit h.isr i = true → ∃ irq, h.assertedIrqs i = some irq ∧ irq.level = true ∧ irq.ioapicPin < 24

theorem cleared_nothing (hisr : h'.isr = h.isr) (hrec : h'.assertedIrqs = h.assertedIrqs) : Cleared 0 h (h', []) where
  isr i := by rw [hisr, hasBit_zero, Bool.not_false, Bool.and_true]
  asserted i := by rw [hrec, hasBit_zero, Bool.and_false, if_neg Bool.false_ne_true]
  lowered p := by simp [Recorded, hasBit_zero]

/-- What is done to the timers later does not matter. --/
theorem Cleared.update {s : Hpet × List UInt32} (hc : Cleared m h s) (hisr : h'.isr = s.1.isr)
    (hrec : h'.assertedIrqs = s.1.assertedIrqs) : Cleared m h (h', s.2) where
  isr i := by rw [← hc.isr i, hisr]
  asserted i := by rw [← hc.asserted i, hrec]
  lowered := hc.lowered

theorem deassert_cleared (hs : h.Sound) (hisr : h'.isr = h.isr &&& ~~~m) (hrec : h'.assertedIrqs = h.assertedIrqs) :
    Cleared m h (h'.deassertClearedIrqs (h.isr &&& m)) := by
  have hlevel : ∀ i ∈ List.finRange 3, hasBit (h.isr &&& m) i = true →
      ∃ irq, h'.assertedIrqs i = some irq ∧ irq.level = true := by
    intro i _ hi
    rw [hasBit_and, Bool.and_eq_true] at hi
    obtain ⟨irq, hirq, hlevel, -⟩ := hs i hi.1
    exact ⟨irq, hrec ▸ hirq, hlevel⟩
  obtain ⟨hisr', hasserted, hlowered⟩ := @deassert_rounds _ _ (List.nodup_finRange 3) h' [] hlevel
  refine ⟨fun i => ?_, fun i => ?_, fun p => ?_⟩
  · rw [← hasBit_not, ← hasBit_and, ← hisr]
    exact congrArg (hasBit · i) hisr'
  · rw [← hasBit_and, ← hrec]
    exact (hasserted i).trans (if_congr (and_iff_right (List.mem_finRange i)) rfl rfl)
  · refine (hlowered p).trans ((or_iff_right List.not_mem_nil).trans (and_congr_right fun _ => ?_))
    simp only [Recorded, pinOf, List.mem_finRange, true_and, hasBit_and, hrec]

theorem clearIsr_cleared (hs : h.Sound) : Cleared m h (h.clearIsr m) := deassert_cleared hs rfl rfl

/-- The pin is on record for a timer with an ISR bit. --/
def Outstanding (h : Hpet) (p : UInt32) : Prop := ∃ i, hasBit h.isr i = true ∧ h.pinOf i = some p

theorem Sound.pin_lt (hs : h.Sound) (hi : hasBit h.isr i = true) (hp : h.pinOf i = some p) : p < 24 := by
  obtain ⟨irq, hirq, -, hlt⟩ := hs i hi
  rw [pinOf, hirq] at hp
  cases hp
  exact hlt

/-- Timers whose ISR bit stays keep what is on record. --/
theorem Cleared.sound {s : Hpet × List UInt32} (hc : Cleared m h s) (hs : h.Sound) : s.1.Sound := by
  intro i hi
  rw [hc.isr, Bool.and_eq_true, Bool.not_eq_true'] at hi
  obtain ⟨irq, hirq, hrest⟩ := hs i hi.1
  refine ⟨irq, ?_, hrest⟩
  rw [hc.asserted, hi.2, Bool.and_false, if_neg Bool.false_ne_true, hirq]

theorem Cleared.outstanding {s : Hpet × List UInt32} (hc : Cleared m h s) : s.1.Outstanding p ↔
    ∃ i, (hasBit h.isr i = true ∧ hasBit m i = false) ∧ h.pinOf i = some p := by
  refine exists_congr fun i => ?_
  rw [hc.isr, Bool.and_eq_true, Bool.not_eq_true']
  refine and_congr_right fun hi => ?_
  rw [pinOf, hc.asserted, hi.2, Bool.and_false, if_neg Bool.false_ne_true, pinOf]

/-! ### What a write of a register clears -/

/-- The ISR bits that a write of a register clears: those written as ones, that of a timer which is no longer level
    triggered and enabled, and all of them when the HPET is disabled. --/
def clears (off : UInt64) (shift bits : Nat) (value : UInt64) (h : Hpet) : UInt64 :=
  if off ≤ 0xFF then
    if off = 0x010 then if nextConfig h.config shift bits value &&& cfgEnable != 0 then 0 else ~~~0
    else if off = 0x020 then depositBits 0 shift bits value
    else 0
  else
    match timerAt off with
    | none => 0
    | some i =>
      if off &&& 0x18 = 0x00 ∧
          clearLevelIrq (h.timers i).config (nextTimerConfig (h.timers i).config shift bits value) then timerBit i
      else 0

section
variable {now : Int} {clock : Nat → Int} {shift bits : Nat} {value off : UInt64}

theorem setTimer_isr : (h.setTimer now i).isr = h.isr := by
  simp only [setTimer, updateTimer]
  split <;> rfl

theorem setTimer_asserted : (h.setTimer now i).assertedIrqs = h.assertedIrqs := by
  simp only [setTimer, updateTimer]
  split <;> rfl

theorem reprogramTimers_same {clock : TimerId → Int} :
    (h.reprogramTimers clock).isr = h.isr ∧ (h.reprogramTimers clock).assertedIrqs = h.assertedIrqs := by
  rw [reprogramTimers]
  induction List.finRange 3 generalizing h with
  | nil => exact ⟨rfl, rfl⟩
  | cons i l ih =>
    rw [List.foldl_cons, ih.1, ih.2]
    exact ⟨setTimer_isr, setTimer_asserted⟩

theorem deassertAll_cleared (hs : h.Sound) (hisr : h'.isr = 0) (hrec : h'.assertedIrqs = h.assertedIrqs) :
    Cleared (~~~0) h (h'.deassertClearedIrqs h.isr) := by
  have hall : h.isr &&& ~~~0 = h.isr := by simp
  have hcleared := deassert_cleared (m := ~~~0) hs (hisr.trans (by simp)) hrec
  rwa [hall] at hcleared

theorem writeConfig_cleared (hs : h.Sound) :
    Cleared (if nextConfig h.config shift bits value &&& cfgEnable != 0 then 0 else ~~~0) h
      (h.writeConfig clock shift bits value) := by
  simp only [writeConfig]
  split
  · refine cleared_nothing (reprogramTimers_same.1.trans ?_) (reprogramTimers_same.2.trans ?_)
    all_goals split_ifs <;> rfl
  · split_ifs <;> exact deassertAll_cleared hs rfl rfl

theorem writeTimerConfig_cleared (hs : h.Sound) :
    Cleared (if clearLevelIrq (h.timers i).config (nextTimerConfig (h.timers i).config shift bits value) then timerBit i
      else 0) h (h.writeTimerConfig now i shift bits value) := by
  rw [writeTimerConfig]
  split
  · exact (clearIsr_cleared hs).update setTimer_isr setTimer_asserted
  · exact cleared_nothing setTimer_isr setTimer_asserted

theorem writeTimerCmp_same : (h.writeTimerCmp now i shift bits value).isr = h.isr ∧
    (h.writeTimerCmp now i shift bits value).assertedIrqs = h.assertedIrqs := by
  simp only [writeTimerCmp]
  split
  · exact ⟨rfl, rfl⟩
  · exact ⟨setTimer_isr, setTimer_asserted⟩

theorem writeReg_cleared (hs : h.Sound) :
    Cleared (clears off shift bits value h) h (h.writeReg clock off shift bits value) := by
  rw [writeReg, clears]
  split
  · split
    · exact writeConfig_cleared hs
    · split
      · exact clearIsr_cleared hs
      · split
        · refine cleared_nothing ?_ ?_ <;> split <;> rfl
        · exact cleared_nothing rfl rfl
  · cases timerAt off with
    | none => exact cleared_nothing rfl rfl
    | some i =>
      dsimp only
      by_cases hconfig : off &&& 0x18 = 0
      · simp only [hconfig, true_and, if_true]
        exact writeTimerConfig_cleared hs
      · simp only [hconfig, false_and, if_false]
        split
        · exact cleared_nothing writeTimerCmp_same.1 writeTimerCmp_same.2
        · exact cleared_nothing rfl rfl

end

/-! ### Timers that fire -/

/-- The timer fires with the counter at `now`, and it is level triggered. --/
def firesLevel (now : UInt64) (h : Hpet) (i : TimerId) : Bool := fires now (h.timers i) && h.levelTriggered i

/-- Rounds of `poll_expired` for the timers in `l`. --/
structure Polled (now : UInt64) (l : List TimerId) (h : Hpet) (irqs : List Irq) (s : Hpet × List Irq) : Prop where
  isr : ∀ i, hasBit s.1.isr i = (hasBit h.isr i || (decide (i ∈ l) && firesLevel now h i))
  asserted : ∀ i, s.1.assertedIrqs i =
    if i ∈ l ∧ firesLevel now h i = true then some (h.routeForTimer i) else h.assertedIrqs i
  irqs : s.2 = irqs ++ (l.filter fun i => fires now (h.timers i)).map h.routeForTimer

section
variable {now : UInt64} {timer : HpetTimer} {s t : Hpet × List Irq} {l : List TimerId} {k : TimerId}

theorem route_congr (hconfig : h'.config = h.config) (htimer : h'.timers i = h.timers i) :
    h'.routeForTimer i = h.routeForTimer i := by
  unfold routeForTimer legacyMode levelTriggered
  rw [hconfig, htimer]

theorem firesLevel_congr (htimer : h'.timers i = h.timers i) : firesLevel now h' i = firesLevel now h i := by
  simp only [firesLevel, levelTriggered, htimer]

/-- The HPET after a timer has fired. --/
def fired (k : TimerId) (timer : HpetTimer) (h : Hpet) : Hpet :=
  (if h.levelTriggered k then h.record k (h.routeForTimer k) else h).updateTimer k timer

theorem pollTimer_skip (hfires : fires now (h.timers k) = false) : pollTimer now (h, irqs) k = some (h, irqs) :=
  if_pos (by rw [hfires]; exact Bool.false_ne_true)

theorem pollTimer_take (hfires : fires now (h.timers k) = true) (hp : pollTimer now (h, irqs) k = some t) :
    ∃ timer, t = (h.fired k timer, irqs ++ [h.routeForTimer k]) := by
  rw [pollTimer, if_neg (not_not.mpr hfires)] at hp
  obtain ⟨timer, -, heq⟩ := Option.map_eq_some_iff.mp hp
  exact ⟨timer, heq.symm⟩

theorem fired_config : (h.fired k timer).config = h.config := by
  rw [fired]
  split <;> rfl

theorem fired_timers (hik : i ≠ k) : (h.fired k timer).timers i = h.timers i := by
  refine (Function.update_of_ne hik _ _).trans ?_
  split <;> rfl

theorem fired_isr : hasBit (h.fired k timer).isr i = (hasBit h.isr i || (decide (i = k) && h.levelTriggered k)) := by
  rw [fired]
  split
  · rename_i hlevel
    rw [hlevel, Bool.and_true, ← hasBit_timerBit]
    exact hasBit_or
  · rename_i hlevel
    rw [Bool.eq_false_iff.mpr hlevel, Bool.and_false, Bool.or_false]
    rfl

theorem fired_asserted : (h.fired k timer).assertedIrqs i =
    if i = k ∧ h.levelTriggered k = true then some (h.routeForTimer k) else h.assertedIrqs i := by
  rw [fired]
  split
  · rename_i hlevel
    simp only [hlevel, and_true]
    exact Function.update_apply ..
  · rename_i hlevel
    rw [if_neg fun hi => hlevel hi.2]
    rfl

/-- A round for one timer leaves the others, and the routes. --/
theorem pollTimer_others (hp : pollTimer now (h, irqs) k = some t) :
    t.1.config = h.config ∧ ∀ i, i ≠ k → t.1.timers i = h.timers i := by
  cases hfires : fires now (h.timers k) with
  | false =>
    rw [pollTimer_skip hfires] at hp
    cases hp
    exact ⟨rfl, fun _ _ => rfl⟩
  | true =>
    obtain ⟨timer, rfl⟩ := pollTimer_take hfires hp
    exact ⟨fired_config, fun i hik => fired_timers hik⟩

theorem pollTimer_polled (hp : pollTimer now (h, irqs) k = some t) : Polled now [k] h irqs t := by
  cases hfires : fires now (h.timers k) with
  | false =>
    rw [pollTimer_skip hfires] at hp
    cases hp
    have hlevel : firesLevel now h k = false := by rw [firesLevel, hfires, Bool.false_and]
    refine ⟨fun i => ?_, fun i => ?_, ?_⟩
    · rcases eq_or_ne i k with rfl | hik
      · simp [hlevel]
      · simp [hik]
    · rcases eq_or_ne i k with rfl | hik
      · simp [hlevel]
      · simp [hik]
    · rw [List.filter_singleton, hfires]
      exact (List.append_nil _).symm
  | true =>
    obtain ⟨timer, rfl⟩ := pollTimer_take hfires hp
    have hlevel : firesLevel now h k = h.levelTriggered k := by rw [firesLevel, hfires, Bool.true_and]
    refine ⟨fun i => ?_, fun i => ?_, ?_⟩
    · rw [fired_isr, ← hlevel]
      rcases eq_or_ne i k with rfl | hik
      · simp
      · simp [hik]
    · rw [fired_asserted, ← hlevel]
      rcases eq_or_ne i k with rfl | hik
      · simp
      · simp [hik]
    · rw [List.filter_singleton, hfires]
      rfl

theorem polled_cons (hk : k ∉ l) (hone : Polled now [k] h irqs s) (hrest : Polled now l s.1 s.2 t)
    (hconfig : s.1.config = h.config) (htimers : ∀ i, i ≠ k → s.1.timers i = h.timers i) :
    Polled now (k :: l) h irqs t := by
  have hne : ∀ i ∈ l, i ≠ k := fun i hi => ne_of_mem_of_not_mem hi hk
  refine ⟨fun i => ?_, fun i => ?_, ?_⟩
  · rw [hrest.isr, hone.isr]
    rcases eq_or_ne i k with rfl | hik
    · simp [hk]
    · simp [hik, firesLevel_congr (htimers i hik)]
  · rw [hrest.asserted, hone.asserted]
    rcases eq_or_ne i k with rfl | hik
    · simp [hk]
    · simp [hik, firesLevel_congr (htimers i hik), route_congr hconfig (htimers i hik)]
  · have hfilter : (l.filter fun i => fires now (s.1.timers i)) = l.filter fun i => fires now (h.timers i) :=
      List.filter_congr fun i hi => by rw [htimers i (hne i hi)]
    have hmap : (l.filter fun i => fires now (h.timers i)).map s.1.routeForTimer =
        (l.filter fun i => fires now (h.timers i)).map h.routeForTimer :=
      List.map_congr_left fun i hi => route_congr hconfig (htimers i (hne i (List.mem_filter.mp hi).1))
    have hsplit : k :: l = [k] ++ l := rfl
    rw [hrest.irqs, hone.irqs, hfilter, hmap, hsplit, List.filter_append, List.map_append, List.append_assoc]

theorem poll_rounds (hl : l.Nodup) : ∀ {s : Hpet × List Irq},
    l.foldlM (pollTimer now) s = some t → Polled now l s.1 s.2 t := by
  induction l with
  | nil =>
    rintro s hs
    cases hs
    exact ⟨fun i => by simp, fun i => by simp, by simp⟩
  | cons k l ih =>
    intro s hs
    obtain ⟨hk, hl⟩ := List.nodup_cons.mp hl
    rw [List.foldlM_cons] at hs
    obtain ⟨s', hone, hrest⟩ := Option.bind_eq_some_iff.mp hs
    obtain ⟨hconfig, htimers⟩ := pollTimer_others hone
    exact polled_cons hk (pollTimer_polled hone) (ih hl hrest) hconfig htimers

/-- A level interrupt of the timer is raised when the counter is polled. --/
def raises (now : Int) (h : Hpet) (i : TimerId) : Bool := h.enabled && firesLevel (h.counter now) h i

end

section
variable {now : Int}

theorem level_routeForTimer : (h.routeForTimer i).level = h.levelTriggered i := by
  simp only [routeForTimer]
  split_ifs <;> rfl

theorem pollExpired_spec (hp : h.pollExpired now = some (h', irqs)) :
    (∀ i, hasBit h'.isr i = (hasBit h.isr i || h.raises now i)) ∧
    (∀ i, h'.assertedIrqs i = if h.raises now i = true then some (h.routeForTimer i) else h.assertedIrqs i) ∧
    ∀ p, (∃ irq ∈ irqs, irq.level = true ∧ irq.ioapicPin = p) ↔
      ∃ i, h.raises now i = true ∧ (h.routeForTimer i).ioapicPin = p := by
  rw [pollExpired] at hp
  cases henabled : h.enabled with
  | false =>
    have hraises : ∀ i, h.raises now i = false := fun i => by rw [raises, henabled, Bool.false_and]
    rw [if_pos (by simp [henabled])] at hp
    cases hp
    simp [hraises]
  | true =>
    have hraises : ∀ i, h.raises now i = firesLevel (h.counter now) h i := fun i => by
      rw [raises, henabled, Bool.true_and]
    rw [if_neg (by simp [henabled])] at hp
    obtain ⟨hisr, hasserted, hirqs⟩ := poll_rounds (List.nodup_finRange 3) hp
    refine ⟨fun i => ?_, fun i => ?_, fun p => ?_⟩
    · rw [hisr, hraises, decide_eq_true (List.mem_finRange i), Bool.true_and]
    · refine (hasserted i).trans ?_
      simp only [hraises, List.mem_finRange, true_and]
    · have hmem : ∀ irq, irq ∈ irqs ↔ ∃ i, fires (h.counter now) (h.timers i) = true ∧ h.routeForTimer i = irq := by
        intro irq
        simp only at hirqs
        simp [hirqs]
      constructor
      · rintro ⟨irq, hirq, hlevel, hp⟩
        obtain ⟨i, hfires, rfl⟩ := (hmem irq).mp hirq
        rw [level_routeForTimer] at hlevel
        exact ⟨i, by rw [hraises, firesLevel, hfires, hlevel, Bool.and_true], hp⟩
      · rintro ⟨i, hi, hp⟩
        rw [hraises, firesLevel, Bool.and_eq_true] at hi
        exact ⟨_, (hmem _).mpr ⟨i, hi.1, rfl⟩, level_routeForTimer.trans hi.2, hp⟩

theorem pollExpired_sound (hs : h.Sound) (hp : h.pollExpired now = some (h', irqs))
    (hroute : ∀ i, h.raises now i = true → (h.routeForTimer i).ioapicPin < 24) : h'.Sound := by
  obtain ⟨hisr, hasserted, -⟩ := pollExpired_spec hp
  intro i hi
  rw [hisr, Bool.or_eq_true] at hi
  rw [hasserted]
  split
  · rename_i hraises
    refine ⟨_, rfl, ?_, hroute i hraises⟩
    rw [raises, firesLevel, Bool.and_eq_true, Bool.and_eq_true] at hraises
    exact level_routeForTimer.trans hraises.2.2
  · rename_i hraises
    exact hs i (hi.resolve_right hraises)

theorem pollExpired_outstanding (hp : h.pollExpired now = some (h', irqs)) : h'.Outstanding p ↔
    (∃ i, h.raises now i = true ∧ (h.routeForTimer i).ioapicPin = p) ∨
      ∃ i, h.raises now i = false ∧ hasBit h.isr i = true ∧ h.pinOf i = some p := by
  obtain ⟨hisr, hasserted, -⟩ := pollExpired_spec hp
  rw [← exists_or]
  refine exists_congr fun i => ?_
  rw [hisr, pinOf, hasserted]
  cases h.raises now i <;> simp [pinOf]

end
end Hpet

/-! ### The I/O APIC -/

namespace Board
open Hpet
variable {b t : Board} {p : UInt32} {irq : Irq} {accept : Nat}

theorem masked_requestIrqLocked {s : IoApic} {i j : Pin} : (s.requestIrqLocked i accept).masked j = s.masked j := by
  have hentry : (IoApic.enqueue i s).redir j &&& IoApic.rteMask = s.redir j &&& IoApic.rteMask := by
    rw [IoApic.enqueue]
    dsimp only
    split
    · rcases eq_or_ne j i with rfl | hji
      · rw [Function.update_self, Masks.or_and_of_disjoint rfl]
      · rw [Function.update_of_ne hji]
    · rfl
  rw [IoApic.requestIrqLocked]
  split_ifs
  · rfl
  · rfl
  · rfl
  · exact congrArg (· != 0) hentry

theorem irqUnmasked_congr {s s' : IoApic} (hs : ∀ j, s'.masked j = s.masked j) : s'.irqUnmasked p = s.irqUnmasked p := by
  simp only [IoApic.irqUnmasked, hs]

/-- A timer's interrupt sets its pin high, if it is a level interrupt and the pin is not masked. --/
theorem deliverTimerIrq_spec (b : Board) (accept : Nat) (irq : Irq) : (b.deliverTimerIrq accept irq).hpet = b.hpet ∧
    (∀ p, (b.deliverTimerIrq accept irq).ioapic.irqUnmasked p = b.ioapic.irqUnmasked p) ∧
    ∀ p, (b.deliverTimerIrq accept irq).held p = true ↔
      b.held p = true ∨ ((irq.level = true ∧ irq.ioapicPin = p) ∧ p < 24 ∧ b.ioapic.irqUnmasked p = true) := by
  rw [deliverTimerIrq]
  split_ifs with hpin hlevel
  · refine ⟨rfl, fun p => irqUnmasked_congr fun j => ?_, fun p => ?_⟩
    · rw [IoApic.setIrq]
      split
      · exact masked_requestIrqLocked
      · rfl
    · refine (Bool.eq_iff_iff.mp (Function.update_apply ..)).trans ?_
      split
      · rename_i hp
        exact iff_of_true rfl (Or.inr ⟨⟨hlevel, hp.symm⟩, hp ▸ hpin⟩)
      · rename_i hp
        exact (or_iff_left fun hr => hp hr.1.2.symm).symm
  · refine ⟨rfl, fun p => irqUnmasked_congr fun j => ?_, fun p => (or_iff_left fun hr => hlevel hr.1.1).symm⟩
    rw [IoApic.requestIrq]
    split
    · exact masked_requestIrqLocked
    · rfl
  · refine ⟨rfl, fun _ => rfl, fun p => (or_iff_left fun hr => hpin ?_).symm⟩
    rw [hr.1.2]
    exact hr.2

theorem deliver_rounds (l : List (Irq × Nat)) (accept : Nat → Nat) : ∀ b : Board,
    (l.foldl (fun b x => b.deliverTimerIrq (accept x.2) x.1) b).hpet = b.hpet ∧
    ∀ p, (l.foldl (fun b x => b.deliverTimerIrq (accept x.2) x.1) b).held p = true ↔
      b.held p = true ∨
        ((∃ x ∈ l, x.1.level = true ∧ x.1.ioapicPin = p) ∧ p < 24 ∧ b.ioapic.irqUnmasked p = true) := by
  induction l with
  | nil => simp
  | cons x l ih =>
    intro b
    obtain ⟨hhpet, hunmasked, hheld⟩ := deliverTimerIrq_spec b (accept x.2) x.1
    obtain ⟨hrest, hhigh⟩ := ih (b.deliverTimerIrq (accept x.2) x.1)
    refine ⟨hrest.trans hhpet, fun p => ?_⟩
    rw [List.foldl_cons, hhigh, hheld, hunmasked, or_assoc, ← or_and_right]
    simp only [List.mem_cons, exists_eq_or_imp]

theorem lower_rounds {pins : List UInt32} : ∀ {b : Board}, (∀ p ∈ pins, p < 24) →
    (pins.foldl lower b).hpet = b.hpet ∧
    ∀ p, (pins.foldl lower b).held p = true ↔ b.held p = true ∧ p ∉ pins := by
  induction pins with
  | nil => simp
  | cons q pins ih =>
    intro b hpins
    obtain ⟨hq, hpins⟩ := List.forall_mem_cons.mp hpins
    have hlower : b.lower q = { b with ioapic := b.ioapic.setIrq q false 0, held := Function.update b.held q false } :=
      if_pos hq
    obtain ⟨hhpet, hheld⟩ := ih (b := b.lower q) hpins
    rw [List.foldl_cons]
    refine ⟨hhpet.trans (by rw [hlower]), fun p => ?_⟩
    rw [hheld, hlower, List.mem_cons, not_or]
    dsimp only
    rcases eq_or_ne p q with rfl | hpq
    · simp
    · simp [hpq]

/-! ### Steps -/

section
variable {now : Int} {accept : Nat → Nat} {addr : UInt64} {data : List UInt8} {clock : Nat → Int} {e : Event}

/-- The pins that the HPET holds high are those on record for the timers with an ISR bit. --/
def Exact (b : Board) : Prop := ∀ p, b.held p = true ↔ b.hpet.Outstanding p

/-- The ISR bits that an access clears. --/
def cleared (addr : UInt64) (data : List UInt8) (h : Hpet) : UInt64 :=
  if ¬validAccess addr data.length then 0
  else clears (regOf addr).1 (regOf addr).2 (min (data.length * 8) (64 - (regOf addr).2)) (UInt64.ofNat (Words.ofLe data)) h

/-- A write clears no timer whose pin is also on record for a timer that stays. A level timer that fires has a pin of the
    I/O APIC, not masked unless it is high already; and the pin that it had on record has another timer. --/
def Careful (b : Board) : Event → Prop
  | .writeMmio addr data _ => ∀ i j, hasBit b.hpet.isr i = true → hasBit b.hpet.isr j = true →
      hasBit (cleared addr data b.hpet) i = true → hasBit (cleared addr data b.hpet) j = false →
      b.hpet.pinOf i ≠ b.hpet.pinOf j
  | .poll now _ =>
      (∀ i, b.hpet.raises now i = true → (b.hpet.routeForTimer i).ioapicPin < 24 ∧
        (b.ioapic.irqUnmasked (b.hpet.routeForTimer i).ioapicPin = true ∨
          b.held (b.hpet.routeForTimer i).ioapicPin = true)) ∧
      ∀ i, b.hpet.raises now i = true → hasBit b.hpet.isr i = true → ∃ j,
        b.hpet.raises now j = true ∧ some (b.hpet.routeForTimer j).ioapicPin = b.hpet.pinOf i ∨
        b.hpet.raises now j = false ∧ hasBit b.hpet.isr j = true ∧ b.hpet.pinOf j = b.hpet.pinOf i
  | .ioapic _ => True

instance (b : Board) (e : Event) : Decidable (Careful b e) := by
  unfold Careful
  split <;> infer_instance

theorem writeMmio_cleared (clock : Nat → Int) (addr : UInt64) (data : List UInt8) {h : Hpet} (hs : h.Sound) : Cleared (cleared addr data h) h (h.writeMmio clock addr data) := by
  rw [writeMmio, cleared]
  split
  · exact cleared_nothing rfl rfl
  · exact writeReg_cleared hs

theorem write_exact (hs : b.hpet.Sound) (hb : b.Exact) (hok : Careful b (.writeMmio addr data clock)) :
    (b.write addr data clock).hpet.Sound ∧ (b.write addr data clock).Exact := by
  have hc := writeMmio_cleared clock addr data hs
  obtain ⟨hhpet, hheld⟩ := lower_rounds (b := { b with hpet := (b.hpet.writeMmio clock addr data).1 })
    fun p hp => ((hc.lowered p).mp hp).1
  have hwrite : (b.write addr data clock).hpet = (b.hpet.writeMmio clock addr data).1 := hhpet
  refine ⟨hwrite ▸ hc.sound hs, fun p => (hheld p).trans ?_⟩
  rw [hwrite, hc.outstanding, hc.lowered]
  constructor
  · rintro ⟨hhigh, hkept⟩
    obtain ⟨i, hi, hp⟩ := (hb p).mp hhigh
    exact ⟨i, ⟨hi, Bool.eq_false_iff.mpr fun hclear =>
      hkept ⟨hs.pin_lt hi hp, i, (Bool.and_eq_true _ _).mpr ⟨hi, hclear⟩, hp⟩⟩, hp⟩
  · rintro ⟨i, ⟨hi, hstays⟩, hp⟩
    refine ⟨(hb p).mpr ⟨i, hi, hp⟩, ?_⟩
    rintro ⟨-, j, hj, hpj⟩
    obtain ⟨hj, hclear⟩ := (Bool.and_eq_true _ _).mp hj
    exact hok j i hj hi hclear hstays (hpj.trans hp.symm)

theorem poll_exact (hs : b.hpet.Sound) (hb : b.Exact) (hok : Careful b (.poll now accept))
    (hpoll : b.poll now accept = some t) : t.hpet.Sound ∧ t.Exact := by
  obtain ⟨hroute, hkept⟩ := hok
  obtain ⟨⟨h', irqs⟩, hexpired, rfl⟩ := Option.map_eq_some_iff.mp hpoll
  obtain ⟨hhpet, hheld⟩ := deliver_rounds irqs.zipIdx accept { b with hpet := h' }
  have hraised : ∀ p, (∃ x ∈ irqs.zipIdx, x.1.level = true ∧ x.1.ioapicPin = p) ↔
      ∃ i, b.hpet.raises now i = true ∧ (b.hpet.routeForTimer i).ioapicPin = p := by
    intro p
    have hmem : ∀ irq, irq ∈ irqs ↔ ∃ x ∈ irqs.zipIdx, x.1 = irq := by
      intro irq
      conv_lhs => rw [← List.zipIdx_map_fst 0 irqs]
      exact List.mem_map
    rw [← (pollExpired_spec hexpired).2.2]
    constructor
    · rintro ⟨x, hx, hlevel⟩
      exact ⟨x.1, (hmem x.1).mpr ⟨x, hx, rfl⟩, hlevel⟩
    · rintro ⟨irq, hirq, hlevel⟩
      obtain ⟨x, hx, rfl⟩ := (hmem irq).mp hirq
      exact ⟨x, hx, hlevel⟩
  refine ⟨hhpet ▸ pollExpired_sound hs hexpired fun i hi => (hroute i hi).1, fun p => (hheld p).trans ?_⟩
  rw [hraised, hhpet]
  refine Iff.trans ?_ (pollExpired_outstanding hexpired).symm
  constructor
  · rintro (hhigh | ⟨hnew, -⟩)
    · obtain ⟨i, hi, hp⟩ := (hb p).mp hhigh
      cases hraises : b.hpet.raises now i with
      | false => exact Or.inr ⟨i, hraises, hi, hp⟩
      | true =>
        -- The record of `i` goes, so another timer has the pin.
        rcases hkept i hraises hi with ⟨j, ⟨hj, hpj⟩ | ⟨hj, hbit, hpj⟩⟩
        · exact Or.inl ⟨j, hj, Option.some.inj (hpj.trans hp)⟩
        · exact Or.inr ⟨j, hj, hbit, hpj.trans hp⟩
    · exact Or.inl hnew
  · rintro (⟨i, hi, rfl⟩ | ⟨i, -, hi, hp⟩)
    · obtain ⟨hlt, hunmasked | hhigh⟩ := hroute i hi
      · exact Or.inr ⟨⟨i, hi, rfl⟩, hlt, hunmasked⟩
      · exact Or.inl hhigh
    · exact Or.inl ((hb p).mpr ⟨i, hi, hp⟩)

theorem step_exact (hb : b.hpet.Sound ∧ b.Exact) (hok : Careful b e) (hstep : b.step e = some t) :
    t.hpet.Sound ∧ t.Exact := by
  cases e with
  | writeMmio addr data clock =>
    cases hstep
    exact write_exact hb.1 hb.2 hok
  | poll now accept => exact poll_exact hb.1 hb.2 hok hstep
  | ioapic e =>
    obtain ⟨ioapic, -, rfl⟩ := Option.map_eq_some_iff.mp hstep
    exact hb

theorem reset_exact : (Board.reset now).hpet.Sound ∧ (Board.reset now).Exact := by
  have hisr : ∀ i, hasBit (Board.reset now).hpet.isr i = false := fun _ => hasBit_zero
  refine ⟨fun i hi => ?_, fun p => iff_of_false Bool.false_ne_true ?_⟩
  · rw [hisr] at hi
    cases hi
  · rintro ⟨i, hi, -⟩
    rw [hisr] at hi
    cases hi

/-- Along a run that is careful, the pins that the HPET holds high are exactly those on record. --/
theorem hpet_pins_exact {es : List Event} (hrun : Runs.Under Board.step Careful (Board.reset now) es t) : t.Exact :=
  (hrun.invariant (fun _ _ _ hb hok hstep => step_exact hb hok hstep) reset_exact).2

end

/-- A write of 8 bytes to a register. --/
def store (off : UInt64) (value : UInt8 × UInt8) (now : Int) : Event :=
  .writeMmio (Hpet.base + off) [value.1, value.2, 0, 0, 0, 0, 0, 0] fun _ => now

def secondTimer : TimerId := ⟨1, by decide⟩

/-- Timers 0 and 1 are set up for level interrupts on pin 2, and both fire. --/
def sharedPin : List Event :=
  [store 0x100 (0x06, 0x04) 0, store 0x108 (10, 0) 0, store 0x120 (0x06, 0x04) 0, store 0x128 (10, 0) 0,
    .ioapic (.writeMmio 0x00 4 0x14 0), .ioapic (.writeMmio 0x10 4 0x8031 0), store 0x010 (1, 0) 0, .poll 1000 fun _ => 1]

/-- The guest clears both in one write. --/
theorem hpet_pins_exact_shared :
    ∃ t, Runs.Under Board.step Careful (Board.reset 0) (sharedPin ++ [store 0x020 (3, 0) 2000]) t ∧ t.Exact := by
  obtain ⟨t, hrun, -⟩ := Runs.exists_under Board.step Careful (Board.reset 0) (sharedPin ++ [store 0x020 (3, 0) 2000])
    (fun t => t.hpet.isr = 0 ∧ t.held 2 = false) (by decide +kernel)
  exact ⟨t, hrun, hpet_pins_exact hrun⟩

/-- The guest clears timer 0 alone: the pin goes low, and timer 1 still has it on record. --/
theorem shared_pin_released_early :
    ∃ t, Runs.Under Board.step (fun _ _ => True) (Board.reset 0) (sharedPin ++ [store 0x020 (1, 0) 2000]) t ∧
      ¬t.Exact := by
  obtain ⟨t, hrun, hlow, hbit, hpin⟩ := Runs.exists_under Board.step (fun _ _ => True) (Board.reset 0)
    (sharedPin ++ [store 0x020 (1, 0) 2000])
    (fun t => t.held 2 = false ∧ hasBit t.hpet.isr secondTimer = true ∧ t.hpet.pinOf secondTimer = some 2) (by decide +kernel)
  refine ⟨t, hrun, fun hexact => ?_⟩
  have hhigh := (hexact 2).mpr ⟨secondTimer, hbit, hpin⟩
  rw [hlow] at hhigh
  cases hhigh

end Board
end NodeVmm.Whp
