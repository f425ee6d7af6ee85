import Mathlib.Tactic.Ring
import NodeVmm.Theorems.Hpet

/-! The loop of `poll_expired` that moves a periodic timer past the counter. It stops at the first sum that is past it,
    and there is one for every period but 0 and, where the comparator is the counter modulo 2^63, the period 2^63. -/

namespace NodeVmm.Whp
namespace Hpet
variable {now old period v : UInt64} {h : Hpet} {i : TimerId}

/-- The comparator, after the period has been added so many times. --/
def advanced (old period : UInt64) (k : Nat) : UInt64 := old + UInt64.ofNat k * period

/-- The first sum with at least one period that the counter has not reached. --/
def IsFirstPast (now old period v : UInt64) : Prop :=
  ∃ k, 1 ≤ k ∧ v = advanced old period k ∧ counterReached now v = false ∧
    ∀ j, 1 ≤ j → j < k → counterReached now (advanced old period j) = true

/-- Half of the words: as a signed number it is the one that is its own negative. --/
def half : UInt64 := 0x8000000000000000

/-- Every sum is one that the counter has reached. --/
def Stuck (now : UInt64) (timer : HpetTimer) : Prop :=
  timer.period = half ∧ (timer.cmp64 = now ∨ timer.cmp64 = now + half)

instance {timer : HpetTimer} : Decidable (Stuck now timer) := inferInstanceAs (Decidable (_ ∧ _))

/-! ### The order of the counter -/

theorem counterReached_iff : counterReached now v = true ↔ (v - now).toNat = 0 ∨ 2 ^ 63 ≤ (v - now).toNat := by
  have hlt := (v - now).toNat_lt
  have hint := BitVec.toInt_eq_toNat_cond (v - now).toBitVec
  rw [UInt64.toNat_toBitVec] at hint
  rw [counterReached, decide_eq_true_iff, hint]
  split <;> omega

theorem counterReached_eq_false_iff :
    counterReached now v = false ↔ 0 < (v - now).toNat ∧ (v - now).toNat < 2 ^ 63 := by
  rw [← Bool.not_eq_true, counterReached_iff]
  omega

theorem advanced_sub (k : Nat) :
    (advanced old period k - now).toNat = ((old - now).toNat + k * period.toNat) % 2 ^ 64 := by
  have hsplit : advanced old period k - now = (old - now) + UInt64.ofNat k * period := by
    rw [advanced, UInt64.sub_eq_add_neg, UInt64.sub_eq_add_neg, UInt64.add_assoc, UInt64.add_assoc,
      UInt64.add_comm (_ * _)]
  rw [hsplit, UInt64.toNat_add, UInt64.toNat_mul, UInt64.toNat_ofNat', Nat.mod_mul_mod, Nat.add_mod_mod]

theorem advanced_zero : advanced old period 0 = old := by
  simp [advanced]

theorem advanced_succ (old period : UInt64) (k : Nat) : advanced (old + period) period k = advanced old period (k + 1) := by
  have hofNat : UInt64.ofNat (k + 1) = UInt64.ofNat k + 1 := UInt64.ofNat_add k 1
  rw [advanced, advanced, hofNat, UInt64.add_mul, UInt64.one_mul, UInt64.add_assoc, UInt64.add_comm period]

/-- A walk around the words by steps of `p`, from a word that is 0 or in the upper half, comes to the lower half. --/
theorem exists_lower_half {x p : Nat} (hx : x = 0 ∨ 2 ^ 63 ≤ x) (hxlt : x < 2 ^ 64) (hp : 0 < p) (hplt : p < 2 ^ 64)
    (hhalf : ¬(p = 2 ^ 63 ∧ (x = 0 ∨ x = 2 ^ 63))) :
    ∃ k, k < 2 ^ 64 ∧ 0 < (x + (k + 1) * p) % 2 ^ 64 ∧ (x + (k + 1) * p) % 2 ^ 64 < 2 ^ 63 := by
  -- how far `x` is from the end of the words
  obtain ⟨d, hd, hdle⟩ : ∃ d, (x + d) % 2 ^ 64 = 0 ∧ d ≤ 2 ^ 63 := ⟨(2 ^ 64 - x) % 2 ^ 64, by omega, by omega⟩
  rcases lt_trichotomy p (2 ^ 63) with hlt | rfl | hgt
  · -- a short step: the first one that passes the end
    refine ⟨d / p, lt_of_le_of_lt (Nat.div_le_self d p) (by omega), ?_⟩
    have hdiv := Nat.div_add_mod d p
    have hmod := Nat.mod_lt d hp
    have hmul : (d / p + 1) * p = p * (d / p) + p := by rw [Nat.add_mul, Nat.one_mul, Nat.mul_comm]
    omega
  · exact ⟨0, by decide, by omega⟩
  · -- a long step is a short one back: the first one that leaves the upper half
    obtain ⟨q, hpq⟩ : ∃ q, p + q = 2 ^ 64 := ⟨2 ^ 64 - p, by omega⟩
    refine ⟨(2 ^ 63 - d) / q, lt_of_le_of_lt (Nat.div_le_self _ _) (by omega), ?_⟩
    have hdiv := Nat.div_add_mod (2 ^ 63 - d) q
    have hmod := Nat.mod_lt (2 ^ 63 - d) (show 0 < q by omega)
    have hmul : ((2 ^ 63 - d) / q + 1) * p + (q * ((2 ^ 63 - d) / q) + q) = ((2 ^ 63 - d) / q + 1) * 2 ^ 64 := by
      rw [← hpq]
      ring
    omega

/-! ### The loop -/

/-- What the rounds of the loop leave. --/
theorem catchUp_eq_some {rounds : Nat} : catchUp now period rounds old = some v ↔
    ∃ k, k < rounds ∧ v = advanced old period (k + 1) ∧ counterReached now v = false ∧
      ∀ j, j < k → counterReached now (advanced old period (j + 1)) = true := by
  induction rounds generalizing old with
  | zero => simp [catchUp]
  | succ rounds ih =>
    have hfirst : advanced old period 1 = old + period := by rw [← advanced_succ, advanced_zero]
    rw [catchUp]
    split
    · rename_i hreached
      rw [ih]
      constructor
      · rintro ⟨k, hk, rfl, hpast, hbefore⟩
        refine ⟨k + 1, Nat.succ_lt_succ hk, advanced_succ .., hpast, fun j hj => ?_⟩
        cases j with
        | zero => exact hfirst ▸ hreached
        | succ j => exact advanced_succ old period (j + 1) ▸ hbefore j (Nat.lt_of_succ_lt_succ hj)
      · rintro ⟨k, hk, rfl, hpast, hbefore⟩
        cases k with
        | zero =>
          rw [hfirst, hreached] at hpast
          cases hpast
        | succ k =>
          refine ⟨k, Nat.lt_of_succ_lt_succ hk, (advanced_succ ..).symm, hpast, fun j hj => ?_⟩
          exact advanced_succ old period (j + 1) ▸ hbefore (j + 1) (Nat.succ_lt_succ hj)
    · rename_i hreached
      have hpast := Bool.eq_false_iff.mpr hreached
      constructor
      · intro hv
        obtain rfl := Option.some.inj hv
        exact ⟨0, Nat.succ_pos _, hfirst.symm, hpast, fun j hj => absurd hj (Nat.not_lt_zero j)⟩
      · rintro ⟨k, -, rfl, -, hbefore⟩
        cases k with
        | zero => rw [hfirst]
        | succ k => exact absurd (hfirst ▸ hbefore 0 (Nat.succ_pos k)) hreached

/-- The loop ends at the first sum past the counter, unless it never ends. --/
theorem catchUp_spec {timer : HpetTimer} (hperiod : timer.period ≠ 0) (hreached : counterReached now timer.cmp64 = true)
    (hstuck : ¬Stuck now timer) :
    ∃ v, catchUp now timer.period (2 ^ 64) timer.cmp64 = some v ∧ IsFirstPast now timer.cmp64 timer.period v := by
  have hsub : ∀ {w : UInt64}, (timer.cmp64 - now).toNat = w.toNat → timer.cmp64 = now + w := fun hw => by
    rw [← UInt64.toNat_inj.mp hw, UInt64.add_comm, UInt64.sub_add_cancel]
  have hpos : 0 < timer.period.toNat := Nat.pos_of_ne_zero fun hzero => hperiod (UInt64.toNat_inj.mp hzero)
  have hhalf : ¬(timer.period.toNat = 2 ^ 63 ∧ ((timer.cmp64 - now).toNat = 0 ∨ (timer.cmp64 - now).toNat = 2 ^ 63)) := by
    rintro ⟨hp, hx⟩
    refine hstuck ⟨UInt64.toNat_inj.mp hp, hx.imp (fun hx => ?_) fun hx => hsub hx⟩
    rw [hsub (w := 0) hx, UInt64.add_zero]
  have hexists : ∃ k, k < 2 ^ 64 ∧ counterReached now (advanced timer.cmp64 timer.period (k + 1)) = false := by
    obtain ⟨k, hk, hlower⟩ := exists_lower_half (counterReached_iff.mp hreached) (timer.cmp64 - now).toNat_lt hpos
      timer.period.toNat_lt hhalf
    exact ⟨k, hk, counterReached_eq_false_iff.mpr (by rwa [advanced_sub])⟩
  classical
  obtain ⟨hk, hpast⟩ := Nat.find_spec hexists
  have hbefore : ∀ j, j < Nat.find hexists → counterReached now (advanced timer.cmp64 timer.period (j + 1)) = true :=
    fun j hj => Bool.not_eq_false _ ▸ fun hfalse => Nat.find_min hexists hj ⟨Nat.lt_trans hj hk, hfalse⟩
  refine ⟨_, catchUp_eq_some.mpr ⟨Nat.find hexists, hk, rfl, hpast, hbefore⟩, Nat.find hexists + 1, Nat.succ_pos _,
    rfl, hpast, fun j hj1 hj => ?_⟩
  obtain ⟨j, rfl⟩ := Nat.exists_eq_succ_of_ne_zero (Nat.one_le_iff_ne_zero.mp hj1)
  exact hbefore j (Nat.lt_of_succ_lt_succ hj)

/-- A stuck timer has no sum past the counter. --/
theorem counterReached_of_stuck {timer : HpetTimer} (hstuck : Stuck now timer) (k : Nat) :
    counterReached now (advanced timer.cmp64 timer.period k) = true := by
  obtain ⟨hperiod, hcmp⟩ := hstuck
  have hx : (timer.cmp64 - now).toNat = 0 ∨ (timer.cmp64 - now).toNat = 2 ^ 63 := by
    rcases hcmp with hcmp | hcmp
    · exact Or.inl (by rw [hcmp, UInt64.sub_self]; rfl)
    · exact Or.inr (by rw [hcmp, UInt64.add_comm, UInt64.add_sub_cancel]; rfl)
  have hp : timer.period.toNat = 2 ^ 63 := by
    rw [hperiod]
    rfl
  rw [counterReached_iff, advanced_sub, hp]
  omega

theorem catchUp_of_stuck {timer : HpetTimer} {rounds : Nat} (hstuck : Stuck now timer) :
    catchUp now timer.period rounds timer.cmp64 = none := by
  refine Option.eq_none_iff_forall_ne_some.mpr fun v hv => ?_
  obtain ⟨k, -, rfl, hpast, -⟩ := catchUp_eq_some.mp hv
  rw [counterReached_of_stuck hstuck] at hpast
  cases hpast

/-! ### A poll -/

/-- The timer fires when the HPET is polled. --/
def due (now : Int) (h : Hpet) (i : TimerId) : Bool := h.enabled && fires (h.counter now) (h.timers i)

def periodic (timer : HpetTimer) : Bool := timer.config &&& timerPeriodic != 0

/-- What is asked of a periodic timer that fires with the counter at `now`. With the period 0 no sum is past the counter,
    and the timer is disarmed. --/
structure MovedOn (now : UInt64) (before after : HpetTimer) : Prop where
  advanced : before.period ≠ 0 → IsFirstPast now before.cmp64 before.period after.cmp64
  disarmed : before.period = 0 → after = { before with armed := false }

/-- The loop of this timer never ends. --/
def Hangs (now : UInt64) (timer : HpetTimer) : Prop := periodic timer = true ∧ Stuck now timer

instance {timer : HpetTimer} : Decidable (Hangs now timer) := inferInstanceAs (Decidable (_ ∧ _))

/-- The poll returns, and has moved on every periodic timer that fired. --/
def PollDone (now : Int) (h : Hpet) : Prop := ∃ s, h.pollExpired now = some s ∧ ∀ i, h.due now i = true →
  periodic (h.timers i) = true → MovedOn (h.counter now) (h.timers i) (s.1.timers i)

section
variable {timer : HpetTimer} {k : TimerId} {l : List TimerId} {s t : Hpet × List Irq}

theorem reached_of_fires (hfires : fires now timer = true) : counterReached now timer.cmp64 = true := by
  rw [fires, Bool.and_eq_true] at hfires
  exact hfires.2

theorem afterFire_of_hangs (hhangs : Hangs now timer) : afterFire now timer = none := by
  obtain ⟨hperiodic, hstuck⟩ := hhangs
  have hperiod : timer.period ≠ 0 := by
    rw [hstuck.1]
    decide
  rw [afterFire, if_pos ⟨bne_iff_ne.mp hperiodic, hperiod⟩, catchUp_of_stuck hstuck]
  rfl

theorem afterFire_spec (hfires : fires now timer = true) (hhangs : ¬Hangs now timer) :
    ∃ after, afterFire now timer = some after ∧ (periodic timer = true → MovedOn now timer after) := by
  rw [afterFire]
  split
  · rename_i hloop
    obtain ⟨hperiodic, hperiod⟩ := hloop
    have hstuck : ¬Stuck now timer := fun hstuck => hhangs ⟨bne_iff_ne.mpr hperiodic, hstuck⟩
    obtain ⟨v, hv, hfirst⟩ := catchUp_spec hperiod (reached_of_fires hfires) hstuck
    refine ⟨_, by rw [hv]; rfl, fun _ => ⟨fun _ => hfirst, fun hzero => absurd hzero hperiod⟩⟩
  · rename_i hloop
    refine ⟨_, rfl, fun hperiodic => ⟨fun hperiod => ?_, fun _ => rfl⟩⟩
    exact absurd ⟨bne_iff_ne.mp hperiodic, hperiod⟩ hloop

/-- A round in which the timer fires. --/
theorem pollTimer_fires (hfires : fires now (s.1.timers k) = true) :
    pollTimer now s k = (afterFire now (s.1.timers k)).map fun timer =>
      (s.1.fired k timer, s.2 ++ [s.1.routeForTimer k]) := by
  rw [pollTimer, if_neg (not_not.mpr hfires)]
  rfl

theorem pollTimer_self (hp : pollTimer now s k = some t) (hfires : fires now (s.1.timers k) = true) :
    afterFire now (s.1.timers k) = some (t.1.timers k) := by
  rw [pollTimer_fires hfires] at hp
  obtain ⟨timer, htimer, rfl⟩ := Option.map_eq_some_iff.mp hp
  have hself : (s.1.fired k timer).timers k = timer := Function.update_self ..
  rw [htimer, hself]

/-- The rounds leave in each timer what its own round does to it. --/
theorem rounds_timers (hl : l.Nodup) : ∀ {s : Hpet × List Irq}, l.foldlM (pollTimer now) s = some t →
    (∀ i, i ∉ l → t.1.timers i = s.1.timers i) ∧
    ∀ i ∈ l, fires now (s.1.timers i) = true → afterFire now (s.1.timers i) = some (t.1.timers i) := by
  induction l with
  | nil =>
    rintro s hs
    cases hs
    exact ⟨fun _ _ => rfl, fun i hi => absurd hi List.not_mem_nil⟩
  | cons k l ih =>
    intro s hs
    obtain ⟨hk, hl⟩ := List.nodup_cons.mp hl
    rw [List.foldlM_cons] at hs
    obtain ⟨s', hone, hrest⟩ := Option.bind_eq_some_iff.mp hs
    obtain ⟨-, hothers⟩ := pollTimer_others hone
    obtain ⟨hkept, hmoved⟩ := ih hl hrest
    refine ⟨fun i hi => ?_, fun i hi hfires => ?_⟩
    · obtain ⟨hik, hil⟩ := not_or.mp (mt List.mem_cons.mpr hi)
      rw [hkept i hil, hothers i hik]
    · rcases List.mem_cons.mp hi with rfl | hil
      · rw [hkept i hk]
        exact pollTimer_self hone hfires
      · have hik : s'.1.timers i = s.1.timers i := hothers i (ne_of_mem_of_not_mem hil hk)
        rw [← hik] at hfires ⊢
        exact hmoved i hil hfires

theorem rounds_return (hl : l.Nodup) : ∀ {s : Hpet × List Irq},
    (∀ i ∈ l, fires now (s.1.timers i) = true → ¬Hangs now (s.1.timers i)) → ∃ t, l.foldlM (pollTimer now) s = some t := by
  induction l with
  | nil => exact fun {s} _ => ⟨s, rfl⟩
  | cons k l ih =>
    intro s hs
    obtain ⟨hk, hl⟩ := List.nodup_cons.mp hl
    obtain ⟨s', hone⟩ : ∃ s', pollTimer now s k = some s' := by
      cases hfires : fires now (s.1.timers k) with
      | false => exact ⟨s, pollTimer_skip hfires⟩
      | true =>
        obtain ⟨after, hafter, -⟩ := afterFire_spec hfires (hs k List.mem_cons_self hfires)
        exact ⟨_, by rw [pollTimer_fires hfires, hafter]; rfl⟩
    obtain ⟨-, hothers⟩ := pollTimer_others hone
    obtain ⟨t, ht⟩ := ih hl (s := s') fun i hi => by
      rw [hothers i (ne_of_mem_of_not_mem hi hk)]
      exact hs i (List.mem_cons_of_mem k hi)
    exact ⟨t, by rw [List.foldlM_cons, hone]; exact ht⟩

end

/-- A poll returns, with every periodic timer that fired past the counter, exactly when no timer that fires hangs. --/
theorem poll_expired_iff (now : Int) (h : Hpet) :
    h.PollDone now ↔ ∀ i, h.due now i = true → ¬Hangs (h.counter now) (h.timers i) := by
  unfold PollDone
  cases henabled : h.enabled with
  | false =>
    have hdue : ∀ i, ¬h.due now i = true := fun i => by simp [due, henabled]
    refine iff_of_true ⟨(h, []), ?_, fun i hi => absurd hi (hdue i)⟩ fun i hi => absurd hi (hdue i)
    rw [pollExpired, if_pos (by simp [henabled])]
  | true =>
    have hdue : ∀ i, h.due now i = fires (h.counter now) (h.timers i) := fun i => by rw [due, henabled, Bool.true_and]
    have hpoll : h.pollExpired now = (List.finRange 3).foldlM (pollTimer (h.counter now)) (h, []) := by
      rw [pollExpired, if_neg (by simp [henabled])]
    simp only [hdue, hpoll]
    constructor
    · rintro ⟨s, hs, -⟩ i hfires hhangs
      have hafter := (rounds_timers (List.nodup_finRange 3) hs).2 i (List.mem_finRange i) hfires
      rw [afterFire_of_hangs hhangs] at hafter
      cases hafter
    · intro hhangs
      obtain ⟨s, hs⟩ := rounds_return (List.nodup_finRange 3) (s := (h, [])) fun i _ => hhangs i
      refine ⟨s, hs, fun i hfires hperiodic => ?_⟩
      obtain ⟨after, hafter, hmoved⟩ := afterFire_spec hfires (hhangs i hfires)
      have hself := (rounds_timers (List.nodup_finRange 3) hs).2 i (List.mem_finRange i) hfires
      obtain rfl := Option.some.inj (hafter.symm.trans hself)
      exact hmoved hperiodic

end Hpet

namespace Board
open Hpet

/-- The guest makes timer 0 periodic, sets its comparator and its period to 2^63, and enables the HPET. --/
def halfPeriod : List Event :=
  [.writeMmio (Hpet.base + 0x100) [0x4C, 0, 0, 0, 0, 0, 0, 0] fun _ => 0,
    .writeMmio (Hpet.base + 0x108) [0, 0, 0, 0, 0, 0, 0, 0x80] fun _ => 0,
    .writeMmio (Hpet.base + 0x010) [1, 0, 0, 0, 0, 0, 0, 0] fun _ => 0]

/-- The first poll, before the first tick of the counter, never returns. --/
theorem poll_hangs :
    ∃ b, Runs.Under Board.step (fun _ _ => True) (Board.reset 0) halfPeriod b ∧ ¬b.hpet.PollDone 0 := by
  obtain ⟨b, hrun, henabled, htimer, hcounter⟩ := Runs.exists_under Board.step (fun _ _ => True) (Board.reset 0) halfPeriod
    (fun b => b.hpet.enabled = true ∧
      b.hpet.timers 0 = { config := 0x40000003C, cmp := half, cmp64 := half, period := half, armed := true } ∧
      b.hpet.counter 0 = 0) (by decide +kernel)
  refine ⟨b, hrun, ?_⟩
  rintro ⟨s, hs, -⟩
  have hfires : fires (b.hpet.counter 0) (b.hpet.timers 0) = true := by
    rw [htimer, hcounter]
    decide
  have hhangs : Hangs (b.hpet.counter 0) (b.hpet.timers 0) := by
    rw [htimer, hcounter]
    decide
  rw [pollExpired, if_neg (by simp [henabled])] at hs
  have hafter := (rounds_timers (List.nodup_finRange 3) hs).2 0 (List.mem_finRange 0) hfires
  rw [afterFire_of_hangs hhangs] at hafter
  cases hafter

end Board
end NodeVmm.Whp
