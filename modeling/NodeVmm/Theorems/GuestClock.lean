import Mathlib.Data.Nat.ModEq
import NodeVmm.GuestClock
import NodeVmm.Lib.Runs

/-! The clocks against the exact conversion of nanoseconds. The product of the elapsed time and the frequency is one of 64
    bits: once it wraps, the ticks that the wrap stands for are lost. -/

namespace NodeVmm.Whp

/-! ### Ticks -/

/-- The ticks of so many nanoseconds. --/
def exactTicks (hz elapsed : Nat) : Nat := elapsed * hz / 10 ^ 9

/-- The ticks that the wraps of the product stand for, with what its low 64 bits carry into them. --/
def lostTicks (hz elapsed : Nat) : Nat :=
  (elapsed * hz / 2 ^ 64 * 2 ^ 64 + elapsed * hz % 2 ^ 64 % 10 ^ 9) / 10 ^ 9

section
variable {hz : UInt64} {elapsed : Int}

theorem toNat_ticksOf : (ticksOf hz elapsed).toNat = elapsed.toNat * hz.toNat % 2 ^ 64 / 10 ^ 9 := by
  rw [ticksOf]
  split
  · rename_i hle
    rw [Int.toNat_of_nonpos hle, Nat.zero_mul]
    rfl
  · rw [UInt64.toNat_div, UInt64.toNat_mul, UInt64.toNat_ofNat', Nat.mod_mul_mod]
    rfl

/-- The exact ticks are those that are counted and those that are lost. --/
theorem exactTicks_eq :
    exactTicks hz.toNat elapsed.toNat = (ticksOf hz elapsed).toNat + lostTicks hz.toNat elapsed.toNat := by
  rw [toNat_ticksOf, exactTicks, lostTicks]
  omega

theorem lostTicks_eq_zero {hz elapsed : Nat} (h : elapsed * hz < 2 ^ 64) : lostTicks hz elapsed = 0 := by
  rw [lostTicks, Nat.div_eq_of_lt h]
  omega

end

/-! ### The PIT -/

namespace PitChannel
variable {c : PitChannel} {now : Int} {value : UInt8}

def rate (c : PitChannel) : Prop := c.mode = 2 ∨ c.mode = 3

instance : Decidable c.rate := inferInstanceAs (Decidable (_ ∨ _))

/-- The counter goes round after so many ticks. --/
def period (c : PitChannel) : Nat := if c.rate then c.divisor.toNat else 65536

/-- The counter after so many ticks: it is reloaded in the modes 2 and 3, and goes on below 0 in the others. --/
def countAfter (c : PitChannel) (ticks : Nat) : Nat :=
  if c.rate then (c.divisor.toNat - ticks % c.divisor.toNat) % 65536
  else (((c.divisor.toNat : Int) - ticks) % 65536).toNat

theorem divisor_bounds : 0 < c.divisor.toNat ∧ c.divisor.toNat ≤ 65536 := by
  rw [divisor]
  split
  · decide
  · rename_i hne
    have hlt := c.reload.toNat_lt
    have hpos : c.reload.toNat ≠ 0 := fun h => hne (UInt16.toNat_inj.mp h)
    rw [UInt16.toNat_toUInt32]
    omega

theorem low16 (w : UInt32) : (w &&& 0xFFFF).toNat = w.toNat % 65536 := by
  rw [UInt32.toNat_and]
  exact Nat.and_two_pow_sub_one_eq_mod w.toNat 16

theorem toNat_currentCount : (c.currentCount now).toNat = c.countAfter (ticksOf pitHz (now - c.start)).toNat := by
  obtain ⟨hpos, hle⟩ := c.divisor_bounds
  rw [currentCount, countAfter]
  simp only [UInt32.toNat_toUInt16, low16]
  by_cases hrate : c.rate
  · have hmod : (ticksOf pitHz (now - c.start)).toNat % c.divisor.toNat < c.divisor.toNat := Nat.mod_lt _ hpos
    rw [if_pos hrate, if_pos (show c.mode = 2 ∨ c.mode = 3 from hrate), UInt32.toNat_sub, UInt64.toNat_toUInt32,
      UInt64.toNat_mod, UInt32.toNat_toUInt64]
    omega
  · rw [if_neg hrate, if_neg (show ¬(c.mode = 2 ∨ c.mode = 3) from hrate), low16, UInt32.toNat_sub, UInt64.toNat_toUInt32]
    omega

/-- Two numbers of ticks leave the same count when they differ by whole periods. --/
theorem countAfter_add_iff {ticks more : Nat} : c.countAfter ticks = c.countAfter (ticks + more) ↔ more % c.period = 0 := by
  obtain ⟨hpos, hle⟩ := c.divisor_bounds
  rw [countAfter, countAfter, period]
  by_cases hrate : c.rate
  · have hsame : ticks % c.divisor.toNat = (ticks + more) % c.divisor.toNat ↔ more % c.divisor.toNat = 0 := by
      rw [← Nat.dvd_iff_mod_eq_zero]
      exact (Nat.modEq_iff_dvd' (Nat.le_add_right _ _)).trans (by rw [Nat.add_sub_cancel_left])
    have h₁ : ticks % c.divisor.toNat < c.divisor.toNat := Nat.mod_lt _ hpos
    have h₂ : (ticks + more) % c.divisor.toNat < c.divisor.toNat := Nat.mod_lt _ hpos
    rw [if_pos hrate, if_pos hrate, if_pos hrate, ← hsame]
    omega
  · rw [if_neg hrate, if_neg hrate, if_neg hrate]
    omega

/-- The count is the exact one when the lost ticks are whole periods. --/
theorem currentCount_iff :
    (c.currentCount now).toNat = c.countAfter (exactTicks 1193182 (now - c.start).toNat) ↔
      lostTicks 1193182 (now - c.start).toNat % c.period = 0 := by
  have hexact : exactTicks 1193182 (now - c.start).toNat = _ := @exactTicks_eq pitHz (now - c.start)
  rw [toNat_currentCount, hexact]
  exact countAfter_add_iff

end PitChannel

namespace Pit
open PitChannel
variable {p p' : Pit} {e : Event} {es : List Event} {now t : Int}

/-- The event does not program channel 2: it reads, writes to another channel, latches the count, or leaves the gate as it is. --/
def Spares (p : Pit) : Event → Prop
  | .readPort _ _ => True
  | .writePort _ port value =>
    if port = 0x43 then channelOf value = some (Fin.last 2) → (value >>> 4) &&& 0x03 = 0
    else channelAt port ≠ some (Fin.last 2)
  | .setGate _ gated => gated = p.channel2Gated

instance (p : Pit) (e : Event) : Decidable (Spares p e) := by
  unfold Spares
  split <;> infer_instance

/-- The output stays high once it is high, at all times up to `t`, through events that do not program the channel. --/
def StaysHigh (p : Pit) (t : Int) : Prop := ∀ es p' t₁ t₂, Runs.Under (fun p e => some (p.step e)) Spares p es p' →
  t₁ ≤ t₂ → t₂ ≤ t → p.channel2OutHigh t₁ = true → p'.channel2OutHigh t₂ = true

/-- What the output depends on. --/
structure SameProgram (p p' : Pit) : Prop where
  gated : p'.channel2Gated = p.channel2Gated
  start : (p'.channels 2).start = (p.channels 2).start
  reload : (p'.channels 2).reload = (p.channels 2).reload

namespace SameProgram

theorem refl (p : Pit) : SameProgram p p := ⟨rfl, rfl, rfl⟩

theorem trans {p₁ p₂ p₃ : Pit} (h₁ : SameProgram p₁ p₂) (h₂ : SameProgram p₂ p₃) : SameProgram p₁ p₃ :=
  ⟨h₂.gated.trans h₁.gated, h₂.start.trans h₁.start, h₂.reload.trans h₁.reload⟩

theorem updateChannel {i : ChannelId} {c : PitChannel}
    (h : i = 2 → c.start = (p.channels i).start ∧ c.reload = (p.channels i).reload) : SameProgram p (p.updateChannel i c) := by
  by_cases hi : i = 2
  · obtain ⟨hstart, hreload⟩ := h hi
    subst hi
    have hself : (p.updateChannel 2 c).channels 2 = c := by simp [Pit.updateChannel]
    exact ⟨rfl, by rw [hself, hstart], by rw [hself, hreload]⟩
  · have hother : (p.updateChannel i c).channels 2 = p.channels 2 := by simp [Pit.updateChannel, Ne.symm hi]
    exact ⟨rfl, by rw [hother], by rw [hother]⟩

end SameProgram

theorem readChannel_program {c : PitChannel} :
    (c.readChannel now).2.start = c.start ∧ (c.readChannel now).2.reload = c.reload := by
  unfold readChannel
  split_ifs <;> exact ⟨rfl, rfl⟩

theorem command_program {c : PitChannel} {value : UInt8} :
    (c.command now value).start = c.start ∧ (c.command now value).reload = c.reload := by
  rw [command]
  split_ifs <;> exact ⟨rfl, rfl⟩

theorem step_program (he : Spares p e) : SameProgram p (p.step e) := by
  cases e with
  | readPort now port =>
    rw [step, readPort]
    split
    · exact .refl p
    · exact .updateChannel fun _ => readChannel_program
  | writePort now port value =>
    rw [step, writePort]
    rw [Spares] at he
    split
    · split
      · exact .refl p
      · exact .updateChannel fun _ => command_program
    · rename_i hport
      rw [if_neg hport] at he
      split
      · exact .refl p
      · rename_i i hi
        refine .updateChannel fun htwo => ?_
        subst htwo
        exact absurd hi he
  | setGate now gated =>
    obtain rfl : gated = p.channel2Gated := he
    have hkeep : ¬(p.channel2Gated = true ∧ ¬p.channel2Gated = true) := fun h => h.2 h.1
    rw [step, setChannel2Gate, if_neg hkeep]
    exact ⟨rfl, rfl, rfl⟩

theorem run_program (h : Runs.Under (fun p e => some (p.step e)) Spares p es p') : SameProgram p p' :=
  h.invariant (fun _ _ _ hp he hstep => hp.trans (Option.some.inj hstep ▸ step_program he)) (.refl p)

theorem channel2OutHigh_iff : p.channel2OutHigh now = true ↔
    p.channel2Gated = true ∧ (p.channels 2).divisor.toNat ≤ (ticksOf pitHz (now - (p.channels 2).start)).toNat := by
  have hpos := (p.channels 2).divisor_bounds.1
  rw [channel2OutHigh]
  cases p.channel2Gated with
  | false => simp
  | true =>
    by_cases hle : now - (p.channels 2).start ≤ 0
    · have hzero : (ticksOf pitHz (now - (p.channels 2).start)).toNat = 0 := by
        rw [ticksOf, if_pos hle]
        rfl
      rw [hzero]
      simp [hle]
      omega
    · simp only [not_true_eq_false, if_false, if_neg hle, true_and, decide_eq_true_eq, UInt64.le_iff_toNat_le,
        UInt32.toNat_toUInt64]

/-- The output stays high as long as the product does not wrap. --/
theorem staysHigh_iff : p.StaysHigh t ↔
    (p.channel2Gated = true → (t - (p.channels 2).start).toNat * 1193182 < 2 ^ 64) := by
  have hhz : pitHz.toNat = 1193182 := rfl
  obtain ⟨hpos, hle⟩ := (p.channels 2).divisor_bounds
  constructor
  · intro hstays hgated
    by_contra hwraps
    -- The last time before the product wraps, and the next one.
    have hlast := hstays [] p ((p.channels 2).start + 15460126010708) ((p.channels 2).start + 15460126010709) .nil
      (by omega) (by omega)
    simp only [channel2OutHigh_iff, toNat_ticksOf, hgated, hhz, true_and] at hlast
    omega
  · intro hfits es p' t₁ t₂ hrun h₁ h₂ hhigh
    obtain ⟨hgated, hstart, hreload⟩ := run_program hrun
    have hdivisor : (p'.channels 2).divisor = (p.channels 2).divisor := by rw [divisor, divisor, hreload]
    rw [channel2OutHigh_iff, toNat_ticksOf, hhz] at hhigh ⊢
    rw [hgated, hstart, hdivisor]
    have hbound := hfits hhigh.1
    refine ⟨hhigh.1, hhigh.2.trans ?_⟩
    have hfirst : (t₁ - (p.channels 2).start).toNat ≤ (t₂ - (p.channels 2).start).toNat := Int.toNat_le_toNat (by omega)
    have hsecond : (t₂ - (p.channels 2).start).toNat ≤ (t - (p.channels 2).start).toNat := Int.toNat_le_toNat (by omega)
    have hfits₂ := lt_of_le_of_lt (Nat.mul_le_mul_right 1193182 hsecond) hbound
    have hmono := Nat.mul_le_mul_right 1193182 hfirst
    rw [Nat.mod_eq_of_lt (lt_of_le_of_lt hmono hfits₂), Nat.mod_eq_of_lt hfits₂]
    exact Nat.div_le_div_right hmono

end Pit

/-! ### The ACPI PM timer -/

namespace AcpiPmTimer
variable {timer : AcpiPmTimer} {now t₁ t₂ : Int}

/-- The ticks since the start. --/
def elapsedTicks (timer : AcpiPmTimer) (now : Int) : Nat := exactTicks 3579545 (now - timer.startedAt).toNat

/-- The counter, read at both times, is the exact one modulo 2^32, and has advanced by the ticks between them. --/
structure Reads (timer : AcpiPmTimer) (t₁ t₂ : Int) : Prop where
  first : timer.read t₁ port 4 = UInt32.ofNat (timer.elapsedTicks t₁)
  second : timer.read t₂ port 4 = UInt32.ofNat (timer.elapsedTicks t₂)
  advance : timer.read t₂ port 4 - timer.read t₁ port 4 = UInt32.ofNat (timer.elapsedTicks t₂ - timer.elapsedTicks t₁)

theorem read_port : timer.read now port 4 = timer.counter now := by
  rw [read, if_neg (by decide)]
  exact UInt32.toNat_inj.mp (by simp)

/-- What the wraps stand for is less than 2^32 from a multiple of 10^9 * 2^32, so it is one; and 5^9 divides the number of
    wraps only if there is none. --/
theorem no_wraps {product m : Nat} (h : (product / 2 ^ 64 * 2 ^ 64 + product % 2 ^ 64 % 10 ^ 9) / 10 ^ 9 = 2 ^ 32 * m)
    (hfew : product / 2 ^ 64 < 5 ^ 9) : product / 2 ^ 64 = 0 := by
  have heq : product / 2 ^ 64 * 2 ^ 32 = m * 2 ^ 9 * 5 ^ 9 := by omega
  have hcoprime : Nat.Coprime (5 ^ 9) (2 ^ 32) := Nat.Coprime.pow 9 32 (by decide)
  have hdvd : 5 ^ 9 ∣ product / 2 ^ 64 := hcoprime.dvd_of_dvd_mul_right (Dvd.intro_left _ heq.symm)
  exact Nat.eq_zero_of_dvd_of_lt hdvd hfew

/-- Up to 2^63 ns, the ticks that are lost are never a multiple of 2^32. --/
theorem lostTicks_mod {elapsed : Nat} (h : elapsed < 2 ^ 63) :
    lostTicks 3579545 elapsed % 2 ^ 32 = 0 ↔ elapsed * 3579545 < 2 ^ 64 := by
  obtain ⟨product, hproduct⟩ : ∃ product, product = elapsed * 3579545 := ⟨_, rfl⟩
  constructor
  · intro hlost
    obtain ⟨m, hm⟩ := Nat.dvd_of_mod_eq_zero hlost
    rw [lostTicks, ← hproduct] at hm
    have hzero := no_wraps hm (by omega)
    omega
  · intro hfits
    rw [lostTicks_eq_zero hfits, Nat.zero_mod]

theorem counter_iff (h : now - timer.startedAt < 2 ^ 63) :
    timer.read now port 4 = UInt32.ofNat (timer.elapsedTicks now) ↔ (now - timer.startedAt).toNat * 3579545 < 2 ^ 64 := by
  have hexact : timer.elapsedTicks now = _ := @exactTicks_eq pmTimerHz (now - timer.startedAt)
  have hhz : pmTimerHz.toNat = 3579545 := rfl
  rw [hhz] at hexact
  rw [← lostTicks_mod (by omega), read_port, counter, ← UInt32.toNat_inj, hexact, UInt64.toNat_toUInt32, UInt32.toNat_ofNat']
  omega

theorem reads_iff (hle : t₁ ≤ t₂) (h : t₂ - timer.startedAt < 2 ^ 63) :
    timer.Reads t₁ t₂ ↔ (t₂ - timer.startedAt).toNat * 3579545 < 2 ^ 64 := by
  refine ⟨fun hreads => (counter_iff h).mp hreads.second, fun hfits => ?_⟩
  have hmono : (t₁ - timer.startedAt).toNat ≤ (t₂ - timer.startedAt).toNat := Int.toNat_le_toNat (by omega)
  have hfirst : timer.read t₁ port 4 = UInt32.ofNat (timer.elapsedTicks t₁) := by
    rw [counter_iff (by omega)]
    exact lt_of_le_of_lt (Nat.mul_le_mul_right _ hmono) hfits
  have hsecond := (counter_iff h).mpr hfits
  have hle : timer.elapsedTicks t₁ ≤ timer.elapsedTicks t₂ := Nat.div_le_div_right (Nat.mul_le_mul_right _ hmono)
  refine ⟨hfirst, hsecond, ?_⟩
  rw [hfirst, hsecond, UInt32.ofNat_sub hle]

end AcpiPmTimer

/-- The clocks are exact when the wraps of the product lose no ticks, or whole periods of the counter. --/
theorem guest_clocks_exact (c : PitChannel) (p : Pit) (timer : AcpiPmTimer) (now t t₁ t₂ : Int) :
    ((c.currentCount now).toNat = c.countAfter (exactTicks 1193182 (now - c.start).toNat) ↔
      lostTicks 1193182 (now - c.start).toNat % c.period = 0) ∧
    (p.StaysHigh t ↔ (p.channel2Gated = true → (t - (p.channels 2).start).toNat * 1193182 < 2 ^ 64)) ∧
    (t₁ ≤ t₂ → t₂ - timer.startedAt < 2 ^ 63 →
      (timer.Reads t₁ t₂ ↔ (t₂ - timer.startedAt).toNat * 3579545 < 2 ^ 64)) :=
  ⟨PitChannel.currentCount_iff, Pit.staysHigh_iff, AcpiPmTimer.reads_iff⟩

/-- A PIT with its gate up, its channel 2 with the reload value 10 in mode 0, all started at 0. --/
def samplePit : Pit :=
  [Pit.Event.writePort 0 0x43 0xB0, .setGate 0 true, .writePort 0 0x42 0x0A, .writePort 0 0x42 0x00].foldl Pit.step (Pit.reset 0)

/-- An hour after the start. --/
theorem guest_clocks_exact_hour :
    ((samplePit.channels 2).currentCount 3600000000000).toNat = (samplePit.channels 2).countAfter 4295455200 ∧
    samplePit.StaysHigh 3600000000000 ∧ (AcpiPmTimer.mk 0).Reads 0 3600000000000 := by
  obtain ⟨hcount, hhigh, hreads⟩ :=
    guest_clocks_exact (samplePit.channels 2) samplePit (AcpiPmTimer.mk 0) 3600000000000 3600000000000 0 3600000000000
  refine ⟨hcount.mpr ?_, hhigh.mpr fun _ => ?_, (hreads ?_ ?_).mpr ?_⟩ <;> decide +kernel

/-- The first nanosecond at which the product has wrapped, after some four hours. --/
theorem clocks_wrap :
    ((samplePit.channels 2).currentCount 15460126010709).toNat ≠
      (samplePit.channels 2).countAfter (exactTicks 1193182 15460126010709) ∧
    ¬samplePit.StaysHigh 15460126010709 ∧ ¬(AcpiPmTimer.mk 0).Reads 0 15460126010709 := by
  refine ⟨by decide +kernel, ?_, ?_⟩
  · rw [Pit.staysHigh_iff]
    decide +kernel
  · rw [AcpiPmTimer.reads_iff (by decide) (by decide)]
    decide

end NodeVmm.Whp
