import Mathlib.Data.Nat.Bitwise
import NodeVmm.HvfMmio

/-! The emulated loads and stores against the architecture. Register 31 of a data transfer is the zero
    register, and a 32-bit target clears the upper half of its register. The code takes register 31 for the
    program counter and never looks at the target's size, so it conforms only where neither shows. -/

namespace NodeVmm.Hvf

/-! ### What the instruction does -/

/-- Bit 15 of the syndrome: the target register is a 64-bit one. --/
def esrSF (esr : UInt64) : Bool := ((esr >>> 15) &&& 1) != 0

/-- `Xt` as a source: register 31 reads as zero. --/
def Regs.xt (r : Regs) (t : Nat) : UInt64 := if h : t < 31 then r.x ⟨t, h⟩ else 0

/-- The number that the device's first `len` bytes make, little-endian. --/
def deviceValue (data : List UInt8) : Nat → Nat
  | 0 => 0
  | n + 1 => deviceValue data n + (data.getD n 0).toNat * 2 ^ (8 * n)

/-- The device's value as 64 bits: extended by zeros, or by its sign. --/
def extended (esr : UInt64) (data : List UInt8) : Nat :=
  if esrSSE esr = true ∧ 2 ^ (8 * accessLen esr - 1) ≤ deviceValue data (accessLen esr) then
    deviceValue data (accessLen esr) + (2 ^ 64 - 2 ^ (8 * accessLen esr))
  else deviceValue data (accessLen esr)

/-- The value of `Xt` after a load. --/
def loaded (esr : UInt64) (data : List UInt8) : UInt64 :=
  UInt64.ofNat (if esrSF esr then extended esr data else extended esr data % 2 ^ 32)

/-- The access that the instruction makes: a store passes the low bytes of `Xt`. --/
def archAccess (esr ipa : UInt64) (r : Regs) : Access where
  ipa := ipa
  isWrite := esrWnR esr
  data :=
    if esrWnR esr then (List.range 8).map fun i =>
      if i < accessLen esr then UInt8.ofNat ((r.xt (esrSRT esr)).toNat / 2 ^ (8 * i)) else 0
    else List.replicate 8 0
  len := accessLen esr

/-- The registers after the instruction: the program counter moves on, and a load changes `Xt`. --/
def archRegs (esr : UInt64) (data : List UInt8) (r : Regs) : Regs where
  x := fun i => if esrWnR esr = false ∧ i.val = esrSRT esr then loaded esr data else r.x i
  pc := r.pc + 4

/-- A data abort did what the instruction does, with a device that leaves `data` behind. --/
def Conforms (esr ipa : UInt64) (data : List UInt8) (r : Regs) (result : AbortResult) : Prop :=
  result.access = some (archAccess esr ipa r) ∧ result.regs = .ok (archRegs esr data r)

/-- Neither slip shows: a store from register 31 finds the low bytes of the program counter zero, and a load
    into a 32-bit register extends to a number of 32 bits. --/
structure Plain (esr : UInt64) (data : List UInt8) (r : Regs) : Prop where
  store : esrWnR esr = true → esrSRT esr = 31 → r.pc.toNat % 2 ^ (8 * accessLen esr) = 0
  load : esrWnR esr = false → esrSF esr = false → esrSRT esr ≠ 31 →
    deviceValue data (accessLen esr) < 2 ^ 32 ∧
      (esrSSE esr = true → deviceValue data (accessLen esr) < 2 ^ (8 * accessLen esr - 1))

/-! ### Fields -/

theorem esrSRT_lt (esr : UInt64) : esrSRT esr < 32 := by
  unfold esrSRT
  rw [UInt64.toNat_and]
  exact Nat.lt_of_le_of_lt Nat.and_le_right (by decide)

/-- An access has 1, 2, 4 or 8 bytes. --/
theorem accessLen_cases (esr : UInt64) :
    accessLen esr = 1 ∨ accessLen esr = 2 ∨ accessLen esr = 4 ∨ accessLen esr = 8 := by
  have hlt : esrSAS esr < 4 := by
    unfold esrSAS
    rw [UInt64.toNat_and]
    exact Nat.lt_of_le_of_lt Nat.and_le_right (by decide)
  unfold accessLen
  generalize esrSAS esr = n at hlt
  rcases n with _ | _ | _ | _ | n
  · exact Or.inl rfl
  · exact Or.inr (Or.inl rfl)
  · exact Or.inr (Or.inr (Or.inl rfl))
  · exact Or.inr (Or.inr (Or.inr rfl))
  · omega

theorem accessLen_le (esr : UInt64) : accessLen esr ≤ 8 := by
  rcases accessLen_cases esr with h | h | h | h <;> omega

theorem accessLen_pos (esr : UInt64) : 0 < accessLen esr := by
  rcases accessLen_cases esr with h | h | h | h <;> omega

/-! ### Bytes -/

theorem deviceValue_lt (data : List UInt8) : ∀ n, deviceValue data n < 2 ^ (8 * n)
  | 0 => by simp [deviceValue]
  | n + 1 => by
    have ih := deviceValue_lt data n
    have hb := (data.getD n 0).toNat_lt
    have hpow : 2 ^ (8 * (n + 1)) = 256 * 2 ^ (8 * n) := by
      rw [Nat.mul_succ, Nat.pow_add, Nat.mul_comm]
    have hmul : (data.getD n 0).toNat * 2 ^ (8 * n) ≤ 255 * 2 ^ (8 * n) := Nat.mul_le_mul_right _ (by omega)
    rw [deviceValue, hpow]
    omega

theorem toNat_shiftRight_mul {v : UInt64} {i : Nat} (hi : i < 8) :
    (v >>> UInt64.ofNat (8 * i)).toNat = v.toNat / 2 ^ (8 * i) := by
  have h1 : (UInt64.ofNat (8 * i)).toNat = 8 * i := by
    rw [UInt64.toNat_ofNat']
    omega
  have h2 : 8 * i % 64 = 8 * i := by omega
  rw [UInt64.toNat_shiftRight, h1, h2, Nat.shiftRight_eq_div_pow]

/-- The loop's value is the number that the bytes make. --/
theorem toNat_loadBytes (data : List UInt8) : ∀ {n : Nat}, n ≤ 8 → (loadBytes data n).toNat = deviceValue data n
  | 0, _ => rfl
  | n + 1, hn => by
    have ih := toNat_loadBytes data (Nat.le_of_succ_le hn)
    have hlt := deviceValue_lt data n
    have hstep : loadBytes data (n + 1) =
        loadBytes data n ||| ((data.getD n 0).toUInt64 <<< UInt64.ofNat (8 * n)) := by
      unfold loadBytes
      rw [Nat.min_eq_left hn, Nat.min_eq_left (Nat.le_of_succ_le hn), List.range_succ, List.foldl_append]
      rfl
    have h1 : (UInt64.ofNat (8 * n)).toNat = 8 * n := by
      rw [UInt64.toNat_ofNat']
      omega
    have h2 : 8 * n % 64 = 8 * n := by omega
    have hshift : ((data.getD n 0).toUInt64 <<< UInt64.ofNat (8 * n)).toNat = (data.getD n 0).toNat <<< (8 * n) := by
      have hb := (data.getD n 0).toNat_lt
      have hle : 2 ^ (8 * n) ≤ 2 ^ 56 := Nat.pow_le_pow_right (by decide) (by omega)
      have hmul : (data.getD n 0).toNat * 2 ^ (8 * n) ≤ 255 * 2 ^ 56 := Nat.mul_le_mul (by omega) hle
      rw [UInt64.toNat_shiftLeft, h1, h2, UInt8.toNat_toUInt64, Nat.shiftLeft_eq]
      exact Nat.mod_eq_of_lt (by omega)
    rw [hstep, UInt64.toNat_or, ih, hshift, Nat.or_comm, ← Nat.shiftLeft_add_eq_or_of_lt hlt, Nat.shiftLeft_eq,
      deviceValue, Nat.add_comm]

/-! ### Sign extension -/

theorem testBit_top {v n : Nat} (hn : 0 < n) (hv : v < 2 ^ n) : v.testBit (n - 1) = decide (2 ^ (n - 1) ≤ v) := by
  have hpow : 2 ^ n = 2 * 2 ^ (n - 1) := by
    rw [← Nat.pow_succ', Nat.succ_eq_add_one, Nat.sub_add_cancel hn]
  by_cases h : 2 ^ (n - 1) ≤ v
  · rw [Nat.testBit_of_two_pow_le_and_two_pow_add_one_gt h (by rw [Nat.sub_add_cancel hn]; exact hv)]
    simp [h]
  · rw [Nat.testBit_lt_two_pow (by omega)]
    simp [h]

/-- The mask above the low `n` bytes, and the sign bit below it. --/
theorem signMask {n : Nat} (hn : n = 1 ∨ n = 2 ∨ n = 4 ∨ n = 8) :
    ((1 : UInt64) <<< UInt64.ofNat (8 * n - 1)).toNat = 2 ^ (8 * n - 1) ∧
    (~~~((((1 : UInt64) <<< UInt64.ofNat (8 * n - 1)) <<< 1) - 1)).toNat = (2 ^ (64 - 8 * n) - 1) <<< (8 * n) := by
  rcases hn with rfl | rfl | rfl | rfl <;> decide

theorem toNat_signExtend {v : UInt64} {n : Nat} (hn : n = 1 ∨ n = 2 ∨ n = 4 ∨ n = 8) (hv : v.toNat < 2 ^ (8 * n)) :
    (signExtend v n).toNat = if 2 ^ (8 * n - 1) ≤ v.toNat then v.toNat + (2 ^ 64 - 2 ^ (8 * n)) else v.toNat := by
  obtain ⟨hbit, hmask⟩ := signMask hn
  have hpos : 0 < 8 * n := by omega
  have hand : ((v &&& ((1 : UInt64) <<< UInt64.ofNat (8 * n - 1))) != 0) = decide (2 ^ (8 * n - 1) ≤ v.toNat) := by
    rw [← testBit_top hpos hv, bne, Bool.eq_iff_iff, Bool.not_eq_true', beq_eq_false_iff_ne, ne_eq,
      ← UInt64.toNat_inj, UInt64.toNat_and, hbit, Nat.and_two_pow]
    cases v.toNat.testBit (8 * n - 1) <;> simp
  unfold signExtend
  dsimp only
  rw [hand]
  by_cases h : 2 ^ (8 * n - 1) ≤ v.toNat
  · have hsum : 2 ^ (64 - 8 * n) * 2 ^ (8 * n) = 2 ^ 64 := by
      rw [← Nat.pow_add]
      congr 1
      omega
    rw [decide_eq_true h, if_pos rfl, if_pos h, UInt64.toNat_or, hmask, Nat.or_comm, ← Nat.shiftLeft_add_eq_or_of_lt hv,
      Nat.shiftLeft_eq, Nat.sub_mul, hsum]
    omega
  · rw [decide_eq_false h, if_neg Bool.false_ne_true, if_neg h]

/-- The value that a load stores, whatever the size of its target. --/
theorem toNat_load (esr : UInt64) (data : List UInt8) :
    (if esrSSE esr = true then signExtend (loadBytes data (accessLen esr)) (accessLen esr)
      else loadBytes data (accessLen esr)).toNat = extended esr data := by
  have hload := toNat_loadBytes data (accessLen_le esr)
  have hlt : (loadBytes data (accessLen esr)).toNat < 2 ^ (8 * accessLen esr) := hload ▸ deviceValue_lt data _
  unfold extended
  by_cases hs : esrSSE esr = true
  · rw [if_pos hs, toNat_signExtend (accessLen_cases esr) hlt, hload]
    by_cases h : 2 ^ (8 * accessLen esr - 1) ≤ deviceValue data (accessLen esr)
    · rw [if_pos h, if_pos ⟨hs, h⟩]
    · rw [if_neg h, if_neg fun h' => h h'.2]
  · rw [if_neg hs, if_neg fun h' => hs h'.1, hload]

/-! ### Stores -/

/-- Numbers agree below `2 ^ (8 * n)` when their low `n` bytes do. --/
theorem mod_eq_iff_bytes {v w : Nat} : ∀ {n : Nat}, v % 2 ^ (8 * n) = w % 2 ^ (8 * n) ↔
    ∀ i < n, v / 2 ^ (8 * i) % 256 = w / 2 ^ (8 * i) % 256
  | 0 => by simp [Nat.mod_one]
  | n + 1 => by
    have ih := mod_eq_iff_bytes (v := v) (w := w) (n := n)
    have hsplit : ∀ x, x % 2 ^ (8 * (n + 1)) = x % 2 ^ (8 * n) + 2 ^ (8 * n) * (x / 2 ^ (8 * n) % 256) := fun x => by
      rw [Nat.mul_succ, Nat.pow_add]
      exact Nat.mod_mul
    have hv : v % 2 ^ (8 * n) < 2 ^ (8 * n) := Nat.mod_lt _ (Nat.two_pow_pos _)
    have hw : w % 2 ^ (8 * n) < 2 ^ (8 * n) := Nat.mod_lt _ (Nat.two_pow_pos _)
    rw [hsplit, hsplit, Nat.forall_lt_succ_right, ← ih]
    constructor
    · intro h
      have hmod := congrArg (· % 2 ^ (8 * n)) h
      simp only [Nat.add_mul_mod_self_left, Nat.mod_mod] at hmod
      refine ⟨hmod, Nat.eq_of_mul_eq_mul_left (Nat.two_pow_pos (8 * n)) ?_⟩
      omega
    · rintro ⟨h1, h2⟩
      rw [h1, h2]

/-- Two sources pass the same bytes when their low bytes are equal. --/
theorem storeBytes_eq_iff {v w : UInt64} {n : Nat} (hn : n ≤ 8) :
    (storeBytes v n = (List.range 8).map fun i => if i < n then UInt8.ofNat (w.toNat / 2 ^ (8 * i)) else 0) ↔
      v.toNat % 2 ^ (8 * n) = w.toNat % 2 ^ (8 * n) := by
  have hbyte : ∀ i < 8, ((v >>> UInt64.ofNat (8 * i)).toUInt8 = UInt8.ofNat (w.toNat / 2 ^ (8 * i)) ↔
      v.toNat / 2 ^ (8 * i) % 256 = w.toNat / 2 ^ (8 * i) % 256) := fun i hi => by
    rw [← UInt8.toNat_inj, UInt64.toNat_toUInt8, toNat_shiftRight_mul hi, UInt8.toNat_ofNat']
  rw [mod_eq_iff_bytes, storeBytes, List.map_inj_left]
  constructor
  · intro h i hi
    have := h i (List.mem_range.mpr (Nat.lt_of_lt_of_le hi hn))
    rw [if_pos hi, if_pos hi] at this
    exact (hbyte i (Nat.lt_of_lt_of_le hi hn)).mp this
  · intro h i hi
    by_cases hlt : i < n
    · rw [if_pos hlt, if_pos hlt]
      exact (hbyte i (List.mem_range.mp hi)).mpr (h i hlt)
    · rw [if_neg hlt, if_neg hlt]

/-- The access is the instruction's unless a store takes the program counter for the zero register. --/
theorem access_iff {esr ipa : UInt64} {r : Regs} : abortAccess esr ipa r = archAccess esr ipa r ↔
    (esrWnR esr = true → esrSRT esr = 31 → r.pc.toNat % 2 ^ (8 * accessLen esr) = 0) := by
  have hlt := esrSRT_lt esr
  cases hw : esrWnR esr with
  | false => simp [abortAccess, archAccess, hw]
  | true =>
    have hdata : abortAccess esr ipa r = archAccess esr ipa r ↔
        (r.get (esrSRT esr)).toNat % 2 ^ (8 * accessLen esr) = (r.xt (esrSRT esr)).toNat % 2 ^ (8 * accessLen esr) := by
      rw [← storeBytes_eq_iff (accessLen_le esr)]
      simp [abortAccess, archAccess, hw]
    rw [hdata]
    unfold Regs.get Regs.xt
    by_cases h31 : esrSRT esr < 31
    · simp only [dif_pos h31, true_iff]
      omega
    · have heq : esrSRT esr = 31 := by omega
      simp only [heq, forall_const]
      exact Iff.rfl

/-! ### Loads -/

theorem set_pc_eq {r : Regs} {v : UInt64} : r.set 31 v = { r with pc := v } := rfl

/-- The registers are the instruction's unless a load leaves more than 32 bits in a 32-bit target. --/
theorem regs_iff {esr : UInt64} {data : List UInt8} {r : Regs} :
    ((if esrWnR esr = true then r else r.set (esrSRT esr)
        (if esrSSE esr = true then signExtend (loadBytes data (accessLen esr)) (accessLen esr)
          else loadBytes data (accessLen esr))).set 31 (r.pc + 4) = archRegs esr data r) ↔
      (esrWnR esr = false → esrSF esr = false → esrSRT esr ≠ 31 → extended esr data < 2 ^ 32) := by
  have hlt := esrSRT_lt esr
  generalize hv : (if esrSSE esr = true then signExtend (loadBytes data (accessLen esr)) (accessLen esr)
    else loadBytes data (accessLen esr)) = v
  have hval : v.toNat = extended esr data := hv ▸ toNat_load esr data
  cases hw : esrWnR esr with
  | true => simp [set_pc_eq, archRegs, hw]
  | false =>
    by_cases h31 : esrSRT esr < 31
    · have hcode : ((r.set (esrSRT esr) v).set 31 (r.pc + 4)) =
          ⟨fun i => if i = ⟨esrSRT esr, h31⟩ then v else r.x i, r.pc + 4⟩ := by
        rw [set_pc_eq, Regs.set, dif_pos h31]
      have hloaded : v = loaded esr data ↔ (esrSF esr = false → extended esr data < 2 ^ 32) := by
        have hext := v.toNat_lt
        rw [hval] at hext
        unfold loaded
        rw [← UInt64.toNat_inj, hval, UInt64.toNat_ofNat']
        cases hsf : esrSF esr with
        | true => simp [Nat.mod_eq_of_lt hext]
        | false =>
          simp only [Bool.false_eq_true, if_false, forall_const]
          omega
      have hne : esrSRT esr ≠ 31 := by omega
      simp only [Bool.false_eq_true, if_false, hcode, forall_const, hne, ne_eq, not_false_eq_true]
      rw [← hloaded]
      constructor
      · intro h
        have := congrFun (congrArg Regs.x h) ⟨esrSRT esr, h31⟩
        simpa [archRegs, hw] using this
      · intro h
        unfold archRegs
        rw [h]
        congr 1
        funext i
        by_cases hi : i = ⟨esrSRT esr, h31⟩
        · rw [if_pos hi, if_pos ⟨hw, congrArg Fin.val hi⟩]
        · rw [if_neg hi, if_neg fun hi' => hi (Fin.ext hi'.2)]
    · have heq : esrSRT esr = 31 := by omega
      have hx : (fun i : Fin 31 => if esrWnR esr = false ∧ i.val = esrSRT esr then loaded esr data else r.x i) = r.x := by
        funext i
        exact if_neg fun hi => by have := i.isLt; omega
      simp only [heq, ne_eq, not_true_eq_false, false_implies, implies_true, iff_true, Bool.false_eq_true, if_false]
      unfold archRegs
      rw [hx]
      rfl

/-- Extending a value leaves a number of 32 bits when the value is one and its sign bit does not count. --/
theorem extended_lt_iff {esr : UInt64} {data : List UInt8} : extended esr data < 2 ^ 32 ↔
    deviceValue data (accessLen esr) < 2 ^ 32 ∧
      (esrSSE esr = true → deviceValue data (accessLen esr) < 2 ^ (8 * accessLen esr - 1)) := by
  have hlt := deviceValue_lt data (accessLen esr)
  unfold extended
  by_cases h : esrSSE esr = true ∧ 2 ^ (8 * accessLen esr - 1) ≤ deviceValue data (accessLen esr)
  · rw [if_pos h]
    constructor
    · intro hsmall
      rcases accessLen_cases esr with hl | hl | hl | hl <;> rw [hl] at hsmall h <;> omega
    · rintro ⟨-, hs⟩
      have := hs h.1
      omega
  · rw [if_neg h]
    refine ⟨fun hsmall => ⟨hsmall, fun hs => Nat.lt_of_not_le fun hle => h ⟨hs, hle⟩⟩, fun hsmall => hsmall.1⟩

/-! ### The instruction -/

/-- A handled data abort with a valid syndrome does what the instruction does exactly when neither slip
    shows. --/
theorem conforms_iff_plain (dispatch : Dispatch) (esr ipa : UInt64) (r : Regs) (data : List UInt8)
    (hec : esrEC esr = 0x24) (hisv : esrISV esr = true) (hdata : dispatch (abortAccess esr ipa r) = some data) :
    Conforms esr ipa data r (dataAbort dispatch esr ipa r) ↔ Plain esr data r := by
  have hresult : dataAbort dispatch esr ipa r = ⟨some (abortAccess esr ipa r),
      .ok ((if esrWnR esr = true then r else r.set (esrSRT esr)
        (if esrSSE esr = true then signExtend (loadBytes data (accessLen esr)) (accessLen esr)
          else loadBytes data (accessLen esr))).set 31 (r.pc + 4))⟩ := by
    unfold dataAbort
    rw [if_pos ⟨hec, hisv⟩, hdata]
  rw [hresult]
  unfold Conforms
  rw [Option.some.injEq, Except.ok.injEq, access_iff, regs_iff]
  constructor
  · rintro ⟨hstore, hload⟩
    exact ⟨hstore, fun hw hsf h31 => extended_lt_iff.mp (hload hw hsf h31)⟩
  · intro h
    exact ⟨h.store, fun hw hsf h31 => extended_lt_iff.mpr (h.load hw hsf h31)⟩

/-- The theorem on a load of 4 bytes into `W3`. --/
theorem conforms_word_load : Conforms 0x93830000 0x9000000 [1, 2, 3, 4, 0, 0, 0, 0] ⟨fun _ => 0, 0x40400000⟩
    (dataAbort (fun _ => some [1, 2, 3, 4, 0, 0, 0, 0]) 0x93830000 0x9000000 ⟨fun _ => 0, 0x40400000⟩) :=
  (conforms_iff_plain _ _ _ _ _ (by decide) (by decide) rfl).mpr ⟨by decide, by decide⟩

/-- A store of one byte from the zero register passes the low byte of the program counter. --/
theorem not_conforms_zero_register_store : ¬Conforms 0x911F0040 0x9000000 [0, 0, 0, 0, 0, 0, 0, 0]
    ⟨fun _ => 0, 0x40400004⟩
    (dataAbort (fun _ => some [0, 0, 0, 0, 0, 0, 0, 0]) 0x911F0040 0x9000000 ⟨fun _ => 0, 0x40400004⟩) := fun h =>
  absurd h.1 (by decide)

/-! ### System registers -/

/-- A trapped system register access changes at most its own general register, and register 31 is none. --/
theorem handleSystemRegisterTrap_others {micros syndrome : UInt64} {r r' : Regs}
    (h : handleSystemRegisterTrap micros syndrome r = some r') : r'.pc = r.pc ∧
      ∀ i : Fin 31, i.val ≠ ((syndrome >>> 5) &&& 0x1F).toNat → r'.x i = r.x i := by
  have hset : ∀ (t : Nat) (v : UInt64), (if t < 31 then r.set t v else r).pc = r.pc ∧
      ∀ i : Fin 31, i.val ≠ t → (if t < 31 then r.set t v else r).x i = r.x i := fun t v => by
    by_cases ht : t < 31
    · rw [if_pos ht, Regs.set, dif_pos ht]
      exact ⟨rfl, fun i hi => if_neg fun heq => hi (congrArg Fin.val heq)⟩
    · rw [if_neg ht]
      exact ⟨rfl, fun _ _ => rfl⟩
  unfold handleSystemRegisterTrap at h
  dsimp only at h
  split at h
  · split at h
    · cases h
      exact hset _ _
    · split at h
      · cases h
        exact hset _ _
      · cases h
  · split at h
    · cases h
      exact ⟨rfl, fun _ _ => rfl⟩
    · cases h

end NodeVmm.Hvf
