import Mathlib.Data.List.Induction
import NodeVmm.Lib.ByteStore
import NodeVmm.Lib.Words

/-! What many writes leave in a store of bytes: the bytes of each one, if no other write reaches into its range, and what was
    there before where none does. Also words of `n` bytes. -/

/-- Bytes to be written at an offset. --/
structure Patch where
  off : Nat
  bytes : List UInt8

namespace Patch

/-- The ranges of the two have no byte in common. --/
def Apart (p q : Patch) : Prop := p.off + p.bytes.length ≤ q.off ∨ q.off + q.bytes.length ≤ p.off

/-- The range of the patch is between two offsets. --/
def Inside (lo hi : Nat) (p : Patch) : Prop := lo ≤ p.off ∧ p.off + p.bytes.length ≤ hi

/-- The patch so many bytes further. --/
def shift (k : Nat) (p : Patch) : Patch := ⟨k + p.off, p.bytes⟩

theorem Apart.symm {p q : Patch} (h : p.Apart q) : q.Apart p := Or.symm h

theorem Inside.apart {p q : Patch} {a b c d : Nat} (hp : p.Inside a b) (hq : q.Inside c d) (h : b ≤ c ∨ d ≤ a) :
    p.Apart q := by
  simp only [Inside] at hp hq
  simp only [Apart]
  omega

/-- Patches one behind the other, between two offsets. --/
def Ordered (hi : Nat) : Nat → List Patch → Prop
  | lo, [] => lo ≤ hi
  | lo, p :: ps => lo ≤ p.off ∧ Ordered hi (p.off + p.bytes.length) ps

instance decidableOrdered (hi : Nat) : (lo : Nat) → (ps : List Patch) → Decidable (Ordered hi lo ps)
  | lo, [] => inferInstanceAs (Decidable (lo ≤ hi))
  | lo, p :: ps =>
    have := decidableOrdered hi (p.off + p.bytes.length) ps
    inferInstanceAs (Decidable (lo ≤ p.off ∧ Ordered hi (p.off + p.bytes.length) ps))

/-- No patch reaches into another one. --/
def Separate (ps : List Patch) : Prop := ∀ p ∈ ps, ∀ q ∈ ps, q = p ∨ q.Apart p

section
variable {p q : Patch} {ps qs : List Patch} {lo mid hi lo' hi' : Nat}

theorem Ordered.le (h : Ordered hi lo ps) : lo ≤ hi := by
  induction ps generalizing lo with
  | nil => exact h
  | cons p ps ih =>
    have hrest := ih h.2
    have hlo := h.1
    omega

theorem Ordered.inside (h : Ordered hi lo ps) (hp : p ∈ ps) : p.Inside lo hi := by
  induction ps generalizing lo with
  | nil => cases hp
  | cons q ps ih =>
    rcases List.mem_cons.mp hp with rfl | hrest
    · exact ⟨h.1, h.2.le⟩
    · have hin := ih h.2 hrest
      have hlo := h.1
      exact ⟨by have := hin.1; omega, hin.2⟩

theorem Ordered.apart (h : Ordered hi lo ps) (hp : p ∈ ps) (hq : q ∈ ps) : q = p ∨ q.Apart p := by
  induction ps generalizing lo with
  | nil => cases hp
  | cons r ps ih =>
    rcases List.mem_cons.mp hp with rfl | hrest <;> rcases List.mem_cons.mp hq with rfl | hrest'
    · exact Or.inl rfl
    · exact Or.inr (Or.inr (h.2.inside hrest').1)
    · exact Or.inr (Or.inl (h.2.inside hrest).1)
    · exact ih h.2 hrest hrest'

theorem Ordered.append (h : Ordered mid lo ps) (hqs : Ordered hi mid qs) : Ordered hi lo (ps ++ qs) := by
  induction ps generalizing lo with
  | nil =>
    cases qs with
    | nil => exact Nat.le_trans h hqs
    | cons q qs => exact ⟨Nat.le_trans h hqs.1, hqs.2⟩
  | cons p ps ih => exact ⟨h.1, ih h.2⟩

theorem Ordered.separate (h : Ordered hi lo ps) : Separate ps := fun _ hp _ hq => h.apart hp hq

theorem Separate.of_subset (h : Separate qs) (hsub : ∀ p ∈ ps, p ∈ qs) : Separate ps := fun p hp q hq =>
  h p (hsub p hp) q (hsub q hq)

/-- Patches between two offsets, none of which reaches into another one. --/
structure Block (lo hi : Nat) (ps : List Patch) : Prop where
  separate : Separate ps
  inside : ∀ p ∈ ps, p.Inside lo hi

theorem Ordered.block (h : Ordered hi lo ps) : Block lo hi ps := ⟨h.separate, fun _ hp => h.inside hp⟩

theorem Block.of_subset (h : Block lo hi qs) (hsub : ∀ p ∈ ps, p ∈ qs) : Block lo hi ps :=
  ⟨h.separate.of_subset hsub, fun p hp => h.inside p (hsub p hp)⟩

/-- Blocks one behind the other. --/
theorem Block.append (hps : Block lo mid ps) (hqs : Block lo' hi qs) (hle : lo ≤ lo') (hmid : mid ≤ lo') (hhi : mid ≤ hi) :
    Block lo hi (ps ++ qs) := by
  refine ⟨fun p hp q hq => ?_, List.forall_mem_append.mpr ⟨fun p hp => ?_, fun q hq => ?_⟩⟩
  · rcases List.mem_append.mp hp with hp | hp <;> rcases List.mem_append.mp hq with hq | hq
    · exact hps.separate p hp q hq
    · exact Or.inr ((hqs.inside q hq).apart (hps.inside p hp) (Or.inr hmid))
    · exact Or.inr ((hps.inside q hq).apart (hqs.inside p hp) (Or.inl hmid))
    · exact hqs.separate p hp q hq
  · exact ⟨(hps.inside p hp).1, Nat.le_trans (hps.inside p hp).2 hhi⟩
  · exact ⟨Nat.le_trans hle (hqs.inside q hq).1, (hqs.inside q hq).2⟩

end

end Patch

namespace ByteStore

/-- The store after the patches, one after the other. --/
def patch (s : ByteStore) (ps : List Patch) : ByteStore := ps.foldl (fun s p => s.write p.off p.bytes) s

/-- The word of `n` bytes at `off`. --/
def word (s : ByteStore) (off n : Nat) : Nat := Words.ofLe (s.read off n)

/-- The bytes of every patch are in the store. --/
def Holds (s : ByteStore) (ps : List Patch) : Prop :=
  ∀ p ∈ ps, s.read p.off p.bytes.length = p.bytes ∧ p.off + p.bytes.length ≤ s.size

section
variable {s t : ByteStore} {p : Patch} {ps qs : List Patch} {off n len i v lo hi : Nat} {bs : List UInt8} {K : Nat → Prop}

@[simp] theorem patch_nil : s.patch [] = s := rfl

theorem patch_append : s.patch (ps ++ qs) = (s.patch ps).patch qs := List.foldl_append

@[simp] theorem size_patch : (s.patch ps).size = s.size := by
  induction ps generalizing s with
  | nil => rfl
  | cons p ps ih => exact ih

/-- No patch is written over the byte. --/
theorem byte_patch (h : ∀ p ∈ ps, ¬Within p.off p.bytes.length i) : (s.patch ps).byte i = s.byte i := by
  induction ps generalizing s with
  | nil => rfl
  | cons p ps ih =>
    obtain ⟨hp, hps⟩ := List.forall_mem_cons.mp h
    exact (ih hps).trans (byte_write_of_not_within hp)

theorem read_patch_of_apart (h : ∀ p ∈ ps, p.Apart ⟨off, bs⟩) (hlen : bs.length = len) :
    (s.patch ps).read off len = s.read off len := by
  refine read_congr fun i hi => byte_patch fun p hp hw => ?_
  have hpart := h p hp
  simp only [Patch.Apart, Within] at hpart hi hw
  omega

/-- A patch is read back if every other one is apart from it. --/
theorem read_patch (hp : p ∈ ps) (h : ∀ q ∈ ps, q = p ∨ q.Apart p) : (s.patch ps).read p.off p.bytes.length = p.bytes := by
  induction ps using List.reverseRecOn generalizing s with
  | nil => cases hp
  | append_singleton ps q ih =>
    rw [patch_append]
    rcases h q (List.mem_append_right ps List.mem_cons_self) with rfl | hq
    · exact read_write_self
    · have hne : q ≠ p ∨ p.bytes = [] := by
        by_contra hboth
        obtain ⟨heq, hbytes⟩ := not_or.mp hboth
        rw [not_not.mp heq, Patch.Apart, or_self] at hq
        have hpos := List.length_pos_iff.mpr hbytes
        omega
      rcases hne with hne | hnil
      · have hmem : p ∈ ps := by
          rcases List.mem_append.mp hp with hmem | hmem
          · exact hmem
          · exact absurd (List.mem_singleton.mp hmem).symm hne
        have hpart : ∀ r ∈ [q], r.Apart ⟨p.off, p.bytes⟩ := fun r hr => List.mem_singleton.mp hr ▸ hq
        rw [read_patch_of_apart hpart rfl]
        exact ih hmem fun r hr => h r (List.mem_append_left _ hr)
      · rw [hnil, List.length_nil, read_zero]

theorem word_eq (h : s.read off n = Words.le n v) (hv : v < 256 ^ n) : s.word off n = v := by
  rw [word, h, Words.ofLe_le, Nat.mod_eq_of_lt hv]

theorem word_congr (h : ∀ i, Within off n i → t.byte i = s.byte i) : t.word off n = s.word off n :=
  congrArg Words.ofLe (read_congr h)

theorem word_zero (h : ∀ i, Within off n i → s.byte i = 0) : s.word off n = 0 := by
  have hread : s.read off n = Words.le n 0 := by
    have hzeros : ∀ n, Words.le n 0 = List.replicate n 0 := by
      intro n
      induction n with
      | zero => rfl
      | succ n ih =>
        rw [Words.le, Nat.zero_div, ih]
        rfl
    rw [hzeros, read]
    refine List.eq_replicate_iff.mpr ⟨by rw [List.length_map, List.length_range], fun b hb => ?_⟩
    obtain ⟨i, hi, rfl⟩ := List.mem_map.mp hb
    exact h (off + i) ⟨Nat.le_add_right _ _, Nat.add_lt_add_left (List.mem_range.mp hi) off⟩
  exact word_eq hread (Nat.pow_pos (by decide))

theorem holds_patch (h : Patch.Separate ps) (hin : ∀ p ∈ ps, p.off + p.bytes.length ≤ s.size) : (s.patch ps).Holds ps :=
  fun p hp => ⟨read_patch hp (h p hp), by rw [size_patch]; exact hin p hp⟩

theorem Holds.of_subset (h : s.Holds qs) (hsub : ∀ p ∈ ps, p ∈ qs) : s.Holds ps := fun p hp => h p (hsub p hp)

/-- A word among the patches. --/
theorem Holds.word (h : s.Holds ps) (hp : ⟨off, Words.le n v⟩ ∈ ps) (hv : v < 256 ^ n) : s.word off n = v := by
  have hread := (h _ hp).1
  rw [Words.length_le] at hread
  exact word_eq hread hv

theorem agreeOn_patch (h : ∀ p ∈ ps, ∀ i, Within p.off p.bytes.length i → ¬K i) : AgreeOn K s (s.patch ps) :=
  ⟨size_patch, fun i hi => byte_patch fun p hp hw => h p hp i hw hi⟩

/-- Patches that are not written over stay. --/
theorem Holds.of_agreeOn (h : s.Holds ps) (hagree : AgreeOn K s t)
    (hK : ∀ p ∈ ps, ∀ i, Within p.off p.bytes.length i → K i) : t.Holds ps := by
  intro p hp
  obtain ⟨hread, hin⟩ := h p hp
  exact ⟨(hagree.read_eq (hK p hp)).trans hread, by rw [hagree.size]; exact hin⟩

end

end ByteStore
