import Mathlib.Data.List.Basic

/-! Files of a POSIX file system, of which a name and an open descriptor refer to an inode: a file that lost its name
    is still there for who has it open, and two names may be one file. -/

/-- The inode of every name and the content of every inode; the numbers from `next` on are unused. --/
structure Inodes (Name : Type) (Content : Type := List UInt8) where
  inode : Name → Option Nat
  data : Nat → Content
  next : Nat
  bound : ∀ f i, inode f = some i → i < next

namespace Inodes
variable {Name Content : Type}

def empty : Inodes Name := ⟨fun _ => none, fun _ => [], 0, nofun⟩

/-- The bytes with `new` stored at an offset; a gap before it is filled with zeros. --/
def splice (old : List UInt8) (offset : Nat) (new : List UInt8) : List UInt8 :=
  old.take offset ++ List.replicate (offset - old.length) 0 ++ new ++ old.drop (offset + new.length)

def setData (s : Inodes Name Content) (i : Nat) (bytes : Content) : Inodes Name Content :=
  { s with data := fun j => if j = i then bytes else s.data j }

def write (s : Inodes Name) (i offset : Nat) (bytes : List UInt8) : Inodes Name :=
  s.setData i (splice (s.data i) offset bytes)

section
variable {s : Inodes Name} {i j offset : Nat} {bytes : List UInt8}

@[simp] theorem inode_setData : (s.setData i bytes).inode = s.inode := rfl

@[simp] theorem inode_write : (s.write i offset bytes).inode = s.inode := rfl

@[simp] theorem next_write : (s.write i offset bytes).next = s.next := rfl

theorem data_write_of_ne (h : j ≠ i) : (s.write i offset bytes).data j = s.data j := if_neg h

end

/-- The content of the file of a name. --/
def read (s : Inodes Name Content) (f : Name) : Option Content := (s.inode f).map s.data

/-! ### Names that keep their files -/

section
variable {s t u : Inodes Name Content} {f n : Name} {K : Name → Prop}

/-- The names in `K` have the files and the contents that they had. --/
structure Keeps (K : Name → Prop) (s t : Inodes Name Content) : Prop where
  inode : ∀ n, K n → t.inode n = s.inode n
  data : ∀ n i, K n → s.inode n = some i → t.data i = s.data i

/-- Writing to `f` writes to no file of a name in `K`. --/
structure Apart (K : Name → Prop) (s : Inodes Name Content) (f : Name) : Prop where
  name : ¬K f
  file : ∀ n i, K n → s.inode n = some i → s.inode f ≠ some i

theorem Keeps.refl : Keeps K s s := ⟨fun _ _ => rfl, fun _ _ _ _ => rfl⟩

theorem Keeps.trans (hst : Keeps K s t) (htu : Keeps K t u) : Keeps K s u where
  inode n hn := (htu.inode n hn).trans (hst.inode n hn)
  data n i hn hi := (htu.data n i hn ((hst.inode n hn).trans hi)).trans (hst.data n i hn hi)

theorem Keeps.read (hst : Keeps K s t) (hn : K n) : t.read n = s.read n := by
  unfold Inodes.read
  rw [hst.inode n hn]
  rcases hi : s.inode n with _ | i
  · rfl
  · exact congrArg some (hst.data n i hn hi)

theorem apart_of_none (hf : ¬K f) (hnone : s.inode f = none) : Apart K s f :=
  ⟨hf, fun _ _ _ _ hi => nomatch hnone.symm.trans hi⟩

/-- Remove every name in `p`. --/
def removeAll (s : Inodes Name Content) (p : Name → Prop) [DecidablePred p] : Inodes Name Content where
  inode g := if p g then none else s.inode g
  data := s.data
  next := s.next
  bound g i h := by
    split at h
    · cases h
    · exact s.bound g i h

theorem keeps_removeAll {p : Name → Prop} [DecidablePred p] (hp : ∀ n, K n → ¬p n) : Keeps K s (s.removeAll p) where
  inode n hn := if_neg (hp n hn)
  data _ _ _ _ := rfl

end

/-- No file has two names. --/
def Single (s : Inodes Name Content) : Prop := ∀ f g i, s.inode f = some i → s.inode g = some i → f = g

variable [DecidableEq Name]

def remove (s : Inodes Name Content) (f : Name) : Inodes Name Content where
  inode g := if g = f then none else s.inode g
  data := s.data
  next := s.next
  bound g i h := by
    split at h
    · cases h
    · exact s.bound g i h

/-- A further name for the file of `f`. --/
def link (s : Inodes Name Content) (f g : Name) : Inodes Name Content where
  inode n := if n = g then s.inode f else s.inode n
  data := s.data
  next := s.next
  bound n i h := by
    split at h
    · exact s.bound f i h
    · exact s.bound n i h

/-- A new file at the name, in the place of what was there. --/
def create (s : Inodes Name Content) (f : Name) (bytes : Content) : Inodes Name Content where
  inode g := if g = f then some s.next else s.inode g
  data i := if i = s.next then bytes else s.data i
  next := s.next + 1
  bound g i h := by
    split at h
    · cases h
      exact Nat.lt_succ_self _
    · exact Nat.lt_succ_of_lt (s.bound g i h)

/-- Write the file of a name, which is made if it is not there. --/
def put (s : Inodes Name Content) (f : Name) (bytes : Content) : Inodes Name Content :=
  match s.inode f with
  | some i => s.setData i bytes
  | none => s.create f bytes

/-- Open for writing from the start: `O_CREAT | O_TRUNC`. --/
def openTrunc (s : Inodes Name) (f : Name) : Nat × Inodes Name :=
  match s.inode f with
  | some i => (i, s.setData i [])
  | none => (s.next, s.create f [])

/-- `rename` of a name that is there; nothing happens when both are one file. --/
def rename (s : Inodes Name Content) (f g : Name) : Inodes Name Content :=
  if s.inode f = s.inode g then s
  else
    { inode := fun n => if n = f then none else if n = g then s.inode f else s.inode n
      data := s.data
      next := s.next
      bound := by
        intro n i h
        split at h
        · cases h
        split at h
        · exact s.bound f i h
        · exact s.bound n i h }

/-! ### What the operations change -/

section
variable {s : Inodes Name Content} {f g n : Name} {i : Nat} {bytes : Content}

@[simp] theorem data_remove : (s.remove f).data = s.data := rfl

@[simp] theorem next_remove : (s.remove f).next = s.next := rfl

theorem inode_remove_of_ne (h : g ≠ f) : (s.remove f).inode g = s.inode g := if_neg h

theorem inode_of_remove (h : (s.remove f).inode g = some i) : s.inode g = some i := by
  unfold remove at h
  dsimp only at h
  split at h
  · cases h
  · exact h

@[simp] theorem data_rename : (s.rename f g).data = s.data := by
  unfold rename
  split <;> rfl

@[simp] theorem next_rename : (s.rename f g).next = s.next := by
  unfold rename
  split <;> rfl

theorem inode_rename_of_ne (hf : n ≠ f) (hg : n ≠ g) : (s.rename f g).inode n = s.inode n := by
  unfold rename
  split
  · rfl
  · dsimp only
    rw [if_neg hf, if_neg hg]

/-- A name has its file after a rename, or the new name has that of the old one. --/
theorem inode_of_rename (h : (s.rename f g).inode n = some i) : s.inode n = some i ∨ n = g ∧ s.inode f = some i := by
  unfold rename at h
  split at h
  · exact Or.inl h
  · dsimp only at h
    split at h
    · cases h
    split at h
    · exact Or.inr ⟨‹_›, h⟩
    · exact Or.inl h

theorem inode_rename_target (hfg : f ≠ g) : (s.rename f g).inode g = s.inode f := by
  unfold rename
  split
  · rename_i h
    exact h.symm
  · dsimp only
    rw [if_neg hfg.symm, if_pos rfl]

theorem Single.rename (hs : s.Single) (hfg : f ≠ g) : (s.rename f g).Single := by
  intro a b i ha hb
  have hold : ∀ {n}, (s.rename f g).inode n = some i → n = g ∧ s.inode f = some i ∨ n ≠ f ∧ s.inode n = some i := by
    intro n hn
    rcases inode_of_rename hn with h | h
    · by_cases hnf : n = f
      · subst hnf
        by_cases heq : s.inode n = s.inode g
        · exact absurd (hs n g i h (heq ▸ h)) hfg
        · rw [Inodes.rename, if_neg heq] at hn
          dsimp only at hn
          rw [if_pos rfl] at hn
          cases hn
      · exact Or.inr ⟨hnf, h⟩
    · exact Or.inl h
  rcases hold ha with ⟨hag, hfa⟩ | ⟨hna, ha'⟩ <;> rcases hold hb with ⟨hbg, hfb⟩ | ⟨hnb, hb'⟩
  · exact hag.trans hbg.symm
  · exact absurd (hs b f i hb' hfa) hnb
  · exact absurd (hs a f i ha' hfb) hna
  · exact hs a b i ha' hb'

theorem Single.remove (hs : s.Single) : (s.remove f).Single := fun a b i ha hb =>
  hs a b i (inode_of_remove ha) (inode_of_remove hb)

theorem Single.create (hs : s.Single) : (s.create f bytes).Single := by
  intro a b i ha hb
  unfold Inodes.create at ha hb
  dsimp only at ha hb
  split at ha <;> split at hb
  · exact ‹a = f›.trans ‹b = f›.symm
  · cases ha
    exact absurd (s.bound b _ hb) (Nat.lt_irrefl _)
  · cases hb
    exact absurd (s.bound a _ ha) (Nat.lt_irrefl _)
  · exact hs a b i ha hb

end

/-! ### Operations that keep names -/

section
variable {s : Inodes Name Content} {f g : Name} {c : Content} {K : Name → Prop}

theorem keeps_create (hf : ¬K f) : Keeps K s (s.create f c) where
  inode n hn := if_neg fun (heq : n = f) => hf (heq ▸ hn)
  data n i _ hi := if_neg (Nat.ne_of_lt (s.bound n i hi))

@[simp] theorem read_create : (s.create f c).read f = some c := by
  simp [read, create]

theorem read_put : (s.put f c).read f = some c := by
  unfold put
  split
  · rename_i i hi
    simp [read, setData, hi]
  · exact read_create

theorem keeps_put (hf : Apart K s f) : Keeps K s (s.put f c) := by
  unfold put
  split
  · rename_i j hj
    exact ⟨fun _ _ => rfl, fun n i hn hi => if_neg fun (heq : i = j) => hf.file n i hn hi (heq ▸ hj)⟩
  · exact keeps_create hf.name

theorem keeps_link (hg : ¬K g) : Keeps K s (s.link f g) where
  inode n hn := if_neg fun (heq : n = g) => hg (heq ▸ hn)
  data _ _ _ _ := rfl

theorem Apart.create (hg : Apart K s g) (hf : ¬K f) : Apart K (s.create f c) g := by
  refine ⟨hg.name, fun n i hn hi => ?_⟩
  have hold : s.inode n = some i := (keeps_create (s := s) (c := c) hf).inode n hn ▸ hi
  show (if g = f then some s.next else s.inode g) ≠ some i
  split
  · exact fun heq => Nat.ne_of_lt (s.bound n i hold) (Option.some.inj heq).symm
  · exact hg.file n i hn hold

theorem Apart.put (hg : Apart K s g) (hf : Apart K s f) : Apart K (s.put f c) g := by
  unfold Inodes.put
  split
  · exact ⟨hg.name, hg.file⟩
  · exact hg.create hf.name

end

/-! ### Opening -/

section
variable {s : Inodes Name} {f g : Name} {i : Nat}

theorem openTrunc_inode : (s.openTrunc f).2.inode f = some (s.openTrunc f).1 := by
  unfold openTrunc
  split
  · rename_i i h
    exact h
  · exact if_pos rfl

theorem inode_openTrunc_of_ne (h : g ≠ f) : (s.openTrunc f).2.inode g = s.inode g := by
  unfold openTrunc
  split
  · rfl
  · exact if_neg h

theorem next_le_openTrunc : s.next ≤ (s.openTrunc f).2.next := by
  unfold openTrunc
  split
  · exact Nat.le_refl _
  · exact Nat.le_succ _

/-- Opening changes the content of no other file. --/
theorem data_openTrunc_of_ne (hi : i < s.next) (h : s.inode f ≠ some i) : (s.openTrunc f).2.data i = s.data i := by
  unfold openTrunc
  split
  · rename_i j hj
    exact if_neg fun (heq : i = j) => h (heq ▸ hj)
  · exact if_neg (Nat.ne_of_lt hi)

theorem Single.openTrunc (hs : s.Single) : (s.openTrunc f).2.Single := by
  unfold Inodes.openTrunc
  split
  · exact hs
  · exact hs.create

end
end Inodes
