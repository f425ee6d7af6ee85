import Mathlib.Data.List.Infix
import NodeVmm.Lib.Exec
import NodeVmm.Lib.Inodes
import NodeVmm.Lib.PosixPath

/-! The operations of `node:fs/promises` on directories, symbolic links and files that may have several names.

    The directories of a path are reached without symbolic links: only its last name may be one. An operation fails
    because of what the files are, and then it changes nothing. -/

namespace PosixFs

/-- What a name refers to. --/
inductive Node (α : Type) where
  | directory
  | symlink (target : Text)
  | file (content : α)
  deriving DecidableEq, Repr

/-- The names of a path from the root. --/
abbrev Names := List Text

abbrev Files (α : Type) := Inodes Names (Node α)

abbrev Fs (α : Type) := Exec (Files α)

variable {α : Type}

/-- A file system with no files. --/
def root : Files α where
  inode n := if n = [] then some 0 else none
  data _ := .directory
  next := 1
  bound _ i h := by
    obtain ⟨-, hi⟩ := Option.ite_none_right_eq_some.mp h
    cases hi
    exact Nat.zero_lt_one

def names (path : Text) : Names := PosixPath.normalizeString false path

/-- Where the symbolic link of a name leads. --/
def linkTarget (p : Names) (target : Text) : Names :=
  names (if PosixPath.isAbsolute target then target else PosixPath.ofNames p.dropLast ++ '/' :: target)

/-- The target of a symbolic link. --/
def readlink (s : Files α) (p : Names) : Option Text :=
  match s.read p with
  | some (.symlink target) => some target
  | _ => none

/-- The name at the end of at most so many links. --/
def follow (s : Files α) : Nat → Names → Option Names
  | 0, p => if (readlink s p).isSome then none else some p
  | n + 1, p =>
    match readlink s p with
    | some target => follow s n (linkTarget p target)
    | none => some p

def realpath (s : Files α) (p : Names) : Option Names := follow s 40 p

def isDirectory (s : Files α) (p : Names) : Bool :=
  match s.read p with
  | some .directory => true
  | _ => false

/-- What a path leads to. --/
def stat (p : Names) : Fs α (Node α) := fun s =>
  match realpath s p with
  | none => (.error "ELOOP", s)
  | some q =>
    match s.read q with
    | some node => (.ok node, s)
    | none => (.error "ENOENT", s)

def readFile (p : Names) : Fs α α := do
  match ← stat p with
  | .file content => return content
  | _ => throw "EISDIR"

/-- `stat(p).isFile()`, and false where `stat` throws. --/
def isFile (s : Files α) (p : Names) : Bool :=
  match (stat p s).1 with
  | .ok (.file _) => true
  | _ => false

/-- Open with `O_CREAT | O_TRUNC` and write. --/
def writeFile (p : Names) (content : α) : Fs α Unit := fun s =>
  match realpath s p with
  | none => (.error "ELOOP", s)
  | some q =>
    match s.read q with
    | some .directory => (.error "EISDIR", s)
    | some _ => (.ok (), s.put q (.file content))
    | none => if isDirectory s q.dropLast then (.ok (), s.create q (.file content)) else (.error "ENOENT", s)

def copyFile (source dest : Names) : Fs α Unit := do
  let content ← readFile source
  writeFile dest content

/-- `link` of a file or of a symbolic link itself, between names for which the file system has links. --/
def link (linkable : Bool) (source dest : Names) : Fs α Unit := fun s =>
  match s.read source with
  | none => (.error "ENOENT", s)
  | some .directory => (.error "EPERM", s)
  | some _ =>
    if (s.read dest).isSome then (.error "EEXIST", s)
    else if !isDirectory s dest.dropLast then (.error "ENOENT", s)
    else if !linkable then (.error "EXDEV", s)
    else (.ok (), s.link source dest)

/-- `rename` of a file. --/
def rename (p q : Names) : Fs α Unit := fun s =>
  match s.read p, s.read q with
  | none, _ => (.error "ENOENT", s)
  | some .directory, _ => (.error "EINVAL", s)
  | _, some .directory => (.error "EISDIR", s)
  | _, _ => if isDirectory s q.dropLast then (.ok (), s.rename p q) else (.error "ENOENT", s)

/-- `rm` with `recursive` and `force` --/
def rm (p : Names) : Fs α Unit := Exec.modify fun s => s.removeAll fun q => p <+: q

def mkdirOne (p : Names) : Fs α Unit := fun s =>
  match s.read p with
  | some .directory => (.ok (), s)
  | some _ => (.error "ENOTDIR", s)
  | none => (.ok (), s.create p .directory)

/-- `mkdir` with `recursive` --/
def mkdir (p : Names) : Fs α Unit := p.inits.forM mkdirOne

/-! ### What the operations return -/

section
variable {s : Files α} {p q : Names} {c : α} {n : Nat}

theorem readlink_of_file (h : s.read p = some (.file c)) : readlink s p = none := by
  simp only [readlink, h]

theorem realpath_of_file (h : s.read p = some (.file c)) : realpath s p = some p := by
  simp only [realpath, follow, readlink_of_file h]

/-- No link is at the end of the links. --/
theorem readlink_of_follow : ∀ {n : Nat} {p : Names}, follow s n p = some q → readlink s q = none := by
  intro n
  induction n with
  | zero =>
    intro p h
    unfold follow at h
    split at h
    · cases h
    · rename_i hlink
      cases h
      simpa using hlink
  | succ n ih =>
    intro p h
    unfold follow at h
    split at h
    · exact ih h
    · cases h
      assumption

/-- Where links lead depends on the links only. --/
theorem follow_congr {t : Files α} (h : ∀ p, readlink t p = readlink s p) : ∀ {n : Nat} {p : Names},
    follow t n p = follow s n p := by
  intro n
  induction n with
  | zero => simp [follow, h]
  | succ n ih => simp [follow, h, ih]

@[simp] theorem stat_state : (stat p s).2 = s := by
  unfold stat
  split
  · rfl
  · split <;> rfl

theorem stat_of_read (h : s.read p = some (.file c)) : stat p s = (.ok (.file c), s) := by
  simp only [stat, realpath_of_file h, h]

@[simp] theorem readFile_state : (readFile p s).2 = s := by
  have hstat := stat_state (p := p) (s := s)
  rcases hr : stat p s with ⟨e | node, t⟩
  · rw [hr] at hstat
    rw [readFile, Exec.bind_of_error hr]
    exact hstat
  · rw [hr] at hstat
    rw [readFile, Exec.bind_of_ok hr]
    rcases node with _ | target | content <;> exact hstat

theorem readFile_of_read (h : s.read p = some (.file c)) : readFile p s = (.ok c, s) := by
  rw [readFile, Exec.bind_of_ok (stat_of_read h)]
  rfl

end

/-! ### Files that are kept -/

section
variable {β : Type} {s : Files α} {p q : Names} {c : α} {K : Names → Prop}

/-- Writing to the path writes to no file of a name in `K`. --/
def Spares (K : Names → Prop) (s : Files α) (p : Names) : Prop := ∀ q, realpath s p = some q → Inodes.Apart K s q

theorem keeps_frame : Exec.Frame fun s t : Files α => Inodes.Keeps K s t :=
  ⟨fun _ => Inodes.Keeps.refl, Inodes.Keeps.trans⟩

theorem writeFile_cases (p : Names) (c : α) (s : Files α) : (writeFile p c s).2 = s ∨ ∃ q, realpath s p = some q ∧
    (writeFile p c s).2 = s.put q (.file c) := by
  unfold writeFile
  split
  · exact Or.inl rfl
  · rename_i q hq
    split
    · exact Or.inl rfl
    · exact Or.inr ⟨q, hq, rfl⟩
    · rename_i hnone
      have hinode : s.inode q = none := Option.map_eq_none_iff.mp hnone
      split
      · refine Or.inr ⟨q, hq, ?_⟩
        rw [Inodes.put, hinode]
      · exact Or.inl rfl

theorem read_writeFile {t : Files α} (hp : realpath s p = some p) (h : writeFile p c s = (.ok (), t)) :
    t.read p = some (.file c) := by
  simp only [writeFile, hp] at h
  split at h
  · cases h
  · cases h
    exact Inodes.read_put
  · split at h
    · cases h
      exact Inodes.read_create
    · cases h

/-- A name of nothing leads to itself. --/
theorem realpath_of_none (h : s.inode p = none) : realpath s p = some p := by
  have hlink : readlink s p = none := by
    simp [readlink, Inodes.read, h]
  simp only [realpath, follow, hlink]

theorem keeps_writeFile (h : Spares K s p) : Inodes.Keeps K s (writeFile p c s).2 := by
  rcases writeFile_cases p c s with heq | ⟨q, hq, heq⟩
  · rw [heq]
    exact Inodes.Keeps.refl
  · rw [heq]
    exact Inodes.keeps_put (h q hq)

/-- A new file or directory is no link. --/
theorem readlink_create {node : Node α} (hq : s.inode q = none) (hnode : ∀ target, node ≠ .symlink target) :
    readlink (s.create q node) p = readlink s p := by
  unfold readlink Inodes.read
  by_cases hpq : p = q
  · subst hpq
    rcases node with _ | target | content
    · simp [Inodes.create, hq]
    · exact absurd rfl (hnode target)
    · simp [Inodes.create, hq]
  · rcases hj : s.inode p with _ | j
    · simp [Inodes.create, hpq, hj]
    · have hne : j ≠ s.next := Nat.ne_of_lt (s.bound p j hj)
      simp [Inodes.create, hpq, hj, hne]

/-- Writing a file makes and removes no link. --/
theorem readlink_put (hq : readlink s q = none) : readlink (s.put q (.file c)) p = readlink s p := by
  unfold Inodes.put
  split
  · rename_i i hi
    have hfile : ∀ target, s.data i ≠ .symlink target := by
      intro target hlink
      simp [readlink, Inodes.read, hi, hlink] at hq
    unfold readlink Inodes.read
    rcases hj : s.inode p with _ | j
    · simp [Inodes.setData, hj]
    · by_cases hji : j = i
      · subst hji
        simp only [Inodes.setData, hj, Option.map_some, if_true]
        rcases hd : s.data j with _ | target | content
        · rfl
        · exact absurd hd (hfile target)
        · rfl
      · simp [Inodes.setData, hj, hji]
  · rename_i hnone
    refine readlink_create hnone fun target h => ?_
    cases h

theorem realpath_writeFile : realpath (writeFile p c s).2 q = realpath s q := by
  rcases writeFile_cases p c s with heq | ⟨r, hr, heq⟩
  · rw [heq]
  · rw [heq]
    exact follow_congr fun p => readlink_put (readlink_of_follow hr)

theorem link_cases (linkable : Bool) (p q : Names) (s : Files α) :
    link linkable p q s = (.ok (), s.link p q) ∧ (s.read p).isSome ∧ s.inode q = none ∨
      ∃ e, link linkable p q s = (.error e, s) := by
  unfold link
  split
  · exact Or.inr ⟨_, rfl⟩
  · exact Or.inr ⟨_, rfl⟩
  · rename_i hsource
    split
    · exact Or.inr ⟨_, rfl⟩
    · rename_i hdest
      split
      · exact Or.inr ⟨_, rfl⟩
      · split
        · exact Or.inr ⟨_, rfl⟩
        · refine Or.inl ⟨rfl, by rw [hsource]; rfl, ?_⟩
          simpa [Inodes.read] using hdest

theorem keeps_link {linkable : Bool} (hq : ¬K q) : Inodes.Keeps K s (link linkable p q s).2 := by
  rcases link_cases linkable p q s with ⟨heq, -⟩ | ⟨e, heq⟩
  · rw [heq]
    exact Inodes.keeps_link hq
  · rw [heq]
    exact Inodes.Keeps.refl

theorem keeps_rename (hp : ¬K p) (hq : ¬K q) : Inodes.Keeps K s (rename p q s).2 := by
  have hrename : Inodes.Keeps K s (s.rename p q) := by
    refine ⟨fun n hn => ?_, fun n i _ _ => congrFun Inodes.data_rename i⟩
    exact Inodes.inode_rename_of_ne (fun heq => hp (heq ▸ hn)) fun heq => hq (heq ▸ hn)
  unfold rename
  split
  · exact Inodes.Keeps.refl
  · exact Inodes.Keeps.refl
  · exact Inodes.Keeps.refl
  · split
    · exact hrename
    · exact Inodes.Keeps.refl

theorem keeps_rm (hp : ∀ k, K k → ¬p <+: k) : Inodes.Keeps K s (rm p s).2 := Inodes.keeps_removeAll hp

/-! ### Sequences of operations -/

/-- The names in `K` are there, and writing to the paths in `W` spares them: then they are kept, and it still does. --/
def Guards (K W : Names → Prop) (s t : Files α) : Prop :=
  (∀ k, K k → (s.inode k).isSome) → (∀ p, W p → Spares K s p) → Inodes.Keeps K s t ∧ ∀ p, W p → Spares K t p

section
variable {W : Names → Prop}

theorem guards_frame : Exec.Frame (Guards (α := α) K W) where
  refl _ _ hW := ⟨Inodes.Keeps.refl, hW⟩
  trans hst htu hK hW := by
    obtain ⟨hs, hW'⟩ := hst hK hW
    obtain ⟨ht, hW''⟩ := htu (fun k hk => hs.inode k hk ▸ hK k hk) hW'
    exact ⟨hs.trans ht, hW''⟩

theorem guards_writeFile (hp : W p) : Exec.Keeps (Guards (α := α) K W) (writeFile p c) := by
  intro s hK hW
  refine ⟨keeps_writeFile (hW p hp), fun q hq r hr => ?_⟩
  rw [realpath_writeFile] at hr
  rcases writeFile_cases p c s with heq | ⟨u, hu, heq⟩
  · rw [heq]
    exact hW q hq r hr
  · rw [heq]
    exact (hW q hq r hr).put (hW p hp u hu)

theorem guards_stat : Exec.Keeps (Guards (α := α) K W) (stat p) := by
  intro s
  rw [stat_state]
  exact guards_frame.refl s

theorem guards_readFile : Exec.Keeps (Guards (α := α) K W) (readFile p) := by
  intro s
  rw [readFile_state]
  exact guards_frame.refl s

/-- A directory that is made has no name in `K`, as these are there. --/
theorem guards_mkdirOne : Exec.Keeps (Guards (α := α) K W) (mkdirOne p) := by
  intro s
  unfold mkdirOne
  split
  · exact guards_frame.refl s
  · exact guards_frame.refl s
  · rename_i hnone
    have hinode : s.inode p = none := Option.map_eq_none_iff.mp hnone
    intro hK hW
    have hp : ¬K p := fun hp => by
      have hsome := hK p hp
      rw [hinode] at hsome
      cases hsome
    refine ⟨Inodes.keeps_create hp, fun q hq r hr => ?_⟩
    have hlinks : realpath (s.create p .directory) q = realpath s q := by
      refine follow_congr fun _ => readlink_create hinode fun target h => ?_
      cases h
    exact (hW q hq r (hlinks.symm.trans hr)).create hp

theorem guards_mkdir : Exec.Keeps (Guards (α := α) K W) (mkdir p) :=
  Exec.Keeps.forM guards_frame fun _ _ => guards_mkdirOne

end

/-- Only the directories of the path are made. --/
theorem keeps_mkdir : Inodes.Keeps (fun n => ¬n <+: p) s (mkdir p s).2 := by
  refine Exec.Keeps.forM keeps_frame (fun q hq t => ?_) s
  unfold mkdirOne
  split
  · exact Inodes.Keeps.refl
  · exact Inodes.Keeps.refl
  · exact Inodes.keeps_create fun hnot => hnot ((List.mem_inits q p).mp hq)

/-- What is there and in no way written to is kept. --/
theorem keeps_of_guards {x : Fs α β} (hx : Exec.Keeps (Guards K fun _ => False) x)
    (hK : ∀ k, K k → (s.inode k).isSome) : Inodes.Keeps K s (x s).2 := (hx s hK fun _ hf => hf.elim).1

end

end PosixFs
