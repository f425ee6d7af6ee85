import NodeVmm.ExplicitDisk

/-! A disk at a path of the caller's choice is there, as it was or replaced, whatever fails and whenever the machine stops,
    but between the removal of the old disk and the renaming of the new one. -/

namespace NodeVmm.ExplicitDisk
open PersistentDisk (MaterializedDisk mib)
open MaterializeExplicitDiskOptions

variable {Image : Type}

section
variable (c : MaterializeExplicitDiskOptions Image) (old : Option (Disk Image))

def Passes (op : Op) : Prop := c.crash ≠ some op ∧ c.fails op = false

/-- The state in which `op` has not passed. --/
def halted (op : Op) (s : Files Image) : Files Image := { s with crashed := decide (c.crash = some op) }

/-- The size that is asked for can be had. --/
def Sized (n : Nat) : Prop := c.diskMiB = some (.ofNat n) ∧ 0 < n

/-- How `ensureDiskSizeAtLeast` ends for a file with the content `d`: whether it returns, and the files. --/
inductive Ensured (stat truncate : Op) (f : Path) (d : Disk Image) (s : Files Image) : Bool → Files Image → Prop
  | refused (h : ∀ n, ¬Sized c n) : Ensured stat truncate f d s false s
  | stat {n : Nat} (h : Sized c n) (hstat : ¬Passes c stat) : Ensured stat truncate f d s false (halted c stat s)
  | shrink {n : Nat} (h : Sized c n) (hstat : Passes c stat) (hlt : n * mib < d.size) : Ensured stat truncate f d s false s
  | truncate {n : Nat} (h : Sized c n) (hstat : Passes c stat) (hlt : d.size < n * mib) (htruncate : ¬Passes c truncate) :
    Ensured stat truncate f d s false (halted c truncate s)
  | fits {n : Nat} (h : Sized c n) (hstat : Passes c stat) (hle : d.size ≤ n * mib)
    (htruncate : d.size < n * mib → Passes c truncate) :
    Ensured stat truncate f d s true (s.put f (some { d with size := n * mib }))

/-- The base image can be copied and has its final size at the temporary path. --/
def Copied (image : Image) (n : Nat) : Prop :=
  Passes c .copyDisk ∧ Sized c n ∧ Passes c .statTmp ∧
    ∃ size ≤ n * mib, c.base = some (image, size) ∧ (size < n * mib → Passes c .truncateTmp)

/-- How `createBody` ends where the path holds `old`. --/
inductive Body : Bool → Files Image → Prop
  | copy (h : ¬Passes c .copyDisk) :
    Body false
      { diskPath := old, tmp := if c.crash = some .copyDisk then none else c.torn, crashed := c.crash = some .copyDisk }
  | noBase (h : Passes c .copyDisk) (hbase : c.base = none) : Body false { diskPath := old }
  | refused {image : Image} {size : Nat} {s : Files Image} (h : Passes c .copyDisk) (hbase : c.base = some (image, size))
    (hs : Ensured c .statTmp .truncateTmp .tmp ⟨image, size⟩ { diskPath := old, tmp := some ⟨image, size⟩ } false s) :
    Body false s
  | rm {image : Image} {n : Nat} (h : Copied c image n) (hrm : ¬Passes c .rmDisk) :
    Body false (halted c .rmDisk { diskPath := old, tmp := some ⟨image, n * mib⟩ })
  | rename {image : Image} {n : Nat} (h : Copied c image n) (hrm : Passes c .rmDisk) (hrename : ¬Passes c .renameDisk) :
    Body false (halted c .renameDisk { diskPath := none, tmp := some ⟨image, n * mib⟩ })
  | done {image : Image} {n : Nat} (h : Copied c image n) (hrm : Passes c .rmDisk) (hrename : Passes c .renameDisk) :
    Body true { diskPath := some ⟨image, n * mib⟩ }

end

section
variable {c : MaterializeExplicitDiskOptions Image} {s : Files Image} {op : Op} {f : Path} {d : Disk Image}
  {old : Option (Disk Image)}

theorem attempt_ok (hs : s.crashed = false) (h : Passes c op) : c.attempt op s = (.ok (), s) := by
  unfold attempt Exec.check
  simp [Exec.bind_apply, hs, h.1, h.2]

theorem attempt_error (hs : s.crashed = false) (h : ¬Passes c op) : ∃ e, c.attempt op s = (.error e, halted c op s) := by
  unfold attempt Exec.check halted
  by_cases hcrash : c.crash = some op
  · exact ⟨"crashed", by simp [Exec.bind_apply, hs, hcrash]⟩
  · have hfails : c.fails op = true := by
      by_contra hpass
      exact h ⟨hcrash, by simpa using hpass⟩
    obtain ⟨diskPath, tmp, crashed⟩ := s
    cases hs
    exact ⟨"EIO", by simp [Exec.bind_apply, hcrash, hfails]⟩

theorem attempt_crashed (hs : s.crashed = true) : c.attempt op s = (.error "crashed", s) := by
  unfold attempt
  simp [Exec.bind_apply, hs]

theorem put_file (h : s.file f = some d) : s.put f (some d) = s := by
  cases f <;> simp only [Files.file] at h <;> simp [Files.put, ← h]

theorem not_sized (h : ∀ n, c.diskMiB ≠ some (.ofNat (n + 1))) (n : Nat) : ¬Sized c n := by
  rintro ⟨hn, hpos⟩
  obtain ⟨k, rfl⟩ := Nat.exists_eq_succ_of_ne_zero hpos.ne'
  exact h k hn

/-- With a size that can be had, the file is measured and extended. --/
theorem ensured_sized {n : Nat} (stat truncate : Op) (path : Text) (hs : s.crashed = false) (hf : s.file f = some d)
    (hn : c.diskMiB = some (.ofNat (n + 1))) :
    Ensured c stat truncate f d s (c.ensureDiskSizeAtLeast stat truncate f path s).1.isOk
      (c.ensureDiskSizeAtLeast stat truncate f path s).2 := by
  have hsized : Sized c (n + 1) := ⟨hn, Nat.succ_pos n⟩
  simp only [ensureDiskSizeAtLeast, hn]
  by_cases hstat : Passes c stat
  · rw [Exec.bind_of_ok (attempt_ok hs hstat), Exec.bind_of_ok Exec.get_apply, hf]
    dsimp only
    split_ifs with hgt heq
    · exact .shrink hsized hstat hgt
    · have hfits : Ensured c stat truncate f d s true (s.put f (some { d with size := (n + 1) * mib })) :=
        .fits hsized hstat heq.le fun hlt => absurd heq hlt.ne
      rw [← heq, put_file hf] at hfits
      exact hfits
    · have hlt : d.size < (n + 1) * mib := lt_of_le_of_ne (not_lt.mp hgt) heq
      by_cases htruncate : Passes c truncate
      · rw [Exec.bind_of_ok (attempt_ok hs htruncate)]
        exact .fits hsized hstat hlt.le fun _ => htruncate
      · obtain ⟨e, he⟩ := attempt_error hs htruncate
        rw [Exec.bind_of_error he]
        exact .truncate hsized hstat hlt htruncate
  · obtain ⟨e, he⟩ := attempt_error hs hstat
    rw [Exec.bind_of_error he]
    exact .stat hsized hstat

theorem ensured (stat truncate : Op) (path : Text) (hs : s.crashed = false) (hf : s.file f = some d) :
    Ensured c stat truncate f d s (c.ensureDiskSizeAtLeast stat truncate f path s).1.isOk
      (c.ensureDiskSizeAtLeast stat truncate f path s).2 := by
  rcases hn : c.diskMiB with _ | (_ | n) | n
  · simp only [ensureDiskSizeAtLeast, hn]
    exact .refused (not_sized fun k hk => nomatch hn.symm.trans hk)
  · simp only [ensureDiskSizeAtLeast, hn]
    exact .refused (not_sized fun k hk => nomatch hn.symm.trans hk)
  · exact ensured_sized stat truncate path hs hf hn
  · simp only [ensureDiskSizeAtLeast, hn]
    exact .refused (not_sized fun k hk => nomatch hn.symm.trans hk)

theorem rm_apply (hs : s.crashed = false) (op : Op) (f : Path) :
    Passes c op ∧ c.rm op f s = (.ok (), s.put f none) ∨ ¬Passes c op ∧ ∃ e, c.rm op f s = (.error e, halted c op s) := by
  unfold rm
  by_cases hop : Passes c op
  · exact Or.inl ⟨hop, by rw [Exec.bind_of_ok (attempt_ok hs hop)]; rfl⟩
  · obtain ⟨e, he⟩ := attempt_error hs hop
    exact Or.inr ⟨hop, e, by rw [Exec.bind_of_error he]⟩

theorem rename_apply {g : Path} (hs : s.crashed = false) (hf : s.file f = some d) (op : Op) :
    Passes c op ∧ c.rename op f g s = (.ok (), (s.put f none).put g (some d)) ∨
    ¬Passes c op ∧ ∃ e, c.rename op f g s = (.error e, halted c op s) := by
  unfold rename
  by_cases hop : Passes c op
  · refine Or.inl ⟨hop, ?_⟩
    rw [Exec.bind_of_ok (attempt_ok hs hop), Exec.bind_of_ok Exec.get_apply, hf]
    rfl
  · obtain ⟨e, he⟩ := attempt_error hs hop
    exact Or.inr ⟨hop, e, by rw [Exec.bind_of_error he]⟩

/-- What is done once the temporary file has its size. --/
theorem body_install {image : Image} {n : Nat} (h : Copied c image n) (b : Bool) :
    let x : Disks Image Bool := do
      c.rm .rmDisk .diskPath
      c.rename .renameDisk .tmp .diskPath
      return b
    Body c old (x { diskPath := old, tmp := some ⟨image, n * mib⟩ }).1.isOk
      (x { diskPath := old, tmp := some ⟨image, n * mib⟩ }).2 := by
  dsimp only
  rcases rm_apply (c := c) (s := { diskPath := old, tmp := some ⟨image, n * mib⟩ }) rfl .rmDisk .diskPath with
    ⟨hrm, heq⟩ | ⟨hrm, e, heq⟩
  · rw [Exec.bind_of_ok heq]
    rcases rename_apply (c := c) (s := Files.put .diskPath none { diskPath := old, tmp := some ⟨image, n * mib⟩ })
      (f := .tmp) (g := .diskPath) rfl rfl .renameDisk with ⟨hrename, heq⟩ | ⟨hrename, e, heq⟩
    · rw [Exec.bind_of_ok heq]
      exact .done h hrm hrename
    · rw [Exec.bind_of_error heq]
      exact .rename h hrm hrename
  · rw [Exec.bind_of_error heq]
    exact .rm h hrm

theorem copyBase_error (old : Option (Disk Image)) (h : ¬Passes c .copyDisk) : ∃ e, c.copyBase { diskPath := old } =
    (.error e,
      { diskPath := old, tmp := if c.crash = some .copyDisk then none else c.torn, crashed := c.crash = some .copyDisk }) := by
  obtain ⟨e, he⟩ := attempt_error (s := { diskPath := old }) rfl h
  refine ⟨e, ?_⟩
  unfold copyBase
  refine Exec.bind_of_error ?_
  rw [Exec.tryCatch_of_error he, Exec.bind_of_ok Exec.get_apply]
  by_cases hcrash : c.crash = some .copyDisk
  · simp [halted, hcrash]
  · simp [halted, hcrash, Exec.bind_apply, Files.put]

theorem copyBase_ok (old : Option (Disk Image)) (h : Passes c .copyDisk) : c.copyBase { diskPath := old } =
    match c.base with
    | some (image, size) => (.ok (), { diskPath := old, tmp := some ⟨image, size⟩ })
    | none => (.error "ENOENT", { diskPath := old }) := by
  unfold copyBase
  rw [Exec.bind_of_ok (Exec.tryCatch_of_ok (attempt_ok rfl h))]
  rcases c.base with _ | ⟨image, size⟩ <;> rfl

theorem body (c : MaterializeExplicitDiskOptions Image) (old : Option (Disk Image)) :
    Body c old (c.createBody { diskPath := old }).1.isOk (c.createBody { diskPath := old }).2 := by
  unfold createBody
  by_cases hcopy : Passes c .copyDisk
  · have hbase := copyBase_ok old hcopy
    rcases hb : c.base with _ | ⟨image, size⟩
    · rw [hb] at hbase
      rw [Exec.bind_of_error hbase]
      exact .noBase hcopy hb
    · rw [hb] at hbase
      rw [Exec.bind_of_ok hbase]
      have hends := ensured (c := c) (s := { diskPath := old, tmp := some ⟨image, size⟩ }) (f := .tmp) .statTmp .truncateTmp
        c.tmpPath rfl rfl
      rcases hr : c.ensureDiskSizeAtLeast .statTmp .truncateTmp .tmp c.tmpPath
        { diskPath := old, tmp := some ⟨image, size⟩ } with ⟨e | b, t⟩
      · rw [hr] at hends
        rw [Exec.bind_of_error hr]
        exact .refused hcopy hb hends
      · rw [hr] at hends
        rw [Exec.bind_of_ok hr]
        cases hends with
        | fits hsized hstat hle htruncate => exact body_install ⟨hcopy, hsized, hstat, size, hle, hb, htruncate⟩ b
  · obtain ⟨e, he⟩ := copyBase_error old hcopy
    rw [Exec.bind_of_error he]
    exact .copy hcopy

end

/-! ### When the disk is safe -/

section
variable (c : MaterializeExplicitDiskOptions Image) (old : Option (Disk Image))

/-- The machine goes on, and `op` throws. --/
def Fails (op : Op) : Prop := c.crash ≠ some op ∧ c.fails op = true

/-- What is at the path is removed, and then the machine stops or the new disk cannot be renamed. --/
def Strands : Prop := (∃ image n, Copied c image n) ∧ Passes c .rmDisk ∧ ¬Passes c .renameDisk

/-- An old disk is removed and not replaced. --/
structure Lost : Prop where
  existed : old ≠ none
  reset : c.reset = true
  mkdir : Passes c .mkdir
  strands : Strands c

/-- Something throws when the copy has its size. --/
def ThrowsInstalling : Prop := Fails c .rmDisk ∨ Passes c .rmDisk ∧ Fails c .renameDisk

/-- Something throws when the base image of `size` bytes has been copied. --/
def ThrowsSizing (size : Nat) : Prop :=
  (∀ n, ¬Sized c n) ∨ ∃ n, Sized c n ∧ (Fails c .statTmp ∨ Passes c .statTmp ∧
    (n * mib < size ∨ size < n * mib ∧ Fails c .truncateTmp ∨
      size ≤ n * mib ∧ (size < n * mib → Passes c .truncateTmp) ∧ ThrowsInstalling c))

/-- Something throws when there is a file at the temporary path. --/
def Throws : Prop :=
  Fails c .copyDisk ∧ c.torn ≠ none ∨
    Passes c .copyDisk ∧ ∃ image size, c.base = some (image, size) ∧ ThrowsSizing c size

/-- The temporary file cannot be removed after something has thrown. --/
structure Leaves : Prop where
  creates : old = none ∨ c.reset = true
  mkdir : Passes c .mkdir
  throws : Throws c
  rmTmp : Fails c .rmTmp

end

section
variable {c : MaterializeExplicitDiskOptions Image} {old : Option (Disk Image)} {s : Files Image} {b : Bool} {op : Op}

theorem fails_iff : Fails c op ↔ c.crash ≠ some op ∧ ¬Passes c op := by
  unfold Fails Passes
  grind

theorem Fails.not_passes (h : Fails c op) : ¬Passes c op := (fails_iff.mp h).2

theorem Sized.unique {n k : Nat} (hn : Sized c n) (hk : Sized c k) : n = k := by
  have heq := hn.1.symm.trans hk.1
  cases heq
  rfl

/-- A stop of the machine, or nothing at the temporary path. --/
def Quiet (s : Files Image) : Prop := s.tmp = none ∨ s.crashed = true

theorem fails_iff_halted {t : Files Image} {x : Disk Image} (h : ¬Passes c op) (htmp : t.tmp = some x) :
    Fails c op ↔ ¬Quiet (halted c op t) := by
  rw [fails_iff]
  simp [Quiet, halted, htmp, h]

theorem throws_sizing {image : Image} {size : Nat}
    (h : Ensured c .statTmp .truncateTmp .tmp ⟨image, size⟩ { diskPath := old, tmp := some ⟨image, size⟩ } false s) :
    ThrowsSizing c size ↔ ¬Quiet s := by
  cases h with
  | refused hsize => exact iff_of_true (Or.inl hsize) (by simp [Quiet])
  | stat hsize hstat =>
    rw [← fails_iff_halted hstat rfl]
    refine ⟨?_, fun hf => Or.inr ⟨_, hsize, Or.inl hf⟩⟩
    rintro (hbad | ⟨k, hk, hf | ⟨hp, -⟩⟩)
    · exact absurd hsize (hbad _)
    · exact hf
    · exact absurd hp hstat
  | shrink hsize hstat hlt => exact iff_of_true (Or.inr ⟨_, hsize, Or.inr ⟨hstat, Or.inl hlt⟩⟩) (by simp [Quiet])
  | truncate hsize hstat hlt htruncate =>
    rw [← fails_iff_halted htruncate rfl]
    refine ⟨?_, fun hf => Or.inr ⟨_, hsize, Or.inr ⟨hstat, Or.inr (Or.inl ⟨hlt, hf⟩)⟩⟩⟩
    rintro (hbad | ⟨k, hk, hf | ⟨hp, hgt | ⟨-, hf⟩ | ⟨hle, hpass, -⟩⟩⟩)
    · exact absurd hsize (hbad _)
    · exact absurd hstat hf.not_passes
    · cases hk.unique hsize
      exact absurd hgt hlt.asymm
    · exact hf
    · cases hk.unique hsize
      exact absurd (hpass hlt) htruncate

/-- With the copy at its size, only its installation throws. --/
theorem Copied.throws_iff {image : Image} {n : Nat} (h : Copied c image n) : Throws c ↔ ThrowsInstalling c := by
  obtain ⟨hcopy, hsize, hstat, size, hle, hbase, htruncate⟩ := h
  constructor
  · rintro (⟨hf, -⟩ | ⟨-, _, size', hbase', hbad | ⟨k, hk, hf | ⟨-, hgt | ⟨hlt, hf⟩ | ⟨-, -, hinstall⟩⟩⟩⟩)
    · exact absurd hcopy hf.not_passes
    · exact absurd hsize (hbad _)
    · exact absurd hstat hf.not_passes
    · cases hbase.symm.trans hbase'
      cases hk.unique hsize
      exact absurd hgt hle.not_gt
    · cases hbase.symm.trans hbase'
      cases hk.unique hsize
      exact absurd (htruncate hlt) hf.not_passes
    · exact hinstall
  · intro hinstall
    exact Or.inr ⟨hcopy, image, size, hbase, Or.inr ⟨n, hsize, Or.inr ⟨hstat, Or.inr (Or.inr ⟨hle, htruncate, hinstall⟩)⟩⟩⟩

theorem throws_iff (h : Body c old b s) : Throws c ↔ ¬Quiet s := by
  cases h with
  | copy h =>
    have hleft : Throws c ↔ Fails c .copyDisk ∧ c.torn ≠ none := by
      refine ⟨?_, Or.inl⟩
      rintro (hf | ⟨hp, -⟩)
      · exact hf
      · exact absurd hp h
    rw [hleft, fails_iff]
    by_cases hcrash : c.crash = some .copyDisk <;> simp [Quiet, hcrash, h]
  | noBase h hbase =>
    refine iff_of_false ?_ (by simp [Quiet])
    rintro (⟨hf, -⟩ | ⟨-, _, _, hsome, -⟩)
    · exact hf.not_passes h
    · cases hbase.symm.trans hsome
  | refused h hbase hs =>
    rw [← throws_sizing hs]
    refine ⟨?_, fun hsizing => Or.inr ⟨h, _, _, hbase, hsizing⟩⟩
    rintro (⟨hf, -⟩ | ⟨-, _, _, hsome, hsizing⟩)
    · exact absurd h hf.not_passes
    · cases hbase.symm.trans hsome
      exact hsizing
  | rm h hrm =>
    rw [h.throws_iff, ← fails_iff_halted hrm rfl]
    refine ⟨?_, Or.inl⟩
    rintro (hf | ⟨hp, -⟩)
    · exact hf
    · exact absurd hp hrm
  | rename h hrm hrename =>
    rw [h.throws_iff, ← fails_iff_halted hrename rfl]
    refine ⟨?_, fun hf => Or.inr ⟨hrm, hf⟩⟩
    rintro (hf | ⟨-, hf⟩)
    · exact absurd hrm hf.not_passes
    · exact hf
  | done h hrm hrename =>
    rw [h.throws_iff]
    refine iff_of_false ?_ (by simp [Quiet])
    rintro (hf | ⟨-, hf⟩)
    · exact hf.not_passes hrm
    · exact hf.not_passes hrename

theorem Ensured.not_copied {image image' : Image} {size n : Nat} {t : Files Image}
    (h : Ensured c .statTmp .truncateTmp .tmp ⟨image, size⟩ s false t) (hbase : c.base = some (image, size)) :
    ¬Copied c image' n := by
  rintro ⟨-, hsize, hstat, size', hle, hbase', htruncate⟩
  cases hbase.symm.trans hbase'
  cases h with
  | refused hbad => exact hbad _ hsize
  | stat _ hnot => exact hnot hstat
  | shrink hk _ hlt =>
    cases hk.unique hsize
    exact absurd hlt hle.not_gt
  | truncate hk _ hlt hnot =>
    cases hk.unique hsize
    exact hnot (htruncate hlt)

/-- The path holds what it held, unless that is removed and not replaced. --/
theorem body_disk (h : Body c old false s) : s.diskPath = old ∧ ¬Strands c ∨ s.diskPath = none ∧ Strands c := by
  cases h with
  | copy h => exact Or.inl ⟨rfl, fun ⟨⟨_, _, hcopied⟩, _⟩ => h hcopied.1⟩
  | noBase h hbase =>
    refine Or.inl ⟨rfl, ?_⟩
    rintro ⟨⟨_, _, -, -, -, size, -, hsome, -⟩, -⟩
    cases hbase.symm.trans hsome
  | refused h hbase hs =>
    have hold : s.diskPath = old := by cases hs <;> rfl
    exact Or.inl ⟨hold, fun ⟨⟨_, _, hcopied⟩, _⟩ => hs.not_copied hbase hcopied⟩
  | rm h hrm => exact Or.inl ⟨rfl, fun hs => hrm hs.2.1⟩
  | rename h hrm hrename => exact Or.inr ⟨rfl, ⟨_, _, h⟩, hrm, hrename⟩

/-! ### The call -/

/-- What the path holds when the call is over, by the image and the size that were there before or in the base. --/
def source (c : MaterializeExplicitDiskOptions Image) : Option (Disk Image) → Option (Image × Nat)
  | some x => if c.reset then c.base else some (x.image, x.size)
  | none => c.base

/-- The whole new disk of the size that is asked for. --/
def Complete (c : MaterializeExplicitDiskOptions Image) (old : Option (Disk Image)) (new : Disk Image) : Prop :=
  ∃ n size, Sized c n ∧ source c old = some (new.image, size) ∧ size ≤ n * mib ∧ new.size = n * mib

/-- The path holds its content before or the whole new disk, not nothing when a disk was there, and a call that throws
    leaves no temporary file. --/
structure Sound (c : MaterializeExplicitDiskOptions Image) (old : Option (Disk Image)) (r : Except String MaterializedDisk)
    (t : Files Image) : Prop where
  target : t.diskPath = old ∨ ∃ new, t.diskPath = some new ∧ Complete c old new
  kept : old ≠ none → t.diskPath ≠ none
  clean : t.crashed = false → r.isOk = false → t.tmp = none

/-- The files after a handler has tried to remove the temporary file. --/
def cleaned (c : MaterializeExplicitDiskOptions Image) (s : Files Image) : Files Image :=
  if s.crashed then s else if c.crash = some .rmTmp then { s with crashed := true }
  else if c.fails .rmTmp then s else { s with tmp := none }

theorem cleanup_apply {e : String} (s : Files Image) :
    (do
      tryCatch (c.rm .rmTmp .tmp) fun _ => pure ()
      throw e : Disks Image Bool) s = (.error e, cleaned c s) := by
  unfold cleaned rm attempt Exec.check
  cases hs : s.crashed
  · by_cases hcrash : c.crash = some .rmTmp
    · simp [Exec.bind_apply, Exec.tryCatch_apply, hs, hcrash]
    · cases c.fails .rmTmp <;> simp [Exec.bind_apply, Exec.tryCatch_apply, hs, hcrash, Files.put]
  · simp [Exec.bind_apply, Exec.tryCatch_apply, hs]

theorem cleaned_disk : (cleaned c s).diskPath = s.diskPath := by
  unfold cleaned
  split_ifs <;> rfl

theorem cleaned_clean : ((cleaned c s).crashed = false → (cleaned c s).tmp = none) ↔ Quiet s ∨ ¬Fails c .rmTmp := by
  unfold cleaned Quiet Fails
  cases hs : s.crashed <;> by_cases hcrash : c.crash = some .rmTmp <;> cases hfails : c.fails .rmTmp <;> simp [hcrash, hs]

/-- The last step extends the disk at the path, or leaves it. --/
def finish (c : MaterializeExplicitDiskOptions Image) (created createdResized : Bool) : Disks Image MaterializedDisk := do
  let resized := (← c.ensureDiskSizeAtLeast .statDisk .truncateDisk .diskPath c.diskPath) || createdResized
  return ⟨c.diskPath, resized, created⟩

theorem finish_files {x : Disk Image} (created createdResized : Bool) :
    (finish c created createdResized { diskPath := some x }).2.tmp = none ∧
    ((finish c created createdResized { diskPath := some x }).2.diskPath = some x ∨ ∃ n, Sized c n ∧ x.size ≤ n * mib ∧
      (finish c created createdResized { diskPath := some x }).2.diskPath = some { x with size := n * mib }) := by
  have hends := ensured (c := c) (s := { diskPath := some x }) (f := .diskPath) .statDisk .truncateDisk c.diskPath rfl rfl
  unfold finish
  rcases hr : c.ensureDiskSizeAtLeast .statDisk .truncateDisk .diskPath c.diskPath { diskPath := some x } with ⟨e | b, t⟩
  · rw [hr] at hends
    rw [Exec.bind_of_error hr]
    cases hends <;> exact ⟨rfl, Or.inl rfl⟩
  · rw [hr] at hends
    rw [Exec.bind_of_ok hr]
    cases hends with
    | fits hsize hstat hle htruncate => exact ⟨rfl, Or.inr ⟨_, hsize, hle, rfl⟩⟩

theorem create_of_mkdir (old : Option (Disk Image)) (h : ¬Passes c .mkdir) :
    ∃ e, c.create { diskPath := old } = (.error e, halted c .mkdir { diskPath := old }) := by
  obtain ⟨e, he⟩ := attempt_error (s := { diskPath := old }) rfl h
  exact ⟨e, Exec.bind_of_error he⟩

theorem create_of_error {e : String} (h : Passes c .mkdir) (hbody : c.createBody { diskPath := old } = (.error e, s)) :
    c.create { diskPath := old } = (.error e, cleaned c s) := by
  unfold create
  rw [Exec.bind_of_ok (attempt_ok rfl h), Exec.tryCatch_of_error hbody, cleanup_apply]

theorem create_of_ok (h : Passes c .mkdir) (hbody : c.createBody { diskPath := old } = (.ok b, s)) :
    c.create { diskPath := old } = (.ok b, s) := by
  unfold create
  rw [Exec.bind_of_ok (attempt_ok rfl h), Exec.tryCatch_of_ok hbody]

theorem call_kept {x : Disk Image} (hreset : c.reset = false) :
    c.materializeExplicitDisk { diskPath := some x } = finish c false false { diskPath := some x } := by
  unfold materializeExplicitDisk
  rw [Exec.bind_of_ok Exec.get_apply]
  simp [hreset, finish, Exec.bind_apply]

theorem call_created (hcreates : old = none ∨ c.reset = true) :
    c.materializeExplicitDisk { diskPath := old } = (c.create >>= finish c true) { diskPath := old } := by
  have hcreated : (!old.isSome || c.reset) = true := by
    rcases hcreates with rfl | hreset
    · rfl
    · simp [hreset]
  unfold materializeExplicitDisk
  rw [Exec.bind_of_ok Exec.get_apply]
  simp only [hcreated, if_true]
  rfl

theorem source_created (hcreates : old = none ∨ c.reset = true) : source c old = c.base := by
  rcases hcreates with rfl | hreset
  · rfl
  · cases old <;> simp [source, hreset]

/-- What the path holds and whether the temporary file is there decide it when the block throws. --/
theorem sound_thrown {e : String} (hcreates : old = none ∨ c.reset = true) (hmkdir : Passes c .mkdir)
    (hbody : Body c old false s) : Sound c old (.error e) (cleaned c s) ↔ ¬Lost c old ∧ ¬Leaves c old := by
  have hclean : (¬Leaves c old) ↔ ((cleaned c s).crashed = false → (cleaned c s).tmp = none) := by
    rw [cleaned_clean, ← not_iff_not, not_not]
    refine ⟨fun hl => ?_, fun hq => ?_⟩
    · exact not_or.mpr ⟨(throws_iff hbody).mp hl.throws, not_not.mpr hl.rmTmp⟩
    · obtain ⟨hquiet, hfails⟩ := not_or.mp hq
      exact ⟨hcreates, hmkdir, (throws_iff hbody).mpr hquiet, not_not.mp hfails⟩
  rw [hclean]
  rcases body_disk hbody with ⟨hdisk, hstrands⟩ | ⟨hdisk, hstrands⟩
  · refine ⟨fun h => ⟨fun hl => hstrands hl.strands, fun hc => h.clean hc rfl⟩, fun h => ⟨Or.inl ?_, ?_, fun hc _ => h.2 hc⟩⟩
    · rw [cleaned_disk, hdisk]
    · rw [cleaned_disk, hdisk]
      exact fun hne => hne
  · refine ⟨fun h => ⟨fun hl => h.kept hl.existed ?_, fun hc => h.clean hc rfl⟩, fun h => ?_⟩
    · rw [cleaned_disk, hdisk]
    · have hold : old = none := by
        by_contra hne
        exact h.1 ⟨hne, hcreates.resolve_left hne, hmkdir, hstrands⟩
      refine ⟨Or.inl ?_, fun hne => absurd hold hne, fun hc _ => h.2 hc⟩
      rw [cleaned_disk, hdisk, hold]

/-- The disk is safe, and no temporary file is left by a call that throws, exactly when an old disk is not removed without
    its successor getting to the path, and no temporary file is there that cannot be removed. --/
theorem sound_iff (c : MaterializeExplicitDiskOptions Image) (old : Option (Disk Image)) :
    Sound c old (c.materializeExplicitDisk { diskPath := old }).1 (c.materializeExplicitDisk { diskPath := old }).2 ↔
      ¬Lost c old ∧ ¬Leaves c old := by
  by_cases hcreates : old = none ∨ c.reset = true
  · rw [call_created hcreates]
    by_cases hmkdir : Passes c .mkdir
    · have hbody := body c old
      rcases hr : c.createBody { diskPath := old } with ⟨e | b, t⟩
      · rw [hr] at hbody
        rw [Exec.bind_of_error (create_of_error hmkdir hr)]
        exact sound_thrown hcreates hmkdir hbody
      · rw [hr] at hbody
        rw [Exec.bind_of_ok (create_of_ok hmkdir hr)]
        refine iff_of_true ?_ ⟨fun hl => ?_, fun hl => (throws_iff hbody).mp hl.throws ?_⟩
        · cases hbody with
          | @done image n hcopied hrm hrename =>
            obtain ⟨-, hsize, -, size, hle, hbase, -⟩ := hcopied
            obtain ⟨htmp, hdisk⟩ := finish_files (c := c) (x := ⟨image, n * mib⟩) true b
            have hnew : (finish c true b { diskPath := some ⟨image, n * mib⟩ }).2.diskPath = some ⟨image, n * mib⟩ := by
              rcases hdisk with hdisk | ⟨k, hk, -, hdisk⟩
              · exact hdisk
              · cases hk.unique hsize
                exact hdisk
            refine ⟨Or.inr ⟨_, hnew, n, size, hsize, ?_, hle, rfl⟩, ?_, fun _ _ => htmp⟩
            · rw [source_created hcreates, hbase]
            · rw [hnew]
              exact fun _ => nofun
        · cases hbody with
          | done hcopied hrm hrename => exact hl.strands.2.2 hrename
        · cases hbody with
          | done hcopied hrm hrename => exact Or.inl rfl
    · obtain ⟨e, he⟩ := create_of_mkdir old hmkdir
      rw [Exec.bind_of_error he]
      exact iff_of_true ⟨Or.inl rfl, fun hne => hne, fun _ _ => rfl⟩ ⟨fun hl => hmkdir hl.mkdir, fun hl => hmkdir hl.mkdir⟩
  · obtain ⟨hne, hreset⟩ := not_or.mp hcreates
    obtain ⟨x, rfl⟩ := Option.ne_none_iff_exists'.mp hne
    have hkeep : c.reset = false := by simpa using hreset
    rw [call_kept hkeep]
    refine iff_of_true ?_ ⟨fun hl => hreset hl.reset, fun hl => hcreates hl.creates⟩
    obtain ⟨htmp, hdisk | ⟨n, hsize, hle, hdisk⟩⟩ := finish_files (c := c) (x := x) false false
    · refine ⟨Or.inl hdisk, ?_, fun _ _ => htmp⟩
      rw [hdisk]
      exact fun hne => hne
    · refine ⟨Or.inr ⟨_, hdisk, n, x.size, hsize, ?_, hle, rfl⟩, ?_, fun _ _ => htmp⟩
      · simp [source, hkeep]
      · rw [hdisk]
        exact fun _ => nofun

end

def resetting (op : Op) : MaterializeExplicitDiskOptions String where
  diskPath := "/disk".toList
  id := "1-a".toList
  base := some ("B", mib)
  diskMiB := some 1
  reset := true
  fails op' := op' = op

/-- The renaming fails: the disk that was there is gone, and the new one too. --/
theorem disk_lost : ¬Sound (resetting .renameDisk) (some ⟨"A", mib⟩)
    ((resetting .renameDisk).materializeExplicitDisk { diskPath := some ⟨"A", mib⟩ }).1
    ((resetting .renameDisk).materializeExplicitDisk { diskPath := some ⟨"A", mib⟩ }).2 :=
  fun h => h.kept nofun (by decide)

end NodeVmm.ExplicitDisk
