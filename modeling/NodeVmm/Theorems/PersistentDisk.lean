import NodeVmm.Lib.Runs
import NodeVmm.PersistentDisk

/-! What the metadata of a named disk says about it. The refresh after a change of the size starts from the metadata
    that was read before the disk was replaced, so it may put an old source key back; a reset refuses a disk whose
    metadata cannot be read; and what fails after a change is undone only if no undoing operation fails. -/

namespace NodeVmm.PersistentDisk
open MaterializePersistentDiskOptions

variable {Image : Type}

/-! ### Operations -/

section
variable {c : MaterializePersistentDiskOptions Image} {d : Dir Image} {f g : Path} {file : Option (File Image)} {op : Op}
  {m : PersistentDiskMetadata} {b : Bool}

@[simp] theorem files_put : (d.put f file).files g = if g = f then file else d.files g := by
  show Function.update d.files f file g = _
  rw [Function.update_apply]

@[simp] theorem attempt_apply : c.attempt op d = if c.fails op then (.error "EIO", d) else (.ok (), d) := by
  unfold attempt Exec.check
  cases c.fails op <;> rfl

/-- The directory after a removal that may have failed. --/
def Dir.removed (failed : Bool) (f : Path) (d : Dir Image) : Dir Image := if failed then d else d.put f none

@[simp] theorem files_removed : (d.removed b f).files g = if g = f ∧ b = false then none else d.files g := by
  unfold Dir.removed
  cases b <;> simp

@[simp] theorem swallow_rm : swallow (c.rm op f) d = (.ok (), d.removed (c.fails op) f) := by
  unfold swallow rm
  rw [Exec.tryCatch_apply, Exec.bind_apply, attempt_apply]
  cases c.fails op <;> rfl

@[simp] theorem rename_apply : c.rename op f g d = if c.fails op then (.error "EIO", d) else
    match d.files f with
    | some file => (.ok (), (d.put f none).put g (some file))
    | none => (.error "ENOENT", d) := by
  unfold rename
  rw [Exec.bind_apply, attempt_apply]
  cases c.fails op with
  | true => rfl
  | false =>
    show (match d.files f with
      | some file => Exec.modify fun d : Dir Image => (d.put f none).put g (some file)
      | none => throw "ENOENT") d = _
    cases d.files f <;> rfl

/-- The directory after a renaming that may have failed. --/
def Dir.renamed (failed : Bool) (f g : Path) (d : Dir Image) : Dir Image :=
  if failed then d else
    match d.files f with
    | some file => (d.put f none).put g (some file)
    | none => d

@[simp] theorem renamed_ok {x : File Image} (h : d.files f = some x) :
    d.renamed false f g = (d.put f none).put g (some x) := by
  simp [Dir.renamed, h]

@[simp] theorem swallow_rename : swallow (c.rename op f g) d = (.ok (), d.renamed (c.fails op) f g) := by
  unfold swallow
  rw [Exec.tryCatch_apply, rename_apply, Dir.renamed]
  cases c.fails op with
  | true => rfl
  | false => cases d.files f <;> rfl

/-- The directory after a write that failed. --/
def Dir.tear (text : Option Text) (f : Path) (d : Dir Image) : Dir Image :=
  match text with
  | some text => d.put f (some (.torn text))
  | none => d

@[simp] theorem files_tear {text : Option Text} (h : g ≠ f) : (d.tear text f).files g = d.files g := by
  unfold Dir.tear
  split <;> simp [h]

@[simp] theorem writeFile_apply : c.writeFile op f m d =
    if c.fails op then (.error "EIO", d.tear (c.torn op) f) else (.ok (), d.put f (some (.json m))) := by
  unfold writeFile Dir.tear
  cases c.fails op with
  | true => cases c.torn op <;> rfl
  | false => rfl

@[simp] theorem onDir_apply {α : Type} {x : Disks Image α} {s : Installing Image} :
    onDir x s = ((x s.dir).1, { s with dir := (x s.dir).2 }) := rfl

end

/-! ### Replacing the pair -/

/-- The operations that undo a failed replacement do not fail where they have something to undo. --/
def Undoes (c : MaterializePersistentDiskOptions Image) (existed : Prop) : Prop :=
  (existed → c.fails .backupMeta = true ∨ c.fails .installDisk = true ∨ c.fails .installMeta = true →
    c.fails .restoreDisk = false ∧ c.fails .restoreMeta = false) ∧
  (¬existed → c.fails .installMeta = true → c.fails .undoDisk = false)

section
variable {c : MaterializePersistentDiskOptions Image} {d : Dir Image} {x old oldMeta : File Image} {id : Nat}
  {m : PersistentDiskMetadata} {e : String}

theorem install_ok (htmp : d.files (.tmpDiskPath id) = some x) (h : ∀ op, op ≠ .readMeta → c.fails op = false) :
    (c.installPersistentDiskPair id m d).1 = .ok () := by
  rcases hd : d.files .diskPath with _ | _ <;> rcases hm : d.files .metaPath with _ | _ <;>
    simp [installPersistentDiskPair, installBody, Exec.bind_apply, Exec.tryCatch_apply, h, hd, hm, htmp]

/-- No pair before: it is there afterwards, or it is not. --/
theorem install_new (htmp : d.files (.tmpDiskPath id) = some x) (hd : d.files .diskPath = none)
    (hm : d.files .metaPath = none) :
    (c.installPersistentDiskPair id m d).1 = .ok () ∧
      (c.installPersistentDiskPair id m d).2.files .diskPath = some x ∧
      (c.installPersistentDiskPair id m d).2.files .metaPath = some (.json m) ∨
    (c.installPersistentDiskPair id m d).1 = .error "EIO" ∧
      ((c.fails .installMeta = true → c.fails .undoDisk = false) →
        (c.installPersistentDiskPair id m d).2.files .diskPath = none ∧
        (c.installPersistentDiskPair id m d).2.files .metaPath = none) := by
  rcases h₁ : c.fails .writeTmpMeta with _ | _ <;> rcases h₂ : c.fails .installDisk with _ | _ <;>
    rcases h₃ : c.fails .installMeta with _ | _ <;>
    simp [installPersistentDiskPair, installBody, installUndo, Exec.bind_apply, Exec.tryCatch_apply, h₁, h₂, h₃, hd, hm,
      htmp]

theorem installUndo_ok {s : Installing Image} : (c.installUndo id s).1 = .ok () := by
  rcases h₁ : s.targetsCleared with _ | _ <;> rcases h₂ : s.backedDisk with _ | _ <;>
    rcases h₃ : s.backedMeta with _ | _ <;>
    simp [installUndo, Exec.bind_apply, h₁, h₂, h₃]

/-- Both old files are at their place, with nothing to remove, or in their backup. --/
def Undoable (id : Nat) (old oldMeta : File Image) (s : Installing Image) : Prop :=
  (s.dir.files .diskPath = some old ∧ s.targetsCleared = false ∧ s.backedDisk = false ∨
    s.dir.files (.backupDiskPath id) = some old ∧ s.backedDisk = true) ∧
  (s.dir.files .metaPath = some oldMeta ∧ s.targetsCleared = false ∧ s.backedMeta = false ∨
    s.dir.files (.backupMetaPath id) = some oldMeta ∧ s.backedMeta = true)

theorem Undoable.restored {s : Installing Image} (h : Undoable id old oldMeta s)
    (hd : s.backedDisk = true → c.fails .restoreDisk = false)
    (hm : s.backedMeta = true → c.fails .restoreMeta = false) :
    (c.installUndo id s).2.dir.files .diskPath = some old ∧
      (c.installUndo id s).2.dir.files .metaPath = some oldMeta := by
  rcases h.1 with ⟨h₁, h₂, h₃⟩ | ⟨h₁, h₂⟩ <;> rcases h.2 with ⟨h₄, h₅, h₆⟩ | ⟨h₄, h₅⟩
  · simp [installUndo, Exec.bind_apply, h₁, h₂, h₃, h₄, h₆]
  · simp [installUndo, Exec.bind_apply, h₁, h₂, h₃, h₄, h₅, hm h₅]
  · simp [installUndo, Exec.bind_apply, h₁, h₂, h₄, h₅, h₆, hd h₂]
  · rcases h₃ : s.targetsCleared with _ | _ <;>
      simp [installUndo, Exec.bind_apply, h₁, h₂, h₃, h₄, h₅, hd h₂, hm h₅]

/-- A replacement of a pair succeeds, or fails with the old files at their place or in their backup. --/
theorem installBody_old (htmp : d.files (.tmpDiskPath id) = some x) (hd : d.files .diskPath = some old)
    (hm : d.files .metaPath = some oldMeta) :
    (∃ s, c.installBody id m { dir := d } = (.ok (), s) ∧ s.dir.files .diskPath = some x ∧
      s.dir.files .metaPath = some (.json m)) ∨
    ∃ s, c.installBody id m { dir := d } = (.error "EIO", s) ∧ Undoable id old oldMeta s ∧
      (s.backedDisk = true ∨ s.backedMeta = true →
        c.fails .backupMeta = true ∨ c.fails .installDisk = true ∨ c.fails .installMeta = true) := by
  rcases h₁ : c.fails .writeTmpMeta with _ | _
  · rcases h₂ : c.fails .backupDisk with _ | _
    · rcases h₃ : c.fails .backupMeta with _ | _
      · rcases h₄ : c.fails .installDisk with _ | _
        · rcases h₅ : c.fails .installMeta with _ | _
          · left
            simp [installBody, Exec.bind_apply, h₁, h₂, h₃, h₄, h₅, hd, hm, htmp]
          · right
            simp [installBody, Exec.bind_apply, Undoable, h₁, h₂, h₃, h₄, h₅, hd, hm, htmp]
        · right
          simp [installBody, Exec.bind_apply, Undoable, h₁, h₂, h₃, h₄, hd, hm]
      · right
        simp [installBody, Exec.bind_apply, Undoable, h₁, h₂, h₃, hd, hm]
    · right
      simp [installBody, Exec.bind_apply, Undoable, h₁, h₂, hd, hm]
  · right
    simp [installBody, Exec.bind_apply, Undoable, h₁, hd, hm]

theorem install_old (htmp : d.files (.tmpDiskPath id) = some x) (hd : d.files .diskPath = some old)
    (hm : d.files .metaPath = some oldMeta) :
    (c.installPersistentDiskPair id m d).1 = .ok () ∧
      (c.installPersistentDiskPair id m d).2.files .diskPath = some x ∧
      (c.installPersistentDiskPair id m d).2.files .metaPath = some (.json m) ∨
    (c.installPersistentDiskPair id m d).1 = .error "EIO" ∧
      ((c.fails .backupMeta = true ∨ c.fails .installDisk = true ∨ c.fails .installMeta = true →
          c.fails .restoreDisk = false ∧ c.fails .restoreMeta = false) →
        (c.installPersistentDiskPair id m d).2.files .diskPath = some old ∧
        (c.installPersistentDiskPair id m d).2.files .metaPath = some oldMeta) := by
  rcases installBody_old (c := c) (m := m) htmp hd hm with ⟨s, hbody, hs⟩ | ⟨s, hbody, hback, hfail⟩
  · left
    rw [installPersistentDiskPair, Exec.tryCatch_of_ok hbody]
    exact ⟨rfl, hs⟩
  · right
    rcases hundo : c.installUndo id s with ⟨r, t⟩
    have hr : r = .ok () := (congrArg Prod.fst hundo).symm.trans installUndo_ok
    subst hr
    rw [installPersistentDiskPair, Exec.tryCatch_of_error hbody, Exec.bind_of_ok hundo]
    refine ⟨rfl, fun hrestore => ?_⟩
    have hfiles := hback.restored (c := c) (fun hb => (hrestore (hfail (.inl hb))).1) fun hb => (hrestore (hfail (.inr hb))).2
    rw [hundo] at hfiles
    exact hfiles

end

/-! ### What the metadata says -/

/-- A size that can be asked for, and a base image that fits in it. --/
structure Fits (c : MaterializePersistentDiskOptions Image) (n : Nat) (image : Image) (size : Nat) : Prop where
  diskMiB : c.diskMiB = some (.ofNat n)
  pos : 0 < n
  base : c.base = some (image, size)
  le : size ≤ n * mib

/-- The request cannot be met, or an operation other than the reading of the metadata fails. --/
def Blocked (c : MaterializePersistentDiskOptions Image) : Prop :=
  validName c.name = false ∨ (¬∃ n image size, Fits c n image size) ∨ ∃ op, op ≠ .readMeta ∧ c.fails op = true

structure Records (m : PersistentDiskMetadata) (x : Disk Image) : Prop where
  kind : m.kind = persistentDiskKind
  version : m.version = persistentDiskMetadataVersion
  sourceKey : m.sourceKey = x.origin.sourceKey
  sizeMiB : ∃ n : Nat, m.sizeMiB = some (.ofNat n) ∧ n * mib = x.size
  updatedAt : x.origin.call ≤ m.updatedAt.call

/-- Both files or none, and the metadata records the disk. --/
inductive Truthful (d : Dir Image) : Prop where
  | none (hd : d.files .diskPath = none) (hm : d.files .metaPath = none)
  | pair {x : Disk Image} {m : PersistentDiskMetadata} (hd : d.files .diskPath = some (.disk x))
    (hm : d.files .metaPath = some (.json m)) (hr : Records m x) (hcall : x.origin.call < d.calls)

/-- The time of creation is of the call that copied the disk. --/
def CreatedWith (d : Dir Image) : Prop :=
  ∀ x m, d.files .diskPath = some (.disk x) → d.files .metaPath = some (.json m) → m.createdAt.call = x.origin.call

section
variable {c : MaterializePersistentDiskOptions Image} {d t : Dir Image} {x : Disk Image} {id n size : Nat} {image : Image}
  {m : PersistentDiskMetadata} {e : String} {f : Path}

/-- A disk is extended to the size, or is as it was. --/
theorem ensure_cases (stat truncate : Op) (path : Text) (hf : d.files f = some (.disk x)) :
    (∃ n t, c.diskMiB = some (.ofNat n) ∧ 0 < n ∧ x.size ≤ n * mib ∧ (x.size < n * mib → c.fails truncate = false) ∧
      c.ensureDiskSizeAtLeast stat truncate f path d = (.ok (decide (x.size < n * mib)), t) ∧
      ∀ g, t.files g = if g = f then some (.disk { x with size := n * mib }) else d.files g) ∨
    ∃ e, c.ensureDiskSizeAtLeast stat truncate f path d = (.error e, d) ∧
      (c.fails stat = true ∨ c.fails truncate = true ∨
        ¬∃ n, c.diskMiB = some (.ofNat n) ∧ 0 < n ∧ x.size ≤ n * mib) := by
  have hbad : (∀ n, c.diskMiB ≠ some (.ofNat (n + 1))) → ∃ e, c.ensureDiskSizeAtLeast stat truncate f path d = (.error e, d) ∧
      (c.fails stat = true ∨ c.fails truncate = true ∨
        ¬∃ n, c.diskMiB = some (.ofNat n) ∧ 0 < n ∧ x.size ≤ n * mib) := by
    intro hn
    refine ⟨"disk size must be a positive integer MiB value", ?_, .inr (.inr ?_)⟩
    · unfold ensureDiskSizeAtLeast
      rcases hc : c.diskMiB with _ | (_ | k) | k
      · rfl
      · rfl
      · exact absurd hc (hn k)
      · rfl
    · rintro ⟨k, hk, hpos, -⟩
      obtain ⟨j, rfl⟩ := Nat.exists_eq_succ_of_ne_zero hpos.ne'
      exact hn j hk
  by_cases hex : ∃ n, c.diskMiB = some (.ofNat (n + 1))
  · obtain ⟨n, hn⟩ := hex
    simp only [ensureDiskSizeAtLeast, hn]
    rcases hstat : c.fails stat with _ | _
    · rcases lt_trichotomy x.size ((n + 1) * mib) with hlt | heq | hgt
      · rcases htruncate : c.fails truncate with _ | _
        · left
          refine ⟨n + 1, d.put f (some (.disk { x with size := (n + 1) * mib })), rfl, Nat.succ_pos n, hlt.le,
            fun _ => rfl, ?_, fun g => files_put⟩
          simp [Exec.bind_apply, hstat, hf, htruncate, hlt, hlt.not_gt, hlt.ne]
        · right
          refine ⟨"EIO", ?_, .inr (.inl rfl)⟩
          simp [Exec.bind_apply, hstat, hf, htruncate, hlt.not_gt, hlt.ne]
      · left
        refine ⟨n + 1, d, rfl, Nat.succ_pos n, heq.le, fun hlt => absurd heq hlt.ne, ?_, fun g => ?_⟩
        · simp [Exec.bind_apply, hstat, hf, heq]
        · rw [← heq]
          split
          · rename_i hg
            rw [hg, hf]
          · rfl
      · right
        refine ⟨"cannot shrink disk " ++ path.str ++ " from " ++ toString ((x.size + mib - 1) / mib) ++ " MiB to " ++
          toString (n + 1) ++ " MiB", ?_, .inr (.inr ?_)⟩
        · simp [Exec.bind_apply, hstat, hf, hgt]
        · rintro ⟨k, hk, -, hle⟩
          cases hk
          exact absurd hle (Nat.not_le.mpr hgt)
    · right
      exact ⟨"EIO", by simp [Exec.bind_apply, hstat], .inl rfl⟩
  · exact .inr (hbad fun n hn => hex ⟨n, hn⟩)

/-- The metadata of a new disk. --/
def createdMetadata (c : MaterializePersistentDiskOptions Image) (id : Nat) (metadata : Option PersistentDiskMetadata) :
    PersistentDiskMetadata where
  kind := persistentDiskKind
  version := persistentDiskMetadataVersion
  name := c.name
  sourceKey := c.sourceKey
  sizeMiB := c.diskMiB
  createdAt := (metadata.map PersistentDiskMetadata.createdAt).getD ⟨id, c.now⟩
  updatedAt := ⟨id, c.now⟩

/-- A new pair is in place, or the old files are. --/
theorem install_cases {y : File Image} (hp : d.files .diskPath = none ↔ d.files .metaPath = none) (htmp : d.files (.tmpDiskPath id) = some y) :
    (∃ t, c.installPersistentDiskPair id m d = (.ok (), t) ∧ t.files .diskPath = some y ∧
      t.files .metaPath = some (.json m)) ∨
    ∃ e t, c.installPersistentDiskPair id m d = (.error e, t) ∧ (∃ op, op ≠ .readMeta ∧ c.fails op = true) ∧
      (Undoes c (d.files .diskPath ≠ none) →
        t.files .diskPath = d.files .diskPath ∧ t.files .metaPath = d.files .metaPath) := by
  have hfail : (c.installPersistentDiskPair id m d).1 = .error "EIO" → ∃ op, op ≠ .readMeta ∧ c.fails op = true := by
    intro he
    by_contra hnone
    have hall : ∀ op, op ≠ .readMeta → c.fails op = false := fun op hop =>
      Bool.eq_false_iff.mpr fun h => hnone ⟨op, hop, h⟩
    rw [install_ok htmp hall] at he
    cases he
  rcases hinstall : c.installPersistentDiskPair id m d with ⟨r, t⟩
  rw [hinstall] at hfail
  rcases hd : d.files .diskPath with _ | old
  · have hm := hp.mp hd
    have hnew := install_new (c := c) (m := m) htmp hd hm
    rw [hinstall] at hnew
    rcases hnew with ⟨hr, hfiles⟩ | ⟨hr, hundo⟩
    · exact .inl ⟨t, by rw [← hr], hfiles⟩
    · refine .inr ⟨_, t, by rw [← hr], hfail hr, fun h => ?_⟩
      rw [hm]
      exact hundo (h.2 fun hne => hne rfl)
  · obtain ⟨oldMeta, hm⟩ := Option.ne_none_iff_exists'.mp fun h => nomatch hd.symm.trans (hp.mpr h)
    have hold := install_old (c := c) (m := m) htmp hd hm
    rw [hinstall] at hold
    rcases hold with ⟨hr, hfiles⟩ | ⟨hr, hundo⟩
    · exact .inl ⟨t, by rw [← hr], hfiles⟩
    · refine .inr ⟨_, t, by rw [← hr], hfail hr, fun h => ?_⟩
      rw [hm]
      exact hundo (h.1 nofun)

/-- The base image is at the temporary path, or nothing is done. --/
theorem copyBase_cases (id : Nat) : (∃ image size, c.base = some (image, size) ∧
      c.copyBase id d = (.ok (), d.put (.tmpDiskPath id) (some (.disk ⟨image, size, ⟨id, c.sourceKey⟩⟩)))) ∨
    ∃ e, c.copyBase id d = (.error e, d) ∧ (c.base = none ∨ c.fails .copyDisk = true) := by
  rcases hcopy : c.fails .copyDisk with _ | _
  · rcases hbase : c.base with _ | ⟨image, size⟩
    · exact .inr ⟨"ENOENT", by simp [copyBase, Exec.bind_apply, hcopy, hbase], .inl rfl⟩
    · exact .inl ⟨image, size, rfl, by simp [copyBase, Exec.bind_apply, hcopy, hbase]⟩
  · exact .inr ⟨"EIO", by simp [copyBase, Exec.bind_apply, hcopy], .inr rfl⟩

/-- A call that creates has replaced the pair, or left it as it was. --/
theorem create_cases (id : Nat) (metadata : Option PersistentDiskMetadata)
    (hp : d.files .diskPath = none ↔ d.files .metaPath = none) :
    (∃ n image size t, Fits c n image size ∧ c.create id metadata d = (.ok (decide (size < n * mib)), t) ∧
      t.files .diskPath = some (.disk ⟨image, n * mib, ⟨id, c.sourceKey⟩⟩) ∧
      t.files .metaPath = some (.json (createdMetadata c id metadata))) ∨
    ∃ e t, c.create id metadata d = (.error e, t) ∧
      ((¬∃ n image size, Fits c n image size) ∨ ∃ op, op ≠ .readMeta ∧ c.fails op = true) ∧
      (Undoes c (d.files .diskPath ≠ none) →
        t.files .diskPath = d.files .diskPath ∧ t.files .metaPath = d.files .metaPath) := by
  have hhandler : ∀ e u, (do swallow (c.rm .rmTmp (.tmpDiskPath id)); throw e : Disks Image Bool) u =
      (.error e, u.removed (c.fails .rmTmp) (.tmpDiskPath id)) := fun e u => by
    simp [Exec.bind_apply]
  unfold create
  rcases copyBase_cases (c := c) (d := d) id with ⟨image, size, hbase, hcopy⟩ | ⟨e, hcopy, hwhy⟩
  · rcases ensure_cases (c := c) (d := d.put (.tmpDiskPath id) (some (.disk ⟨image, size, ⟨id, c.sourceKey⟩⟩)))
      (f := .tmpDiskPath id) .statTmp .truncateTmp (c.tmpPath id) (if_pos rfl) with
      ⟨n, u, hn, hpos, hle, -, hensure, hfiles⟩ | ⟨e, hensure, hwhy⟩
    · have hd : u.files .diskPath = d.files .diskPath := by simp [hfiles]
      have hm : u.files .metaPath = d.files .metaPath := by simp [hfiles]
      rcases install_cases (c := c) (m := createdMetadata c id metadata) (by rw [hd, hm]; exact hp) ((hfiles _).trans (if_pos rfl))
        with ⟨t, hinstall, hdisk, hmeta⟩ | ⟨e, t, hinstall, hwhy, hundo⟩
      · left
        refine ⟨n, image, size, t, ⟨hn, hpos, hbase, hle⟩, ?_, hdisk, hmeta⟩
        rw [Exec.tryCatch_of_ok]
        rw [Exec.bind_of_ok hcopy, Exec.bind_of_ok hensure]
        exact Exec.bind_of_ok hinstall
      · right
        rw [Exec.tryCatch_of_error ((Exec.bind_of_ok hcopy).trans ((Exec.bind_of_ok hensure).trans
          (Exec.bind_of_error hinstall))), hhandler]
        refine ⟨e, _, rfl, .inr hwhy, fun h => ?_⟩
        rw [← hd, ← hm]
        simp only [files_removed]
        exact hundo (hd ▸ h)
    · right
      rw [Exec.tryCatch_of_error ((Exec.bind_of_ok hcopy).trans (Exec.bind_of_error hensure)), hhandler]
      refine ⟨e, _, rfl, ?_, fun _ => by simp⟩
      rcases hwhy with h | h | h
      · exact .inr ⟨.statTmp, nofun, h⟩
      · exact .inr ⟨.truncateTmp, nofun, h⟩
      · refine .inl fun ⟨n, i, k, hfits⟩ => h ⟨n, hfits.diskMiB, hfits.pos, ?_⟩
        have hsize := hfits.le
        have hsame := hbase.symm.trans hfits.base
        cases hsame
        exact hsize
  · right
    rw [Exec.tryCatch_of_error (Exec.bind_of_error hcopy), hhandler]
    refine ⟨e, _, rfl, ?_, fun _ => by simp⟩
    rcases hwhy with h | h
    · exact .inl fun ⟨n, i, k, hfits⟩ => nomatch h.symm.trans hfits.base
    · exact .inr ⟨.copyDisk, nofun, h⟩

/-- The metadata is replaced, or is as it was. --/
theorem writePersistentMetadataAtomic_cases (id : Nat) :
    (∃ t, c.writePersistentMetadataAtomic id m d = (.ok (), t) ∧ t.files .diskPath = d.files .diskPath ∧
      t.files .metaPath = some (.json m)) ∨
    ∃ e t, c.writePersistentMetadataAtomic id m d = (.error e, t) ∧ t.files .diskPath = d.files .diskPath ∧
      t.files .metaPath = d.files .metaPath ∧ (c.fails .writeMeta = true ∨ c.fails .renameMeta = true) := by
  rcases hwrite : c.fails .writeMeta with _ | _ <;> rcases hrename : c.fails .renameMeta with _ | _ <;>
    simp [writePersistentMetadataAtomic, Exec.bind_apply, Exec.tryCatch_apply, hwrite, hrename]

theorem readPersistentMetadata_none (hm : d.files .metaPath = none) :
    c.readPersistentMetadata d = (.ok none, d) := by
  simp [readPersistentMetadata, Exec.bind_apply, hm]

theorem readPersistentMetadata_some (hm : d.files .metaPath = some (.json m)) (hr : Records m x) :
    c.readPersistentMetadata d = (.ok (if c.fails .readMeta then none else some m), d) := by
  simp [readPersistentMetadata, Exec.bind_apply, hm, hr.kind, hr.version]

/-- The metadata is refreshed if there is a change, or is as it was. --/
theorem refresh_cases (id : Nat) (metadata : Option PersistentDiskMetadata) (created resized : Bool) :
    (∃ v t, c.refresh id metadata created resized d = (.ok v, t) ∧ v.created = created ∧
      t.files .diskPath = d.files .diskPath ∧
      (t.files .metaPath = some (.json (c.refreshed id metadata)) ∧
          (resized = true ∨ ∃ m ∈ metadata, m.sizeMiB ≠ c.diskMiB) ∨
        t.files .metaPath = d.files .metaPath ∧ resized = false ∧ ∀ m ∈ metadata, m.sizeMiB = c.diskMiB)) ∨
    ∃ e t, c.refresh id metadata created resized d = (.error e, t) ∧
      (resized = true ∨ ∃ m ∈ metadata, m.sizeMiB ≠ c.diskMiB) ∧
      t.files .diskPath = d.files .diskPath ∧ t.files .metaPath = d.files .metaPath ∧
      (c.fails .writeMeta = true ∨ c.fails .renameMeta = true) := by
  unfold refresh
  rcases hchanged : resized || metadata.any (fun m => m.sizeMiB ≠ c.diskMiB) with _ | _
  · obtain ⟨hresized, hsame⟩ := Bool.or_eq_false_iff.mp hchanged
    refine .inl ⟨⟨c.diskPath, resized, created⟩, d, congrFun (if_neg (Bool.eq_false_iff.mp hchanged)) d, rfl, rfl,
      .inr ⟨rfl, hresized, ?_⟩⟩
    intro m hm
    rw [Option.mem_def.mp hm] at hsame
    exact not_not.mp (of_decide_eq_false hsame)
  · have hchange : resized = true ∨ ∃ m ∈ metadata, m.sizeMiB ≠ c.diskMiB := by
      rcases (Bool.or_eq_true ..).mp hchanged with h | h
      · exact .inl h
      · obtain ⟨m, hm, hne⟩ := (Option.any_eq_true ..).mp h
        exact .inr ⟨m, hm, of_decide_eq_true hne⟩
    rcases writePersistentMetadataAtomic_cases (c := c) (d := d) (m := c.refreshed id metadata) id with
      ⟨t, hwrite, hdisk, hjson⟩ | ⟨e, t, hwrite, hdisk, hjson, hwhy⟩
    · exact .inl ⟨⟨c.diskPath, resized, created⟩, t, (congrFun (if_pos hchanged) d).trans (Exec.bind_of_ok hwrite), rfl,
        hdisk, .inl ⟨hjson, hchange⟩⟩
    · exact .inr ⟨e, t, (congrFun (if_pos hchanged) d).trans (Exec.bind_of_error hwrite), hchange, hdisk, hjson, hwhy⟩

/-! ### A call -/

/-- The conditions on a call: what undoes a failed replacement does not fail, the metadata of an extended disk is
    written, and a reset can read the metadata and, if it changes a size, does not change the source key. --/
structure Careful (d : Dir Image) (c : MaterializePersistentDiskOptions Image) : Prop where
  undo : c.reset = true ∨ d.files .diskPath = none → Undoes c (d.files .diskPath ≠ none)
  grow : ∀ x n, c.reset = false → d.files .diskPath = some (.disk x) → x.origin.sourceKey = c.sourceKey →
    c.diskMiB = some (.ofNat n) → x.size < n * mib → c.fails .truncateDisk = false →
    c.fails .writeMeta = false ∧ c.fails .renameMeta = false
  reset : ∀ x, c.reset = true → d.files .diskPath = some (.disk x) → c.fails .readMeta = false ∧
    (x.origin.sourceKey = c.sourceKey ∨
      ∀ n image size, Fits c n image size → size = n * mib ∧ x.size = n * mib)

/-- The call does not replace a disk. --/
def Fresh (d : Dir Image) (c : MaterializePersistentDiskOptions Image) : Prop :=
  c.reset = false ∨ d.files .diskPath = none

/-- What a call answers: without a reset a disk of its source key, with a reset a new one, whatever the metadata is. --/
structure Serves (d : Dir Image) (c : MaterializePersistentDiskOptions Image) (r : Except String MaterializedDisk)
    (t : Dir Image) : Prop where
  sameSource : c.reset = false → ∀ v, r = .ok v → ∃ x, t.files .diskPath = some (.disk x) ∧
    x.origin.sourceKey = c.sourceKey
  recreated : c.reset = true → ∀ v, r = .ok v → v.created = true ∧ ∃ n image size, Fits c n image size ∧
    t.files .diskPath = some (.disk ⟨image, n * mib, ⟨d.calls, c.sourceKey⟩⟩)
  returned : c.reset = true → ¬Blocked c → ∃ v, r = .ok v

structure Outcome (d : Dir Image) (c : MaterializePersistentDiskOptions Image) (r : Except String MaterializedDisk)
    (t : Dir Image) : Prop extends Serves d c r t where
  truthful : Truthful { t with calls := d.calls + 1 }
  createdWith : Fresh d c → CreatedWith d → CreatedWith t

/-- A call that fails with the files as they were. --/
theorem Outcome.unchanged (ht : Truthful d) (hdisk : t.files .diskPath = d.files .diskPath)
    (hmeta : t.files .metaPath = d.files .metaPath) (hblocked : c.reset = true → Blocked c) :
    Outcome d c (.error e) t where
  truthful := by
    cases ht with
    | none hd hm => exact .none (hdisk.trans hd) (hmeta.trans hm)
    | pair hd hm hr hcall => exact .pair (hdisk.trans hd) (hmeta.trans hm) hr (Nat.lt_succ_of_lt hcall)
  createdWith _ h := fun x m hd hm => h x m (hdisk.symm.trans hd) (hmeta.symm.trans hm)
  sameSource _ _ h := nomatch h
  recreated _ _ h := nomatch h
  returned hreset hno := absurd (hblocked hreset) hno

/-- A call after which the disk is its own. --/
theorem Outcome.own {r : Except String MaterializedDisk} (hd : t.files .diskPath = some (.disk x))
    (hm : t.files .metaPath = some (.json m)) (hr : Records m x) (hfits : Fits c n image size)
    (hx : x = ⟨image, n * mib, ⟨d.calls, c.sourceKey⟩⟩) (hcreated : Fresh d c → m.createdAt.call = d.calls)
    (hok : ∀ v, r = .ok v → v.created = true) (herror : ∀ e, r = .error e → Blocked c) : Outcome d c r t where
  truthful := .pair hd hm hr (by rw [hx]; exact Nat.lt_succ_self _)
  createdWith hfresh _ := fun y k hy hk => by
    cases hd.symm.trans hy
    cases hm.symm.trans hk
    rw [hx]
    exact hcreated hfresh
  sameSource _ _ _ := ⟨x, hd, by rw [hx]⟩
  recreated _ v hv := ⟨hok v hv, n, image, size, hfits, hx ▸ hd⟩
  returned _ hno := by
    rcases r with e | v
    · exact absurd (herror e rfl) hno
    · exact ⟨v, rfl⟩

/-- The metadata that a call that replaces the disk may find. --/
def Carries (c : MaterializePersistentDiskOptions Image) (m : PersistentDiskMetadata) : Prop :=
  m.kind = persistentDiskKind ∧ m.version = persistentDiskMetadataVersion ∧
    (m.sourceKey = c.sourceKey ∨ ∀ n image size, Fits c n image size → size = n * mib ∧ m.sizeMiB = c.diskMiB)

/-- A refresh that keeps the old source key is one of the same key. --/
theorem refreshed_records {metadata : Option PersistentDiskMetadata} (hfits : Fits c n image size)
    (hcarries : ∀ m ∈ metadata, Carries c m)
    (hsizes : ∀ m ∈ metadata, ¬∀ n image size, Fits c n image size → size = n * mib ∧ m.sizeMiB = c.diskMiB) :
    Records (c.refreshed id metadata) (⟨image, n * mib, ⟨id, c.sourceKey⟩⟩ : Disk Image) := by
  rcases metadata with _ | m
  · exact ⟨rfl, rfl, rfl, ⟨n, hfits.diskMiB, rfl⟩, Nat.le_refl _⟩
  · obtain ⟨hkind, hversion, hkey⟩ := hcarries m rfl
    exact ⟨hkind, hversion, hkey.resolve_right (hsizes m rfl), ⟨n, hfits.diskMiB, rfl⟩, Nat.le_refl _⟩

theorem outcome_created {metadata : Option PersistentDiskMetadata} (ht : Truthful d)
    (hundo : Undoes c (d.files .diskPath ≠ none)) (hcarries : ∀ m ∈ metadata, Carries c m)
    (hfresh : Fresh d c → metadata = none) {r : Except String MaterializedDisk}
    (h : (do
      let createdResized ← c.create d.calls metadata
      let resized := (← c.ensureDiskSizeAtLeast .statDisk .truncateDisk .diskPath c.diskPath) || createdResized
      c.refresh d.calls metadata true resized) d = (r, t)) : Outcome d c r t := by
  have hpaired : d.files .diskPath = none ↔ d.files .metaPath = none := by
    cases ht with
    | none hd hm => simp [hd, hm]
    | pair hd hm => simp [hd, hm]
  rcases create_cases (c := c) d.calls metadata hpaired with
    ⟨n, image, size, u, hfits, hcreate, hd, hm⟩ | ⟨e, u, hcreate, hwhy, hsame⟩
  · rw [Exec.bind_of_ok hcreate] at h
    have hrecords : Records (createdMetadata c d.calls metadata) ⟨image, n * mib, ⟨d.calls, c.sourceKey⟩⟩ :=
      ⟨rfl, rfl, rfl, ⟨n, hfits.diskMiB, rfl⟩, Nat.le_refl _⟩
    have hcreated : Fresh d c → (createdMetadata c d.calls metadata).createdAt.call = d.calls := fun hf => by
      rw [hfresh hf]
      rfl
    rcases ensure_cases (c := c) .statDisk .truncateDisk c.diskPath hd with
      ⟨k, w, hk, -, -, -, hensure, hfiles⟩ | ⟨e, hensure, hwhy⟩
    · rw [Exec.bind_of_ok hensure] at h
      cases hk.symm.trans hfits.diskMiB
      have hwd : w.files .diskPath = some (.disk ⟨image, n * mib, ⟨d.calls, c.sourceKey⟩⟩) := (hfiles _).trans (if_pos rfl)
      have hwm : w.files .metaPath = some (.json (createdMetadata c d.calls metadata)) := ((hfiles _).trans (if_neg nofun)).trans hm
      rcases refresh_cases (c := c) (d := w) d.calls metadata true
        (decide (n * mib < n * mib) || decide (size < n * mib)) with
        ⟨v, t', hrefresh, hv, htd, htm | htm⟩ | ⟨e, t', hrefresh, -, htd, htm, hwhy⟩
      · cases hrefresh.symm.trans h
        obtain ⟨htm, hchange⟩ := htm
        refine .own (htd.trans hwd) htm (refreshed_records hfits hcarries ?_) hfits rfl (fun hf => ?_)
          (fun _ he => by cases he; exact hv) nofun
        · rintro m hm hsizes
          obtain ⟨hsize, hsame⟩ := hsizes n image size hfits
          rcases hchange with h | ⟨k, hk, hne⟩
          · simp [hsize] at h
          · cases hm.symm.trans hk
            exact hne hsame
        · rw [hfresh hf]
          rfl
      · cases hrefresh.symm.trans h
        exact .own (htd.trans hwd) (htm.1.trans hwm) hrecords hfits rfl hcreated (fun _ he => by cases he; exact hv) nofun
      · cases hrefresh.symm.trans h
        refine .own (htd.trans hwd) (htm.trans hwm) hrecords hfits rfl hcreated nofun fun _ _ => .inr (.inr ?_)
        rcases hwhy with h | h
        · exact ⟨.writeMeta, nofun, h⟩
        · exact ⟨.renameMeta, nofun, h⟩
    · rw [Exec.bind_of_error hensure] at h
      cases h
      refine .own hd hm hrecords hfits rfl hcreated nofun fun _ _ => ?_
      rcases hwhy with h | h | h
      · exact .inr (.inr ⟨.statDisk, nofun, h⟩)
      · exact .inr (.inr ⟨.truncateDisk, nofun, h⟩)
      · exact absurd ⟨n, hfits.diskMiB, hfits.pos, Nat.le_refl _⟩ h
  · rw [Exec.bind_of_error hcreate] at h
    cases h
    obtain ⟨hdisk, hmeta⟩ := hsame hundo
    exact .unchanged ht hdisk hmeta fun _ => .inr hwhy

/-- A call that keeps the disk, of its source key, at most extends it. --/
theorem outcome_kept (hc : Careful d c) (hreset : c.reset = false) (hd : d.files .diskPath = some (.disk x))
    (hm : d.files .metaPath = some (.json m)) (hr : Records m x) (hcall : x.origin.call < d.calls)
    (hkey : m.sourceKey = c.sourceKey) {r : Except String MaterializedDisk}
    (h : (do
      let resized := (← c.ensureDiskSizeAtLeast .statDisk .truncateDisk .diskPath c.diskPath) || false
      c.refresh d.calls (some m) false resized) d = (r, t)) : Outcome d c r t := by
  have ht : Truthful d := .pair hd hm hr hcall
  have hno : ∀ {P : Prop}, c.reset = true → P := fun hreset' => nomatch hreset.symm.trans hreset'
  rcases ensure_cases (c := c) .statDisk .truncateDisk c.diskPath hd with
    ⟨n, w, hn, hpos, hle, htruncate, hensure, hfiles⟩ | ⟨e, hensure, hwhy⟩
  · rw [Exec.bind_of_ok hensure] at h
    have hwd : w.files .diskPath = some (.disk { x with size := n * mib }) := (hfiles _).trans (if_pos rfl)
    have hwm : w.files .metaPath = some (.json m) := ((hfiles _).trans (if_neg nofun)).trans hm
    have hsame : c.reset = false → ∀ v, r = .ok v → ∃ y, w.files .diskPath = some (.disk y) ∧
        y.origin.sourceKey = c.sourceKey := fun _ _ _ => ⟨_, hwd, hr.sourceKey.symm.trans hkey⟩
    rcases refresh_cases (c := c) (d := w) d.calls (some m) false
      (decide (x.size < n * mib) || false) with
      ⟨v, t', hrefresh, hv, htd, ⟨htm, -⟩ | ⟨htm, hresized, -⟩⟩ | ⟨e, t', hrefresh, hchange, htd, htm, hwhy⟩
    · cases hrefresh.symm.trans h
      have hrec : Records (c.refreshed d.calls (some m)) { x with size := n * mib } :=
        ⟨hr.kind, hr.version, hr.sourceKey, ⟨n, hn, rfl⟩, hcall.le⟩
      refine ⟨⟨?_, hno, hno⟩, .pair (htd.trans hwd) htm hrec (Nat.lt_succ_of_lt hcall), fun _ hwith => ?_⟩
      · rw [htd]
        exact hsame
      · intro y k hy hk
        cases (htd.trans hwd).symm.trans hy
        cases htm.symm.trans hk
        exact hwith x m hd hm
    · cases hrefresh.symm.trans h
      have hsize : x.size = n * mib := by
        simp only [Bool.or_false, decide_eq_false_iff_not] at hresized
        omega
      rw [← hsize] at hwd
      refine ⟨⟨?_, hno, hno⟩, .pair (htd.trans hwd) (htm.trans hwm) hr (Nat.lt_succ_of_lt hcall), fun _ hwith => ?_⟩
      · rw [htd]
        exact hsame
      · intro y k hy hk
        cases (htd.trans hwd).symm.trans hy
        cases (htm.trans hwm).symm.trans hk
        exact hwith x m hd hm
    · -- The metadata was to be written: the disk was extended, so the write does not fail.
      exfalso
      rcases Nat.lt_or_ge x.size (n * mib) with hlt | hge
      · obtain ⟨hwrite, hrename⟩ := hc.grow x n hreset hd (hr.sourceKey.symm.trans hkey) hn hlt (htruncate hlt)
        rcases hwhy with h | h
        · exact nomatch hwrite.symm.trans h
        · exact nomatch hrename.symm.trans h
      · rcases hchange with h | ⟨k, hk, hne⟩
        · simp [Nat.not_lt.mpr hge] at h
        · cases hk
          obtain ⟨j, hj, hsize⟩ := hr.sizeMiB
          have hjn : j = n := Nat.eq_of_mul_eq_mul_right (Nat.succ_pos _) (hsize.trans (le_antisymm hle hge))
          exact hne (hj.trans (hjn ▸ hn.symm))
  · rw [Exec.bind_of_error hensure] at h
    cases h
    exact .unchanged ht rfl rfl hno

theorem outcome (ht : Truthful d) (hc : Careful d c) {r : Except String MaterializedDisk}
    (h : c.materializePersistentDisk d.calls d = (r, t)) : Outcome d c r t := by
  unfold materializePersistentDisk at h
  rcases hname : validName c.name with _ | _
  · rw [Exec.bind_of_error (Exec.check_of_false hname)] at h
    cases h
    exact .unchanged ht rfl rfl fun _ => .inl hname
  rw [Exec.bind_of_ok (Exec.check_of_true hname)] at h
  rcases hmkdir : c.fails .mkdir with _ | _
  · rw [Exec.bind_of_ok (show c.attempt .mkdir d = (.ok (), d) by simp [hmkdir]), Exec.bind_of_ok Exec.get_apply] at h
    cases ht with
    | none hd hm =>
      rw [Exec.bind_of_ok (readPersistentMetadata_none hm)] at h
      simp only [hd, Option.isSome_none, Bool.false_and, Bool.false_eq_true, if_false, Bool.not_false, Bool.true_or,
        if_true] at h
      exact outcome_created (.none hd hm) (hc.undo (.inr hd)) (by simp) (fun _ => rfl) h
    | @pair x m hd hm hr hcall =>
      have ht : Truthful d := .pair hd hm hr hcall
      rw [Exec.bind_of_ok (readPersistentMetadata_some hm hr)] at h
      rcases hread : c.fails .readMeta with _ | _
      · rcases hreset : c.reset with _ | _
        · by_cases hkey : m.sourceKey = c.sourceKey
          · simp [hread, hreset, hd, hkey] at h
            exact outcome_kept hc hreset hd hm hr hcall hkey h
          · simp [hread, hreset, hd, hkey, Exec.bind_apply] at h
            obtain ⟨rfl, rfl⟩ := h
            exact .unchanged ht rfl rfl fun hreset' => nomatch hreset.symm.trans hreset'
        · simp [hread, hreset, hd] at h
          refine outcome_created ht (hc.undo (.inl hreset)) ?_ ?_ h
          · rintro k hk
            cases hk
            refine ⟨hr.kind, hr.version, ?_⟩
            rcases (hc.reset x hreset hd).2 with hkey | hsizes
            · exact .inl (hr.sourceKey.trans hkey)
            · refine .inr fun n image size hfits => ?_
              obtain ⟨hsize, hold⟩ := hsizes n image size hfits
              obtain ⟨j, hj, hjsize⟩ := hr.sizeMiB
              have hjn : j = n := Nat.eq_of_mul_eq_mul_right (Nat.succ_pos _) (hjsize.trans hold)
              exact ⟨hsize, hj.trans (hjn ▸ hfits.diskMiB.symm)⟩
          · rintro (h | h)
            · exact nomatch hreset.symm.trans h
            · exact nomatch hd.symm.trans h
      · simp [hread, hd, Exec.bind_apply] at h
        obtain ⟨rfl, rfl⟩ := h
        refine .unchanged ht rfl rfl fun hreset => ?_
        exact nomatch (hc.reset x hreset hd).1.symm.trans hread
  · rw [Exec.bind_of_error (show c.attempt .mkdir d = (.error "EIO", d) by simp [hmkdir])] at h
    cases h
    exact .unchanged ht rfl rfl fun _ => .inr (.inr ⟨.mkdir, nofun, hmkdir⟩)

theorem step_outcome (ht : Truthful d) (hc : Careful d c) (h : step d c = some t) :
    Truthful t ∧ (Fresh d c → CreatedWith d → CreatedWith t) := by
  rcases hcall : c.materializePersistentDisk d.calls d with ⟨r, u⟩
  have hout := outcome ht hc hcall
  simp only [step, hcall] at h
  cases h
  exact ⟨hout.truthful, hout.createdWith⟩

/-- After every run of careful calls the metadata says the truth, the time of creation included if no call replaced a
    disk, and every careful call is served. --/
theorem metadata_truthful {cs : List (MaterializePersistentDiskOptions Image)}
    (h : Runs.Under step Careful empty cs d) : Truthful d ∧
      (Runs.Under step (fun d c => Careful d c ∧ Fresh d c) empty cs d → CreatedWith d) ∧
      ∀ c r t, Careful d c → c.materializePersistentDisk d.calls d = (r, t) → Serves d c r t := by
  have htruth : Truthful d := h.invariant (fun _ _ _ ht hc hs => (step_outcome ht hc hs).1) (.none rfl rfl)
  refine ⟨htruth, fun hfresh => ?_, fun c r t hc hcall => (outcome htruth hc hcall).toServes⟩
  have hboth : Truthful d ∧ CreatedWith d := hfresh.invariant (P := fun d => Truthful d ∧ CreatedWith d)
    (fun _ _ _ hi hc hs => by
      obtain ⟨ht, hwith⟩ := step_outcome hi.1 hc.1 hs
      exact ⟨ht, hwith hc.2 hi.2⟩) ⟨.none rfl rfl, fun _ _ h => nomatch h⟩
  exact hboth.2

end
/-- A call on the disk `work`, whose operations succeed. --/
def onWork (key : String) (base : String) (baseMiB size : Nat) (reset : Bool) :
    MaterializePersistentDiskOptions String where
  name := "work".toList
  base := some (base, baseMiB * mib)
  cacheDir := "/cache".toList
  sourceKey := key.toList
  diskMiB := some (.ofNat size)
  reset
  now := "1".toList
  refreshNow := "2".toList
  fails _ := false

/-- A disk is created, extended, and replaced by one of another source with the same size. --/
def work : List (MaterializePersistentDiskOptions String) :=
  [onWork "a" "A" 1 1 false, onWork "a" "A" 1 2 false, onWork "b" "B" 2 2 true]

theorem careful_without_reset {c : MaterializePersistentDiskOptions String} {d : Dir String} (hreset : c.reset = false)
    (hfails : c.fails .undoDisk = false ∧ c.fails .restoreDisk = false ∧ c.fails .restoreMeta = false ∧
      c.fails .writeMeta = false ∧ c.fails .renameMeta = false) : Careful d c where
  undo _ := ⟨fun _ _ => ⟨hfails.2.1, hfails.2.2.1⟩, fun _ _ => hfails.1⟩
  grow _ _ _ _ _ _ _ _ := hfails.2.2.2
  reset _ h := nomatch hreset.symm.trans h

/-- The theorem on these calls: the new key is recorded. --/
theorem metadata_truthful_work : ∃ d, Runs.Under step Careful empty work d ∧ Truthful d ∧
    d.files .metaPath = some (.json ⟨persistentDiskKind, 1, "work".toList, "b".toList, some 2, ⟨0, "1".toList⟩,
      ⟨2, "1".toList⟩⟩) := by
  obtain ⟨d, hrun, hd, hlast⟩ := Runs.exists_under step (fun _ c => c.reset = false ∧ c.fails .undoDisk = false ∧
      c.fails .restoreDisk = false ∧ c.fails .restoreMeta = false ∧ c.fails .writeMeta = false ∧
      c.fails .renameMeta = false) empty (work.take 2)
    (fun d => d.files .diskPath = some (.disk ⟨"A", 2 * mib, ⟨0, "a".toList⟩⟩) ∧
      (step d (onWork "b" "B" 2 2 true)).any (fun d => decide (d.files .metaPath = some (.json ⟨persistentDiskKind, 1,
        "work".toList, "b".toList, some 2, ⟨0, "1".toList⟩, ⟨2, "1".toList⟩⟩))) = true) (by decide +kernel)
  obtain ⟨t, hstep, ht⟩ := (Option.any_eq_true ..).mp hlast
  have hreset : Careful d (onWork "b" "B" 2 2 true) := by
    refine ⟨fun _ => ⟨fun _ _ => ⟨rfl, rfl⟩, fun _ _ => rfl⟩, nofun, fun x _ hx => ⟨rfl, .inr ?_⟩⟩
    rintro n image size ⟨hn, -, hbase, -⟩
    cases hd.symm.trans hx
    cases hn
    cases hbase
    exact ⟨rfl, rfl⟩
  have hall : Runs.Under step Careful empty work t :=
    (hrun.mono fun _ c h => careful_without_reset h.1 h.2).append (.cons hreset hstep .nil)
  exact ⟨t, hall, (metadata_truthful hall).1, of_decide_eq_true ht⟩

/-- A reset to another source with a larger size: the disk is of the new source, the metadata has the old key. --/
theorem not_truthful_resized_reset : ∃ d, Runs.Under step (fun _ _ => True) empty
    [onWork "a" "A" 1 1 false, onWork "b" "B" 1 2 true] d ∧ ¬Truthful d := by
  obtain ⟨d, hrun, hd, hm⟩ := Runs.exists_under step (fun _ _ => True) empty
    [onWork "a" "A" 1 1 false, onWork "b" "B" 1 2 true]
    (fun d => d.files .diskPath = some (.disk ⟨"B", 2 * mib, ⟨1, "b".toList⟩⟩) ∧
      d.files .metaPath = some (.json ⟨persistentDiskKind, 1, "work".toList, "a".toList, some 2, ⟨0, "1".toList⟩,
        ⟨1, "2".toList⟩⟩)) (by decide +kernel)
  refine ⟨d, hrun, fun ht => ?_⟩
  cases ht with
  | none hd' => exact nomatch hd.symm.trans hd'
  | pair hd' hm' hr =>
    cases hd.symm.trans hd'
    cases hm.symm.trans hm'
    exact absurd hr.sourceKey (by decide)

end NodeVmm.PersistentDisk
