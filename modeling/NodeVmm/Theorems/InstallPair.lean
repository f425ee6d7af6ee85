import NodeVmm.Theorems.PersistentDisk

/-! Replacing a named disk and its metadata. Until both new files are at their places, each old file is at its own or in
    its backup, and the variables tell which; so a replacement that throws can put both back. -/

namespace NodeVmm.PersistentDisk
open MaterializePersistentDiskOptions

variable {Image : Type} {c : MaterializePersistentDiskOptions Image} {d : Dir Image} {id : Nat} {m : PersistentDiskMetadata}

/-- The backup holds a file exactly when the variable says so, and what the roll-back would leave at the place is the old
    file. --/
structure Kept (cleared backed : Bool) (place backup old : Option (File Image)) : Prop where
  backup_iff : backup ≠ none ↔ backed = true
  restores : (if backed then backup else if cleared then none else place) = old

/-- What holds of the directory while `installPersistentDiskPair` may still throw. `d` is the directory before. --/
structure Midway (d : Dir Image) (id : Nat) (s : Installing Image) : Prop where
  disk : Kept s.targetsCleared s.backedDisk (s.dir.files .diskPath) (s.dir.files (.backupDiskPath id)) (d.files .diskPath)
  metadata : Kept s.targetsCleared s.backedMeta (s.dir.files .metaPath) (s.dir.files (.backupMetaPath id)) (d.files .metaPath)

/-- Both old files are at their places, and nothing else of the replacement is left. --/
structure RolledBack (d : Dir Image) (id : Nat) (t : Dir Image) : Prop where
  disk : t.files .diskPath = d.files .diskPath
  metadata : t.files .metaPath = d.files .metaPath
  tmpDisk : t.files (.tmpDiskPath id) = none
  tmpMeta : t.files (.tmpMetaPath id) = none
  backupDisk : t.files (.backupDiskPath id) = none
  backupMeta : t.files (.backupMetaPath id) = none

theorem files_renamed {f g h : Path} : (d.renamed false f g).files h =
    if d.files f = none then d.files h else if h = g then d.files f else if h = f then none else d.files h := by
  rcases hf : d.files f with _ | x
  · simp [Dir.renamed, hf]
  · simp [Dir.renamed, hf]

/-- The operations that clean up and roll back. --/
def undoing : List Op := [.undoTmpDisk, .undoTmpMeta, .undoDisk, .undoMeta, .restoreDisk, .restoreMeta]

theorem rolledBack {s : Installing Image} (hmid : Midway d id s) (hundo : ∀ op ∈ undoing, c.fails op = false) :
    RolledBack d id (c.installUndo id s).2.dir := by
  obtain ⟨h₁, h₂, h₃, h₄, h₅, h₆⟩ : c.fails .undoTmpDisk = false ∧ c.fails .undoTmpMeta = false ∧
      c.fails .undoDisk = false ∧ c.fails .undoMeta = false ∧ c.fails .restoreDisk = false ∧ c.fails .restoreMeta = false := by
    simpa [undoing] using hundo
  rcases s with ⟨dir, backedDisk, backedMeta, cleared⟩
  obtain ⟨⟨hbackup, hdisk⟩, hbackup', hmeta⟩ := hmid
  dsimp only at hbackup hbackup' hdisk hmeta
  have hundone : (c.installUndo id ⟨dir, backedDisk, backedMeta, cleared⟩).2.dir =
      let u := (dir.put (.tmpDiskPath id) none).put (.tmpMetaPath id) none
      let u := if cleared then (u.put .diskPath none).put .metaPath none else u
      let u := if backedDisk then u.renamed false (.backupDiskPath id) .diskPath else u
      if backedMeta then u.renamed false (.backupMetaPath id) .metaPath else u := by
    cases cleared <;> cases backedDisk <;> cases backedMeta <;>
      simp [installUndo, Exec.bind_apply, Dir.removed, h₁, h₂, h₃, h₄, h₅, h₆]
  rw [hundone]
  cases cleared <;> cases backedDisk <;> cases backedMeta <;> simp at hbackup hbackup' hdisk hmeta <;> constructor <;>
    simp [files_renamed, hbackup, hbackup', ← hdisk, ← hmeta]

/-! ### The replacement -/

/-- Both new files are at their places, and nothing else of the replacement is left but a backup whose removal failed. --/
structure Replaced (c : MaterializePersistentDiskOptions Image) (d : Dir Image) (id : Nat) (m : PersistentDiskMetadata)
    (t : Dir Image) : Prop where
  disk : t.files .diskPath = d.files (.tmpDiskPath id)
  disk_some : d.files (.tmpDiskPath id) ≠ none
  metadata : t.files .metaPath = some (.json m)
  tmpDisk : t.files (.tmpDiskPath id) = none
  tmpMeta : t.files (.tmpMetaPath id) = none
  backupDisk : t.files (.backupDiskPath id) ≠ none → c.fails .rmBackupDisk = true
  backupMeta : t.files (.backupMetaPath id) ≠ none → c.fails .rmBackupMeta = true

section
variable {P : Unit → Installing Image → Prop} {E : Installing Image → Prop} {s : Installing Image} {op : Op} {f g : Path}

theorem ends_writeFile (hok : P () { s with dir := s.dir.put f (some (.json m)) })
    (hfail : E { s with dir := s.dir.tear (c.torn op) f }) : Exec.Ends P E (onDir (c.writeFile op f m)) s := by
  unfold Exec.Ends
  rw [onDir_apply, writeFile_apply]
  cases c.fails op
  · exact hok
  · exact hfail

theorem ends_rename (hok : ∀ x, s.dir.files f = some x → P () { s with dir := (s.dir.put f none).put g (some x) })
    (hfail : E s) : Exec.Ends P E (onDir (c.rename op f g)) s := by
  unfold Exec.Ends
  rw [onDir_apply, rename_apply]
  cases c.fails op with
  | true => exact hfail
  | false =>
    rcases hf : s.dir.files f with _ | x
    · exact hfail
    · exact hok x hf

theorem ends_rm (hok : P () { s with dir := s.dir.removed (c.fails op) f }) :
    Exec.Ends P E (onDir (swallow (c.rm op f))) s := by
  unfold Exec.Ends
  rw [onDir_apply, swallow_rm]
  exact hok

end

/-- Whether the old file has been moved to its backup, if there is one. --/
structure Moved (moved backed : Bool) (place backup old : Option (File Image)) : Prop where
  backed : backed = (moved && old.isSome)
  place : place = if moved then none else old
  backup : backup = if moved then old else none

/-- The new files are at their temporary paths. --/
structure Ready (d : Dir Image) (id : Nat) (m : PersistentDiskMetadata) (movedDisk movedMeta : Bool) (s : Installing Image) :
    Prop where
  tmpDisk : s.dir.files (.tmpDiskPath id) = d.files (.tmpDiskPath id)
  tmpMeta : s.dir.files (.tmpMetaPath id) = some (.json m)
  disk : Moved movedDisk s.backedDisk (s.dir.files .diskPath) (s.dir.files (.backupDiskPath id)) (d.files .diskPath)
  metadata : Moved movedMeta s.backedMeta (s.dir.files .metaPath) (s.dir.files (.backupMetaPath id)) (d.files .metaPath)
  cleared : s.targetsCleared = false

section
variable {moved movedDisk movedMeta backed : Bool} {place backup old : Option (File Image)} {s : Installing Image}
  {x : File Image}

theorem Moved.kept (h : Moved moved backed place backup old) : Kept false backed place backup old := by
  obtain ⟨rfl, rfl, rfl⟩ := h
  cases moved <;> cases old <;> constructor <;> simp

theorem Moved.kept_cleared (h : Moved true backed place backup old) (place' : Option (File Image)) :
    Kept true backed place' backup old := by
  obtain ⟨rfl, rfl, rfl⟩ := h
  cases backup <;> constructor <;> simp

theorem Ready.midway (h : Ready d id m movedDisk movedMeta s) : Midway d id s := by
  refine ⟨?_, ?_⟩ <;> rw [h.cleared]
  · exact h.disk.kept
  · exact h.metadata.kept

/-- A path that no file is at needs no backup. --/
theorem Moved.of_none (h : Moved false backed place backup old) (hplace : place = none) :
    Moved true backed place backup old := by
  obtain ⟨rfl, rfl, rfl⟩ := h
  subst hplace
  exact ⟨rfl, rfl, rfl⟩

theorem Ready.backDisk (h : Ready d id m false movedMeta s) (hx : s.dir.files .diskPath = some x) :
    Ready d id m true movedMeta
      { s with dir := (s.dir.put .diskPath none).put (.backupDiskPath id) (some x), backedDisk := true } := by
  have hold : d.files .diskPath = some x := by simpa [hx] using h.disk.place.symm
  refine ⟨?_, ?_, ?_, ?_, h.cleared⟩
  · simpa using h.tmpDisk
  · simpa using h.tmpMeta
  · constructor <;> simp [hold]
  · simpa using h.metadata

theorem Ready.backMeta (h : Ready d id m movedDisk false s) (hx : s.dir.files .metaPath = some x) :
    Ready d id m movedDisk true
      { s with dir := (s.dir.put .metaPath none).put (.backupMetaPath id) (some x), backedMeta := true } := by
  have hold : d.files .metaPath = some x := by simpa [hx] using h.metadata.place.symm
  refine ⟨?_, ?_, ?_, ?_, h.cleared⟩
  · simpa using h.tmpDisk
  · simpa using h.tmpMeta
  · simpa using h.disk
  · constructor <;> simp [hold]

end

section
variable {s : Installing Image} {movedDisk movedMeta : Bool} {Q : Unit → Installing Image → Prop}
  {rest : Exec (Installing Image) Unit}

theorem ends_backDisk (h : Ready d id m false movedMeta s)
    (hrest : ∀ t, Ready d id m true movedMeta t → Exec.Ends Q (Midway d id) rest t) :
    Exec.Ends Q (Midway d id) (if (s.dir.files .diskPath).isSome then (do
      onDir (c.rename .backupDisk .diskPath (.backupDiskPath id))
      Exec.modify fun s => { s with backedDisk := true }
      rest) else rest) s := by
  refine Exec.Ends.ite (fun _ => ?_) fun hnone => hrest s { h with disk := h.disk.of_none (by simpa using hnone) }
  refine Exec.Ends.bind (P := fun _ t => Ready d id m true movedMeta { t with backedDisk := true })
    (ends_rename (fun x hx => h.backDisk hx) h.midway) fun _ t ht => ?_
  exact Exec.Ends.bind (P := fun _ u => Ready d id m true movedMeta u) ht fun _ u hu => hrest u hu

theorem ends_backMeta (h : Ready d id m movedDisk false s)
    (hrest : ∀ t, Ready d id m movedDisk true t → Exec.Ends Q (Midway d id) rest t) :
    Exec.Ends Q (Midway d id) (if (s.dir.files .metaPath).isSome then (do
      onDir (c.rename .backupMeta .metaPath (.backupMetaPath id))
      Exec.modify fun s => { s with backedMeta := true }
      rest) else rest) s := by
  refine Exec.Ends.ite (fun _ => ?_) fun hnone => hrest s { h with metadata := h.metadata.of_none (by simpa using hnone) }
  refine Exec.Ends.bind (P := fun _ t => Ready d id m movedDisk true { t with backedMeta := true })
    (ends_rename (fun x hx => h.backMeta hx) h.midway) fun _ t ht => ?_
  exact Exec.Ends.bind (P := fun _ u => Ready d id m movedDisk true u) ht fun _ u hu => hrest u hu

/-- Both old files are in their backups: the new ones take their places. --/
theorem ends_install (h : Ready d id m true true s) :
    Exec.Ends (fun _ t => Replaced c d id m t.dir) (Midway d id) (do
      Exec.modify fun s => { s with targetsCleared := true }
      onDir (c.rename .installDisk (.tmpDiskPath id) .diskPath)
      onDir (c.rename .installMeta (.tmpMetaPath id) .metaPath)
      onDir (swallow (c.rm .rmBackupDisk (.backupDiskPath id)))
      onDir (swallow (c.rm .rmBackupMeta (.backupMetaPath id)))) s := by
  have hmid : Midway d id { s with targetsCleared := true } := ⟨h.disk.kept_cleared _, h.metadata.kept_cleared _⟩
  refine Exec.Ends.bind (P := fun _ t => t = { s with targetsCleared := true }) (Exec.Ends.of_ok rfl rfl) ?_
  rintro _ _ rfl
  refine Exec.Ends.bind (P := fun _ t => ∃ x, s.dir.files (.tmpDiskPath id) = some x ∧
    t = { s with dir := (s.dir.put (.tmpDiskPath id) none).put .diskPath (some x), targetsCleared := true })
    (ends_rename (fun x hx => ⟨x, hx, rfl⟩) hmid) ?_
  rintro _ _ ⟨x, hx, rfl⟩
  refine Exec.Ends.bind (P := fun _ t => t = { s with
      dir := (((s.dir.put (.tmpDiskPath id) none).put .diskPath (some x)).put (.tmpMetaPath id) none).put .metaPath
        (some (.json m))
      targetsCleared := true }) (ends_rename (fun y hy => ?_) ?_) ?_
  · have hy' : some y = some (.json m) := by
      rw [← h.tmpMeta, ← hy]
      simp
    cases hy'
    rfl
  · refine ⟨?_, ?_⟩
    · simpa using h.disk.kept_cleared _
    · simpa using h.metadata.kept_cleared _
  rintro _ _ rfl
  refine Exec.Ends.bind (P := fun _ t => t = _) (ends_rm rfl) ?_
  rintro _ _ rfl
  refine ends_rm ?_
  have htmp : d.files (.tmpDiskPath id) = some x := h.tmpDisk.symm.trans hx
  constructor <;> simp [htmp]
  · exact fun hfails _ => hfails
  · exact fun hfails _ => hfails

end

theorem installBody_ends (hdisk : d.files (.backupDiskPath id) = none) (hmeta : d.files (.backupMetaPath id) = none) :
    Exec.Ends (fun _ s => Replaced c d id m s.dir) (Midway d id) (c.installBody id m) { dir := d } := by
  unfold installBody
  refine Exec.Ends.bind (P := fun _ s => Ready d id m false false s) (ends_writeFile ?_ ?_) fun _ s hs => ?_
  · constructor <;> simp
    · constructor <;> simp [hdisk]
    · constructor <;> simp [hmeta]
  · constructor <;> constructor <;> simp [hdisk, hmeta]
  refine Exec.Ends.bind (P := fun v t => v = s ∧ t = s) ⟨rfl, rfl⟩ ?_
  rintro _ _ ⟨rfl, rfl⟩
  refine ends_backDisk hs fun t ht => ?_
  refine Exec.Ends.bind (P := fun v u => v = t ∧ u = t) ⟨rfl, rfl⟩ ?_
  rintro _ _ ⟨rfl, rfl⟩
  exact ends_backMeta ht fun u hu => ends_install hu

/-- A replacement that throws has put everything back when the operations that clean up and roll back succeed, and one that
    returns has replaced both. The two names for backups are new. --/
theorem replaced_or_rolledBack (c : MaterializePersistentDiskOptions Image) (d : Dir Image) (id : Nat)
    (m : PersistentDiskMetadata) (hdisk : d.files (.backupDiskPath id) = none) (hmeta : d.files (.backupMetaPath id) = none)
    (hundo : ∀ op ∈ undoing, c.fails op = false) :
    Exec.Ends (fun _ t => Replaced c d id m t) (RolledBack d id) (c.installPersistentDiskPair id m) d := by
  have hbody := installBody_ends (c := c) (m := m) hdisk hmeta
  rcases hr : c.installBody id m { dir := d } with ⟨e | u, s⟩
  · have hback := rolledBack (hbody.threw hr) hundo
    rcases hu : c.installUndo id s with ⟨r, t⟩
    have hok : r = .ok () := (congrArg Prod.fst hu).symm.trans installUndo_ok
    subst hok
    rw [hu] at hback
    refine Exec.Ends.of_error (e := e) (t := t.dir) ?_ hback
    rw [installPersistentDiskPair, Exec.tryCatch_of_error hr, Exec.bind_of_ok hu]
    rfl
  · refine Exec.Ends.of_ok (a := u) (t := s.dir) ?_ (hbody.returned hr)
    rw [installPersistentDiskPair, Exec.tryCatch_of_ok hr]

def oldMetadata : PersistentDiskMetadata :=
  ⟨persistentDiskKind, 1, "work".toList, "a".toList, some 1, ⟨0, "1".toList⟩, ⟨0, "1".toList⟩⟩

/-- The name has a disk and its metadata, and a new disk waits at its temporary path. --/
def replacing : Dir String where
  calls := 1
  files
    | .diskPath => some (.disk ⟨"A", mib, ⟨0, "a".toList⟩⟩)
    | .metaPath => some (.json oldMetadata)
    | .tmpDiskPath 1 => some (.disk ⟨"B", mib, ⟨1, "a".toList⟩⟩)
    | _ => none

def failing (op : Op) : MaterializePersistentDiskOptions String :=
  { onWork "a" "B" 1 1 true with fails := fun op' => op' = op }

/-- The new metadata cannot be put at its place after the disk has been. --/
theorem rolledBack_installMeta : ∃ e t,
    (failing .installMeta).installPersistentDiskPair 1 oldMetadata replacing = (.error e, t) ∧ RolledBack replacing 1 t :=
  ⟨_, _, rfl, (replaced_or_rolledBack (failing .installMeta) replacing 1 oldMetadata rfl rfl (by decide)).threw rfl⟩

end NodeVmm.PersistentDisk
