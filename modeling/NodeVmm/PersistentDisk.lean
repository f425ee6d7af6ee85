import NodeVmm.Lib.Exec
import NodeVmm.Lib.PosixPath

/-! Named root disks: `materializePersistentDisk` of `src/disk.ts` on the files of one name.

    Every operation on a file may fail. It leaves the files as they were, but a write may have begun: part of the text is
    then at its path. The random part of a temporary name is new in every call: the number of the call stands for it. -/

namespace NodeVmm.PersistentDisk

/-- A reading of the clock, with the number of the call that took it. --/
structure Stamp where
  call : Nat
  time : Text
  deriving DecidableEq, Repr

/-- The call that copied the content of a disk, and its source key. --/
structure Origin where
  call : Nat
  sourceKey : Text
  deriving DecidableEq, Repr

/-- A disk file: the image that was copied into it, with zeros after it, and its size in bytes. --/
structure Disk (Image : Type) where
  image : Image
  size : Nat
  origin : Origin
  deriving DecidableEq, Repr

structure PersistentDiskMetadata where
  kind : Text
  version : Nat
  name : Text
  sourceKey : Text
  sizeMiB : Option Int
  createdAt : Stamp
  updatedAt : Stamp
  deriving DecidableEq, Repr

/-- The paths of one name in the directory `disks`. --/
inductive Path where
  | diskPath
  | metaPath
  | tmpDiskPath (id : Nat)
  | tmpMetaPath (id : Nat)
  | backupDiskPath (id : Nat)
  | backupMetaPath (id : Nat)
  | refreshPath (id : Nat)
  deriving DecidableEq, Repr

inductive File (Image : Type) where
  | disk (d : Disk Image)
  | json (m : PersistentDiskMetadata)
  /-- What a failed write leaves. --/
  | torn (text : Text)
  deriving DecidableEq, Repr

/-- The files of the name, and the number of calls so far. --/
structure Dir (Image : Type) where
  files : Path → Option (File Image)
  calls : Nat

/-- The operations on files, but for `access`, which answers. --/
inductive Op where
  | mkdir | readMeta | copyDisk | statTmp | truncateTmp | rmTmp
  | writeTmpMeta | backupDisk | backupMeta | installDisk | installMeta | rmBackupDisk | rmBackupMeta
  | undoTmpDisk | undoTmpMeta | undoDisk | undoMeta | restoreDisk | restoreMeta
  | statDisk | truncateDisk | writeMeta | renameMeta | rmMeta
  deriving DecidableEq, Repr

structure MaterializePersistentDiskOptions (Image : Type) where
  name : Text
  /-- The file at `baseRootfsPath` with its size in bytes, if there is one. --/
  base : Option (Image × Nat)
  cacheDir : Text
  sourceKey : Text
  /-- `none` for a number that is not an integer. --/
  diskMiB : Option Int
  reset : Bool
  /-- The clock when the disk is copied and when the metadata is refreshed. --/
  now : Text
  refreshNow : Text
  fails : Op → Bool
  /-- The part of its text that a failed write has written, `none` when it has not created the file. --/
  torn : Op → Option Text := fun _ => none

structure MaterializedDisk where
  rootfsPath : Text
  resized : Bool
  created : Bool
  deriving DecidableEq, Repr

def mib : Nat := 1024 * 1024

def persistentDiskKind : Text := "node-vmm-persistent-disk".toList

def persistentDiskMetadataVersion : Nat := 1

/-- `/^[A-Za-z0-9][A-Za-z0-9._-]{0,127}$/` --/
def validName : Text → Bool
  | [] => false
  | c :: rest => c.isAlphanum && rest.length ≤ 127 && rest.all fun c => c.isAlphanum || c ∈ ['.', '_', '-']

abbrev Disks (Image : Type) := Exec (Dir Image)

section
variable {Image : Type}

def Dir.put (f : Path) (file : Option (File Image)) (d : Dir Image) : Dir Image :=
  { d with files := Function.update d.files f file }

/-- `.catch(() => {})` --/
def swallow (x : Disks Image Unit) : Disks Image Unit := tryCatch x fun _ => pure ()

end

namespace MaterializePersistentDiskOptions
variable {Image : Type} (c : MaterializePersistentDiskOptions Image)

def attempt (op : Op) : Disks Image Unit := Exec.check (!c.fails op) "EIO"

/-- `rm` with `force` --/
def rm (op : Op) (f : Path) : Disks Image Unit := do
  c.attempt op
  Exec.modify (Dir.put f none)

def rename (op : Op) (f g : Path) : Disks Image Unit := do
  c.attempt op
  match (← Exec.get).files f with
  | some file => Exec.modify fun d => (d.put f none).put g (some file)
  | none => throw "ENOENT"

def writeFile (op : Op) (f : Path) (m : PersistentDiskMetadata) : Disks Image Unit := do
  if c.fails op then
    if let some text := c.torn op then Exec.modify (Dir.put f (some (.torn text)))
    throw "EIO"
  Exec.modify (Dir.put f (some (.json m)))

def diskPath : Text := PosixPath.join (PosixPath.join c.cacheDir "disks".toList) (c.name ++ ".ext4".toList)

def tmpPath (id : Nat) : Text :=
  PosixPath.join (PosixPath.join c.cacheDir "disks".toList)
    (c.name ++ ".tmp-".toList ++ (toString id).toList ++ ".ext4".toList)

/-- `ensureDiskSizeAtLeast` of the disk file `f`, whose path is `path`. --/
def ensureDiskSizeAtLeast (stat truncate : Op) (f : Path) (path : Text) : Disks Image Bool :=
  match c.diskMiB with
  | some (.ofNat (n + 1)) => do
    let targetBytes := (n + 1) * mib
    c.attempt stat
    match (← Exec.get).files f with
    | some (.disk d) =>
      if d.size > targetBytes then
        throw ("cannot shrink disk " ++ path.str ++ " from " ++ toString ((d.size + mib - 1) / mib) ++ " MiB to " ++
          toString (n + 1) ++ " MiB")
      else if d.size = targetBytes then return false
      else
        c.attempt truncate
        Exec.modify (Dir.put f (some (.disk { d with size := targetBytes })))
        return true
    | _ => throw "ENOENT"
  | _ => throw "disk size must be a positive integer MiB value"

/-- A failed reading is no metadata. --/
def readPersistentMetadata : Disks Image (Option PersistentDiskMetadata) := do
  match (← Exec.get).files .metaPath with
  | some (.json m) => return if c.fails .readMeta then none
      else if m.kind = persistentDiskKind ∧ m.version = persistentDiskMetadataVersion then some m
      else none
  | _ => return none

def writePersistentMetadataAtomic (id : Nat) (m : PersistentDiskMetadata) : Disks Image Unit :=
  tryCatch (do
      c.writeFile .writeMeta (.refreshPath id) m
      c.rename .renameMeta (.refreshPath id) .metaPath)
    fun e => do
      swallow (c.rm .rmMeta (.refreshPath id))
      throw e

/-! ### Replacing the pair -/

/-- The directory and the variables of `installPersistentDiskPair`. --/
structure Installing (Image : Type) where
  dir : Dir Image
  backedDisk : Bool := false
  backedMeta : Bool := false
  targetsCleared : Bool := false

def onDir {α : Type} (x : Disks Image α) : Exec (Installing Image) α := Exec.focus Installing.dir (fun d s => { s with dir := d }) x

def installBody (id : Nat) (m : PersistentDiskMetadata) : Exec (Installing Image) Unit := do
  onDir (c.writeFile .writeTmpMeta (.tmpMetaPath id) m)
  if ((← Exec.get).dir.files .diskPath).isSome then
    onDir (c.rename .backupDisk .diskPath (.backupDiskPath id))
    Exec.modify fun s => { s with backedDisk := true }
  if ((← Exec.get).dir.files .metaPath).isSome then
    onDir (c.rename .backupMeta .metaPath (.backupMetaPath id))
    Exec.modify fun s => { s with backedMeta := true }
  Exec.modify fun s => { s with targetsCleared := true }
  onDir (c.rename .installDisk (.tmpDiskPath id) .diskPath)
  onDir (c.rename .installMeta (.tmpMetaPath id) .metaPath)
  onDir (swallow (c.rm .rmBackupDisk (.backupDiskPath id)))
  onDir (swallow (c.rm .rmBackupMeta (.backupMetaPath id)))

def installUndo (id : Nat) : Exec (Installing Image) Unit := do
  onDir (swallow (c.rm .undoTmpDisk (.tmpDiskPath id)))
  onDir (swallow (c.rm .undoTmpMeta (.tmpMetaPath id)))
  let s ← Exec.get
  if s.targetsCleared then
    onDir (swallow (c.rm .undoDisk .diskPath))
    onDir (swallow (c.rm .undoMeta .metaPath))
  if s.backedDisk then onDir (swallow (c.rename .restoreDisk (.backupDiskPath id) .diskPath))
  if s.backedMeta then onDir (swallow (c.rename .restoreMeta (.backupMetaPath id) .metaPath))

def installPersistentDiskPair (id : Nat) (m : PersistentDiskMetadata) : Disks Image Unit := fun d =>
  let (r, s) := (tryCatch (c.installBody id m) fun e => do
    c.installUndo id
    throw e) { dir := d }
  (r, s.dir)

/-! ### A call -/

/-- `copyFile` of the base image to the temporary disk. --/
def copyBase (id : Nat) : Disks Image Unit := do
  c.attempt .copyDisk
  match c.base with
  | some (image, size) => Exec.modify (Dir.put (.tmpDiskPath id) (some (.disk ⟨image, size, ⟨id, c.sourceKey⟩⟩)))
  | none => throw "ENOENT"

/-- The disk is copied, extended and installed with its metadata; the result says whether it was extended. --/
def create (id : Nat) (metadata : Option PersistentDiskMetadata) : Disks Image Bool :=
  tryCatch (do
      c.copyBase id
      let createdResized ← c.ensureDiskSizeAtLeast .statTmp .truncateTmp (.tmpDiskPath id) (c.tmpPath id)
      let now : Stamp := ⟨id, c.now⟩
      c.installPersistentDiskPair id {
        kind := persistentDiskKind
        version := persistentDiskMetadataVersion
        name := c.name
        sourceKey := c.sourceKey
        sizeMiB := c.diskMiB
        createdAt := (metadata.map PersistentDiskMetadata.createdAt).getD now
        updatedAt := now }
      return createdResized)
    fun e => do
      swallow (c.rm .rmTmp (.tmpDiskPath id))
      throw e

/-- The metadata that records a change of the size. --/
def refreshed (id : Nat) (metadata : Option PersistentDiskMetadata) : PersistentDiskMetadata :=
  let now : Stamp := ⟨id, c.refreshNow⟩
  { metadata.getD {
      kind := persistentDiskKind
      version := persistentDiskMetadataVersion
      name := c.name
      sourceKey := c.sourceKey
      sizeMiB := c.diskMiB
      createdAt := now
      updatedAt := now } with
    sizeMiB := c.diskMiB
    updatedAt := now }

/-- The metadata is refreshed after a change of the size. --/
def refresh (id : Nat) (metadata : Option PersistentDiskMetadata) (created resized : Bool) :
    Disks Image MaterializedDisk := do
  if resized || metadata.any (fun m => m.sizeMiB ≠ c.diskMiB) then
    c.writePersistentMetadataAtomic id (c.refreshed id metadata)
  return ⟨c.diskPath, resized, created⟩

/-- `materializePersistentDisk`, as the call with number `id`. --/
def materializePersistentDisk (id : Nat) : Disks Image MaterializedDisk := do
  Exec.check (validName c.name) "--persist must be a simple name using letters, numbers, '.', '_' or '-'"
  c.attempt .mkdir
  let diskExists := ((← Exec.get).files .diskPath).isSome
  let metadata ← c.readPersistentMetadata
  if diskExists && metadata.isNone then
    throw ("persistent disk " ++ c.name.str ++ " exists without node-vmm metadata; use --reset to recreate it")
  if diskExists && !c.reset && metadata.any (fun m => m.sourceKey ≠ c.sourceKey) then
    throw ("persistent disk " ++ c.name.str ++
      " was created from a different image/rootfs; use --reset to recreate it")
  let created := !diskExists || c.reset
  let createdResized ← if created then c.create id metadata else pure false
  let resized := (← c.ensureDiskSizeAtLeast .statDisk .truncateDisk .diskPath c.diskPath) || createdResized
  c.refresh id metadata created resized

end MaterializePersistentDiskOptions

variable {Image : Type}

def empty : Dir Image := ⟨fun _ => none, 0⟩

/-- One call, whether it returns or throws. --/
def step (d : Dir Image) (c : MaterializePersistentDiskOptions Image) : Option (Dir Image) :=
  let t := (c.materializePersistentDisk d.calls d).2
  some { t with calls := d.calls + 1 }

end NodeVmm.PersistentDisk
