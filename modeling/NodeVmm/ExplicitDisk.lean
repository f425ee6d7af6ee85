import NodeVmm.PersistentDisk

/-! A root disk at a path of the caller's choice: `materializeExplicitDisk` of `src/disk.ts`, with operations that fail
    and a machine that may stop before any of them. -/

namespace NodeVmm.ExplicitDisk
open PersistentDisk (MaterializedDisk mib)

/-- A file: the image that was copied into it, with zeros after it, and its size in bytes. --/
structure Disk (Image : Type) where
  image : Image
  size : Nat
  deriving DecidableEq, Repr

inductive Path where
  | diskPath
  | tmp
  deriving DecidableEq, Repr

/-- The files at the path and at the temporary path, and whether the machine has stopped. --/
structure Files (Image : Type) where
  diskPath : Option (Disk Image)
  tmp : Option (Disk Image) := none
  crashed : Bool := false
  deriving DecidableEq, Repr

/-- The operations on files, but for `access`, which answers. --/
inductive Op where
  | mkdir | copyDisk | statTmp | truncateTmp | rmDisk | renameDisk | rmTmp | statDisk | truncateDisk
  deriving DecidableEq, Repr

structure MaterializeExplicitDiskOptions (Image : Type) where
  diskPath : Text
  /-- The process id and the random part of the temporary name. --/
  id : Text
  /-- The file at `baseRootfsPath` with its size in bytes, if there is one. --/
  base : Option (Image × Nat)
  /-- `none` for a number that is not an integer. --/
  diskMiB : Option Int
  reset : Bool
  fails : Op → Bool
  /-- What a copy that fails leaves at the temporary path. --/
  torn : Option (Disk Image) := none
  /-- The operation before which the machine stops. --/
  crash : Option Op := none

namespace Files
variable {Image : Type}

def file (s : Files Image) : Path → Option (Disk Image)
  | .diskPath => s.diskPath
  | .tmp => s.tmp

def put (f : Path) (file : Option (Disk Image)) (s : Files Image) : Files Image :=
  match f with
  | .diskPath => { s with diskPath := file }
  | .tmp => { s with tmp := file }

end Files

abbrev Disks (Image : Type) := Exec (Files Image)

namespace MaterializeExplicitDiskOptions
variable {Image : Type} (c : MaterializeExplicitDiskOptions Image)

def tmpPath : Text := c.diskPath ++ ".tmp-".toList ++ c.id

/-- Nothing is done by a machine that has stopped. --/
def attempt (op : Op) : Disks Image Unit := do
  if (← Exec.get).crashed then throw "crashed"
  if c.crash = some op then
    Exec.modify fun s => { s with crashed := true }
    throw "crashed"
  Exec.check (!c.fails op) "EIO"

/-- `rm` with `force` --/
def rm (op : Op) (f : Path) : Disks Image Unit := do
  c.attempt op
  Exec.modify (Files.put f none)

def rename (op : Op) (f g : Path) : Disks Image Unit := do
  c.attempt op
  match (← Exec.get).file f with
  | some file => Exec.modify fun s => (s.put f none).put g (some file)
  | none => throw "ENOENT"

/-- `copyFile` of the base image to the temporary path. A copy that fails may have begun. --/
def copyBase : Disks Image Unit := do
  tryCatch (c.attempt .copyDisk) fun e => do
    if !(← Exec.get).crashed then Exec.modify (Files.put .tmp c.torn)
    throw e
  match c.base with
  | some (image, size) => Exec.modify (Files.put .tmp (some ⟨image, size⟩))
  | none => throw "ENOENT"

/-- `ensureDiskSizeAtLeast` of the file `f`, whose path is `path`. --/
def ensureDiskSizeAtLeast (stat truncate : Op) (f : Path) (path : Text) : Disks Image Bool :=
  match c.diskMiB with
  | some (.ofNat (n + 1)) => do
    let targetBytes := (n + 1) * mib
    c.attempt stat
    match (← Exec.get).file f with
    | some d =>
      if d.size > targetBytes then
        throw ("cannot shrink disk " ++ path.str ++ " from " ++ toString ((d.size + mib - 1) / mib) ++ " MiB to " ++
          toString (n + 1) ++ " MiB")
      else if d.size = targetBytes then return false
      else
        c.attempt truncate
        Exec.modify (Files.put f (some { d with size := targetBytes }))
        return true
    | none => throw "ENOENT"
  | _ => throw "disk size must be a positive integer MiB value"

/-- The block that may throw with a temporary file in place. --/
def createBody : Disks Image Bool := do
  c.copyBase
  let createdResized ← c.ensureDiskSizeAtLeast .statTmp .truncateTmp .tmp c.tmpPath
  c.rm .rmDisk .diskPath
  c.rename .renameDisk .tmp .diskPath
  return createdResized

def create : Disks Image Bool := do
  c.attempt .mkdir
  tryCatch c.createBody fun e => do
    tryCatch (c.rm .rmTmp .tmp) fun _ => pure ()
    throw e

def materializeExplicitDisk : Disks Image MaterializedDisk := do
  let diskExists := (← Exec.get).diskPath.isSome
  let created := !diskExists || c.reset
  let createdResized ← if created then c.create else pure false
  let resized := (← c.ensureDiskSizeAtLeast .statDisk .truncateDisk .diskPath c.diskPath) || createdResized
  return ⟨c.diskPath, resized, created⟩

end MaterializeExplicitDiskOptions
end NodeVmm.ExplicitDisk
