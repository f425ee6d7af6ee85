import NodeVmm.Lib.PosixFs
import NodeVmm.RunImage

/-! Snapshots: `createSnapshot`, `restoreSnapshot` and `writeSnapshotBundle` of `src/index.ts`, on files that may have
    several names, with the runs of `runImage` on the file of a root filesystem.

    Left out are the network options, and of runs the images that are built or fetched and the named disks: `RunImage`
    has these. The temporary directory of a run stays empty and is not modelled. -/

namespace NodeVmm.Snapshot
open PosixFs StableJson
open RootfsCache (AttachedDisk truthy orElse resolvePath)

structure SdkSnapshotManifest where
  kind : Text
  version : Number
  createdAt : Text
  rootfs : Text
  kernel : Text
  memory : Number
  cpus : Number
  arch : Text
  note : Text
  deriving DecidableEq

/-- The bytes of a file, and the manifest that `JSON.parse` reads in them. --/
structure Content where
  data : List UInt8
  manifest : Option SdkSnapshotManifest := none
  deriving DecidableEq

structure HostCapabilities where
  minCpus : Int
  maxCpus : Int
  rootfsMaxCpus : Int
  isWhp : Bool

/-- What a call finds around it. --/
structure Host where
  cwd : Text
  capabilities : HostCapabilities
  /-- `randomId`, and the directories that `makeTempDir` and `makeOverlayTempDir` make. --/
  randomId : Text
  madeTempDir : Text
  madeOverlayDir : Text
  /-- `new Date().toISOString()` --/
  now : Text
  stringify : SdkSnapshotManifest → List UInt8
  /-- Whether a file can have both names: they are on one file system, and the kernel allows the link. --/
  linkable : Names → Names → Bool
  /-- What `buildRootfs` makes of the context of the image. --/
  build : Except String Content
  /-- What is on a disk after the guest has run. --/
  guest : Names → Content → Content

abbrev Disks := Fs Content

/-- `stat.size > 0` --/
def hasSize : Node Content → Bool
  | .file content => !content.data.isEmpty
  | _ => true

/-! ### Options -/

def integer : Number → Option Int
  | .int n => some n
  | _ => none

def cpusFromOptions (c : HostCapabilities) (cpus : Option Number) : Except String Number :=
  let cpus := cpus.getD (.int 1)
  if !(integer cpus).any fun n => 1 ≤ n ∧ n ≤ 64 then .error "cpus must be an integer between 1 and 64"
  else if (integer cpus).any fun n => c.maxCpus < n then
    .error ("cpus must be an integer between " ++ toString c.minCpus ++ " and " ++ toString c.maxCpus)
  else .ok cpus

def memoryFromOptions (memory memMiB : Option Number) : Except String Number := do
  RootfsCache.requireNoAliasConflict "memory/memMiB" memory memMiB
  return (memMiB.or memory).getD (.int 256)

def validateRootfsRuntimeForCapabilities (operation : String) (cpus : Option Number) (c : HostCapabilities) :
    Except String Unit := do
  let cpus ← cpusFromOptions c cpus
  if (integer cpus).any fun n => c.rootfsMaxCpus < n then
    if c.isWhp then
      throw (operation ++ " cannot run rootfs-backed Linux with cpus=" ++ cpus.text.str ++ " on Windows/WHP. " ++
        "This build currently supports up to " ++ toString c.rootfsMaxCpus ++ " vCPUs for rootfs-backed Linux guests.")
    throw ("cpus must be an integer between " ++ toString c.minCpus ++ " and " ++ toString c.rootfsMaxCpus)

def validateRootfsRuntimePathForCapabilities (operation : String) (options : Option Number) (rootfsPath : Text)
    (c : HostCapabilities) : Disks Unit := do
  let cpus ← Exec.lift (cpusFromOptions c options)
  if (integer cpus).any fun n => c.rootfsMaxCpus < n then
    if hasSize (← stat (names rootfsPath)) then
      Exec.lift (validateRootfsRuntimeForCapabilities operation options c)

/-- `try { … } finally { … }` --/
def tryFinally {α : Type} (x : Disks α) (cleanup : Disks Unit) : Disks α := do
  let a ← tryCatch x fun e => do
    cleanup
    throw e
  cleanup
  return a

/-! ### Runs -/

structure SdkRunOptions where
  id : Option Text := none
  rootfsPath : Text
  /-- `requireKernelPath` --/
  kernelPath : Text
  memory : Option Number := none
  memMiB : Option Number := none
  cpus : Option Number := none
  restore : Option Bool := none
  sandbox : Option Bool := none
  overlayPath : Option Text := none
  keepOverlay : Bool := false
  attachDisks : List AttachedDisk := []

structure VmConfig where
  kernelPath : Text
  rootfsPath : Text
  overlayPath : Option Text
  memMiB : Number
  cpus : Number
  attachDisks : List AttachedDisk

/-- What a virtual machine boots. --/
structure Booted where
  kernel : Content
  rootfs : Content
  memMiB : Number
  cpus : Number
  deriving DecidableEq

/-- A file that the guest writes to. --/
def guestWrites (host : Host) (path : Text) : Disks Unit := do
  let content ← readFile (names path)
  writeFile (names path) (host.guest (names path) content)

/-- The overlay, of the size of the disk below it. --/
def openOverlay (c : VmConfig) (base : Content) : Disks Unit :=
  match c.overlayPath with
  | none => pure ()
  | some overlay => do
    Exec.check (overlay ≠ c.rootfsPath) "overlayPath must not equal rootfsPath"
    writeFile (names overlay) { data := List.replicate base.data.length 0 }

/-- `runKvmVmAsync`: the files that the virtual machine opens, and what its guest writes to them. --/
def runVm (host : Host) (c : VmConfig) : Disks Booted := do
  let kernel ← readFile (names c.kernelPath)
  let base ← readFile (names c.rootfsPath)
  openOverlay c base
  c.attachDisks.forM fun disk => do
    let _ ← readFile (names disk.path)
  let rootfs ← readFile (names c.rootfsPath)
  guestWrites host (c.overlayPath.getD c.rootfsPath)
  c.attachDisks.forM fun disk => if disk.isReadonly then pure () else guestWrites host disk.path
  return ⟨kernel, rootfs, c.memMiB, c.cpus⟩

def restoreEnabled (o : SdkRunOptions) : Except String Bool := do
  RootfsCache.requireNoAliasConflict "restore/sandbox" o.restore o.sandbox
  return o.restore = some true || o.sandbox = some true || truthy o.overlayPath

namespace SdkRunOptions
variable (host : Host) (o : SdkRunOptions)

def rootDisk : Text := resolvePath host.cwd o.rootfsPath

/-- The overlay of a run that has one. --/
def overlay : Text :=
  if truthy o.overlayPath then resolvePath host.cwd (o.overlayPath.getD [])
  else PosixPath.join host.madeOverlayDir (orElse o.id host.randomId ++ ".restore.overlay".toList)

/-- `makeOverlayTempDir`, for an overlay that the options do not name. --/
def makeOverlayDir (needsOverlay : Bool) : Disks Unit :=
  if needsOverlay && !truthy o.overlayPath then mkdir (names host.madeOverlayDir) else pure ()

/-- The `try` block once the disks are there. --/
def boot (needsOverlay : Bool) (attached : List AttachedDisk) : Disks Booted := do
  o.makeOverlayDir host needsOverlay
  validateRootfsRuntimePathForCapabilities "run" o.cpus (o.rootDisk host) host.capabilities
  let memMiB ← Exec.lift (memoryFromOptions o.memory o.memMiB)
  let cpus ← Exec.lift (cpusFromOptions host.capabilities o.cpus)
  runVm host {
    kernelPath := resolvePath host.cwd o.kernelPath
    rootfsPath := o.rootDisk host
    overlayPath := if needsOverlay then some (o.overlay host) else none
    memMiB := memMiB
    cpus := cpus
    attachDisks := attached }

def cleanup (needsOverlay : Bool) : Disks Unit :=
  if needsOverlay && !truthy o.overlayPath && !o.keepOverlay then rm (names host.madeOverlayDir) else pure ()

end SdkRunOptions

def runImage (host : Host) (o : SdkRunOptions) : Disks Booted := do
  let _ ← Exec.lift (cpusFromOptions host.capabilities o.cpus)
  let attached ← Exec.lift (RootfsCache.resolveAttachedDisks host.cwd o.attachDisks 0)
  let s ← Exec.get
  attached.forM fun disk =>
    Exec.check (isFile s (names disk.path)) ("attached disk does not exist: " ++ disk.path.str)
  let needsOverlay ← Exec.lift (restoreEnabled o)
  tryFinally (o.boot host needsOverlay attached) (o.cleanup host needsOverlay)

/-! ### Snapshots -/

structure SdkSnapshotCreateOptions where
  id : Option Text := none
  image : Option Text := none
  dockerfile : Option Text := none
  repo : Option Text := none
  rootfsPath : Option Text := none
  /-- `kernelPathFromOptions` --/
  kernelPath : Text
  output : Text
  tempDir : Option Text := none
  memory : Option Number := none
  memMiB : Option Number := none
  cpus : Option Number := none
  attachDisks : List AttachedDisk := []

structure SdkRunResult where
  id : Text
  rootfsPath : Text
  builtRootfs : Bool
  snapshotPath : Text
  deriving DecidableEq

def snapshotManifest : Text := "snapshot.json".toList

def rootfsName : Text := "rootfs.ext4".toList

def kernelName : Text := "kernel".toList

def snapshotKind : Text := "node-vmm-rootfs-snapshot".toList

def hardlinkOrCopy (host : Host) (source dest : Names) : Disks Unit :=
  tryCatch (link (host.linkable source dest) source dest) fun _ => copyFile source dest

def readSnapshotManifest (snapshotDir : Text) : Disks SdkSnapshotManifest := do
  let manifestPath := PosixPath.join snapshotDir snapshotManifest
  match (← readFile (names manifestPath)).manifest with
  | none => throw "SyntaxError"
  | some manifest =>
    Exec.check (manifest.kind = snapshotKind ∧ manifest.version = .int 1)
      ("unsupported snapshot manifest: " ++ manifestPath.str)
    return manifest

/-- The manifest that `writeSnapshotBundle` writes. --/
def bundleManifest (now : Text) (memory cpus : Number) : SdkSnapshotManifest where
  kind := snapshotKind
  version := .int 1
  createdAt := now
  rootfs := rootfsName
  kernel := kernelName
  memory := memory
  cpus := cpus
  arch := "x86_64".toList
  note := ("Rootfs/kernel snapshot. RAM pause snapshots will use the same core command surface once native KVM " ++
    "CPU/device-state restore lands.").toList

/-- The kernel and the manifest of a bundle. --/
def fillKernel (host : Host) (snapshotDir kernelPath : Text) (memory cpus : Number) : Disks SdkSnapshotManifest := do
  hardlinkOrCopy host (names kernelPath) (names (PosixPath.join snapshotDir kernelName))
  let manifest := bundleManifest host.now memory cpus
  writeFile (names (PosixPath.join snapshotDir snapshotManifest)) ⟨host.stringify manifest, some manifest⟩
  return manifest

/-- What `writeSnapshotBundle` does in its directory once that is empty. --/
def fillBundle (host : Host) (snapshotDir rootfsPath kernelPath : Text) (memory cpus : Number) :
    Disks SdkSnapshotManifest := do
  hardlinkOrCopy host (names rootfsPath) (names (PosixPath.join snapshotDir rootfsName))
  fillKernel host snapshotDir kernelPath memory cpus

def writeSnapshotBundle (host : Host) (snapshotDir rootfsPath kernelPath : Text) (memory cpus : Number) :
    Disks SdkSnapshotManifest := do
  rm (names snapshotDir)
  mkdir (names snapshotDir)
  fillBundle host snapshotDir rootfsPath kernelPath memory cpus

namespace SdkSnapshotCreateOptions
variable (host : Host) (o : SdkSnapshotCreateOptions)

def ownsTemp : Bool := !truthy o.tempDir

def chosenTempDir : Text := if o.ownsTemp then host.madeTempDir else resolvePath host.cwd (o.tempDir.getD [])

def snapshotDir : Text := resolvePath host.cwd o.output

def sourcePath : Text :=
  if truthy o.rootfsPath then resolvePath host.cwd (o.rootfsPath.getD [])
  else PosixPath.join (o.chosenTempDir host) (orElse o.id host.randomId ++ ".ext4".toList)

/-- Up to the `try` block. --/
def start : Disks Unit := do
  let _ ← Exec.lift (cpusFromOptions host.capabilities o.cpus)
  let _ ← Exec.lift (RootfsCache.resolveAttachedDisks host.cwd o.attachDisks 0)
  if o.ownsTemp then mkdir (names host.madeTempDir) else pure ()

/-- The root filesystem, where the options do not name one. --/
def buildSource : Disks Unit :=
  if truthy o.rootfsPath then pure ()
  else do
    Exec.check (truthy o.image || truthy o.dockerfile || truthy o.repo)
      "snapshot create requires rootfsPath, image, dockerfile, or repo"
    let image ← Exec.lift host.build
    writeFile (names (o.sourcePath host)) image

/-- The root filesystem, and the memory and the processors of the manifest. --/
def prepare : Disks (Number × Number) := do
  o.buildSource host
  validateRootfsRuntimePathForCapabilities "snapshot create" o.cpus (o.sourcePath host) host.capabilities
  let memory ← Exec.lift (memoryFromOptions o.memory o.memMiB)
  let cpus ← Exec.lift (cpusFromOptions host.capabilities o.cpus)
  return (memory, cpus)

def cleanup : Disks Unit := if o.ownsTemp then rm (names host.madeTempDir) else pure ()

end SdkSnapshotCreateOptions

def createSnapshot (host : Host) (o : SdkSnapshotCreateOptions) : Disks SdkRunResult := do
  o.start host
  tryFinally (do
    let (memory, cpus) ← o.prepare host
    let manifest ← writeSnapshotBundle host (o.snapshotDir host) (o.sourcePath host) o.kernelPath memory cpus
    return {
      id := orElse o.id host.randomId
      rootfsPath := PosixPath.join (o.snapshotDir host) manifest.rootfs
      builtRootfs := !truthy o.rootfsPath
      snapshotPath := o.snapshotDir host }) (o.cleanup host)

structure SdkSnapshotRestoreOptions where
  snapshot : Text
  id : Option Text := none
  memory : Option Number := none
  memMiB : Option Number := none
  cpus : Option Number := none
  overlayPath : Option Text := none
  keepOverlay : Bool := false
  attachDisks : List AttachedDisk := []

/-- The options with which a restore calls `runImage`. --/
def SdkSnapshotRestoreOptions.runOptions (o : SdkSnapshotRestoreOptions) (snapshotDir : Text)
    (manifest : SdkSnapshotManifest) : SdkRunOptions where
  id := o.id
  kernelPath := resolvePath snapshotDir manifest.kernel
  rootfsPath := resolvePath snapshotDir manifest.rootfs
  memory := o.memory
  memMiB := some ((o.memMiB.or o.memory).getD manifest.memory)
  cpus := some (o.cpus.getD manifest.cpus)
  restore := some true
  sandbox := none
  overlayPath := o.overlayPath
  keepOverlay := o.keepOverlay
  attachDisks := o.attachDisks

def restoreSnapshot (host : Host) (o : SdkSnapshotRestoreOptions) : Disks Booted := do
  let snapshotDir := resolvePath host.cwd o.snapshot
  let manifest ← readSnapshotManifest snapshotDir
  runImage host (o.runOptions snapshotDir manifest)

/-! ### Histories -/

/-- An operation on the files. --/
inductive Event where
  /-- A file is written where it is: a resize, a rewrite. --/
  | write (path : Text) (content : Content)
  | rename (path target : Text)
  | remove (path : Text)
  | run (host : Host) (o : SdkRunOptions)
  | create (host : Host) (o : SdkSnapshotCreateOptions)
  | restore (host : Host) (o : SdkSnapshotRestoreOptions)

def step (s : Files Content) : Event → Option (Files Content)
  | .write path content => some (writeFile (names path) content s).2
  | .rename path target => some (PosixFs.rename (names path) (names target) s).2
  | .remove path => some (rm (names path) s).2
  | .run host o => some (runImage host o s).2
  | .create host o => some (createSnapshot host o s).2
  | .restore host o => some (restoreSnapshot host o s).2

end NodeVmm.Snapshot
