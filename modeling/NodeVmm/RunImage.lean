import NodeVmm.RootfsCache

/-! The root disk of a run: `prepareRunRootDisk`, `rootDiskSourceKey` and the disks of `runImage` and `startVm` in
    `src/index.ts`, with `materializeExplicitDisk` of `src/disk.ts`.

    The temporary directories that a run makes are new, so that removing one removes only what the run put there. -/

namespace NodeVmm.RootfsCache
open StableJson

inductive Operation where
  | run
  | start
  deriving DecidableEq, Repr

def Operation.name : Operation → String
  | .run => "run"
  | .start => "start"

structure PreparedRootDisk where
  rootfsPath : Text
  fromCache : Bool
  built : Bool
  resizeRootfs : Bool
  persistent : Bool
  /-- The cache directory and the name of a named disk. --/
  named : Option (Text × Text) := none
  deriving DecidableEq, Repr

structure MaterializedDisk where
  resized : Bool
  created : Bool
  deriving DecidableEq, Repr

/-- A disk that the virtual machine opens. --/
structure VmDisk where
  path : Text
  overlayPath : Option Text
  isReadonly : Bool
  deriving DecidableEq, Repr

def restoreEnabled (o : SdkRunOptions) : Except String Bool := do
  requireNoAliasConflict "restore/sandbox" o.restore o.sandbox
  return o.restore = some true || o.sandbox = some true || truthy o.overlayPath

def validateRunRootDiskOptionShape (operation : Operation) (o : SdkRunOptions) : Except String Unit :=
  if truthy o.persist && truthy o.diskPath then .error "--persist and diskPath/--disk PATH cannot be combined"
  else if truthy o.rootfsPath && truthy o.diskPath then
    .error ("rootfsPath and diskPath cannot both be set for " ++ operation.name)
  else if o.reset && !truthy o.diskPath && !truthy o.persist then .error "--reset requires --persist or --disk PATH"
  else .ok ()

/-- A number as `Number.isInteger` sees it; no disk has `10 ^ 21` MiB. --/
def integer : Number → Option Int
  | .int n => some n
  | _ => none

def resolveAttachedDisks (cwd : Text) : List AttachedDisk → Nat → Except String (List AttachedDisk)
  | [], _ => .ok []
  | disk :: rest, index => do
    if disk.path = [] then throw ("attachDisks[" ++ toString index ++ "].path is required")
    let resolved ← resolveAttachedDisks cwd rest (index + 1)
    return { disk with path := resolvePath cwd disk.path } :: resolved

namespace Run
variable {Tree : Type} (r : Run Tree) (h : Machine Tree)

def id : Text := orElse r.options.id r.randomId

def tempDir : Text :=
  if truthy r.options.tempDir then resolvePath r.cwd (r.options.tempDir.getD []) else r.madeTempDir

def cacheDir : Text := resolvePath r.cwd (orElse r.options.cacheDir r.defaultCacheDir)

def diskPath : Text := resolvePath r.cwd (r.options.diskPath.getD [])

def givenRootfs : Text := resolvePath r.cwd (r.options.rootfsPath.getD [])

/-- The file that an image is built in if it is not cached. --/
def outputPath : Text := PosixPath.join r.tempDir (r.id ++ ".ext4".toList)

def overlayPath : Text :=
  if truthy r.options.overlayPath then resolvePath r.cwd (r.options.overlayPath.getD [])
  else PosixPath.join r.madeOverlayDir (r.id ++ ".restore.overlay".toList)

/-- `interactiveForRun` --/
def isInteractive : Bool :=
  r.options.interactive.getD (["/bin/sh", "sh", "/bin/ash", "ash", "/bin/bash", "bash"].any fun shell =>
    Text.trim (r.options.cmd.getD []) = shell.toList)

/-- The options with the init mode that `prepareRunRootDisk` passes on. --/
def buildInput : SdkRunOptions :=
  { r.options with initMode := some (r.options.initMode.getD (if r.isInteractive then .interactive else .batch)) }

def resolveInside (root child : Text) (label : String) : Except String Text :=
  if PosixPath.isAbsolute child then .error (label ++ " must be relative when --repo is used")
  else
    let rootPath := PosixPath.resolve r.processCwd [root]
    let resolved := PosixPath.resolve rootPath [child]
    if resolved ≠ rootPath ∧ Text.startsWith resolved (rootPath ++ ['/']) = false then
      .error (label ++ " escapes cloned repository: " ++ child.str)
    else .ok resolved

def resolveSourceContext : Stored Tree Source :=
  let o := r.options
  if !truthy o.repo then
    return ⟨resolvePath r.cwd (orElse o.contextDir ['.']), o.dockerfile⟩
  else do
    Exec.check (!(truthy o.subdir && truthy o.contextDir && o.contextDir ≠ some ['.']))
      "use either subdir or contextDir with repo, not both"
    r.attempt .clone
    let contextDir ← Exec.lift (r.resolveInside (PosixPath.join r.tempDir "repo".toList)
      (orElse o.subdir (orElse o.contextDir ['.'])) "repo context")
    return ⟨contextDir, some (orElse o.dockerfile "Dockerfile".toList)⟩

/-- The text that `rootDiskSourceKey` hashes. --/
def rootDiskSourceText (baseRootfsPath : Text) : Text :=
  let o := r.options
  stableJson h.localeCompare.le (.object (Members.ofList [
    ("version".toList, .number rootfsCacheVersion),
    ("image".toList, ofText o.image),
    ("rootfsPath".toList, ofText (if truthy o.rootfsPath then
      some (PosixPath.resolve r.processCwd [o.rootfsPath.getD []]) else none)),
    ("baseRootfsPath".toList, .string baseRootfsPath),
    ("buildArgs".toList, ofStrings (o.buildArgs.getD [])),
    ("env".toList, ofStrings (o.env.getD [])),
    ("entrypoint".toList, ofText o.entrypoint),
    ("workdir".toList, ofText o.workdir),
    ("platformArch".toList, ofText o.platformArch),
    ("dockerfileRunTimeoutMs".toList, ofNumber o.dockerfileRunTimeoutMs)]))

def rootDiskSourceKey (baseRootfsPath : Text) : Text := h.sha256 (r.rootDiskSourceText h baseRootfsPath)

def materializeExplicitDisk (baseRootfsPath : Text) : Stored Tree MaterializedDisk := do
  let diskPath := r.diskPath
  let created := !((← Exec.get).files diskPath).isSome || r.options.reset
  let createdResized ← if created then do
      r.attempt .mkdirDisk
      let tmp := diskPath ++ ".tmp-".toList ++ r.unique
      tryCatch (do
          r.write .copyDisk tmp ((← Exec.get).files baseRootfsPath)
          let createdResized ← r.ensureDiskSizeAtLeast .statDiskTmp .truncateDiskTmp tmp (chosenDiskMiB r.options)
          r.rm .rmDisk diskPath
          r.rename .renameDisk tmp diskPath
          return createdResized)
        fun e => do
          tryCatch (r.rm .rmDiskTmp tmp) fun _ => pure ()
          throw e
    else pure false
  let resized := (← r.ensureDiskSizeAtLeast .statDisk .truncateDisk diskPath (chosenDiskMiB r.options)) || createdResized
  return ⟨resized, created⟩

/-- The call of `materializePersistentDisk`, on the base image as the store has it. --/
def persistentDisk (baseRootfsPath : Text) (s : Store Tree) : PersistentDisk.MaterializePersistentDiskOptions (Rootfs Tree) where
  name := r.options.persist.getD []
  base := (s.files baseRootfsPath).map fun file => (file.rootfs, file.size)
  cacheDir := r.cacheDir
  sourceKey := r.rootDiskSourceKey h baseRootfsPath
  diskMiB := integer (chosenDiskMiB r.options)
  reset := r.options.reset
  now := r.now
  refreshNow := r.refreshNow
  fails := r.failsNamed

def namedDisk : Text × Text := (r.cacheDir, r.options.persist.getD [])

def materializePersistentDisk (baseRootfsPath : Text) : Stored Tree PersistentDisk.MaterializedDisk := fun s =>
  let d := s.named r.namedDisk
  let (result, t) := (r.persistentDisk h baseRootfsPath s).materializePersistentDisk d.calls d
  (result, { s with named := Function.update s.named r.namedDisk { t with calls := d.calls + 1 } })

/-- The image that the disk is made of. --/
def baseRootfs (operation : Operation) : Stored Tree BuiltRootfs := do
  if truthy r.options.rootfsPath then return ⟨r.givenRootfs, false, false, false⟩
  else
    Exec.check (hasRootfsBuildInput r.options)
      (operation.name ++ " requires rootfsPath, diskPath, image, dockerfile, or repo")
    let source ← r.resolveSourceContext
    r.buildOrReuseRootfs h r.buildInput source r.outputPath r.cacheDir

def prepareRunRootDisk (operation : Operation) : Stored Tree PreparedRootDisk := do
  let o := r.options
  Exec.lift (validateRunRootDiskOptionShape operation o)
  let diskMiB ← Exec.lift (diskMiBFromOptions o)
  if truthy o.diskPath && ((← Exec.get).files r.diskPath).isSome && !o.reset then
    let resized ← r.ensureDiskSizeAtLeast .statDisk .truncateDisk r.diskPath diskMiB
    return { rootfsPath := r.diskPath, fromCache := false, built := false, resizeRootfs := resized, persistent := true }
  else
    Exec.check (!(truthy o.diskPath && !truthy o.rootfsPath && !hasRootfsBuildInput o))
      (operation.name ++ " cannot create --disk PATH without rootfsPath, image, dockerfile, or repo")
    let base ← r.baseRootfs h operation
    if truthy o.diskPath then
      let materialized ← r.materializeExplicitDisk base.rootfsPath
      return {
        rootfsPath := r.diskPath
        fromCache := false
        built := base.built || materialized.created
        resizeRootfs := base.resizeRootfs || materialized.resized
        persistent := true }
    else if truthy o.persist then
      let materialized ← r.materializePersistentDisk h base.rootfsPath
      return {
        rootfsPath := materialized.rootfsPath
        fromCache := false
        built := base.built || materialized.created
        resizeRootfs := base.resizeRootfs || materialized.resized
        persistent := true
        named := some r.namedDisk }
    else
      return {
        rootfsPath := base.rootfsPath
        fromCache := base.fromCache
        built := base.built
        resizeRootfs := base.resizeRootfs
        persistent := false }

/-! ### The virtual machine -/

/-- A disk file after the guest has written to it. --/
def writeDisk (f : Text) : Stored Tree Unit :=
  Exec.modify fun s => s.put f (some (r.guest f (s.files f)))

def writeNamed (f : Text) (name : Text × Text) : Stored Tree Unit :=
  Exec.modify fun s =>
    match (s.named name).files .diskPath with
    | some (.disk d) =>
      let after := r.guest f (some ⟨d.image, d.size⟩)
      let dir := (s.named name).put .diskPath (some (.disk { d with image := after.rootfs }))
      { s with named := Function.update s.named name dir }
    | _ => s

/-- The machine writes to the overlay over its root disk, or to the root disk. --/
def writeRoot (prepared : PreparedRootDisk) : Option Text → Stored Tree Unit
  | some overlay => r.writeDisk overlay
  | none =>
    match prepared.named with
    | some name => r.writeNamed prepared.rootfsPath name
    | none => r.writeDisk prepared.rootfsPath

def boot (prepared : PreparedRootDisk) (overlayPath : Option Text) (attached : List AttachedDisk) : Stored Tree Unit := do
  r.writeRoot prepared overlayPath
  attached.forM fun disk => if disk.isReadonly then pure () else r.writeDisk disk.path
  r.attempt .boot

def removeIf (c : Bool) (f : Text) : Stored Tree Unit := if c then Exec.modify (Store.put f none) else pure ()

def cleanup : Stored Tree Unit := do
  removeIf (!truthy r.options.overlayPath && !r.options.keepOverlay) r.overlayPath
  removeIf (!truthy r.options.tempDir && !r.options.keepRootfs) r.outputPath

/-- The machine on a root disk that is prepared. --/
def startPrepared (prepared : PreparedRootDisk) : Stored Tree (List VmDisk) := do
  let attached ← Exec.lift (resolveAttachedDisks r.cwd r.options.attachDisks 0)
  let s ← Exec.get
  attached.forM fun disk =>
    Exec.check (s.files disk.path).isSome ("attached disk does not exist: " ++ disk.path.str)
  let needsOverlay := (← Exec.lift (restoreEnabled r.options)) || (prepared.fromCache && !prepared.persistent)
  let overlayPath := if needsOverlay then some r.overlayPath else none
  r.attempt .runtimeCheck
  r.boot prepared overlayPath attached
  return ⟨prepared.rootfsPath, overlayPath, false⟩ :: attached.map fun disk => ⟨disk.path, none, disk.isReadonly⟩

def startDisks (operation : Operation) : Stored Tree (List VmDisk) := do
  let prepared ← r.prepareRunRootDisk h operation
  r.startPrepared prepared

/-- `runImage` and `startVm`: the disks of the machine. --/
def runImage (operation : Operation) : Stored Tree (List VmDisk) := do
  let _ ← Exec.lift (validateRunRootDiskOptionShape operation r.options)
  let disks ← tryCatch (r.startDisks h operation) fun e => do
    r.cleanup
    throw e
  r.cleanup
  return disks

end Run

end NodeVmm.RootfsCache
