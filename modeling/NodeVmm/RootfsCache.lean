import NodeVmm.Lib.JsObject
import NodeVmm.Lib.StableJson
import NodeVmm.PersistentDisk

/-! The cache of root filesystems: `rootfsCacheKey` and `buildOrReuseRootfs` of `src/index.ts`, with what the builders
    of `src/rootfs*.ts` put into the image.

    A file is known by the text of its path, and no links lead from one text to another. The registry answers every
    pull of an image for an architecture alike; the published root filesystems are those of one release. -/

namespace NodeVmm.RootfsCache
open StableJson

/-- An object of strings, by its entries in their order. --/
abbrev StringMap := List (Text × Text)

/-- Whether an optional text counts as true. --/
def truthy (o : Option Text) : Bool := o.any (· ≠ [])

/-- `a || b` --/
def orElse (a : Option Text) (b : Text) : Text := if truthy a then a.getD b else b

inductive InitMode where
  | batch
  | interactive
  deriving DecidableEq, Repr

inductive PrebuiltRootfsMode where
  | auto
  | require
  | off
  deriving DecidableEq, Repr

inductive Platform where
  | linux
  | darwin
  | win32
  deriving DecidableEq, Repr

structure ImageConfig where
  env : List Text
  entrypoint : List Text
  cmd : List Text
  workingDir : Text
  deriving DecidableEq, Repr

structure AttachedDisk where
  path : Text
  isReadonly : Bool
  deriving DecidableEq, Repr

/-- The options of a run, but for the network, the kernel and the limits of the virtual machine. --/
structure SdkRunOptions where
  id : Option Text := none
  image : Option Text := none
  dockerfile : Option Text := none
  repo : Option Text := none
  ref : Option Text := none
  subdir : Option Text := none
  contextDir : Option Text := none
  rootfsPath : Option Text := none
  diskPath : Option Text := none
  disk : Option Number := none
  diskMiB : Option Number := none
  diskSizeMiB : Option Number := none
  prebuilt : Option PrebuiltRootfsMode := none
  persist : Option Text := none
  reset : Bool := false
  buildArgs : Option StringMap := none
  env : Option StringMap := none
  cmd : Option Text := none
  entrypoint : Option Text := none
  workdir : Option Text := none
  initMode : Option InitMode := none
  interactive : Option Bool := none
  tempDir : Option Text := none
  cacheDir : Option Text := none
  platformArch : Option Text := none
  dockerfileRunTimeoutMs : Option Number := none
  overlayPath : Option Text := none
  overlayDir : Option Text := none
  restore : Option Bool := none
  sandbox : Option Bool := none
  attachDisks : List AttachedDisk := []
  keepOverlay : Bool := false
  keepRootfs : Bool := false
  deriving DecidableEq

structure RootfsBuildOptions where
  image : Option Text
  dockerfile : Option Text
  contextDir : Text
  diskMiB : Number
  buildArgs : StringMap
  env : StringMap
  cmd : Option Text
  entrypoint : Option Text
  workdir : Option Text
  initMode : Option InitMode
  platformArch : Text
  dockerfileRunTimeoutMs : Option Number
  deriving DecidableEq

/-- The content of a root filesystem: the files of the image, and what the builder adds to them. --/
structure Rootfs (Tree : Type) where
  tree : Tree
  /-- `/node-vmm/env` --/
  env : Text
  /-- What `/init` runs, and where. --/
  commandLine : Text
  workdir : Text
  /-- `/node-vmm/console` --/
  console : Bool
  deriving DecidableEq, Repr

structure File (Tree : Type) where
  rootfs : Rootfs Tree
  size : Nat
  deriving DecidableEq, Repr

/-- The files of root disks; the files of a named disk stand under its cache directory and its name. --/
structure Store (Tree : Type) where
  files : Text → Option (File Tree)
  named : Text × Text → PersistentDisk.Dir (Rootfs Tree)

/-- What `localeCompare` is relied on for: it orders, and it tells names of shell variables apart. --/
structure Collation where
  le : Text → Text → Bool
  total : ∀ a b, le a b || le b a
  trans : ∀ a b c, le a b → le b c → le a c

def identifierStart (c : Char) : Bool := c.isAlpha || c = '_'

/-- `/^[A-Za-z_][A-Za-z0-9_]*$/` --/
def isIdentifier : Text → Bool
  | [] => false
  | c :: rest => identifierStart c && rest.all fun c => identifierStart c || c.isDigit

def isHexDigit (c : Char) : Bool := c.isDigit || ('a' ≤ c && c ≤ 'f')

/-- The host, the registry and the release. --/
structure Machine (Tree : Type) where
  platform : Platform
  arch : Text
  localeCompare : Collation
  /-- Two names of variables compare equal only if they are. --/
  localeCompare_identifiers : ∀ a b, isIdentifier a → isIdentifier b → localeCompare.le a b → localeCompare.le b a → a = b
  /-- The hexadecimal digest. --/
  sha256 : Text → Text
  sha256_hex : ∀ t, ∀ c ∈ sha256 t, isHexDigit c
  /-- The files and the configuration of an image for an architecture. --/
  pullOciImage : Text → Text → Option (Tree × ImageConfig)
  dockerfileRootfs : RootfsBuildOptions → Option (Tree × ImageConfig)
  packageVersion : Option Text
  /-- The root filesystem that the release of a version publishes under a slug. --/
  prebuilt : Text → Text → Option (File Tree)

def mib : Nat := PersistentDisk.mib

/-! ### Keys -/

def rootfsCacheVersion : Number := .int 37

def chosenDiskMiB (o : SdkRunOptions) : Number := ((o.diskSizeMiB.or o.diskMiB).or o.disk).getD (.int 2048)

def requireNoAliasConflict {α : Type} [DecidableEq α] (label : String) (a b : Option α) : Except String Unit :=
  if a.isNone ∨ b.isNone ∨ a = b then .ok () else .error (label ++ " aliases disagree")

/-- With the fallback 2048. --/
def diskMiBFromOptions (o : SdkRunOptions) : Except String Number := do
  requireNoAliasConflict "disk/diskMiB" o.disk o.diskMiB
  requireNoAliasConflict "disk/diskSizeMiB" o.disk o.diskSizeMiB
  requireNoAliasConflict "diskMiB/diskSizeMiB" o.diskMiB o.diskSizeMiB
  return chosenDiskMiB o

def isCacheableOciRootfs (o : SdkRunOptions) (dockerfile : Option Text) : Bool :=
  truthy o.image && !truthy o.rootfsPath && !truthy o.repo && !truthy o.dockerfile && !truthy dockerfile &&
    !truthy o.entrypoint

def hasRootfsBuildInput (o : SdkRunOptions) : Bool := truthy o.image || truthy o.dockerfile || truthy o.repo

def normalizeRootfsPlatformArch (arch : Text) : Text :=
  if arch = "x64".toList ∨ arch = "x86_64".toList then "amd64".toList
  else if arch = "aarch64".toList then "arm64".toList
  else arch

def canUseCurrentPrebuiltRootfsAssets (platformArch : Text) : Bool :=
  normalizeRootfsPlatformArch platformArch = "amd64".toList

namespace Machine
variable {Tree : Type} (h : Machine Tree)

def defaultRootfsPlatformArch : Text :=
  if h.platform = .darwin ∧ h.arch = "arm64".toList then "arm64".toList else "amd64".toList

/-- The text that `rootfsCacheKey` hashes. --/
def rootfsCacheText (o : SdkRunOptions) : Text :=
  stableJson h.localeCompare.le (.object (Members.ofList [
    ("version".toList, .number rootfsCacheVersion),
    ("image".toList, ofText o.image),
    ("diskMiB".toList, .number (chosenDiskMiB o)),
    ("buildArgs".toList, ofStrings (o.buildArgs.getD [])),
    ("env".toList, ofStrings (o.env.getD [])),
    ("entrypoint".toList, ofText o.entrypoint),
    ("workdir".toList, ofText o.workdir),
    ("platformArch".toList, .string (o.platformArch.getD h.defaultRootfsPlatformArch)),
    ("dockerfileRunTimeoutMs".toList, ofNumber o.dockerfileRunTimeoutMs)]))

/-- For options whose aliases of the disk size agree. --/
def rootfsCacheKey (o : SdkRunOptions) : Text := h.sha256 (h.rootfsCacheText o)

end Machine

/-! ### Builds -/

def protoKey : Text := "__proto__".toList

/-- `m[key] = value`: the setter of `__proto__` takes no text. --/
def assign (key value : Text) (m : StringMap) : StringMap := if key = protoKey then m else JsObject.set key value m

def imageEnvToMap (env : List Text) : StringMap :=
  env.foldl (fun m item =>
    let key := item.takeWhile (· ≠ '=')
    if key ≠ [] ∧ '=' ∈ item then assign key (item.drop (key.length + 1)) m else m) []

def mergeEnv (config : ImageConfig) (userEnv : StringMap) : StringMap :=
  JsObject.spread (JsObject.set "NODE_VMM_DNS".toList "1.1.1.1".toList (imageEnvToMap config.env)) userEnv

def shellQuote (value : Text) : Text :=
  if value = [] then "''".toList
  else '\'' :: (value.flatMap (fun c => if c = '\'' then "'\\''".toList else [c]) ++ ['\''])

def quoteArgv (argv : List Text) : Text := Text.join ' ' (argv.map shellQuote)

def exportLine (e : Text × Text) : Text := "export ".toList ++ e.1 ++ '=' :: shellQuote e.2

def renderEnvFile (le : Text → Text → Bool) (env : StringMap) : Text :=
  Text.join '\n' ("# Generated by node-vmm.".toList ::
    ((sortByName le env).filter fun e => isIdentifier e.1).map exportLine) ++ ['\n']

def commandLineFromImage (config : ImageConfig) (cmd entrypoint : Option Text) : Text :=
  if truthy cmd && truthy entrypoint then Text.trim (entrypoint.getD [] ++ ' ' :: cmd.getD [])
  else if truthy cmd then
    Text.trim ((if config.entrypoint = [] then [] else quoteArgv config.entrypoint) ++ ' ' :: cmd.getD [])
  else if truthy entrypoint then
    Text.trim (entrypoint.getD [] ++ if config.cmd = [] then [] else ' ' :: quoteArgv config.cmd)
  else if config.entrypoint ++ config.cmd = [] then "/bin/sh".toList
  else quoteArgv (config.entrypoint ++ config.cmd)

def workdirFromImage (config : ImageConfig) (override : Option Text) : Text :=
  let selected := orElse override (orElse (some config.workingDir) ['/'])
  if Text.startsWith selected ['/'] then selected else '/' :: selected

def hostArchToOci (arch : Text) : Text :=
  if arch = "x64".toList then "amd64".toList else arch

namespace Machine
variable {Tree : Type} (h : Machine Tree)

/-- Where the builders install the helper of the interactive console. --/
def installsConsole (mode : Option InitMode) : Bool :=
  match h.platform with
  | .linux => mode = some .interactive
  | .darwin => false
  | .win32 => true

/-- The files of the image, or those that a Dockerfile makes, with the configuration. --/
def sourceRootfs (o : RootfsBuildOptions) : Option (Tree × ImageConfig) :=
  if truthy o.dockerfile then (if h.platform = .linux then h.dockerfileRootfs o else none)
  else if !truthy o.image then none
  else h.pullOciImage (o.image.getD [])
    (orElse (some o.platformArch) (if h.platform = .darwin then "arm64".toList else hostArchToOci h.arch))

/-- The image that `buildRootfs` writes, if it succeeds. --/
def builtRootfs (o : RootfsBuildOptions) : Option (File Tree) :=
  match o.diskMiB with
  | .int (.ofNat (n + 1)) => (h.sourceRootfs o).map fun source => {
      rootfs := {
        tree := source.1
        env := renderEnvFile h.localeCompare.le (mergeEnv source.2 o.env)
        commandLine := commandLineFromImage source.2 o.cmd o.entrypoint
        workdir := workdirFromImage source.2 o.workdir
        console := h.installsConsole o.initMode }
      size := (n + 1) * mib }
  | _ => none

end Machine

/-! ### Published root filesystems -/

structure PrebuiltRootfsImageMapping where
  image : Text
  slug : Text
  aliases : List Text

def prebuiltRootfsImages : List PrebuiltRootfsImageMapping := [
  ⟨"alpine:3.20".toList, "alpine-3.20".toList, ["library/alpine:3.20".toList]⟩,
  ⟨"node:20-alpine".toList, "node-20-alpine".toList, ["library/node:20-alpine".toList]⟩,
  ⟨"node:22-alpine".toList, "node-22-alpine".toList, ["library/node:22-alpine".toList]⟩,
  ⟨"oven/bun:1-alpine".toList, "oven-bun-1-alpine".toList, []⟩]

def dropStart (s start : Text) : Text := if Text.startsWith s start then s.drop start.length else s

def normalizeImageReference (image : Text) : Text :=
  let normalized := Text.lower (Text.trim image)
  let normalized := if Text.startsWith normalized "https://".toList then dropStart normalized "https://".toList
    else dropStart normalized "http://".toList
  let normalized := if Text.startsWith normalized "index.docker.io/".toList then
      "docker.io/".toList ++ dropStart normalized "index.docker.io/".toList
    else normalized
  let normalized := if Text.startsWith normalized "docker.io/library/".toList then
      dropStart normalized "docker.io/library/".toList
    else dropStart normalized "docker.io/".toList
  dropStart normalized "library/".toList

def prebuiltSlugForImage (image : Text) : Option Text :=
  (prebuiltRootfsImages.find? fun mapping =>
    (mapping.image :: mapping.aliases).any fun name =>
      normalizeImageReference name = normalizeImageReference image).map PrebuiltRootfsImageMapping.slug

/-! ### A run and its operations -/

/-- The operations that may fail, but for `access`, which answers. --/
inductive Op where
  | clone | mkdirCache | build | fetch | statTmp | truncateTmp | renameTmp | rmTmp | renameBuild | rmBuild
  | statDisk | truncateDisk | mkdirDisk | copyDisk | statDiskTmp | truncateDiskTmp | rmDisk | renameDisk | rmDiskTmp
  | runtimeCheck | boot
  deriving DecidableEq, Repr

/-- A call of `runImage` or `startVm`: its options, and what it finds and meets. --/
structure Run (Tree : Type) where
  options : SdkRunOptions
  /-- `defaults.cwd`, `defaults.cacheDir` and `process.cwd()` --/
  cwd : Text
  defaultCacheDir : Text
  processCwd : Text
  /-- `randomId` and `makeTempDir`, where the options do not say. --/
  randomId : Text
  madeTempDir : Text
  madeOverlayDir : Text
  /-- The process and the random part of the temporary names. --/
  unique : Text
  unique_name : '/' ∉ unique
  fails : Op → Bool
  fetchReason : String
  /-- What an operation that fails leaves of the file it writes. --/
  partialFile : Option (File Tree)
  /-- The operations on the files of the named disk. --/
  now : Text
  refreshNow : Text
  failsNamed : PersistentDisk.Op → Bool
  /-- The file of a disk that is attached for writing, when the virtual machine has ended. --/
  guest : Text → Option (File Tree) → File Tree

abbrev Stored (Tree : Type) := Exec (Store Tree)

section
variable {Tree : Type}

def Store.put (f : Text) (file : Option (File Tree)) (s : Store Tree) : Store Tree :=
  { s with files := Function.update s.files f file }

/-- `path.isAbsolute(target) ? target : path.resolve(cwd, target)` --/
def resolvePath (cwd target : Text) : Text :=
  if PosixPath.isAbsolute target then target else PosixPath.resolve cwd [target]

end

structure Source where
  contextDir : Text
  dockerfile : Option Text
  deriving DecidableEq, Repr

structure BuiltRootfs where
  rootfsPath : Text
  fromCache : Bool
  built : Bool
  resizeRootfs : Bool
  deriving DecidableEq, Repr

def cachedPath (cacheDir key : Text) : Text :=
  PosixPath.join (PosixPath.join cacheDir "rootfs".toList) (key ++ ".ext4".toList)

namespace Run
variable {Tree : Type} (r : Run Tree) (h : Machine Tree)

def attempt (op : Op) : Stored Tree Unit := Exec.check (!r.fails op) "EIO"

/-- `rm` with `force` --/
def rm (op : Op) (f : Text) : Stored Tree Unit := do
  r.attempt op
  Exec.modify (Store.put f none)

def rename (op : Op) (f g : Text) : Stored Tree Unit := do
  r.attempt op
  match (← Exec.get).files f with
  | some file => Exec.modify fun s => (s.put f none).put g (some file)
  | none => throw "ENOENT"

/-- An operation that writes the file `f`, or a part of it. --/
def write (op : Op) (f : Text) (file : Option (File Tree)) : Stored Tree Unit :=
  match file, r.fails op with
  | some file, false => Exec.modify (Store.put f (some file))
  | _, _ => do
    Exec.modify (Store.put f r.partialFile)
    throw "EIO"

def ensureDiskSizeAtLeast (stat truncate : Op) (f : Text) (diskMiB : Number) : Stored Tree Bool :=
  match diskMiB with
  | .int (.ofNat (n + 1)) => do
    let targetBytes := (n + 1) * mib
    r.attempt stat
    match (← Exec.get).files f with
    | some file =>
      if file.size > targetBytes then
        throw ("cannot shrink disk " ++ f.str ++ " from " ++ toString ((file.size + mib - 1) / mib) ++ " MiB to " ++
          toString (n + 1) ++ " MiB")
      else if file.size = targetBytes then return false
      else
        r.attempt truncate
        Exec.modify (Store.put f (some { file with size := targetBytes }))
        return true
    | none => throw "ENOENT"
  | _ => throw "disk size must be a positive integer MiB value"

def buildOptions (o : SdkRunOptions) (source : Source) : RootfsBuildOptions where
  image := o.image
  dockerfile := source.dockerfile
  contextDir := source.contextDir
  diskMiB := chosenDiskMiB o
  buildArgs := o.buildArgs.getD []
  env := o.env.getD []
  cmd := if isCacheableOciRootfs o source.dockerfile then none else o.cmd
  entrypoint := o.entrypoint
  workdir := o.workdir
  initMode := o.initMode
  platformArch := o.platformArch.getD h.defaultRootfsPlatformArch
  dockerfileRunTimeoutMs := o.dockerfileRunTimeoutMs

/-- The download to the temporary file; `none` if the root filesystem is to be built. --/
def usePrebuilt (o : SdkRunOptions) (tmp cached : Text) : Stored Tree (Option BuiltRootfs) := do
  let platformArch := o.platformArch.getD h.defaultRootfsPlatformArch
  let mode := o.prebuilt.getD .auto
  let image := o.image.getD []
  let slug := prebuiltSlugForImage image
  let supported := canUseCurrentPrebuiltRootfsAssets platformArch
  Exec.check (!(mode = .require && slug.isNone)) ("no prebuilt rootfs is published for " ++ image.str)
  Exec.check (!(mode = .require && !supported))
    ("required prebuilt rootfs unavailable for linux/" ++ platformArch.str)
  match slug with
  | none => return none
  | some slug =>
    if mode = .off || !supported then return none
    else
      Exec.check (!(h.packageVersion.isNone && mode = .require))
        "cannot determine package version for required prebuilt rootfs download"
      match h.packageVersion with
      | none => return none
      | some version =>
        match h.prebuilt version slug, r.fails .fetch with
        | some file, false => do
          Exec.modify (Store.put tmp (some file))
          tryCatch (do
              let resizeRootfs ← r.ensureDiskSizeAtLeast .statTmp .truncateTmp tmp (chosenDiskMiB o)
              r.rename .renameTmp tmp cached
              return some ⟨cached, true, true, resizeRootfs⟩)
            fun e => do
              r.rm .rmTmp tmp
              throw e
        | _, _ => do
          Exec.modify (Store.put tmp none)
          Exec.check (!(mode = .require))
            ("required prebuilt rootfs unavailable for " ++ image.str ++ ": " ++ r.fetchReason)
          return none

def buildCached (build : RootfsBuildOptions) (tmp cached : Text) : Stored Tree BuiltRootfs :=
  tryCatch (do
      r.write .build tmp (h.builtRootfs build)
      r.rename .renameBuild tmp cached
      return ⟨cached, true, true, false⟩)
    fun e => do
      r.rm .rmBuild tmp
      throw e

def buildOrReuseRootfs (o : SdkRunOptions) (source : Source) (output cacheDir : Text) : Stored Tree BuiltRootfs := do
  let cacheable := isCacheableOciRootfs o source.dockerfile
  let _ ← Exec.lift (diskMiBFromOptions o)
  let build := buildOptions h o source
  Exec.check (!(o.prebuilt = some .require && !cacheable))
    "required prebuilt rootfs unavailable for this rootfs input"
  if !cacheable then
    r.write .build output (h.builtRootfs build)
    return ⟨output, false, true, false⟩
  else
    r.attempt .mkdirCache
    let key := h.rootfsCacheKey o
    let cached := cachedPath cacheDir key
    if ((← Exec.get).files cached).isSome then return ⟨cached, true, false, true⟩
    else
      let tmp := cachedPath cacheDir (key ++ ".tmp-".toList ++ r.unique)
      match ← r.usePrebuilt h o tmp cached with
      | some prebuilt => return prebuilt
      | none => r.buildCached h build tmp cached

end Run

end NodeVmm.RootfsCache
