import NodeVmm.Lib.Exec
import NodeVmm.Lib.FileTree

/-! The whiteouts of a layer: `cleanLayerEntry`, `resolveInside`, `safeRealDir` and `applyWhiteouts` of `src/oci.ts`.

    The files of the host are one tree. A removal is recorded with the whiteout that asked for it. No operation
    fails but for the shape of the tree. -/

namespace NodeVmm.Oci

/-- Something that was there and was removed, for the whiteout `base` in the directory `parent` of the image under
    `root`; these are real paths. --/
structure Removal where
  base : Text
  root : List Text
  parent : List Text
  target : List Text
  deriving DecidableEq, Repr

structure LayerState where
  tree : FileTree
  removed : List Removal

/-- `.trim()`, a leading `/`, `normalize`, and no `/` in front. --/
def cleanLayerEntry (name : Text) : Except String (Option Text) :=
  let cleaned := (PosixPath.normalize ('/' :: Text.trim name)).dropWhile (· = '/')
  if cleaned = [] ∨ cleaned = PosixPath.dot then .ok none
  else if Text.startsWith cleaned "../".toList || cleaned == PosixPath.dotdot then
    .error ("layer entry escapes rootfs: " ++ Text.str name)
  else .ok (some cleaned)

def resolveInside (cwd root rel : Text) : Except String Text :=
  let target := PosixPath.resolve cwd [root, rel]
  let rootAbs := PosixPath.resolve cwd [root]
  if target ≠ rootAbs ∧ Text.startsWith target (rootAbs ++ ['/']) = false then
    .error ("layer entry escapes rootfs: " ++ Text.str rel)
  else .ok target

def normalizeAbsoluteContainerPath (target : Text) : Text :=
  let normalized := PosixPath.normalize target
  if PosixPath.isAbsolute normalized then normalized else '/' :: normalized

/-- The target that `repairAbsoluteSymlinks` gives the symlink `rel` of the layer, for its absolute target `linkpath`. --/
def relativeTarget (rel linkpath : Text) : Text :=
  let target := PosixPath.relative (PosixPath.dirname ('/' :: rel)) (normalizeAbsoluteContainerPath linkpath)
  if target = [] then PosixPath.dot else target

/-- A path of the process, relative to its working directory. --/
def components (cwd s : Text) : List Text :=
  Text.split '/' (if PosixPath.isAbsolute s then s else cwd ++ '/' :: s)

/-- `safeRealDir`, which returns `targetReal`; `rootReal` is beside it for the record. --/
def safeRealDir (cwd root rel : Text) : Exec LayerState (List Text × List Text) := do
  let s ← Exec.get
  let rootReal ← Exec.lift (s.tree.resolve (components cwd root))
  let target ← Exec.lift (resolveInside cwd root rel)
  let targetReal ← Exec.lift (s.tree.resolve (components cwd target))
  Exec.check (PosixPath.ofNames targetReal = PosixPath.ofNames rootReal ||
      Text.startsWith (PosixPath.ofNames targetReal) (PosixPath.ofNames rootReal ++ ['/']))
    ("layer path resolves outside rootfs: " ++ Text.str rel)
  Exec.check (s.tree.lookup targetReal = some .dir) ("layer whiteout parent is not a directory: " ++ Text.str rel)
  pure (rootReal, targetReal)

/-- `rm(path.join(parent, name), { recursive: true, force: true })`. --/
def rm (cwd base : Text) (dirs : List Text × List Text) (name : Text) : Exec LayerState Unit := do
  let s ← Exec.get
  match s.tree.locate (components cwd (PosixPath.join (PosixPath.ofNames dirs.2) name)) with
  | .error e => if e = "ENOENT" then pure () else throw e
  | .ok target =>
    if (s.tree.lookup target).isSome then
      Exec.modify fun s =>
        { tree := s.tree.erase target, removed := s.removed ++ [⟨base, dirs.1, dirs.2, target⟩] }
    else pure ()

def rmAll (cwd base : Text) (dirs : List Text × List Text) : List Text → Exec LayerState Unit
  | [] => pure ()
  | child :: rest => do
    rm cwd base dirs child
    rmAll cwd base dirs rest

def whiteoutPrefix : Text := ".wh.".toList

def opaqueWhiteout : Text := ".wh..wh..opq".toList

/-- The base name of an entry that is a whiteout, and its directory in the image. --/
def whiteout (entry : Text) : Except String (Option (Text × Text)) := do
  match ← cleanLayerEntry entry with
  | none => pure none
  | some rel =>
    let base := PosixPath.basename rel
    if Text.startsWith base whiteoutPrefix then
      let parentRel := PosixPath.dirname rel
      pure (some (base, if parentRel = PosixPath.dot then [] else parentRel))
    else pure none

/-- One entry in the loop of `applyWhiteouts`. --/
def applyWhiteout (cwd root entry : Text) : Exec LayerState Unit := do
  match ← Exec.lift (whiteout entry) with
  | none => pure ()
  | some (base, parentRel) => do
    let dirs ← safeRealDir cwd root parentRel
    if base = opaqueWhiteout then do
      let s ← Exec.get
      rmAll cwd base dirs (s.tree.children dirs.2)
    else rm cwd base dirs (base.drop whiteoutPrefix.length)

def applyWhiteouts (cwd root : Text) : List Text → Exec LayerState Unit
  | [] => pure ()
  | entry :: rest => do
    applyWhiteout cwd root entry
    applyWhiteouts cwd root rest

end NodeVmm.Oci
