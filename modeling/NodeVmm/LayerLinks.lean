import NodeVmm.LayerFiles
import NodeVmm.Lib.PyPath

/-! The absolute symlinks of a layer: `repairAbsoluteSymlinks` of `src/oci.ts`, and `clean_entry` and `repair_link` of the
    script that `src/rootfs-win32.ts` runs in WSL. -/

namespace NodeVmm.Oci

/-- What the archive says about an entry. --/
structure TarEntry where
  symbolicLink : Bool
  path : Text
  linkpath : Option Text
  deriving DecidableEq, Repr

/-- The `fixups` of an entry: the clean path of a symlink with an absolute target, and that target. --/
def fixup (entry : TarEntry) : Except String (Option (Text × Text)) := do
  match entry.linkpath with
  | none => pure none
  | some linkpath =>
    if entry.symbolicLink && Text.startsWith linkpath ['/'] then do
      match ← cleanLayerEntry entry.path with
      | none => pure none
      | some rel => pure (some (rel, linkpath))
    else pure none

/-- One round of the second loop of `repairAbsoluteSymlinks`. An error of `lstat` leaves the entry alone. --/
def repairFixup (cwd root : Text) (fixup : Text × Text) : Exec FileTree Unit := do
  let target ← Exec.lift (resolveInside cwd root fixup.1)
  let t ← Exec.get
  match t.locate (components cwd target) with
  | .error _ => pure ()
  | .ok place =>
    match t.lookup place with
    | some (.symlink current) =>
      if current = relativeTarget fixup.1 fixup.2 then pure ()
      else Exec.modify fun t => t.insert place (.symlink (relativeTarget fixup.1 fixup.2))
    | _ => pure ()

def repairFixups (cwd root : Text) : List (Text × Text) → Exec FileTree Unit
  | [] => pure ()
  | fixup :: rest => do
    repairFixup cwd root fixup
    repairFixups cwd root rest

/-- The entries are read first; a name that is refused ends the reading. --/
def fixups : List TarEntry → Except String (List (Text × Text))
  | [] => .ok []
  | entry :: rest => do
    let first ← fixup entry
    let others ← fixups rest
    pure (first.toList ++ others)

def repairAbsoluteSymlinks (cwd root : Text) (layer : List TarEntry) : Exec FileTree Unit := do
  let found ← Exec.lift (fixups layer)
  repairFixups cwd root found

end NodeVmm.Oci

namespace NodeVmm.Wsl

/-- `clean_entry` --/
def cleanEntry (name : Text) : Except String (Option Text) :=
  let cleaned := PyPath.lstripSlash (PyPath.normpath ('/' :: PyPath.strip name))
  if cleaned = [] ∨ cleaned = PosixPath.dot then .ok none
  else if (Text.split '/' cleaned).any (· == PosixPath.dotdot) then .error ("layer entry escapes rootfs: " ++ Text.str name)
  else .ok (some cleaned)

/-- `repair_link` of a script that runs in `cwd` --/
def repairLink (cwd rel link : Text) : Except String Text := do
  if Text.startsWith link ['/'] = false then pure link
  else
    let parent := PyPath.dirname ('/' :: rel)
    let repaired ← PyPath.relpath cwd (PyPath.normpath link) parent
    pure (if repaired = [] then PosixPath.dot else repaired)

end NodeVmm.Wsl
