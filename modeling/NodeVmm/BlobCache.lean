import NodeVmm.Lib.Inodes
import NodeVmm.Lib.Runs
import NodeVmm.OciPull

/-! Concurrent pulls into one blob cache: `downloadBlobCached` of `src/oci.ts` with every operation on a file as a
    step of its own.

    A download stores what the registry sends in any pieces, and any operation may throw: that covers the limits and
    the requests of `downloadBlob`, which touch no file. A process may end at any time: each of its pulls exits. -/

namespace NodeVmm.Oci.BlobCache

/-- The file operation that a call of `downloadBlobCached` is at. --/
inductive Loc where
  /-- `pathExists(output)` --/
  | lookup
  /-- `verifyDigestFile(output, digest)`: the stream is opened, then read. --/
  | openEntry
  | readEntry (inode : Nat) (read : Bytes)
  /-- `downloadBlob` up to `createWriteStream(output)` --/
  | fetch
  | write (inode offset : Nat)
  /-- `verifyDigestFile(tmp, digest)` --/
  | openTmp
  | readTmp (inode : Nat) (read : Bytes)
  | rename
  /-- The handler: `rm(tmp, { force: true })`. --/
  | remove
  | returned
  /-- Thrown over the content of a file that was in the cache. --/
  | mismatch
  | failed
  deriving DecidableEq, Repr

/-- Inside the try block or its handler. --/
def Loc.downloading : Loc → Bool
  | .fetch | .write .. | .openTmp | .readTmp .. | .rename | .remove => true
  | .lookup | .openEntry | .readEntry .. | .returned | .mismatch | .failed => false

structure Pull where
  digest : Text
  pid : Text
  loc : Loc
  deriving DecidableEq, Repr

def Pull.output (p : Pull) : Text := safeDigestName p.digest

def Pull.tmp (p : Pull) : Text := p.output ++ ".tmp-".toList ++ p.pid

/-- The files of the directory `blobs` and the pulls of all processes. --/
structure Cache (n : Nat) where
  files : Inodes Text
  pulls : Fin n → Option Pull

inductive Act where
  | advance
  | write (bytes : Bytes)
  | read (count : Nat)
  | throw

inductive Event (n : Nat) where
  | start (i : Fin n) (digest pid : Text)
  | act (i : Fin n) (a : Act)
  | exit (i : Fin n)

/-- What a stream has read when it gets at most `count` bytes more. --/
def readMore (files : Inodes Text) (inode : Nat) (read : Bytes) (count : Nat) : Bytes :=
  read ++ ((files.data inode).drop read.length).take count

/-- The next operation of a pull. --/
def advance (host : Host) (p : Pull) (files : Inodes Text) : Option (Loc × Inodes Text) :=
  match p.loc with
  | .lookup => some (if (files.inode p.output).isSome then .openEntry else .fetch, files)
  | .openEntry =>
    match sha256FromDigest p.digest, files.inode p.output with
    | .ok _, some i => some (.readEntry i [], files)
    | _, _ => some (.failed, files)
  | .readEntry i read =>
    if read.length < (files.data i).length then none
    else some (if verifyDigest host read p.digest = .ok () then .returned else .mismatch, files)
  | .fetch => some (.write (files.openTrunc p.tmp).1 0, (files.openTrunc p.tmp).2)
  | .write _ _ => some (.openTmp, files)
  | .openTmp =>
    match sha256FromDigest p.digest, files.inode p.tmp with
    | .ok _, some i => some (.readTmp i [], files)
    | _, _ => some (.remove, files)
  | .readTmp i read =>
    if read.length < (files.data i).length then none
    else some (if verifyDigest host read p.digest = .ok () then .rename else .remove, files)
  | .rename =>
    if (files.inode p.tmp).isSome then some (.returned, files.rename p.tmp p.output)
    else some (.remove, files)
  | .remove => some (.failed, files.remove p.tmp)
  | .returned | .mismatch | .failed => none

/-- An operation throws, with no effect of its own. --/
def throwAt : Loc → Option Loc
  | .lookup | .openEntry | .readEntry .. | .remove => some .failed
  | .fetch | .write .. | .openTmp | .readTmp .. | .rename => some .remove
  | .returned | .mismatch | .failed => none

def act (host : Host) (p : Pull) (files : Inodes Text) : Act → Option (Loc × Inodes Text)
  | .advance => advance host p files
  | .write bytes =>
    match p.loc with
    | .write i offset => some (.write i (offset + bytes.length), files.write i offset bytes)
    | _ => none
  | .read count =>
    match p.loc with
    | .readEntry i read => some (.readEntry i (readMore files i read count), files)
    | .readTmp i read => some (.readTmp i (readMore files i read count), files)
    | _ => none
  | .throw => (throwAt p.loc).map fun loc => (loc, files)

variable {n : Nat}

def step (host : Host) (s : Cache n) : Event n → Option (Cache n)
  | .start i digest pid =>
    if s.pulls i = none then some { s with pulls := Function.update s.pulls i (some ⟨digest, pid, .lookup⟩) } else none
  | .act i a =>
    (s.pulls i).bind fun p => (act host p s.files a).map fun (loc, files) =>
      ⟨files, Function.update s.pulls i (some { p with loc })⟩
  | .exit i => some { s with pulls := Function.update s.pulls i none }

end NodeVmm.Oci.BlobCache
