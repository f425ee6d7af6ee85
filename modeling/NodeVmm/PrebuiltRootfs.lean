import Mathlib.Algebra.Group.Int.Defs
import NodeVmm.RootfsCache

/-! Downloading a published root filesystem: `tryFetchPrebuiltRootfs` of `src/prebuilt-rootfs.ts`.

    The server answers as it likes, and a stream may break at any chunk. An aborted signal shows as a fetch or a stream
    that fails. Messages to the logger are left out. -/

namespace NodeVmm.PrebuiltRootfs
open RootfsCache

abbrev Bytes := List UInt8

/-! ### The manifest -/

/-- What `JSON.parse` gives. A number is an integer or not. --/
inductive Json where
  | null
  | bool (b : Bool)
  | number (n : Option Int)
  | string (s : Text)
  | array (items : List Json)
  | object (members : List (Text × Json))

namespace Json

def isObject : Json → Bool
  | .array _ | .object _ => true
  | _ => false

/-- The last member of a name stands. None of the names that are read is one of every object or array. --/
def get (name : String) : Json → Option Json
  | .object members => (members.reverse.find? fun e => e.1 = name.toList).map Prod.snd
  | _ => none

/-- A string that is not empty. --/
def nonEmpty : Option Json → Option Text
  | some (.string (c :: rest)) => some (c :: rest)
  | _ => none

def maxSafeInteger : Int := 2 ^ 53 - 1

/-- A safe integer. --/
def safeInteger : Option Json → Option Int
  | some (.number (some n)) => if -maxSafeInteger ≤ n ∧ n ≤ maxSafeInteger then some n else none
  | _ => none

end Json

structure PrebuiltRootfsFileMetadata where
  name : Text
  sizeBytes : Nat
  sha256 : Text
  deriving DecidableEq, Repr

/-- A manifest that has been checked; its kind, version, platform and architecture are the only ones there are. --/
structure PrebuiltRootfsManifest where
  image : Text
  slug : Text
  diskMiB : Nat
  createdAt : Text
  rootfs : PrebuiltRootfsFileMetadata
  gzip : PrebuiltRootfsFileMetadata
  deriving DecidableEq, Repr

def prebuiltRootfsManifestKind : Text := "node-vmm-prebuilt-rootfs".toList

def prebuiltRootfsManifestVersion : Int := 1

/-- `/^[0-9a-f]{64}$/` --/
def isSha256Hex (s : Text) : Bool := s.length = 64 && s.all fun c => ('0' ≤ c && c ≤ '9') || ('a' ≤ c && c ≤ 'f')

/-- `/^[A-Za-z0-9._-]+$/` --/
def isAssetName (s : Text) : Bool := s ≠ [] && s.all fun c => c.isAlphanum || c ∈ ['.', '_', '-']

def validateAssetName (name : Text) (label : String) : Except String Unit :=
  if isAssetName name then .ok () else .error ("bad " ++ label ++ " asset name: " ++ name.str)

def assertFileMetadata (value : Option Json) (label : String) : Except String PrebuiltRootfsFileMetadata := do
  let some record := value.filter Json.isObject | throw ("manifest " ++ label ++ " metadata is missing")
  let some name := Json.nonEmpty (record.get "name") | throw ("manifest " ++ label ++ ".name is invalid")
  validateAssetName name (label ++ ".name")
  let some (.ofNat sizeBytes) := Json.safeInteger (record.get "sizeBytes")
    | throw ("manifest " ++ label ++ ".sizeBytes is invalid")
  let some (.string sha256) := record.get "sha256" | throw ("manifest " ++ label ++ ".sha256 is invalid")
  if !isSha256Hex (Text.lower sha256) then throw ("manifest " ++ label ++ ".sha256 is invalid")
  return ⟨name, sizeBytes, Text.lower sha256⟩

/-- `dateParses` says whether `Date.parse` gives a number. --/
def validatePrebuiltRootfsManifest (dateParses : Text → Bool) (value : Json) : Except String PrebuiltRootfsManifest := do
  if !value.isObject then throw "manifest is not an object"
  let some (.string kind) := value.get "kind" | throw "manifest kind is invalid"
  if kind ≠ prebuiltRootfsManifestKind then throw "manifest kind is invalid"
  let some (.number (some version)) := value.get "version" | throw "manifest version is invalid"
  if version ≠ prebuiltRootfsManifestVersion then throw "manifest version is invalid"
  let some image := Json.nonEmpty (value.get "image") | throw "manifest image is invalid"
  let some slug := Json.nonEmpty (value.get "slug") | throw "manifest slug is invalid"
  validateAssetName slug "slug"
  let some (.ofNat (diskMiB + 1)) := Json.safeInteger (value.get "diskMiB") | throw "manifest diskMiB is invalid"
  let some (.string platform) := value.get "platform" | throw "manifest platform is invalid"
  if platform ≠ "linux".toList then throw "manifest platform is invalid"
  let some (.string arch) := value.get "arch" | throw "manifest arch is invalid"
  if arch ≠ "x86_64".toList then throw "manifest arch is invalid"
  let some (.string createdAt) := value.get "createdAt" | throw "manifest createdAt is invalid"
  if !dateParses createdAt then throw "manifest createdAt is invalid"
  let rootfs ← assertFileMetadata (value.get "rootfs") "rootfs"
  let gzip ← assertFileMetadata (value.get "gzip") "gzip"
  return ⟨image, slug, diskMiB + 1, createdAt, rootfs, gzip⟩

/-! ### The download -/

/-- The chunks of a body, and the error that ends it. --/
structure Body where
  chunks : List Bytes
  error : Option String := none
  deriving DecidableEq, Repr

structure Response where
  status : Nat
  statusText : String
  json : Except String Json
  body : Option Body

/-- `response.ok` --/
def Response.ok (r : Response) : Bool := 200 ≤ r.status && r.status ≤ 299

/-- What the code takes from outside the repository: the server, SHA-256 in hexadecimal digits, the decompressor with its
    states `G`, and the failures of the operations on the destination. --/
structure Host (G : Type) where
  fetch : Text → Except String Response
  sha256 : Bytes → Text
  gunzip : G
  inflate : G → Bytes → Except String (List Bytes × G)
  /-- What comes when the input ends. --/
  flush : G → Except String (List Bytes)
  dateParses : Text → Bool
  openFails : Bool := false
  /-- Whether a write fails, by the number of those before it. --/
  writeFails : Nat → Bool := fun _ => false
  closeFails : Bool := false
  rmFails : Bool := false

structure PrebuiltRootfsFetchOptions where
  image : Text
  packageVersion : Text
  repo : Option Text := none
  deriving DecidableEq, Repr

structure PrebuiltRootfsFetchResult where
  fetched : Bool
  reason : Option String := none
  manifest : Option PrebuiltRootfsManifest := none
  deriving DecidableEq, Repr

structure DownloadVerification where
  rootfsSha256 : Text
  rootfsSizeBytes : Nat
  gzipSha256 : Text
  gzipSizeBytes : Nat
  deriving DecidableEq, Repr

/-- The bytes that the two taps have seen, the decompressor, the file at the destination and the writes to it. --/
structure Streams (G : Type) where
  gzipTap : Bytes := []
  rootfsTap : Bytes := []
  gunzip : G
  file : Option Bytes
  writes : Nat := 0

/-- The file at the destination. --/
abbrev Fetch := Exec (Option Bytes)

def defaultRepo : Text := "misaelzapata/node-vmm".toList

def releaseTagForPackageVersion (version : Text) : Text :=
  let trimmed := Text.trim version
  if Text.startsWith trimmed "v".toList then trimmed else 'v' :: trimmed

def releaseAssetUrl (repo version assetName : Text) : Text :=
  "https://github.com/".toList ++ repo ++ "/releases/download/".toList ++ releaseTagForPackageVersion version ++
    '/' :: assetName

structure PrebuiltRootfsAssetNames where
  rootfs : Text
  gzip : Text
  manifest : Text
  deriving DecidableEq, Repr

def prebuiltRootfsAssetNames (slug : Text) : Except String PrebuiltRootfsAssetNames := do
  validateAssetName slug "slug"
  let rootfs := slug ++ ".ext4".toList
  return ⟨rootfs, rootfs ++ ".gz".toList, rootfs ++ ".manifest.json".toList⟩

def prebuiltRootfsImageForImage (image : Text) : Option PrebuiltRootfsImageMapping :=
  prebuiltRootfsImages.find? fun mapping =>
    (mapping.image :: mapping.aliases).any fun name => normalizeImageReference name = normalizeImageReference image

def assertDownloadedMetadata (label : String) (actualSha256 : Text) (actualSizeBytes : Nat)
    (expected : PrebuiltRootfsFileMetadata) : Except String Unit := do
  if Text.lower actualSha256 ≠ Text.lower expected.sha256 then
    throw (label ++ " checksum mismatch: expected " ++ expected.sha256.str ++ ", got " ++ actualSha256.str)
  if actualSizeBytes ≠ expected.sizeBytes then
    throw (label ++ " size mismatch: expected " ++ toString expected.sizeBytes ++ ", got " ++ toString actualSizeBytes)

namespace Host
variable {G : Type} (h : Host G)

/-- A chunk passes the second tap and is written. --/
def store (chunk : Bytes) : Exec (Streams G) Unit := do
  Exec.modify fun s => { s with rootfsTap := s.rootfsTap ++ chunk }
  Exec.check (!h.writeFails (← Exec.get).writes) "EIO"
  Exec.modify fun s => { s with file := s.file.map (· ++ chunk), writes := s.writes + 1 }

/-- A chunk passes the first tap and the decompressor. --/
def receive (chunk : Bytes) : Exec (Streams G) Unit := do
  Exec.modify fun s => { s with gzipTap := s.gzipTap ++ chunk }
  let (out, gunzip) ← Exec.lift (h.inflate (← Exec.get).gunzip chunk)
  Exec.modify fun s => { s with gunzip := gunzip }
  out.forM h.store

/-- `pipeline(source, gzipTap, gunzip, rootfsTap, file)` --/
def pipeline (source : Body) : Exec (Streams G) Unit := do
  Exec.check (!h.openFails) "EIO"
  Exec.modify fun s => { s with file := some [] }
  source.chunks.forM h.receive
  match source.error with
  | some e => throw e
  | none => pure ()
  let out ← Exec.lift (h.flush (← Exec.get).gunzip)
  out.forM h.store
  Exec.check (!h.closeFails) "EIO"

/-- `rm(destPath, { force: true })` --/
def rm : Fetch Unit := do
  Exec.check (!h.rmFails) "EIO"
  Exec.modify fun _ => none

def fetchPrebuiltRootfsManifest (manifestUrl : Text) : Except String PrebuiltRootfsManifest := do
  let resp ← h.fetch manifestUrl
  if !resp.ok then throw ("failed to fetch manifest: " ++ toString resp.status ++ " " ++ resp.statusText)
  validatePrebuiltRootfsManifest h.dateParses (← resp.json)

/-- The body that `fetchAndExtract` streams. --/
def fetchBody (gzipUrl : Text) : Except String Body := do
  let gzResp ← h.fetch gzipUrl
  if !gzResp.ok then throw ("failed to fetch rootfs: " ++ toString gzResp.status ++ " " ++ gzResp.statusText)
  let some body := gzResp.body | throw "rootfs response has no body"
  return body

/-- The streams from their start to their end, for the file at the destination. --/
def download (source : Body) : Fetch (Bytes × Bytes) := fun file =>
  match h.pipeline source { gunzip := h.gunzip, file := file } with
  | (.ok (), s) => (.ok (s.gzipTap, s.rootfsTap), s.file)
  | (.error e, s) => (.error e, s.file)

def fetchAndExtract (gzipUrl : Text) (manifest : PrebuiltRootfsManifest) : Fetch DownloadVerification := do
  let source ← Exec.lift (h.fetchBody gzipUrl)
  let (gzipTap, rootfsTap) ← h.download source
  let verification : DownloadVerification :=
    { gzipSha256 := Text.lower (h.sha256 gzipTap)
      gzipSizeBytes := gzipTap.length
      rootfsSha256 := Text.lower (h.sha256 rootfsTap)
      rootfsSizeBytes := rootfsTap.length }
  tryCatch (do
      Exec.lift (assertDownloadedMetadata "prebuilt gzip" verification.gzipSha256 verification.gzipSizeBytes manifest.gzip)
      Exec.lift (assertDownloadedMetadata "prebuilt rootfs" verification.rootfsSha256 verification.rootfsSizeBytes
        manifest.rootfs))
    fun e => do
      h.rm
      throw e
  return verification

def tryFetchPrebuiltRootfs (options : PrebuiltRootfsFetchOptions) : Fetch PrebuiltRootfsFetchResult := do
  let some mapping := prebuiltRootfsImageForImage options.image
    | return { fetched := false, reason := some ("no prebuilt mapping for " ++ options.image.str) }
  let repo := options.repo.getD defaultRepo
  let names ← Exec.lift (prebuiltRootfsAssetNames mapping.slug)
  tryCatch (do
      let manifest ← Exec.lift
        (h.fetchPrebuiltRootfsManifest (releaseAssetUrl repo options.packageVersion names.manifest))
      if manifest.slug ≠ mapping.slug then
        throw ("manifest slug mismatch: expected " ++ mapping.slug.str ++ ", got " ++ manifest.slug.str)
      if manifest.gzip.name ≠ names.gzip then
        throw ("manifest gzip asset mismatch: expected " ++ names.gzip.str ++ ", got " ++ manifest.gzip.name.str)
      let _ ← h.fetchAndExtract (releaseAssetUrl repo options.packageVersion manifest.gzip.name) manifest
      return { fetched := true, manifest := some manifest })
    fun e => do
      tryCatch h.rm fun _ => pure ()
      return { fetched := false, reason := some e }

end Host
end NodeVmm.PrebuiltRootfs
