import NodeVmm.ImageReference
import NodeVmm.Lib.Exec

/-! Pulling an image: `pullOciImage` of `src/oci.ts` with the registry client and the blob cache under it.

    The registry is any function of the requests so far, so a response may have any bytes and any redirect is
    one of its answers. An aborted signal shows as a fetch that rejects. Progress output is left out. -/

namespace NodeVmm.Oci

abbrev Bytes := List UInt8

structure Descriptor where
  mediaType : Text
  digest : Text
  size : Option Nat
  os : Option Text
  architecture : Option Text
  deriving DecidableEq, Repr

structure Manifest where
  config : Option Descriptor
  layers : Option (List Descriptor)
  manifests : Option (List Descriptor)
  deriving DecidableEq, Repr

/-- `string[] | string | null | undefined`. --/
inductive Argv where
  | absent
  | one (word : Text)
  | many (words : List Text)
  deriving DecidableEq, Repr

/-- The `config` member of a config blob. --/
structure ConfigBlob where
  env : Option (List Text)
  entrypoint : Argv
  cmd : Argv
  workingDir : Option Text
  user : Option Text
  exposedPorts : Option (List Text)
  labels : Option (List (Text × Text))
  deriving DecidableEq, Repr

structure ImageConfig where
  env : List Text
  entrypoint : List Text
  cmd : List Text
  workingDir : Text
  user : Option Text
  exposedPorts : Option (List Text)
  labels : Option (List (Text × Text))
  deriving DecidableEq, Repr

structure Request where
  url : Text
  headers : List (Text × Text)
  deriving DecidableEq, Repr

structure Response where
  status : Nat
  wwwAuthenticate : Option Text
  contentLength : Option Text
  body : Option Bytes
  /-- The error that ends the body after these bytes. --/
  bodyError : Option String

structure Url where
  href : Text
  protocol : Text
  hostname : Text

/-- What the code takes from outside the repository: the registry, SHA-256 in lower-case hexadecimal digits,
    JSON, URLs, the process. --/
structure Host where
  registry : List Request → Request → Except String Response
  sha256 : Bytes → Text
  parseManifest : Bytes → Except String Manifest
  parseConfig : Bytes → Except String ConfigBlob
  /-- `token || access_token || ""` of a token response. --/
  parseToken : Bytes → Except String Text
  parseUrl : Text → Except String Url
  setSearchParam : Url → Text → Text → Url
  tokenRealms : List Text
  maxBlobBytes : Except String Nat
  pid : Text

/-- The token of the client, the requests so far, and the files of the blob cache. --/
structure Client where
  token : Text
  requests : List Request
  files : Text → Option Bytes

def normalizeArgv : Argv → List Text
  | .absent => []
  | .one [] => []
  | .one word => [word]
  | .many words => words

def imageConfigFromBlob (config : ConfigBlob) : ImageConfig where
  env := config.env.getD []
  entrypoint := normalizeArgv config.entrypoint
  cmd := normalizeArgv config.cmd
  workingDir := config.workingDir.getD "/".toList
  user := config.user.filter (· ≠ [])
  exposedPorts := config.exposedPorts
  labels := config.labels

/-! ### Requests -/

def fetch (host : Host) (request : Request) : Exec Client Response := do
  let c ← Exec.get
  Exec.modify fun c => { c with requests := c.requests ++ [request] }
  Exec.lift (host.registry c.requests request)

/-- One `name="value"` at the start of a text, and what follows it. --/
def challengeParam (s : Text) : Option ((Text × Text) × Text) :=
  let nameChar (c : Char) := c.isAlphanum || c == '_' || c == '-'
  let startsName := match s with
    | [] => false
    | c :: _ => c.isAlpha || c == '_'
  let afterName := s.dropWhile nameChar
  let afterQuote := afterName.drop 2
  if startsName && Text.startsWith afterName ['=', '"'] && afterQuote.contains '"' then
    some ((s.takeWhile nameChar, afterQuote.takeWhile (· ≠ '"')), (afterQuote.dropWhile (· ≠ '"')).drop 1)
  else none

/-- The global matches of the pattern, from the left; each round takes at least one character. --/
def challengeParams : Nat → Text → List (Text × Text)
  | 0, _ => []
  | _ + 1, [] => []
  | fuel + 1, c :: rest =>
    match challengeParam (c :: rest) with
    | some (param, after) => param :: challengeParams fuel after
    | none => challengeParams fuel rest

/-- The parameters of a bearer challenge; of two with one name the later counts. --/
def parseBearerChallenge (header : Option Text) : Option (Text → Option Text) :=
  match header with
  | none => none
  | some header =>
    if Text.startsWith (Text.lower header) "bearer ".toList then
      let body := header.drop "bearer ".toList.length
      some fun name => (challengeParams body.length body).reverse.lookup name
    else none

def validateTokenRealm (host : Host) (ref : ImageReference) (tokenUrl : Url) : Except String Unit :=
  let hostname := Text.lower tokenUrl.hostname
  let registryHost := Text.lower ref.registry
  let loopback := hostname == "localhost".toList || hostname == "127.0.0.1".toList || hostname == "::1".toList
  if tokenUrl.protocol != "https:".toList && !(loopback && tokenUrl.protocol == "http:".toList) then
    .error ("registry token realm must use https: " ++ Text.str tokenUrl.href)
  else
    let allowed := registryHost :: host.tokenRealms ++
      (if registryHost = dockerRegistry then ["auth.docker.io".toList] else [])
    if allowed.contains hostname then .ok ()
    else .error ("registry token realm host is not allowed: " ++ Text.str hostname ++
      ". Set NODE_VMM_REGISTRY_TOKEN_REALMS to opt in.")

def responseOk (response : Response) : Bool := 200 ≤ response.status && response.status ≤ 299

def requestFailed (response : Response) (url : Text) : String :=
  "registry request failed " ++ toString response.status ++ ": " ++ Text.str url

def fetchAuthorized (host : Host) (ref : ImageReference) (apiPath accept : Text) : Exec Client Response := do
  let url := "https://".toList ++ ref.registry ++ apiPath
  let c ← Exec.get
  let authorization : List (Text × Text) :=
    if c.token = [] then [] else [("Authorization".toList, "Bearer ".toList ++ c.token)]
  let response ← fetch host ⟨url, ("Accept".toList, accept) :: authorization⟩
  if response.status ≠ 401 then do
    Exec.check (responseOk response) (requestFailed response url)
    pure response
  else
    match (parseBearerChallenge response.wwwAuthenticate).map fun params => (params, params "realm".toList) with
    | some (params, some (r :: realm)) => do
      let tokenUrl ← Exec.lift (host.parseUrl (r :: realm))
      Exec.lift (validateTokenRealm host ref tokenUrl)
      let tokenUrl := match params "service".toList with
        | some (s :: service) => host.setSearchParam tokenUrl "service".toList (s :: service)
        | _ => tokenUrl
      let scope := match params "scope".toList with
        | some (s :: scope) => s :: scope
        | _ => "repository:".toList ++ ref.repository ++ ":pull".toList
      let tokenUrl := host.setSearchParam tokenUrl "scope".toList scope
      let tokenResponse ← fetch host ⟨tokenUrl.href, []⟩
      Exec.check (responseOk tokenResponse)
        ("registry token request failed " ++ toString tokenResponse.status ++ ": " ++ Text.str tokenUrl.href)
      Exec.lift (match tokenResponse.bodyError with | some e => .error e | none => .ok ())
      let token ← Exec.lift (host.parseToken (tokenResponse.body.getD []))
      Exec.modify fun c => { c with token := token }
      Exec.check (token ≠ []) "registry token response did not include a token"
      let response ← fetch host ⟨url, [("Accept".toList, accept), ("Authorization".toList, "Bearer ".toList ++ token)]⟩
      Exec.check (responseOk response) (requestFailed response url)
      pure response
    | _ => throw ("registry requires unsupported authentication for " ++ Text.str ref.registry)

def acceptManifests : Text :=
  ("application/vnd.oci.image.index.v1+json, application/vnd.docker.distribution.manifest.list.v2+json, " ++
    "application/vnd.oci.image.manifest.v1+json, application/vnd.docker.distribution.manifest.v2+json").toList

def acceptBlobs : Text :=
  ("application/vnd.oci.image.config.v1+json, application/vnd.docker.container.image.v1+json, " ++
    "application/vnd.oci.image.layer.v1.tar+gzip, application/vnd.docker.image.rootfs.diff.tar.gzip, " ++
    "application/octet-stream").toList

def manifestPath (ref : ImageReference) (reference : Text) : Text :=
  "/v2/".toList ++ ref.repository ++ "/manifests/".toList ++ reference

/-- The body that `response.json()` parses. --/
def fetchBody (host : Host) (ref : ImageReference) (apiPath : Text) : Exec Client Bytes := do
  let response ← fetchAuthorized host ref apiPath acceptManifests
  match response.bodyError with
  | some e => throw e
  | none => pure (response.body.getD [])

/-- `fetchJson` of a manifest, with the body that it parsed. --/
def fetchJson (host : Host) (ref : ImageReference) (apiPath : Text) : Exec Client (Bytes × Manifest) := do
  let body ← fetchBody host ref apiPath
  let manifest ← Exec.lift (host.parseManifest body)
  pure (body, manifest)

/-! ### Blobs -/

/-- The 64 digits of a digest `sha256:...`, in lower case. --/
def sha256FromDigest (digest : Text) : Except String Text :=
  let hex := digest.drop "sha256:".toList.length
  let isHex (c : Char) := c.isDigit || ('a' ≤ c && c ≤ 'f') || ('A' ≤ c && c ≤ 'F')
  if Text.startsWith digest "sha256:".toList && hex.length == 64 && hex.all isHex then .ok (Text.lower hex)
  else .error ("unsupported OCI digest: " ++ Text.str digest)

/-- Every UTF-16 unit outside `[A-Za-z0-9_.-]` becomes `_`. --/
def safeDigestName (digest : Text) : Text :=
  digest.flatMap fun c =>
    if c.isAlphanum || c == '_' || c == '.' || c == '-' then [c]
    else if c.toNat < 0x10000 then ['_'] else ['_', '_']

def verifyDigest (host : Host) (bytes : Bytes) (digest : Text) : Except String Unit := do
  let expected ← sha256FromDigest digest
  if host.sha256 bytes ≠ expected then
    .error ("OCI blob digest mismatch for " ++ Text.str digest ++ ": got sha256:" ++ Text.str (host.sha256 bytes))
  else pure ()

def setFile (file : Text) (content : Option Bytes) (c : Client) : Client :=
  { c with files := fun f => if f = file then content else c.files f }

/-- `verifyDigestFile`. --/
def verifyDigestFile (host : Host) (file digest : Text) : Exec Client Unit := do
  let _ ← Exec.lift (sha256FromDigest digest)
  let c ← Exec.get
  match c.files file with
  | none => throw "ENOENT"
  | some bytes => Exec.lift (verifyDigest host bytes digest)

def blobTooLarge (digest : Text) (bytes maxBytes : Nat) : String :=
  "OCI blob is too large: " ++ Text.str digest ++ " " ++ toString bytes ++ " bytes exceeds " ++ toString maxBytes

def checkSize (digest : Text) (maxBytes : Nat) : Option Nat → Exec Client Unit
  | some size => Exec.check (size ≤ maxBytes) (blobTooLarge digest size maxBytes)
  | none => pure ()

def responseContentLength (response : Response) : Option Nat :=
  match response.contentLength with
  | none => none
  | some [] => none
  | some raw =>
    match Text.parseInt raw with
    | some n => if 0 ≤ n then some n.toNat else none
    | none => none

/-- `downloadBlob`: what arrived before an error stays in the file. --/
def downloadBlob (host : Host) (ref : ImageReference) (descriptor : Descriptor) (output : Text) : Exec Client Unit := do
  let maxBytes ← Exec.lift host.maxBlobBytes
  checkSize descriptor.digest maxBytes descriptor.size
  let response ← fetchAuthorized host ref
    ("/v2/".toList ++ ref.repository ++ "/blobs/".toList ++ descriptor.digest) acceptBlobs
  match response.body with
  | none => throw ("registry returned empty body for " ++ Text.str descriptor.digest)
  | some bytes => do
    checkSize descriptor.digest maxBytes (responseContentLength response)
    if maxBytes < bytes.length then do
      Exec.modify (setFile output (some (bytes.take maxBytes)))
      throw ("OCI blob " ++ Text.str descriptor.digest ++ " is too large: exceeds " ++ toString maxBytes ++ " bytes")
    else do
      Exec.modify (setFile output (some bytes))
      match response.bodyError with
      | some e => throw e
      | none => pure ()

/-- The name of the blob's file in the cache. A file that is there already is verified again. --/
def downloadBlobCached (host : Host) (ref : ImageReference) (descriptor : Descriptor) : Exec Client Text := do
  let output := safeDigestName descriptor.digest
  let c ← Exec.get
  if (c.files output).isSome then do
    verifyDigestFile host output descriptor.digest
    pure output
  else do
    let tmp := output ++ ".tmp-".toList ++ host.pid
    tryCatch
      (do
        downloadBlob host ref descriptor tmp
        verifyDigestFile host tmp descriptor.digest
        Exec.modify fun c => setFile tmp none (setFile output (c.files tmp) c))
      fun e => do
        Exec.modify (setFile tmp none)
        throw e
    pure output

/-! ### The pull -/

/-- `pullOciImage`'s result, and beside it the bodies and the config blob that it parsed. --/
structure Pulled where
  ref : ImageReference
  config : ImageConfig
  layers : List (Descriptor × Text)
  manifestBody : Bytes
  platform : Option (Descriptor × Bytes)
  configBlob : Descriptor × Bytes

def platformText (d : Descriptor) : Text :=
  d.os.getD "?".toList ++ "/".toList ++ d.architecture.getD "?".toList

def selectPlatform (manifests : List Descriptor) (osName arch : Text) : Except String Descriptor :=
  match manifests.find? fun d => d.os == some osName && d.architecture == some arch with
  | some d => .ok d
  | none => .error ("image does not provide " ++ Text.str osName ++ "/" ++ Text.str arch ++
      ". Available platforms: " ++
      (if manifests = [] then "none" else Text.str (", ".toList.intercalate (manifests.map platformText))))

def pullLayers (host : Host) (ref : ImageReference) : List Descriptor → Exec Client (List (Descriptor × Text))
  | [] => pure []
  | layer :: rest => do
    Exec.check (!Text.includes layer.mediaType "zstd".toList)
      ("zstd-compressed OCI layer is not supported yet: " ++ Text.str layer.digest)
    let path ← downloadBlobCached host ref layer
    let more ← pullLayers host ref rest
    pure ((layer, path) :: more)

/-- The manifest of an index is fetched by the digest that the index gives. --/
def resolveIndex (host : Host) (ref : ImageReference) (osName arch : Text) (manifest : Manifest) :
    Exec Client (Manifest × Option (Descriptor × Bytes)) :=
  match manifest.manifests with
  | some manifests => do
    let selected ← Exec.lift (selectPlatform manifests osName arch)
    let (body, inner) ← fetchJson host ref (manifestPath ref selected.digest)
    pure (inner, some (selected, body))
  | none => pure (manifest, none)

def pullOciImage (host : Host) (image osName arch : Text) : Exec Client Pulled := do
  let ref ← Exec.lift (parseImageReference image)
  let (body, outer) ← fetchJson host ref (manifestPath ref ref.reference)
  let (manifest, platform) ← resolveIndex host ref osName arch outer
  match manifest.config, manifest.layers with
  | some configDescriptor, some layerDescriptors => do
    let configPath ← downloadBlobCached host ref configDescriptor
    let c ← Exec.get
    match c.files configPath with
    | none => throw "ENOENT"
    | some configBytes => do
      let blob ← Exec.lift (host.parseConfig configBytes)
      let layers ← pullLayers host ref layerDescriptors
      pure
        { ref
          config := imageConfigFromBlob blob
          layers
          manifestBody := body
          platform
          configBlob := (configDescriptor, configBytes) }
  | _, _ => throw ("unsupported image manifest for " ++ Text.str ref.canonical)

end NodeVmm.Oci
