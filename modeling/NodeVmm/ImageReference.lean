import NodeVmm.Lib.Text

/-! References to images: `parseImageReference` of `src/oci.ts`. -/

namespace NodeVmm.Oci

structure ImageReference where
  registry : Text
  repository : Text
  reference : Text
  canonical : Text
  deriving DecidableEq, Repr

/-- The part after the first `@`, or the empty text: the digest by which the user names the image. --/
def referenceDigest (input : Text) : Text := ((Text.trim input).dropWhile (· ≠ '@')).drop 1

def dockerRegistry : Text := "registry-1.docker.io".toList

def parseImageReference (input : Text) : Except String ImageReference :=
  let trimmed := Text.trim input
  if trimmed = [] then .error "empty image reference"
  else
    let digest := referenceDigest input
    let ref := trimmed.takeWhile (· ≠ '@')
    let parts := Text.split '/' ref
    let first := parts.headD []
    let hasRegistry := parts.length > 1 && (first.contains '.' || first.contains ':' || first == "localhost".toList)
    let registry := if hasRegistry then first else dockerRegistry
    let repository := if hasRegistry then Text.join '/' (parts.drop 1) else ref
    let registry := if registry = "docker.io".toList then dockerRegistry else registry
    let repository :=
      if registry = dockerRegistry && !repository.contains '/' then "library/".toList ++ repository else repository
    let slash := Text.lastIndex '/' repository
    let colon := Text.lastIndex ':' repository
    let tagged := digest = [] && colon > slash
    let tag := if tagged then repository.drop colon else "latest".toList
    let repository := if tagged then repository.take (colon - 1) else repository
    let canonicalRegistry := if registry = dockerRegistry then "docker.io".toList else registry
    let canonicalRepo :=
      if canonicalRegistry = "docker.io".toList && Text.startsWith repository "library/".toList then
        repository.drop "library/".toList.length
      else repository
    .ok
      { registry
        repository
        reference := if digest = [] then tag else digest
        canonical := canonicalRegistry ++ "/".toList ++ canonicalRepo ++
          (if digest = [] then ":".toList ++ tag else "@".toList ++ digest) }

example : (parseImageReference "alpine".toList).map (·.canonical) = .ok "docker.io/alpine:latest".toList := by decide

end NodeVmm.Oci
