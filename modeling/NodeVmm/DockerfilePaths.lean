import NodeVmm.Lib.PosixPath

/-! The paths of COPY, ADD and WORKDIR: `normalizeContainerPath`, `resolveContainerPath`, `hostPathInside` and
    `expandContextSources` of `src/rootfs.ts`. -/

namespace NodeVmm.Dockerfile
open PosixPath

def normalizeContainerPath (target : Text) : Text :=
  let normalized := normalize ('/' :: target)
  if normalized = ['/'] then ['/'] else stripEnd normalized

def resolveContainerPath (workdir target : Text) : Text :=
  if Text.startsWith target ['/'] then normalizeContainerPath target
  else normalizeContainerPath (join (if workdir = [] then ['/'] else workdir) target)

def hostPathInside (cwd root containerPath : Text) : Except String Text :=
  let rel := (normalizeContainerPath containerPath).dropWhile (· = '/')
  let resolved := resolve cwd [root, rel]
  let rootResolved := resolve cwd [root]
  if resolved ≠ rootResolved ∧ Text.startsWith resolved (rootResolved ++ ['/']) = false then
    .error ("Dockerfile path escapes rootfs: " ++ Text.str containerPath)
  else .ok resolved

/-! ### The build context -/

/-- The entries of a directory, or the error of reading it. --/
abbrev Listing := Text → Except String (List { c : Text // IsName c })

/-- The characters that `.` of a regular expression does not match. --/
def isLineEnd (c : Char) : Bool := c = '\n' || c = '\r' || c.toNat = 0x2028 || c.toNat = 0x2029

/-- What is left of a text after `.*`, in all ways. --/
def afterStar : Text → List Text
  | [] => [[]]
  | c :: s => (c :: s) :: if isLineEnd c then [] else afterStar s

/-- What is left of some texts after a pattern, in all ways. --/
def afterPattern : Text → List Text → List Text
  | [], rests => rests
  | c :: pattern, rests =>
    if c = '*' then afterPattern pattern (rests.flatMap afterStar)
    else afterPattern pattern (rests.filterMap fun s => if s.head? = some c then some s.tail else none)

/-- The test of the regular expression that `*` of the pattern becomes `.*` in. --/
def globMatches (pattern name : Text) : Bool := (afterPattern pattern [name]).contains []

/-- `source.replaceAll("\\", "/")`. --/
def normalizedSource (source : Text) : Text := source.map fun c => if c = '\\' then '/' else c

/-- The directory of a pattern, up to its last separator. --/
def globDir (normalized : Text) : Text :=
  let dir := normalized.take (Text.lastIndex '/' normalized - 1)
  if dir = [] then dot else dir

def globPattern (normalized : Text) : Text := normalized.drop (Text.lastIndex '/' normalized)

def expandContextSources (readdir : Listing) (cwd contextDir source : Text) : Except String (List Text) :=
  let normalized := normalizedSource source
  if normalized.contains '*' then do
    let dirPath := resolve cwd [contextDir, globDir normalized]
    let names ← readdir dirPath
    pure ((names.filter fun name => globMatches (globPattern normalized) name.val).map fun name => join dirPath name.val)
  else
    let resolved := resolve cwd [contextDir, normalized]
    let contextRoot := resolve cwd [contextDir]
    if resolved ≠ contextRoot ∧ Text.startsWith resolved (contextRoot ++ ['/']) = false then
      .error ("Dockerfile source escapes context: " ++ Text.str source)
    else .ok [resolved]

end NodeVmm.Dockerfile
