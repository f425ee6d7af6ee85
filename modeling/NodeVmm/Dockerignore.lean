import NodeVmm.DockerfilePaths

/-! COPY and ADD from the build context: `loadDockerignore` and `copyDockerfileSources` of `src/rootfs.ts`. Where the files go,
    and the sources of COPY with `--from`, are left out. -/

namespace NodeVmm.Dockerfile
open PosixPath

/-! ### The file -/

/-- A line of `.dockerignore` that is taken as a pattern. --/
structure IgnorePattern where
  anchored : Bool
  cleaned : Text
  deriving DecidableEq, Repr

def ignorePattern (pattern : Text) : IgnorePattern where
  anchored := Text.startsWith pattern ['/']
  cleaned := stripEnd (pattern.dropWhile (· = '/'))

/-- The lines that are no comments and no negations; a file that cannot be read has none. The end of a line is trimmed with
    the rest. --/
def ignorePatterns (content : Option Text) : List IgnorePattern :=
  ((((Text.split '\n' (content.getD [])).map Text.trim).filter fun line =>
    line ≠ [] ∧ Text.startsWith line ['#'] = false ∧ Text.startsWith line ['!'] = false)).map ignorePattern

/-! ### The regular expression of a pattern -/

/-- What is left of a text after `[^/]*`, in all ways. --/
def afterNoSlash : Text → List Text
  | [] => [[]]
  | c :: s => (c :: s) :: if c = '/' then [] else afterNoSlash s

/-- What is left of some texts after a pattern in which `*` becomes `[^/]*`, in all ways. --/
def afterIgnore : Text → List Text → List Text
  | [], rests => rests
  | c :: pattern, rests =>
    if c = '*' then afterIgnore pattern (rests.flatMap afterNoSlash)
    else afterIgnore pattern (rests.filterMap fun s => if s.head? = some c then some s.tail else none)

/-- What comes after a separator, in all ways. --/
def afterSlash : Text → List Text
  | [] => []
  | c :: s => if c = '/' then s :: afterSlash s else afterSlash s

/-- `(?:/.*)?$` --/
def isBelow (rest : Text) : Bool := rest = [] || (rest.head? = some '/' && !rest.tail.any isLineEnd)

def IgnorePattern.test (p : IgnorePattern) (rel : Text) : Bool :=
  (afterIgnore p.cleaned (if p.anchored then [rel] else rel :: afterSlash rel)).any isBelow

/-- The function that `loadDockerignore` returns. --/
def loadDockerignore (content : Option Text) (source : Text) : Bool :=
  let rel := source.dropWhile (· = '/')
  (ignorePatterns content).any (·.test rel)

/-! ### The copy -/

/-- What is at a path: a file or a link, or a directory with its entries. --/
inductive ContextNode where
  | leaf
  | dir (entries : List ({ c : Text // IsName c } × ContextNode))

/-- What `stat` and `readdir` find at a host path, through links. --/
abbrev Context := Text → Option ContextNode

def Context.readdir (context : Context) (path : Text) : Except String (List { c : Text // IsName c }) :=
  match context path with
  | some (.dir entries) => .ok (entries.map Prod.fst)
  | some .leaf => .error "ENOTDIR"
  | none => .error "ENOENT"

mutual

/-- The paths that `cp` copies with a filter, from a path on. --/
def cp (filter : Text → Bool) (source : Text) : ContextNode → List Text
  | .leaf => if filter source then [source] else []
  | .dir entries => if filter source then source :: cpEntries filter source entries else []

def cpEntries (filter : Text → Bool) (source : Text) : List ({ c : Text // IsName c } × ContextNode) → List Text
  | [] => []
  | (name, node) :: rest => cp filter (join source name.val) node ++ cpEntries filter source rest

end

def contextFilter (cwd contextDir : Text) (ignored : Text → Bool) (source : Text) : Bool :=
  let rel := relative (resolve cwd [contextDir]) source
  rel = [] || !ignored rel

/-- A directory is copied entry by entry. --/
def copySourcePath (context : Context) (filter : Text → Bool) (sourcePath : Text) : Except String (List Text) :=
  match context sourcePath with
  | none => .error "ENOENT"
  | some (.dir entries) => .ok (entries.flatMap fun entry =>
      if filter (join sourcePath entry.1.val) then cp filter (join sourcePath entry.1.val) entry.2 else [])
  | some .leaf => .ok (if filter sourcePath then [sourcePath] else [])

/-- The paths of the context that are copied for the sources of COPY or ADD. --/
def copyDockerfileSources (context : Context) (cwd contextDir : Text) (ignored : Text → Bool) :
    List Text → Except String (List Text)
  | [] => .ok []
  | source :: sources => do
    let sourcePaths ← expandContextSources context.readdir cwd contextDir source
    let copied ← sourcePaths.mapM (copySourcePath context (contextFilter cwd contextDir ignored))
    let rest ← copyDockerfileSources context cwd contextDir ignored sources
    pure (copied.flatten ++ rest)

end NodeVmm.Dockerfile
