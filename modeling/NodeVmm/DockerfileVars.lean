import NodeVmm.RootfsCache

/-! The variables of a Dockerfile: `expandBuildVars` and what `buildDockerfileRootfs` of `src/rootfs.ts` does with ARG, FROM and
    ENV and with the words of LABEL, WORKDIR, COPY and ADD.

    The instructions are those that the parser of the package finds. The files of the stages are left out. -/

namespace NodeVmm.Dockerfile
open RootfsCache (StringMap protoKey assign imageEnvToMap)

/-! ### Objects with a prototype -/

/-- The members of `Object.prototype`, as the text that one becomes in a replacement. --/
def prototypeMember (key : Text) : Option Text :=
  if key = protoKey then some "[object Object]".toList
  else if key = "constructor".toList then some "function Object() { [native code] }".toList
  else if ["__defineGetter__", "__defineSetter__", "hasOwnProperty", "__lookupGetter__", "__lookupSetter__", "isPrototypeOf",
      "propertyIsEnumerable", "toString", "valueOf", "toLocaleString"].contains (Text.str key) then
    some ("function ".toList ++ key ++ "() { [native code] }".toList)
  else none

/-- `m[key]` --/
def lookup (m : StringMap) (key : Text) : Option Text := (JsObject.get key m).or (prototypeMember key)

/-! ### Words with variables -/

inductive Piece where
  | char (c : Char)
  | ref (name : Text)
  deriving DecidableEq, Repr

def isNameStart (c : Char) : Bool := ('A' ≤ c && c ≤ 'Z') || ('a' ≤ c && c ≤ 'z') || c = '_'

def isNameChar (c : Char) : Bool := isNameStart c || ('0' ≤ c && c ≤ '9')

/-- The name that stands after a `$`, and how many characters there are to the end of the match. --/
def reference (s : Text) : Option (Text × Nat) :=
  if s.head? = some '{' then
    let name := s.tail.takeWhile isNameChar
    if name.head?.any isNameStart && (s.tail.drop name.length).head? = some '}' then some (name, name.length + 2) else none
  else
    let name := s.takeWhile isNameChar
    if name.head?.any isNameStart then some (name, name.length) else none

/-- The pieces of a text after some characters that are in the last match. --/
def piecesAfter : Nat → Text → List Piece
  | _, [] => []
  | n + 1, _ :: s => piecesAfter n s
  | 0, c :: s =>
    match if c = '$' then reference s else none with
    | some (name, length) => .ref name :: piecesAfter length s
    | none => .char c :: piecesAfter 0 s

def pieces (s : Text) : List Piece := piecesAfter 0 s

/-- The text of a piece, where no value stands for the empty text. --/
def Piece.fill (vars : Text → Option Text) : Piece → Text
  | .char c => [c]
  | .ref name => (vars name).getD []

def substitute (vars : Text → Option Text) (word : Text) : Text := (pieces word).flatMap (Piece.fill vars)

def expandBuildVars (value : Text) (vars : StringMap) : Text := substitute (lookup vars) value

/-- The variables of a word. --/
def references (word : Text) : List Text :=
  (pieces word).filterMap fun
    | .char _ => none
    | .ref name => some name

/-- The values that were substituted for the variables of a word. --/
structure Expansion where
  word : Text
  values : List (Text × Text)
  deriving DecidableEq, Repr

def expansion (vars : Text → Option Text) (word : Text) : Expansion :=
  ⟨word, (references word).map fun v => (v, (vars v).getD [])⟩

/-! ### Builds -/

inductive Instruction where
  | arg (words : List Text)
  | from (image : Text) (stage : Option Text)
  | env (properties : List (Text × Text))
  | label (properties : List (Text × Text))
  | workdir (target : Text)
  | copy (add : Bool) (words : List Text)
  deriving DecidableEq, Repr

def Instruction.keyword : Instruction → String
  | .arg _ => "ARG"
  | .from _ _ => "FROM"
  | .env _ => "ENV"
  | .label _ => "LABEL"
  | .workdir _ => "WORKDIR"
  | .copy add _ => if add then "ADD" else "COPY"

structure DockerfileStage where
  name : Option Text
  env : StringMap
  deriving DecidableEq, Repr

/-- The stages with the current one first. What is substituted is recorded. --/
structure BuildState where
  buildVars : StringMap
  stages : List DockerfileStage
  expansions : List Expansion
  deriving DecidableEq, Repr

/-- One word of ARG. --/
def declareArg (buildVars : StringMap) (raw : Text) : StringMap :=
  let key := raw.takeWhile (· ≠ '=')
  if (lookup buildVars key).isSome then buildVars else JsObject.set key (raw.drop (key.length + 1)) buildVars

/-- The environment that a stage begins with: that of an earlier stage, or of an image. --/
def stageEnv (imageEnv : Text → Except String (List Text)) (stages : List DockerfileStage) (image : Text) :
    Except String StringMap :=
  match stages.find? (·.name = some image) with
  | some fromStage => .ok fromStage.env
  | none => if image = "scratch".toList then .ok (imageEnvToMap []) else (imageEnv image).map imageEnvToMap

/-- One property of ENV, with the variables as they are by then. --/
def setEnv (buildVars : StringMap) : StringMap × List Expansion → Text × Text → StringMap × List Expansion
  | (env, expansions), (name, value) =>
    let vars := JsObject.spread buildVars env
    (assign name (expandBuildVars value vars) env, expansions ++ [expansion (lookup vars) value])

/-- One instruction in the loop of `buildDockerfileRootfs`. --/
def buildStep (imageEnv : Text → Except String (List Text)) (s : BuildState) (instruction : Instruction) :
    Except String BuildState :=
  match instruction, s.stages with
  | .arg words, _ => .ok { s with buildVars := words.foldl declareArg s.buildVars }
  | .from word stage, _ => do
    let image := expandBuildVars word s.buildVars
    if image = [] then throw "Dockerfile FROM requires an image"
    let env ← stageEnv imageEnv s.stages image
    pure
      { s with
        stages := ⟨stage, env⟩ :: s.stages
        expansions := s.expansions ++ [expansion (lookup s.buildVars) word] }
  | _, [] => .error ("Dockerfile " ++ instruction.keyword ++ " appears before FROM")
  | .env properties, current :: rest =>
    let (env, expansions) := properties.foldl (setEnv s.buildVars) (current.env, s.expansions)
    .ok { s with stages := { current with env } :: rest, expansions }
  | .label properties, current :: _ =>
    let vars := JsObject.spread s.buildVars current.env
    .ok { s with expansions := s.expansions ++ properties.map fun p => expansion (lookup vars) p.2 }
  | .workdir target, current :: _ =>
    let vars := JsObject.spread s.buildVars current.env
    .ok { s with expansions := s.expansions ++ [expansion (lookup vars) target] }
  | .copy _ words, current :: _ =>
    let vars := JsObject.spread s.buildVars current.env
    if words.length < 2 then .error ("Dockerfile " ++ instruction.keyword ++ " requires source and destination")
    else .ok { s with expansions := s.expansions ++ words.map (expansion (lookup vars)) }

def build (imageEnv : Text → Except String (List Text)) : BuildState → List Instruction → Except String BuildState
  | s, [] => .ok s
  | s, instruction :: rest => do
    let s ← buildStep imageEnv s instruction
    build imageEnv s rest

/-- A build begins with the build arguments. --/
def BuildState.initial (buildArgs : StringMap) : BuildState := ⟨buildArgs, [], []⟩

end NodeVmm.Dockerfile
