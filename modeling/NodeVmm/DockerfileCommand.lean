import NodeVmm.DockerfileVars
import NodeVmm.Lib.ShellScript

/-! CMD, ENTRYPOINT and SHELL of a stage in `buildDockerfileRootfs` of `src/rootfs.ts`, and what Docker starts for them. The
    other instructions of the stage set other fields. -/

namespace NodeVmm.Dockerfile
open RootfsCache (ImageConfig)

/-- The arguments of an instruction: the strings of its JSON form, none in the shell form, and their text. --/
structure Arguments where
  json : List Text
  content : Option Text
  deriving DecidableEq, Repr

inductive CommandInstruction where
  | cmd (a : Arguments)
  | entrypoint (a : Arguments)
  | shell (a : Arguments)
  deriving DecidableEq, Repr

def defaultShell : List Text := ["/bin/sh".toList, "-c".toList]

/-! ### The stage -/

structure CommandStage where
  config : ImageConfig
  shell : List Text

def commandWords (a : Arguments) : List Text := if a.json.length > 0 then a.json else [a.content.getD []]

def CommandStage.instruction (s : CommandStage) : CommandInstruction → CommandStage
  | .cmd a => { s with config := { s.config with cmd := commandWords a } }
  | .entrypoint a => { s with config := { s.config with entrypoint := commandWords a } }
  | .shell a => if a.json.length > 0 then { s with shell := a.json } else s

/-- The configuration of a stage that begins with the one of an image. --/
def stageConfig (image : ImageConfig) (instructions : List CommandInstruction) : ImageConfig :=
  (instructions.foldl CommandStage.instruction ⟨image, defaultShell⟩).config

/-! ### What Docker starts -/

/-- The exec form has an argument vector, the shell form a text for the shell of the stage. --/
inductive Form where
  | exec (argv : List Text)
  | shell (shell : List Text) (text : Text)
  deriving DecidableEq, Repr

/-- A JSON array without strings. --/
def isEmptyArray (text : Text) : Bool := text.filter (fun c => !" \t\r\n".toList.contains c) = "[]".toList

def Arguments.form (shell : List Text) (a : Arguments) : Form :=
  if a.json ≠ [] then .exec a.json
  else if isEmptyArray (a.content.getD []) then .exec []
  else .shell shell (a.content.getD [])

/-- The last CMD and the last ENTRYPOINT of a stage, and its shell. --/
structure DockerStage where
  cmd : Option Form
  entrypoint : Option Form
  shell : List Text

def DockerStage.instruction (d : DockerStage) : CommandInstruction → DockerStage
  | .cmd a => { d with cmd := some (a.form d.shell) }
  | .entrypoint a => { d with entrypoint := some (a.form d.shell) }
  | .shell a => if a.json ≠ [] then { d with shell := a.json } else d

def dockerStage (instructions : List CommandInstruction) : DockerStage :=
  instructions.foldl DockerStage.instruction ⟨none, none, defaultShell⟩

def execForm (argv : List Text) : Option Form := if argv = [] then none else some (.exec argv)

/-- What a container starts. A shell form of ENTRYPOINT takes no CMD, and ENTRYPOINT takes no CMD of the image. --/
def DockerStage.starts (d : DockerStage) (image : ImageConfig) : Option Form :=
  match d.entrypoint, d.cmd with
  | some (.shell shell text), _ => some (.shell shell text)
  | some (.exec entrypoint), none => execForm entrypoint
  | none, none => execForm (image.entrypoint ++ image.cmd)
  | entrypoint, some cmd =>
    let argv := match entrypoint with
      | some (.exec argv) => argv
      | _ => image.entrypoint
    match cmd with
    | .exec cmd => execForm (argv ++ cmd)
    | .shell shell text => if argv = [] then some (.shell shell text) else some (.exec (argv ++ shell ++ [text]))

end NodeVmm.Dockerfile
