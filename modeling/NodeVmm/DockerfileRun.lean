import NodeVmm.DockerfileVars

/-! RUN in a Dockerfile: the command text, and the script in which `runDockerfileCommand` of `src/rootfs.ts` runs it. The files
    that are written before, the timeout and the signal are left out. -/

namespace NodeVmm.Dockerfile
open RootfsCache (StringMap shellQuote quoteArgv)

/-- What RUN reads of a stage. --/
structure RunStage where
  rootfs : Text
  env : StringMap
  workdir : Text
  shell : List Text

/-- The lines of `isolatedRunScript` between its first two and its last. --/
def isolationLines : List String :=
  ["",
   "cleanup() \x7b",
   "  umount -l \"$root/dev/pts\" 2>/dev/null || true",
   "  umount -l \"$root/dev/shm\" 2>/dev/null || true",
   "  umount -l \"$root/dev\" 2>/dev/null || true",
   "  umount -l \"$root/sys\" 2>/dev/null || true",
   "  umount -l \"$root/proc\" 2>/dev/null || true",
   "\x7d",
   "trap cleanup EXIT INT TERM HUP",
   "",
   "mkdir -p \"$root/proc\" \"$root/sys\" \"$root/dev\" \"$root/etc\" \"$root/run\" \"$root/tmp\"",
   "chmod 1777 \"$root/tmp\" 2>/dev/null || true",
   "mount -t proc -o nosuid,nodev,noexec proc \"$root/proc\"",
   "mount -t sysfs -o ro,nosuid,nodev,noexec sysfs \"$root/sys\" 2>/dev/null || true",
   "mount -t tmpfs -o mode=0755,size=16m,nosuid,noexec tmpfs \"$root/dev\"",
   "mkdir -p \"$root/dev/pts\" \"$root/dev/shm\"",
   "if ! mount -t devpts -o newinstance,gid=5,mode=620,ptmxmode=666 devpts \"$root/dev/pts\" 2>/dev/null; then",
   "  mount -t devpts devpts \"$root/dev/pts\"",
   "fi",
   "mount -t tmpfs -o mode=1777,nosuid,nodev tmpfs \"$root/dev/shm\"",
   "",
   "make_dev() \x7b",
   "  rm -f \"$1\"",
   "  mknod \"$1\" c \"$2\" \"$3\"",
   "  chmod \"$4\" \"$1\"",
   "\x7d",
   "make_dev \"$root/dev/null\" 1 3 666",
   "make_dev \"$root/dev/zero\" 1 5 666",
   "make_dev \"$root/dev/full\" 1 7 666",
   "make_dev \"$root/dev/random\" 1 8 666",
   "make_dev \"$root/dev/urandom\" 1 9 666",
   "make_dev \"$root/dev/tty\" 5 0 666",
   "ln -sf /dev/pts/ptmx \"$root/dev/ptmx\"",
   "ln -sf /proc/self/fd \"$root/dev/fd\"",
   "ln -sf /proc/self/fd/0 \"$root/dev/stdin\"",
   "ln -sf /proc/self/fd/1 \"$root/dev/stdout\"",
   "ln -sf /proc/self/fd/2 \"$root/dev/stderr\"",
   ""]

def chrootArgv (rootfs : Text) (shellCommand : List Text) : List Text := "chroot".toList :: rootfs :: shellCommand

def isolatedRunScript (rootfs : Text) (shellCommand : List Text) : Text :=
  Text.join '\n' ("set -eu".toList :: ("root=".toList ++ shellQuote rootfs) :: isolationLines.map String.toList ++
    [quoteArgv (chrootArgv rootfs shellCommand), []])

def envAssignment (e : Text × Text) : Text := e.1 ++ '=' :: shellQuote e.2

def envPrefix (env : StringMap) : Text := Text.join ' ' (env.map envAssignment)

def cdScript (workdir command : Text) : Text := "cd ".toList ++ shellQuote workdir ++ " && ".toList ++ command

/-- The last argument of the shell. --/
def shellText (stage : RunStage) (command : Text) : Text :=
  (if envPrefix stage.env = [] then [] else envPrefix stage.env ++ [' ']) ++ cdScript stage.workdir command

def shellCommand (stage : RunStage) (command : Text) : List Text :=
  let shell := if stage.shell.length > 0 then stage.shell else ["/bin/sh".toList, "-c".toList]
  if shell.length ≥ 2 ∧ shell.getLast? = some "-c".toList then shell.dropLast ++ ["-c".toList, shellText stage command]
  else ["/bin/sh".toList, "-lc".toList, shellText stage command]

/-- The command that `runDockerfileCommand` starts, with its arguments. --/
def runDockerfileCommand (stage : RunStage) (command : Text) : List Text :=
  ["unshare", "--mount", "--propagation", "private", "/bin/sh", "-c"].map String.toList ++
    [isolatedRunScript stage.rootfs (shellCommand stage command)]

/-- The text of a RUN instruction: the words of its JSON form, or its arguments. --/
def runText (json : List Text) (arguments : Option Text) : Text :=
  if json.length > 0 then quoteArgv json else arguments.getD []

/-- The variables that are expanded in the text. --/
def runVars (buildVars : StringMap) (stage : RunStage) : StringMap := JsObject.spread buildVars stage.env

/-- The text that is handed to the shell of RUN. --/
def handedText (buildVars : StringMap) (stage : RunStage) (json : List Text) (arguments : Option Text) : Text :=
  expandBuildVars (runText json arguments) (runVars buildVars stage)

/-- The instruction in the loop of `buildDockerfileRootfs`. --/
def runInstruction (buildVars : StringMap) (stage : RunStage) (json : List Text) (arguments : Option Text) : List Text :=
  runDockerfileCommand stage (handedText buildVars stage json arguments)

end NodeVmm.Dockerfile
