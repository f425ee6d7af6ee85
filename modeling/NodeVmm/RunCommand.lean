import Mathlib.Logic.Function.Basic
import NodeVmm.Lib.Utf8

/-! A child process: `runCommand` of `src/process.ts` with the process group that it starts and the pipes that it reads.

    A step is something that a process of the group does, or one turn of the event loop of Node.js. Time is left out: a
    timer that is set may fire in any later turn. Between the `exit` event and the continuation of the call only promise
    jobs run, so of the other events an abort alone can come there. -/

namespace NodeVmm.Process

inductive Signal where
  | sigint
  | sigterm
  | sigkill
  | other (name : String)
  deriving DecidableEq, Repr

def Signal.name : Signal → String
  | .sigint => "SIGINT"
  | .sigterm => "SIGTERM"
  | .sigkill => "SIGKILL"
  | .other name => name

structure CommandOptions where
  command : String
  args : List String
  capture : Bool
  allowFailure : Bool
  timeoutMs : Option Nat
  killTree : Bool
  /-- `options.signal` is given. --/
  signal : Bool
  win32 : Bool
  deriving DecidableEq, Repr

structure CommandResult where
  code : Option Nat
  stdout : Text
  stderr : Text
  timedOut : Bool
  signal : Option Signal
  deriving DecidableEq, Repr

def CommandOptions.detached (o : CommandOptions) : Bool := o.killTree && !o.win32

def CommandOptions.shown (o : CommandOptions) : String := o.command ++ " " ++ String.intercalate " " o.args

inductive Stream where
  | stdout
  | stderr
  deriving DecidableEq, Repr

/-- A captured stream: the pipe, the decoder of `setEncoding` and the variable that the chunks are added to. --/
structure Pipe where
  /-- The bytes that left the pipe. The code keeps no such record. --/
  read : List UInt8
  inFlight : List UInt8
  /-- A process still holds the other end. --/
  writable : Bool
  decoder : Option Utf8.Begun
  ended : Bool
  text : Text
  deriving DecidableEq, Repr

inductive Leader where
  /-- It failed to start. --/
  | absent
  | running
  | exited (code : Option Nat) (signal : Option Signal)
  deriving DecidableEq, Repr

/-- The call and the processes of its group. --/
structure Call where
  leader : Leader
  descendants : List Nat
  pipes : Stream → Pipe
  /-- The signals that were sent to the pid or its group, the last one first. --/
  sent : List Signal
  /-- The event that the call waits for has come: `exit`, or `error` with this text. --/
  woken : Option (Option String)
  /-- The timer is set. --/
  timeout : Bool
  /-- The timer in the variable of this name, and those that will fire. --/
  killTimeout : Option Nat
  killTimers : List Nat
  nextTimer : Nat
  onSigint : Bool
  onSigterm : Bool
  onAbort : Bool
  timedOut : Bool
  aborted : Bool
  forwardedSignal : Option Signal
  settled : Option (Except String CommandResult)

def Pipe.initial : Pipe where
  read := []
  inFlight := []
  writable := true
  decoder := none
  ended := false
  text := []

/-- The call after `spawn` and the code up to the first `await`; `started` says whether there is a process. --/
def initial (o : CommandOptions) (started : Bool) : Call where
  leader := if started then .running else .absent
  descendants := []
  pipes _ := Pipe.initial
  sent := []
  woken := none
  timeout := decide (0 < o.timeoutMs.getD 0)
  killTimeout := none
  killTimers := []
  nextTimer := 0
  onSigint := o.killTree
  onSigterm := o.killTree
  onAbort := o.signal
  timedOut := false
  aborted := false
  forwardedSignal := none
  settled := none

/-- `runCommand` up to there. --/
def runCommand (o : CommandOptions) (aborted started : Bool) : Except String Call :=
  if aborted then .error ("command aborted before start: " ++ o.shown) else .ok (initial o started)

/-- Every process of the group has exited. --/
def Call.gone (s : Call) : Prop := s.leader ≠ .running ∧ s.descendants = []

instance {s : Call} : Decidable s.gone := inferInstanceAs (Decidable (_ ∧ _))

/-- Only the continuation of the call is left to run in this turn. --/
def Call.waking (s : Call) : Bool := s.woken.isSome && s.settled.isNone

/-- What a signal does at once: `SIGKILL` ends the processes that get it. --/
def Call.receive (s : Call) (group : Bool) (signal : Signal) : Call :=
  if signal = .sigkill then
    { s with
      leader := if s.leader = .running then .exited none (some .sigkill) else s.leader
      descendants := if group then [] else s.descendants }
  else s

/-- `signalChild`, and `forceKillChild` with `SIGKILL`. The child of a call that is not detached is forgotten with its
    `exit` event. --/
def signalChild (o : CommandOptions) (s : Call) (signal : Signal) : Call :=
  if s.leader = .absent then s
  else if o.detached then { s.receive true signal with sent := signal :: s.sent }
  else if s.woken.isSome then s
  else { s.receive false signal with sent := signal :: s.sent }

/-- The end of `handleAbort` and of the callback of `timeout`. --/
def startKill (o : CommandOptions) (s : Call) : Call :=
  let s := signalChild o s .sigterm
  { s with killTimeout := some s.nextTimer, killTimers := s.nextTimer :: s.killTimers, nextTimer := s.nextTimer + 1 }

/-- What the call returns or throws after its clean-up. --/
def outcome (o : CommandOptions) (s : Call) : Except String CommandResult :=
  match s.woken, s.leader with
  | some (some error), _ => .error ("command failed to start: " ++ o.shown ++ "\n" ++ error)
  | _, leader =>
    let (code, exitSignal) := match leader with
      | .exited code signal => (code, signal)
      | _ => (none, none)
    let stderr := (s.pipes .stderr).text
    let details := if o.capture && Text.trim stderr ≠ [] then "\n" ++ Text.str (Text.trim stderr) else ""
    if s.aborted && !o.allowFailure then .error ("command aborted: " ++ o.shown)
    else if s.timedOut && !o.allowFailure then
      .error ("command timed out after " ++ toString (o.timeoutMs.getD 0) ++ "ms: " ++ o.shown)
    else if s.forwardedSignal.isSome && !o.allowFailure then
      .error ("command interrupted by " ++ (s.forwardedSignal.map Signal.name).getD "" ++ ": " ++ o.shown)
    else if code ≠ some 0 ∧ o.allowFailure = false then .error ("command failed: " ++ o.shown ++ details)
    else .ok ⟨code, (s.pipes .stdout).text, stderr, s.timedOut, exitSignal.or s.forwardedSignal⟩

/-- The `finally` block and what follows it. --/
def settle (o : CommandOptions) (s : Call) : Call :=
  { s with
    timeout := false
    killTimers := s.killTimers.filter fun k => some k ≠ s.killTimeout
    onSigint := s.onSigint && !o.killTree
    onSigterm := s.onSigterm && !o.killTree
    onAbort := false
    settled := some (outcome o s) }

/-! ### Pipes -/

/-- The next `n` bytes arrive as one chunk. --/
def Pipe.data (p : Pipe) (n : Nat) : Pipe :=
  let decoded := Utf8.run p.decoder (p.inFlight.take n)
  { p with
    read := p.read ++ p.inFlight.take n
    inFlight := p.inFlight.drop n
    decoder := decoded.1
    text := p.text ++ decoded.2 }

/-- The end of the stream: what the decoder holds back arrives before it. --/
def Pipe.eof (p : Pipe) : Pipe :=
  { p with writable := false, decoder := none, ended := true, text := p.text ++ Utf8.finish p.decoder }

/-- All bytes that were written to the stream. --/
def Pipe.written (p : Pipe) : List UInt8 := p.read ++ p.inFlight

def Call.setPipe (s : Call) (i : Stream) (p : Pipe) : Call := { s with pipes := Function.update s.pipes i p }

/-! ### Events -/

inductive Event where
  /-- A process of the group writes. --/
  | writes (i : Stream) (bytes : List UInt8)
  /-- The last process that holds the stream closes it. --/
  | shuts (i : Stream)
  | forks (pid : Nat)
  /-- A descendant exits. --/
  | exits (pid : Nat)
  | leaderExits (code : Option Nat) (signal : Option Signal)
  | data (i : Stream) (n : Nat)
  | eof (i : Stream)
  | exit
  | error (text : String)
  /-- The call goes on after the event. --/
  | continues
  | close
  | timeout
  | abort
  | hostSignal (signal : Signal)
  /-- A timer that `startKill` set fires. --/
  | forceKill (timer : Nat)
  deriving DecidableEq, Repr

def step (o : CommandOptions) (s : Call) : Event → Option Call
  | .writes i bytes =>
    if o.capture ∧ ¬s.gone ∧ (s.pipes i).writable then
      some (s.setPipe i { s.pipes i with inFlight := (s.pipes i).inFlight ++ bytes })
    else none
  | .shuts i => some (s.setPipe i { s.pipes i with writable := false })
  | .forks pid => if s.gone then none else some { s with descendants := pid :: s.descendants }
  | .exits pid => some { s with descendants := s.descendants.erase pid }
  | .leaderExits code signal => if s.leader = .running then some { s with leader := .exited code signal } else none
  | .data i n =>
    if s.waking = false ∧ 0 < n ∧ n ≤ (s.pipes i).inFlight.length then some (s.setPipe i ((s.pipes i).data n)) else none
  | .eof i =>
    if o.capture ∧ s.waking = false ∧ (s.pipes i).inFlight = [] ∧ ((s.pipes i).writable = false ∨ s.gone) ∧
        (s.pipes i).ended = false then
      some (s.setPipe i (s.pipes i).eof)
    else none
  | .exit =>
    match s.leader with
    | .exited _ _ => if s.woken = none then some { s with woken := some none } else none
    | _ => none
  | .error text => if s.leader = .absent ∧ s.woken = none then some { s with woken := some (some text) } else none
  | .continues => if s.waking then some (settle o s) else none
  | .close =>
    if s.settled.isSome ∧ (o.capture = true → (s.pipes .stdout).ended = true ∧ (s.pipes .stderr).ended = true) then some s
    else none
  | .timeout =>
    if s.timeout ∧ s.waking = false then some (startKill o { s with timeout := false, timedOut := true }) else none
  | .abort => if s.onAbort then some (startKill o { s with onAbort := false, aborted := true }) else none
  | .hostSignal signal =>
    if s.waking then none
    else if signal = .sigint ∧ s.onSigint then
      some (signalChild o { s with onSigint := false, forwardedSignal := some .sigint } .sigint)
    else if signal = .sigterm ∧ s.onSigterm then
      some (signalChild o { s with onSigterm := false, forwardedSignal := some .sigterm } .sigterm)
    else none
  | .forceKill timer =>
    if timer ∈ s.killTimers ∧ s.waking = false then
      some (signalChild o { s with killTimers := s.killTimers.erase timer } .sigkill)
    else none

end NodeVmm.Process
