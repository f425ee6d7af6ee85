import NodeVmm.Lib.Exec
import NodeVmm.Lib.Text

/-! The network of a VM on a Linux host: `setupNetwork`, `setupPortForwards` and `parsePortForward` of `src/net.ts`, with
    what `ip`, `iptables` and `listen` do to the host.

    A command that fails changes nothing. The commands of the clean-up do not fail, but for a device that is not there. -/

namespace NodeVmm.Net

/-- A network device. --/
structure Device where
  name : String
  addresses : List String
  up : Bool
  deriving DecidableEq, Repr

structure Rule where
  table : String
  chain : String
  spec : List String
  deriving DecidableEq, Repr

/-- The state of the host that the call can change. A rule is anywhere in its chain; the list has the order of all. --/
structure Host where
  links : List Device
  rules : List Rule
  listening : List (Text × Nat)
  ipForward : Bool
  deriving DecidableEq, Repr

/-- What the call finds and what fails. --/
structure Env where
  root : Bool
  /-- Commands that `which` does not find. --/
  missing : List String
  /-- `NODE_VMM_GUEST_DNS` --/
  guestDns : String
  deterministicMac : Text → String
  /-- `randomBytes(4).toString("hex")` --/
  random : Text
  /-- A command that fails for a reason of its own. --/
  fails : List String → Bool
  /-- The port that the host gives the server of a mapping, or `none` when it may not listen there. --/
  listens : Nat → Option Nat

structure PortForward where
  host : Text
  hostPort : Nat
  guestPort : Nat
  deriving DecidableEq, Repr

/-- A number is `none` when it is no integer. --/
inductive PortForwardInput where
  | number (port : Option Int)
  | text (spec : Text)
  | mapping (host : Text) (hostPort guestPort : Option Int)
  deriving DecidableEq, Repr

structure SetupNetworkOptions where
  id : Text
  mode : String
  tapName : String
  ports : List PortForwardInput
  deriving DecidableEq, Repr

structure NetworkConfig where
  mode : String
  ifaceId : Option String
  tapName : Option String
  guestMac : Option String
  hostIp : Option String
  guestIp : Option String
  netmask : Option String
  cidrPrefix : Option Nat
  dns : Option String
  kernelNetArgs : Option String
  ports : List PortForward
  deriving DecidableEq, Repr

/-! ### Ports -/

def localhost : Text := "127.0.0.1".toList

def validatePort (port : Option Int) (label : String) (allowZero : Bool) : Except String Nat :=
  let min : Int := if allowZero then 0 else 1
  let message := label ++ " must be a TCP port from " ++ toString min ++ " to 65535"
  match port with
  | none => .error message
  | some port => if port < min ∨ 65535 < port then .error message else .ok port.toNat

def parsePortNumber (input : Text) (label : String) (allowZero : Bool) : Except String Nat :=
  if input = [] ∨ input.all Char.isDigit = false then .error (label ++ " must be a TCP port number")
  else validatePort (Text.parseInt input) label allowZero

def stripTcpProtocol (input : Text) : Except String Text :=
  let after := Text.lastIndex '/' input
  if after = 0 then .ok input
  else
    let protocol := Text.lower (input.drop after)
    if protocol ≠ "tcp".toList then .error ("node-vmm only supports TCP port publishing, got " ++ Text.str protocol)
    else .ok (input.take (after - 1))

def parsePortForward : PortForwardInput → Except String PortForward
  | .number port => do
    let port ← validatePort port "port" false
    pure ⟨localhost, 0, port⟩
  | .mapping host hostPort guestPort => do
    let hostPort ← validatePort hostPort "hostPort" true
    let guestPort ← validatePort guestPort "guestPort" false
    pure ⟨if host = [] then localhost else host, hostPort, guestPort⟩
  | .text input => do
    let spec ← stripTcpProtocol (Text.trim input)
    if spec = [] then throw "invalid --publish mapping: empty value"
    match Text.split ':' spec with
    | [port] => do
      let port ← parsePortNumber port "port" false
      pure ⟨localhost, 0, port⟩
    | [hostPort, guestPort] => do
      let hostPort ← parsePortNumber hostPort "hostPort" true
      let guestPort ← parsePortNumber guestPort "guestPort" false
      pure ⟨localhost, hostPort, guestPort⟩
    | [host, hostPort, guestPort] => do
      let hostPort ← parsePortNumber hostPort "hostPort" true
      let guestPort ← parsePortNumber guestPort "guestPort" false
      pure ⟨if host = [] then localhost else host, hostPort, guestPort⟩
    | _ => throw ("invalid --publish mapping: " ++ Text.str input)

def parsePortForwards : List PortForwardInput → Except String (List PortForward)
  | [] => .ok []
  | input :: rest => do
    let mapping ← parsePortForward input
    let others ← parsePortForwards rest
    pure (mapping :: others)

/-! ### Commands -/

/-- What the call has made so far, as far as its clean-up knows. --/
structure Setup where
  host : Host
  createdRules : List (List String)
  /-- The servers of `portForwards` that listen. --/
  portForwards : List (Text × Nat)
  deriving DecidableEq, Repr

def commandFailed (argv : List String) : String := "command failed: " ++ String.intercalate " " argv

/-- `runCommand`, with what the command does to the host if it can. --/
def runCommand (env : Env) (argv : List String) (effect : Host → Option Host) : Exec Setup Unit := fun s =>
  if env.fails argv then (.error (commandFailed argv), s)
  else
    match effect s.host with
    | none => (.error (commandFailed argv), s)
    | some host => (.ok (), { s with host := host })

/-- `runCommand` with `allowFailure`, of a command that fails for no reason of its own. --/
def cleanUp (effect : Host → Option Host) : Exec Setup Unit := Exec.modify fun s =>
  { s with host := (effect s.host).getD s.host }

/-- `ip tuntap add` takes no name that is taken. --/
def tuntapAdd (dev : String) (host : Host) : Option Host :=
  if dev ∈ host.links.map Device.name then none else some { host with links := host.links ++ [⟨dev, [], false⟩] }

/-- The commands that change a device. --/
def changeLink (dev : String) (change : Device → Device) (host : Host) : Option Host :=
  if dev ∈ host.links.map Device.name then
    some { host with links := host.links.map fun link => if link.name = dev then change link else link }
  else none

def linkDelete (dev : String) (host : Host) : Option Host :=
  if dev ∈ host.links.map Device.name then some { host with links := host.links.filter (·.name ≠ dev) } else none

def appendRule (rule : Rule) (host : Host) : Option Host := some { host with rules := host.rules ++ [rule] }

/-- `-D` removes the first rule that is the same. --/
def removeRule (rule : Rule) (host : Host) : Option Host :=
  if rule ∈ host.rules then some { host with rules := host.rules.erase rule } else none

/-- `iptables`, as far as the call uses it. --/
def iptables : List String → Host → Option Host
  | "-t" :: table :: "-A" :: chain :: spec => appendRule ⟨table, chain, spec⟩
  | "-t" :: table :: "-D" :: chain :: spec => removeRule ⟨table, chain, spec⟩
  | "-A" :: chain :: spec => appendRule ⟨"filter", chain, spec⟩
  | "-D" :: chain :: spec => removeRule ⟨"filter", chain, spec⟩
  | _ => fun _ => none

/-! ### Servers -/

/-- `listen` of the server of mapping number `index`; for port 0 the host chooses. --/
def listen (env : Env) (index : Nat) (host : Text) (port : Nat) : Exec Setup Nat := fun s =>
  match env.listens index with
  | none => (.error "listen failed", s)
  | some free =>
    let port := if port = 0 then free else port
    if (host, port) ∈ s.host.listening then (.error "listen EADDRINUSE: address already in use", s)
    else (.ok port, { s with host := { s.host with listening := s.host.listening ++ [(host, port)] } })

def closeServers (servers : List (Text × Nat)) : Exec Setup Unit := Exec.modify fun s =>
  { s with host := { s.host with listening := servers.foldl List.erase s.host.listening } }

/-- The loop of `setupPortForwards` from mapping number `index` on. --/
def listenAll (env : Env) : Nat → List (Text × Nat) → List PortForward → Exec Setup (List (Text × Nat))
  | _, servers, [] => pure servers
  | index, servers, mapping :: rest => do
    let hostPort ← tryCatch (listen env index mapping.host mapping.hostPort) fun error => do
      closeServers servers
      throw error
    listenAll env (index + 1) (servers ++ [(mapping.host, hostPort)]) rest

def setupPortForwards (env : Env) (inputs : List PortForwardInput) : Exec Setup (List PortForward) := do
  let requested ← Exec.lift (parsePortForwards inputs)
  let servers ← listenAll env 0 [] requested
  Exec.modify fun s => { s with portForwards := servers }
  pure (List.zipWith (fun mapping server => ⟨server.1, server.2, mapping.guestPort⟩) requested servers)

/-- `resolveHostPort`: a server that listens for a moment. --/
def resolveHostPort (env : Env) (index : Nat) (host : Text) (port : Nat) : Exec Setup Nat :=
  if port ≠ 0 then pure port
  else do
    let port ← listen env index host 0
    closeServers [(host, port)]
    pure port

def resolveHostPorts (env : Env) : Nat → List PortForward → Exec Setup (List PortForward)
  | _, [] => pure []
  | index, mapping :: rest => do
    let hostPort ← resolveHostPort env index mapping.host mapping.hostPort
    let others ← resolveHostPorts env (index + 1) rest
    pure ({ mapping with hostPort := hostPort } :: others)

/-! ### `setupNetwork` -/

/-- The code of the first UTF-16 unit. --/
def charCode (c : Char) : Nat := if c.toNat < 0x10000 then c.toNat else 0xD800 + (c.toNat - 0x10000) / 0x400

def randomSubnetOctet (id : Text) : Nat := 80 + id.foldl (fun sum c => (sum + charCode c) % 140) 0

def compactIdForTap (random id : Text) : String :=
  let cleaned := (id.filter fun c => c.isAlpha || c.isDigit).take 10
  Text.str ((['j', 'c'] ++ if cleaned = [] then random else cleaned).take 15)

def autoTapName (env : Env) (o : SetupNetworkOptions) : String :=
  if o.tapName ≠ "" then o.tapName else compactIdForTap env.random o.id

def hostIp (o : SetupNetworkOptions) : String := "172.31." ++ toString (randomSubnetOctet o.id) ++ ".1"

def guestIp (o : SetupNetworkOptions) : String := "172.31." ++ toString (randomSubnetOctet o.id) ++ ".2"

def dns (env : Env) : String := if env.guestDns ≠ "" then env.guestDns else "1.1.1.1"

def natRule (guestIp : String) : List String :=
  ["-t", "nat", "-A", "POSTROUTING", "-s", guestIp ++ "/32", "-j", "MASQUERADE"]

def fwdIn (tapName : String) : List String := ["-A", "FORWARD", "-i", tapName, "-j", "ACCEPT"]

def fwdOut (tapName : String) : List String :=
  ["-A", "FORWARD", "-o", tapName, "-m", "state", "--state", "RELATED,ESTABLISHED", "-j", "ACCEPT"]

def createRules (env : Env) : List (List String) → Exec Setup Unit
  | [] => pure ()
  | rule :: rest => do
    runCommand env ("iptables" :: rule) (iptables rule)
    Exec.modify fun s => { s with createdRules := s.createdRules ++ [rule] }
    createRules env rest

def deleteRule (rule : List String) : List String :=
  let deleted := rule.mapIdx fun index part => if index = 2 ∧ part = "-A" then "-D" else part
  if rule.head? = some "-A" then deleted.set 0 "-D" else deleted

def deleteRules : List (List String) → Exec Setup Unit
  | [] => pure ()
  | rule :: rest => do
    cleanUp (iptables (deleteRule rule))
    deleteRules rest

/-- `cleanupAuto`, which is also the `cleanup` of the result. It reverses `createdRules` in its place. --/
def cleanupAuto (tapName : String) : Exec Setup Unit := do
  let s ← Exec.get
  closeServers s.portForwards
  Exec.modify fun s => { s with portForwards := [], createdRules := s.createdRules.reverse }
  deleteRules s.createdRules.reverse
  cleanUp (linkDelete tapName)

/-- The `try` block. --/
def setupAuto (env : Env) (o : SetupNetworkOptions) (tapName : String) : Exec Setup NetworkConfig := do
  let cidr := hostIp o ++ "/30"
  runCommand env ["ip", "tuntap", "add", "dev", tapName, "mode", "tap"] (tuntapAdd tapName)
  runCommand env ["ip", "addr", "add", cidr, "dev", tapName]
    (changeLink tapName fun link => { link with addresses := link.addresses ++ [cidr] })
  runCommand env ["ip", "link", "set", "dev", tapName, "up"] (changeLink tapName fun link => { link with up := true })
  tryCatch (runCommand env ["sysctl", "-w", "net.ipv4.ip_forward=1"] fun host => some { host with ipForward := true })
    fun _ => pure ()
  createRules env [natRule (guestIp o), fwdIn tapName, fwdOut tapName]
  let ports ← setupPortForwards env o.ports
  pure
    { mode := "tap"
      ifaceId := some "eth0"
      tapName := some tapName
      guestMac := some (env.deterministicMac o.id)
      hostIp := some (hostIp o)
      guestIp := some (guestIp o)
      netmask := some "255.255.255.252"
      cidrPrefix := some 30
      dns := some (dns env)
      kernelNetArgs := some ("node_vmm.iface=eth0 node_vmm.ip=" ++ guestIp o ++ "/30 node_vmm.gw=" ++ hostIp o ++
        " node_vmm.dns=" ++ dns env)
      ports := ports }

def requireRoot (env : Env) (action : String) : Except String Unit :=
  if env.root then .ok () else .error (action ++ " requires root privileges. Re-run with sudo.")

def requireCommands (env : Env) (commands : List String) : Except String Unit :=
  let missing := commands.filter (· ∈ env.missing)
  if missing = [] then .ok () else .error ("missing required host command(s): " ++ String.intercalate ", " missing)

def noNetwork : NetworkConfig where
  mode := "none"
  ifaceId := none
  tapName := none
  guestMac := none
  hostIp := none
  guestIp := none
  netmask := none
  cidrPrefix := none
  dns := none
  kernelNetArgs := none
  ports := []

/-- The mode that the options ask for. --/
def SetupNetworkOptions.wanted (o : SetupNetworkOptions) : String :=
  if o.mode ≠ "" then o.mode else if o.tapName ≠ "" then "tap" else "none"

def setupNetwork (env : Env) (o : SetupNetworkOptions) : Exec Setup NetworkConfig := do
  if o.wanted = "none" then
    if o.ports ≠ [] then throw "--publish requires --net auto or --net slirp"
    else pure noNetwork
  else if o.wanted = "tap" then
    if o.ports ≠ [] then throw "--publish requires --net auto or --net slirp"
    else if o.tapName = "" then throw "--net tap requires --tap NAME"
    else pure { noNetwork with
      mode := "tap"
      ifaceId := some "eth0"
      tapName := some o.tapName
      guestMac := some (env.deterministicMac o.id) }
  else if o.wanted = "slirp" then do
    let requested ← Exec.lift (parsePortForwards o.ports)
    let ports ← resolveHostPorts env 0 requested
    pure
      { mode := "slirp"
        ifaceId := some "eth0"
        tapName := none
        guestMac := some (env.deterministicMac o.id)
        hostIp := some "10.0.2.2"
        guestIp := some "10.0.2.15"
        netmask := some "255.255.255.0"
        cidrPrefix := some 24
        dns := some "10.0.2.3"
        kernelNetArgs := some "node_vmm.iface=eth0 node_vmm.ip=10.0.2.15/24 node_vmm.gw=10.0.2.2 node_vmm.dns=10.0.2.3"
        ports := ports }
  else if o.wanted ≠ "auto" then throw ("unsupported network mode: " ++ o.wanted)
  else do
    Exec.lift (requireRoot env "--net auto")
    Exec.lift (requireCommands env ["ip", "sysctl", "iptables"])
    let tapName := autoTapName env o
    tryCatch (setupAuto env o tapName) fun error => do
      cleanupAuto tapName
      throw error

end NodeVmm.Net
