import NodeVmm.WhpNet

/-! The threads on the RX path of the virtio-net device of `native/whp/backend.cc`: the slirp thread with
    `deliver_rx_packet`, and the vCPU threads that handle a notify of the RX queue with `flush_rx_backlog`. A step is
    one block under the lock of the device, or the walk of a chain between two of them. -/

namespace NodeVmm.Whp

/-- Where a thread is in `flush_rx_backlog`. --/
inductive FlushLoc where
  /-- Before it tests `rx_flush_active_`. --/
  | start
  /-- Before it looks at the backlog. --/
  | look
  | deliver (packet : Packet) (loc : VirtioNet.DeliverLoc)
  /-- The packet could not be delivered, and the flag is still set. --/
  | failed
  /-- The packet was delivered, and is still in the backlog. --/
  | pop (packet : Packet)
  deriving DecidableEq, Repr

inductive NetLoc where
  | idle
  /-- In `deliver_rx_packet`, before it looks at the backlog. --/
  | arrived (frame : Packet)
  | direct (frame : Packet) (loc : VirtioNet.DeliverLoc)
  | enqueue (frame : Packet)
  | flush (loc : FlushLoc)
  deriving DecidableEq, Repr

/-- The slirp thread, or a vCPU thread. --/
abbrev NetThread (n : Nat) := Option (Fin n)

structure RxPath (n : Nat) where
  net : VirtioNet
  locs : NetThread n → NetLoc
  /-- The frames that were delivered at once or that went into the backlog. --/
  accepted : List Packet
  /-- Those that `deliver_rx_packet_now` has taken. --/
  handled : List Packet

namespace RxPath
variable {n : Nat}

/-- No thread is on the RX path, and the backlog is empty. --/
def start (net : VirtioNet) : RxPath n where
  net := { net with rxFlushActive := false, rxBacklog := [] }
  locs _ := .idle
  accepted := []
  handled := []

/-- `kRxBacklogLimit`. --/
def rxBacklogLimit : Nat := 256

def goto (t : NetThread n) (loc : NetLoc) (s : RxPath n) : RxPath n := { s with locs := Function.update s.locs t loc }

def setNet (net : VirtioNet) (s : RxPath n) : RxPath n := { s with net := net }

def setFlushActive (active : Bool) (s : RxPath n) : RxPath n := s.setNet { s.net with rxFlushActive := active }

def accept (frame : Packet) (s : RxPath n) : RxPath n := { s with accepted := s.accepted ++ [frame] }

def handle (frame : Packet) (s : RxPath n) : RxPath n := { s with handled := s.handled ++ [frame] }

def pushBacklog (frame : Packet) (s : RxPath n) : RxPath n :=
  if s.net.rxBacklog.length < rxBacklogLimit then
    (s.setNet { s.net with rxBacklog := s.net.rxBacklog ++ [frame] }).accept frame
  else s

def popBacklog (s : RxPath n) : RxPath n := s.setNet { s.net with rxBacklog := s.net.rxBacklog.tail }

/-- The next step of a thread in `flush_rx_backlog`. --/
def flushStep (t : NetThread n) (s : RxPath n) : FlushLoc → RxPath n
  | .start => if s.net.rxFlushActive then s.goto t .idle else (s.setFlushActive true).goto t (.flush .look)
  | .look =>
    match s.net.rxBacklog with
    | [] => (s.setFlushActive false).goto t .idle
    | packet :: _ => s.goto t (.flush (.deliver packet .take))
  | .deliver packet loc =>
    match VirtioNet.deliverStep packet loc s.net with
    | (.goto loc, net) => (s.setNet net).goto t (.flush (.deliver packet loc))
    | (.done true, net) => ((s.setNet net).handle packet).goto t (.flush (.pop packet))
    | (.done false, net) => (s.setNet net).goto t (.flush .failed)
  | .failed => (s.setFlushActive false).goto t .idle
  | .pop _ => s.popBacklog.goto t (.flush .look)

def run (t : NetThread n) (s : RxPath n) : Option (RxPath n) :=
  match s.locs t with
  | .idle => none
  | .arrived frame =>
    if s.net.rxBacklog = [] then some (s.goto t (.direct frame .take)) else some (s.goto t (.enqueue frame))
  | .direct frame loc =>
    match VirtioNet.deliverStep frame loc s.net with
    | (.goto loc, net) => some ((s.setNet net).goto t (.direct frame loc))
    | (.done true, net) => some ((((s.setNet net).accept frame).handle frame).goto t (.flush .start))
    | (.done false, net) => some ((s.setNet net).goto t (.enqueue frame))
  | .enqueue frame => some ((s.pushBacklog frame).goto t (.flush .start))
  | .flush loc => some (s.flushStep t loc)

/-- Bytes that the guest stores at an offset in RAM. --/
structure GuestStore where
  off : Nat
  bytes : List UInt8

def guestStores (stores : List GuestStore) (s : RxPath n) : RxPath n :=
  s.setNet { s.net with mem := stores.foldl (fun m x => m.store x.off x.bytes) s.net.mem }

inductive Event (n : Nat) where
  /-- libslirp sends a frame. --/
  | send (frame : Packet)
  /-- The guest writes its memory, and posts no buffer where there was none. --/
  | guest (stores : List GuestStore)
  /-- It writes its memory, such as to post buffers, and vCPU `i` then notifies the device of it. --/
  | notify (i : Fin n) (stores : List GuestStore)
  | run (t : NetThread n)

def step (s : RxPath n) : Event n → Option (RxPath n)
  | .send frame => if s.locs none = .idle then some (s.goto none (.arrived frame)) else none
  | .guest stores =>
    if (s.guestStores stores).net.rxAvailable = true ∧ s.net.rxAvailable = false then none
    else some (s.guestStores stores)
  | .notify i stores => if s.locs (some i) = .idle then some ((s.guestStores stores).goto (some i) (.flush .start)) else none
  | .run t => s.run t

end RxPath
end NodeVmm.Whp
