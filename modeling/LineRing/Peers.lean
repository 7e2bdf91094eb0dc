/-
Peers on a network: each connects to a service, sends pieces of a command, and reads what it is
sent.
-/
import LineRing.Network
import LineRing.Service

namespace LineRing

/-- A peer: its worker, unless it was refused, and what it has been sent and not read. -/
structure Peer where
  worker : Option WorkerId
  reply : Bytes := []
  deriving DecidableEq, Repr

/-- A service and its peers, by name. -/
structure Peers where
  service : Service
  peers : List (Nat × Peer) := []

namespace Peers

/-- One request of a new peer, from connecting to the end of the reply, to a service that listens at
an address. -/
def exchange (network : Network) (host : HostAddress) (v : Service) (request : Bytes) :
    Except Fault (Service × Bytes) :=
  match network.connectFault host with
  | some fault => .error fault
  | none => .ok (v.exchange request)

/-- One request to an endpoint, while the service listens at one. -/
def reach (network : Network) (listening : Endpoint) (v : Service) (e : Endpoint) (request : Bytes) :
    Except Fault (Service × Bytes) :=
  match exchange network e.host v request with
  | .error fault => .error fault
  | .ok found => if e = listening then .ok found else .error Network.refused

/-- Requests one after the other, and the replies in order. -/
def exchangeAll (network : Network) (host : HostAddress) (v : Service) :
    List Bytes → Except Fault (Service × List Bytes)
  | [] => .ok (v, [])
  | request :: requests =>
    match exchange network host v request with
    | .error fault => .error fault
    | .ok (v, reply) =>
      (exchangeAll network host v requests).map fun (v, replies) => (v, reply :: replies)

/-! ## Peers one step at a time -/

/-- The peers with one of this name. -/
def put (p : Peers) (name : Nat) (peer : Peer) : Peers :=
  { p with peers := (name, peer) :: p.peers.filter (·.1 ≠ name) }

/-- A peer connects; the worker started for it, unless it is refused. -/
def connect (network : Network) (host : HostAddress) (p : Peers) (name : Nat) :
    Except Fault (Peers × Except Failure (Option WorkerId)) :=
  match network.connectFault host with
  | some fault => .error fault
  | none =>
    match p.service.accept with
    | (service, .ok worker) => .ok ({ p with service := service }.put name ⟨worker, []⟩, .ok worker)
    | (service, .error failure) => .ok ({ p with service := service }, .error failure)

/-- What happens at the receiving end of a peer's session. -/
def deliver (p : Peers) (name : Nat) (arrivals : List Session.Arrival) : Peers :=
  match p.peers.lookup name with
  | some ⟨some id, reply⟩ =>
    let (service, sent) := p.service.deliver id arrivals
    { p with service := service }.put name ⟨some id, reply ++ sent⟩
  | _ => p

/-- A peer sends bytes in one piece. -/
def send (p : Peers) (name : Nat) (data : Bytes) : Peers :=
  p.deliver name (Connection.arrivals p.service.settings data)

/-- A peer reads to the end of what it is sent, after which its worker is joined. -/
def readToEnd (p : Peers) (name : Nat) : Peers × Bytes :=
  match p.peers.lookup name with
  | some peer => ({ p with service := p.service.reap }.put name { peer with reply := [] }, peer.reply)
  | none => (p, [])

/-- A peer closes its sending side and reads to the end. -/
def finish (p : Peers) (name : Nat) : Peers × Bytes := (p.deliver name [.bytes []]).readToEnd name

/-- A peer reads to the end without closing. A session that still waits for bytes gives up. -/
def drain (p : Peers) (name : Nat) : Peers × Bytes :=
  (p.deliver name [.fault ⟨.wouldBlock, none⟩]).readToEnd name

/-- All peers close, and the service shuts down; the number of commands released. None while a
session goes on. -/
def shutdown? (p : Peers) : Option (Peers × Nat) :=
  let p := p.peers.foldl (fun p (name, _) => p.deliver name [.bytes []]) p
  p.service.shutdown?.map fun (service, released) => ({ p with service := service }, released)

end Peers

end LineRing
