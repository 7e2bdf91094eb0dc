/-
The service: sessions with many peers at once, each run by a worker, on one host. The sessions go
on independently; each of them takes the lock once at most, when it has stopped receiving.
-/
import LineRing.Connection
import LineRing.Host
import LineRing.Workers

namespace LineRing

/-- A host whose sessions are run by workers, one each and named alike. -/
structure Service where
  host : Host
  gate : Gate
  settings : Session.Settings

namespace Service

/-- A service set up from a configuration, over a store. -/
def ofConfig (c : Config) (store : Store) : Service :=
  { host := { store := store }, gate := { limit := c.maxSessions }, settings := .ofConfig c }

/-- The log. -/
def log (v : Service) : Log := v.host.store.log

/-- The service after an action of a client. -/
def act (v : Service) (lock : Lock) (action : Host.Action) : Service :=
  { v with host := (v.host.step lock action).1 }

/-! ## Sessions -/

/-- A worker comes to its end, normally or not, and its session with it. -/
def finish (v : Service) (id : WorkerId) : Service :=
  { v.act .free (.abandon id) with gate := v.gate.finish id }

/-- A peer connects: a worker is started for it, unless there are too many. A worker that cannot
have its receive buffer comes to its end at once. -/
def accept (v : Service) (refused : Option Fault := none) :
    Service × Except Failure (Option WorkerId) :=
  match v.gate.enter refused with
  | (gate, .ok (some id)) =>
    let v := { v with gate := gate }.act .free (.startSession id v.settings)
    (if v.settings.buffer ≤ allocationLimit then v else v.finish id, .ok (some id))
  | (gate, answer) => ({ v with gate := gate }, answer)

/-- A read of a session. -/
def hear (v : Service) (id : WorkerId) (a : Session.Arrival) : Service :=
  v.act .free (.hear id a)

/-- A session that has stopped receiving does what it decided and ends. -/
def settle (v : Service) (id : WorkerId) (lock : Lock) (outlet : Outlet) :
    Service × Option (Transcript × Except Failure Session.Outcome) :=
  match v.host.step lock (.settle id outlet) with
  | (host, .ended transcript result) =>
    ({ v with host := host }.finish id, some (transcript, Connection.resultOf result))
  | _ => (v, none)

/-! ## The end of a service -/

/-- The number of workers not joined. -/
def active (v : Service) : Nat := v.gate.active

/-- Joins the workers that have ended. -/
def reap (v : Service) : Service := { v with gate := v.gate.reap }

/-- Joins all workers; none while one that is to be joined runs. -/
def joinAll? (v : Service) : Option Service :=
  v.gate.workers.joinAll?.map fun (workers, _) => { v with gate := { v.gate with workers := workers } }

/-- Releases all commands, and says how many there were. -/
def release (v : Service) : Service × Nat := (v.act .free .clear, v.log.count)

/-- Joins all workers, and then releases all commands, and says how many there were; none while a
worker that is to be joined runs. -/
def shutdown? (v : Service) : Option (Service × Nat) := v.joinAll?.map release

/-! ## Traffic of one peer -/

/-- A peer's bytes reach its session, which settles as soon as it can; what the peer is sent. -/
def deliver (v : Service) (id : WorkerId) (arrivals : List Session.Arrival) : Service × Bytes :=
  let v := arrivals.foldl (fun v a => v.hear id a) v
  match v.settle id .free .accepting with
  | (v, some (transcript, _)) => (v, transcript.accepted)
  | (v, none) => (v, [])

/-- One request: a peer connects, sends its bytes, closes its sending side and reads to the end;
what it reads. -/
def exchange (v : Service) (request : Bytes) : Service × Bytes :=
  match v.accept with
  | (v, .ok (some id)) =>
    let (v, reply) := v.deliver id (Connection.arrivals v.settings request ++ [.bytes []])
    (v.reap, reply)
  | (v, _) => (v, [])

end Service

end LineRing
