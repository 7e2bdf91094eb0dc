/-
The program. With `serve` and the options of a server it takes connections until it is interrupted;
any other arguments are those of the client. Sockets, signals, clocks and threads are here, and what
each of them brings is handed to the state machine of the server as one event.
-/
import LineRing.CommandLine.Client
import LineRing.CommandLine.Serve
import LineRing.Server
import Std.Async.Signal
import Std.Async.TCP
import Std.Async.Timer
import Std.Sync.Mutex
import Std.Time

namespace LineRing.Program

open Std.Async

/-- The socket address of an endpoint. -/
def socketAddress (e : Endpoint) : Std.Net.SocketAddress :=
  let port := UInt16.ofNat e.port
  match e.host with
  | .v4 bits =>
    let byte i := UInt8.ofNat (bits.toNat >>> (8 * (3 - i)))
    .v4 ⟨.ofParts (byte 0) (byte 1) (byte 2) (byte 3), port⟩
  | .v6 bits _ =>
    let group i := UInt16.ofNat (HostAddress.field bits (16 * i) 16)
    .v6 ⟨.ofParts (group 0) (group 1) (group 2) (group 3) (group 4) (group 5) (group 6) (group 7),
      port⟩

/-- The fault that an error of the system shows as. -/
def systemFault (e : IO.Error) : Fault := ⟨.other, some (toString e)⟩

def packed (b : Bytes) : ByteArray := b.toByteArray

/-! ## The server -/

/-- The state of a server that its threads share. -/
abbrev Shared := Std.Mutex Server

/-- One event of the server; one that cannot happen changes nothing. -/
def note (shared : Shared) (event : Server.Event) : IO Unit :=
  shared.atomically (modify fun server => (server.step? event).getD server)

/-- Where the session of a worker stands. -/
def standing (shared : Shared) (id : WorkerId) : IO (Option LiveSession) :=
  shared.atomically do return (← get).service.host.sessions id

/-- What the next bytes of a connection bring. A peer that is silent for too long is given up. -/
def receive (client : TCP.Socket.Client) (settings : Session.Settings) :
    IO (List Session.Arrival) := do
  let size := UInt64.ofNat (min (max settings.buffer Connection.readAhead) 65536)
  let arrivals (found : Option ByteArray) : List Session.Arrival :=
    match found with
    | none => [.bytes []]
    | some data => Connection.arrivals settings data.toList
  try
    if settings.readWait = 0 then
      return arrivals (← (client.recv? size).block)
    else
      let received : Async (List Session.Arrival) := do
        let pause ← Selector.sleep (Std.Time.Millisecond.Offset.ofNat settings.readWait)
        Selectable.one #[
          .case (client.recvSelector size) fun found => return arrivals found,
          .case pause fun _ => return [.fault ⟨.wouldBlock, none⟩]]
      received.block
  catch e => return [.fault ⟨.connectionReset, some (toString e)⟩]

/-- Settles the session of a worker, and gives what its peer is to be sent. -/
def settle (shared : Shared) (id : WorkerId) : IO Bytes :=
  shared.atomically do
    let server ← get
    let (service, ended) := server.service.settle id .free .accepting
    set { server with service := service }
    return (ended.map fun (transcript, _) => transcript.accepted).getD []

/-- Runs the session of a worker over its connection. -/
partial def runSession (shared : Shared) (id : WorkerId) (client : TCP.Socket.Client) : IO Unit := do
  match ← standing shared id with
  | some ⟨settings, .receiving _⟩ =>
    for arrival in ← receive client settings do note shared (.hear id arrival)
    runSession shared id client
  | some ⟨_, .decided _⟩ =>
    let reply ← settle shared id
    try
      if !reply.isEmpty then (client.send (packed reply)).block
      (client.shutdown).block
    catch _ => return
  | none => return

/-- Takes the connections that wait, until asked to stop; the threads of their sessions. -/
partial def takeConnections (shared : Shared) (listener : TCP.Socket.Server) (poll : UInt32)
    (stop : IO Bool) (threads : Array (Task (Except IO.Error Unit))) :
    IO (Array (Task (Except IO.Error Unit))) := do
  if ← stop then return threads
  match ← listener.tryAccept with
  | some client =>
    let admitted ← shared.atomically do
      let server ← get
      let (service, worker) := server.service.accept
      set { server with service := service }
      return worker
    match admitted with
    | .ok (some id) =>
      let thread ← IO.asTask (runSession shared id client) Task.Priority.dedicated
      takeConnections shared listener poll stop (threads.push thread)
    | _ => takeConnections shared listener poll stop threads
  | none =>
    note shared .reap
    IO.sleep poll
    takeConnections shared listener poll stop threads

/-- Commits a timestamp every so many seconds, until asked to stop. -/
partial def tick (shared : Shared) (every : Nat) (stop : IO Bool) (due : Nat) : IO Unit := do
  if ← stop then return
  let now ← IO.monoMsNow
  if due ≤ now then
    let time ← Std.Time.DateTime.now
    let seconds := time.timestamp.toSecondsSinceUnixEpoch.val
    let zone := time.timezone.offset.second.val
    note shared (.tick ⟨seconds, 0⟩ zone .free)
    tick shared every stop (due + 1000 * every)
  else
    IO.sleep (UInt32.ofNat (min 50 (due - now)))
    tick shared every stop due

/-- Serves until the program is interrupted. -/
def serve (c : Config) (store : Store) (e : Endpoint) : IO UInt32 := do
  let listener ← TCP.Socket.Server.mk
  try
    listener.bind (socketAddress e)
    listener.listen 128
  catch _ => return 1
  let interrupt ← (← Signal.Waiter.mk .sigint false).wait
  let terminate ← (← Signal.Waiter.mk .sigterm false).wait
  let stop : IO Bool := do return (← IO.hasFinished interrupt) || (← IO.hasFinished terminate)
  let shared : Shared ← Std.Mutex.new
    { service := .ofConfig c store, ticking := c.stampEvery?.isSome }
  let ticker ← match c.stampEvery? with
    | none => pure none
    | some every => do
      let due := (← IO.monoMsNow) + 1000 * every
      some <$> IO.asTask (tick shared every stop due) Task.Priority.dedicated
  let threads ← takeConnections shared listener (UInt32.ofNat (max 1 c.poll)) stop #[]
  note shared .close
  if let some ticker := ticker then discard <| IO.wait ticker
  note shared .quiet
  for thread in threads do discard <| IO.wait thread
  note shared .join
  note shared .release
  return 0

/-! ## The client -/

/-- All bytes that come over a connection, up to its end. -/
partial def readAll (client : TCP.Socket.Client) (found : Bytes) : IO Bytes := do
  match ← (client.recv? 65536).block with
  | none => return found
  | some more => readAll client (found ++ more.toList)

/-- One request, and its reply. -/
def exchange (address : String) (request : Bytes) : IO (Except Fault Bytes) := do
  match Endpoint.resolve address with
  | .error fault => return .error fault
  | .ok e =>
    try
      let client ← TCP.Socket.Client.mk
      (client.connect (socketAddress e)).block
      (client.send (packed request)).block
      return .ok (← readAll client [])
    catch e => return .error (systemFault e)

/-- Leaves the outputs and the exit code of a program. -/
def leave (done : CommandLine.Exit) : IO UInt32 := do
  let out ← IO.getStdout
  out.write (packed done.out)
  out.flush
  (← IO.getStderr).putStr done.err
  return UInt32.ofNat done.code

/-- The client. -/
def request (args : List String) : IO UInt32 := do
  match CommandLine.Client.parse args with
  | .error stop => leave (CommandLine.Client.exitAt stop)
  | .ok invocation =>
    leave (CommandLine.Client.exitWith
      (← exchange invocation.server invocation.command.request))

end LineRing.Program

open LineRing in
def main (args : List String) : IO UInt32 := do
  match args with
  | "serve" :: args =>
    match CommandLine.Serve.start {} args with
    | .ended code out =>
      if let some line := out then IO.println line
      return UInt32.ofNat code
    | .serving c store e => Program.serve c store e
  | args => Program.request args
