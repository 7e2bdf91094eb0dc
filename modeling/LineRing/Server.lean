/-
The server: a service that takes connections until it is asked to stop, and a ticker that commits
timestamps beside it. A server stops in four steps, each of which waits for what it ends: it takes
no more connections, stops the ticker, joins all workers, and releases the log.
-/
import LineRing.Service
import LineRing.Stamp

namespace LineRing

namespace Server

/-- How far a server has come. -/
inductive Phase where
  /-- It takes connections. -/
  | serving
  /-- It takes no more connections. -/
  | closing
  /-- The ticker has stopped. -/
  | joining
  /-- All workers have been joined. -/
  | releasing
  /-- The log has been released. -/
  | stopped
  deriving DecidableEq, Repr

end Server

/-- A server. -/
structure Server where
  service : Service
  /-- Whether a ticker is running. -/
  ticking : Bool := false
  phase : Server.Phase := .serving

namespace Server

/-- What can happen to a server. -/
inductive Event where
  /-- A peer connects; the system may refuse a worker. -/
  | accept (refused : Option Fault)
  /-- A session reads. -/
  | hear (id : WorkerId) (a : Session.Arrival)
  /-- A session settles. -/
  | settle (id : WorkerId) (lock : Lock) (outlet : Outlet)
  /-- A worker ends abnormally. -/
  | crash (id : WorkerId)
  /-- The workers that have ended are joined. -/
  | reap
  /-- The ticker commits a timestamp, or tries to. -/
  | tick (time : Instant) (zone : Int) (lock : Lock)
  /-- The server has been asked to stop and has seen it. -/
  | close
  /-- The ticker has stopped. -/
  | quiet
  /-- All workers have been waited for and joined. -/
  | join
  /-- The log is released. -/
  | release

/-- One event; none where it cannot happen. -/
def step? (server : Server) : Event → Option Server
  | .accept refused =>
    if server.phase = .serving then some { server with service := (server.service.accept refused).1 }
    else none
  | .hear id a => some { server with service := server.service.hear id a }
  | .settle id lock outlet => some { server with service := (server.service.settle id lock outlet).1 }
  | .crash id => some { server with service := server.service.finish id }
  | .reap =>
    if server.phase = .serving then some { server with service := server.service.reap } else none
  | .tick time zone lock =>
    if server.ticking then
      some { server with service := server.service.act lock (.commit (Stamp.entry time zone)) }
    else none
  | .close => if server.phase = .serving then some { server with phase := .closing } else none
  | .quiet =>
    if server.phase = .closing then some { server with ticking := false, phase := .joining } else none
  | .join =>
    if server.phase = .joining then
      server.service.joinAll?.map fun service => { server with service := service, phase := .releasing }
    else none
  | .release =>
    if server.phase = .releasing then
      some { server with service := server.service.release.1, phase := .stopped }
    else none

/-- A run of events; none where one of them cannot happen. -/
def run? (server : Server) : List Event → Option Server
  | [] => some server
  | event :: events => (server.step? event).bind fun server => server.run? events

/-- The events by which a server stops whose sessions have all ended. -/
def stopEvents : List Event := [.close, .quiet, .join, .release]

end Server

end LineRing
