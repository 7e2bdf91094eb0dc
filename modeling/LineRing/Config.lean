/-
The configuration of a log and its service. Zero stands for no bound on a wait and for no
timestamps; the sizes and counts must be at least one.
-/
import LineRing.Failure

namespace LineRing

/-- What a log and its service are set up with. -/
structure Config where
  /-- The number of commands kept. -/
  capacity : Nat := 10
  /-- The most bytes of one command. -/
  commandLimit : Nat := 16 * 1024 * 1024
  /-- The longest wait for the log, in milliseconds. -/
  lockWait : Nat := 10000
  /-- The address to listen on. -/
  listen : String := "0.0.0.0:9000"
  /-- The most sessions at a time. -/
  maxSessions : Nat := 128
  /-- The longest wait for a peer's bytes, in milliseconds. -/
  readWait : Nat := 30000
  /-- The longest wait for a peer to take bytes, in milliseconds. -/
  writeWait : Nat := 5000
  /-- The bytes received, and those sent, at a time. -/
  chunk : Nat := 1024
  /-- The pause between two looks for new connections, in milliseconds. -/
  poll : Nat := 50
  /-- The seconds between two timestamps. -/
  stampEvery : Nat := 0
  deriving DecidableEq, Repr

namespace Config

/-- Fails at the first size or count that is zero. -/
def validate (c : Config) : Except Failure Unit :=
  if c.capacity = 0 then .error (.needsOne "capacity")
  else if c.commandLimit = 0 then .error (.needsOne "max_command_len")
  else if c.maxSessions = 0 then .error (.needsOne "max_connections")
  else if c.chunk = 0 then .error (.needsOne "recv_buffer_len")
  else .ok ()

/-- The bound on the wait for the log, in milliseconds. -/
def lockWait? (c : Config) : Option Nat := if 0 < c.lockWait then some c.lockWait else none

/-- The seconds between two timestamps, if there are any. -/
def stampEvery? (c : Config) : Option Nat := if 0 < c.stampEvery then some c.stampEvery else none

end Config

end LineRing
