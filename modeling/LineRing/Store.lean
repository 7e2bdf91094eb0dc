/-
The store: one log that many clients share, and the bounds that hold for each of them. A client
has the log to itself while it holds the lock; a wait for the lock that is bounded may fail, and
then nothing has been done.
-/
import LineRing.Config
import LineRing.Draft
import LineRing.Log

namespace LineRing

/-- The lock as a client finds it. -/
inductive Lock where
  | free
  /-- Another client holds it for longer than any bounded wait. -/
  | held
  deriving DecidableEq, Repr

/-- A shared log. -/
structure Store where
  log : Log
  /-- The bound on the wait for the lock, in microseconds. -/
  patience : Option Nat := none
  /-- The most bytes of a command that is written through a handle. -/
  draftLimit : Option Nat := none
  deriving DecidableEq, Repr

namespace Store

/-- A store without bounds. -/
def create (capacity : Nat) : Except Unmade Store := do
  return { log := ← Ring.create capacity }

/-- A store set up from a configuration that can be used. -/
def ofConfig (c : Config) : Except Unmade Store := do
  c.validate.mapError .failed
  return {
    log := ← Ring.create c.capacity
    patience := c.lockWait?.map (1000 * ·)
    draftLimit := some c.commandLimit }

/-- The store with this bound on the wait for the lock, in microseconds. -/
def withPatience (s : Store) (wait : Nat) : Store := { s with patience := some wait }

/-- Waiting for the lock. An unbounded wait ends when the lock is free. -/
def acquire (s : Store) : Lock → Except Failure Unit
  | .free => .ok ()
  | .held =>
    match s.patience with
    | none => .ok ()
    | some wait => .error (.lockTimeout (wait / 1000))

/-- The store with `e` as the newest entry, and the entry evicted for it; for who holds the lock. -/
def insert (s : Store) (e : Entry) : Store × Option Entry :=
  let (log, evicted) := s.log.insert e
  ({ s with log := log }, evicted)

/-- Committing an entry. -/
def commit (s : Store) (lock : Lock) (e : Entry) : Store × Except Failure (Option Entry) :=
  match s.acquire lock with
  | .error failure => (s, .error failure)
  | .ok () =>
    let (s, evicted) := s.insert e
    (s, .ok evicted)

/-- All retained bytes, oldest command first. -/
def snapshot (s : Store) (lock : Lock) : Except Failure Bytes := do
  s.acquire lock
  return s.log.bytes

/-- The number of retained commands. -/
def count (s : Store) (lock : Lock) : Except Failure Nat := do
  s.acquire lock
  return s.log.count

/-- The number of retained bytes. -/
def size (s : Store) (lock : Lock) : Except Failure Nat := do
  s.acquire lock
  return s.log.size

/-- The store with every command released, and how many there were. The wait for the lock has no
bound here. -/
def clear (s : Store) : Store × Nat := ({ s with log := s.log.clear }, s.log.count)

end Store

end LineRing
