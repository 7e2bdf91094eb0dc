/-
The workers that run sessions, one each. A worker is tracked from its start until it is joined; it
posts a notice as its last act, whether it ends normally or not, and only workers whose notice has
been read are joined without waiting.
-/
import LineRing.Failure

namespace LineRing

/-- The name of a worker: a number that is never given again. -/
abbrev WorkerId := Nat

/-- The workers of a service. -/
structure Workers where
  /-- The name of the next worker. -/
  nextId : WorkerId := 1
  /-- The workers that have been started and not joined. -/
  tracked : List WorkerId := []
  /-- The workers that have not come to their end. -/
  running : List WorkerId := []
  /-- The notices that have been posted and not read, oldest first. -/
  notices : List WorkerId := []
  deriving DecidableEq, Repr

namespace Workers

/-- The number of workers not joined. -/
def active (w : Workers) : Nat := w.tracked.length

/-- What the thread of a worker is called. -/
def threadName (id : WorkerId) : String := s!"session-{id}"

/-- Starts a worker, unless the system refuses; a name is used up either way. -/
def spawn (w : Workers) (refused : Option Fault := none) : Workers × Except Failure WorkerId :=
  let id := w.nextId
  match refused with
  | some fault => ({ w with nextId := id + 1 }, .error (.stream fault))
  | none =>
    ({ w with nextId := id + 1, tracked := w.tracked ++ [id], running := w.running ++ [id] }, .ok id)

/-- A running worker comes to its end, normally or not, and posts its notice. -/
def finish (w : Workers) (id : WorkerId) : Workers :=
  if id ∈ w.running then
    { w with running := w.running.erase id, notices := w.notices ++ [id] }
  else w

/-- Reads notices in order and joins the tracked workers among them; the workers joined, and those
still tracked. -/
def joinNoticed (tracked : List WorkerId) : List WorkerId → List WorkerId × List WorkerId
  | [] => ([], tracked)
  | id :: notices =>
    if id ∈ tracked then
      let (joined, tracked) := joinNoticed (tracked.erase id) notices
      (id :: joined, tracked)
    else joinNoticed tracked notices

/-- Joins every worker whose notice has been posted; the workers joined. -/
def reap (w : Workers) : Workers × List WorkerId :=
  let (joined, tracked) := joinNoticed w.tracked w.notices
  ({ w with tracked := tracked, notices := [] }, joined)

/-- Joins every worker that is tracked, once each of them has come to its end; the workers joined.
None while one of them runs. Notices that are left are dropped. -/
def joinAll? (w : Workers) : Option (Workers × List WorkerId) :=
  if ∀ id ∈ w.tracked, id ∉ w.running then some ({ w with tracked := [], notices := [] }, w.tracked)
  else none

end Workers

/-! ## The gate -/

/-- The gate through which peers come: no more than `limit` workers are tracked at a time. -/
structure Gate where
  workers : Workers := {}
  limit : Nat
  deriving DecidableEq, Repr

namespace Gate

/-- Joins the workers that have ended. -/
def reap (g : Gate) : Gate := { g with workers := g.workers.reap.1 }

/-- The gate with the workers that have ended joined, if it is full. -/
def makeRoom (g : Gate) : Gate := if g.limit ≤ g.workers.active then g.reap else g

/-- Starts a worker for a peer; none where there are too many. Workers that have ended do not
count. -/
def enter (g : Gate) (refused : Option Fault := none) : Gate × Except Failure (Option WorkerId) :=
  let g := g.makeRoom
  if g.limit ≤ g.workers.active then (g, .ok none)
  else
    match g.workers.spawn refused with
    | (workers, .error failure) => ({ g with workers := workers }, .error failure)
    | (workers, .ok id) => ({ g with workers := workers }.reap, .ok (some id))

/-- A worker comes to its end. -/
def finish (g : Gate) (id : WorkerId) : Gate := { g with workers := g.workers.finish id }

/-- The number of workers not joined. -/
def active (g : Gate) : Nat := g.workers.active

end Gate

end LineRing
