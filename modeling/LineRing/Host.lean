/-
A host: one store, and all that its clients have open on it. The clients are handles, sessions that
are under way, and those that commit, look or clear directly. Each action of a client is one step;
actions of different clients come in any order, and any wait for the lock in them may fail.
-/
import LineRing.Handle
import LineRing.Session

namespace LineRing

/-- The name of a handle or a session. -/
abbrev ClientId := Nat

/-- A session under way: what it was set up with, and where it stands. -/
structure LiveSession where
  settings : Session.Settings
  stage : Session.Stage

/-- One store and what is open on it. -/
structure Host where
  store : Store
  handles : ClientId → Option Handle := fun _ => none
  sessions : ClientId → Option LiveSession := fun _ => none

namespace Host

/-! ## Actions and answers -/

/-- What one client does. -/
inductive Action where
  /-- Commits an entry. -/
  | commit (e : Entry)
  /-- Takes a copy of the retained bytes. -/
  | snapshot
  /-- Asks for the number of retained commands. -/
  | count
  /-- Asks for the number of retained bytes. -/
  | size
  /-- Releases all commands. -/
  | clear
  /-- Opens a handle; one of the same name is closed. -/
  | openHandle (h : ClientId)
  /-- Closes a handle. What it has not committed is dropped. -/
  | closeHandle (h : ClientId)
  | write (h : ClientId) (data : Bytes)
  | writeAll (h : ClientId) (data : Bytes)
  | flush (h : ClientId)
  | read (h : ClientId) (most : Nat)
  | readAll (h : ClientId)
  | seek (h : ClientId) (whence : Whence)
  | seekTo (h : ClientId) (d : Directive)
  /-- A session begins. -/
  | startSession (s : ClientId) (settings : Session.Settings)
  /-- A session reads. -/
  | hear (s : ClientId) (a : Session.Arrival)
  /-- A session that has stopped receiving settles, and ends. -/
  | settle (s : ClientId) (outlet : Outlet)
  /-- A session ends without having settled. -/
  | abandon (s : ClientId)

/-- What an action comes to. -/
inductive Answer where
  | done
  | missing
  | flag (b : Bool)
  | number (n : Nat)
  | bytes (b : Bytes)
  | evicted (e : Option Entry)
  | failed (failure : Failure)
  | ended (transcript : Transcript) (result : Except Failure Session.Outcome)

/-- The answer that a result gives. -/
def Answer.of {α : Type} (answer : α → Answer) : Except Failure α → Answer
  | .ok a => answer a
  | .error failure => .failed failure

/-! ## Steps -/

/-- A table with one name given another value. -/
def setAt {α : Type} (table : ClientId → Option α) (id : ClientId) (value : Option α) :
    ClientId → Option α :=
  fun other => if other = id then value else table other

/-- The host after an operation of a handle that may change the store. -/
def withHandle {α : Type} (host : Host) (id : ClientId) (answer : α → Answer)
    (operation : Handle → Store × Handle × Except Failure α) : Host × Answer :=
  match host.handles id with
  | none => (host, .missing)
  | some h =>
    let (store, h, result) := operation h
    ({ host with store := store, handles := setAt host.handles id (some h) }, .of answer result)

/-- The host after an operation of a handle that leaves the store as it is. -/
def readHandle {α : Type} (host : Host) (id : ClientId) (answer : α → Answer)
    (operation : Handle → Handle × Except Failure α) : Host × Answer :=
  host.withHandle id answer fun h => (host.store, operation h)

/-- One action, with the lock as the client finds it. -/
def step (host : Host) (lock : Lock) : Action → Host × Answer
  | .commit e =>
    let (store, result) := host.store.commit lock e
    ({ host with store := store }, .of .evicted result)
  | .snapshot => (host, .of .bytes (host.store.snapshot lock))
  | .count => (host, .of .number (host.store.count lock))
  | .size => (host, .of .number (host.store.size lock))
  | .clear =>
    let (store, released) := host.store.clear
    ({ host with store := store }, .number released)
  | .openHandle id =>
    ({ host with handles := setAt host.handles id (some host.store.openHandle) }, .done)
  | .closeHandle id =>
    ({ host with handles := setAt host.handles id none }, .flag (host.handles id).isSome)
  | .write id data => host.withHandle id .number fun h => h.write host.store lock data
  | .writeAll id data => host.withHandle id (fun _ => .done) fun h => h.writeAll host.store lock data
  | .flush id => host.readHandle id (fun _ => .done) fun h => (h, .ok ())
  | .read id most => host.readHandle id .bytes fun h => h.read host.store lock most
  | .readAll id => host.readHandle id .bytes fun h => h.readAll host.store lock
  | .seek id whence => host.readHandle id .number fun h => h.seek host.store lock whence
  | .seekTo id d => host.readHandle id .number fun h => h.seekTo host.store lock d
  | .startSession id settings =>
    let live : LiveSession := ⟨settings, .receiving { limit := some settings.commandLimit }⟩
    ({ host with sessions := setAt host.sessions id (some live) }, .done)
  | .hear id a =>
    match host.sessions id with
    | some ⟨settings, .receiving draft⟩ =>
      let live : LiveSession := ⟨settings, Session.receive draft a⟩
      ({ host with sessions := setAt host.sessions id (some live) }, .done)
    | _ => (host, .missing)
  | .settle id outlet =>
    match host.sessions id with
    | some ⟨settings, .decided decision⟩ =>
      let (store, transcript, result) :=
        Session.settle outlet.sink settings.chunk lock host.store [] decision
      ({ host with store := store, sessions := setAt host.sessions id none },
        .ended transcript result)
    | _ => (host, .missing)
  | .abandon id => ({ host with sessions := setAt host.sessions id none }, .done)

/-- A run of actions, each with the lock as its client finds it; the answers in order. -/
def run (host : Host) : List (Lock × Action) → Host × List Answer
  | [] => (host, [])
  | (lock, action) :: rest =>
    let (host, answer) := host.step lock action
    let (host, answers) := host.run rest
    (host, answer :: answers)

end Host

end LineRing
