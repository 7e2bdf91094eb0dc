/-
Sessions: a peer sends one command and is sent the log. While a session receives, it works on a
draft of its own; then it has decided what to do, and does that, the reply included, as one step
under the lock. `Session.receive` and `Session.settle` are the two halves, and `Session.converse`
is a whole session against a script of what arrives and of what other clients commit meanwhile.
-/
import LineRing.Directive
import LineRing.Memory
import LineRing.Sink
import LineRing.Store

namespace LineRing

namespace Session

/-! ## Receiving -/

/-- What one read brings: bytes, none of them when the peer has closed, or a fault. -/
inductive Arrival where
  | bytes (piece : Bytes)
  | fault (fault : Fault)
  deriving DecidableEq, Repr

/-- How a session ended. -/
inductive Outcome where
  /-- A command was committed and the whole log sent. -/
  | committed (evicted : Bool) (sent : Nat)
  /-- A directive was followed and the log sent from this offset on. -/
  | sought (offset sent : Nat)
  /-- The peer closed before its command was ended; so many bytes were dropped. -/
  | disconnected (discarded : Nat)
  deriving DecidableEq, Repr

/-- What a session does once it has stopped receiving. -/
inductive Decision where
  /-- Commit this entry and send the log. -/
  | keep (e : Entry)
  /-- Send the log from this place on. -/
  | seek (d : Directive)
  /-- Nothing more; this is the result. -/
  | close (result : Except Failure Outcome)

/-- Where a session stands. -/
inductive Stage where
  | receiving (draft : Draft)
  | decided (decision : Decision)

/-- What an ended command leads to. -/
def Decision.ofCommand (command : Entry) : Decision :=
  match Request.ofCommand command with
  | .ok (.seek d) => .seek d
  | .ok (.keep content) => .keep content
  | .error fault => .close (.error fault.failure)

/-- What the end of the peer's bytes leads to. A directive may come without its newline. -/
def Decision.atEnd (draft : Draft) : Decision :=
  match Directive.read? draft.bytes with
  | some (.ok d) => .seek d
  | some (.error fault) => .close (.error fault.failure)
  | none => .close (.ok (.disconnected draft.size))

/-- The bytes of one read join the draft. -/
def accept (draft : Draft) (piece : Bytes) : Stage :=
  match draft.append piece with
  | .error failure => .decided (.close (.error failure))
  | .ok draft =>
    -- whether the command is ended shows only at the end of a piece
    match draft.take with
    | (none, draft) => .receiving draft
    | (some command, _) => .decided (.ofCommand command)

/-- One read. A read that was interrupted is made again. -/
def receive (draft : Draft) : Arrival → Stage
  | .bytes [] => .decided (.atEnd draft)
  | .bytes piece => accept draft piece
  | .fault fault =>
    if fault.kind = .interrupted then .receiving draft
    else .decided (.close (.error (.stream fault)))

/-! ## Settling -/

section Settling

variable {σ : Type}

/-- Does what was decided, as one step under the lock. -/
def settle (sink : Sink σ) (chunk : Nat) (lock : Lock) (store : Store) (s : σ) :
    Decision → Store × σ × Except Failure Outcome
  | .close result => (store, s, result)
  | .keep e =>
    match store.acquire lock with
    | .error failure => (store, s, .error failure)
    | .ok () =>
      let (store, evicted) := store.insert e
      let (s, sent) := store.log.stream 0 chunk sink s
      (store, s, sent.map (.committed evicted.isSome))
  | .seek d =>
    match store.acquire lock with
    | .error failure => (store, s, .error failure)
    | .ok () =>
      match store.log.offsetOf d.address with
      | .error failure => (store, s, .error failure)
      | .ok offset =>
        let (s, sent) := store.log.stream offset chunk sink s
        (store, s, sent.map (.sought offset))

/-! ## Scripts -/

/-- What happens around a session: something arrives for it, or another client commits an entry
between two of its reads. -/
inductive Event where
  | arrival (a : Arrival)
  | commit (e : Entry)
  deriving DecidableEq, Repr

/-- What one read after the other makes of an event, with a buffer of this size. -/
def Event.cut (buffer : Nat) : Event → List Event
  | .arrival (.bytes []) => [.arrival (.bytes [])]
  | .arrival (.bytes piece) => (pieces buffer piece).map fun p => .arrival (.bytes p)
  | event => [event]

/-- What one read after the other makes of a script. -/
def cutScript (buffer : Nat) (script : List Event) : List Event :=
  script.flatMap (Event.cut buffer)

/-- A session that has ended. -/
structure Report (σ : Type) where
  store : Store
  sink : σ
  result : Except Failure Outcome
  /-- The number of reads made. -/
  reads : Nat
  /-- What was left of the script. -/
  rest : List Event

/-- A session from a draft on, read by read. A peer that has sent its whole script has closed. The session finds the
lock as `lock` says, and those that commit between its reads as `others` says. -/
def converse (sink : Sink σ) (chunk : Nat) (lock others : Lock) (store : Store) (s : σ) (draft : Draft) :
    List Event → Report σ
  | [] =>
    let (store, s, result) := settle sink chunk lock store s (.atEnd draft)
    ⟨store, s, result, 1, []⟩
  | .commit e :: rest => converse sink chunk lock others (store.commit others e).1 s draft rest
  | .arrival a :: rest =>
    match receive draft a with
    | .receiving draft =>
      let report := converse sink chunk lock others store s draft rest
      { report with reads := report.reads + 1 }
    | .decided decision =>
      let (store, s, result) := settle sink chunk lock store s decision
      ⟨store, s, result, 1, rest⟩

end Settling

/-! ## Sessions as a whole -/

/-- What a session is set up with. -/
structure Settings where
  /-- The bytes received, and those sent, at a time. -/
  chunk : Nat
  commandLimit : Nat
  readWait : Nat
  writeWait : Nat
  deriving DecidableEq, Repr

/-- The settings that a configuration gives. -/
def Settings.ofConfig (c : Config) : Settings := ⟨c.chunk, c.commandLimit, c.readWait, c.writeWait⟩

/-- The size of the receive buffer. -/
def Settings.buffer (settings : Settings) : Nat := max settings.chunk 1

/-- Where a session is in its life, as far as that can be seen: while it runs, no one can look. -/
inductive Phase where
  | accepted
  | closed
  deriving DecidableEq, Repr

/-- Why a session ended without a result. -/
inductive Crash where
  /-- No allocation can hold its receive buffer. -/
  | bufferTooLarge
  deriving DecidableEq, Repr

end Session

/-- A session with one peer. -/
structure Session where
  settings : Session.Settings
  phase : Session.Phase := .accepted
  deriving DecidableEq, Repr

namespace Session

variable {σ : Type}

/-- Runs a session to its end. It is closed afterwards, whether or not it succeeded. The clients that commit meanwhile
find the lock as the session does, unless said otherwise. -/
def handle (session : Session) (sink : Sink σ) (lock : Lock) (store : Store) (s : σ)
    (script : List Event) (others : Lock := lock) : Except Crash (Session × Report σ) :=
  let settings := session.settings
  if settings.buffer ≤ allocationLimit then
    .ok ({ session with phase := .closed },
      converse sink settings.chunk lock others store s { limit := some settings.commandLimit }
        (cutScript settings.buffer script))
  else .error .bufferTooLarge

end Session

end LineRing
