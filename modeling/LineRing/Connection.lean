/-
Sessions over connections. A connection reads ahead, so that the reads of a session need not bring
what the peer sent in one piece in the same pieces. A peer that goes away, or is silent for too
long, is no failure: its session counts as disconnected.
-/
import LineRing.Session

namespace LineRing

/-- Whether a fault says no more than that the peer is gone, or was silent for too long. -/
def FaultKind.isDisconnect : FaultKind → Bool
  | .unexpectedEof | .connectionReset | .connectionAborted | .brokenPipe | .wouldBlock | .timedOut =>
    true
  | _ => false

namespace Connection

/-! ## Receiving -/

/-- The number of bytes that a connection reads ahead. -/
def readAhead : Nat := 8192

/-- What reads with a buffer of this size make of bytes that arrive in one piece. A read does not
go beyond what was read ahead; one whose buffer holds as much as that does without reading ahead. -/
def cut (buffer : Nat) (data : Bytes) : List Bytes :=
  if buffer < readAhead then (pieces readAhead data).flatMap (pieces buffer) else pieces buffer data

/-- The reads that bytes in one piece lead to. -/
def arrivals (settings : Session.Settings) (data : Bytes) : List Session.Arrival :=
  (cut settings.buffer data).map .bytes

/-! ## Results -/

/-- The result of a session as its connection sees it. -/
def resultOf : Except Failure Session.Outcome → Except Failure Session.Outcome
  | .error (.stream fault) =>
    if fault.kind.isDisconnect then .ok (.disconnected 0) else .error (.stream fault)
  | result => result

/-- Runs one session over a connection. -/
def handle {σ : Type} (settings : Session.Settings) (sink : Sink σ) (lock : Lock) (store : Store)
    (s : σ) (script : List Session.Event) : Except Session.Crash (Session.Report σ) :=
  match ({ settings := settings } : Session).handle sink lock store s script with
  | .error crash => .error crash
  | .ok (_, report) => .ok { report with result := resultOf report.result }

end Connection

end LineRing
