/-
Where replies go. A sink takes the bytes that it is offered in whole or in part, or fails. A reply
is sent slice by slice; each slice has to be taken whole by one write, and the first that is not
ends the reply.
-/
import LineRing.Log.Lemmas

namespace LineRing

/-- A writer with states of type `σ`. -/
structure Sink (σ : Type) where
  /-- Offers bytes; the answer is how many of them were taken. -/
  write : σ → (offered : Bytes) → σ × Except Fault Nat
  /-- Asks for all taken bytes to be passed on. -/
  flush : σ → σ × Except Fault Unit

/-! ## Sending -/

section Sending

variable {σ : Type}

/-- Sends slices, each by one write. -/
def Sink.sendAll (sink : Sink σ) (s : σ) : List Bytes → σ × Except Failure Unit
  | [] => (s, .ok ())
  | slice :: rest =>
    match sink.write s slice with
    | (s, .error fault) => (s, .error (.stream fault))
    | (s, .ok taken) =>
      if taken = slice.length then sink.sendAll s rest
      else (s, .error (.shortWrite slice.length taken))

/-- Sends the log from an offset on, in slices of at most `chunk` bytes; the answer is the number
of bytes sent. -/
def Log.stream (log : Log) (offset chunk : Nat) (sink : Sink σ) (s : σ) : σ × Except Failure Nat :=
  let slices := log.slicesFrom offset chunk
  match sink.sendAll s slices with
  | (s, .error failure) => (s, .error failure)
  | (s, .ok ()) =>
    match sink.flush s with
    | (s, .error fault) => (s, .error (.stream fault))
    | (s, .ok ()) => (s, .ok (totalLength slices))

end Sending

/-! ## Recorded outlets -/

/-- One call of a sink, with its answer. -/
inductive Call where
  | write (offered : Bytes) (answer : Except Fault Nat)
  | flush (answer : Except Fault Unit)

/-- The calls of a sink, first call first. -/
abbrev Transcript := List Call

namespace Transcript

/-- The bytes taken by each write that did not fail. -/
def writes (t : Transcript) : List Bytes :=
  t.filterMap fun
    | .write offered (.ok taken) => some (offered.take taken)
    | _ => none

/-- The bytes taken. -/
def accepted (t : Transcript) : Bytes := t.writes.flatten

/-- The number of writes, failed ones too. -/
def writeCalls (t : Transcript) : Nat :=
  t.countP fun
    | .write .. => true
    | .flush _ => false

/-- The number of flushes, failed ones too. -/
def flushCalls (t : Transcript) : Nat :=
  t.countP fun
    | .write .. => false
    | .flush _ => true

end Transcript

/-- The far end of a sink: how it answers the next call after the calls before. A write never takes
more than it is offered. -/
structure Outlet where
  write : Transcript → (offered : Bytes) → Except Fault (Fin (offered.length + 1))
  flush : Transcript → Except Fault Unit

namespace Outlet

/-- The sink that records its calls of an outlet. -/
def sink (o : Outlet) : Sink Transcript where
  write t offered :=
    let answer := (o.write t offered).map Fin.val
    (t ++ [.write offered answer], answer)
  flush t :=
    let answer := o.flush t
    (t ++ [.flush answer], answer)

/-- An outlet that takes everything. -/
def accepting : Outlet where
  write _ offered := .ok (Fin.last offered.length)
  flush _ := .ok ()

/-- An outlet that takes at most `most` bytes of a write, fails once it has taken `failAfter`
writes, and fails to flush. Each of these is optional. -/
def limited (most : Option Nat) (failAfter : Option (Nat × Fault)) (flushFault : Option Fault) :
    Outlet where
  write t offered :=
    let taken : Fin (offered.length + 1) :=
      match most with
      | none => Fin.last offered.length
      | some n => ⟨min n offered.length, by omega⟩
    match failAfter with
    | none => .ok taken
    | some (n, fault) => if t.writes.length = n then .error fault else .ok taken
  flush _ :=
    match flushFault with
    | none => .ok ()
    | some fault => .error fault

/-! ## What the accepting outlet records -/

/-- The calls that send these slices whole. -/
def sent (slices : List Bytes) : Transcript :=
  slices.map fun slice => .write slice (.ok slice.length)

theorem sendAll_accepting (t : Transcript) (slices : List Bytes) :
    accepting.sink.sendAll t slices = (t ++ sent slices, .ok ()) := by
  induction slices generalizing t with
  | nil => simp [Sink.sendAll, sent]
  | cons slice rest ih =>
    have hwrite : accepting.sink.write t slice = (t ++ sent [slice], .ok slice.length) := rfl
    rw [Sink.sendAll, hwrite]
    simp [ih, sent]

@[simp] theorem accepted_append (t u : Transcript) :
    Transcript.accepted (t ++ u) = t.accepted ++ u.accepted := by
  simp [Transcript.accepted, Transcript.writes]

@[simp] theorem accepted_sent (slices : List Bytes) : (sent slices).accepted = slices.flatten := by
  induction slices with
  | nil => rfl
  | cons slice rest ih =>
    have hcons : sent (slice :: rest) = sent [slice] ++ sent rest := rfl
    have hone : (sent [slice]).accepted = slice := by
      simp [sent, Transcript.accepted, Transcript.writes]
    rw [hcons, accepted_append, ih, hone, List.flatten_cons]

/-- A log is sent whole to an outlet that takes everything, slice by slice, and flushed once. -/
theorem stream_accepting (log : Log) (offset chunk : Nat) (t : Transcript) :
    log.stream offset chunk accepting.sink t =
      (t ++ sent (log.slicesFrom offset chunk) ++ [.flush (.ok ())],
        .ok (log.bytes.drop offset).length) := by
  have hlen : totalLength (log.slicesFrom offset chunk) = (log.bytes.drop offset).length := by
    rw [totalLength_eq, Log.flatten_slicesFrom log offset chunk]
  simp only [Log.stream, sendAll_accepting, hlen]
  rfl

end Outlet

end LineRing
