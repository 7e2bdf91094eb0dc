/-
Open handles on a store: a position to read from and a draft of its own. What a handle has written
shows to others only once its command is ended. An operation that fails leaves the store and the
handle as they were.
-/
import LineRing.Directive
import LineRing.Store

namespace LineRing

/-- An open handle. -/
structure Handle where
  /-- The offset of the next byte to read. -/
  position : Nat := 0
  /-- What has been written of a command that is not ended yet. -/
  draft : Draft
  deriving DecidableEq, Repr

/-- What a seek counts from. -/
inductive Whence where
  | start (offset : Nat)
  | current (distance : Int)
  | fromEnd (distance : Int)
  deriving DecidableEq, Repr

/-- A handle at the start of the log. -/
def Store.openHandle (s : Store) : Handle := { draft := { limit := s.draftLimit } }

namespace Handle

/-! ## Writing -/

/-- Writing: the bytes join the draft, and the command is committed once it is ended. Where the
lock cannot be had, the draft is cut back, so that the same bytes can be written again. -/
def write (store : Store) (lock : Lock) (h : Handle) (data : Bytes) :
    Store × Handle × Except Failure Nat :=
  let before := h.draft.size
  match h.draft.append data with
  | .error failure => (store, h, .error failure)
  | .ok draft =>
    if draft.isComplete then
      match store.acquire lock with
      -- the bytes are given back, so that the write has not happened
      | .error failure => (store, { h with draft := draft.truncate before }, .error failure)
      | .ok () =>
        match draft.take with
        -- the lock is held from here to the insertion
        | (some e, draft) => ((store.insert e).1, { h with draft := draft }, .ok data.length)
        | (none, draft) => (store, { h with draft := draft }, .ok data.length)
    else (store, { h with draft := draft }, .ok data.length)

/-- Writing all bytes: nothing is written where there are none. -/
def writeAll (store : Store) (lock : Lock) (h : Handle) (data : Bytes) :
    Store × Handle × Except Failure Unit :=
  if data.isEmpty then (store, h, .ok ())
  else
    let (store, h, written) := h.write store lock data
    (store, h, written.map fun _ => ())

/-! ## Reading -/

/-- Reading at most `most` bytes of one command; no bytes come at or past the end. -/
def read (store : Store) (lock : Lock) (h : Handle) (most : Nat) : Handle × Except Failure Bytes :=
  match store.acquire lock with
  | .error failure => (h, .error failure)
  | .ok () =>
    match store.log.slice? h.position most with
    | none => (h, .ok [])
    | some slice => ({ h with position := h.position + slice.length }, .ok slice)

/-- Reading with buffers of these sizes, one after the other, until a read brings no bytes. -/
def readWith (store : Store) (lock : Lock) (h : Handle) : List Nat → Handle × Except Failure Bytes
  | [] => (h, .ok [])
  | most :: sizes =>
    match h.read store lock most with
    | (h, .error failure) => (h, .error failure)
    | (h, .ok []) => (h, .ok [])
    | (h, .ok slice) =>
      let (h, rest) := h.readWith store lock sizes
      (h, rest.map (slice ++ ·))

/-- The buffer size of a reader that reads to the end. -/
def readAllBuffer : Nat := 8192

/-- Reading to the end. Each read that brings bytes brings at least one. -/
def readAll (store : Store) (lock : Lock) (h : Handle) : Handle × Except Failure Bytes :=
  h.readWith store lock (List.replicate (store.log.size + 1) readAllBuffer)

/-! ## Positioning -/

/-- The offset that a seek asks for, whether or not the log has it. -/
def target (h : Handle) (size : Nat) : Whence → Int
  | .start offset => offset
  | .current distance => h.position + distance
  | .fromEnd distance => size + distance

/-- The fault of a seek to an offset that is not within the log. -/
def seekFault (target : Int) (size : Nat) : Fault :=
  ⟨.invalidInput, some s!"seek target {target} outside 0..={size}"⟩

/-- Moving to an offset, up to the one past the last byte. -/
def seek (store : Store) (lock : Lock) (h : Handle) (whence : Whence) :
    Handle × Except Failure Nat :=
  match store.size lock with
  | .error failure => (h, .error failure)
  | .ok size =>
    let target := h.target size whence
    if 0 ≤ target ∧ target ≤ size then
      ({ h with position := target.toNat }, .ok target.toNat)
    else (h, .error (.stream (seekFault target size)))

/-- Moving to the byte that a directive names. -/
def seekTo (store : Store) (lock : Lock) (h : Handle) (d : Directive) : Handle × Except Failure Nat :=
  match store.acquire lock with
  | .error failure => (h, .error failure)
  | .ok () =>
    match store.log.offsetOf d.address with
    | .error failure => (h, .error failure)
    | .ok offset => ({ h with position := offset }, .ok offset)

end Handle

end LineRing
