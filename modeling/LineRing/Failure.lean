/-
What can go wrong, as causes, and the one text of each. A failure is local to the request that
met it. `Failure.asFault` is the view of a failure that a byte stream gives, with a kind and a
text.
-/

namespace LineRing

/-! ## Faults of byte streams -/

/-- The kinds of fault that a byte stream reports. -/
inductive FaultKind where
  | notFound
  | permissionDenied
  | connectionRefused
  | connectionReset
  | connectionAborted
  | networkUnreachable
  | notConnected
  | addrInUse
  | addrNotAvailable
  | brokenPipe
  | alreadyExists
  | wouldBlock
  | invalidInput
  | invalidData
  | timedOut
  | writeZero
  | interrupted
  | unsupported
  | unexpectedEof
  | outOfMemory
  | other
  deriving DecidableEq, Repr

/-- The text of a fault that says no more than its kind. -/
def FaultKind.text : FaultKind → String
  | notFound => "entity not found"
  | permissionDenied => "permission denied"
  | connectionRefused => "connection refused"
  | connectionReset => "connection reset"
  | connectionAborted => "connection aborted"
  | networkUnreachable => "network unreachable"
  | notConnected => "not connected"
  | addrInUse => "address in use"
  | addrNotAvailable => "address not available"
  | brokenPipe => "broken pipe"
  | alreadyExists => "entity already exists"
  | wouldBlock => "operation would block"
  | invalidInput => "invalid input parameter"
  | invalidData => "invalid data"
  | timedOut => "timed out"
  | writeZero => "write zero"
  | interrupted => "operation interrupted"
  | unsupported => "unsupported"
  | unexpectedEof => "unexpected end of file"
  | outOfMemory => "out of memory"
  | other => "other error"

/-- A fault of a byte stream: its kind, and a text where it has one of its own. -/
structure Fault where
  kind : FaultKind
  detail : Option String := none
  deriving DecidableEq, Repr

/-- The text of a fault: its own, else that of its kind. -/
def Fault.text (fault : Fault) : String := fault.detail.getD fault.kind.text

/-! ## Failures -/

/-- Why a request failed. -/
inductive Failure where
  /-- The byte stream failed. -/
  | stream (fault : Fault)
  /-- A slice of a reply was not taken whole. -/
  | shortWrite (expected actual : Nat)
  /-- No allocation can hold this many bytes. -/
  | allocation (requested : Nat)
  /-- The command under construction would outgrow its limit. -/
  | tooLarge (size limit : Nat)
  /-- No retained command has this index. -/
  | noSuchCommand (index retained : Nat)
  /-- The command has no byte at this offset. -/
  | noSuchByte (offset size : Nat)
  /-- The lock was not free within the wait, given in milliseconds. -/
  | lockTimeout (waited : Nat)
  /-- The peer broke the protocol. -/
  | protocol (text : String)
  /-- The configuration cannot be used. -/
  | config (text : String)
  deriving DecidableEq, Repr

namespace Failure

/-- A size or count of the configuration is zero. -/
def needsOne (name : String) : Failure := .config (name ++ " must be at least 1")

/-- Why an allocation beyond the largest size fails. -/
def allocationCause : String :=
  "memory allocation failed because the computed capacity exceeded the collection's maximum"

/-- The text of a failure. -/
def message : Failure → String
  | stream fault => "IO error: " ++ fault.text
  | shortWrite expected actual => s!"Partial transfer: moved {actual} of {expected} bytes"
  | allocation requested => s!"Allocation of {requested} bytes failed: {allocationCause}"
  | tooLarge size limit => s!"Command too large: {size} bytes (max {limit})"
  | noSuchCommand index retained => s!"Command index {index} out of range ({retained} retained)"
  | noSuchByte offset size => s!"Byte offset {offset} out of range for command of {size} bytes"
  | lockTimeout waited => s!"Lock acquisition interrupted after {waited} ms"
  | protocol text => "Protocol error: " ++ text
  | config text => "Configuration error: " ++ text

/-- Whether the same request may succeed when it is simply made again. -/
def isRetryable : Failure → Bool
  | lockTimeout _ => true
  | _ => false

/-- The text of what lies beneath a failure, where it has another cause. -/
def cause? : Failure → Option String
  | stream fault => some fault.text
  | allocation _ => some allocationCause
  | _ => none

/-- The kind of stream fault that a failure shows as. -/
def faultKind : Failure → FaultKind
  | stream fault => fault.kind
  | shortWrite .. => .writeZero
  | allocation _ => .outOfMemory
  | lockTimeout _ => .timedOut
  | protocol _ => .invalidData
  | tooLarge .. | noSuchCommand .. | noSuchByte .. | config _ => .invalidInput

/-- A failure as a fault of the byte stream that met it: a fault stays as it is, any other
failure keeps its text. -/
def asFault : Failure → Fault
  | stream fault => fault
  | failure => ⟨failure.faultKind, some failure.message⟩

@[simp] theorem kind_asFault (failure : Failure) : failure.asFault.kind = failure.faultKind := by
  cases failure <;> rfl

end Failure

end LineRing
