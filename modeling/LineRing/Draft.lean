/-
A draft: the bytes of a command that has not been ended yet. A draft becomes a command once the
last byte it received is a newline; a newline before that is part of the command.
-/
import LineRing.Failure
import LineRing.Log

namespace LineRing

/-- A command under construction, and the most bytes that it may have. -/
structure Draft where
  bytes : Bytes := []
  limit : Option Nat := none
  deriving DecidableEq, Repr

namespace Draft

/-- The number of bytes received so far. -/
def size (d : Draft) : Nat := d.bytes.length

/-- Whether nothing has been received yet. -/
def isEmpty (d : Draft) : Bool := d.bytes.isEmpty

/-- The draft with more bytes received. A draft that would outgrow its limit stays as it is. -/
def append (d : Draft) (more : Bytes) : Except Failure Draft :=
  let size := d.size + more.length
  match d.limit with
  | some limit =>
    if limit < size then .error (.tooLarge size limit) else .ok { d with bytes := d.bytes ++ more }
  | none => .ok { d with bytes := d.bytes ++ more }

/-- Whether the command is ended: its last byte is a newline. -/
def isComplete (d : Draft) : Bool := d.bytes.getLast? == some newline

/-- The command, if it is ended, and the draft of the next one. -/
def take (d : Draft) : Option Entry × Draft :=
  if d.isComplete then (some d.bytes, { d with bytes := [] }) else (none, d)

/-- The draft as it was at this size. A draft that is not longer stays as it is. -/
def truncate (d : Draft) (size : Nat) : Draft := { d with bytes := d.bytes.take size }

/-- The draft with all its bytes dropped. -/
def clear (d : Draft) : Draft := { d with bytes := [] }

/-- A draft takes what its limit has room for, as a whole. -/
theorem append_eq_ok_iff {d d' : Draft} {more : Bytes} :
    d.append more = .ok d' ↔
      (∀ limit ∈ d.limit, d.size + more.length ≤ limit) ∧ d' = { d with bytes := d.bytes ++ more } := by
  unfold append
  split
  · next limit hl =>
    dsimp only
    split
    · next h => simp [hl, Nat.not_le_of_lt h]
    · next h => simp [hl, Nat.le_of_not_lt h, eq_comm]
  · next hl => simp [hl, eq_comm]

/-- A draft refuses only what it would outgrow its limit with. -/
theorem append_eq_error_iff {d : Draft} {more : Bytes} {failure : Failure} :
    d.append more = .error failure ↔
      ∃ limit, d.limit = some limit ∧ limit < d.size + more.length ∧
        failure = .tooLarge (d.size + more.length) limit := by
  unfold append
  split
  · next limit hl =>
    dsimp only
    split
    · next h => simp [hl, h, eq_comm]
    · next h => simp [hl, h]
  · next hl => simp [hl]

/-- What a draft has taken can be given back. -/
theorem truncate_of_append {d d' : Draft} {more : Bytes} (h : d.append more = .ok d') :
    d'.truncate d.size = d := by
  obtain ⟨_, rfl⟩ := append_eq_ok_iff.1 h
  simp [truncate, size]

theorem take_of_isComplete {d : Draft} (h : d.isComplete = true) : d.take = (some d.bytes, d.clear) := if_pos h

theorem take_of_not_isComplete {d : Draft} (h : d.isComplete = false) : d.take = (none, d) := by
  unfold take; rw [h]; rfl

/-- The draft of the next command is empty. -/
theorem take_eq_some {d d' : Draft} {e : Entry} (h : d.take = (some e, d')) :
    e = d.bytes ∧ e.getLast? = some newline ∧ d' = d.clear := by
  unfold take at h
  split at h
  · next hc =>
    obtain ⟨rfl, rfl⟩ : d.bytes = e ∧ d.clear = d' := by simpa [clear] using h
    exact ⟨rfl, by simpa [isComplete] using hc, rfl⟩
  · simp at h

theorem take_eq_none {d d' : Draft} (h : d.take = (none, d')) : d' = d ∧ d.isComplete = false := by
  unfold take at h
  split at h
  · simp at h
  · next hc => exact ⟨by simpa using h.symm, by simpa using hc⟩

end Draft

end LineRing
