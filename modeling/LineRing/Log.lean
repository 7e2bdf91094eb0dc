/-
The log: a ring of committed commands, read as one byte string. A byte of it has two names, its
offset in the whole and its address, the index of its command and the offset within that. No slice
that is read crosses from one command into the next.
-/
import LineRing.Bytes
import LineRing.Ring

namespace LineRing

/-- A committed command. -/
abbrev Entry := Bytes

/-- The bytes of an entry from `lo` up to `hi`, where both lie within it in this order. -/
def Entry.slice? (e : Entry) (lo hi : Nat) : Option Bytes :=
  if lo ≤ hi ∧ hi ≤ e.length then some ((e.drop lo).take (hi - lo)) else none

/-- The last commands committed. -/
abbrev Log := Ring Entry

/-- The place of a byte: the index of its command, counted from the oldest retained one, and its
offset within that command. -/
structure Address where
  command : Nat
  byte : Nat
  deriving DecidableEq, Repr

namespace Log

/-- The retained bytes, oldest command first. -/
def bytes (log : Log) : Bytes := log.toList.flatten

/-- The number of retained bytes, which is also the offset one past the last of them. -/
def size (log : Log) : Nat := totalLength log.toList

/-! ## Addresses and offsets -/

/-- The offset of the byte at an address. The index of the command is checked first. -/
def offsetOf (log : Log) (a : Address) : Except Failure Nat :=
  match log.get? a.command with
  | none => .error (.noSuchCommand a.command log.count)
  | some e =>
    if a.byte < e.length then .ok (totalLength (log.toList.take a.command) + a.byte)
    else .error (.noSuchByte a.byte e.length)

/-- The address of the byte at `offset` in entries of which the first has this index and begins at
`start`. -/
def locateFrom (index start : Nat) : List Entry → (offset : Nat) → Option Address
  | [], _ => none
  | e :: rest, offset =>
    if offset < start + e.length then some ⟨index, offset - start⟩
    else locateFrom (index + 1) (start + e.length) rest offset

/-- The address of the byte at an offset. -/
def locate (log : Log) (offset : Nat) : Option Address := locateFrom 0 0 log.toList offset

/-- The entry that holds the byte at `offset`, and where in it, in entries that begin at `start`. -/
def findFrom (start : Nat) : List Entry → (offset : Nat) → Option (Entry × Nat)
  | [], _ => none
  | e :: rest, offset =>
    if offset < start + e.length then some (e, offset - start)
    else findFrom (start + e.length) rest offset

/-- The command that holds the byte at an offset, and where in it. -/
def find? (log : Log) (offset : Nat) : Option (Entry × Nat) := findFrom 0 log.toList offset

/-! ## Slices -/

/-- Up to `most` bytes from an offset on, all of one command; none at or past the end. -/
def slice? (log : Log) (offset most : Nat) : Option Bytes :=
  (log.find? offset).map fun (e, inner) => (e.drop inner).take (min most (e.length - inner))

/-- What is left of entries without their first `skip` bytes, entry by entry. -/
def entriesFrom (skip : Nat) : List Entry → List Bytes
  | [] => []
  | e :: rest =>
    if skip < e.length then e.drop skip :: rest else entriesFrom (skip - e.length) rest

/-- The slices of at most `chunk` bytes (one where `chunk` is zero) that the log is sent in from
an offset on. -/
def slicesFrom (log : Log) (offset chunk : Nat) : List Bytes :=
  (entriesFrom offset log.toList).flatMap (pieces chunk)

end Log

end LineRing
