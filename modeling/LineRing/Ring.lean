/-
A ring of slots that keeps the last values put into it. Two cursors walk the slots: `next` is the
slot that the next insertion fills and `oldest` the one that the next eviction empties. They meet
both in an empty and in a full ring, so a flag tells the two apart. `Ring.toList` is the content,
oldest value first.
-/
import LineRing.Failure
import LineRing.Memory

namespace LineRing

/-- A ring of slots. -/
structure Ring (α : Type) where
  slots : Array (Option α)
  next : Nat
  oldest : Nat
  full : Bool
  deriving DecidableEq, Repr

/-- How making a ring, or something around one, ends when nothing is made. -/
inductive Unmade where
  /-- It fails. -/
  | failed (failure : Failure)
  /-- It breaks off, since the number of bytes to be reported is no word. -/
  | brokenOff
  deriving DecidableEq, Repr

namespace Ring

variable {α : Type}

/-! ## Making -/

/-- The bytes that one slot takes. -/
def slotSize : Nat := 32

/-- A ring of empty slots. -/
def empty (capacity : Nat) : Ring α := ⟨Array.replicate capacity none, 0, 0, false⟩

/-- An empty ring with room for `capacity` values. A ring has at least one slot, and its slots fit
into one allocation. Where they do not, their bytes are counted for the report, which a word may be
too small for. -/
def create (capacity : Nat) : Except Unmade (Ring α) :=
  if capacity = 0 then .error (.failed (.needsOne "capacity"))
  else if slotSize * capacity ≤ allocationLimit then .ok (empty capacity)
  else if slotSize * capacity < wordRange then .error (.failed (.allocation (slotSize * capacity)))
  else .error .brokenOff

/-! ## Content -/

/-- The number of slots. -/
def capacity (r : Ring α) : Nat := r.slots.size

/-- The number of values held. -/
def count (r : Ring α) : Nat :=
  if r.full then r.capacity else (r.next + r.capacity - r.oldest) % r.capacity

/-- Whether no value is held. -/
def isEmpty (r : Ring α) : Bool := r.count == 0

/-- The slot of the value with this index, counted from the oldest. -/
def slotOf (r : Ring α) (index : Nat) : Nat := (r.oldest + index) % r.capacity

/-- What a slot holds; nothing lies outside the ring. -/
def slot (r : Ring α) (i : Nat) : Option α := r.slots.getD i none

/-- The value with this index, counted from the oldest. -/
def get? (r : Ring α) (index : Nat) : Option α :=
  if index < r.count then r.slot (r.slotOf index) else none

/-- The values held, oldest first. -/
def toList (r : Ring α) : List α :=
  (List.range r.count).filterMap fun index => r.slot (r.slotOf index)

/-! ## Change -/

/-- The ring with `a` as its newest value, and the oldest value if that had to make room. The ring
is full from the insertion on that brings the cursor back to the first slot. -/
def insert (r : Ring α) (a : α) : Ring α × Option α :=
  let evicted := if r.full then r.slot r.next else none
  let next := (r.next + 1) % r.capacity
  ({ slots := r.slots.setIfInBounds r.next (some a)
     next := next
     oldest := if r.full then (r.oldest + 1) % r.capacity else r.oldest
     full := r.full || next == 0 }, evicted)

/-- The ring with every slot emptied. -/
def clear (r : Ring α) : Ring α := empty r.capacity

end Ring

end LineRing
