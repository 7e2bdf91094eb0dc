/-
Rings with every step checked. A sum is a word or breaks off, a difference is not below zero, a remainder is by a number
other than zero, and a slot is read or filled only if the ring has it. Main statement: on a ring that operations lead to
from a new one, no check fails, and so the checked operations are the operations (`get_eq`, `toList_eq`, `insert_eq`,
`run_eq`).

Two facts are behind this: the cursors are within the ring (`Ring.WF`), and a ring has so few slots that two indices
have a sum (`Ring.Fits.add_lt`).
-/
import LineRing.Memory
import LineRing.Proofs.Ring.Queue

namespace LineRing

/-- What a checked computation breaks off with. -/
inductive Breach where
  /-- A sum that is no word. -/
  | overflow
  /-- A difference below zero. -/
  | underflow
  /-- A remainder by zero. -/
  | zeroDivisor
  /-- A slot or a byte that is not there. -/
  | outOfBounds
  /-- More bytes than one allocation can hold. -/
  | tooLarge
  deriving DecidableEq, Repr

namespace Checked

@[simp] theorem ok_bind {α β : Type} (a : α) (f : α → Except Breach β) : (Except.ok a >>= f) = f a := rfl

theorem bind_eq_ok {α β : Type} {x : Except Breach α} {f : α → Except Breach β} {b : β} (h : (x >>= f) = .ok b) :
    ∃ a, x = .ok a ∧ f a = .ok b := by
  cases x with
  | error breach => cases h
  | ok a => exact ⟨a, rfl, h⟩

/-- Where a computation goes through on every value of a list, the values are mapped. -/
theorem mapM_eq {α β : Type} {f : α → Except Breach β} {g : α → β} {l : List α} (h : ∀ a ∈ l, f a = .ok (g a)) :
    l.mapM f = .ok (l.map g) := by
  induction l with
  | nil => rfl
  | cons a rest ih =>
    obtain ⟨ha, hrest⟩ := List.forall_mem_cons.1 h
    rw [List.mapM_cons, ha, ok_bind, ih hrest]
    rfl

/-! ## Words -/

/-- A sum of words. -/
def add (a b : Nat) : Except Breach Nat := if a + b < wordRange then .ok (a + b) else .error .overflow

/-- A difference of words. -/
def sub (a b : Nat) : Except Breach Nat := if b ≤ a then .ok (a - b) else .error .underflow

/-- A remainder. -/
def mod (a b : Nat) : Except Breach Nat := if 0 < b then .ok (a % b) else .error .zeroDivisor

theorem add_eq {a b : Nat} (h : a + b < wordRange) : add a b = .ok (a + b) := if_pos h

theorem add_eq_ok {a b c : Nat} (h : add a b = .ok c) : c = a + b ∧ c < wordRange := by
  unfold add at h
  split at h
  · cases h; exact ⟨rfl, ‹_›⟩
  · cases h

theorem sub_eq {a b : Nat} (h : b ≤ a) : sub a b = .ok (a - b) := if_pos h

theorem sub_eq_ok {a b c : Nat} (h : sub a b = .ok c) : c = a - b ∧ b ≤ a := by
  unfold sub at h
  split at h
  · cases h; exact ⟨rfl, ‹_›⟩
  · cases h

theorem mod_eq {a b : Nat} (h : 0 < b) : mod a b = .ok (a % b) := if_pos h

end Checked

/-! ## Rings in memory -/

namespace Ring

variable {α : Type}

/-- The invariant of rings in memory: it is that of rings, and the slots are in one allocation. -/
structure Fits (r : Ring α) : Prop where
  wf : r.WF
  slots_le : slotSize * r.capacity ≤ allocationLimit

theorem Fits.add_lt {r : Ring α} (h : r.Fits) {a b : Nat} (ha : a ≤ r.capacity) (hb : b ≤ r.capacity) :
    a + b < wordRange := by
  have hslots := h.slots_le
  simp only [slotSize, allocationLimit, wordRange, UInt64.size] at hslots ⊢
  omega

theorem fits_create {capacity : Nat} {r : Ring α} (h : create capacity = .ok r) : r.Fits := by
  obtain ⟨hpos, hle, rfl⟩ := create_eq_ok_iff.1 h
  exact ⟨empty_wf hpos, by rw [capacity_empty]; exact hle⟩

theorem Fits.insert {r : Ring α} (h : r.Fits) (a : α) : (r.insert a).1.Fits :=
  ⟨insert_wf h.wf a, by rw [capacity_insert]; exact h.slots_le⟩

theorem Fits.clear {r : Ring α} (h : r.Fits) : r.clear.Fits :=
  ⟨clear_wf h.wf, by rw [capacity_clear]; exact h.slots_le⟩

end Ring

/-! ## Checked operations -/

namespace Checked

variable {α : Type}

/-- What a slot of the ring holds. -/
def slot (r : Ring α) (i : Nat) : Except Breach (Option α) :=
  if i < r.capacity then .ok (r.slot i) else .error .outOfBounds

/-- The slots with one of them filled. -/
def fill (r : Ring α) (i : Nat) (a : α) : Except Breach (Array (Option α)) :=
  if h : i < r.slots.size then .ok (r.slots.set i (some a) h) else .error .outOfBounds

/-- The number of values held. -/
def count (r : Ring α) : Except Breach Nat :=
  if r.full then .ok r.capacity
  else do
    let sum ← add r.next r.capacity
    let difference ← sub sum r.oldest
    mod difference r.capacity

/-- The slot of the value with this index. -/
def slotOf (r : Ring α) (index : Nat) : Except Breach Nat := do
  let sum ← add r.oldest index
  mod sum r.capacity

/-- What the slot of this index holds. -/
def slotAt (r : Ring α) (index : Nat) : Except Breach (Option α) := do
  let i ← slotOf r index
  slot r i

/-- The value with this index. -/
def get (r : Ring α) (index : Nat) : Except Breach (Option α) := do
  let retained ← count r
  if index < retained then slotAt r index else .ok none

/-- The values held, oldest first. -/
def toList (r : Ring α) : Except Breach (List α) := do
  let retained ← count r
  let slots ← (List.range retained).mapM (slotAt r)
  return slots.filterMap id

/-- A cursor moved to the next slot. -/
def advance (r : Ring α) (cursor : Nat) : Except Breach Nat := do
  let sum ← add cursor 1
  mod sum r.capacity

/-- The ring with `a` as its newest value, and what had to make room. -/
def insert (r : Ring α) (a : α) : Except Breach (Ring α × Option α) := do
  let evicted ← if r.full then slot r r.next else .ok none
  let slots ← fill r r.next a
  let next ← advance r r.next
  let oldest ← if r.full then advance r r.oldest else .ok r.oldest
  return (⟨slots, next, oldest, r.full || next == 0⟩, evicted)

/-- A ring and what was evicted from it, once one more operation is done. Clearing has no step that can fail. -/
def apply (s : Ring α × List α) : Ring.Op α → Except Breach (Ring α × List α)
  | .insert a => do
    let (r, evicted) ← insert s.1 a
    return (r, s.2 ++ evicted.toList)
  | .clear => .ok (s.1.clear, [])

/-- A ring after operations, and what was evicted from it. -/
def run (r : Ring α) (ops : List (Ring.Op α)) : Except Breach (Ring α × List α) := ops.foldlM apply (r, [])

/-! ## No check fails -/

section

variable {r : Ring α}

theorem count_eq (h : r.Fits) : count r = .ok r.count := by
  have hnext := h.wf.next_lt
  have holdest := h.wf.oldest_lt
  unfold count Ring.count
  cases r.full with
  | true => rfl
  | false =>
    simp only [Bool.false_eq_true, if_false]
    rw [add_eq (h.add_lt (Nat.le_of_lt hnext) (Nat.le_refl _)), ok_bind, sub_eq (by omega), ok_bind,
      mod_eq h.wf.capacity_pos]

theorem slotAt_eq (h : r.Fits) {index : Nat} (hindex : index < r.count) :
    slotAt r index = .ok (r.slot (r.slotOf index)) := by
  have holdest := h.wf.oldest_lt
  have hcount := h.wf.count_le
  have hslot : slotOf r index = .ok (r.slotOf index) := by
    unfold slotOf
    rw [add_eq (h.add_lt (Nat.le_of_lt holdest) (by omega)), ok_bind, mod_eq h.wf.capacity_pos]
    rfl
  unfold slotAt
  rw [hslot, ok_bind]
  exact if_pos (Nat.mod_lt _ h.wf.capacity_pos)

theorem get_eq (h : r.Fits) (index : Nat) : get r index = .ok (r.get? index) := by
  unfold get Ring.get?
  rw [count_eq h, ok_bind]
  by_cases hindex : index < r.count
  · rw [if_pos hindex, if_pos hindex, slotAt_eq h hindex]
  · rw [if_neg hindex, if_neg hindex]

theorem toList_eq (h : r.Fits) : toList r = .ok r.toList := by
  unfold toList
  rw [count_eq h, ok_bind, mapM_eq fun index hindex => slotAt_eq h (List.mem_range.1 hindex), ok_bind]
  refine congrArg Except.ok ?_
  rw [List.filterMap_map]
  rfl

theorem advance_eq (h : r.Fits) {cursor : Nat} (hcursor : cursor < r.capacity) :
    advance r cursor = .ok ((cursor + 1) % r.capacity) := by
  unfold advance
  rw [add_eq (h.add_lt (Nat.le_of_lt hcursor) h.wf.capacity_pos), ok_bind, mod_eq h.wf.capacity_pos]

theorem insert_eq (h : r.Fits) (a : α) : insert r a = .ok (r.insert a) := by
  have hnext : r.next < r.slots.size := h.wf.next_lt
  have hfill : fill r r.next a = .ok (r.slots.setIfInBounds r.next (some a)) := by
    unfold fill
    rw [dif_pos hnext, Array.setIfInBounds, dif_pos hnext]
  unfold insert Ring.insert
  rw [hfill, advance_eq h hnext, advance_eq h h.wf.oldest_lt]
  cases r.full with
  | true =>
    have hslot : slot r r.next = .ok (r.slot r.next) := if_pos hnext
    rw [hslot]; rfl
  | false => rfl

theorem apply_eq {s : Ring α × List α} (h : s.1.Fits) (op : Ring.Op α) : apply s op = .ok (op.apply s) := by
  cases op with
  | insert a => simp only [apply, insert_eq h]; rfl
  | clear => rfl

/-- Operations, one after the other, keep the invariant, and so none of them breaks off. -/
theorem foldlM_apply_eq (ops : List (Ring.Op α)) :
    ∀ {s : Ring α × List α}, s.1.Fits → ops.foldlM apply s = .ok (ops.foldl Ring.Op.apply s) := by
  induction ops with
  | nil => exact fun _ => rfl
  | cons op rest ih =>
    intro s h
    rw [List.foldlM_cons, apply_eq h, ok_bind, List.foldl_cons]
    apply ih
    cases op with
    | insert a => exact h.insert a
    | clear => exact h.clear

theorem run_eq (h : r.Fits) (ops : List (Ring.Op α)) : run r ops = .ok (r.run ops) := foldlM_apply_eq ops h

end

end Checked

namespace Ring

theorem Fits.run {α : Type} {capacity : Nat} {new : Ring α} (h : create capacity = .ok new) (ops : List (Op α)) :
    (new.run ops).1.Fits := by
  have hqueued := queued_run h ops
  obtain ⟨-, rfl⟩ := create_wf h
  have hslots := (fits_create h).slots_le
  rw [capacity_empty] at hslots
  exact ⟨hqueued.wf, by rw [hqueued.capacity_eq]; exact hslots⟩

end Ring

end LineRing
