/-
What the slots of a ring hold. The cursors and the flag tell which slots are live: all of them in a full ring, else
those before the next one to fill. Main statement: whatever was done to a new ring, going round from the oldest slot
meets each live slot once and passes over none, and so the slots hold the values of the ring and nothing else. A value
that was evicted or released is in no slot any more.

The way round is a map from indices to slots, `Ring.slotOf`. It is one to one (`Ring.WF.slotOf_inj`) and leads to every
live slot (`Ring.WF.exists_slotOf_eq`), and so what it lists is a permutation of the live slots; the values follow.
-/
import LineRing.Proofs.Ring.Queue
import Mathlib.Data.List.Nodup
import Mathlib.Data.List.ReduceOption
import Mathlib.Data.Nat.ModEq

namespace LineRing

namespace Ring

variable {α : Type}

/-! ## Live slots -/

/-- The slots that hold a value, in the order of the slots. -/
def live (r : Ring α) : List Nat := (List.range r.capacity).filter fun i => (r.slot i).isSome

/-- What the slots hold, in the order of the slots. -/
def contents (r : Ring α) : List α := r.slots.toList.reduceOption

theorem lt_capacity_of_isSome_slot {r : Ring α} {i : Nat} (h : (r.slot i).isSome) : i < r.capacity := by
  by_contra hi
  rw [slot_eq_none (Nat.le_of_not_lt hi)] at h
  cases h

@[simp] theorem mem_live {r : Ring α} {i : Nat} : i ∈ r.live ↔ (r.slot i).isSome := by
  rw [live, List.mem_filter, List.mem_range, and_iff_right_iff_imp]
  exact lt_capacity_of_isSome_slot

theorem nodup_live (r : Ring α) : r.live.Nodup := List.nodup_range.filter _

theorem map_slot_range (r : Ring α) : (List.range r.capacity).map r.slot = r.slots.toList := by
  refine List.ext_getElem (by simp [capacity]) fun i hi hi' => ?_
  simp only [List.getElem_map, List.getElem_range, slot, Array.getElem_toList]
  rw [Array.getD_eq_getD_getElem?, Array.getElem?_eq_getElem (by simpa using hi'), Option.getD_some]

theorem filterMap_slot_live (r : Ring α) : r.live.filterMap r.slot = r.contents := by
  rw [contents, ← map_slot_range, List.reduceOption, List.filterMap_map, live, List.filterMap_filter]
  refine List.filterMap_congr fun i _ => ?_
  cases hi : r.slot i <;> simp [hi]

theorem mem_contents {r : Ring α} {a : α} : a ∈ r.contents ↔ ∃ i, r.slot i = some a := by
  rw [← filterMap_slot_live, List.mem_filterMap]
  refine exists_congr fun i => and_iff_right_iff_imp.2 fun hi => ?_
  rw [mem_live, hi]; rfl

/-! ## The way round -/

namespace WF

variable {r : Ring α}

theorem slotOf_inj (h : r.WF) {i j : Nat} (hi : i < r.count) (hj : j < r.count) (heq : r.slotOf i = r.slotOf j) :
    i = j := by
  have hle := h.count_le
  exact Nat.ModEq.eq_of_lt_of_lt (Nat.ModEq.add_left_cancel' r.oldest heq) (by omega) (by omega)

/-- The way round comes to every live slot. In a full ring it comes to those before the oldest one last. -/
theorem exists_slotOf_eq (h : r.WF) {j : Nat} (hj : (r.slot j).isSome) : ∃ i < r.count, r.slotOf i = j := by
  have hlt := lt_capacity_of_isSome_slot hj
  have hlive := h.isSome_slot j hlt
  have holdest := h.oldest_lt
  rw [h.count_eq]
  cases hf : r.full with
  | false =>
    have hzero : r.oldest = 0 := by simpa [hf] using h.oldest_eq
    have hnext : j < r.next := by simpa [hf, hj] using hlive
    exact ⟨j, hnext, by rw [slotOf, hzero, Nat.zero_add, Nat.mod_eq_of_lt hlt]⟩
  | true =>
    rw [if_pos rfl]
    rcases Nat.lt_or_ge j r.oldest with hbefore | hafter
    · refine ⟨j + r.capacity - r.oldest, by omega, ?_⟩
      rw [slotOf, show r.oldest + (j + r.capacity - r.oldest) = j + r.capacity by omega, Nat.add_mod_right,
        Nat.mod_eq_of_lt hlt]
    · refine ⟨j - r.oldest, by omega, ?_⟩
      rw [slotOf, Nat.add_sub_cancel' hafter, Nat.mod_eq_of_lt hlt]

theorem perm_live (h : r.WF) : ((List.range r.count).map r.slotOf).Perm r.live := by
  have hnodup : ((List.range r.count).map r.slotOf).Nodup :=
    List.Nodup.map_on (fun i hi j hj => h.slotOf_inj (List.mem_range.1 hi) (List.mem_range.1 hj)) List.nodup_range
  refine (List.perm_ext_iff_of_nodup hnodup r.nodup_live).2 fun j => ?_
  rw [List.mem_map, mem_live]
  constructor
  · rintro ⟨i, hi, rfl⟩
    exact h.isSome_slot_slotOf (List.mem_range.1 hi)
  · intro hj
    obtain ⟨i, hi, heq⟩ := h.exists_slotOf_eq hj
    exact ⟨i, List.mem_range.2 hi, heq⟩

/-- The slots hold the values of the ring, each as often as the ring does. -/
theorem perm_contents (h : r.WF) : r.contents.Perm r.toList := by
  have hround : r.toList = ((List.range r.count).map r.slotOf).filterMap r.slot := by
    rw [List.filterMap_map]; rfl
  rw [hround, ← filterMap_slot_live]
  exact (h.perm_live.filterMap r.slot).symm

end WF

namespace Queued

variable {capacity : Nat} {values : List α} {s : Ring α × List α}

theorem perm_append_contents (h : Queued capacity values s) : (s.2 ++ s.1.contents).Perm values := by
  rw [← h.append_eq]
  exact h.wf.perm_contents.append_left s.2

/-- A value that was put in once and has been evicted is in no slot. -/
theorem slot_ne_of_mem (h : Queued capacity values s) (hnodup : values.Nodup) {a : α} (ha : a ∈ s.2) (i : Nat) :
    s.1.slot i ≠ some a := by
  intro hi
  have hsplit : (s.2 ++ s.1.contents).Nodup := h.perm_append_contents.symm.nodup hnodup
  exact List.disjoint_of_nodup_append hsplit ha (mem_contents.2 ⟨i, hi⟩)

end Queued

/-! ## The main statement -/

/-- What is where in a ring, whatever was done to it since it was new. It has as many slots as it was made with, and both
cursors are slots. In a full ring the cursors meet and every slot is live; in any other one nothing was evicted, and the
live slots are those before the next one to fill. The way round from the oldest slot lists each live slot once; it meets
no empty slot, and so the view has a value for each step. What the slots hold is what the ring holds, and with what was
evicted it is what was put in since the last clearing: where no value was put in twice, no slot holds an evicted one. -/
theorem slots_hold_retained {capacity : Nat} {new : Ring α} (hnew : create capacity = .ok new) (ops : List (Op α)) :
    let r := (new.run ops).1
    let evicted := (new.run ops).2
    r.slots.size = capacity ∧ r.next < capacity ∧ r.oldest < capacity ∧
    (r.full = true → r.next = r.oldest ∧ ∀ i < capacity, (r.slot i).isSome) ∧
    (r.full = false → r.oldest = 0 ∧ ∀ i, (r.slot i).isSome ↔ i < r.next) ∧
    ((List.range r.count).map fun i => (r.oldest + i) % capacity).Perm r.live ∧
    ((List.range r.count).map fun i => r.slot ((r.oldest + i) % capacity)) = r.toList.map some ∧
    r.toList.length = r.count ∧
    r.contents.Perm r.toList ∧ (evicted ++ r.contents).Perm (inserted ops) ∧
    (∀ i a, r.slot i = some a → a ∈ inserted ops) ∧
    ((inserted ops).Nodup → ∀ a ∈ evicted, ∀ i, r.slot i ≠ some a) := by
  intro r evicted
  have hq : Queued capacity (inserted ops) (r, evicted) := queued_run hnew ops
  have hwf : r.WF := hq.wf
  have hcap : r.capacity = capacity := hq.capacity_eq
  subst hcap
  refine ⟨rfl, hwf.next_lt, hwf.oldest_lt, fun hf => ⟨?_, fun i hi => ?_⟩, fun hf => ⟨?_, fun i => ?_⟩, hwf.perm_live,
    hwf.map_some_toList.symm, hwf.length_toList, hwf.perm_contents, hq.perm_append_contents, fun i a hi => ?_,
    fun hnodup a ha => hq.slot_ne_of_mem hnodup ha⟩
  · simpa [hf] using hwf.oldest_eq.symm
  · rw [hwf.isSome_slot i hi, hf]; rfl
  · simpa [hf] using hwf.oldest_eq
  · constructor
    · intro hi
      simpa [hf, hi] using hwf.isSome_slot i (lt_capacity_of_isSome_slot hi)
    · intro hi
      simpa [hf, hi] using hwf.isSome_slot i (Nat.lt_trans hi hwf.next_lt)
  · exact hq.perm_append_contents.subset (List.mem_append_right _ (mem_contents.2 ⟨i, hi⟩))

/-- A log with room for three entries that is cleared after two, and then goes round with four more: the slots hold the
last three, the newest of them first, and neither the evicted entry nor a released one. -/
theorem slots_hold_retained_wrapped :
    let ops : List (Op Entry) := [.insert [97, 10], .insert [98, 10], .clear, .insert [99, 10], .insert [],
      .insert [100, 10], .insert [10]]
    let log := ((empty 3 : Log).run ops).1
    (create 3 : Except Unmade Log) = .ok (empty 3) ∧ (inserted ops).Nodup ∧
      log.full = true ∧ log.next = 1 ∧ log.next = log.oldest ∧ log.live = [0, 1, 2] ∧
      log.contents = [[10], [], [100, 10]] ∧ log.contents.Perm log.toList ∧
      (∀ i, log.slot i ≠ some [99, 10]) ∧ (∀ i, log.slot i ≠ some [97, 10]) := by
  intro ops log
  have hnew : (create 3 : Except Unmade Log) = .ok (empty 3) := rfl
  have hnodup : (inserted ops).Nodup := by decide
  have hfull : log.full = true := by decide
  obtain ⟨-, -, -, hmeet, -, -, -, -, hperm, -, hput, hgone⟩ := slots_hold_retained hnew ops
  exact ⟨hnew, hnodup, hfull, by decide, (hmeet hfull).1, by decide, by decide, hperm,
    hgone hnodup [99, 10] (by decide), fun i hi => absurd (hput i [97, 10] hi) (by decide)⟩

end Ring

end LineRing
