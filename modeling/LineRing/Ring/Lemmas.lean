/-
Laws of rings through the view `Ring.toList`. `Ring.WF` is what the cursors and the slots of a ring
have to do with each other; a new ring has it and every operation keeps it. Under it, an insertion
appends to the view, after it has dropped the oldest value of a full ring.
-/
import LineRing.Ring

namespace LineRing

namespace Ring

variable {α : Type}

/-- The invariant of rings. In a full ring the cursors meet and every slot holds a value; in any
other ring nothing has been evicted, and the slots before the next one to fill hold the values. -/
structure WF (r : Ring α) : Prop where
  capacity_pos : 0 < r.capacity
  next_lt : r.next < r.capacity
  oldest_eq : r.oldest = if r.full then r.next else 0
  isSome_slot : ∀ i < r.capacity, (r.slot i).isSome = (r.full || decide (i < r.next))

/-! ## Slots -/

theorem slot_eq_none {r : Ring α} {i : Nat} (h : r.capacity ≤ i) : r.slot i = none := by
  simp [slot, Array.getD_eq_getD_getElem?, Array.getElem?_eq_none h]

@[simp] theorem capacity_empty (capacity : Nat) : (empty capacity : Ring α).capacity = capacity := by
  simp [empty, Ring.capacity]

@[simp] theorem slot_empty (capacity i : Nat) : (empty capacity : Ring α).slot i = none := by
  simp only [slot, empty, Array.getD_eq_getD_getElem?, Array.getElem?_replicate]
  split <;> rfl

@[simp] theorem capacity_insert (r : Ring α) (a : α) : (r.insert a).1.capacity = r.capacity := by
  simp [insert, capacity]

@[simp] theorem capacity_clear (r : Ring α) : r.clear.capacity = r.capacity := capacity_empty _

theorem slot_insert {r : Ring α} (h : r.next < r.capacity) (a : α) (i : Nat) :
    (r.insert a).1.slot i = if i = r.next then some a else r.slot i := by
  simp only [insert, slot, Array.getD_eq_getD_getElem?, Array.getElem?_setIfInBounds]
  by_cases hi : r.next = i
  · subst hi; simp [show r.next < r.slots.size from h]
  · simp [hi, Ne.symm hi]

namespace WF

/-! ## The number of values -/

theorem oldest_lt {r : Ring α} (h : r.WF) : r.oldest < r.capacity := by
  have := h.oldest_eq; have := h.next_lt; have := h.capacity_pos
  split at * <;> omega

theorem count_eq {r : Ring α} (h : r.WF) : r.count = if r.full then r.capacity else r.next := by
  unfold count
  split
  · rfl
  · next hf =>
    have ho : r.oldest = 0 := by simpa [hf] using h.oldest_eq
    rw [ho, Nat.sub_zero, Nat.add_mod_right, Nat.mod_eq_of_lt h.next_lt]

theorem count_le {r : Ring α} (h : r.WF) : r.count ≤ r.capacity := by
  have := h.next_lt; rw [h.count_eq]; split <;> omega

/-! ## The view -/

/-- Where the values of a ring are: each has a slot, and the slot holds it. -/
theorem isSome_slot_slotOf {r : Ring α} (h : r.WF) {i : Nat} (hi : i < r.count) :
    (r.slot (r.slotOf i)).isSome := by
  rw [slotOf, h.isSome_slot _ (Nat.mod_lt _ h.capacity_pos)]
  rw [h.count_eq] at hi
  cases hf : r.full with
  | true => rfl
  | false =>
    have ho : r.oldest = 0 := by simpa [hf] using h.oldest_eq
    have hi : i < r.next := by simpa [hf] using hi
    have hn := h.next_lt
    simp [ho, Nat.mod_eq_of_lt (Nat.lt_trans hi hn), hi]

end WF

theorem map_some_filterMap {β : Type} {f : β → Option α} {l : List β}
    (h : ∀ b ∈ l, (f b).isSome) : (l.filterMap f).map some = l.map f := by
  induction l with
  | nil => rfl
  | cons b rest ih =>
    obtain ⟨a, ha⟩ := Option.isSome_iff_exists.1 (h b (by simp))
    simp [ha, ih fun b hb => h b (by simp [hb])]

namespace WF

theorem map_some_toList {r : Ring α} (h : r.WF) :
    r.toList.map some = (List.range r.count).map fun i => r.slot (r.slotOf i) :=
  map_some_filterMap fun _ hi => h.isSome_slot_slotOf (List.mem_range.1 hi)

@[simp] theorem length_toList {r : Ring α} (h : r.WF) : r.toList.length = r.count := by
  simpa using congrArg List.length h.map_some_toList

/-- The view holds the values in the order of their indices. -/
theorem getElem?_toList {r : Ring α} (h : r.WF) (i : Nat) : r.toList[i]? = r.get? i := by
  have hmap := congrArg (fun l => l[i]?) h.map_some_toList
  simp only [List.getElem?_map, get?] at hmap ⊢
  by_cases hi : i < r.count
  · rw [List.getElem?_range hi, Option.map_some] at hmap
    rw [if_pos hi]
    cases hl : r.toList[i]? with
    | none => simp [hl] at hmap
    | some a => simpa [hl] using hmap
  · rw [if_neg hi]
    exact List.getElem?_eq_none (by rw [h.length_toList]; omega)

end WF

/-! ## Making -/

theorem empty_wf {capacity : Nat} (h : 0 < capacity) : (empty capacity : Ring α).WF where
  capacity_pos := by simpa using h
  next_lt := by rw [capacity_empty]; exact h
  oldest_eq := rfl
  isSome_slot i _ := by rw [slot_empty]; rfl

/-- There is a new ring just where it has slots and they fit into one allocation. -/
theorem create_eq_ok_iff {capacity : Nat} {r : Ring α} :
    create capacity = .ok r ↔ 0 < capacity ∧ slotSize * capacity ≤ allocationLimit ∧ r = empty capacity := by
  constructor
  · intro h
    unfold create at h
    split at h
    · cases h
    · next hc =>
      split at h
      · next hle => cases h; exact ⟨Nat.pos_of_ne_zero hc, hle, rfl⟩
      · split at h
        · cases h
        · cases h
  · rintro ⟨hpos, hle, rfl⟩
    unfold create
    rw [if_neg (Nat.ne_of_gt hpos), if_pos hle]

theorem create_wf {capacity : Nat} {r : Ring α} (h : create capacity = .ok r) :
    r.WF ∧ r = empty capacity := by
  obtain ⟨hpos, -, rfl⟩ := create_eq_ok_iff.1 h
  exact ⟨empty_wf hpos, rfl⟩

@[simp] theorem toList_empty (capacity : Nat) : (empty capacity : Ring α).toList = [] := by
  simp [toList]

theorem clear_wf {r : Ring α} (h : r.WF) : r.clear.WF := empty_wf h.capacity_pos

@[simp] theorem toList_clear (r : Ring α) : r.clear.toList = [] := toList_empty _

/-! ## Insertion -/

theorem insert_wf {r : Ring α} (h : r.WF) (a : α) : (r.insert a).1.WF := by
  have hpos := h.capacity_pos
  have hlt := h.next_lt
  have ho := h.oldest_eq
  have hnext : (r.insert a).1.next = (r.next + 1) % r.capacity := rfl
  refine ⟨by simpa using hpos, ?_, ?_, fun i hi => ?_⟩
  · rw [hnext, capacity_insert]; exact Nat.mod_lt _ hpos
  · cases hf : r.full with
    | true => simp_all [insert]
    | false =>
      rw [hf] at ho
      by_cases h0 : (r.next + 1) % r.capacity = 0 <;> simp_all [insert]
  · rw [capacity_insert] at hi
    rw [slot_insert hlt, hnext]
    have hfull : (r.insert a).1.full = (r.full || (r.next + 1) % r.capacity == 0) := rfl
    rw [hfull]
    have hs := h.isSome_slot i hi
    cases hf : r.full with
    | true => split <;> simp_all
    | false =>
      rw [hf, Bool.false_or] at hs
      rcases Nat.lt_or_ge (r.next + 1) r.capacity with hlt' | hge
      · rw [Nat.mod_eq_of_lt hlt']
        by_cases hi' : i = r.next
        · simp [hi']
        · simp [hi', hs]; omega
      · have heq : r.next + 1 = r.capacity := by omega
        rw [heq, Nat.mod_self]
        by_cases hi' : i = r.next
        · simp [hi']
        · simp [hi', hs]; omega

/-- The value that is evicted is the oldest one of a full ring. -/
theorem insert_snd {r : Ring α} (h : r.WF) (a : α) :
    (r.insert a).2 = if r.full then r.toList.head? else none := by
  cases hf : r.full with
  | false => simp [insert, hf]
  | true =>
    have ho : r.oldest = r.next := by simpa [hf] using h.oldest_eq
    have hc : 0 < r.count := by rw [h.count_eq, hf]; exact h.capacity_pos
    rw [if_pos rfl, List.head?_eq_getElem?, h.getElem?_toList, get?, if_pos hc, slotOf, ho,
      Nat.add_zero, Nat.mod_eq_of_lt h.next_lt]
    simp [insert, hf]

theorem isSome_insert_snd {r : Ring α} (h : r.WF) (a : α) : (r.insert a).2.isSome = r.full := by
  rw [insert_snd h]
  cases hf : r.full with
  | false => rfl
  | true =>
    have hlen : 0 < r.toList.length := by
      rw [h.length_toList, h.count_eq, hf]; exact h.capacity_pos
    rw [if_pos rfl, List.isSome_head?]
    exact List.length_pos_iff.1 hlen

/-- One round of the ring leads back to where it began, and no shorter way does. -/
theorem add_mod_eq_iff {capacity n i : Nat} (hn : n < capacity) (hi : i < capacity) :
    (n + 1 + i) % capacity = n ↔ i = capacity - 1 := by
  rcases Nat.lt_or_ge (n + 1 + i) capacity with h | h
  · rw [Nat.mod_eq_of_lt h]; omega
  · rw [Nat.mod_eq_sub_mod h, Nat.mod_eq_of_lt (by omega)]; omega

theorem get?_insert_of_full {r : Ring α} (h : r.WF) (hf : r.full = true) (a : α) (i : Nat) :
    (r.insert a).1.get? i =
      if i + 1 < r.capacity then r.get? (i + 1) else if i + 1 = r.capacity then some a else none := by
  have hpos := h.capacity_pos
  have hlt := h.next_lt
  have ho : r.oldest = r.next := by simpa [hf] using h.oldest_eq
  have hold : (r.insert a).1.oldest = (r.next + 1) % r.capacity := by simp [insert, hf, ho]
  have hcount : r.count = r.capacity := by simpa [hf] using h.count_eq
  have hcount' : (r.insert a).1.count = r.capacity := by
    simpa [insert, hf, Ring.capacity] using (insert_wf h a).count_eq
  simp only [get?, slotOf, capacity_insert, slot_insert hlt, hold, hcount, hcount',
    Nat.mod_add_mod, ho]
  by_cases hi : i < r.capacity
  · rw [if_pos hi]
    -- the new value is in the slot from which the round begins
    simp only [add_mod_eq_iff hlt hi, show r.next + (i + 1) = r.next + 1 + i by omega]
    grind
  · rw [if_neg hi, if_neg (by omega), if_neg (by omega)]

theorem get?_insert_of_not_full {r : Ring α} (h : r.WF) (hf : r.full = false) (a : α) (i : Nat) :
    (r.insert a).1.get? i =
      if i < r.count then r.get? i else if i = r.count then some a else none := by
  have hlt := h.next_lt
  have ho : r.oldest = 0 := by simpa [hf] using h.oldest_eq
  have hold : (r.insert a).1.oldest = 0 := by simp [insert, hf, ho]
  have hcount : r.count = r.next := by simpa [hf] using h.count_eq
  have hcount' : (r.insert a).1.count = r.next + 1 := by
    rw [(insert_wf h a).count_eq, capacity_insert]
    show (if (r.full || (r.next + 1) % r.capacity == 0) = true then _ else
      (r.next + 1) % r.capacity) = _
    rcases Nat.lt_or_ge (r.next + 1) r.capacity with hi | hi
    · simp [hf, Nat.mod_eq_of_lt hi]
    -- the cursor comes back to the first slot, and the ring is full
    · have heq : r.next + 1 = r.capacity := by omega
      simp [heq]
  simp only [get?, slotOf, capacity_insert, slot_insert hlt, hold, ho, hcount, hcount',
    Nat.zero_add]
  by_cases hi : i < r.next + 1
  · rw [if_pos hi, Nat.mod_eq_of_lt (by omega)]
    by_cases heq : i = r.next
    · simp [heq]
    · rw [if_neg heq, if_pos (by omega), if_pos (by omega)]
  · rw [if_neg hi, if_neg (by omega), if_neg (by omega)]

/-- An insertion appends to the values, after the oldest one of a full ring has been dropped. -/
theorem toList_insert {r : Ring α} (h : r.WF) (a : α) :
    (r.insert a).1.toList = (if r.full then r.toList.tail else r.toList) ++ [a] := by
  refine List.ext_getElem? fun i => ?_
  rw [(insert_wf h a).getElem?_toList]
  have hlen := h.length_toList
  have hpos := h.capacity_pos
  cases hf : r.full with
  | true =>
    have hcount : r.count = r.capacity := by simpa [hf] using h.count_eq
    rw [get?_insert_of_full h hf, if_pos rfl, List.getElem?_append, List.length_tail, hlen, hcount,
      List.getElem?_tail, h.getElem?_toList, List.getElem?_singleton]
    grind
  | false =>
    simp only [get?_insert_of_not_full h hf, Bool.false_eq_true, if_false, List.getElem?_append,
      hlen, h.getElem?_toList, List.getElem?_singleton]
    grind

/-- The values after an insertion are the last ones, as many as there is room for, of the values
before it and the new one. -/
theorem toList_insert_eq_drop {r : Ring α} (h : r.WF) (a : α) :
    (r.insert a).1.toList = (r.toList ++ [a]).drop (r.toList.length + 1 - r.capacity) := by
  have hlen := h.length_toList
  have hcount := h.count_eq
  have hpos := h.capacity_pos
  have hlt := h.next_lt
  rw [toList_insert h]
  cases hf : r.full with
  | true =>
    rw [hf, if_pos rfl] at hcount
    rw [if_pos rfl, hlen, hcount, Nat.add_sub_cancel_left, List.drop_append_of_le_length (by omega),
      List.drop_one]
  | false =>
    rw [hf, if_neg (by simp)] at hcount
    rw [if_neg (by simp), hlen, hcount, Nat.sub_eq_zero_of_le (by omega), List.drop_zero]

end Ring

end LineRing
