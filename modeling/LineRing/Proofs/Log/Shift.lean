/-
Addresses over an insertion. Main statement: an insertion that evicts an entry lowers the index of every address by one
and its offset by the size of that entry, one that evicts nothing leaves every answer as it was, and the new entry takes
the last offsets (`insert_shifts_addresses`).

Nothing here looks at the slots. Two logs that share a run of entries are related by `Shift`, which says what comes
before the run in the first and after it in the second, and an insertion is the case with one entry after it and one
or none before.
-/
import LineRing.Proofs.Log.Addresses

namespace LineRing

namespace Log

/-! ## Shared entries -/

/-- Two logs that share entries: `cut` is before them in the first log, `added` is after them in the second. -/
structure Shift (log next : Log) (cut shared added : List Entry) : Prop where
  wf : log.WF
  next_wf : next.WF
  toList_eq : log.toList = cut ++ shared
  next_toList_eq : next.toList = shared ++ added

namespace Shift

variable {log next : Log} {cut shared added : List Entry}

theorem count_eq (h : Shift log next cut shared added) : log.count = cut.length + shared.length := by
  rw [← h.wf.length_toList, h.toList_eq, List.length_append]

theorem next_count_eq (h : Shift log next cut shared added) : next.count = shared.length + added.length := by
  rw [← h.next_wf.length_toList, h.next_toList_eq, List.length_append]

theorem bytes_eq (h : Shift log next cut shared added) : log.bytes = cut.flatten ++ shared.flatten := by
  rw [bytes, h.toList_eq, List.flatten_append]

theorem next_bytes_eq (h : Shift log next cut shared added) : next.bytes = shared.flatten ++ added.flatten := by
  rw [bytes, h.next_toList_eq, List.flatten_append]

theorem size_eq (h : Shift log next cut shared added) : log.size = totalLength cut + totalLength shared := by
  rw [size, h.toList_eq, totalLength_append]

theorem next_size_eq (h : Shift log next cut shared added) :
    next.size = totalLength shared + totalLength added := by
  rw [size, h.next_toList_eq, totalLength_append]

/-! ## Entries -/

theorem get?_add (h : Shift log next cut shared added) {i : Nat} (hi : i < shared.length) :
    log.get? (cut.length + i) = next.get? i := by
  rw [← h.wf.getElem?_toList, ← h.next_wf.getElem?_toList, h.toList_eq, h.next_toList_eq,
    List.getElem?_append_right (Nat.le_add_right _ _), Nat.add_sub_cancel_left, List.getElem?_append_left hi]

theorem sizeAt_add (h : Shift log next cut shared added) {i : Nat} (hi : i < shared.length) :
    log.sizeAt (cut.length + i) = next.sizeAt i := by
  unfold sizeAt; rw [h.get?_add hi]

theorem sizeBefore_length (h : Shift log next cut shared added) : log.sizeBefore cut.length = totalLength cut := by
  rw [sizeBefore_eq h.wf, h.toList_eq, List.take_left]

theorem sizeBefore_add (h : Shift log next cut shared added) {i : Nat} (hi : i ≤ shared.length) :
    log.sizeBefore (cut.length + i) = totalLength cut + next.sizeBefore i := by
  induction i with
  | zero => exact h.sizeBefore_length
  | succ i ih =>
    rw [← Nat.add_assoc, sizeBefore_succ, sizeBefore_succ, ih (by omega), h.sizeAt_add (by omega), Nat.add_assoc]

/-! ## Addresses and offsets -/

/-- A shared byte has the offset in the second log that it had in the first, less what is cut off. -/
theorem offsetOf_add (h : Shift log next cut shared added) {i byte offset : Nat}
    (hoffset : log.offsetOf ⟨cut.length + i, byte⟩ = .ok offset) :
    totalLength cut ≤ offset ∧ next.offsetOf ⟨i, byte⟩ = .ok (offset - totalLength cut) := by
  obtain ⟨hlt, hbyte, rfl⟩ := (offsetOf_eq_ok_iff_size h.wf).1 hoffset
  dsimp only at hlt hbyte ⊢
  have hcount := h.count_eq
  have hnext := h.next_count_eq
  have hi : i < shared.length := by omega
  rw [h.sizeAt_add hi] at hbyte
  rw [h.sizeBefore_add (Nat.le_of_lt hi)]
  refine ⟨by omega, (offsetOf_eq_ok_iff_size h.next_wf).2 ⟨?_, hbyte, ?_⟩⟩
  · dsimp only; omega
  · dsimp only; omega

theorem locate_add (h : Shift log next cut shared added) {i byte offset : Nat}
    (hlocate : log.locate offset = some ⟨cut.length + i, byte⟩) :
    next.locate (offset - totalLength cut) = some ⟨i, byte⟩ :=
  (locate_eq_some_iff h.next_wf).2 (h.offsetOf_add ((locate_eq_some_iff h.wf).1 hlocate)).2

/-- An offset that is not cut off is in a shared entry. -/
theorem exists_locate (h : Shift log next cut shared added) {offset : Nat} (hcut : totalLength cut ≤ offset)
    (hlt : offset < log.size) :
    ∃ i byte, i < shared.length ∧ log.locate offset = some ⟨cut.length + i, byte⟩ := by
  obtain ⟨⟨index, byte⟩, hlocate⟩ := Option.isSome_iff_exists.1 ((isSome_locate_iff h.wf).2 hlt)
  obtain ⟨hindex, hbyte, hoffset⟩ := (offsetOf_eq_ok_iff_size h.wf).1 ((locate_eq_some_iff h.wf).1 hlocate)
  dsimp only at hindex hbyte hoffset
  have hge : cut.length ≤ index := by
    by_contra hno
    have hends := sizeBefore_mono log (Nat.lt_of_not_le hno)
    rw [h.sizeBefore_length, Nat.succ_eq_add_one, sizeBefore_succ] at hends
    omega
  obtain ⟨i, rfl⟩ := Nat.exists_eq_add_of_le hge
  have hcount := h.count_eq
  exact ⟨i, byte, by omega, hlocate⟩

/-- What is found in a shared entry is found again in the second log. -/
theorem exists_find? (h : Shift log next cut shared added) {i byte offset : Nat} (hi : i < shared.length)
    (hlocate : log.locate offset = some ⟨cut.length + i, byte⟩) :
    ∃ e, log.find? offset = some (e, byte) ∧ next.find? (offset - totalLength cut) = some (e, byte) := by
  have hlt : i < next.count := by rw [h.next_count_eq]; omega
  obtain ⟨e, he⟩ := get?_eq_some_of_lt h.next_wf hlt
  refine ⟨e, (find?_eq_some_iff h.wf).2 ⟨_, hlocate, ?_⟩, (find?_eq_some_iff h.next_wf).2 ⟨i, h.locate_add hlocate, he⟩⟩
  rw [h.get?_add hi, he]

theorem getElem?_bytes (h : Shift log next cut shared added) {offset : Nat} (hcut : totalLength cut ≤ offset)
    (hlt : offset < log.size) : log.bytes[offset]? = next.bytes[offset - totalLength cut]? := by
  have hsize := h.size_eq
  rw [totalLength_eq] at hcut hsize ⊢
  rw [totalLength_eq] at hsize
  rw [h.bytes_eq, h.next_bytes_eq, List.getElem?_append_right hcut, List.getElem?_append_left (by omega)]

/-! ## Nothing cut off -/

theorem offsetOf_of_nil (h : Shift log next [] shared added) {a : Address} {offset : Nat}
    (hoffset : log.offsetOf a = .ok offset) : next.offsetOf a = .ok offset := by
  have hindex : log.offsetOf ⟨([] : List Entry).length + a.command, a.byte⟩ = .ok offset := by simpa using hoffset
  exact (h.offsetOf_add hindex).2

theorem locate_of_nil (h : Shift log next [] shared added) {a : Address} {offset : Nat}
    (hlocate : log.locate offset = some a) : next.locate offset = some a :=
  (locate_eq_some_iff h.next_wf).2 (h.offsetOf_of_nil ((locate_eq_some_iff h.wf).1 hlocate))

theorem find?_of_nil (h : Shift log next [] shared added) {e : Entry} {byte offset : Nat}
    (hfind : log.find? offset = some (e, byte)) : next.find? offset = some (e, byte) := by
  obtain ⟨index, hlocate, -⟩ := (find?_eq_some_iff h.wf).1 hfind
  obtain ⟨hlt, -⟩ := (offsetOf_eq_ok_iff_size h.wf).1 ((locate_eq_some_iff h.wf).1 hlocate)
  have hcount := h.count_eq
  rw [List.length_nil, Nat.zero_add] at hcount
  obtain ⟨found, hfound, hnext⟩ := h.exists_find? (i := index) (hcount ▸ hlt) (by simpa using hlocate)
  rw [hfind] at hfound
  cases hfound
  exact hnext

/-! ## One entry added -/

variable {e : Entry}

theorem get?_last (h : Shift log next cut shared [e]) : next.get? (next.count - 1) = some e := by
  rw [h.next_count_eq, ← h.next_wf.getElem?_toList, h.next_toList_eq]
  simp

/-- The added entry takes the last offsets. -/
theorem locate_last_iff (h : Shift log next cut shared [e]) {offset byte : Nat} :
    next.locate offset = some ⟨next.count - 1, byte⟩ ↔
      byte < e.length ∧ offset = next.size - e.length + byte := by
  have hcount := h.next_count_eq
  have hlast : next.count - 1 = shared.length := by rw [hcount]; rfl
  have hsize := h.next_size_eq
  have hbefore : next.sizeBefore shared.length = totalLength shared := by
    rw [sizeBefore_eq h.next_wf, h.next_toList_eq, List.take_left]
  have hat : next.sizeAt shared.length = e.length := sizeAt_eq (hlast ▸ h.get?_last)
  rw [locate_eq_some_iff h.next_wf, offsetOf_eq_ok_iff_size h.next_wf]
  dsimp only
  rw [hlast, hbefore, hat, hsize, totalLength_singleton, Nat.add_sub_cancel]
  exact and_iff_right (by rw [hcount]; simp)

theorem bytes_drop_last (h : Shift log next cut shared [e]) : next.bytes.drop (next.size - e.length) = e := by
  have hsize := h.next_size_eq
  have hstart : next.size - e.length = shared.flatten.length := by
    rw [totalLength_singleton, totalLength_eq] at hsize
    omega
  rw [hstart, h.next_bytes_eq, List.drop_left, List.flatten_singleton]

end Shift

/-! ## Insertions -/

/-- An eviction cuts off the entry that is evicted. -/
theorem shift_insert_of_eq_some {log : Log} (hwf : log.WF) {e v : Entry} (hv : (log.insert e).2 = some v) :
    ∃ shared, Shift log (log.insert e).1 [v] shared [e] := by
  have hfull : log.full = true := by rw [← Ring.isSome_insert_snd hwf e, hv]; rfl
  rw [Ring.insert_snd hwf, if_pos hfull] at hv
  obtain ⟨shared, hl⟩ := List.head?_eq_some_iff.1 hv
  refine ⟨shared, hwf, Ring.insert_wf hwf e, hl, ?_⟩
  rw [Ring.toList_insert hwf, if_pos hfull, hl, List.tail_cons]

theorem shift_insert_of_eq_none {log : Log} (hwf : log.WF) {e : Entry} (hv : (log.insert e).2 = none) :
    Shift log (log.insert e).1 [] log.toList [e] := by
  have hfull : ¬ log.full = true := by rw [← Ring.isSome_insert_snd hwf e, hv]; simp
  refine ⟨hwf, Ring.insert_wf hwf e, rfl, ?_⟩
  rw [Ring.toList_insert hwf, if_neg hfull]

theorem exists_shift_insert {log : Log} (hwf : log.WF) (e : Entry) :
    ∃ cut shared, Shift log (log.insert e).1 cut shared [e] := by
  cases hv : (log.insert e).2 with
  | none => exact ⟨_, _, shift_insert_of_eq_none hwf hv⟩
  | some v => exact ⟨_, shift_insert_of_eq_some hwf hv⟩

/-! ## The main statement -/

/-- Addresses move by just what is evicted. Take any log that insertions and clearings lead to from a new one, and
insert an entry into it, both with entries of any size. If that evicts an entry `v`, the byte of each address with an
index of one or more is found at the index one lower and at the offset less the size of `v`, and so is each offset
from this size on. If it evicts nothing, every offset, address and entry that was found before is found again. In both
cases the new entry is the last one and takes the last offsets and no others. -/
theorem insert_shifts_addresses {capacity : Nat} {new : Log} (h : Ring.create capacity = .ok new)
    (ops : List (Ring.Op Entry)) (e : Entry) :
    let log : Log := (new.run ops).1
    let next : Log := (log.insert e).1
    (∀ v, (log.insert e).2 = some v →
      v.length ≤ log.size ∧ next.size = log.size - v.length + e.length ∧
      (∀ i byte offset, log.offsetOf ⟨i + 1, byte⟩ = .ok offset →
        v.length ≤ offset ∧ next.offsetOf ⟨i, byte⟩ = .ok (offset - v.length)) ∧
      ∀ offset, v.length ≤ offset → offset < log.size → ∃ i byte found,
        log.locate offset = some ⟨i + 1, byte⟩ ∧ next.locate (offset - v.length) = some ⟨i, byte⟩ ∧
        log.find? offset = some (found, byte) ∧ next.find? (offset - v.length) = some (found, byte) ∧
        log.bytes[offset]? = next.bytes[offset - v.length]?) ∧
    ((log.insert e).2 = none →
      next.size = log.size + e.length ∧
      (∀ a offset, log.offsetOf a = .ok offset → next.offsetOf a = .ok offset) ∧
      (∀ offset a, log.locate offset = some a → next.locate offset = some a) ∧
      ∀ offset found byte, log.find? offset = some (found, byte) → next.find? offset = some (found, byte)) ∧
    next.get? (next.count - 1) = some e ∧
    (∀ offset byte, next.locate offset = some ⟨next.count - 1, byte⟩ ↔
      byte < e.length ∧ offset = next.size - e.length + byte) ∧
    next.bytes.drop (next.size - e.length) = e := by
  intro log next
  have hwf : log.WF := (Ring.queued_run h ops).wf
  obtain ⟨cut, kept, hinsert⟩ := exists_shift_insert hwf e
  refine ⟨fun v hv => ?_, fun hnone => ?_, hinsert.get?_last, fun offset byte => hinsert.locate_last_iff,
    hinsert.bytes_drop_last⟩
  · obtain ⟨shared, hshift⟩ := shift_insert_of_eq_some hwf hv
    have hsize : log.size = v.length + totalLength shared := by rw [hshift.size_eq, totalLength_singleton]
    have hnext : next.size = totalLength shared + e.length := by rw [hshift.next_size_eq, totalLength_singleton]
    refine ⟨by omega, by omega, fun i byte offset hoffset => ?_, fun offset hge hlt => ?_⟩
    · rw [Nat.add_comm] at hoffset
      have hadd := hshift.offsetOf_add (i := i) hoffset
      rwa [totalLength_singleton] at hadd
    · rw [← totalLength_singleton v] at hge
      obtain ⟨i, byte, hi, hlocate⟩ := hshift.exists_locate hge hlt
      obtain ⟨found, hfind, hfind'⟩ := hshift.exists_find? hi hlocate
      have hmoved := hshift.locate_add hlocate
      have hbyte := hshift.getElem?_bytes hge hlt
      rw [totalLength_singleton] at hfind' hmoved hbyte
      rw [List.length_singleton, Nat.add_comm] at hlocate
      exact ⟨i, byte, found, hlocate, hmoved, hfind, hfind', hbyte⟩
  · have hshift := shift_insert_of_eq_none hwf hnone
    have hnext : next.size = log.size + e.length := by rw [hshift.next_size_eq, totalLength_singleton, size]
    refine ⟨hnext, fun a offset => hshift.offsetOf_of_nil, fun offset a => hshift.locate_of_nil,
      fun offset found byte => hshift.find?_of_nil⟩

/-- An eviction of two bytes, with an empty entry before the byte that moves. -/
theorem insert_shifts_addresses_past_empty :
    let log : Log := ((Ring.empty 3 : Log).run [.insert [1, 10], .insert [], .insert [2, 3, 10]]).1
    let next : Log := (log.insert [4, 10]).1
    (Ring.create 3 : Except Unmade Log) = .ok (Ring.empty 3) ∧ (log.insert [4, 10]).2 = some [1, 10] ∧
      log.offsetOf ⟨2, 1⟩ = .ok 3 ∧ next.offsetOf ⟨1, 1⟩ = .ok 1 ∧ next.locate 4 = some ⟨2, 1⟩ := by
  intro log next
  have hnew : (Ring.create 3 : Except Unmade Log) = .ok (Ring.empty 3) := rfl
  obtain ⟨hevict, -, -, hlast, -⟩ :=
    insert_shifts_addresses hnew [.insert [1, 10], .insert [], .insert [2, 3, 10]] [4, 10]
  have hv : (log.insert [4, 10]).2 = some [1, 10] := rfl
  have hoffset : log.offsetOf ⟨2, 1⟩ = .ok 3 := rfl
  obtain ⟨-, -, hmoves, -⟩ := hevict [1, 10] hv
  exact ⟨hnew, hv, hoffset, (hmoves 1 1 3 hoffset).2, (hlast 4 1).2 (by decide)⟩

end Log

end LineRing
