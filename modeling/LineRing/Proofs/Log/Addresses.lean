/-
Two names of one byte. Main statement: in a log that has come about in any way, addresses and offsets are in one to one
correspondence, and the order of addresses is that of offsets; each offset below the size has its address, and each
address that has no offset fails as its index or its byte is out of range (`addresses_match_offsets`).

The offset of an address is counted in `sizeBefore`, what the entries before it take. The three searches agree because each
of them splits the entries at the one that is found: see `offsetOf_eq_ok_iff`, `locateFrom_eq_some_iff` and
`findFrom_eq_some_iff`.
-/
import LineRing.Log.Lemmas
import LineRing.Proofs.Ring.Queue
import Mathlib.Tactic.SplitIfs

namespace LineRing

/-- The order of addresses: by the command first, and by the byte within one command. -/
def Address.Before (a b : Address) : Prop := a.command < b.command ∨ a.command = b.command ∧ a.byte < b.byte

theorem Address.before_trichotomy (a b : Address) : a.Before b ∨ a = b ∨ b.Before a := by
  obtain ⟨i, o⟩ := a
  obtain ⟨j, p⟩ := b
  simp only [Before, Address.mk.injEq]
  omega

namespace Log

variable {log : Log}

/-! ## Sizes by index -/

/-- The size of the entry with this index; an index out of range takes nothing. -/
def sizeAt (log : Log) (index : Nat) : Nat := ((log.get? index).getD []).length

theorem sizeAt_eq {e : Entry} {index : Nat} (h : log.get? index = some e) : log.sizeAt index = e.length := by
  unfold sizeAt; rw [h]; rfl

theorem get?_eq_some_of_lt (hwf : log.WF) {index : Nat} (h : index < log.count) : ∃ e, log.get? index = some e := by
  rw [← hwf.length_toList] at h
  exact ⟨log.toList[index], by rw [← hwf.getElem?_toList]; exact List.getElem?_eq_getElem h⟩

/-- What the entries before an index take, added up by index. -/
def sizeBefore (log : Log) (index : Nat) : Nat := ((List.range index).map log.sizeAt).sum

theorem sizeBefore_succ (log : Log) (index : Nat) :
    log.sizeBefore (index + 1) = log.sizeBefore index + log.sizeAt index := by
  unfold sizeBefore
  rw [List.range_succ, List.map_append, List.sum_append, List.map_singleton, List.sum_singleton]

theorem sizeBefore_mono (log : Log) {i j : Nat} (h : i ≤ j) : log.sizeBefore i ≤ log.sizeBefore j := by
  induction h with
  | refl => exact Nat.le_refl _
  | step _ ih =>
    rw [sizeBefore_succ]
    omega

theorem sizeBefore_eq (hwf : log.WF) (index : Nat) : log.sizeBefore index = totalLength (log.toList.take index) := by
  induction index with
  | zero => rfl
  | succ index ih =>
    rw [sizeBefore_succ, ih, totalLength_eq, totalLength_eq, List.take_add_one, List.flatten_append,
      List.length_append, hwf.getElem?_toList]
    unfold sizeAt
    cases log.get? index with
    | none => rfl
    | some e => simp

/-! ## Offsets of addresses -/

/-- The index of an address is looked at first, and then its byte. The offset counts what the entries before take. -/
theorem offsetOf_eq (hwf : log.WF) (a : Address) :
    log.offsetOf a =
      if a.command < log.count then
        if a.byte < log.sizeAt a.command then .ok (log.sizeBefore a.command + a.byte)
        else .error (.noSuchByte a.byte (log.sizeAt a.command))
      else .error (.noSuchCommand a.command log.count) := by
  unfold offsetOf
  by_cases hlt : a.command < log.count
  · obtain ⟨e, he⟩ := get?_eq_some_of_lt hwf hlt
    rw [if_pos hlt, he, sizeAt_eq he, sizeBefore_eq hwf]
  · have hnone : log.get? a.command = none := if_neg hlt
    rw [if_neg hlt, hnone]

theorem offsetOf_eq_ok_iff_size (hwf : log.WF) {a : Address} {offset : Nat} :
    log.offsetOf a = .ok offset ↔ a.command < log.count ∧ a.byte < log.sizeAt a.command ∧
      offset = log.sizeBefore a.command + a.byte := by
  rw [offsetOf_eq hwf]
  constructor
  · intro h
    split_ifs at h with hlt hbyte
    cases h
    exact ⟨hlt, hbyte, rfl⟩
  · rintro ⟨hlt, hbyte, rfl⟩
    rw [if_pos hlt, if_pos hbyte]

/-- An address without an offset has its index out of range, whatever its byte is, or else its byte. -/
theorem offsetOf_eq_error_iff (hwf : log.WF) {a : Address} {failure : Failure} :
    log.offsetOf a = .error failure ↔
      log.count ≤ a.command ∧ failure = .noSuchCommand a.command log.count ∨
      a.command < log.count ∧ log.sizeAt a.command ≤ a.byte ∧
        failure = .noSuchByte a.byte (log.sizeAt a.command) := by
  rw [offsetOf_eq hwf]
  constructor
  · intro h
    split_ifs at h with hlt hbyte
    · cases h
      exact Or.inr ⟨hlt, Nat.le_of_not_lt hbyte, rfl⟩
    · cases h
      exact Or.inl ⟨Nat.le_of_not_lt hlt, rfl⟩
  · rintro (⟨hge, rfl⟩ | ⟨hlt, hbyte, rfl⟩)
    · exact if_neg (Nat.not_lt.2 hge)
    · rw [if_pos hlt, if_neg (Nat.not_lt.2 hbyte)]

/-! ## The order of offsets -/

/-- The entry of an address ends before a later entry begins, so the offset of an earlier address is smaller. -/
theorem offset_lt_of_before (hwf : log.WF) {a b : Address} {x y : Nat} (ha : log.offsetOf a = .ok x)
    (hb : log.offsetOf b = .ok y) (h : a.Before b) : x < y := by
  obtain ⟨-, hbyte, rfl⟩ := (offsetOf_eq_ok_iff_size hwf).1 ha
  obtain ⟨-, -, rfl⟩ := (offsetOf_eq_ok_iff_size hwf).1 hb
  rcases h with hlt | ⟨heq, hlt⟩
  · have hends : log.sizeBefore (a.command + 1) ≤ log.sizeBefore b.command := sizeBefore_mono log hlt
    rw [sizeBefore_succ] at hends
    omega
  · rw [heq]; omega

theorem before_iff_offset_lt (hwf : log.WF) {a b : Address} {x y : Nat} (ha : log.offsetOf a = .ok x)
    (hb : log.offsetOf b = .ok y) : a.Before b ↔ x < y := by
  constructor
  · exact offset_lt_of_before hwf ha hb
  · intro h
    rcases a.before_trichotomy b with hab | rfl | hba
    · exact hab
    · rw [ha] at hb
      cases hb
      exact absurd h (Nat.lt_irrefl x)
    · have := offset_lt_of_before hwf hb ha hba
      omega

/-! ## Addresses of offsets -/

theorem locate_eq_some_iff (hwf : log.WF) {a : Address} {offset : Nat} :
    log.locate offset = some a ↔ log.offsetOf a = .ok offset := by
  unfold locate
  rw [locateFrom_eq_some_iff (Nat.zero_le _), offsetOf_eq_ok_iff hwf]
  simp only [Nat.zero_add]

theorem find?_eq_some_iff (hwf : log.WF) {e : Entry} {offset byte : Nat} :
    log.find? offset = some (e, byte) ↔
      ∃ index, log.locate offset = some ⟨index, byte⟩ ∧ log.get? index = some e := by
  unfold find? locate
  rw [findFrom_eq_some_iff (Nat.zero_le _)]
  constructor
  · rintro ⟨before, after, hl, hbyte, hoffset⟩
    refine ⟨before.length, ?_, ?_⟩
    · exact (locateFrom_eq_some_iff (Nat.zero_le _)).2 ⟨before, e, after, hl, (Nat.zero_add _).symm, hbyte, hoffset⟩
    · rw [← hwf.getElem?_toList, hl, List.getElem?_append_right (Nat.le_refl _), Nat.sub_self]
      rfl
  · rintro ⟨index, hlocate, hget⟩
    obtain ⟨before, e', after, hl, hindex, hbyte, hoffset⟩ := (locateFrom_eq_some_iff (Nat.zero_le _)).1 hlocate
    dsimp only at hindex hbyte hoffset
    rw [← hwf.getElem?_toList, hl, hindex, Nat.zero_add, List.getElem?_append_right (Nat.le_refl _), Nat.sub_self,
      List.getElem?_cons_zero] at hget
    cases hget
    exact ⟨before, after, hl, hbyte, hoffset⟩

/-- An offset has an address just if it is below the size: the entry that is found there has one. -/
theorem isSome_locate_iff (hwf : log.WF) {offset : Nat} : (log.locate offset).isSome ↔ offset < log.size := by
  rw [← Nat.not_le, ← find?_eq_none_iff]
  constructor
  · intro h hnone
    obtain ⟨⟨index, byte⟩, ha⟩ := Option.isSome_iff_exists.1 h
    obtain ⟨hlt, -⟩ := (offsetOf_eq_ok_iff_size hwf).1 ((locate_eq_some_iff hwf).1 ha)
    obtain ⟨e, he⟩ := get?_eq_some_of_lt hwf hlt
    rw [(find?_eq_some_iff hwf).2 ⟨index, ha, he⟩] at hnone
    cases hnone
  · intro h
    obtain ⟨⟨e, byte⟩, hfind⟩ := Option.ne_none_iff_exists'.1 h
    obtain ⟨index, hlocate, -⟩ := (find?_eq_some_iff hwf).1 hfind
    rw [hlocate]; rfl

/-! ## The main statement -/

/-- Addresses and offsets name the same bytes in the same order. Take any log that insertions and clearings lead to from
a new one, with entries of any size, empty ones among them. An address has an offset iff its entry is retained and has
that byte, and then the offset counts the bytes of the entries before and those before it in its own. To locate an
offset is the inverse; every offset below the size is located and no other; and the entry found at an offset is that of
its address. Of two addresses the earlier one has the smaller offset. An address fails by its index, whatever its byte
is, where no entry has it, and otherwise by its byte. -/
theorem addresses_match_offsets {capacity : Nat} {new : Log} (h : Ring.create capacity = .ok new)
    (ops : List (Ring.Op Entry)) :
    let log : Log := (new.run ops).1
    (∀ a offset, log.offsetOf a = .ok offset ↔ a.command < log.count ∧ a.byte < log.sizeAt a.command ∧
      offset = ((List.range a.command).map log.sizeAt).sum + a.byte) ∧
    (∀ a offset, log.locate offset = some a ↔ log.offsetOf a = .ok offset) ∧
    (∀ offset, (log.locate offset).isSome ↔ offset < log.size) ∧
    (∀ offset e byte, log.find? offset = some (e, byte) ↔
      ∃ index, log.locate offset = some ⟨index, byte⟩ ∧ log.get? index = some e) ∧
    (∀ a b x y, log.offsetOf a = .ok x → log.offsetOf b = .ok y → (a.Before b ↔ x < y)) ∧
    (∀ a failure, log.offsetOf a = .error failure ↔
      log.count ≤ a.command ∧ failure = .noSuchCommand a.command log.count ∨
      a.command < log.count ∧ log.sizeAt a.command ≤ a.byte ∧
        failure = .noSuchByte a.byte (log.sizeAt a.command)) := by
  intro log
  have hwf : log.WF := (Ring.queued_run h ops).wf
  refine ⟨?_, ?_, ?_, ?_, ?_, ?_⟩
  · intro a offset
    exact offsetOf_eq_ok_iff_size hwf
  · intro a offset
    exact locate_eq_some_iff hwf
  · intro offset
    exact isSome_locate_iff hwf
  · intro offset e byte
    exact find?_eq_some_iff hwf
  · intro a b x y ha hb
    exact before_iff_offset_lt hwf ha hb
  · intro a failure
    exact offsetOf_eq_error_iff hwf

/-- After an eviction, with an empty entry before the one that holds the byte. -/
theorem addresses_match_offsets_past_empty :
    let log : Log := ((Ring.empty 3 : Log).run [.insert [1], .insert [2, 10], .insert [], .insert [97, 98, 10]]).1
    (Ring.create 3 : Except Unmade Log) = .ok (Ring.empty 3) ∧ log.offsetOf ⟨2, 1⟩ = .ok 3 ∧
      log.locate 3 = some ⟨2, 1⟩ ∧ log.offsetOf ⟨1, 0⟩ = .error (.noSuchByte 0 0) ∧
      log.offsetOf ⟨3, 7⟩ = .error (.noSuchCommand 3 3) := by
  intro log
  have hnew : (Ring.create 3 : Except Unmade Log) = .ok (Ring.empty 3) := rfl
  obtain ⟨hok, hlocate, -, -, -, herror⟩ :=
    addresses_match_offsets hnew [.insert [1], .insert [2, 10], .insert [], .insert [97, 98, 10]]
  have hbyte : log.offsetOf ⟨2, 1⟩ = .ok 3 := (hok ⟨2, 1⟩ 3).2 (by decide)
  refine ⟨hnew, hbyte, (hlocate ⟨2, 1⟩ 3).2 hbyte, ?_, ?_⟩
  · exact (herror ⟨1, 0⟩ _).2 (by decide)
  · exact (herror ⟨3, 7⟩ _).2 (by decide)

end Log

end LineRing
