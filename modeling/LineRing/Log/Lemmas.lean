/-
Laws of the log as one byte string. What is read or sent from an offset on is what `Log.bytes` has
there, and an offset and an address are two names of one place.
-/
import LineRing.Log
import LineRing.Ring.Lemmas

namespace LineRing

namespace Log

/-! ## Bytes and sizes -/

@[simp] theorem length_bytes (log : Log) : log.bytes.length = log.size := (totalLength_eq log.toList).symm

theorem length_le_totalLength {l : List Bytes} (h : ∀ b ∈ l, b ≠ []) : l.length ≤ totalLength l := by
  induction l with
  | nil => exact Nat.le_refl 0
  | cons b rest ih =>
    obtain ⟨hb, hrest⟩ := List.forall_mem_cons.1 h
    have hpos := List.length_pos_iff.2 hb
    have hle := ih hrest
    rw [totalLength_eq] at hle ⊢
    rw [List.length_cons, List.flatten_cons, List.length_append]
    omega

/-! ## Slices -/

theorem flatten_entriesFrom (skip : Nat) (l : List Entry) :
    (entriesFrom skip l).flatten = l.flatten.drop skip := by
  induction l generalizing skip with
  | nil => simp [entriesFrom]
  | cons e rest ih =>
    rw [entriesFrom, List.flatten_cons]
    split
    · next h => rw [List.flatten_cons, List.drop_append_of_le_length (Nat.le_of_lt h)]
    · next h =>
      rw [ih, List.drop_append, List.drop_of_length_le (Nat.le_of_not_lt h), List.nil_append]

theorem flatten_flatMap_pieces (chunk : Nat) (l : List Bytes) :
    (l.flatMap (pieces chunk)).flatten = l.flatten := by
  induction l with
  | nil => rfl
  | cons e rest ih => simp [ih]

/-- The slices that the log is sent in make up what it has from the offset on. -/
@[simp] theorem flatten_slicesFrom (log : Log) (offset chunk : Nat) :
    (log.slicesFrom offset chunk).flatten = log.bytes.drop offset := by
  rw [slicesFrom, flatten_flatMap_pieces, flatten_entriesFrom, bytes]

/-- Each slice holds a byte, and no more than `chunk` bytes where `chunk` is not zero. -/
theorem length_of_mem_slicesFrom {log : Log} {offset chunk : Nat} {slice : Bytes}
    (h : slice ∈ log.slicesFrom offset chunk) : 0 < slice.length ∧ slice.length ≤ max chunk 1 := by
  obtain ⟨e, _, he⟩ := List.mem_flatMap.1 h
  exact length_of_mem_pieces he

/-! ## Places -/

/-- Where an offset is found: after whole entries that come before, within the entry found. -/
theorem findFrom_eq_some_iff {l : List Entry} {start offset : Nat} {e : Entry} {inner : Nat}
    (hs : start ≤ offset) : findFrom start l offset = some (e, inner) ↔
      ∃ before after, l = before ++ e :: after ∧ inner < e.length ∧
        offset = start + before.flatten.length + inner := by
  induction l generalizing start with
  | nil => simp [findFrom]
  | cons first rest ih =>
    rw [findFrom]
    split
    · next h =>
      constructor
      · intro heq
        obtain ⟨rfl, rfl⟩ : first = e ∧ offset - start = inner := by simpa using heq
        exact ⟨[], rest, rfl, by omega, by simp; omega⟩
      · rintro ⟨before, after, hl, hin, hoff⟩
        cases before with
        | nil =>
          obtain ⟨rfl, rfl⟩ : first = e ∧ rest = after := by simpa using hl
          simp at hoff; simp; omega
        | cons b before =>
          obtain ⟨rfl, rfl⟩ : first = b ∧ rest = before ++ e :: after := by simpa using hl
          rw [List.flatten_cons, List.length_append] at hoff; omega
    · next h =>
      rw [ih (by omega)]
      constructor
      · rintro ⟨before, after, rfl, hin, hoff⟩
        exact ⟨first :: before, after, rfl, hin, by rw [List.flatten_cons, List.length_append]; omega⟩
      · rintro ⟨before, after, hl, hin, hoff⟩
        cases before with
        | nil =>
          obtain ⟨rfl, rfl⟩ : first = e ∧ rest = after := by simpa using hl
          simp at hoff; omega
        | cons b before =>
          obtain ⟨rfl, rfl⟩ : first = b ∧ rest = before ++ e :: after := by simpa using hl
          exact ⟨before, after, rfl, hin, by rw [List.flatten_cons, List.length_append] at hoff; omega⟩

/-- The address of an offset counts the entries that come before. -/
theorem locateFrom_eq_some_iff {l : List Entry} {index start offset : Nat} {a : Address}
    (hs : start ≤ offset) : locateFrom index start l offset = some a ↔
      ∃ before e after, l = before ++ e :: after ∧ a.command = index + before.length ∧
        a.byte < e.length ∧ offset = start + before.flatten.length + a.byte := by
  induction l generalizing index start with
  | nil => simp [locateFrom]
  | cons first rest ih =>
    obtain ⟨command, byte⟩ := a
    rw [locateFrom]
    split
    · next h =>
      constructor
      · intro heq
        obtain ⟨rfl, rfl⟩ : index = command ∧ offset - start = byte := by simpa using heq
        exact ⟨[], first, rest, rfl, rfl, by simp; omega, by simp; omega⟩
      · rintro ⟨before, e, after, hl, hcommand, hbyte, hoff⟩
        cases before with
        | nil => simp at hoff hcommand; simp; omega
        | cons b before =>
          obtain ⟨rfl, rfl⟩ : first = b ∧ rest = before ++ e :: after := by simpa using hl
          rw [List.flatten_cons, List.length_append] at hoff; omega
    · next h =>
      rw [ih (by omega)]
      constructor
      · rintro ⟨before, e, after, rfl, hcommand, hbyte, hoff⟩
        exact ⟨first :: before, e, after, rfl, by rw [List.length_cons]; omega, hbyte,
          by rw [List.flatten_cons, List.length_append]; omega⟩
      · rintro ⟨before, e, after, hl, hcommand, hbyte, hoff⟩
        cases before with
        | nil =>
          obtain ⟨rfl, rfl⟩ : first = e ∧ rest = after := by simpa using hl
          simp at hoff hbyte; omega
        | cons b before =>
          obtain ⟨rfl, rfl⟩ : first = b ∧ rest = before ++ e :: after := by simpa using hl
          exact ⟨before, e, after, rfl, by rw [List.length_cons] at hcommand; omega, hbyte,
            by rw [List.flatten_cons, List.length_append] at hoff; omega⟩

/-- The offset of an address is past whole entries, as many as the address says, within the one that comes next. -/
theorem offsetOf_eq_ok_iff {log : Log} (hwf : log.WF) {a : Address} {offset : Nat} :
    log.offsetOf a = .ok offset ↔
      ∃ before e after, log.toList = before ++ e :: after ∧ a.command = before.length ∧
        a.byte < e.length ∧ offset = before.flatten.length + a.byte := by
  unfold offsetOf
  rw [← hwf.getElem?_toList]
  constructor
  · intro h
    cases he : log.toList[a.command]? with
    | none => rw [he] at h; cases h
    | some e =>
      obtain ⟨hi, rfl⟩ := List.getElem?_eq_some_iff.1 he
      rw [he] at h
      dsimp only at h
      split at h
      · next hbyte =>
        cases h
        refine ⟨log.toList.take a.command, _, log.toList.drop (a.command + 1), ?_, ?_, hbyte, ?_⟩
        · rw [List.getElem_cons_drop, List.take_append_drop]
        · rw [List.length_take]; omega
        · rw [totalLength_eq]
      · cases h
  · rintro ⟨before, e, after, hl, hcommand, hbyte, rfl⟩
    rw [hl, hcommand, List.getElem?_append_right (Nat.le_refl _), Nat.sub_self, List.getElem?_cons_zero]
    simp only [hbyte, if_true, List.take_left, totalLength_eq]

theorem offsetOf_lt_size {log : Log} (hwf : log.WF) {a : Address} {offset : Nat} (h : log.offsetOf a = .ok offset) :
    offset < log.size := by
  obtain ⟨before, e, after, hl, -, hbyte, rfl⟩ := (offsetOf_eq_ok_iff hwf).1 h
  rw [← length_bytes, bytes, hl, List.flatten_append, List.flatten_cons, List.length_append, List.length_append]
  omega

/-- Whatever is found at an offset, the log has from there on what is left of the entry first. -/
theorem prefix_of_find?_eq_some {log : Log} {offset inner : Nat} {e : Entry}
    (h : log.find? offset = some (e, inner)) :
    inner < e.length ∧ ∃ rest, log.bytes.drop offset = e.drop inner ++ rest := by
  obtain ⟨before, after, hl, hin, hoff⟩ := (findFrom_eq_some_iff (Nat.zero_le _)).1 h
  refine ⟨hin, after.flatten, ?_⟩
  have hdrop : offset - before.flatten.length = inner := by omega
  rw [bytes, hl, List.flatten_append, List.flatten_cons, List.drop_append,
    List.drop_of_length_le (by omega), List.nil_append, hdrop,
    List.drop_append_of_le_length (Nat.le_of_lt hin)]

theorem findFrom_eq_none_iff {l : List Entry} {start offset : Nat} (hs : start ≤ offset) :
    findFrom start l offset = none ↔ start + l.flatten.length ≤ offset := by
  induction l generalizing start with
  | nil => simpa [findFrom] using hs
  | cons first rest ih =>
    rw [findFrom, List.flatten_cons, List.length_append]
    split
    · next h => simp; omega
    · next h => rw [ih (by omega)]; omega

theorem find?_eq_none_iff {log : Log} {offset : Nat} :
    log.find? offset = none ↔ log.size ≤ offset := by
  rw [find?, findFrom_eq_none_iff (Nat.zero_le _), Nat.zero_add, ← length_bytes, bytes]

theorem slice?_eq_none_iff {log : Log} {offset most : Nat} :
    log.slice? offset most = none ↔ log.size ≤ offset := by
  rw [slice?, Option.map_eq_none_iff, find?_eq_none_iff]

/-- A slice is what an entry has from a place within it on, as far as it goes. -/
theorem slice?_eq_some_iff {log : Log} {offset most : Nat} {slice : Bytes} :
    log.slice? offset most = some slice ↔
      ∃ before e after inner, log.toList = before ++ e :: after ∧ inner < e.length ∧
        offset = before.flatten.length + inner ∧ slice = (e.drop inner).take most := by
  have htake : ∀ (e : Entry) (inner : Nat),
      (e.drop inner).take (min most (e.length - inner)) = (e.drop inner).take most := by
    intro e inner
    rw [← List.length_drop, ← List.take_eq_take_min]
  unfold slice? find?
  rw [Option.map_eq_some_iff]
  constructor
  · rintro ⟨⟨e, inner⟩, hfind, rfl⟩
    obtain ⟨before, after, hl, hin, hoff⟩ := (findFrom_eq_some_iff (Nat.zero_le _)).1 hfind
    rw [Nat.zero_add] at hoff
    exact ⟨before, e, after, inner, hl, hin, hoff, htake e inner⟩
  · rintro ⟨before, e, after, inner, hl, hin, hoff, rfl⟩
    refine ⟨(e, inner), (findFrom_eq_some_iff (Nat.zero_le _)).2 ⟨before, after, hl, hin, ?_⟩, htake e inner⟩
    rw [Nat.zero_add]; exact hoff

/-- A slice is what the log has from the offset on, and empty only if no byte was asked for. -/
theorem slice?_eq_some {log : Log} {offset most : Nat} {slice : Bytes}
    (h : log.slice? offset most = some slice) :
    slice = (log.bytes.drop offset).take slice.length ∧ slice.length ≤ most ∧
      (0 < most → 0 < slice.length) := by
  obtain ⟨⟨e, inner⟩, hfind, rfl⟩ := Option.map_eq_some_iff.1 h
  obtain ⟨hin, rest, hrest⟩ := prefix_of_find?_eq_some hfind
  have hlen : ((e.drop inner).take (min most (e.length - inner))).length =
      min most (e.length - inner) := by simp [List.length_take, List.length_drop]
  refine ⟨?_, ?_, ?_⟩ <;> dsimp only <;> rw [hlen]
  · rw [hrest, List.take_append_of_le_length (by rw [List.length_drop]; omega)]
  · omega
  · omega

theorem prefix_of_slice? {log : Log} {offset most : Nat} {slice : Bytes} (h : log.slice? offset most = some slice) :
    slice <+: log.bytes.drop offset := by
  rw [(slice?_eq_some h).1]
  exact List.take_prefix _ _

end Log

end LineRing
