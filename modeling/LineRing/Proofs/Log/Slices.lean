/-
The log read slice by slice. Main statements: slices that are read one after the other until none is left make up what
the log has from the offset on, whatever sizes are asked for, and each lies within one command (`ReadOut.flatten_eq`,
`ReadOut.tiles`); such a reading comes to an end (`exists_readOut`); and the slices that the log is sent in are those of
one such reading (`readOut_slicesFrom`).
-/
import LineRing.Log.Lemmas

namespace LineRing

namespace Log

/-! ## Slices and their places -/

/-- Whether a slice lies at an offset, within one command. -/
def Holds (log : Log) (offset : Nat) (slice : Bytes) : Prop :=
  ∃ a e, log.offsetOf a = .ok offset ∧ log.get? a.command = some e ∧
    e.slice? a.byte (a.byte + slice.length) = some slice

/-- Whether slices lie one after the other from an offset on, each within one command, and none of them empty or longer
than was asked for. -/
def Tiles (log : Log) (offset : Nat) (sizes : Nat → Nat) (slices : List Bytes) : Prop :=
  ∀ before slice after, slices = before ++ slice :: after →
    slice ≠ [] ∧ slice.length ≤ sizes before.length ∧ log.Holds (offset + before.flatten.length) slice

/-- Slices that are read from an offset on, one after the other, of at most these sizes, until there is none. -/
inductive ReadOut (log : Log) : Nat → (Nat → Nat) → List Bytes → Prop
  | done {offset : Nat} {sizes : Nat → Nat} (hend : log.slice? offset (sizes 0) = none) : ReadOut log offset sizes []
  | more {offset : Nat} {sizes : Nat → Nat} {slice : Bytes} {rest : List Bytes}
      (hslice : log.slice? offset (sizes 0) = some slice)
      (hrest : ReadOut log (offset + slice.length) (fun i => sizes (i + 1)) rest) :
      ReadOut log offset sizes (slice :: rest)

theorem holds_of_slice? {log : Log} (hwf : log.WF) {offset most : Nat} {slice : Bytes}
    (h : log.slice? offset most = some slice) : log.Holds offset slice := by
  obtain ⟨before, e, after, inner, hl, hin, hoff, rfl⟩ := slice?_eq_some_iff.1 h
  refine ⟨⟨before.length, inner⟩, e, (offsetOf_eq_ok_iff hwf).2 ⟨before, e, after, hl, rfl, hin, hoff⟩, ?_, ?_⟩
  · rw [← hwf.getElem?_toList, hl]; simp
  · have hle : inner + min most (e.length - inner) ≤ e.length := by omega
    simp [Entry.slice?, hle]

theorem tiles_nil (log : Log) (offset : Nat) (sizes : Nat → Nat) : log.Tiles offset sizes [] := by
  intro before slice after h
  exact absurd h (by simp)

theorem Tiles.cons {log : Log} {offset : Nat} {sizes : Nat → Nat} {slice : Bytes} {rest : List Bytes}
    (hne : slice ≠ []) (hle : slice.length ≤ sizes 0) (hholds : log.Holds offset slice)
    (hrest : log.Tiles (offset + slice.length) (fun i => sizes (i + 1)) rest) :
    log.Tiles offset sizes (slice :: rest) := by
  intro before s after h
  cases before with
  | nil =>
    obtain ⟨rfl, rfl⟩ : slice = s ∧ rest = after := by simpa using h
    exact ⟨hne, hle, hholds⟩
  | cons first before =>
    obtain ⟨rfl, hl⟩ : slice = first ∧ rest = before ++ s :: after := by simpa using h
    obtain ⟨hne', hle', hholds'⟩ := hrest before s after hl
    rw [List.flatten_cons, List.length_append, ← Nat.add_assoc]
    exact ⟨hne', hle', hholds'⟩

/-! ## Reading to the end -/

theorem ReadOut.flatten_eq {log : Log} {offset : Nat} {sizes : Nat → Nat} {slices : List Bytes}
    (h : log.ReadOut offset sizes slices) : slices.flatten = log.bytes.drop offset := by
  induction h with
  | done hend =>
    have hsize := slice?_eq_none_iff.1 hend
    rw [List.flatten_nil, List.drop_of_length_le (by rw [length_bytes]; exact hsize)]
  | more hslice _ ih =>
    obtain ⟨htake, -, -⟩ := slice?_eq_some hslice
    rw [List.flatten_cons, ih, ← List.drop_drop]
    conv => lhs; lhs; rw [htake]
    exact List.take_append_drop _ _

/-- Each slice is what is read where those before it end. -/
theorem ReadOut.slice?_eq {log : Log} {offset : Nat} {sizes : Nat → Nat} {slices : List Bytes}
    (h : log.ReadOut offset sizes slices) :
    ∀ {before after : List Bytes} {slice : Bytes}, slices = before ++ slice :: after →
      log.slice? (offset + before.flatten.length) (sizes before.length) = some slice := by
  induction h with
  | done _ =>
    intro before after slice hsplit
    exact absurd hsplit (by simp)
  | @more offset sizes first rest hslice _ ih =>
    intro before after slice hsplit
    cases before with
    | nil =>
      obtain ⟨rfl, -⟩ := List.cons.inj hsplit
      exact hslice
    | cons b before =>
      obtain ⟨rfl, hrest⟩ := List.cons.inj hsplit
      rw [List.flatten_cons, List.length_append, ← Nat.add_assoc]
      exact ih hrest

theorem ReadOut.tiles {log : Log} (hwf : log.WF) {offset : Nat} {sizes : Nat → Nat} {slices : List Bytes}
    (h : log.ReadOut offset sizes slices) (hsizes : ∀ i, 0 < sizes i) : log.Tiles offset sizes slices := by
  induction h with
  | done _ => exact tiles_nil _ _ _
  | more hslice _ ih =>
    obtain ⟨-, hle, hpos⟩ := slice?_eq_some hslice
    exact .cons (List.length_pos_iff.1 (hpos (hsizes 0))) hle (holds_of_slice? hwf hslice)
      (ih fun i => hsizes (i + 1))

/-- A slice takes a byte at least of what is left, so there is none in the end. -/
theorem exists_readOut (log : Log) (offset : Nat) {sizes : Nat → Nat} (hsizes : ∀ i, 0 < sizes i) :
    ∃ slices, log.ReadOut offset sizes slices := by
  induction hk : log.size - offset using Nat.strongRecOn generalizing offset sizes with
  | ind k ih =>
    cases hs : log.slice? offset (sizes 0) with
    | none => exact ⟨[], .done hs⟩
    | some slice =>
      have hlt : ¬ log.size ≤ offset := fun hle => by
        rw [slice?_eq_none_iff.2 hle] at hs
        cases hs
      have hpos := (slice?_eq_some hs).2.2 (hsizes 0)
      obtain ⟨rest, hrest⟩ := ih _ (by omega) (offset + slice.length) (fun i => hsizes (i + 1)) rfl
      exact ⟨slice :: rest, .more hs hrest⟩

/-! ## The slices that the log is sent in -/

theorem flatMap_pieces_entriesFrom_zero (chunk : Nat) (l : List Entry) :
    (entriesFrom 0 l).flatMap (pieces chunk) = l.flatMap (pieces chunk) := by
  induction l with
  | nil => rfl
  | cons e rest ih =>
    rw [entriesFrom]
    split
    · rw [List.drop_zero]
    · next h =>
      have hnil : e = [] := List.length_eq_zero_iff.1 (by omega)
      rw [Nat.zero_sub, ih, hnil, List.flatMap_cons, pieces_nil, List.nil_append]

/-- From a place within an entry on, the rest of the entry comes first, and then the entries after it. -/
theorem flatMap_pieces_entriesFrom (chunk : Nat) {e : Entry} {inner : Nat} (hle : inner ≤ e.length)
    (before after : List Entry) :
    (entriesFrom (before.flatten.length + inner) (before ++ e :: after)).flatMap (pieces chunk) =
      pieces chunk (e.drop inner) ++ after.flatMap (pieces chunk) := by
  induction before with
  | nil =>
    rw [List.flatten_nil, List.length_nil, Nat.zero_add, List.nil_append, entriesFrom]
    split
    · rw [List.flatMap_cons]
    · rw [Nat.sub_eq_zero_of_le hle, flatMap_pieces_entriesFrom_zero, List.drop_of_length_le (by omega), pieces_nil,
        List.nil_append]
  | cons b before ih =>
    have hskip : (b :: before).flatten.length + inner = b.length + (before.flatten.length + inner) := by
      rw [List.flatten_cons, List.length_append, Nat.add_assoc]
    rw [hskip, List.cons_append, entriesFrom, if_neg (by omega), Nat.add_sub_cancel_left, ih]

theorem slicesFrom_eq (log : Log) (offset chunk : Nat) :
    log.slicesFrom offset chunk =
      match log.slice? offset (max chunk 1) with
      | none => []
      | some slice => slice :: log.slicesFrom (offset + slice.length) chunk := by
  cases hs : log.slice? offset (max chunk 1) with
  | none =>
    refine List.eq_nil_iff_forall_not_mem.2 fun slice hmem => ?_
    have hle : (log.slicesFrom offset chunk).flatten.length = 0 := by
      have hsize := slice?_eq_none_iff.1 hs
      rw [flatten_slicesFrom, List.length_drop, length_bytes]; omega
    have hpos := (length_of_mem_slicesFrom hmem).1
    rw [List.length_eq_zero_iff, List.flatten_eq_nil_iff] at hle
    rw [hle slice hmem] at hpos
    exact absurd hpos (Nat.lt_irrefl 0)
  | some slice =>
    obtain ⟨before, e, after, inner, hl, hin, hoff, hslice⟩ := slice?_eq_some_iff.1 hs
    have hlen : slice.length = min (max chunk 1) (e.length - inner) := by
      rw [hslice, List.length_take, List.length_drop]
    have hnext : (e.drop inner).drop (max chunk 1) = e.drop (inner + slice.length) := by
      rw [List.drop_drop, hlen]
      rcases Nat.le_total (max chunk 1) (e.length - inner) with h | h
      · rw [Nat.min_eq_left h]
      · rw [List.drop_of_length_le (by omega), List.drop_of_length_le (by omega)]
    have hne : e.drop inner ≠ [] := List.length_pos_iff.1 (by rw [List.length_drop]; omega)
    calc log.slicesFrom offset chunk
        = pieces chunk (e.drop inner) ++ after.flatMap (pieces chunk) := by
          rw [slicesFrom, hl, hoff, flatMap_pieces_entriesFrom chunk (Nat.le_of_lt hin)]
      _ = slice :: (pieces chunk (e.drop (inner + slice.length)) ++ after.flatMap (pieces chunk)) := by
          rw [pieces_eq_cons chunk hne, hnext, ← hslice, List.cons_append]
      _ = slice :: log.slicesFrom (offset + slice.length) chunk := by
          rw [slicesFrom, hl, hoff, Nat.add_assoc, flatMap_pieces_entriesFrom chunk (by omega)]

theorem readOut_slicesFrom (log : Log) (offset chunk : Nat) :
    log.ReadOut offset (fun _ => max chunk 1) (log.slicesFrom offset chunk) := by
  obtain ⟨slices, hread⟩ : ∃ slices, log.ReadOut offset (fun _ => max chunk 1) slices :=
    log.exists_readOut offset fun _ => by omega
  have heq : ∀ {offset : Nat} {sizes : Nat → Nat} {slices : List Bytes}, log.ReadOut offset sizes slices →
      (∀ i, sizes i = max chunk 1) → log.slicesFrom offset chunk = slices := by
    intro offset sizes slices h
    induction h with
    | done hend =>
      intro hsizes
      rw [hsizes 0] at hend
      rw [slicesFrom_eq, hend]
    | more hslice _ ih =>
      intro hsizes
      rw [hsizes 0] at hslice
      rw [slicesFrom_eq, hslice]
      exact congrArg _ (ih fun i => hsizes (i + 1))
  rw [heq hread fun _ => rfl]
  exact hread

end Log

end LineRing
