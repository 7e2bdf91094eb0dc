/-
Byte strings, and the cutting of one into the pieces that a reader or writer of limited buffer
size handles one at a time. The pieces of a byte string are non-empty, no longer than asked for,
and concatenate to it.
-/

namespace LineRing

/-- A byte string. -/
abbrev Bytes := List UInt8

/-- The byte that ends a command. -/
def newline : UInt8 := 10

/-- The number of bytes that byte strings have together. -/
def totalLength (l : List Bytes) : Nat := (l.map List.length).foldr (· + ·) 0

theorem totalLength_eq (l : List Bytes) : totalLength l = l.flatten.length := List.length_flatten.symm

theorem totalLength_append (l l' : List Bytes) : totalLength (l ++ l') = totalLength l + totalLength l' := by
  rw [totalLength_eq, List.flatten_append, List.length_append, ← totalLength_eq, ← totalLength_eq]

theorem totalLength_cons (b : Bytes) (l : List Bytes) : totalLength (b :: l) = b.length + totalLength l := rfl

@[simp] theorem totalLength_singleton (b : Bytes) : totalLength [b] = b.length := rfl

/-! ## Pieces -/

section Pieces

variable {α : Type}

/-- The pieces of what follows the first `skip` elements, each of `n` elements but the last. -/
def piecesAfter (n : Nat) : Nat → List α → List (List α)
  | _, [] => []
  | 0, a :: rest => (a :: rest).take n :: piecesAfter n (n - 1) rest
  | skip + 1, _ :: rest => piecesAfter n skip rest

/-- A list cut into pieces of `n` elements, or of one where `n` is zero; the last piece may be
shorter. -/
def pieces (n : Nat) (l : List α) : List (List α) := piecesAfter (max n 1) 0 l

theorem piecesAfter_eq_drop (n skip : Nat) (l : List α) :
    piecesAfter n skip l = piecesAfter n 0 (l.drop skip) := by
  induction l generalizing skip with
  | nil => simp [piecesAfter]
  | cons a rest ih =>
    cases skip with
    | zero => rfl
    | succ skip => simpa [piecesAfter] using ih skip

@[simp] theorem pieces_nil (n : Nat) : pieces n ([] : List α) = [] := rfl

theorem pieces_eq_cons (n : Nat) {l : List α} (h : l ≠ []) :
    pieces n l = l.take (max n 1) :: pieces n (l.drop (max n 1)) := by
  cases l with
  | nil => exact absurd rfl h
  | cons a rest =>
    have hn : (a :: rest).drop (max n 1) = rest.drop (max n 1 - 1) := by
      conv => lhs; rw [show max n 1 = max n 1 - 1 + 1 by omega]
      rfl
    show (a :: rest).take (max n 1) :: piecesAfter (max n 1) (max n 1 - 1) rest = _
    rw [piecesAfter_eq_drop, hn]; rfl

@[simp] theorem flatten_pieces (n : Nat) (l : List α) : (pieces n l).flatten = l := by
  induction hk : l.length using Nat.strongRecOn generalizing l with
  | ind k ih =>
    by_cases h : l = []
    · subst h; rfl
    · have hpos : 0 < l.length := List.length_pos_iff.2 h
      have hlt : (l.drop (max n 1)).length < k := by rw [List.length_drop]; omega
      rw [pieces_eq_cons n h, List.flatten_cons, ih _ hlt _ rfl, List.take_append_drop]

/-- Each piece holds at least one element and at most `n` (one where `n` is zero). -/
theorem length_of_mem_pieces {n : Nat} {l piece : List α} (h : piece ∈ pieces n l) :
    0 < piece.length ∧ piece.length ≤ max n 1 := by
  induction hk : l.length using Nat.strongRecOn generalizing l with
  | ind k ih =>
    by_cases hl : l = []
    · subst hl; simp at h
    · have hpos : 0 < l.length := List.length_pos_iff.2 hl
      rw [pieces_eq_cons n hl] at h
      rcases List.mem_cons.1 h with rfl | h
      · rw [List.length_take]; omega
      · exact ih _ (by rw [List.length_drop]; omega) h rfl

end Pieces

end LineRing
