/-
Blank characters (the Unicode property White_Space) and the trimming of a text at both ends.
Main statement: trimming takes off a run of blanks at each end and stops at characters that are
not blank.
-/
import LineRing.Text.CodeRange

namespace LineRing

/-- The code points with the property White_Space. -/
def blankRanges : CodeRanges :=
  [(0x9, 0xd), (0x20, 0x20), (0x85, 0x85), (0xa0, 0xa0), (0x1680, 0x1680), (0x2000, 0x200a),
  (0x2028, 0x2029), (0x202f, 0x202f), (0x205f, 0x205f), (0x3000, 0x3000)]

/-- Whether a character is blank. -/
def isBlank (c : Char) : Bool := blankRanges.holds c

/-- A text without the characters at its end that satisfy `p`. -/
def dropEndWhile (p : Char → Bool) (text : List Char) : List Char :=
  (text.reverse.dropWhile p).reverse

/-- A text without the blanks at its two ends. -/
def trim (text : List Char) : List Char := dropEndWhile isBlank (text.dropWhile isBlank)

/-- What is taken off the end satisfies `p`. -/
theorem dropEndWhile_append_run (p : Char → Bool) (text : List Char) :
    ∃ run, text = dropEndWhile p text ++ run ∧ ∀ c ∈ run, p c = true := by
  refine ⟨(text.reverse.takeWhile p).reverse, ?_, fun c hc => ?_⟩
  · rw [dropEndWhile, ← List.reverse_append, List.takeWhile_append_dropWhile, List.reverse_reverse]
  · exact List.all_eq_true.1 List.all_takeWhile c (List.mem_reverse.1 hc)

/-- A run of such characters more or less at the end makes no difference. -/
theorem dropEndWhile_append {p : Char → Bool} (text : List Char) {run : List Char}
    (h : ∀ c ∈ run, p c = true) : dropEndWhile p (text ++ run) = dropEndWhile p text := by
  rw [dropEndWhile, dropEndWhile, List.reverse_append,
    List.dropWhile_append_of_pos fun c hc => h c (List.mem_reverse.1 hc)]

theorem dropEndWhile_eq_self {p : Char → Bool} {text : List Char}
    (h : ∀ c ∈ text.getLast?, p c = false) : dropEndWhile p text = text := by
  rcases List.eq_nil_or_concat text with rfl | ⟨front, c, rfl⟩
  · rfl
  · have hc : p c = false := h c (by simp)
    simp [dropEndWhile, hc]

/-- The run ends at the last character that does not satisfy `p`. -/
theorem dropEndWhile_append_cons {p : Char → Bool} (front : List Char) {c : Char} (h : p c = false) (back : List Char) :
    dropEndWhile p (front ++ c :: back) = front ++ c :: dropEndWhile p back := by
  have hstop : (c :: front.reverse).dropWhile p = c :: front.reverse := List.dropWhile_cons_of_neg (by simp [h])
  have hrun : (back.reverse ++ c :: front.reverse).dropWhile p = back.reverse.dropWhile p ++ c :: front.reverse := by
    rw [List.dropWhile_append, hstop]
    split
    · next hall => rw [List.isEmpty_iff.1 hall, List.nil_append]
    · rfl
  simp [dropEndWhile, hrun]

theorem trim_eq_self {text : List Char} (h : ∀ c ∈ text, isBlank c = false) : trim text = text := by
  have hfront : text.dropWhile isBlank = text := by
    cases text with
    | nil => rfl
    | cons c rest => rw [List.dropWhile_cons_of_neg (by simp [h c (by simp)])]
  rw [trim, hfront]
  exact dropEndWhile_eq_self fun c hc => h c (List.mem_of_mem_getLast? hc)

/-- Trimming takes off blanks only. -/
theorem exists_append_trim_append (text : List Char) :
    ∃ front back, text = front ++ trim text ++ back ∧ (∀ c ∈ front, isBlank c = true) ∧
      ∀ c ∈ back, isBlank c = true := by
  obtain ⟨back, hback, hrun⟩ := dropEndWhile_append_run isBlank (text.dropWhile isBlank)
  refine ⟨text.takeWhile isBlank, back, ?_, fun c hc => List.all_eq_true.1 List.all_takeWhile c hc, hrun⟩
  rw [trim, List.append_assoc, ← hback, List.takeWhile_append_dropWhile]

theorem trim_append_left {run : List Char} (h : ∀ c ∈ run, isBlank c = true) (text : List Char) :
    trim (run ++ text) = trim text := by
  rw [trim, trim, List.dropWhile_append_of_pos h]

theorem trim_append_right {run : List Char} (h : ∀ c ∈ run, isBlank c = true) (text : List Char) :
    trim (text ++ run) = trim text := by
  have hall : run.dropWhile isBlank = [] := by
    rw [← List.append_nil run, List.dropWhile_append_of_pos h]; rfl
  rw [trim, trim, List.dropWhile_append]
  split
  · next hblank => rw [hall, List.isEmpty_iff.1 hblank]
  · exact dropEndWhile_append _ h

theorem isBlank_of_isDigit {c : Char} (h : c.isDigit = true) : isBlank c = false := by
  simp only [Char.isDigit, Bool.and_eq_true, decide_eq_true_eq] at h
  have hlow : 48 ≤ c.toNat := UInt32.le_iff_toNat_le.1 h.1
  have hhigh : c.toNat ≤ 57 := UInt32.le_iff_toNat_le.1 h.2
  have hout : ∀ r ∈ blankRanges, r.2 < 48 ∨ 57 < r.1 := by decide
  refine List.any_eq_false.2 fun r hr => ?_
  have := hout r hr
  simp only [Bool.and_eq_true, decide_eq_true_eq]
  omega

end LineRing
