/-
The parting of a text at a character: at its first occurrence, at its last, or at all of them.
-/

namespace LineRing

/-- A text parted at the first occurrence of a character. -/
def splitFirst? (c : Char) : List Char → Option (List Char × List Char)
  | [] => none
  | a :: rest =>
    if a = c then some ([], rest)
    else (splitFirst? c rest).map fun (front, back) => (a :: front, back)

/-- A text parted at the last occurrence of a character. -/
def splitLast? (c : Char) (text : List Char) : Option (List Char × List Char) :=
  (splitFirst? c text.reverse).map fun (back, front) => (front.reverse, back.reverse)

/-- The parts of a text between the occurrences of a character. -/
def partsAt (c : Char) : List Char → List (List Char)
  | [] => [[]]
  | a :: rest =>
    match partsAt c rest with
    | [] => [[a]]
    | part :: parts => if a = c then [] :: part :: parts else (a :: part) :: parts

/-! ## The first occurrence -/

theorem splitFirst?_append {c : Char} {front : List Char} (h : c ∉ front) (back : List Char) :
    splitFirst? c (front ++ c :: back) = some (front, back) := by
  induction front with
  | nil => simp [splitFirst?]
  | cons a rest ih =>
    have ha : a ≠ c := fun heq => h (by simp [heq])
    rw [List.cons_append, splitFirst?, if_neg ha, ih fun hm => h (by simp [hm])]
    rfl

/-- A text is parted where the character occurs, and it does not occur before that. -/
theorem splitFirst?_eq_some_iff {c : Char} {text front back : List Char} :
    splitFirst? c text = some (front, back) ↔ text = front ++ c :: back ∧ c ∉ front := by
  refine ⟨fun h => ?_, fun ⟨h, hf⟩ => h ▸ splitFirst?_append hf back⟩
  induction text generalizing front with
  | nil => simp [splitFirst?] at h
  | cons a rest ih =>
    rw [splitFirst?] at h
    split at h
    · next ha =>
      obtain ⟨rfl, rfl⟩ : [] = front ∧ rest = back := by simpa using h
      exact ⟨by simp [ha], by simp⟩
    · next ha =>
      obtain ⟨⟨f, b⟩, hs, heq⟩ := Option.map_eq_some_iff.1 h
      obtain ⟨rfl, rfl⟩ : a :: f = front ∧ b = back := by simpa using heq
      obtain ⟨rfl, hf⟩ := ih hs
      exact ⟨rfl, by simp [hf, Ne.symm ha]⟩

end LineRing
