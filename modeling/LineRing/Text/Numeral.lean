/-
Unsigned decimal numerals of a bounded range: an optional plus sign, then digits, leading zeros
allowed. A text is read from left to right and the first fault in it is reported. Main statement:
the numeral that a number is written by reads back.
-/

namespace LineRing

/-- What is wrong with the text of a number. -/
inductive NumeralFault where
  /-- There is no text. -/
  | empty
  /-- A character is not a digit, or a sign stands alone. -/
  | invalidDigit
  /-- The digits so far exceed the range. -/
  | tooLarge
  deriving DecidableEq, Repr

/-- The text of the fault. -/
def NumeralFault.message : NumeralFault → String
  | empty => "cannot parse integer from empty string"
  | invalidDigit => "invalid digit found in string"
  | tooLarge => "number too large to fit in target type"

namespace Numeral

/-- The decimal digits of a number. -/
def digits (n : Nat) : List Char := Nat.toDigits 10 n

/-- The number that the digits read so far and these spell, as long as it stays within `bound`. -/
def readDigits (bound : Nat) : (soFar : Nat) → List Char → Except NumeralFault Nat
  | soFar, [] => .ok soFar
  | soFar, c :: rest =>
    if c.isDigit then
      let next := 10 * soFar + (c.toNat - '0'.toNat)
      if next ≤ bound then readDigits bound next rest else .error .tooLarge
    else .error .invalidDigit

/-- The number up to `bound` that a text spells. -/
def read (bound : Nat) (text : List Char) : Except NumeralFault Nat :=
  match text with
  | [] => .error .empty
  | ['+'] => .error .invalidDigit
  | '+' :: rest => readDigits bound 0 rest
  | text => readDigits bound 0 text

/-! ## Other bases -/

/-- The value of a digit; letters of either case go on from ten. -/
def digitValue (c : Char) : Nat :=
  if c.isDigit then c.toNat - '0'.toNat else c.toLower.toNat - 'a'.toNat + 10

/-- Whether a character is a digit of a base. -/
def isDigitOf (base : Nat) (c : Char) : Bool := c.isAlphanum && digitValue c < base

/-- The number that a text of digits of a base spells, however large. -/
def ofBase? (base : Nat) (text : List Char) : Option Nat :=
  if text ≠ [] ∧ text.all (isDigitOf base) then
    some (text.foldl (fun soFar c => base * soFar + digitValue c) 0)
  else none

/-! ## Reading back -/

theorem le_ofDigitChars (text : List Char) (soFar : Nat) :
    soFar ≤ Nat.ofDigitChars 10 text soFar := by
  rw [Nat.ofDigitChars_eq_ofDigitChars_zero]
  exact Nat.le_trans (Nat.le_mul_of_pos_left _ (Nat.pow_pos (by decide))) (Nat.le_add_right _ _)

/-- Digits within the bound spell their value. -/
theorem readDigits_eq_ok {bound : Nat} {text : List Char} {soFar : Nat}
    (hd : ∀ c ∈ text, c.isDigit = true) (hb : Nat.ofDigitChars 10 text soFar ≤ bound) :
    readDigits bound soFar text = .ok (Nat.ofDigitChars 10 text soFar) := by
  induction text generalizing soFar with
  | nil => rfl
  | cons c rest ih =>
    rw [Nat.ofDigitChars_cons] at hb ⊢
    have hc : c.isDigit = true := hd c (by simp)
    have hle : 10 * soFar + (c.toNat - '0'.toNat) ≤ bound := Nat.le_trans (le_ofDigitChars _ _) hb
    simp only [readDigits, hc, if_true, hle]
    exact ih (fun d hm => hd d (by simp [hm])) hb

theorem isDigit_of_mem_digits {n : Nat} {c : Char} (h : c ∈ digits n) : c.isDigit = true :=
  Nat.isDigit_of_mem_toDigits (by decide) (by decide) h

theorem ofDigitChars_digits (n : Nat) : Nat.ofDigitChars 10 (digits n) 0 = n := Nat.ofDigitChars_ten_toDigits

theorem read_digits {bound n : Nat} (h : n ≤ bound) : read bound (digits n) = .ok n := by
  have hd : ∀ c ∈ digits n, c.isDigit = true := fun _ => isDigit_of_mem_digits
  have hv := ofDigitChars_digits n
  have hread : readDigits bound 0 (digits n) = .ok n := by
    rw [readDigits_eq_ok hd (by omega), hv]
  have hne : digits n ≠ [] := Nat.toDigits_ne_nil
  unfold read
  split
  · next h0 => exact absurd h0 hne
  · next h1 => exact absurd (hd '+' (by simp [h1])) (by decide)
  · next h2 => exact absurd (hd '+' (by simp [h2])) (by decide)
  · exact hread

end Numeral

end LineRing
