/-
How long the message of a bad directive is. It quotes a part of the directive, and one character may be quoted by ten, each
of up to four bytes. Main statement: the message has at most forty bytes for each of the directive, and 200 more
(`utf8ByteSize_message_le`).
-/
import LineRing.Directive
import Mathlib.Algebra.GroupWithZero.Nat

namespace LineRing

/-! ## Quoted texts -/

theorem length_hexDigits_le (c : Char) : (hexDigits c.toNat).length ≤ 6 := by
  have hlt : c.toNat < 16 ^ 6 := by
    rcases c.valid with hlow | ⟨-, hhigh⟩
    · exact Nat.lt_trans hlow (by decide)
    · exact Nat.lt_trans hhigh (by decide)
  exact (Nat.length_toDigits_le_iff (by decide) (by decide)).2 hlt

theorem length_quotedChar_le (c : Char) : (quotedChar c).length ≤ 10 := by
  have hhex := length_hexDigits_le c
  unfold quotedChar
  repeat' split
  all_goals simp
  omega

theorem length_quoted_le (text : List Char) : (quoted text).length ≤ 10 * text.length + 2 := by
  have hflat : (text.flatMap quotedChar).length ≤ 10 * text.length := by
    induction text with
    | nil => exact Nat.le_refl 0
    | cons c rest ih =>
      have hc := length_quotedChar_le c
      rw [List.flatMap_cons, List.length_append, List.length_cons]
      omega
  unfold quoted
  rw [List.length_append, List.length_cons, List.length_singleton]
  omega

/-! ## Bytes and characters -/

theorem Utf8.length_encode_le (chars : List Char) : (Utf8.encode chars).length ≤ 4 * chars.length := by
  induction chars with
  | nil => exact Nat.le_refl 0
  | cons c rest ih =>
    have hc := c.utf8Size_le_four
    have hcons : Utf8.encode (c :: rest) = String.utf8EncodeChar c ++ Utf8.encode rest := rfl
    rw [hcons, List.length_append, String.length_utf8EncodeChar, List.length_cons]
    omega

theorem Utf8.length_le_encode (chars : List Char) : chars.length ≤ (Utf8.encode chars).length := by
  induction chars with
  | nil => exact Nat.le_refl 0
  | cons c rest ih =>
    have hc := c.utf8Size_pos
    have hcons : Utf8.encode (c :: rest) = String.utf8EncodeChar c ++ Utf8.encode rest := rfl
    rw [hcons, List.length_append, String.length_utf8EncodeChar, List.length_cons]
    omega

theorem utf8ByteSize_ofList_le (chars : List Char) : (String.ofList chars).utf8ByteSize ≤ 4 * chars.length := by
  have hsize : (String.ofList chars).utf8ByteSize = (Utf8.encode chars).length := by
    rw [← String.size_toByteArray, String.toByteArray_ofList, ← Utf8.encode_toByteArray, List.size_toByteArray]
  rw [hsize]
  exact Utf8.length_encode_le chars

/-! ## Messages -/

namespace Directive

theorem utf8ByteSize_noComma_le (text : List Char) :
    (DirectiveFault.noComma text).message.utf8ByteSize ≤ 40 * text.length + 200 := by
  have hquoted := utf8ByteSize_ofList_le (quoted text)
  have hlen := length_quoted_le text
  have hfront : "seek directive: expected <command>,<offset>, got ".utf8ByteSize = 49 := by decide
  show ("seek directive: expected <command>,<offset>, got " ++ String.ofList (quoted text)).utf8ByteSize ≤ _
  rw [String.utf8ByteSize_append, hfront]
  omega

theorem utf8ByteSize_badField_le (field : DirectiveField) (text : List Char) (fault : NumeralFault) :
    (DirectiveFault.badField field text fault).message.utf8ByteSize ≤ 40 * text.length + 200 := by
  have hquoted := utf8ByteSize_ofList_le (quoted text)
  have hlen := length_quoted_le text
  have hlabel : field.label.utf8ByteSize ≤ 13 := by
    cases field
    · decide
    · decide
  have hfault : fault.message.utf8ByteSize ≤ 42 := by
    cases fault
    · decide
    · decide
    · decide
  have hfront : "seek directive: invalid ".utf8ByteSize = 24 := by decide
  have hblank : " ".utf8ByteSize = 1 := by decide
  have hcolon : ": ".utf8ByteSize = 2 := by decide
  show ("seek directive: invalid " ++ field.label ++ " " ++ String.ofList (quoted text) ++ ": " ++
    fault.message).utf8ByteSize ≤ _
  simp only [String.utf8ByteSize_append, hfront, hblank, hcolon]
  omega

theorem readField_eq_error {field : DirectiveField} {text : List Char} {fault : DirectiveFault}
    (h : readField field text = .error fault) : ∃ cause, fault = .badField field text cause := by
  unfold readField at h
  split at h
  · cases h
  · cases h; exact ⟨_, rfl⟩

theorem utf8ByteSize_le_of_ofText {text : List Char} {fault : DirectiveFault} (h : ofText text = .error fault) :
    fault.message.utf8ByteSize ≤ 40 * text.length + 200 := by
  obtain ⟨run, hrun, -⟩ := dropEndWhile_append_run isLineEnd text
  have hline := congrArg List.length hrun
  rw [List.length_append] at hline
  unfold ofText at h
  dsimp only at h
  cases hsplit : splitFirst? ',' (dropEndWhile isLineEnd text) with
  | none =>
    rw [hsplit] at h
    cases h
    have hmessage := utf8ByteSize_noComma_le (dropEndWhile isLineEnd text)
    omega
  | some fields =>
    obtain ⟨command, byte⟩ := fields
    have hfields := congrArg List.length (splitFirst?_eq_some_iff.1 hsplit).1
    rw [List.length_append, List.length_cons] at hfields
    rw [hsplit] at h
    dsimp only at h
    cases hcommand : readField .command command with
    | error bad =>
      rw [hcommand] at h
      cases h
      obtain ⟨cause, rfl⟩ := readField_eq_error hcommand
      have hmessage := utf8ByteSize_badField_le .command command cause
      omega
    | ok n =>
      rw [hcommand] at h
      cases hbyte : readField .byte byte with
      | error bad =>
        rw [hbyte] at h
        cases h
        obtain ⟨cause, rfl⟩ := readField_eq_error hbyte
        have hmessage := utf8ByteSize_badField_le .byte byte cause
        omega
      | ok m =>
        rw [hbyte] at h
        cases h

/-- The message of a bad directive has at most forty bytes for each of the directive, and 200 more. -/
theorem utf8ByteSize_message_le {command : Bytes} {fault : DirectiveFault} (h : read? command = some (.error fault)) :
    fault.message.utf8ByteSize ≤ 40 * command.length + 200 := by
  unfold read? at h
  split at h
  · have hbody := Option.some.inj h
    unfold ofBody at hbody
    cases hdecode : Utf8.decode? (command.drop marker.length) with
    | none =>
      rw [hdecode] at hbody
      cases hbody
      have hsize : DirectiveFault.notText.message.utf8ByteSize ≤ 200 := by decide
      omega
    | some text =>
      rw [hdecode] at hbody
      have hmessage := utf8ByteSize_le_of_ofText hbody
      have hlen := Utf8.length_le_encode text
      rw [← Utf8.decode?_eq_some_iff.1 hdecode, List.length_drop] at hlen
      omega
  · cases h

end Directive

end LineRing
