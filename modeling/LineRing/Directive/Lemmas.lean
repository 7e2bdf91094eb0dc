/-
Laws of seek directives. Main statements: a directive reads back from the command that it is
written by, and that command is one line.
-/
import LineRing.Directive

namespace LineRing

namespace Directive

/-- What does not begin with the marker is no directive, not even a bad one. -/
theorem read?_eq_none_iff {command : Bytes} : read? command = none ↔ ¬ marker <+: command := by
  unfold read?
  rw [← List.isPrefixOf_iff_prefix]
  split
  · rename_i h; simp [h]
  · rename_i h; simp [h]

/-! ## Reading back -/

theorem readField_digits (field : DirectiveField) (n : UInt32) :
    readField field (Numeral.digits n.toNat) = .ok n := by
  have htrim : trim (Numeral.digits n.toNat) = Numeral.digits n.toNat :=
    trim_eq_self fun _ hc => isBlank_of_isDigit (Numeral.isDigit_of_mem_digits hc)
  rw [readField, htrim, Numeral.read_digits (Nat.le_sub_one_of_lt n.toNat_lt_size)]
  simp

/-- What a directive is written by, after the marker. -/
def body (d : Directive) : List Char :=
  Numeral.digits d.command.toNat ++ ',' :: Numeral.digits d.byte.toNat ++ ['\n']

theorem encode_eq (d : Directive) : d.encode = marker ++ Utf8.encode d.body := by
  have hline : Utf8.encode ['\n'] = [newline] := by decide
  have hcomma : Utf8.encode (',' :: Numeral.digits d.byte.toNat) =
      Utf8.encode [','] ++ Utf8.encode (Numeral.digits d.byte.toNat) :=
    Utf8.encode_append [','] _
  simp only [encode, body, Utf8.encode_append, hline, hcomma, List.append_assoc]

theorem dropEndWhile_isLineEnd_body (d : Directive) :
    dropEndWhile isLineEnd d.body =
      Numeral.digits d.command.toNat ++ ',' :: Numeral.digits d.byte.toNat := by
  rw [body, dropEndWhile_append _ (by simp [isLineEnd])]
  refine dropEndWhile_eq_self fun c hc => ?_
  obtain ⟨front, last, hlast⟩ := List.eq_nil_or_concat (Numeral.digits d.byte.toNat)
    |>.resolve_left Nat.toDigits_ne_nil
  have hdigit := @Numeral.isDigit_of_mem_digits d.byte.toNat last (by simp [hlast])
  rw [hlast, List.concat_eq_append, ← List.cons_append, ← List.append_assoc,
    List.getLast?_concat] at hc
  obtain rfl : last = c := by simpa using hc
  have hret : last ≠ '\r' := by rintro rfl; exact absurd hdigit (by decide)
  have hnew : last ≠ '\n' := by rintro rfl; exact absurd hdigit (by decide)
  simp [isLineEnd, hret, hnew]

theorem ofText_body (d : Directive) : ofText d.body = .ok d := by
  have hcomma : ',' ∉ Numeral.digits d.command.toNat := fun hm =>
    absurd (Numeral.isDigit_of_mem_digits hm) (by decide)
  simp only [ofText, dropEndWhile_isLineEnd_body, splitFirst?_append hcomma, readField_digits]
  rfl

/-- A directive reads back from the command that it is written by. -/
theorem read?_encode (d : Directive) : read? d.encode = some (.ok d) := by
  rw [encode_eq, read?, if_pos (by simp), List.drop_left, ofBody, Utf8.decode?_encode]
  exact congrArg some (ofText_body d)

/-! ## One line -/

/-- Each digit of a number is written by one byte. -/
theorem range_of_mem_encode_digits {n : Nat} {b : UInt8} (h : b ∈ Utf8.encode (Numeral.digits n)) :
    48 ≤ b.toNat ∧ b.toNat ≤ 57 := by
  obtain ⟨c, hc, hb⟩ := List.mem_flatMap.1 h
  obtain ⟨hlo, hhi⟩ := Char.isDigit_iff_toNat.1 (Numeral.isDigit_of_mem_digits hc)
  change 48 ≤ c.val.toNat at hlo
  change c.val.toNat ≤ 57 at hhi
  have hsize : c.utf8Size = 1 := by
    rw [Char.utf8Size_eq_one_iff, UInt32.le_iff_toNat_le]
    exact Nat.le_trans hhi (by decide)
  rw [String.utf8EncodeChar_eq_singleton hsize, List.mem_singleton] at hb
  have hn : b.toNat = c.val.toNat % 256 := congrArg UInt8.toNat hb
  omega

theorem newline_notMem_encode_digits (n : Nat) : newline ∉ Utf8.encode (Numeral.digits n) := fun h =>
  absurd (range_of_mem_encode_digits h).1 (by decide)

theorem encode_eq_line (d : Directive) : ∃ line, d.encode = line ++ [newline] ∧ newline ∉ line := by
  refine ⟨_, rfl, ?_⟩
  simp only [List.mem_append, not_or]
  exact ⟨⟨⟨by decide, newline_notMem_encode_digits _⟩, by decide⟩, newline_notMem_encode_digits _⟩

end Directive

/-! ## Requests -/

namespace Request

variable {command : Bytes}

theorem ofCommand_eq_seek_iff {d : Directive} :
    ofCommand command = .ok (.seek d) ↔ Directive.read? command = some (.ok d) := by
  unfold ofCommand
  rcases Directive.read? command with _ | (fault | d')
  · simp
  · simp
  · simp

theorem ofCommand_eq_keep_iff {content : Bytes} :
    ofCommand command = .ok (.keep content) ↔ content = command ∧ Directive.read? command = none := by
  unfold ofCommand
  rcases Directive.read? command with _ | (fault | d)
  · simp [eq_comm]
  · simp
  · simp

theorem ofCommand_eq_error_iff {fault : DirectiveFault} :
    ofCommand command = .error fault ↔ Directive.read? command = some (.error fault) := by
  unfold ofCommand
  rcases Directive.read? command with _ | (fault' | d)
  · simp
  · simp
  · simp

end Request

end LineRing
