/-
Canonical directives. A numeral is shortest if it is digits without a leading zero, and a command is canonical if it is
the marker, two shortest numerals with a comma between them and a newline. Main statement: a directive reads back from
the command that it is written by, which is one line of ASCII, and the one canonical command among all that are read as
the same directive (`encode_canonical_inverse`).
-/
import LineRing.Directive.Lemmas

namespace LineRing

/-! ## Shortest numerals -/

namespace Numeral

/-- Whether a text is digits, with no zero before others. -/
structure IsShortest (text : List Char) : Prop where
  ne_nil : text ≠ []
  isDigit : ∀ c ∈ text, c.isDigit = true
  eq_zero : text.head? = some '0' → text = ['0']

/-- A digit is what its value is written by. -/
theorem digits_digit {c : Char} (h : c.isDigit = true) :
    c.toNat - '0'.toNat < 10 ∧ digits (c.toNat - '0'.toNat) = [c] := by
  obtain ⟨hlo, hhi⟩ := Char.isDigit_iff_toNat.1 h
  change 48 ≤ c.toNat at hlo
  change c.toNat ≤ 57 at hhi
  have hlt : c.toNat - 48 < 10 := by omega
  refine ⟨hlt, ?_⟩
  have hchar : (c.toNat - 48).digitChar = c := by
    apply Char.toNat_inj.1
    rw [Nat.toNat_digitChar_of_lt_ten hlt]
    omega
  show Nat.toDigits 10 (c.toNat - 48) = [c]
  rw [Nat.toDigits_of_lt_base hlt, hchar]

/-- Digits after those of a number that is not zero go on with it. -/
theorem digits_append {text : List Char} (hdigits : ∀ c ∈ text, c.isDigit = true) {n : Nat} (hpos : 0 < n) :
    digits n ++ text = digits (Nat.ofDigitChars 10 text n) := by
  induction text generalizing n with
  | nil => exact List.append_nil _
  | cons c rest ih =>
    obtain ⟨hc, hrest⟩ := List.forall_mem_cons.1 hdigits
    obtain ⟨hlt, hself⟩ := digits_digit hc
    calc digits n ++ c :: rest
        = digits n ++ digits (c.toNat - '0'.toNat) ++ rest := by
          rw [hself, List.append_assoc, List.singleton_append]
      _ = digits (10 * n + (c.toNat - '0'.toNat)) ++ rest :=
          congrArg (· ++ rest) (Nat.toDigits_append_toDigits (by decide) hpos hlt)
      _ = digits (Nat.ofDigitChars 10 (c :: rest) n) := by
          rw [ih hrest (by omega), Nat.ofDigitChars_cons]

/-- A shortest numeral is what its value is written by. -/
theorem IsShortest.digits_value {text : List Char} (h : IsShortest text) :
    digits (Nat.ofDigitChars 10 text 0) = text := by
  cases text with
  | nil => exact absurd rfl h.ne_nil
  | cons c rest =>
    by_cases hzero : c = '0'
    · rw [h.eq_zero (congrArg some hzero)]
      rfl
    · obtain ⟨hc, hrest⟩ := List.forall_mem_cons.1 h.isDigit
      have hpos : 0 < c.toNat - '0'.toNat := by
        have hlo := (Char.isDigit_iff_toNat.1 hc).1
        have hne : c.toNat ≠ '0'.toNat := mt Char.toNat_inj.1 hzero
        omega
      rw [Nat.ofDigitChars_cons, Nat.mul_zero, Nat.zero_add, ← digits_append hrest hpos, (digits_digit hc).2,
        List.singleton_append]

theorem isShortest_digits (n : Nat) : IsShortest (digits n) := by
  refine ⟨Nat.toDigits_ne_nil, fun _ => isDigit_of_mem_digits, ?_⟩
  -- a number of several digits begins as its tenth does
  induction n using Nat.strongRecOn with
  | ind n ih =>
    intro hhead
    rcases Nat.lt_or_ge n 10 with hlt | hge
    · have hone : digits n = [n.digitChar] := Nat.toDigits_of_lt_base hlt
      rw [hone] at hhead ⊢
      rw [Option.some.inj hhead]
    · have hmore : digits n = digits (n / 10) ++ [(n % 10).digitChar] := Nat.toDigits_of_base_le (by decide) hge
      have htenth : (digits (n / 10)).head? = some '0' := by
        cases hdigits : digits (n / 10) with
        | nil => exact absurd hdigits Nat.toDigits_ne_nil
        | cons d rest =>
          rw [hmore, hdigits] at hhead
          exact hhead
      have hzero := ofDigitChars_digits (n / 10)
      rw [ih (n / 10) (by omega) htenth] at hzero
      change 0 = n / 10 at hzero
      omega

end Numeral

namespace Directive

/-! ## Canonical commands -/

/-- Whether a command is the marker, two shortest numerals that are within the range with a comma between them, and a
newline. -/
def IsCanonical (command : Bytes) : Prop :=
  ∃ first second, command = marker ++ Utf8.encode (first ++ ',' :: second ++ ['\n']) ∧ Numeral.IsShortest first ∧
    Numeral.IsShortest second ∧ Nat.ofDigitChars 10 first 0 < UInt32.size ∧ Nat.ofDigitChars 10 second 0 < UInt32.size

/-- A command is canonical just if a directive is written by it. -/
theorem isCanonical_iff {command : Bytes} : IsCanonical command ↔ ∃ d, command = encode d := by
  constructor
  · rintro ⟨first, second, rfl, hfirst, hsecond, hlt, hlt'⟩
    refine ⟨⟨.ofNat (Nat.ofDigitChars 10 first 0), .ofNat (Nat.ofDigitChars 10 second 0)⟩, ?_⟩
    rw [encode_eq, body]
    dsimp only
    rw [UInt32.toNat_ofNat_of_lt' hlt, UInt32.toNat_ofNat_of_lt' hlt', hfirst.digits_value, hsecond.digits_value]
  · rintro ⟨d, rfl⟩
    refine ⟨_, _, d.encode_eq, Numeral.isShortest_digits _, Numeral.isShortest_digits _, ?_, ?_⟩
    · rw [Numeral.ofDigitChars_digits]
      exact d.command.toNat_lt_size
    · rw [Numeral.ofDigitChars_digits]
      exact d.byte.toNat_lt_size

theorem encode_injective : Function.Injective encode := by
  intro d e h
  have hread := d.read?_encode
  rw [h, e.read?_encode] at hread
  exact (Except.ok.inj (Option.some.inj hread)).symm

/-- The only canonical command that is read as a directive is the one that the directive is written by. -/
theorem IsCanonical.eq_encode {command : Bytes} {d : Directive} (h : IsCanonical command)
    (hread : read? command = some (.ok d)) : command = d.encode := by
  obtain ⟨e, rfl⟩ := isCanonical_iff.1 h
  rw [e.read?_encode] at hread
  rw [Except.ok.inj (Option.some.inj hread)]

theorem encode_ascii (d : Directive) : ∀ b ∈ d.encode, b.toNat < 128 := by
  intro b hb
  simp only [encode, List.mem_append] at hb
  rcases hb with (((hmarker | hcommand) | hcomma) | hbyte) | hline
  · have hall : ∀ b ∈ marker, b.toNat < 128 := by decide +kernel
    exact hall b hmarker
  · exact Nat.lt_of_le_of_lt (range_of_mem_encode_digits hcommand).2 (by decide)
  · have hall : ∀ b ∈ Utf8.encode [','], b.toNat < 128 := by decide +kernel
    exact hall b hcomma
  · exact Nat.lt_of_le_of_lt (range_of_mem_encode_digits hbyte).2 (by decide)
  · rw [List.mem_singleton.1 hline]
    decide

/-! ## The main statement -/

/-- A directive reads back from the command that it is written by, and that is one line of ASCII. Different directives
are written by different commands. So writing again what was read of any command gives a canonical command that is read
as the same directive, and it gives the command itself just if that is canonical. -/
theorem encode_canonical_inverse :
    (∀ d : Directive, read? d.encode = some (.ok d) ∧ (∀ b ∈ d.encode, b.toNat < 128) ∧
      ∃ line, d.encode = line ++ [newline] ∧ newline ∉ line) ∧
    Function.Injective encode ∧
    ∀ command d, read? command = some (.ok d) →
      IsCanonical d.encode ∧ read? d.encode = some (.ok d) ∧ (IsCanonical command ↔ command = d.encode) := by
  refine ⟨fun d => ⟨d.read?_encode, d.encode_ascii, d.encode_eq_line⟩, encode_injective, fun command d hread => ?_⟩
  refine ⟨isCanonical_iff.2 ⟨d, rfl⟩, d.read?_encode, fun hcanonical => hcanonical.eq_encode hread, ?_⟩
  exact fun heq => isCanonical_iff.2 ⟨d, heq⟩

/-- A sign, leading zeros, blanks and a carriage return are not written again. -/
theorem encode_canonical_inverse_blanks :
    read? (marker ++ Utf8.encode "+007, 12\r\n".toList) = some (.ok ⟨7, 12⟩) ∧
      IsCanonical (marker ++ Utf8.encode "7,12\n".toList) ∧
      ¬ IsCanonical (marker ++ Utf8.encode "+007, 12\r\n".toList) := by
  have hread : read? (marker ++ Utf8.encode "+007, 12\r\n".toList) = some (.ok ⟨7, 12⟩) := by rfl
  have hencode : encode ⟨7, 12⟩ = marker ++ Utf8.encode "7,12\n".toList := by rfl
  obtain ⟨hcanonical, -, hiff⟩ := encode_canonical_inverse.2.2 _ ⟨7, 12⟩ hread
  rw [hencode] at hcanonical hiff
  exact ⟨hread, hcanonical, fun h => absurd (hiff.1 h) (by decide)⟩

end Directive

end LineRing
