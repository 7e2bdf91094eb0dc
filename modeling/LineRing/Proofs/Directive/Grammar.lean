/-
The grammar of seek directives. Main statement: a command is read as a directive just if it is the marker and then a
text of the grammar, in UTF-8; it is not looked at if it does not begin with the marker, and breaks the protocol in all
other cases (`read?_accepts_grammar`).

The grammar is given by `Numeral.Spells` and `Directive.Spells`, which know nothing of how a text is trimmed, parted and
read. Each stage of reading has a lemma that says what it accepts, and the statement is put together from these.
-/
import LineRing.Directive.Lemmas

namespace LineRing

/-! ## Numerals -/

namespace Numeral

/-- A number is spelled by digits, one at least and with any leading zeros, after a plus sign or none. -/
inductive Spells : List Char → Nat → Prop
  | plain {digits : List Char} (hne : digits ≠ []) (hdigits : ∀ c ∈ digits, c.isDigit = true) :
      Spells digits (Nat.ofDigitChars 10 digits 0)
  | signed {digits : List Char} (hne : digits ≠ []) (hdigits : ∀ c ∈ digits, c.isDigit = true) :
      Spells ('+' :: digits) (Nat.ofDigitChars 10 digits 0)

theorem Spells.isDigit_or_plus {text : List Char} {n : Nat} (h : Spells text n) {c : Char} (hc : c ∈ text) :
    c.isDigit = true ∨ c = '+' := by
  cases h with
  | plain _ hdigits => exact Or.inl (hdigits c hc)
  | signed _ hdigits => exact (List.mem_cons.1 hc).symm.imp_left (hdigits c)

theorem of_readDigits_eq_ok {bound n : Nat} (text : List Char) : ∀ {soFar : Nat}, soFar ≤ bound →
    readDigits bound soFar text = .ok n →
      (∀ c ∈ text, c.isDigit = true) ∧ n = Nat.ofDigitChars 10 text soFar ∧ n ≤ bound := by
  induction text with
  | nil =>
    intro soFar hle h
    cases h
    exact ⟨by simp, rfl, hle⟩
  | cons c rest ih =>
    intro soFar _ h
    unfold readDigits at h
    dsimp only at h
    split at h
    · rename_i hc
      split at h
      · rename_i hnext
        obtain ⟨hrest, hn, hle⟩ := ih hnext h
        exact ⟨List.forall_mem_cons.2 ⟨hc, hrest⟩, by rw [hn, Nat.ofDigitChars_cons], hle⟩
      · cases h
    · cases h

/-- A text is read as a number just if it spells it, and the number is within the bound. -/
theorem read_eq_ok_iff {bound n : Nat} {text : List Char} : read bound text = .ok n ↔ Spells text n ∧ n ≤ bound := by
  have hplus : ('+' : Char).isDigit = false := by decide
  constructor
  · intro h
    unfold read at h
    split at h
    · cases h
    · cases h
    · rename_i rest hrest
      obtain ⟨hdigits, rfl, hle⟩ := of_readDigits_eq_ok rest (Nat.zero_le bound) h
      exact ⟨.signed (fun hnil => hrest hnil) hdigits, hle⟩
    · rename_i hne _ _
      obtain ⟨hdigits, rfl, hle⟩ := of_readDigits_eq_ok text (Nat.zero_le bound) h
      exact ⟨.plain (fun hnil => hne hnil) hdigits, hle⟩
  · rintro ⟨hspells, hle⟩
    cases hspells with
    | plain hne hdigits =>
      have hread := readDigits_eq_ok hdigits hle
      unfold read
      split
      · exact absurd rfl hne
      · rw [hdigits '+' (by simp)] at hplus; cases hplus
      · rw [hdigits '+' (by simp)] at hplus; cases hplus
      · exact hread
    | @signed digits hne hdigits =>
      have hread := readDigits_eq_ok hdigits hle
      unfold read
      split
      · rename_i h; cases h
      · rename_i h; exact absurd (List.cons.inj h).2 hne
      · rename_i h; rw [← (List.cons.inj h).2]; exact hread
      · rename_i hno; exact absurd rfl (hno digits)

end Numeral

namespace Directive

/-! ## Fields and texts -/

/-- Whether a text is blanks only; it may be empty. -/
def IsBlankRun (run : List Char) : Prop := ∀ c ∈ run, isBlank c = true

/-- A field spells a number by a numeral with any blanks around it. -/
def SpellsField (text : List Char) (n : UInt32) : Prop :=
  ∃ before numeral after, text = before ++ numeral ++ after ∧ IsBlankRun before ∧ IsBlankRun after ∧
    Numeral.Spells numeral n.toNat

/-- The grammar: the text after a marker is two fields with a comma between them. Line ends are blanks like others. -/
def Spells (text : List Char) (d : Directive) : Prop :=
  ∃ first second, text = first ++ ',' :: second ∧ SpellsField first d.command ∧ SpellsField second d.byte

theorem isBlank_of_isLineEnd {c : Char} (h : isLineEnd c = true) : isBlank c = true := by
  have hends : c = '\r' ∨ c = '\n' := by simpa [isLineEnd] using h
  rcases hends with rfl | rfl
  · decide
  · decide

/-! ## Fields -/

theorem SpellsField.append {text run : List Char} {n : UInt32} (h : SpellsField text n) (hrun : IsBlankRun run) :
    SpellsField (text ++ run) n := by
  obtain ⟨before, numeral, after, rfl, hbefore, hafter, hnumeral⟩ := h
  exact ⟨before, numeral, after ++ run, List.append_assoc _ _ _, hbefore, List.forall_mem_append.2 ⟨hafter, hrun⟩,
    hnumeral⟩

theorem SpellsField.comma_notMem {text : List Char} {n : UInt32} (h : SpellsField text n) : ',' ∉ text := by
  obtain ⟨before, numeral, after, rfl, hbefore, hafter, hnumeral⟩ := h
  have hblank : isBlank ',' = false := by decide
  simp only [List.mem_append, not_or]
  refine ⟨⟨fun hmem => ?_, fun hmem => ?_⟩, fun hmem => ?_⟩
  · rw [hbefore _ hmem] at hblank; cases hblank
  · rcases hnumeral.isDigit_or_plus hmem with hdigit | hplus
    · exact absurd hdigit (by decide)
    · exact absurd hplus (by decide)
  · rw [hafter _ hmem] at hblank; cases hblank

/-- What a field is trimmed to decides whether it spells a number. -/
theorem spellsField_iff_trim {text : List Char} {n : UInt32} :
    SpellsField text n ↔ Numeral.Spells (trim text) n.toNat := by
  constructor
  · rintro ⟨before, numeral, after, rfl, hbefore, hafter, hnumeral⟩
    have hself : trim numeral = numeral := trim_eq_self fun c hc => by
      rcases hnumeral.isDigit_or_plus hc with hdigit | rfl
      · exact isBlank_of_isDigit hdigit
      · decide
    rw [trim_append_right hafter, trim_append_left hbefore, hself]
    exact hnumeral
  · intro h
    obtain ⟨front, back, htext, hfront, hback⟩ := exists_append_trim_append text
    exact ⟨front, trim text, back, htext, hfront, hback, h⟩

theorem readField_eq_ok_iff {field : DirectiveField} {text : List Char} {n : UInt32} :
    readField field text = .ok n ↔ SpellsField text n := by
  rw [spellsField_iff_trim]
  unfold readField
  constructor
  · intro h
    split at h
    · rename_i k hk
      obtain ⟨hspells, hle⟩ := Numeral.read_eq_ok_iff.1 hk
      have hlt : k < UInt32.size := Nat.lt_of_le_of_lt hle (by decide)
      cases h
      rw [UInt32.toNat_ofNat_of_lt' hlt]
      exact hspells
    · cases h
  · intro h
    rw [Numeral.read_eq_ok_iff.2 ⟨h, Nat.le_sub_one_of_lt n.toNat_lt_size⟩]
    simp

/-! ## Texts -/

theorem ofText_eq_ok_iff {text : List Char} {d : Directive} : ofText text = .ok d ↔ Spells text d := by
  constructor
  · intro h
    unfold ofText at h
    dsimp only at h
    split at h
    · cases h
    · rename_i first second hsplit
      obtain ⟨hline, -⟩ := splitFirst?_eq_some_iff.1 hsplit
      obtain ⟨run, htext, hrun⟩ := dropEndWhile_append_run isLineEnd text
      cases hfirst : readField .command first with
      | error fault => rw [hfirst] at h; cases h
      | ok command =>
        cases hsecond : readField .byte second with
        | error fault => rw [hfirst, hsecond] at h; cases h
        | ok byte =>
          rw [hfirst, hsecond] at h
          cases h
          -- the line ends that were cut off belong to the second field
          refine ⟨first, second ++ run, ?_, readField_eq_ok_iff.1 hfirst, ?_⟩
          · rw [htext, hline, List.append_assoc, List.cons_append]
          · exact (readField_eq_ok_iff.1 hsecond).append fun c hc => isBlank_of_isLineEnd (hrun c hc)
  · rintro ⟨first, second, rfl, hfirst, hsecond⟩
    have hcut : SpellsField (dropEndWhile isLineEnd second) d.byte := by
      obtain ⟨run, htext, hrun⟩ := dropEndWhile_append_run isLineEnd second
      have htrim := trim_append_right (fun c hc => isBlank_of_isLineEnd (hrun c hc)) (dropEndWhile isLineEnd second)
      rw [spellsField_iff_trim, ← htrim, ← htext, ← spellsField_iff_trim]
      exact hsecond
    have hcomma : isLineEnd ',' = false := by decide
    simp only [ofText, dropEndWhile_append_cons first hcomma, splitFirst?_append hfirst.comma_notMem,
      readField_eq_ok_iff.2 hfirst, readField_eq_ok_iff.2 hcut]
    rfl

/-! ## Commands -/

/-- Whether a command is the marker and then a text of the grammar, in UTF-8. -/
def Encodes (command : Bytes) (d : Directive) : Prop := ∃ text, command = marker ++ Utf8.encode text ∧ Spells text d

theorem ofBody_eq_ok_iff {body : Bytes} {d : Directive} :
    ofBody body = .ok d ↔ ∃ text, body = Utf8.encode text ∧ Spells text d := by
  unfold ofBody
  constructor
  · intro h
    split at h
    · cases h
    · rename_i text htext
      exact ⟨text, Utf8.decode?_eq_some_iff.1 htext, ofText_eq_ok_iff.1 h⟩
  · rintro ⟨text, rfl, hspells⟩
    rw [Utf8.decode?_encode]
    exact ofText_eq_ok_iff.2 hspells

theorem read?_marker_append (body : Bytes) : read? (marker ++ body) = some (ofBody body) := by
  rw [read?, if_pos (by simp), List.drop_left]

theorem read?_eq_some_iff {command : Bytes} {result : Except DirectiveFault Directive} :
    read? command = some result ↔ ∃ body, command = marker ++ body ∧ ofBody body = result := by
  constructor
  · intro h
    by_cases hmarker : marker <+: command
    · obtain ⟨body, rfl⟩ := hmarker
      rw [read?_marker_append] at h
      exact ⟨body, rfl, Option.some.inj h⟩
    · rw [read?_eq_none_iff.2 hmarker] at h
      cases h
  · rintro ⟨body, rfl, rfl⟩
    exact read?_marker_append body

theorem read?_eq_ok_iff {command : Bytes} {d : Directive} : read? command = some (.ok d) ↔ Encodes command d := by
  rw [read?_eq_some_iff]
  constructor
  · rintro ⟨body, rfl, hbody⟩
    obtain ⟨text, rfl, hspells⟩ := ofBody_eq_ok_iff.1 hbody
    exact ⟨text, rfl, hspells⟩
  · rintro ⟨text, rfl, hspells⟩
    exact ⟨_, rfl, ofBody_eq_ok_iff.2 ⟨text, rfl, hspells⟩⟩

/-- A command that is the marker and then no text of the grammar is a fault. -/
theorem exists_read?_eq_error_iff {command : Bytes} :
    (∃ fault, read? command = some (.error fault)) ↔ marker <+: command ∧ ¬ ∃ d, Encodes command d := by
  constructor
  · rintro ⟨fault, hread⟩
    obtain ⟨body, rfl, -⟩ := read?_eq_some_iff.1 hread
    refine ⟨List.prefix_append marker body, ?_⟩
    rintro ⟨d, hd⟩
    rw [read?_eq_ok_iff.2 hd] at hread
    cases hread
  · rintro ⟨⟨body, rfl⟩, hno⟩
    cases hread : ofBody body with
    | error fault => exact ⟨fault, by rw [read?_marker_append, hread]⟩
    | ok d => exact absurd ⟨d, read?_eq_ok_iff.1 (by rw [read?_marker_append, hread])⟩ hno

/-! ## The main statement -/

/-- A command is read as a directive just if it is the marker and then a text of the grammar, in UTF-8. It is not looked
at if it does not begin with the marker, and breaks the protocol in all other cases. What is asked for corresponds: a
directive is sought, a command that is not looked at is kept as it is, and a fault stays one. -/
theorem read?_accepts_grammar (command : Bytes) :
    (read? command = none ↔ ¬ marker <+: command) ∧
      (∀ d, read? command = some (.ok d) ↔ Encodes command d) ∧
      ((∃ fault, read? command = some (.error fault) ∧ fault.failure = .protocol fault.message) ↔
        marker <+: command ∧ ¬ ∃ d, Encodes command d) ∧
      (∀ d, Request.ofCommand command = .ok (.seek d) ↔ Encodes command d) ∧
      (∀ content, Request.ofCommand command = .ok (.keep content) ↔ content = command ∧ ¬ marker <+: command) ∧
      ∀ fault, Request.ofCommand command = .error fault ↔ read? command = some (.error fault) := by
  refine ⟨read?_eq_none_iff, fun d => read?_eq_ok_iff, ?_, fun d => ?_, fun content => ?_, fun fault => ?_⟩
  · rw [← exists_read?_eq_error_iff]
    exact exists_congr fun fault => and_iff_left rfl
  · exact Request.ofCommand_eq_seek_iff.trans read?_eq_ok_iff
  · exact Request.ofCommand_eq_keep_iff.trans (and_congr_right fun _ => read?_eq_none_iff)
  · exact Request.ofCommand_eq_error_iff

end Directive

/-- A wide blank, a line end between the fields, a sign and leading zeros are all of the grammar. -/
example : Request.ofCommand (Directive.marker ++ Utf8.encode "\u3000+007\n, 4294967295\r".toList) =
    .ok (.seek ⟨7, 4294967295⟩) := by rfl

end LineRing
