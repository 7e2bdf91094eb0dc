/-
UTF-8 on lists of bytes. Main statements: reading accepts exactly what writing produces, so
overlong forms, surrogates and values past the last code point are refused; and what characters
write at the end is read on its own.
-/
import LineRing.Bytes

namespace LineRing

namespace Utf8

/-- The bytes of a list of characters. -/
def encode (chars : List Char) : Bytes := chars.flatMap String.utf8EncodeChar

/-- The characters that a byte string spells, if it spells any. -/
def decode? (bytes : Bytes) : Option (List Char) :=
  bytes.toByteArray.utf8Decode?.map Array.toList

@[simp] theorem encode_nil : encode [] = [] := rfl

@[simp] theorem encode_append (s t : List Char) : encode (s ++ t) = encode s ++ encode t :=
  List.flatMap_append

theorem encode_toByteArray (chars : List Char) : (encode chars).toByteArray = chars.utf8Encode := rfl

@[simp] theorem decode?_encode (chars : List Char) : decode? (encode chars) = some chars := by
  simp [decode?, encode_toByteArray]

/-- A byte string spells only the characters that it is written by. -/
theorem decode?_eq_some_iff {bytes : Bytes} {chars : List Char} :
    decode? bytes = some chars ↔ bytes = encode chars := by
  refine ⟨fun h => ?_, fun h => h ▸ decode?_encode chars⟩
  obtain ⟨read, hread, rfl⟩ := Option.map_eq_some_iff.1 h
  have hsome : bytes.toByteArray.utf8Decode?.isSome := by simp [hread]
  have hback := ByteArray.utf8Encode_get_utf8Decode? (h := hsome)
  simp only [hread, Option.get_some] at hback
  exact List.toByteArray_inj.1 (hback.symm.trans (encode_toByteArray _).symm)

/-! ## The end of a text -/

/-- No character is written by the end of what another is written by. -/
theorem eq_nil_of_encodeChar_eq_append {c d : Char} {front : Bytes}
    (h : String.utf8EncodeChar c = front ++ String.utf8EncodeChar d) : front = [] := by
  have hpos : 0 < (String.utf8EncodeChar d).length := List.length_pos_iff.2 String.utf8EncodeChar_ne_nil
  have hlt : front.length < (String.utf8EncodeChar c).length := by rw [h, List.length_append]; omega
  have hfirst : (String.utf8EncodeChar c)[front.length] = (String.utf8EncodeChar d)[0] := by
    simp only [h, List.getElem_append_right (Nat.le_refl _), Nat.sub_self]
  refine List.length_eq_zero_iff.1 ((@UInt8.isUTF8FirstByte_getElem_utf8EncodeChar c _ hlt).1 ?_)
  rw [hfirst]
  exact UInt8.isUTF8FirstByte_getElem_zero_utf8EncodeChar

theorem encodeChar_inj {c d : Char} (h : String.utf8EncodeChar c = String.utf8EncodeChar d) : c = d := by
  have hread := decode?_encode [c]
  have hsame : encode [c] = encode [d] := by simp [encode, h]
  rw [hsame, decode?_encode] at hread
  simpa using hread.symm

/-- A character that is written at the end was the last one. -/
theorem eq_encode_of_append_encodeChar {bytes : Bytes} {c : Char} {chars : List Char}
    (h : bytes ++ String.utf8EncodeChar c = encode chars) : ∃ front, chars = front ++ [c] ∧ bytes = encode front := by
  rcases List.eq_nil_or_concat chars with rfl | ⟨front, d, rfl⟩
  · exact absurd (List.append_eq_nil_iff.1 h).2 String.utf8EncodeChar_ne_nil
  · have hd : encode [d] = String.utf8EncodeChar d := List.append_nil _
    rw [List.concat_eq_append, encode_append, hd] at h
    rcases List.append_eq_append_iff.1 h with ⟨a, ha, hc⟩ | ⟨a, ha, hc⟩
    · obtain rfl := eq_nil_of_encodeChar_eq_append hc
      obtain rfl := encodeChar_inj hc
      exact ⟨front, List.concat_eq_append .., by simpa using ha.symm⟩
    · obtain rfl := eq_nil_of_encodeChar_eq_append hc
      obtain rfl := encodeChar_inj hc
      exact ⟨front, List.concat_eq_append .., by simpa using ha⟩

/-- What characters write at the end is read as these characters, and makes no difference to what comes before. -/
theorem decode?_append_encode (bytes : Bytes) (chars : List Char) :
    decode? (bytes ++ encode chars) = (decode? bytes).map (· ++ chars) := by
  induction chars generalizing bytes with
  | nil => simp
  | cons c rest ih =>
    have hc : encode (c :: rest) = String.utf8EncodeChar c ++ encode rest := rfl
    rw [hc, ← List.append_assoc, ih]
    cases hread : decode? bytes with
    | some text =>
      obtain rfl := decode?_eq_some_iff.1 hread
      have hwhole : encode text ++ String.utf8EncodeChar c = encode (text ++ [c]) := by simp [encode]
      rw [hwhole, decode?_encode]
      simp
    | none =>
      cases hmore : decode? (bytes ++ String.utf8EncodeChar c) with
      | none => rfl
      | some text =>
        obtain ⟨front, -, rfl⟩ := eq_encode_of_append_encodeChar (decode?_eq_some_iff.1 hmore)
        rw [decode?_encode] at hread
        cases hread

end Utf8

/-- The UTF-8 bytes of a text. -/
def Bytes.ofText (text : String) : Bytes := Utf8.encode text.toList

end LineRing
