import FramedLink.Text.Utf8

/-! # Text that is read back

A character is written in one to four bytes: the first says how many more are owed and bounds the
next one, and the bits of the character are spread over all of them. So the bytes of one character
are read as that character, and what was written as text is read back unchanged.
-/

namespace FramedLink.Text

variable {b low high : UInt8} {owed bits : Nat}

/-! ## One byte -/

private theorem readFrom_whole {char : Char} (whole : lead b = .whole char) (rest : Bytes) :
    readFrom none (b :: rest) = char :: readFrom none rest := by
  simp only [readFrom, step, start, whole, List.singleton_append]

theorem readFrom_begun {state : Begun} (begun : lead b = .begun state) (rest : Bytes) :
    readFrom none (b :: rest) = readFrom (some state) rest := by
  simp only [readFrom, step, start, begun, List.nil_append]

theorem readFrom_last (inside : low ≤ b ∧ b ≤ high) (rest : Bytes) :
    readFrom (some ⟨1, low, high, bits⟩) (b :: rest) =
      Char.ofNat (bits * 64 + b.toNat % 64) :: readFrom none rest := by
  simp only [readFrom, step, if_pos inside, if_true, List.singleton_append]

theorem readFrom_next (inside : low ≤ b ∧ b ≤ high) (rest : Bytes) :
    readFrom (some ⟨owed + 2, low, high, bits⟩) (b :: rest) =
      readFrom (some ⟨owed + 1, 0x80, 0xBF, bits * 64 + b.toNat % 64⟩) rest := by
  have more : ¬ owed + 2 = 1 := by omega
  simp only [readFrom, step, if_pos inside, if_neg more, List.nil_append]
  rfl

/-! ## First bytes -/

private theorem lead_one (small : b.toNat < 0x80) : lead b = .whole (Char.ofNat b.toNat) := by
  have below : b < 0x80 := UInt8.lt_iff_toNat_lt.mpr small
  simp only [lead, if_pos below]

private theorem lead_two (least : 0xC2 ≤ b.toNat) (below : b.toNat < 0xE0) :
    lead b = .begun ⟨1, 0x80, 0xBF, b.toNat % 32⟩ := by
  simp only [lead, UInt8.lt_iff_toNat_lt, UInt8.reduceToNat]
  grind

private theorem lead_three (least : 0xE0 ≤ b.toNat) (below : b.toNat < 0xF0) :
    lead b = .begun ⟨2, if b.toNat = 0xE0 then 0xA0 else 0x80,
      if b.toNat = 0xED then 0x9F else 0xBF, b.toNat % 16⟩ := by
  simp only [lead, UInt8.lt_iff_toNat_lt, ← UInt8.toNat_inj, UInt8.reduceToNat]
  grind

private theorem lead_four (least : 0xF0 ≤ b.toNat) (below : b.toNat < 0xF5) :
    lead b = .begun ⟨3, if b.toNat = 0xF0 then 0x90 else 0x80,
      if b.toNat = 0xF4 then 0x8F else 0xBF, b.toNat % 8⟩ := by
  simp only [lead, UInt8.lt_iff_toNat_lt, ← UInt8.toNat_inj, UInt8.reduceToNat]
  grind

/-! ## Bytes of a character -/

theorem toNat_byte {n : Nat} (small : n < 256) : (UInt8.ofNat n).toNat = n :=
  UInt8.toNat_ofNat_of_lt small

/-- A byte that goes on with a character, with the lowest six bits of a number. -/
def further (n : Nat) : UInt8 := UInt8.ofNat (n % 64 + 128)

theorem toNat_further (n : Nat) : (further n).toNat = n % 64 + 128 := toNat_byte (by omega)

theorem further_mod (n : Nat) : (further n).toNat % 64 = n % 64 := by
  rw [toNat_further]
  omega

theorem further_inside (n : Nat) : 0x80 ≤ further n ∧ further n ≤ 0xBF := by
  simp only [UInt8.le_iff_toNat_le, toNat_further, UInt8.reduceToNat]
  omega

/-! ## Characters -/

section Scalar

variable {v : Nat}

private theorem readFrom_two (least : 0x80 ≤ v) (most : v ≤ 0x7FF) (rest : Bytes) :
    readFrom none (UInt8.ofNat (v / 64 % 32 + 192) :: further v :: rest) =
      Char.ofNat v :: readFrom none rest := by
  have first : (UInt8.ofNat (v / 64 % 32 + 192)).toNat = v / 64 % 32 + 192 :=
    toNat_byte (by omega)
  have bits : (v / 64 % 32 + 192) % 32 * 64 + v % 64 = v := by omega
  rw [readFrom_begun (lead_two (by omega) (by omega)), readFrom_last (further_inside v),
    further_mod, first, bits]

private theorem readFrom_three (least : 0x800 ≤ v) (most : v ≤ 0xFFFF)
    (scalar : v < 0xD800 ∨ 0xDFFF < v) (rest : Bytes) :
    readFrom none (UInt8.ofNat (v / 4096 % 16 + 224) :: further (v / 64) :: further v :: rest) =
      Char.ofNat v :: readFrom none rest := by
  have first : (UInt8.ofNat (v / 4096 % 16 + 224)).toNat = v / 4096 % 16 + 224 :=
    toNat_byte (by omega)
  have bits : ((v / 4096 % 16 + 224) % 16 * 64 + v / 64 % 64) * 64 + v % 64 = v := by omega
  -- The bounds leave out overlong forms and surrogates, and `v` is neither.
  have inside : (if v / 4096 % 16 + 224 = 0xE0 then 0xA0 else 0x80) ≤ further (v / 64) ∧
      further (v / 64) ≤ if v / 4096 % 16 + 224 = 0xED then 0x9F else 0xBF := by
    simp only [UInt8.le_iff_toNat_le, apply_ite UInt8.toNat, toNat_further, UInt8.reduceToNat]
    grind
  rw [readFrom_begun (lead_three (by omega) (by omega)), first, readFrom_next inside,
    readFrom_last (further_inside v), further_mod, further_mod, bits]

private theorem readFrom_four (least : 0x10000 ≤ v) (most : v < 0x110000) (rest : Bytes) :
    readFrom none (UInt8.ofNat (v / 262144 % 8 + 240) :: further (v / 4096) :: further (v / 64) ::
        further v :: rest) =
      Char.ofNat v :: readFrom none rest := by
  have first : (UInt8.ofNat (v / 262144 % 8 + 240)).toNat = v / 262144 % 8 + 240 :=
    toNat_byte (by omega)
  have bits : (((v / 262144 % 8 + 240) % 8 * 64 + v / 4096 % 64) * 64 + v / 64 % 64) * 64 +
      v % 64 = v := by
    omega
  -- The bounds leave out overlong forms and what lies above the last code point.
  have inside : (if v / 262144 % 8 + 240 = 0xF0 then 0x90 else 0x80) ≤ further (v / 4096) ∧
      further (v / 4096) ≤ if v / 262144 % 8 + 240 = 0xF4 then 0x8F else 0xBF := by
    simp only [UInt8.le_iff_toNat_le, apply_ite UInt8.toNat, toNat_further, UInt8.reduceToNat]
    grind
  rw [readFrom_begun (lead_four (by omega) (by omega)), first, readFrom_next inside,
    readFrom_next (further_inside _), readFrom_last (further_inside v), further_mod, further_mod,
    further_mod, bits]

end Scalar

private theorem readFrom_char (char : Char) (rest : Bytes) :
    readFrom none (String.utf8EncodeChar char ++ rest) = char :: readFrom none rest := by
  have scalar : char.val.toNat < 0xD800 ∨ 0xDFFF < char.val.toNat ∧ char.val.toNat < 0x110000 :=
    char.valid
  have same : Char.ofNat char.val.toNat = char := Char.ofNat_toNat char
  unfold String.utf8EncodeChar
  by_cases one : char.val.toNat ≤ 0x7F
  · have first : (UInt8.ofNat char.val.toNat).toNat = char.val.toNat :=
      toNat_byte (by omega)
    rw [if_pos one, List.singleton_append, readFrom_whole (lead_one (by omega)), first, same]
  rw [if_neg one]
  by_cases two : char.val.toNat ≤ 0x7FF
  · rw [if_pos two]
    exact (readFrom_two (by omega) two rest).trans (by rw [same])
  rw [if_neg two]
  by_cases three : char.val.toNat ≤ 0xFFFF
  · rw [if_pos three]
    exact (readFrom_three (by omega) three (by omega) rest).trans (by rw [same])
  · rw [if_neg three]
    exact (readFrom_four (by omega) (by omega) rest).trans (by rw [same])

/-! ## Texts -/

private theorem write_eq (text : String) :
    write text = text.toList.flatMap String.utf8EncodeChar := by
  unfold write String.toUTF8
  rw [← String.utf8Encode_toList, List.utf8Encode, List.toList_data_toByteArray]

theorem readFrom_chars (chars : List Char) :
    readFrom none (chars.flatMap String.utf8EncodeChar) = chars := by
  induction chars with
  | nil => rfl
  | cons char rest ih => rw [List.flatMap_cons, readFrom_char, ih]

/-- What was written as text is read back unchanged. -/
theorem readLossy_write (text : String) : readLossy (write text) = text := by
  rw [readLossy, write_eq, readFrom_chars, String.ofList_toList]

end FramedLink.Text
