import MiniPascal.Text.Utf8

/-!
# Decoding what was encoded

The bytes of a text decode to the text.  Those below 128 are its ASCII characters, each by itself.
-/

namespace MiniPascal.Text

private theorem ofNat_val (char : Char) : Char.ofNat char.val.toNat = char :=
  Char.ofNat_toNat char

private theorem toNat_ofNat {code : Nat} (isByte : code < 256) : (UInt8.ofNat code).toNat = code := by
  simp [Nat.mod_eq_of_lt isByte]

private theorem decodeFrom_goesOn {missing low high value code : Nat} (rest : List UInt8)
    (isByte : code < 256) (inside : low ≤ code ∧ code ≤ high) (more : 1 < missing) :
    decodeFrom (some ⟨missing, low, high, value⟩) (UInt8.ofNat code :: rest) =
      decodeFrom (some ⟨missing - 1, 0x80, 0xBF, value * 64 + (code - 0x80)⟩) rest := by
  simp only [decodeFrom, toNat_ofNat isByte, if_pos inside]
  rw [if_neg (by omega)]

private theorem decodeFrom_completes {low high value code : Nat} (rest : List UInt8)
    (isByte : code < 256) (inside : low ≤ code ∧ code ≤ high) :
    decodeFrom (some ⟨1, low, high, value⟩) (UInt8.ofNat code :: rest) =
      Char.ofNat (value * 64 + (code - 0x80)) :: decodeFrom none rest := by
  simp only [decodeFrom, toNat_ofNat isByte, if_pos inside]
  rw [if_pos (by omega)]

private theorem decodeFrom_begins {code : Nat} {begun : Partial} (rest : List UInt8)
    (isByte : code < 256) (begins : firstByte code = .inr begun) :
    decodeFrom none (UInt8.ofNat code :: rest) = decodeFrom (some begun) rest := by
  simp only [decodeFrom, toNat_ofNat isByte, begins]

private theorem decodeFrom_one {code : Nat} (rest : List UInt8) (small : code < 0x80) :
    decodeFrom none (UInt8.ofNat code :: rest) = Char.ofNat code :: decodeFrom none rest := by
  have begins : firstByte code = .inl (Char.ofNat code) := if_pos small
  simp only [decodeFrom, toNat_ofNat (show code < 256 by omega), begins]

private theorem decodeFrom_two {first second : Nat} (rest : List UInt8)
    (isFirst : 2 ≤ first ∧ first < 32) (isSecond : second < 64) :
    decodeFrom none (UInt8.ofNat (first + 0xC0) :: UInt8.ofNat (second + 0x80) :: rest) =
      Char.ofNat (first * 64 + second) :: decodeFrom none rest := by
  have begins : firstByte (first + 0xC0) = .inr ⟨1, 0x80, 0xBF, first⟩ := by
    unfold firstByte
    rw [if_neg (by omega), if_neg (by omega), if_pos (by omega), Nat.add_sub_cancel]
  rw [decodeFrom_begins _ (by omega) begins, decodeFrom_completes _ (by omega) (by omega),
    Nat.add_sub_cancel]

private theorem decodeFrom_three {first second third : Nat} (rest : List UInt8)
    (isFirst : first < 16) (isSecond : second < 64) (isThird : third < 64)
    (notShort : first = 0 → 32 ≤ second) (noSurrogate : first = 13 → second < 32) :
    decodeFrom none (UInt8.ofNat (first + 0xE0) :: UInt8.ofNat (second + 0x80) ::
        UInt8.ofNat (third + 0x80) :: rest) =
      Char.ofNat ((first * 64 + second) * 64 + third) :: decodeFrom none rest := by
  have begins : ∃ low high, firstByte (first + 0xE0) = .inr ⟨2, low, high, first⟩ ∧
      low ≤ second + 0x80 ∧ second + 0x80 ≤ high := by
    unfold firstByte
    rw [if_neg (by omega), if_neg (by omega), if_neg (by omega)]
    by_cases isZero : first = 0
    · exact ⟨_, _, by rw [isZero]; rfl, by omega⟩
    · rw [if_neg (by omega)]
      by_cases isHigh : first = 13
      · exact ⟨_, _, by rw [isHigh]; rfl, by omega⟩
      · rw [if_neg (by omega), if_pos (by omega), Nat.add_sub_cancel]
        exact ⟨_, _, rfl, by omega⟩
  obtain ⟨low, high, begins, inside⟩ := begins
  rw [decodeFrom_begins _ (by omega) begins, decodeFrom_goesOn _ (by omega) inside (by omega),
    decodeFrom_completes _ (by omega) (by omega), Nat.add_sub_cancel, Nat.add_sub_cancel]

private theorem decodeFrom_four {first second third fourth : Nat} (rest : List UInt8)
    (isFirst : first ≤ 4) (isSecond : second < 64) (isThird : third < 64) (isFourth : fourth < 64)
    (notShort : first = 0 → 16 ≤ second) (bound : first = 4 → second < 16) :
    decodeFrom none (UInt8.ofNat (first + 0xF0) :: UInt8.ofNat (second + 0x80) ::
        UInt8.ofNat (third + 0x80) :: UInt8.ofNat (fourth + 0x80) :: rest) =
      Char.ofNat (((first * 64 + second) * 64 + third) * 64 + fourth) :: decodeFrom none rest := by
  have begins : ∃ low high, firstByte (first + 0xF0) = .inr ⟨3, low, high, first⟩ ∧
      low ≤ second + 0x80 ∧ second + 0x80 ≤ high := by
    unfold firstByte
    rw [if_neg (by omega), if_neg (by omega), if_neg (by omega), if_neg (by omega),
      if_neg (by omega), if_neg (by omega)]
    by_cases isZero : first = 0
    · exact ⟨_, _, by rw [isZero]; rfl, by omega⟩
    · rw [if_neg (by omega)]
      by_cases isLast : first = 4
      · exact ⟨_, _, by rw [isLast]; rfl, by omega⟩
      · rw [if_pos (by omega), Nat.add_sub_cancel]
        exact ⟨_, _, rfl, by omega⟩
  obtain ⟨low, high, begins, inside⟩ := begins
  rw [decodeFrom_begins _ (by omega) begins, decodeFrom_goesOn _ (by omega) inside (by omega),
    decodeFrom_goesOn _ (by omega) (by omega) (by omega),
    decodeFrom_completes _ (by omega) (by omega), Nat.add_sub_cancel, Nat.add_sub_cancel,
    Nat.add_sub_cancel]

theorem decodeFrom_utf8EncodeChar (char : Char) (rest : List UInt8) :
    decodeFrom none (String.utf8EncodeChar char ++ rest) = char :: decodeFrom none rest := by
  have isValid : char.val.toNat < 0xD800 ∨ 0xDFFF < char.val.toNat ∧ char.val.toNat < 0x110000 :=
    char.valid
  have same := ofNat_val char
  unfold String.utf8EncodeChar
  generalize char.val.toNat = code at isValid same
  dsimp only
  split
  · rw [List.cons_append, List.nil_append, decodeFrom_one _ (by omega), same]
  · split
    · have whole : code / 64 % 0x20 * 64 + code % 0x40 = code := by omega
      simp only [List.cons_append, List.nil_append]
      rw [decodeFrom_two _ (by omega) (by omega), whole, same]
    · split
      · have whole : (code / 4096 % 0x10 * 64 + code / 64 % 0x40) * 64 + code % 0x40 = code := by
          omega
        simp only [List.cons_append, List.nil_append]
        rw [decodeFrom_three _ (by omega) (by omega) (by omega) (by omega) (by omega), whole, same]
      · have whole : ((code / 262144 % 0x08 * 64 + code / 4096 % 0x40) * 64 + code / 64 % 0x40) * 64 +
            code % 0x40 = code := by omega
        simp only [List.cons_append, List.nil_append]
        rw [decodeFrom_four _ (by omega) (by omega) (by omega) (by omega) (by omega) (by omega),
          whole, same]

theorem eq_of_mem_utf8EncodeChar {char : Char} {byte : UInt8} (small : byte.toNat < 0x80)
    (isIn : byte ∈ String.utf8EncodeChar char) : char = Char.ofNat byte.toNat := by
  have notHigh (codes : List Nat) (high : ∀ code ∈ codes, 0x80 ≤ code ∧ code < 256) :
      byte ∉ codes.map UInt8.ofNat := by
    intro isHigh
    obtain ⟨code, isCode, rfl⟩ := List.mem_map.1 isHigh
    rw [toNat_ofNat (high code isCode).2] at small
    exact Nat.not_lt_of_le (high code isCode).1 small
  have same := ofNat_val char
  unfold String.utf8EncodeChar at isIn
  generalize char.val.toNat = code at isIn same
  dsimp only at isIn
  split at isIn
  · rw [List.mem_singleton.1 isIn, toNat_ofNat (by omega), same]
  · refine absurd isIn ?_
    split
    · exact notHigh [_, _] (by simp; omega)
    · split
      · exact notHigh [_, _, _] (by simp; omega)
      · exact notHigh [_, _, _, _] (by simp; omega)

private theorem toList_loop (bytes : ByteArray) (index : Nat) (front : List UInt8) :
    ByteArray.toList.loop bytes index front = front.reverse ++ bytes.data.toList.drop index := by
  rw [ByteArray.toList.loop]
  split
  · rename_i inside
    have bound : index < bytes.data.toList.length := by
      rw [Array.length_toList]
      exact inside
    rw [toList_loop bytes (index + 1), List.drop_eq_getElem_cons bound, List.reverse_cons,
      List.append_assoc]
    simp [ByteArray.get!, inside]
  · rename_i outside
    have bound : bytes.data.toList.length ≤ index := by
      rw [Array.length_toList]
      exact Nat.le_of_not_lt outside
    rw [List.drop_eq_nil_of_le bound, List.append_nil]
termination_by bytes.size - index

theorem toList_toUTF8 (text : String) :
    text.toUTF8.toList = text.toList.flatMap String.utf8EncodeChar := by
  rw [String.toUTF8_eq_toByteArray, ByteArray.toList, toList_loop, ← String.utf8Encode_toList]
  simp [List.utf8Encode]

theorem decodeFrom_flatMap (chars : List Char) :
    decodeFrom none (chars.flatMap String.utf8EncodeChar) = chars := by
  induction chars with
  | nil => rfl
  | cons char chars ih => rw [List.flatMap_cons, decodeFrom_utf8EncodeChar, ih]

end MiniPascal.Text
