import Mathlib.Data.List.DropRight
import MiniPascal.Proofs.Ensures
import MiniPascal.Proofs.Lexical.Lexemes
import MiniPascal.Proofs.Lexical.Places
import MiniPascal.Proofs.Text.Utf8

/-!
# Symbols one read after the other

A text is handed out a symbol a read: its characters in order, each with its class, on the line and
in the column that the line feeds in front of it give, and behind the last of them the end of the
text, again and again.  How lines are cut into chunks shows nowhere.  A text that is given by its
bytes is read in the same way.
-/

namespace MiniPascal

/-! ### Classes -/

structure Symbol.Classified (symbol : Symbol) : Prop where
  letter : symbol.kind = .letter ↔ ∃ char ∈ symbol.char,
    'A' ≤ char ∧ char ≤ 'Z' ∨ 'a' ≤ char ∧ char ≤ 'z' ∨ char = '_'
  digit : symbol.kind = .digit ↔ ∃ char ∈ symbol.char, '0' ≤ char ∧ char ≤ '9'
  whitespace : symbol.kind = .whitespace ↔ ∃ char ∈ symbol.char, char ≤ ' '
  endOfText : symbol.kind = .endOfText ↔ symbol.char = none

theorem Symbol.classified (symbol : Symbol) : symbol.Classified := by
  obtain ⟨char?, position⟩ := symbol
  cases char? with
  | none => constructor <;> simp [kind]
  | some char =>
      have isKind : kind ⟨some char, position⟩ = .ofChar char := rfl
      constructor
      · rw [isKind, SymbolClass.ofChar_letter_iff]
        simp only [Option.mem_def, Option.some.injEq, exists_eq_left']
        simp [Char.le_iff_toNat_le, ← Char.toNat_inj]
      · rw [isKind, SymbolClass.ofChar_digit_iff]
        simp [Char.le_iff_toNat_le]
      · rw [isKind, SymbolClass.ofChar_whitespace_iff]
        simp
      · simp only [isKind, SymbolClass.ofChar, reduceCtorEq, iff_false]
        split_ifs <;> simp

/-! ### Places -/

/-- The place behind a text, told by its line feeds and what stands behind the last of them. -/
def Position.behind (text : List Char) : Position :=
  ⟨1 + text.count '\n', 1 + (text.rtakeWhile (· ≠ '\n')).length⟩

theorem place_eq_behind (before : List Char) : place before = .behind before := by
  induction before using List.reverseRecOn with
  | nil => rfl
  | append_singleton front char ih =>
      rw [place_append_singleton, ih, Position.past, Position.behind]
      by_cases isEnd : char = '\n'
      · rw [if_pos isEnd, Position.behind, List.rtakeWhile_concat_neg _ _ _ (by simp [isEnd])]
        simp [isEnd, Nat.add_assoc]
      · rw [if_neg isEnd, Position.behind, List.rtakeWhile_concat_pos _ _ _ (by simp [isEnd])]
        simp [isEnd, Nat.add_assoc]

/-- The symbol of a text behind so many characters.  The end of a text stands in the column behind its
last character, also where that is a line feed. -/
def Symbol.nth (text : List Char) (index : Nat) : Symbol :=
  match text[index]? with
  | some char => ⟨some char, .behind (text.take index)⟩
  | none =>
      let last := Position.behind text.dropLast
      ⟨none, if text = [] then ⟨1, 1⟩ else ⟨last.line, last.column + 1⟩⟩

theorem Symbol.nth_of_length_le {text : List Char} {index : Nat} (behind : text.length ≤ index) :
    nth text index = ⟨none, endPlace text⟩ := by
  simp only [nth, List.getElem?_eq_none behind, endPlace, place_eq_behind]

/-! ### Reading -/

namespace Reader

def reads : Nat → EStateM LexError Reader (List Symbol)
  | 0 => return []
  | count + 1 => do
      let symbol ← read
      return symbol :: (← reads count)

variable {text : List Char} {index : Nat} {reader : Reader}

theorem At.read_nth (stands : reader.At (text.take index) (text.drop index)) :
    ∃ rest, reader.read = .ok (.nth text index) rest ∧
      rest.At (text.take (index + 1)) (text.drop (index + 1)) := by
  cases isChar : text[index]? with
  | some char =>
      obtain ⟨inside, rfl⟩ := List.getElem?_eq_some_iff.1 isChar
      rw [List.drop_eq_getElem_cons inside] at stands
      obtain ⟨rest, success, stands⟩ := stands.read
      refine ⟨rest, ?_, ?_⟩
      · rw [success, Symbol.nth, isChar, place_eq_behind]
      · rwa [List.take_succ_eq_append_getElem inside]
  | none =>
      have behind := List.getElem?_eq_none_iff.1 isChar
      have noMore (more : Nat) : text.take (index + more) = text ∧ text.drop (index + more) = [] :=
        ⟨List.take_of_length_le (by omega), List.drop_eq_nil_of_le (by omega)⟩
      obtain ⟨isTake, isDrop⟩ := noMore 0
      obtain ⟨isTake', isDrop'⟩ := noMore 1
      rw [Nat.add_zero] at isTake isDrop
      rw [isTake, isDrop] at stands
      rw [isTake', isDrop', Symbol.nth_of_length_le behind]
      exact stands.read_end

theorem At.reads (stands : reader.At (text.take index) (text.drop index)) (count : Nat) :
    ∃ rest, reader.reads count = .ok ((List.range' index count).map (.nth text)) rest := by
  induction count generalizing index reader with
  | zero => exact ⟨reader, rfl⟩
  | succ count ih =>
      obtain ⟨next, success, stands⟩ := stands.read_nth
      obtain ⟨rest, others⟩ := ih stands
      refine ⟨rest, ?_⟩
      rw [Reader.reads, bind_of_ok _ success, bind_of_ok _ others]
      rfl

end Reader

/-! ### Texts as bytes -/

namespace PhysicalLine

theorem split_append {α : Type} {ends : α → Bool} {piece : List α} (notEmpty : piece ≠ [])
    (noEnd : ∀ a ∈ piece, ends a = false) (rest : List α) :
    split ends (piece ++ rest) =
      match split ends rest with
      | [] => [piece]
      | line :: lines => (piece ++ line) :: lines := by
  induction piece with
  | nil => exact absurd rfl notEmpty
  | cons first others ih =>
      rw [List.forall_mem_cons] at noEnd
      rw [List.cons_append, split, noEnd.1, if_neg Bool.false_ne_true]
      by_cases isLast : others = []
      · subst isLast
        rfl
      · rw [ih isLast noEnd.2]
        cases split ends rest <;> rfl

/-- No byte of another character is a line feed. -/
theorem split_flatMap (chars : List Char) :
    split (· == 10) (chars.flatMap String.utf8EncodeChar) =
      (split (· == '\n') chars).map (·.flatMap String.utf8EncodeChar) := by
  induction chars with
  | nil => rfl
  | cons char chars ih =>
      rw [List.flatMap_cons]
      by_cases isEnd : char = '\n'
      · have isByte : String.utf8EncodeChar char = [10] := by
          rw [isEnd]
          rfl
        rw [isByte, List.singleton_append, split, if_pos (by rfl), ih, split, if_pos (by simp [isEnd]),
          List.map_cons, List.flatMap_singleton, isByte]
      · have noEnd : ∀ byte ∈ String.utf8EncodeChar char, (byte == 10) = false := by
          intro byte isIn
          rw [beq_eq_false_iff_ne]
          rintro rfl
          exact isEnd (Text.eq_of_mem_utf8EncodeChar (by decide) isIn)
        rw [split_append (String.utf8EncodeChar_ne_nil) noEnd, ih, split, if_neg (by simpa using isEnd)]
        cases split (· == '\n') chars <;> simp

theorem decode_flatMap (chars : List Char) :
    decode (chars.flatMap String.utf8EncodeChar) = .text chars := by
  have isText : (⟨(chars.flatMap String.utf8EncodeChar).toArray⟩ : ByteArray) =
      (String.ofList chars).toByteArray := by
    rw [← String.utf8Encode_toList, String.toList_ofList, List.utf8Encode]
    exact (List.data_toByteArray ▸ rfl)
  have isDecoded : String.fromUTF8? (String.ofList chars).toByteArray = some (String.ofList chars) :=
    dif_pos (String.ofList chars).isValidUTF8
  simp only [decode, isText, isDecoded, String.toList_ofList]

theorem ofBytes_toUTF8 (text : String) : ofBytes text.toUTF8.toList = ofText text := by
  rw [ofBytes, Text.toList_toUTF8, split_flatMap, List.map_map, ofText]
  exact List.map_congr_left fun line _ => decode_flatMap line

end PhysicalLine

namespace Reader

/-- However many symbols are read of a text, or of its bytes, they are its first ones: the characters
with their classes and places, and then the end of the text again and again. -/
theorem reads_ofText (text : String) (count : Nat) :
    ofBytes text.toUTF8.toList = ofText text ∧
      ∃ rest, (ofText text).reads count = .ok ((List.range count).map (.nth text.toList)) rest ∧
        ∀ index, (Symbol.nth text.toList index).Classified := by
  refine ⟨congrArg ofLines (PhysicalLine.ofBytes_toUTF8 text), ?_⟩
  have stands : (ofText text).At (text.toList.take 0) (text.toList.drop 0) := at_ofText text
  obtain ⟨rest, all⟩ := stands.reads count
  rw [← List.range_eq_range'] at all
  exact ⟨rest, all, fun index => Symbol.classified _⟩

end Reader

end MiniPascal
