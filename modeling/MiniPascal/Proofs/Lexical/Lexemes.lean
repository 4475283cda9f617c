import MiniPascal.Proofs.Ensures
import MiniPascal.Proofs.Lexical.Scanning

/-!
# Lexemes and gaps

What the texts of tokens look like, told without the automaton: `Lexeme` gives the token that a text
spells, and `Gap` are the texts between tokens.  The automaton cuts a text into gaps and lexemes, each
lexeme as long as possible, and neither loses nor repeats a character.
-/

namespace MiniPascal

/-! ### Characters by their codes -/

theorem Char.le_iff_toNat_le {first second : Char} : first ≤ second ↔ first.toNat ≤ second.toNat := by
  rw [Char.le_def, UInt32.le_iff_toNat_le]
  rfl

theorem Char.isDigit_iff {char : Char} : char.isDigit ↔ 48 ≤ char.toNat ∧ char.toNat ≤ 57 := by
  simp [Char.isDigit, UInt32.le_iff_toNat_le]

theorem Char.isAlpha_iff {char : Char} :
    char.isAlpha ↔
      (65 ≤ char.toNat ∧ char.toNat ≤ 90) ∨ (97 ≤ char.toNat ∧ char.toNat ≤ 122) := by
  delta Char.isAlpha Char.isUpper Char.isLower
  simp [UInt32.le_iff_toNat_le]

def IsDigit (base : Nat) (char : Char) : Prop := (digitValue? base char).isSome

theorem isDigit_iff {base : Nat} {char : Char} :
    IsDigit base char ↔
      (48 ≤ char.toNat ∧ char.toNat ≤ 57 ∧ char.toNat - 48 < base) ∨
      (97 ≤ char.toNat ∧ char.toNat ≤ 102 ∧ char.toNat - 97 + 10 < base) ∨
      (65 ≤ char.toNat ∧ char.toNat ≤ 70 ∧ char.toNat - 65 + 10 < base) := by
  have zero : '0'.toNat = 48 := rfl
  have lowerA : 'a'.toNat = 97 := rfl
  have lowerF : 'f'.toNat = 102 := rfl
  have upperA : 'A'.toNat = 65 := rfl
  have upperF : 'F'.toNat = 70 := rfl
  unfold IsDigit digitValue?
  simp only [Bool.and_eq_true, Char.isDigit_iff, Char.le_iff_toNat_le, decide_eq_true_eq, zero,
    lowerA, lowerF, upperA, upperF]
  grind

namespace SymbolClass

variable {char : Char}

theorem ofChar_letter_iff :
    ofChar char = .letter ↔
      (65 ≤ char.toNat ∧ char.toNat ≤ 90) ∨ (97 ≤ char.toNat ∧ char.toNat ≤ 122) ∨
        char.toNat = 95 := by
  have underscore : '_'.toNat = 95 := rfl
  unfold ofChar
  simp only [Bool.or_eq_true, Char.isAlpha_iff, Char.isDigit_iff, beq_iff_eq, ← Char.toNat_inj,
    underscore]
  grind

theorem ofChar_digit_iff : ofChar char = .digit ↔ 48 ≤ char.toNat ∧ char.toNat ≤ 57 := by
  have underscore : '_'.toNat = 95 := rfl
  unfold ofChar
  simp only [Bool.or_eq_true, Char.isAlpha_iff, Char.isDigit_iff, beq_iff_eq, ← Char.toNat_inj,
    underscore]
  grind

theorem ofChar_whitespace_iff : ofChar char = .whitespace ↔ char ≤ ' ' := by
  have underscore : '_'.toNat = 95 := rfl
  have space : ' '.toNat = 32 := rfl
  unfold ofChar
  simp only [Bool.or_eq_true, Char.isAlpha_iff, Char.isDigit_iff, beq_iff_eq, ← Char.toNat_inj,
    underscore, Char.le_iff_toNat_le, space]
  grind

theorem ofChar_digit_iff_isDigit : ofChar char = .digit ↔ IsDigit 10 char := by
  rw [ofChar_digit_iff, isDigit_iff]
  omega

end SymbolClass

theorem IsDigit.digit {char : Char} (isDigit : IsDigit 8 char) :
    SymbolClass.ofChar char = .digit := by
  rw [SymbolClass.ofChar_digit_iff]
  rw [isDigit_iff] at isDigit
  omega

/-! ### Lexemes and gaps -/

def digitsValue (base : Nat) (digits : List Char) : Int32 :=
  digits.foldl (fun value digit => value * .ofNat base + (digitValue? base digit).getD 0) 0

def IsWordPart (char : Char) : Prop :=
  SymbolClass.ofChar char = .letter ∨ SymbolClass.ofChar char = .digit

/-- A text spells a token, wherever it stands. -/
inductive Lexeme : List Char → (Position → Token) → Prop where
  | word {first : Char} {others : List Char} (isLetter : SymbolClass.ofChar first = .letter)
      (parts : ∀ char ∈ others, IsWordPart char) :
      Lexeme (first :: others) (.word (String.ofList (first :: others)))
  | decimal {first : Char} {others : List Char} (isDigit : IsDigit 10 first) (notZero : first ≠ '0')
      (digits : ∀ char ∈ others, IsDigit 10 char) :
      Lexeme (first :: others) (.number (digitsValue 10 (first :: others)))
  | zero : Lexeme ['0'] (.number 0)
  | octal {mark : Char} {digits : List Char} (isMark : mark = '0' ∨ mark = '&')
      (notEmpty : digits ≠ []) (areDigits : ∀ char ∈ digits, IsDigit 8 char) :
      Lexeme (mark :: digits) (.number (digitsValue 8 digits))
  | hex {mark digits : List Char} (isMark : mark = ['$'] ∨ mark = ['0', 'x'] ∨ mark = ['0', 'X'])
      (notEmpty : digits ≠ []) (areDigits : ∀ char ∈ digits, IsDigit 16 char) :
      Lexeme (mark ++ digits) (.number (digitsValue 16 digits))
  | symbol {kind : TokenKind} {text : String} (isText : kind.spelling = some text)
      (notReserved : kind ∉ TokenKind.reserved) : Lexeme text.toList (.plain kind)

inductive Gap : List Char → Prop where
  | nil : Gap []
  | blank {char : Char} {gap : List Char} (isBlank : char ≤ ' ') (rest : Gap gap) :
      Gap (char :: gap)
  | comment {inner gap : List Char} (noEnd : '}' ∉ inner) (rest : Gap gap) :
      Gap ('{' :: inner ++ '}' :: gap)

/-- No more of the text behind a lexeme can belong to it. -/
def Longest (lexeme after : List Char) : Prop :=
  ∀ more spelled, more <+: after → Lexeme (lexeme ++ more) spelled → more = []

/-- Words are not too long; other lexemes may have any length. -/
def Short (lexeme : List Char) : Prop :=
  ∀ first others, lexeme = first :: others → SymbolClass.ofChar first = .letter →
    lexeme.length ≤ maxIdentifierLength

theorem digitsValue_append {base : Nat} {digits : List Char} {char : Char} {value : Int32}
    (isValue : digitValue? base char = some value) :
    digitsValue base digits * .ofNat base + value = digitsValue base (digits ++ [char]) := by
  simp [digitsValue, isValue]

theorem isDigit_of_digitValue? {base : Nat} {char : Char} {value : Int32}
    (isValue : digitValue? base char = some value) : IsDigit base char := by
  rw [IsDigit, isValue]
  rfl

/-- Operators and punctuation have one or two characters, none of which is part of a word or opens a
number. -/
theorem TokenKind.symbol_spelling {kind : TokenKind} {text : String}
    (isText : kind.spelling = some text) (notReserved : kind ∉ reserved) :
    ∃ first others, text.toList = first :: others ∧ SymbolClass.ofChar first = .other ∧
      first ≠ '&' ∧ first ≠ '$' ∧ (others = [] ∨ ofChar? first = none ∧ others = ['='] ∨
        first = '<' ∧ others = ['>']) := by
  cases kind <;> first
    | exact absurd (by decide) notReserved
    | cases isText; done
    | cases isText
      exact ⟨_, _, rfl, by decide, by decide, by decide, by decide⟩

theorem Lexeme.cons_iff {first : Char} {others : List Char} {spelled : Position → Token}
    (lexeme : Lexeme (first :: others) spelled) :
    SymbolClass.ofChar first = .letter ∧ (∀ char ∈ others, IsWordPart char) ∨
    IsDigit 10 first ∧ first ≠ '0' ∧ (∀ char ∈ others, IsDigit 10 char) ∨
    (first = '0' ∨ first = '&') ∧ (∀ char ∈ others, IsDigit 8 char) ∨
    first = '$' ∧ (∀ char ∈ others, IsDigit 16 char) ∨
    first = '0' ∧ (∃ mark digits, others = mark :: digits ∧ (mark = 'x' ∨ mark = 'X') ∧
      ∀ char ∈ digits, IsDigit 16 char) ∨
    SymbolClass.ofChar first = .other ∧ first ≠ '&' ∧ first ≠ '$' ∧
      (others = [] ∨ TokenKind.ofChar? first = none ∧ others = ['='] ∨
        first = '<' ∧ others = ['>']) := by
  generalize isText : first :: others = text at lexeme
  cases lexeme with
  | word isLetter parts =>
      cases isText
      exact .inl ⟨isLetter, parts⟩
  | decimal isDigit notZero digits =>
      cases isText
      exact .inr (.inl ⟨isDigit, notZero, digits⟩)
  | zero =>
      cases isText
      exact .inr (.inr (.inl ⟨.inl rfl, by simp⟩))
  | octal isMark notEmpty areDigits =>
      cases isText
      exact .inr (.inr (.inl ⟨isMark, areDigits⟩))
  | hex isMark notEmpty areDigits =>
      rcases isMark with rfl | rfl | rfl
      · cases isText
        exact .inr (.inr (.inr (.inl ⟨rfl, areDigits⟩)))
      · cases isText
        exact .inr (.inr (.inr (.inr (.inl ⟨rfl, _, _, rfl, .inl rfl, areDigits⟩))))
      · cases isText
        exact .inr (.inr (.inr (.inr (.inl ⟨rfl, _, _, rfl, .inr rfl, areDigits⟩))))
  | symbol isSpelling notReserved =>
      obtain ⟨_, _, isCons, rest⟩ := TokenKind.symbol_spelling isSpelling notReserved
      cases isText.trans isCons
      exact .inr (.inr (.inr (.inr (.inr rest))))

/-! ### What the automaton knows -/

namespace Scan

/-- What the automaton knows of a token is what its text so far says. -/
inductive Holds (start : Position) : Scan → List Char → Prop where
  | word {first : Char} {others : List Char} (isLetter : SymbolClass.ofChar first = .letter)
      (parts : ∀ char ∈ others, IsWordPart char) (short : others.length < maxIdentifierLength) :
      Holds start (.word start (String.ofList (first :: others))) (first :: others)
  | decimal {first : Char} {others : List Char} (isDigit : IsDigit 10 first) (notZero : first ≠ '0')
      (digits : ∀ char ∈ others, IsDigit 10 char) :
      Holds start (.decimal start (digitsValue 10 (first :: others))) (first :: others)
  | zero : Holds start (.zero start) ['0']
  | octal {mark : Char} {digits : List Char} (isMark : mark = '0' ∧ digits ≠ [] ∨ mark = '&')
      (areDigits : ∀ char ∈ digits, IsDigit 8 char) :
      Holds start (.octal start (digitsValue 8 digits) !digits.isEmpty) (mark :: digits)
  | hex {mark digits : List Char} (isMark : mark = ['$'] ∨ mark = ['0', 'x'] ∨ mark = ['0', 'X'])
      (areDigits : ∀ char ∈ digits, IsDigit 16 char) :
      Holds start (.hex start (digitsValue 16 digits) !digits.isEmpty) (mark ++ digits)
  | less : Holds start (.less start) ['<']
  | greater : Holds start (.greater start) ['>']
  | colon : Holds start (.colon start) [':']

variable {start position : Position} {state next : Scan} {taken : List Char} {char : Char}
  {token : Token}

theorem holds_start (more : Scan.start char start = .more state) (noGap : state ≠ .blank)
    (noComment : ∀ origin, state ≠ .comment origin) : state.Holds start [char] := by
  unfold Scan.start at more
  split at more
  · cases more
  · split at more
    · cases more
      exact absurd rfl (noComment _)
    · cases more
      exact .less
    · cases more
      exact .greater
    · cases more
      exact .colon
    · cases more
      exact @Holds.hex start ['$'] [] (.inl rfl) (by simp)
    · cases more
      exact @Holds.octal start '&' [] (.inr rfl) (by simp)
    · cases more
      exact .zero
    · rename_i notZero
      split at more
      · cases more
        exact absurd rfl noGap
      · rename_i isLetter
        cases more
        exact .word isLetter (by simp) (by simp [maxIdentifierLength])
      · rename_i isDigit
        cases more
        have holds : Holds start _ [char] :=
          .decimal (SymbolClass.ofChar_digit_iff_isDigit.1 isDigit) notZero (by simp)
        simpa [digitsValue] using holds
      · cases more

theorem forall_mem_append_singleton {property : Char → Prop} {chars : List Char}
    (front : ∀ char ∈ chars, property char) (last : property char) :
    ∀ other ∈ chars ++ [char], property other := by
  intro other isOther
  rcases List.mem_append.1 isOther with isOther | isOther
  · exact front other isOther
  · rw [List.mem_singleton.1 isOther]
    exact last

theorem not_isEmpty_append_singleton (chars : List Char) (last : Char) :
    (!(chars ++ [last]).isEmpty) = true := by
  cases chars <;> rfl

theorem holds_step (holds : state.Holds start taken)
    (more : state.step char position = .more next) : next.Holds start (taken ++ [char]) := by
  cases holds with
  | @word first others isLetter parts short =>
      simp only [step] at more
      split at more
      · rename_i isPart
        split at more <;> cases more
        rename_i isShort
        have isText : (String.ofList (first :: others)).push char =
            String.ofList (first :: (others ++ [char])) := by
          apply String.toList_injective
          simp
        rw [isText]
        refine .word isLetter (forall_mem_append_singleton parts (by simpa [IsWordPart] using isPart)) ?_
        simpa [Nat.add_comm] using isShort
      · cases more
  | @decimal first others isDigit notZero digits =>
      simp only [step] at more
      split at more <;> cases more
      rename_i isValue
      rw [show (10 : Int32) = .ofNat 10 from rfl, digitsValue_append isValue]
      exact .decimal isDigit notZero
        (forall_mem_append_singleton digits (isDigit_of_digitValue? isValue))
  | zero =>
      simp only [step] at more
      -- the zero turns out to be the mark of an octal or of a hexadecimal literal
      split at more
      · split at more <;> cases more
        rename_i digit isValue
        have value : digit = digitsValue 8 [char] := by
          simp [digitsValue, isValue]
        rw [value]
        refine @Holds.octal start '0' [char] (.inl ⟨rfl, by simp⟩) ?_
        simpa using isDigit_of_digitValue? isValue
      · split at more
        · split at more <;> cases more
          rename_i isX
          refine @Holds.hex start ['0', char] [] ?_ (by simp)
          simpa using isX
        · cases more
  | @octal mark digits isMark areDigits =>
      simp only [step] at more
      split at more
      · cases more
        rename_i isValue
        rw [show (8 : Int32) = .ofNat 8 from rfl, digitsValue_append isValue,
          ← not_isEmpty_append_singleton digits char]
        exact .octal (isMark.imp (fun isZero => ⟨isZero.1, by simp⟩) id)
          (forall_mem_append_singleton areDigits (isDigit_of_digitValue? isValue))
      · split at more <;> cases more
  | @hex mark digits isMark areDigits =>
      simp only [step] at more
      split at more
      · cases more
        rename_i isValue
        rw [show (16 : Int32) = .ofNat 16 from rfl, digitsValue_append isValue,
          ← not_isEmpty_append_singleton digits char, List.append_assoc]
        exact .hex isMark
          (forall_mem_append_singleton areDigits (isDigit_of_digitValue? isValue))
      · split at more <;> cases more
  | less =>
      simp only [step] at more
      split at more <;> cases more
  | greater | colon =>
      simp only [step] at more
      split at more <;> cases more

theorem lexeme_of_last (holds : state.Holds start taken)
    (last : state.step char position = .last token) :
    ∃ spelled, token = spelled start ∧ Lexeme (taken ++ [char]) spelled := by
  cases holds with
  | less =>
      simp only [step] at last
      split at last <;> cases last
      · exact ⟨_, rfl, @Lexeme.symbol .lessEqual _ rfl (by decide)⟩
      · exact ⟨_, rfl, @Lexeme.symbol .notEqual _ rfl (by decide)⟩
  | greater =>
      simp only [step] at last
      split at last <;> cases last
      rename_i isEqual
      rw [beq_iff_eq.1 isEqual]
      exact ⟨_, rfl, @Lexeme.symbol .greaterEqual _ rfl (by decide)⟩
  | colon =>
      simp only [step] at last
      split at last <;> cases last
      rename_i isEqual
      rw [beq_iff_eq.1 isEqual]
      exact ⟨_, rfl, @Lexeme.symbol .assign _ rfl (by decide)⟩
  | _ =>
      simp only [step] at last
      repeat' split at last
      all_goals cases last

theorem lexeme_of_result (holds : state.Holds start taken)
    (ok : state.result position = .ok token) :
    ∃ spelled, token = spelled start ∧ Lexeme taken spelled := by
  cases holds with
  | word isLetter parts short =>
      cases ok
      exact ⟨_, rfl, .word isLetter parts⟩
  | decimal isDigit notZero digits =>
      cases ok
      exact ⟨_, rfl, .decimal isDigit notZero digits⟩
  | zero =>
      cases ok
      exact ⟨_, rfl, .zero⟩
  | octal isMark areDigits =>
      simp only [result] at ok
      split at ok <;> cases ok
      rename_i notEmpty
      exact ⟨_, rfl, .octal (isMark.imp And.left id) (by simpa using notEmpty) areDigits⟩
  | hex isMark areDigits =>
      simp only [result] at ok
      split at ok <;> cases ok
      rename_i notEmpty
      exact ⟨_, rfl, .hex isMark (by simpa using notEmpty) areDigits⟩
  | less =>
      cases ok
      exact ⟨_, rfl, @Lexeme.symbol .less _ rfl (by decide)⟩
  | greater =>
      cases ok
      exact ⟨_, rfl, @Lexeme.symbol .greater _ rfl (by decide)⟩
  | colon =>
      cases ok
      exact ⟨_, rfl, @Lexeme.symbol .colon _ rfl (by decide)⟩

end Scan

/-! ### No longer lexemes -/

theorem SymbolClass.ofChar_marks :
    ofChar '0' = .digit ∧ ofChar '&' = .other ∧ ofChar '$' = .other := by decide

namespace Lexeme

variable {first : Char} {others : List Char} {spelled : Position → Token}

theorem word_parts (lexeme : Lexeme (first :: others) spelled)
    (isLetter : SymbolClass.ofChar first = .letter) : ∀ char ∈ others, IsWordPart char := by
  have byFirst := lexeme.cons_iff
  have marks := SymbolClass.ofChar_marks
  have isDigit := @SymbolClass.ofChar_digit_iff_isDigit first
  grind

theorem decimal_digits (lexeme : Lexeme (first :: others) spelled) (isDigit : IsDigit 10 first)
    (notZero : first ≠ '0') : ∀ char ∈ others, IsDigit 10 char := by
  have byFirst := lexeme.cons_iff
  have marks := SymbolClass.ofChar_marks
  have isDigit := SymbolClass.ofChar_digit_iff_isDigit.2 isDigit
  grind

theorem zero_cases (lexeme : Lexeme ('0' :: others) spelled) :
    (∀ char ∈ others, IsDigit 8 char) ∨
      ∃ mark digits, others = mark :: digits ∧ (mark = 'x' ∨ mark = 'X') ∧
        ∀ char ∈ digits, IsDigit 16 char := by
  have byFirst := lexeme.cons_iff
  have marks := SymbolClass.ofChar_marks
  grind

theorem ampersand_digits (lexeme : Lexeme ('&' :: others) spelled) :
    ∀ char ∈ others, IsDigit 8 char := by
  have byFirst := lexeme.cons_iff
  have marks := SymbolClass.ofChar_marks
  have isDigit := @SymbolClass.ofChar_digit_iff_isDigit '&'
  grind

theorem dollar_digits (lexeme : Lexeme ('$' :: others) spelled) :
    ∀ char ∈ others, IsDigit 16 char := by
  have byFirst := lexeme.cons_iff
  have marks := SymbolClass.ofChar_marks
  have isDigit := @SymbolClass.ofChar_digit_iff_isDigit '$'
  grind

theorem symbol_cases (lexeme : Lexeme (first :: others) spelled)
    (isOther : SymbolClass.ofChar first = .other) (noNumber : first ≠ '&' ∧ first ≠ '$') :
    others = [] ∨ TokenKind.ofChar? first = none ∧ others = ['='] ∨
      first = '<' ∧ others = ['>'] := by
  have byFirst := lexeme.cons_iff
  have marks := SymbolClass.ofChar_marks
  have isDigit := @SymbolClass.ofChar_digit_iff_isDigit first
  grind

end Lexeme

namespace Scan

variable {start position : Position} {state : Scan} {taken : List Char} {char : Char}
  {token : Token}

theorem not_lexeme_of_before (holds : state.Holds start taken)
    (before : state.step char position = .before) (more : List Char)
    (spelled : Position → Token) : ¬ Lexeme (taken ++ char :: more) spelled := by
  intro lexeme
  cases holds with
  | word isLetter parts short =>
      have isPart := lexeme.word_parts isLetter char (by simp)
      simp only [step] at before
      split at before
      · split at before <;> cases before
      · rename_i noPart
        exact noPart (by simpa [IsWordPart] using isPart)
  | decimal isDigit notZero digits =>
      have isDigit := lexeme.decimal_digits isDigit notZero char (by simp)
      simp only [step] at before
      split at before
      · cases before
      · rename_i noDigit
        simp [IsDigit, noDigit] at isDigit
  | zero =>
      simp only [step] at before
      -- a digit makes the zero an octal literal, and an `x` a hexadecimal one
      rcases lexeme.zero_cases with areDigits | ⟨mark, digits, isMore, isX, -⟩
      · have isDigit := (areDigits char (by simp)).digit
        simp only [isDigit, beq_self_eq_true, if_true] at before
        split at before <;> cases before
      · cases isMore
        have isLetter : SymbolClass.ofChar char = .letter := by
          rcases isX with rfl | rfl <;> decide
        have isX' : (char == 'x' || char == 'X') = true := by simpa using isX
        simp [isLetter, isX'] at before
  | octal isMark areDigits =>
      simp only [step] at before
      have isDigit : IsDigit 8 char := by
        rcases isMark with ⟨rfl, notEmpty⟩ | rfl
        · rcases lexeme.zero_cases with areDigits | ⟨mark, digits, isMore, isX, -⟩
          · exact areDigits char (by simp)
          · obtain ⟨first, others, rfl⟩ := List.exists_cons_of_ne_nil notEmpty
            cases isMore
            have isDigit := areDigits mark (by simp)
            rcases isX with rfl | rfl <;> exact absurd isDigit (by simp [isDigit_iff])
        · exact lexeme.ampersand_digits char (by simp)
      split at before
      · cases before
      · rename_i noDigit
        simp [IsDigit, noDigit] at isDigit
  | hex isMark areDigits =>
      simp only [step] at before
      have isDigit : IsDigit 16 char := by
        rcases isMark with rfl | rfl | rfl
        · exact lexeme.dollar_digits char (by simp)
        · rcases lexeme.zero_cases with areDigits | ⟨mark, digits, isMore, isX, areDigits⟩
          · exact absurd (areDigits 'x' (by simp)) (by simp [isDigit_iff])
          · cases isMore
            exact areDigits char (by simp)
        · rcases lexeme.zero_cases with areDigits | ⟨mark, digits, isMore, isX, areDigits⟩
          · exact absurd (areDigits 'X' (by simp)) (by simp [isDigit_iff])
          · cases isMore
            exact areDigits char (by simp)
      split at before
      · cases before
      · rename_i noDigit
        simp [IsDigit, noDigit] at isDigit
  | less =>
      have isMore : char = '=' ∨ char = '>' := by
        rcases lexeme.symbol_cases (by decide) (by decide) with isMore | ⟨-, isMore⟩ | ⟨-, isMore⟩
        · cases isMore
        · exact .inl (List.cons.inj isMore).1
        · exact .inr (List.cons.inj isMore).1
      rcases isMore with rfl | rfl <;> cases before
  | greater | colon =>
      have isMore : char = '=' := by
        rcases lexeme.symbol_cases (by decide) (by decide) with isMore | ⟨-, isMore⟩ | ⟨isLess, -⟩
        · cases isMore
        · exact (List.cons.inj isMore).1
        · exact absurd isLess (by decide)
      subst isMore
      cases before

theorem longest_of_before (holds : state.Holds start taken)
    (before : state.step char position = .before) (after : List Char) :
    Longest taken (char :: after) := by
  intro more spelled isPrefix lexeme
  cases more with
  | nil => rfl
  | cons first others =>
      rw [List.cons_prefix_cons] at isPrefix
      rw [isPrefix.1] at lexeme
      exact absurd lexeme (not_lexeme_of_before holds before others spelled)

theorem longest_of_last (holds : state.Holds start taken)
    (last : state.step char position = .last token) (after : List Char) :
    Longest (taken ++ [char]) after := by
  intro more spelled isPrefix lexeme
  rw [List.append_assoc] at lexeme
  cases holds with
  | less | greater | colon =>
      rcases lexeme.symbol_cases (by decide) (by decide) with isMore | ⟨-, isMore⟩ | ⟨-, isMore⟩
      · cases isMore
      · exact (List.cons.inj isMore).2
      · exact (List.cons.inj isMore).2
  | _ =>
      simp only [step] at last
      repeat' split at last
      all_goals cases last

theorem start_last (last : Scan.start char position = .last token) :
    ∃ kind, TokenKind.ofChar? char = some kind ∧ token = .plain kind position := by
  unfold Scan.start at last
  split at last
  · rename_i kind isKind
    cases last
    exact ⟨kind, isKind, rfl⟩
  · split at last <;> try cases last
    split at last <;> cases last

theorem ofChar?_ofChar {kind : TokenKind} (isKind : TokenKind.ofChar? char = some kind) :
    SymbolClass.ofChar char = .other := by
  unfold TokenKind.ofChar? at isKind
  split at isKind <;> first
    | decide
    | cases isKind

theorem lexeme_of_ofChar? {kind : TokenKind} (isKind : TokenKind.ofChar? char = some kind)
    (after : List Char) : Lexeme [char] (.plain kind) ∧ Longest [char] after := by
  have isSymbol : kind.spelling = some char.toString ∧ kind ∉ TokenKind.reserved ∧
      SymbolClass.ofChar char = .other ∧ char ≠ '&' ∧ char ≠ '$' ∧ char ≠ '<' := by
    unfold TokenKind.ofChar? at isKind
    split at isKind
    all_goals cases isKind; try exact ⟨rfl, by decide, by decide, by decide, by decide, by decide⟩
  obtain ⟨isText, notReserved, isOther, noNumber, notDollar, notLess⟩ := isSymbol
  refine ⟨?_, fun more spelled isPrefix lexeme => ?_⟩
  · simpa using Lexeme.symbol isText notReserved
  · have := lexeme.symbol_cases isOther ⟨noNumber, notDollar⟩
    simpa [isKind, notLess] using this

/-! ### From gap to lexeme -/

theorem short_of_first {first : Char} {others : List Char}
    (notLetter : SymbolClass.ofChar first ≠ .letter) : Short (first :: others) := by
  rintro _ _ ⟨⟩ isLetter
  exact absurd isLetter notLetter

theorem short_of_holds (holds : state.Holds start taken) : Short taken := by
  cases holds with
  | word isLetter parts short => exact fun _ _ _ _ => short
  | decimal isDigit notZero digits =>
      apply short_of_first
      simp [SymbolClass.ofChar_digit_iff_isDigit.2 isDigit]
  | octal isMark areDigits =>
      apply short_of_first
      rcases isMark with ⟨rfl, -⟩ | rfl <;> decide
  | hex isMark areDigits =>
      rcases isMark with rfl | rfl | rfl <;> exact short_of_first (by decide)
  | zero | less | greater | colon => exact short_of_first (by decide)

theorem short_of_last (holds : state.Holds start taken)
    (last : state.step char position = .last token) : Short (taken ++ [char]) := by
  cases holds with
  | less | greater | colon => exact short_of_first (by decide)
  | _ =>
      simp only [step] at last
      repeat' split at last
      all_goals cases last

theorem run_result {before after : List Char} {position : Position}
    {result : Token × List Char × List Char}
    (ok : (do return (← state.result position, before, after)) = (.ok result : Except LexError _)) :
    state.result position = .ok result.1 ∧ result.2 = (before, after) := by
  cases isResult : state.result position with
  | error error => simp [isResult] at ok
  | ok token =>
      simp only [isResult, ok_bind, pure_eq, Except.ok.injEq] at ok
      subst ok
      exact ⟨rfl, rfl⟩

theorem run_holds {before after before' after' : List Char} (holds : state.Holds start taken)
    (ok : state.run before after = .ok (token, before', after')) :
    ∃ more spelled, after = more ++ after' ∧ before' = before ++ more ∧ token = spelled start ∧
      Lexeme (taken ++ more) spelled ∧ Longest (taken ++ more) after' ∧ Short (taken ++ more) := by
  induction after generalizing state taken before with
  | nil =>
      rw [run] at ok
      obtain ⟨isResult, isPlace⟩ := run_result ok
      cases isPlace
      obtain ⟨spelled, isSpelled, lexeme⟩ := lexeme_of_result holds isResult
      refine ⟨[], spelled, by simp, by simp, isSpelled, by simpa using lexeme, ?_,
        by simpa using short_of_holds holds⟩
      intro more _ isPrefix _
      simpa using isPrefix
  | cons char after ih =>
      rw [run] at ok
      cases isStep : state.step char (place before) with
      | more next =>
          rw [isStep] at ok
          obtain ⟨more, spelled, rfl, rfl, isSpelled, lexeme, longest, short⟩ :=
            ih (holds_step holds isStep) ok
          rw [List.append_assoc, List.singleton_append] at lexeme longest short
          exact ⟨char :: more, spelled, rfl, by simp, isSpelled, lexeme, longest, short⟩
      | last result =>
          rw [isStep] at ok
          cases ok
          obtain ⟨spelled, isSpelled, lexeme⟩ := lexeme_of_last holds isStep
          exact ⟨[char], spelled, rfl, rfl, isSpelled, lexeme, longest_of_last holds isStep after',
            short_of_last holds isStep⟩
      | before =>
          rw [isStep] at ok
          obtain ⟨isResult, isPlace⟩ := run_result ok
          cases isPlace
          obtain ⟨spelled, isSpelled, lexeme⟩ := lexeme_of_result holds isResult
          refine ⟨[], spelled, by simp, by simp, isSpelled, by simpa using lexeme, ?_,
            by simpa using short_of_holds holds⟩
          simpa using longest_of_before holds isStep after
      | fail error =>
          rw [isStep] at ok
          cases ok

theorem run_comment {origin : Position} {before after : List Char}
    {result : Token × List Char × List Char}
    (ok : (comment origin).run before after = .ok result) :
    ∃ inner rest, after = inner ++ '}' :: rest ∧ '}' ∉ inner ∧
      blank.run (before ++ inner ++ ['}']) rest = .ok result := by
  induction after generalizing before with
  | nil => cases ok
  | cons char after ih =>
      rw [run] at ok
      by_cases isEnd : char = '}'
      · subst isEnd
        exact ⟨[], after, rfl, by simp, by simpa [step] using ok⟩
      · simp only [step, beq_iff_eq, isEnd, if_false] at ok
        obtain ⟨inner, rest, rfl, noEnd, success⟩ := ih ok
        exact ⟨char :: inner, rest, rfl, by simp [Ne.symm isEnd, noEnd], by simpa using success⟩

theorem start_gap (more : Scan.start char position = .more state) :
    state = .blank ∧ char ≤ ' ' ∨ state = .comment position ∧ char = '{' ∨
      state ≠ .blank ∧ ∀ origin, state ≠ .comment origin := by
  unfold Scan.start at more
  split at more
  · cases more
  · split at more
    · cases more
      exact .inr (.inl ⟨rfl, rfl⟩)
    all_goals try (cases more; exact .inr (.inr ⟨by simp, by simp⟩))
    split at more
    · rename_i isBlank
      cases more
      exact .inl ⟨rfl, SymbolClass.ofChar_whitespace_iff.1 isBlank⟩
    all_goals cases more
    all_goals exact .inr (.inr ⟨by simp, by simp⟩)

theorem run_blank {before after before' after' : List Char}
    (ok : blank.run before after = .ok (token, before', after')) :
    ∃ gap, Gap gap ∧
      ((∃ lexeme spelled, after = gap ++ lexeme ++ after' ∧ before' = before ++ gap ++ lexeme ∧
        token = spelled (place (before ++ gap)) ∧ Lexeme lexeme spelled ∧ Longest lexeme after' ∧
        Short lexeme) ∨
      after = gap ∧ after' = [] ∧ before' = before ++ gap ∧
        token = .plain .endOfInput (endPlace before')) := by
  cases after with
  | nil =>
      cases ok
      exact ⟨[], .nil, .inr ⟨rfl, rfl, by simp, rfl⟩⟩
  | cons char after =>
      have isRun := ok
      rw [run] at ok
      cases isStep : blank.step char (place before) with
      | more next =>
          rw [isStep] at ok
          rcases start_gap isStep with ⟨rfl, isBlank⟩ | ⟨rfl, rfl⟩ | ⟨noGap, noComment⟩
          · obtain ⟨gap, isGap, found⟩ := run_blank ok
            refine ⟨char :: gap, .blank isBlank isGap, ?_⟩
            simpa using found
          · obtain ⟨inner, rest, rfl, noEnd, success⟩ := run_comment ok
            obtain ⟨gap, isGap, found⟩ := run_blank success
            refine ⟨'{' :: inner ++ '}' :: gap, .comment noEnd isGap, ?_⟩
            simpa using found
          · obtain ⟨more, spelled, rfl, rfl, isSpelled, found⟩ :=
              run_holds (holds_start isStep noGap noComment) ok
            exact ⟨[], .nil, .inl ⟨char :: more, spelled, by simp, by simp, by simpa using isSpelled,
              found⟩⟩
      | last result =>
          rw [isStep] at ok
          cases ok
          obtain ⟨kind, isKind, rfl⟩ := start_last isStep
          obtain ⟨lexeme, longest⟩ := lexeme_of_ofChar? isKind after'
          refine ⟨[], .nil, .inl ⟨[char], .plain kind, rfl, by simp, by simp, lexeme, longest, ?_⟩⟩
          exact short_of_first (by simp [ofChar?_ofChar isKind])
      | before => exact absurd isStep (start_ne_before char (place before))
      | fail error =>
          rw [isStep] at ok
          cases ok
termination_by after.length

theorem start_blank (isBlank : char ≤ ' ') : Scan.start char position = .more .blank := by
  have isWhitespace := SymbolClass.ofChar_whitespace_iff.2 isBlank
  unfold Scan.start
  split
  · rename_i isKind
    rw [ofChar?_ofChar isKind] at isWhitespace
    cases isWhitespace
  · split <;> first
      | exact absurd isWhitespace (by decide)
      | rw [isWhitespace]

theorem run_comment_eq (origin : Position) {inner : List Char} (noEnd : '}' ∉ inner)
    (before after : List Char) :
    (comment origin).run before (inner ++ '}' :: after) =
      blank.run (before ++ inner ++ ['}']) after := by
  induction inner generalizing before with
  | nil => simp [run, step]
  | cons char inner ih =>
      rw [List.mem_cons, not_or] at noEnd
      simp [run, step, Ne.symm noEnd.1, ih noEnd.2]

theorem run_gap {gap : List Char} (isGap : Gap gap) (before after : List Char) :
    blank.run before (gap ++ after) = blank.run (before ++ gap) after := by
  induction isGap generalizing before with
  | nil => simp
  | @blank char gap isBlank rest ih =>
      rw [List.cons_append, run, step, start_blank isBlank]
      simp [ih]
  | @comment inner gap noEnd rest ih =>
      rw [List.append_assoc, List.cons_append, run]
      simpa [step, start, TokenKind.ofChar?, ih] using
        run_comment_eq (place before) noEnd (before ++ ['{']) (gap ++ after)

end Scan

end MiniPascal
