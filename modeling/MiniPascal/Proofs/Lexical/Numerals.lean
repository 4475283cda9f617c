import MiniPascal.Proofs.Lexical.Cutting
import Mathlib.Data.List.Induction
import Mathlib.Data.Nat.Digits.Defs
import Mathlib.Tactic.IntervalCases

/-!
# Number literals

What the texts of number literals look like and which numbers they stand for, told without the
automaton and without its 32 bits: the digits of a literal count by their places, however many there
are.  A lexer in front of a literal gives one token, whose value is that number modulo `2 ^ 32`, read
as a signed integer; in front of a spoilt literal it gives an error; and it gives numbers for nothing
else.
-/

namespace MiniPascal

/-! ### Digits and their places -/

def digitWorth (char : Char) : Nat :=
  min ("0123456789abcdef".toList.idxOf char) ("0123456789ABCDEF".toList.idxOf char)

/-- The number that digits spell in a base, the last one counting once. -/
def spelledNumber (base : Nat) (digits : List Char) : Nat :=
  Nat.ofDigits base (digits.reverse.map digitWorth)

theorem IsDigit.mono {base larger : Nat} {char : Char} (isDigit : IsDigit base char)
    (le : base ≤ larger) : IsDigit larger char := by
  rw [isDigit_iff] at isDigit ⊢
  omega

theorem digitWorth_of_not_isDigit {char : Char} (notDigit : ¬ IsDigit 16 char) :
    digitWorth char = 16 := by
  have lower : ∀ digit ∈ "0123456789abcdef".toList, IsDigit 16 digit := List.all_eq_true.1 (by decide)
  have upper : ∀ digit ∈ "0123456789ABCDEF".toList, IsDigit 16 digit := List.all_eq_true.1 (by decide)
  rw [digitWorth, List.idxOf_eq_length fun isIn => notDigit (lower char isIn),
    List.idxOf_eq_length fun isIn => notDigit (upper char isIn)]
  rfl

theorem digitValue?_eq {base : Nat} (small : base ≤ 16) (char : Char) :
    digitValue? base char =
      if digitWorth char < base then some (.ofNat (digitWorth char)) else none := by
  by_cases isDigit : IsDigit 16 char
  · rw [isDigit_iff] at isDigit
    have isChar : char = Char.ofNat char.toNat := (Char.ofNat_toNat char).symm
    generalize char.toNat = code at isDigit isChar
    subst isChar
    rcases isDigit with ⟨low, high, -⟩ | ⟨low, high, -⟩ | ⟨low, high, -⟩ <;>
      interval_cases code <;> rfl
  · have isNone : digitValue? base char = none :=
      Option.not_isSome_iff_eq_none.1 fun isSome => isDigit (IsDigit.mono isSome small)
    rw [isNone, digitWorth_of_not_isDigit isDigit, if_neg (by omega)]

theorem isDigit_iff_worth {base : Nat} (small : base ≤ 16) {char : Char} :
    IsDigit base char ↔ digitWorth char < base := by
  rw [IsDigit, digitValue?_eq small]
  split <;> simp [*]

/-- Wrapping around with every digit comes to the same as wrapping around once. -/
theorem digitsValue_eq {base : Nat} (small : base ≤ 16) {digits : List Char}
    (areDigits : ∀ char ∈ digits, digitWorth char < base) :
    digitsValue base digits = .ofNat (spelledNumber base digits) := by
  induction digits using List.reverseRecOn with
  | nil => rfl
  | append_singleton front last ih =>
      have isLast : digitValue? base last = some (.ofNat (digitWorth last)) := by
        rw [digitValue?_eq small, if_pos (areDigits last (by simp))]
      have isFront := ih fun char isIn => areDigits char (List.mem_append_left _ isIn)
      have isSum : spelledNumber base (front ++ [last]) =
          spelledNumber base front * base + digitWorth last := by
        simp [spelledNumber, Nat.ofDigits_cons, Nat.add_comm, Nat.mul_comm]
      rw [← digitsValue_append isLast, isFront, isSum, Int32.ofNat_add, Int32.ofNat_mul]

/-! ### Literals -/

def IsHexMark (mark : List Char) : Prop := mark = ['$'] ∨ mark = ['0', 'x'] ∨ mark = ['0', 'X']

/-- A text is a number literal in a base and stands for a number.  A `0` alone is an octal literal
without digits. -/
inductive Numeral : Nat → List Char → Nat → Prop where
  | decimal {first : Char} {others : List Char} (notZero : first ≠ '0')
      (areDigits : ∀ char ∈ first :: others, digitWorth char < 10) :
      Numeral 10 (first :: others) (spelledNumber 10 (first :: others))
  | zero : Numeral 8 ['0'] 0
  | octal {mark : Char} {digits : List Char} (isMark : mark = '0' ∨ mark = '&')
      (notEmpty : digits ≠ []) (areDigits : ∀ char ∈ digits, digitWorth char < 8) :
      Numeral 8 (mark :: digits) (spelledNumber 8 digits)
  | hex {mark digits : List Char} (isMark : IsHexMark mark) (notEmpty : digits ≠ [])
      (areDigits : ∀ char ∈ digits, digitWorth char < 16) :
      Numeral 16 (mark ++ digits) (spelledNumber 16 digits)

/-- The text behind a literal ends it: a decimal one ends in front of what is no digit, any other in
front of what is neither a digit nor a letter. -/
def EndsNumeral (base : Nat) (after : List Char) : Prop :=
  ∀ char ∈ after.head?, SymbolClass.ofChar char ≠ .digit ∧
    (base ≠ 10 → SymbolClass.ofChar char ≠ .letter)

/-- The text behind begins with a digit or a letter that is no digit of the base. -/
def Spoils (base : Nat) (after : List Char) : Prop :=
  ∃ char ∈ after.head?, IsWordPart char ∧ base ≤ digitWorth char

def NoDigit (base : Nat) (after : List Char) : Prop :=
  ∀ char ∈ after.head?, base ≤ digitWorth char

/-- A text begins a literal that the text behind it spoils, or that has no digits. -/
inductive Misspelled : List Char → List Char → (Position → LexError) → Prop where
  /-- `8`, `9` or a letter behind octal digits. -/
  | octal {mark : Char} {digits after : List Char} (isMark : mark = '0' ∨ mark = '&')
      (notEmpty : digits ≠ []) (areDigits : ∀ char ∈ digits, digitWorth char < 8)
      (spoils : Spoils 8 after) : Misspelled (mark :: digits) after .invalidOctal
  | noOctal {after : List Char} (noDigit : NoDigit 8 after) : Misspelled ['&'] after .invalidOctal
  | zeroDigit {char : Char} {after : List Char} (isDigit : char = '8' ∨ char = '9') :
      Misspelled ['0'] (char :: after) .invalidOctal
  | zeroLetter {char : Char} {after : List Char} (isLetter : SymbolClass.ofChar char = .letter)
      (notX : char ≠ 'x' ∧ char ≠ 'X') : Misspelled ['0'] (char :: after) .invalidHex
  /-- A letter behind hexadecimal digits. -/
  | hex {mark digits after : List Char} (isMark : IsHexMark mark) (notEmpty : digits ≠ [])
      (areDigits : ∀ char ∈ digits, digitWorth char < 16) (spoils : Spoils 16 after) :
      Misspelled (mark ++ digits) after .invalidHex
  | noHex {mark after : List Char} (isMark : IsHexMark mark) (noDigit : NoDigit 16 after) :
      Misspelled mark after .invalidHex

/-! ### Digits in the automaton -/

namespace Scan

def Accumulates (base : Nat) (state : Int32 → Bool → Scan) : Prop :=
  ∀ ⦃char : Char⦄ ⦃digit : Int32⦄, digitValue? base char = some digit →
    ∀ value seen position,
      (state value seen).step char position = .more (state (value * .ofNat base + digit) true)

variable {start : Position} {base : Nat} {state : Int32 → Bool → Scan}

theorem accumulates_decimal : Accumulates 10 fun value _ => decimal start value := by
  intro char digit isDigit value seen position
  simp only [step, isDigit]
  rfl

theorem accumulates_octal : Accumulates 8 (octal start) := by
  intro char digit isDigit value seen position
  simp only [step, isDigit]
  rfl

theorem accumulates_hex : Accumulates 16 (hex start) := by
  intro char digit isDigit value seen position
  simp only [step, isDigit]
  rfl

theorem run_digits (accumulates : Accumulates base state) (small : base ≤ 16)
    {digits : List Char} (areDigits : ∀ char ∈ digits, digitWorth char < base)
    (taken before after : List Char) (seen : Bool) :
    (state (digitsValue base taken) seen).run before (digits ++ after) =
      (state (digitsValue base (taken ++ digits)) (seen || !digits.isEmpty)).run
        (before ++ digits) after := by
  induction digits generalizing taken before seen with
  | nil => simp
  | cons first others ih =>
      obtain ⟨isFirst, areOthers⟩ := List.forall_mem_cons.1 areDigits
      have isValue : digitValue? base first = some (.ofNat (digitWorth first)) := by
        rw [digitValue?_eq small, if_pos isFirst]
      have isStep := accumulates isValue (digitsValue base taken) seen (place before)
      rw [digitsValue_append isValue] at isStep
      rw [List.cons_append, run, isStep]
      simp [ih areOthers]

theorem run_of_before {state : Scan} {before after : List Char} {token : Token}
    (isBefore : ∀ char ∈ after.head?, ∀ position, state.step char position = .before)
    (isResult : ∀ position, state.result position = .ok token) :
    state.run before after = .ok (token, before, after) := by
  cases after with
  | nil => simp [run, isResult]
  | cons char after => simp [run, isBefore char rfl, isResult]

theorem run_of_fail {state : Scan} {before after : List Char} {error : LexError}
    (fails : ∀ char ∈ after.head?, ∀ position,
      state.step char position = .before ∧ state.result position = .error error ∨
        state.step char position = .fail error)
    (atEnd : after = [] → ∀ position, state.result position = .error error) :
    state.run before after = .error error := by
  cases after with
  | nil => simp [run, atEnd]
  | cons char after =>
      rcases fails char rfl (place before) with ⟨isBefore, isResult⟩ | isFail
      · simp [run, isBefore, isResult]
      · simp [run, isFail]

/-! ### Literals in the automaton -/

theorem start_zero (position : Position) : Scan.start '0' position = .more (.zero position) := rfl

theorem start_ampersand (position : Position) :
    Scan.start '&' position = .more (.octal position 0 false) :=
  rfl

theorem run_decimal {first : Char} {others : List Char} (notZero : first ≠ '0')
    (areDigits : ∀ char ∈ first :: others, digitWorth char < 10) (before after : List Char) :
    blank.run before (first :: others ++ after) =
      (decimal (place before) (digitsValue 10 (first :: others))).run
        (before ++ first :: others) after := by
  obtain ⟨isFirst, areOthers⟩ := List.forall_mem_cons.1 areDigits
  have isStart : ∀ position,
      start first position = .more (.decimal position (digitsValue 10 [first])) := by
    rw [← isDigit_iff_worth (by decide), isDigit_iff] at isFirst
    have isChar : first = Char.ofNat first.toNat := (Char.ofNat_toNat first).symm
    generalize first.toNat = code at isFirst isChar
    subst isChar
    obtain ⟨low, high, -⟩ | ⟨low, high, small⟩ | ⟨low, high, small⟩ := isFirst
    · interval_cases code
      · exact absurd rfl notZero
      all_goals exact fun position => rfl
    all_goals omega
  have isRun := run_digits (@accumulates_decimal (place before)) (by decide) areOthers [first]
    (before ++ [first]) after true
  rw [List.cons_append, run, step, isStart]
  simpa using isRun

theorem run_octal {mark : Char} {digits : List Char} (isMark : mark = '0' ∨ mark = '&')
    (notEmpty : digits ≠ []) (areDigits : ∀ char ∈ digits, digitWorth char < 8)
    (before after : List Char) :
    blank.run before (mark :: digits ++ after) =
      (octal (place before) (digitsValue 8 digits) true).run (before ++ mark :: digits) after := by
  obtain ⟨first, others, rfl⟩ := List.exists_cons_of_ne_nil notEmpty
  obtain ⟨isFirst, areOthers⟩ := List.forall_mem_cons.1 areDigits
  have isRun := run_digits (@accumulates_octal (place before)) (by decide) areOthers [first]
    (before ++ [mark, first]) after true
  have isValue : digitValue? 8 first = some (digitsValue 8 [first]) := by
    rw [digitsValue_eq (by decide) (by simpa using isFirst), digitValue?_eq (by decide),
      if_pos isFirst]
    simp [spelledNumber]
  have isDigit : SymbolClass.ofChar first = .digit := by
    apply IsDigit.digit
    rw [IsDigit, isValue]
    rfl
  have isStep : ∀ position, (octal (place before) 0 false).step first position =
      .more (octal (place before) (digitsValue 8 [first]) true) := by
    intro position
    simp [step, isValue]
  have isStepZero : ∀ position, (zero (place before)).step first position =
      .more (octal (place before) (digitsValue 8 [first]) true) := by
    intro position
    simp [step, isDigit, isValue]
  rcases isMark with rfl | rfl
  · rw [List.cons_append, run, step, start_zero]
    simp only [List.cons_append, run, isStepZero]
    simpa using isRun
  · rw [List.cons_append, run, step, start_ampersand]
    simp only [List.cons_append, run, isStep]
    simpa using isRun

theorem run_hexMark {mark : List Char} (isMark : IsHexMark mark) (before after : List Char) :
    blank.run before (mark ++ after) =
      (hex (place before) 0 false).run (before ++ mark) after := by
  rcases isMark with rfl | rfl | rfl
  · rfl
  · rw [show before ++ ['0', 'x'] = before ++ ['0'] ++ ['x'] by simp]
    rfl
  · rw [show before ++ ['0', 'X'] = before ++ ['0'] ++ ['X'] by simp]
    rfl

theorem run_hex {mark digits : List Char} (isMark : IsHexMark mark) (notEmpty : digits ≠ [])
    (areDigits : ∀ char ∈ digits, digitWorth char < 16) (before after : List Char) :
    blank.run before (mark ++ digits ++ after) =
      (hex (place before) (digitsValue 16 digits) true).run (before ++ (mark ++ digits)) after := by
  have isRun := run_digits (@accumulates_hex (place before)) (by decide) areDigits []
    (before ++ mark) after false
  rw [List.nil_append, List.isEmpty_eq_false_iff.2 notEmpty] at isRun
  rw [List.append_assoc, run_hexMark isMark, ← List.append_assoc]
  exact isRun

theorem run_numeral {base number : Nat} {text after : List Char}
    (isNumeral : Numeral base text number) (ends : EndsNumeral base after) (before : List Char) :
    blank.run before (text ++ after) =
      .ok (.number (.ofNat number) (place before), before ++ text, after) := by
  have noDigit : ∀ base ≤ 10, ∀ char ∈ after.head?, digitValue? base char = none := by
    intro base small char isNext
    have notDigit := (ends char isNext).1
    rw [ne_eq, SymbolClass.ofChar_digit_iff_isDigit] at notDigit
    exact Option.not_isSome_iff_eq_none.1 fun isSome => notDigit (IsDigit.mono isSome small)
  cases isNumeral with
  | decimal notZero areDigits =>
      rw [run_decimal notZero areDigits]
      refine run_of_before (fun char isNext position => ?_) fun position => ?_
      · simp [step, noDigit 10 (by decide) char isNext]
      · rw [digitsValue_eq (by decide) areDigits]
        rfl
  | zero =>
      rw [List.singleton_append, run, step, start_zero]
      refine run_of_before (fun char isNext position => ?_) fun position => rfl
      obtain ⟨notDigit, notLetter⟩ := ends char isNext
      simp [step, notDigit, notLetter]
  | octal isMark notEmpty areDigits =>
      rw [run_octal isMark notEmpty areDigits]
      refine run_of_before (fun char isNext position => ?_) fun position => ?_
      · obtain ⟨notDigit, notLetter⟩ := ends char isNext
        simp [step, noDigit 8 (by decide) char isNext, notDigit, notLetter]
      · rw [digitsValue_eq (by decide) areDigits]
        rfl
  | hex isMark notEmpty areDigits =>
      rw [run_hex isMark notEmpty areDigits]
      refine run_of_before (fun char isNext position => ?_) fun position => ?_
      · obtain ⟨notDigit, notLetter⟩ := ends char isNext
        replace notLetter := notLetter (by decide)
        have isNone : digitValue? 16 char = none := by
          refine Option.not_isSome_iff_eq_none.1 fun isSome => ?_
          have isDigit := isDigit_iff.1 isSome
          rw [ne_eq, SymbolClass.ofChar_digit_iff] at notDigit
          rw [ne_eq, SymbolClass.ofChar_letter_iff] at notLetter
          omega
        simp [step, isNone, notLetter]
      · rw [digitsValue_eq (by decide) areDigits]
        rfl

theorem run_misspelled {text after : List Char} {error : Position → LexError}
    (isMisspelled : Misspelled text after error) (before : List Char) :
    blank.run before (text ++ after) = .error (error (place before)) := by
  cases isMisspelled with
  | octal isMark notEmpty areDigits spoils =>
      obtain ⟨char, isNext, isPart, noDigit⟩ := spoils
      rw [run_octal isMark notEmpty areDigits]
      refine run_of_fail (fun other isOther position => ?_) fun isEmpty => ?_
      · cases Option.mem_unique isNext isOther
        refine .inr ?_
        simp only [step, digitValue?_eq (show 8 ≤ 16 by decide), if_neg (Nat.not_lt.2 noDigit)]
        rcases isPart with isPart | isPart <;> simp [isPart]
      · subst isEmpty
        cases isNext
  | noOctal noDigit =>
      rw [List.singleton_append, run, step, start_ampersand]
      refine run_of_fail (fun char isNext position => ?_) fun _ position => rfl
      simp only [step, digitValue?_eq (show 8 ≤ 16 by decide),
        if_neg (Nat.not_lt.2 (noDigit char isNext))]
      split
      · exact .inr rfl
      · exact .inl ⟨rfl, rfl⟩
  | zeroDigit isDigit => rcases isDigit with rfl | rfl <;> rfl
  | zeroLetter isLetter notX =>
      rw [List.singleton_append, run, step, start_zero]
      simp [run, step, isLetter, notX]
  | hex isMark notEmpty areDigits spoils =>
      obtain ⟨char, isNext, isPart, noDigit⟩ := spoils
      rw [run_hex isMark notEmpty areDigits]
      have isLetter : SymbolClass.ofChar char = .letter := by
        refine isPart.resolve_right fun isDigit => ?_
        rw [SymbolClass.ofChar_digit_iff_isDigit, isDigit_iff_worth (by decide)] at isDigit
        omega
      refine run_of_fail (fun other isOther position => ?_) fun isEmpty => ?_
      · cases Option.mem_unique isNext isOther
        refine .inr ?_
        simp [step, digitValue?_eq, Nat.not_lt.2 noDigit, isLetter]
      · subst isEmpty
        cases isNext
  | noHex isMark noDigit =>
      rw [run_hexMark isMark]
      refine run_of_fail (fun char isNext position => ?_) fun _ position => rfl
      simp only [step, digitValue?_eq (show 16 ≤ 16 by decide),
        if_neg (Nat.not_lt.2 (noDigit char isNext))]
      split
      · exact .inr rfl
      · exact .inl ⟨rfl, rfl⟩

end Scan

/-! ### Numbers come from literals -/

theorem exists_digits (base : Nat) (text : List Char) :
    ∃ digits after, text = digits ++ after ∧ (∀ char ∈ digits, digitWorth char < base) ∧
      NoDigit base after := by
  induction text with
  | nil => exact ⟨[], [], rfl, by simp, by simp [NoDigit]⟩
  | cons char text ih =>
      by_cases isDigit : digitWorth char < base
      · obtain ⟨digits, after, rfl, areDigits, noDigit⟩ := ih
        exact ⟨char :: digits, after, rfl, List.forall_mem_cons.2 ⟨isDigit, areDigits⟩, noDigit⟩
      · exact ⟨[], char :: text, rfl, by simp, by simpa [NoDigit] using isDigit⟩

/-- Behind all digits of its base a literal is spoilt, or ends. -/
theorem spoils_or_ends {base : Nat} {after : List Char} (noDigit : NoDigit base after) :
    Spoils base after ∨ EndsNumeral base after := by
  by_cases isPart : ∃ char ∈ after.head?, IsWordPart char
  · obtain ⟨char, isNext, isPart⟩ := isPart
    exact .inl ⟨char, isNext, isPart, noDigit char isNext⟩
  · refine .inr fun char isNext => ⟨fun isDigit => isPart ⟨char, isNext, .inr isDigit⟩,
      fun _ isLetter => isPart ⟨char, isNext, .inl isLetter⟩⟩

def OpensNumeral (text : List Char) : Prop :=
  ∃ base lexeme number after, text = lexeme ++ after ∧ Numeral base lexeme number ∧
    EndsNumeral base after

def OpensMisspelled (text : List Char) : Prop :=
  ∃ lexeme after error, text = lexeme ++ after ∧ Misspelled lexeme after error

theorem opens_hex {mark : List Char} (isMark : IsHexMark mark) (text : List Char) :
    OpensNumeral (mark ++ text) ∨ OpensMisspelled (mark ++ text) := by
  obtain ⟨digits, after, rfl, areDigits, noDigit⟩ := exists_digits 16 text
  by_cases isEmpty : digits = []
  · subst isEmpty
    exact .inr ⟨_, _, _, rfl, .noHex isMark noDigit⟩
  · rcases spoils_or_ends noDigit with spoils | ends
    · exact .inr ⟨_, _, _, (List.append_assoc ..).symm, .hex isMark isEmpty areDigits spoils⟩
    · exact .inl ⟨_, _, _, _, (List.append_assoc ..).symm, .hex isMark isEmpty areDigits, ends⟩

/-- The mark `0` needs a digit behind it, for without one it is a literal of its own. -/
theorem opens_octal {mark : Char} {text : List Char}
    (isMark : mark = '&' ∨ mark = '0' ∧ ∃ digit ∈ text.head?, digitWorth digit < 8) :
    OpensNumeral (mark :: text) ∨ OpensMisspelled (mark :: text) := by
  obtain ⟨digits, after, rfl, areDigits, noDigit⟩ := exists_digits 8 text
  by_cases isEmpty : digits = []
  · subst isEmpty
    rcases isMark with rfl | ⟨-, digit, isFirst, isDigit⟩
    · exact .inr ⟨_, _, _, rfl, .noOctal noDigit⟩
    · exact absurd isDigit (Nat.not_lt.2 (noDigit digit isFirst))
  · replace isMark : mark = '0' ∨ mark = '&' := isMark.symm.imp And.left id
    rcases spoils_or_ends noDigit with spoils | ends
    · exact .inr ⟨_, _, _, rfl, .octal isMark isEmpty areDigits spoils⟩
    · exact .inl ⟨_, _, _, _, rfl, .octal isMark isEmpty areDigits, ends⟩

theorem opens_zero (text : List Char) :
    OpensNumeral ('0' :: text) ∨ OpensMisspelled ('0' :: text) := by
  cases text with
  | nil => exact .inl ⟨_, _, _, _, rfl, .zero, by simp [EndsNumeral]⟩
  | cons char text =>
      by_cases isOctal : digitWorth char < 8
      · exact opens_octal (.inr ⟨rfl, char, rfl, isOctal⟩)
      cases isClass : SymbolClass.ofChar char with
      | digit =>
          refine .inr ⟨_, _, _, rfl, .zeroDigit ?_⟩
          rw [← isDigit_iff_worth (by decide), isDigit_iff] at isOctal
          rw [SymbolClass.ofChar_digit_iff] at isClass
          rw [← Char.toNat_inj, ← Char.toNat_inj]
          simp only [Char.reduceToNat]
          omega
      | letter =>
          by_cases isX : char = 'x' ∨ char = 'X'
          · rcases isX with rfl | rfl
            · exact opens_hex (.inr (.inl rfl)) text
            · exact opens_hex (.inr (.inr rfl)) text
          · exact .inr ⟨_, _, _, rfl, .zeroLetter isClass (not_or.1 isX)⟩
      | whitespace | endOfText | other =>
          refine .inl ⟨_, _, _, _, rfl, .zero, fun next isNext => ?_⟩
          cases isNext
          simp [isClass]

theorem opens_numeral {first : Char} (others : List Char)
    (isFirst : digitWorth first < 10 ∨ first = '&' ∨ first = '$') :
    OpensNumeral (first :: others) ∨ OpensMisspelled (first :: others) := by
  rcases isFirst with isDigit | rfl | rfl
  · by_cases isZero : first = '0'
    · subst isZero
      exact opens_zero others
    obtain ⟨digits, after, rfl, areDigits, noDigit⟩ := exists_digits 10 others
    refine .inl ⟨_, _, _, _, rfl, .decimal isZero (List.forall_mem_cons.2 ⟨isDigit, areDigits⟩),
      fun char isNext => ⟨?_, by simp⟩⟩
    rw [ne_eq, SymbolClass.ofChar_digit_iff_isDigit, isDigit_iff_worth (by decide)]
    exact Nat.not_lt.2 (noDigit char isNext)
  · exact opens_octal (.inl rfl)
  · exact opens_hex (.inl rfl) others

theorem Lexeme.opens_of_number {text : List Char} {spelled : Position → Token} {position : Position}
    (isLexeme : Lexeme text spelled) (isNumber : (spelled position).kind = .number) :
    ∃ first others, text = first :: others ∧
      (digitWorth first < 10 ∨ first = '&' ∨ first = '$') := by
  cases isLexeme with
  | @word first others =>
      have notNumber : TokenKind.ofSpelling (String.ofList (first :: others)) ≠ .number :=
        TokenKind.ofSpelling_ne (by decide) (by decide) _
      unfold Token.word at isNumber
      split at isNumber
      · cases isNumber
      · exact absurd isNumber notNumber
  | decimal isDigit =>
      exact ⟨_, _, rfl, .inl ((isDigit_iff_worth (by decide)).1 isDigit)⟩
  | zero => exact ⟨'0', [], rfl, .inl (by decide)⟩
  | octal isMark =>
      rcases isMark with rfl | rfl
      · exact ⟨_, _, rfl, .inl (by decide)⟩
      · exact ⟨_, _, rfl, .inr (.inl rfl)⟩
  | hex isMark =>
      rcases isMark with rfl | rfl | rfl
      · exact ⟨_, _, rfl, .inr (.inr rfl)⟩
      · exact ⟨_, _, rfl, .inl (by decide)⟩
      · exact ⟨_, _, rfl, .inl (by decide)⟩
  | symbol isText notReserved =>
      cases isNumber
      cases isText

namespace Lexer

variable {before after : List Char} {lexer : Lexer}

theorem next_of_error {error : LexError} (stands : lexer.At before after)
    (noneReturned : lexer.returned = []) (isRun : Scan.run .blank before after = .error error) :
    ∃ rest, lexer.next = .error error rest := by
  have gives := next_eq stands noneReturned
  cases isNext : lexer.next with
  | ok token rest =>
      rw [isNext] at gives
      obtain ⟨-, _, _, isSame, -⟩ := gives
      cases isRun.symm.trans isSame
  | error other rest =>
      rw [isNext] at gives
      cases isRun.symm.trans gives.2
      exact ⟨rest, rfl⟩

theorem next_numeral {gap text left : List Char} {base number : Nat} (isGap : Gap gap)
    (isNumeral : Numeral base text number) (ends : EndsNumeral base left)
    (stands : lexer.At before (gap ++ (text ++ left))) (noneReturned : lexer.returned = []) :
    ∃ rest, lexer.next = .ok (.number (.ofNat number) (place (before ++ gap))) rest ∧
      rest.At (before ++ gap ++ text) left ∧ rest.returned = [] := by
  apply next_of_run stands noneReturned
  rw [Scan.run_gap isGap, Scan.run_numeral isNumeral ends]

theorem next_misspelled {gap text left : List Char} {error : Position → LexError} (isGap : Gap gap)
    (isMisspelled : Misspelled text left error) (stands : lexer.At before (gap ++ (text ++ left)))
    (noneReturned : lexer.returned = []) :
    ∃ rest, lexer.next = .error (error (place (before ++ gap))) rest := by
  apply next_of_error stands noneReturned
  rw [Scan.run_gap isGap, Scan.run_misspelled isMisspelled]

theorem numeral_of_next {token : Token} {rest : Lexer} (stands : lexer.At before after)
    (noneReturned : lexer.returned = []) (ok : lexer.next = .ok token rest)
    (isNumber : token.kind = .number) :
    ∃ gap base text number left, after = gap ++ (text ++ left) ∧ Gap gap ∧
      Numeral base text number ∧ EndsNumeral base left := by
  obtain ⟨gap, isGap, -, ⟨lexeme, spelled, left, rfl, -, rfl, isLexeme, -⟩ | ⟨-, -, rfl⟩⟩ :=
    next_cut stands noneReturned ok
  · obtain ⟨first, others, rfl, isFirst⟩ := isLexeme.opens_of_number isNumber
    rw [List.append_assoc] at stands ⊢
    rcases opens_numeral (others ++ left) isFirst with
        ⟨base, text, number, behind, isText, isNumeral⟩ | ⟨text, behind, error, isText, spoilt⟩
    · rw [List.cons_append, isText]
      exact ⟨gap, base, text, number, behind, rfl, isGap, isNumeral⟩
    · rw [List.cons_append, isText] at stands
      obtain ⟨last, isError⟩ := next_misspelled isGap spoilt stands noneReturned
      cases ok.symm.trans isError
  · cases isNumber

/-- A lexer in front of a gap and a literal gives one number, which is that of the literal in 32 bits
with a sign, and stands behind the literal; in front of a spoilt literal it gives the error; and every
number it gives is a literal of the text. -/
theorem next_number (stands : lexer.At before after) (noneReturned : lexer.returned = []) :
    (∀ gap base text number left, after = gap ++ (text ++ left) → Gap gap →
      Numeral base text number → EndsNumeral base left →
      ∃ value rest, value.toInt = (number : Int).bmod (2 ^ 32) ∧
        lexer.next = .ok (.number value (place (before ++ gap))) rest ∧
        rest.At (before ++ gap ++ text) left ∧ rest.returned = []) ∧
    (∀ gap text left error, after = gap ++ (text ++ left) → Gap gap → Misspelled text left error →
      ∃ rest, lexer.next = .error (error (place (before ++ gap))) rest) ∧
    ∀ token rest, lexer.next = .ok token rest → token.kind = .number →
      ∃ gap base text number left, after = gap ++ (text ++ left) ∧ Gap gap ∧
        Numeral base text number ∧ EndsNumeral base left := by
  refine ⟨?_, ?_, fun token rest => numeral_of_next stands noneReturned⟩
  · rintro gap base text number left rfl isGap isNumeral ends
    obtain ⟨rest, isNext, restStands, restReturned⟩ :=
      next_numeral isGap isNumeral ends stands noneReturned
    exact ⟨_, rest, Int32.toInt_ofNat, isNext, restStands, restReturned⟩
  · rintro gap text left error rfl isGap isMisspelled
    exact next_misspelled isGap isMisspelled stands noneReturned

theorem next_number_wrapped :
    ∃ value rest, value.toInt = -1 ∧
      (ofText "{a}0x1fFFFffffF;").next = .ok (.number value ⟨1, 4⟩) rest ∧
      rest.At "{a}0x1fFFFffffF".toList [';'] ∧ rest.returned = [] := by
  obtain ⟨literals, -, -⟩ := next_number (at_ofText "{a}0x1fFFFffffF;") rfl
  have isGap : Gap "{a}".toList := @Gap.comment ['a'] [] (by decide) .nil
  have areDigits : "1fFFFffffF".toList.all fun char => digitWorth char < 16 := by decide
  have isNumeral := @Numeral.hex ['0', 'x'] "1fFFFffffF".toList (.inr (.inl rfl)) (by simp)
    (by simpa using areDigits)
  obtain ⟨value, rest, isValue, isNext, stands⟩ :=
    literals "{a}".toList 16 _ _ [';'] rfl isGap isNumeral
      (by simp [EndsNumeral]; decide)
  exact ⟨value, rest, isValue.trans (by decide +kernel), isNext, stands⟩

/-- A `0` alone has no digits behind its mark, and is no error. -/
theorem next_zero_alone :
    (∃ rest, (ofText "0").next = .ok (.number 0 ⟨1, 1⟩) rest) ∧
      ¬ ∀ mark, mark = '0' ∨ mark = '&' →
        ∃ rest, (ofText (.singleton mark)).next = .error (.invalidOctal ⟨1, 1⟩) rest := by
  obtain ⟨rest, isNext, -, -⟩ := next_of_run (at_ofText "0") rfl
    (show Scan.run .blank [] "0".toList = .ok (.number 0 ⟨1, 1⟩, "0".toList, []) by rfl)
  refine ⟨⟨rest, isNext⟩, fun allOctal => ?_⟩
  obtain ⟨last, isError⟩ := allOctal '0' (.inl rfl)
  cases isNext.symm.trans isError

end Lexer

end MiniPascal
