import MiniPascal.Proofs.Ensures
import MiniPascal.Proofs.Tree.Grammatical

/-!
# Words

The identifiers that a lexer hands out are spelled as identifiers: what the scanning automaton has
collected of a word is a word at every step.
-/

namespace MiniPascal

def Token.Sound (token : Token) : Prop := token.kind = .ident → IsIdentifier token.text

def Scan.Sound : Scan → Prop
  | word _ text => IsWord text
  | _ => True

def Scan.Step.Sound : Scan.Step → Prop
  | more scan => scan.Sound
  | last token => token.Sound
  | before | fail _ => True

theorem Token.sound_plain {kind : TokenKind} {position : Position} (h : kind ≠ .ident) :
    (Token.plain kind position).Sound :=
  fun isIdent => absurd isIdent h

theorem Token.sound_number {value : Int32} {position : Position} :
    (Token.number value position).Sound := by
  simp [Sound, number]

theorem Token.sound_word {text : String} {position : Position} (h : IsWord text) :
    (Token.word text position).Sound := by
  unfold Token.word
  split
  · rename_i isIdent
    exact fun _ => ⟨h, isIdent⟩
  · rename_i notIdent
    exact sound_plain notIdent

theorem IsWord.singleton {char : Char} (h : SymbolClass.ofChar char = .letter) :
    IsWord char.toString := by
  refine ⟨by simp [maxIdentifierLength, Char.toString], char, [], ?_, h, by simp⟩
  simp [Char.toString]

theorem IsWord.push {text : String} {char : Char} (h : IsWord text)
    (short : text.length < maxIdentifierLength)
    (class_ : SymbolClass.ofChar char = .letter ∨ SymbolClass.ofChar char = .digit) :
    IsWord (text.push char) := by
  obtain ⟨-, first, rest, spelled, isLetter, others⟩ := h
  refine ⟨by simpa using Nat.succ_le_of_lt short, first, rest ++ [char], by simp [spelled], isLetter, ?_⟩
  intro other isOther
  rcases List.mem_append.1 isOther with isRest | isLast
  · exact others other isRest
  · simp only [List.mem_singleton] at isLast
    exact isLast ▸ class_

namespace Scan

theorem ofChar?_ne_ident (char : Char) : TokenKind.ofChar? char ≠ some .ident := by
  unfold TokenKind.ofChar?
  split <;> simp

theorem sound_start (char : Char) (position : Position) : (start char position).Sound := by
  unfold start
  split
  · rename_i kind isKind
    refine Token.sound_plain ?_
    rintro rfl
    exact ofChar?_ne_ident char isKind
  · split <;> try trivial
    split <;> try trivial
    rename_i isLetter
    exact IsWord.singleton isLetter

theorem sound_step {scan : Scan} (sound : scan.Sound) (char : Char) (position : Position) :
    (scan.step char position).Sound := by
  cases scan with
  | blank => exact sound_start char position
  | word origin text =>
      simp only [step]
      split
      · rename_i class_
        split
        · rename_i short
          refine IsWord.push sound short ?_
          simpa using class_
        · trivial
      · trivial
  | comment origin =>
      simp only [step, Step.Sound]
      split <;> trivial
  | decimal origin value => simp only [step]; split <;> trivial
  | zero origin =>
      simp only [step]
      split
      · split <;> trivial
      · split
        · split <;> trivial
        · trivial
  | octal origin value digits =>
      simp only [step]
      split
      · trivial
      · split <;> trivial
  | hex origin value digits =>
      simp only [step]
      split
      · trivial
      · split <;> trivial
  | less origin =>
      simp only [step]
      split
      · exact Token.sound_plain (by decide)
      · exact Token.sound_plain (by decide)
      · trivial
  | greater origin =>
      simp only [step]
      split
      · exact Token.sound_plain (by decide)
      · trivial
  | colon origin =>
      simp only [step]
      split
      · exact Token.sound_plain (by decide)
      · trivial

theorem sound_result {scan : Scan} {position : Position} {token : Token} (sound : scan.Sound)
    (ok : scan.result position = .ok token) : token.Sound := by
  cases scan with
  | word origin text =>
      simp only [result, Except.ok.injEq] at ok
      exact ok ▸ Token.sound_word sound
  | comment origin => simp [result] at ok
  | decimal origin value | zero origin =>
      simp only [result, Except.ok.injEq] at ok
      exact ok ▸ Token.sound_number
  | octal origin value digits | hex origin value digits =>
      simp only [result] at ok
      split at ok
      · simp only [Except.ok.injEq] at ok
        exact ok ▸ Token.sound_number
      · simp at ok
  | blank | less origin | greater origin | colon origin =>
      simp only [result, Except.ok.injEq] at ok
      exact ok ▸ Token.sound_plain (by decide)

end Scan

namespace Lexer

def Sound (lexer : Lexer) : Prop := ∀ token ∈ lexer.returned, token.Sound

theorem sound_ofReader (reader : Reader) : (ofReader reader).Sound := by simp [Sound, ofReader]

theorem sound_giveBack {lexer : Lexer} {token : Token} (sound : lexer.Sound)
    (tokenSound : token.Sound) : (lexer.giveBack token).Sound := by
  intro other isOther
  rcases List.mem_cons.1 isOther with rfl | isOther
  · exact tokenSound
  · exact sound other isOther

theorem sound_scan {state : Scan} {symbol : Symbol} {reader : Reader} {token : Token}
    {lexer : Lexer} (sound : state.Sound) (ok : scan state symbol reader = .ok token lexer) :
    token.Sound ∧ lexer.returned = [] := by
  fun_induction scan state symbol reader with
  | case1 state reader position result isResult =>
      cases ok
      exact ⟨Scan.sound_result sound isResult, rfl⟩
  | case3 state reader char position next step symbol rest isRead smaller ih =>
      have stepSound := Scan.sound_step sound char position
      rw [step] at stepSound
      exact ih stepSound ok
  | case5 state reader char position result step =>
      cases ok
      have stepSound := Scan.sound_step sound char position
      rw [step] at stepSound
      exact ⟨stepSound, rfl⟩
  | case6 state reader char position step result isResult =>
      cases ok
      exact ⟨Scan.sound_result sound isResult, rfl⟩
  | _ => simp at ok

theorem ensures_next {lexer : Lexer} (sound : lexer.Sound) :
    Ensures Lexer.next (fun token rest => token.Sound ∧ rest.Sound) lexer := by
  intro token rest ok
  unfold next at ok
  split at ok
  · rename_i first others isReturned
    cases ok
    refine ⟨sound token (by simp [isReturned]), fun other isOther => ?_⟩
    exact sound other (by simpa [isReturned] using .inr isOther)
  · split at ok
    · obtain ⟨tokenSound, isNil⟩ := sound_scan (show Scan.Sound .blank from trivial) ok
      exact ⟨tokenSound, by simp [Sound, isNil]⟩
    · cases ok

/-- No quote stands in front of the quote that ends a text. -/
theorem not_mem_collect {start : Position} {text result : String} {symbol : Symbol}
    {reader : Reader} {lexer : Lexer} (notMem : '\'' ∉ text.toList)
    (ok : collect start text symbol reader = .ok result lexer) : '\'' ∉ result.toList := by
  fun_induction collect start text symbol reader with
  | case2 text reader char position isQuote =>
      cases ok
      exact notMem
  | case3 text reader char position notQuote symbol rest isRead smaller ih =>
      refine ih ?_ ok
      simp only [String.toList_push, List.mem_append, List.mem_singleton, not_or]
      refine ⟨notMem, fun isQuote => notQuote ?_⟩
      simp [← isQuote]
  | _ => simp at ok

theorem returned_of_symbol {lexer rest : Lexer} {symbol : Symbol}
    (ok : lexer.symbol = .ok symbol rest) : rest.returned = lexer.returned := by
  unfold Lexer.symbol at ok
  split at ok
  · cases ok
    rfl
  · split at ok <;> cases ok
    rfl

theorem ensures_rawText {lexer : Lexer} (sound : lexer.Sound) :
    Ensures Lexer.rawText (fun text rest => '\'' ∉ text.toList ∧ rest.Sound) lexer := by
  intro text rest ok
  unfold rawText at ok
  split at ok
  · cases ok
  · rename_i isSymbol
    have same := returned_of_symbol isSymbol
    split at ok
    · rename_i collected
      cases ok
      refine ⟨not_mem_collect (by simp) collected, ?_⟩
      rw [Sound, same]
      exact sound
    · cases ok

/-! ### Steps that fail -/

theorem returned_of_symbol_error {lexer rest : Lexer} {error : LexError}
    (failed : lexer.symbol = .error error rest) : rest.returned = lexer.returned := by
  unfold symbol at failed
  split at failed
  · cases failed
  · split at failed <;> cases failed
    rfl

theorem returned_of_scan_error {state : Scan} {symbol : Symbol} {reader : Reader} {rest : Lexer}
    {error : LexError} (failed : scan state symbol reader = .error error rest) :
    rest.returned = [] := by
  fun_induction scan state symbol reader with
  | case3 state reader char position next step symbol rest isRead smaller ih => exact ih failed
  | case1 | case5 | case6 => cases failed
  | _ =>
      cases failed
      rfl

theorem sound_of_next_error {lexer rest : Lexer} {error : LexError}
    (failed : lexer.next = .error error rest) : rest.Sound := by
  have noneReturned : rest.returned = [] := by
    unfold next at failed
    split at failed
    · cases failed
    · rename_i isNil
      split at failed
      · exact returned_of_scan_error failed
      · rename_i isSymbol
        cases failed
        rw [returned_of_symbol_error isSymbol, isNil]
  simp [Sound, noneReturned]

theorem sound_of_rawText_error {lexer rest : Lexer} {error : LexError} (sound : lexer.Sound)
    (failed : lexer.rawText = .error error rest) : rest.Sound := by
  have same : rest.returned = lexer.returned := by
    unfold rawText at failed
    split at failed
    · rename_i isSymbol
      cases failed
      exact returned_of_symbol_error isSymbol
    · rename_i isSymbol
      have same := returned_of_symbol isSymbol
      split at failed
      · cases failed
      · cases failed
        exact same
  rw [Sound, same]
  exact sound

end Lexer

end MiniPascal
