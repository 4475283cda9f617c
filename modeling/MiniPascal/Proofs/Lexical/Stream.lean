import MiniPascal.Parser.Basic
import MiniPascal.Proofs.Ensures
import MiniPascal.Proofs.Grammar.Rules
import MiniPascal.Proofs.Lexical.Scanning

/-!
# The lexemes in front of a parser

A lexer that is asked again and again hands out one lexeme after the other.  `Lexer.lexemes` are those
it still has to give, `Parser.lexemes` also the one in hand.  Literal text and its quotes are one
lexeme, as the parser draws them.  Every lexeme takes something off `Lexer.remaining`, so that they
come to an end: at the end of the input or at a fault.
-/

namespace MiniPascal

theorem Symbol.size_le_one (symbol : Symbol) : symbol.size ≤ 1 := by
  unfold size
  split <;> simp

namespace Lexer

/-! ### Every token takes something off the text -/

theorem remaining_scan {state : Scan} {symbol : Symbol} {reader : Reader} {token : Token}
    {rest : Lexer} (ok : scan state symbol reader = .ok token rest) :
    rest.remaining ≤ reader.remaining + symbol.size ∧
      ((state = .blank ∨ ∃ origin, state = .comment origin) → token.kind ≠ .endOfInput →
        rest.remaining < reader.remaining + symbol.size) := by
  fun_induction scan state symbol reader with
  | case1 state reader position result isResult =>
      cases ok
      refine ⟨by simp [remaining, ofReader], ?_⟩
      rintro (rfl | ⟨origin, rfl⟩) notEnd
      · cases isResult
        exact absurd rfl notEnd
      · cases isResult
  | case3 state reader char position next step symbol rest isRead smaller ih =>
      have fewer := Reader.remaining_read isRead
      obtain ⟨le, -⟩ := ih ok
      simp only [Symbol.size] at fewer ⊢
      exact ⟨by omega, fun _ _ => by omega⟩
  | case5 state reader char position result step =>
      cases ok
      simp [remaining, ofReader, Symbol.size]
  | case6 state reader char position step result isResult =>
      cases ok
      refine ⟨by simp [remaining, Symbol.size, Nat.add_comm], ?_⟩
      rintro (rfl | ⟨origin, rfl⟩)
      · exact absurd step (Scan.start_ne_before char position)
      · cases step
  | _ => cases ok

theorem remaining_symbol {lexer rest : Lexer} {symbol : Symbol}
    (ok : lexer.symbol = .ok symbol rest) :
    rest.returned = lexer.returned ∧ rest.carry = none ∧
      rest.remaining + symbol.size ≤ lexer.remaining := by
  unfold Lexer.symbol at ok
  split at ok
  · rename_i isCarry
    cases ok
    refine ⟨rfl, rfl, ?_⟩
    have small := symbol.size_le_one
    simp only [remaining, isCarry, Option.isSome_none, Option.isSome_some, Bool.false_eq_true,
      if_false, if_true]
    omega
  · rename_i isCarry
    split at ok
    · rename_i isRead
      cases ok
      have fewer := Reader.remaining_read isRead
      refine ⟨rfl, isCarry, ?_⟩
      simp only [remaining, isCarry]
      omega
    · cases ok

theorem remaining_next {lexer rest : Lexer} {token : Token} (ok : lexer.next = .ok token rest) :
    rest.remaining ≤ lexer.remaining ∧
      (token.kind ≠ .endOfInput → rest.remaining < lexer.remaining) := by
  unfold next at ok
  split at ok
  · rename_i first others isReturned
    cases ok
    simp only [remaining, isReturned, List.length_cons]
    exact ⟨by omega, fun _ => by omega⟩
  · split at ok
    · rename_i symbol behind isSymbol
      obtain ⟨same, -, fewer⟩ := remaining_symbol isSymbol
      obtain ⟨le, lt⟩ := remaining_scan ok
      have inReader : behind.reader.remaining ≤ behind.remaining := by
        simp only [remaining]
        omega
      exact ⟨by omega, fun notEnd => by have := lt (.inl rfl) notEnd; omega⟩
    · cases ok

theorem remaining_collect {start : Position} {text result : String} {symbol : Symbol}
    {reader : Reader} {rest : Lexer} (ok : collect start text symbol reader = .ok result rest) :
    rest.remaining ≤ reader.remaining + symbol.size ∧ rest.returned = [] := by
  fun_induction collect start text symbol reader with
  | case2 text reader char position isQuote =>
      cases ok
      exact ⟨by simp [remaining, Symbol.size, Nat.add_comm], rfl⟩
  | case3 text reader char position notQuote symbol rest isRead smaller ih =>
      have fewer := Reader.remaining_read isRead
      obtain ⟨le, isNil⟩ := ih ok
      simp only [Symbol.size] at fewer ⊢
      exact ⟨by omega, isNil⟩
  | _ => cases ok

theorem remaining_rawText {lexer rest : Lexer} {text : String}
    (ok : lexer.rawText = .ok text rest) : rest.remaining ≤ lexer.remaining := by
  unfold rawText at ok
  split at ok
  · cases ok
  · rename_i symbol reader carry returned isSymbol
    obtain ⟨same, isNone, fewer⟩ := remaining_symbol isSymbol
    split at ok
    · rename_i collected
      cases ok
      obtain ⟨le, isNil⟩ := remaining_collect collected
      simp only [remaining, isNil, List.length_nil] at *
      omega
    · cases ok

/-! ### Lexemes -/

/-- The whole lexeme that begins with a token in hand, and the lexer behind it.  There is none if
literal text does not end, and nothing is drawn behind the end of the input. -/
def complete (token : Token) (lexer : Lexer) : Option (Token × Lexer) :=
  if token.kind = .endOfInput then none
  else if token.kind = .apostrophe then
    match lexer.rawText with
    | .error _ _ => none
    | .ok text inner =>
        match inner.next with
        | .error _ _ => none
        | .ok quote rest =>
            if quote.kind = .apostrophe then some ({ token with text := text }, rest) else none
  else some (token, lexer)

/-- The last lexeme: a token in hand that nothing can be drawn behind.  An end of the input that
cannot be passed is marked. -/
def final (token : Token) (lexer : Lexer) : Token :=
  if token.kind = .endOfInput then
    match lexer.next with
    | .ok _ _ => .plain .endOfInput token.position
    | .error _ _ => ⟨.endOfInput, "unreadable", 0, token.position⟩
  else token

theorem remaining_complete {token whole : Token} {lexer rest : Lexer}
    (completed : complete token lexer = some (whole, rest)) :
    token.kind ≠ .endOfInput ∧ rest.remaining ≤ lexer.remaining := by
  unfold complete at completed
  split at completed
  · cases completed
  rename_i notEnd
  refine ⟨notEnd, ?_⟩
  split at completed
  · split at completed
    · cases completed
    · rename_i text inner isText
      split at completed
      · cases completed
      · rename_i quote behind isQuote
        split at completed
        · cases completed
          exact Nat.le_trans (remaining_next isQuote).1 (remaining_rawText isText)
        · cases completed
  · cases completed
    exact Nat.le_refl _

def lexemes (lexer : Lexer) : List Token :=
  match isNext : lexer.next with
  | .error _ _ => []
  | .ok token behind =>
      match completed : complete token behind with
      | none => [final token behind]
      | some (whole, rest) =>
          have : rest.remaining < lexer.remaining :=
            have ⟨notEnd, le⟩ := remaining_complete completed
            Nat.lt_of_le_of_lt le ((remaining_next isNext).2 notEnd)
          whole :: rest.lexemes
termination_by lexer.remaining

def lexemesFrom (token : Token) (lexer : Lexer) : List Token :=
  match complete token lexer with
  | none => [final token lexer]
  | some (whole, rest) => whole :: rest.lexemes

theorem lexemes_of_next {lexer rest : Lexer} {token : Token} (ok : lexer.next = .ok token rest) :
    lexer.lexemes = lexemesFrom token rest := by
  rw [lexemes, lexemesFrom]
  split
  · rename_i isError
    cases ok.symm.trans isError
  · rename_i token' rest' isOk
    cases ok.symm.trans isOk
    split <;> rename_i completed
    · simp only [completed]
    · simp only [completed]

theorem lexemes_of_error {lexer rest : Lexer} {error : LexError}
    (isError : lexer.next = .error error rest) : lexer.lexemes = [] := by
  rw [lexemes]
  split
  · rfl
  · rename_i isOk
    cases isError.symm.trans isOk

theorem lexemesFrom_ne_nil (token : Token) (lexer : Lexer) : lexemesFrom token lexer ≠ [] := by
  unfold lexemesFrom
  split <;> exact List.cons_ne_nil _ _

theorem length_lexemes (lexer : Lexer) : lexer.lexemes.length ≤ lexer.remaining + 1 := by
  fun_induction lexemes lexer with
  | case1 lexer error rest isError => simp
  | case2 lexer token behind isNext completed => simp
  | case3 lexer token behind isNext whole rest completed fewer ih =>
      rw [List.length_cons]
      omega

end Lexer

namespace Parser

def lexemes (parser : Parser) : List Token := parser.lexer.lexemesFrom parser.current

/-- What a rule finds in front of it, as far as a grammar knows it. -/
def input (parser : Parser) : Input := ⟨parser.lexemes.map Token.bare, parser.nextLoop⟩

end Parser

end MiniPascal
